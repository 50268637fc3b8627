import Komika.Lib.Lookup
import Mathlib.Data.Finset.Dedup
import Mathlib.Data.Finset.Card
import Mathlib.Data.List.Dedup

/-!
# What differs between two tables

Two tables with one key, compared on some of their columns.  A key has moved if
its row was added, removed or changed in those columns.

A loop over the rows of the later table sees the added and the changed ones, each
once (`unlike`); those that it cannot see are the removed ones (`gone`).  Together
they are all that moved: `card_moved`.

* `moved`, `mem_moved`, `moved_eq_empty` — what has moved, and when nothing has;
* `mem_keys_unlike`, `card_keys_unlike` — what the loop finds, and that it finds no key
  twice;
* `mem_gone`, `gone_eq_empty` — what the loop cannot find;
* `card_moved` — the two together.
-/

namespace Komika.Lib.Table

universe u v w

variable {ρ : Type u} [Keyed ρ] {κ : Type v} [ByKey ρ κ] [DecidableEq κ]
variable {δ : Type w} [DecidableEq δ] (f : ρ → δ)

/-- The columns `f` of the row of a key. -/
def columns (t : Table ρ) (k : κ) : Option δ := (t.lookup k).map f

/-- The keys of a table, as a finite set. -/
def keys (t : Table ρ) : Finset κ := (t.rows.map key).toFinset

/-- `SELECT key, f …`, as a set. -/
def entries (t : Table ρ) : Finset (κ × δ) := (t.rows.map fun r => (key r, f r)).toFinset

/-- The keys whose row was added, removed or changed. -/
def moved (t t' : Table ρ) : Finset κ :=
  (t.keys ∪ t'.keys).filter fun k => columns f t k ≠ columns f t' k

/-- The rows of `t'` that `t` does not have under their key. -/
def unlike (t t' : Table ρ) : List ρ :=
  t'.rows.filter fun r => columns f t (key r) ≠ some (f r)

/-- The keys whose row was removed. -/
def gone (t t' : Table ρ) : Finset κ := t.keys \ t'.keys

variable {f} {t t' : Table ρ} {k : κ}

/-- A key is there if it has a row. -/
theorem mem_keys : k ∈ t.keys ↔ (t.lookup k).isSome = true := by
  rw [isSome_lookup]
  simp [keys, mem_rows]

omit [DecidableEq δ] in
/-- A key that is not there has no columns. -/
theorem columns_eq_none : columns f t k = none ↔ k ∉ t.keys := by
  rw [mem_keys, columns, Option.map_eq_none_iff, Bool.not_eq_true, Option.isSome_eq_false_iff,
    Option.isNone_iff_eq_none]

/-- The selection tells the columns of every key. -/
theorem mem_entries {d : δ} : (k, d) ∈ entries f t ↔ columns f t k = some d := by
  simp only [entries, columns, List.mem_toFinset, List.mem_map, Prod.mk.injEq,
    Option.map_eq_some_iff, lookup_eq_some, mem_rows, and_assoc]

/-- To move is to have other columns before and after. -/
theorem mem_moved : k ∈ moved f t t' ↔ columns f t k ≠ columns f t' k := by
  rw [moved, Finset.mem_filter, and_iff_right_iff_imp, Finset.mem_union]
  intro hne
  by_contra hneither
  rw [not_or] at hneither
  exact hne ((columns_eq_none.mpr hneither.1).trans (columns_eq_none.mpr hneither.2).symm)

/-- Nothing has moved exactly if the two have the same columns. -/
theorem moved_eq_empty : moved f t t' = ∅ ↔ entries f t = entries f t' := by
  have hkeys : moved f t t' = ∅ ↔ ∀ k, columns f t k = columns f t' k := by
    simp only [Finset.eq_empty_iff_forall_notMem, mem_moved, not_not]
  rw [hkeys]
  constructor
  · intro hsame
    ext ⟨k, d⟩
    rw [mem_entries, mem_entries, hsame k]
  · intro hsame k
    apply Option.ext
    intro d
    rw [← mem_entries, ← mem_entries, hsame]

/-- Nothing is gone if every earlier row still has its key. -/
theorem gone_eq_empty : gone t t' = ∅ ↔ ∀ r ∈ t, (t'.lookup (key r)).isSome = true := by
  simp only [gone, Finset.sdiff_eq_empty_iff_subset, Finset.subset_iff, mem_keys (t := t')]
  constructor
  · intro hkept r hr
    exact hkept (mem_keys.mpr (isSome_lookup.mpr ⟨r, hr, rfl⟩))
  · intro hkept k hk
    obtain ⟨r, hr, rfl⟩ := isSome_lookup.mp (mem_keys.mp hk)
    exact hkept r hr

/-- The keys of the rows that a loop over `t'` finds. -/
theorem mem_keys_unlike :
    k ∈ ((unlike f t t').map key).toFinset ↔ k ∈ t'.keys ∧ k ∈ moved f t t' := by
  have hcolumns : ∀ r ∈ t', columns f t' (key r) = some (f r) := by
    intro r hr
    rw [columns, lookup_of_mem hr, Option.map_some]
  rw [mem_moved, mem_keys, isSome_lookup]
  simp only [unlike, List.mem_toFinset, List.mem_map, List.mem_filter, mem_rows,
    decide_eq_true_eq]
  constructor
  · rintro ⟨r, ⟨hr, hne⟩, rfl⟩
    exact ⟨⟨r, hr, rfl⟩, by rwa [hcolumns r hr]⟩
  · rintro ⟨⟨r, hr, rfl⟩, hne⟩
    rw [hcolumns r hr] at hne
    exact ⟨r, ⟨hr, hne⟩, rfl⟩

/-- What is gone has moved, and the later table cannot show it. -/
theorem mem_gone : k ∈ gone t t' ↔ k ∉ t'.keys ∧ k ∈ moved f t t' := by
  rw [gone, Finset.mem_sdiff, and_comm, mem_moved]
  apply and_congr_right
  intro hgone
  rw [columns_eq_none.mpr hgone, ← not_iff_not, not_not, columns_eq_none]

/-- The rows that the loop finds have different keys. -/
theorem card_keys_unlike : ((unlike f t t').map key).toFinset.card = (unlike f t t').length := by
  have hnodup : ((unlike f t t').map (key : ρ → κ)).Nodup := by
    rw [List.Nodup, List.pairwise_map]
    apply (t'.unique.filter _).imp
    intro a b hab heq
    rw [(ByKey.clash_iff a b).mpr heq] at hab
    contradiction
  rw [List.toFinset_card_of_nodup hnodup, List.length_map]

/-- **What moved is what the loop finds, and what is gone.** -/
theorem card_moved : (moved f t t').card = (unlike f t t').length + (gone t t').card := by
  have hunion : moved f t t' = ((unlike f t t').map key).toFinset ∪ gone t t' := by
    ext k
    rw [Finset.mem_union, mem_keys_unlike, mem_gone (f := f)]
    tauto
  have hdisjoint : Disjoint ((unlike f t t').map key).toFinset (gone t t') := by
    rw [Finset.disjoint_left]
    intro k hk hgone
    exact (mem_gone (f := f).mp hgone).1 (mem_keys_unlike.mp hk).1
  rw [hunion, Finset.card_union_of_disjoint hdisjoint, card_keys_unlike]

end Komika.Lib.Table
