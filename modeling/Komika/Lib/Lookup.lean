import Komika.Lib.Table
import Mathlib.Data.List.Find

/-!
# Lookups by primary key

Where a table has one key, `lookup` reads the row of a key, and a statement is
known by what it does to every lookup.  The statements act pointwise:

* `lookup_deleteWhere`, `lookup_update` — a filter and a map of the row;
* `lookup_upsert`, `lookup_upsertAll` — the row that was there merged with the
  new one, or the new one;
* `lookup_insertAllOrIgnore` — the row that was there, or the first of the new
  ones;
* `lookup_select` — `SELECT` of at most one row for each row of a table, which
  is what a `GROUP BY` the key of that table selects.

A chain of statements is then a chain of functions on one `Option`, and two
chains agree on a key when the functions do.

`map_key_find?_upsert` and its iteration answer another question, which rows a scan by a
condition meets first: upserts that keep the condition leave the order of the rows as it
was.
-/

namespace Komika.Lib

universe u v w

/-- The table has one key. -/
class ByKey (ρ : Type u) [Keyed ρ] (κ : outParam (Type v)) where
  key : ρ → κ
  clash_iff : ∀ a b : ρ, clash a b = true ↔ key a = key b

export ByKey (key)

namespace Table

/-- The row after an upsert of `r`, where `old` was there. -/
def merged {ρ : Type u} (merge : ρ → ρ → ρ) (old : Option ρ) (r : ρ) : ρ :=
  old.elim r fun old => merge old r

@[simp] theorem merged_none {ρ : Type u} (merge : ρ → ρ → ρ) (r : ρ) :
    merged merge none r = r := rfl

@[simp] theorem merged_some {ρ : Type u} (merge : ρ → ρ → ρ) (old r : ρ) :
    merged merge (some old) r = merge old r := rfl

variable {ρ : Type u} [Keyed ρ] {κ : Type v} [ByKey ρ κ]
variable {t : Table ρ} {k : κ} {r : ρ}

/-- A function that keeps the key keeps every key. -/
theorem KeepsKeys.of_key {f : ρ → ρ} (h : ∀ r, key (f r) = key r) :
    KeepsKeys f := by
  intro a b
  rw [Bool.eq_iff_iff, ByKey.clash_iff, ByKey.clash_iff, h]

/-- And the other way round: what keeps every unique key keeps the key. -/
theorem KeepsKeys.key {f : ρ → ρ} (h : KeepsKeys f) (r : ρ) : key (f r) = key r := by
  rw [← ByKey.clash_iff, h, ByKey.clash_iff]

/-- The rows of a table with a key are distinct. -/
theorem nodup_rows {κ : Type v} [ByKey ρ κ] (t : Table ρ) : t.rows.Nodup := by
  apply t.unique.imp
  intro a b hab heq
  rw [(ByKey.clash_iff a b).mpr (congrArg key heq)] at hab
  contradiction

section Select

variable {σ : Type w} [Keyed σ] [ByKey σ κ]

/-- `SELECT`: at most one row for each row, with the same key. -/
def select (t : Table ρ) (f : ρ → Option σ)
    (h : ∀ r s, f r = some s → key s = key r) : Table σ where
  rows := t.rows.filterMap f
  unique := by
    refine List.pairwise_filterMap.mpr (t.unique.imp ?_)
    intro a b hab x hx y hy
    rw [← Bool.not_eq_true, ByKey.clash_iff] at hab ⊢
    rw [h a x hx, h b y hy]
    exact hab

theorem mem_select {f : ρ → Option σ} {h : ∀ r s, f r = some s → key s = key r}
    {x : σ} : x ∈ t.select f h ↔ ∃ r ∈ t, f r = some x := by
  simp [select, ← mem_rows]

end Select

/-! ## Pointwise

Each statement as a function of the row of one key. -/

variable [DecidableEq κ]

/-- `SELECT … WHERE key = k`. -/
def lookup (t : Table ρ) (k : κ) : Option ρ := t.rows.find? fun r => key r = k

/-- The row of a key is the row with this key. -/
theorem lookup_eq_some : t.lookup k = some r ↔ r ∈ t ∧ key r = k := by
  have hone : ∀ a b : ρ, decide (key a = k) = true → decide (key b = k) = true →
      clash a b = true := by
    intro a b ha hb
    rw [ByKey.clash_iff, of_decide_eq_true ha, of_decide_eq_true hb]
  rw [lookup, find?_eq_some_iff hone, decide_eq_true_eq]

theorem lookup_eq_none : t.lookup k = none ↔ ∀ r ∈ t, key r ≠ k := by
  simp [lookup, List.find?_eq_none, mem_rows]

/-- Every row is found under its key. -/
theorem lookup_of_mem (h : r ∈ t) : t.lookup (key r) = some r :=
  lookup_eq_some.mpr ⟨h, rfl⟩

theorem key_of_lookup (h : t.lookup k = some r) : key r = k :=
  (lookup_eq_some.mp h).2

theorem mem_of_lookup (h : t.lookup k = some r) : r ∈ t :=
  (lookup_eq_some.mp h).1

/-- A key is found if some row has it. -/
theorem isSome_lookup : (t.lookup k).isSome = true ↔ ∃ r ∈ t, key r = k := by
  simp [Option.isSome_iff_exists, lookup_eq_some]

/-- Two tables that agree on membership of the rows of a key agree on the
key. -/
theorem lookup_congr {t' : Table ρ}
    (h : ∀ r, key r = k → (r ∈ t ↔ r ∈ t')) : t.lookup k = t'.lookup k := by
  apply Option.ext
  intro r
  simp only [lookup_eq_some]
  exact and_congr_left (h r)

/-- What only the row of a key offers is offered by the row that is looked up. -/
theorem filterMap_of_key {α : Type w} {f : ρ → Option α} (h : ∀ r ∈ t, key r ≠ k → f r = none) :
    t.rows.filterMap f = ((t.lookup k).bind f).toList := by
  have hkeys : t.rows.Pairwise fun a b => key a ≠ key b := t.unique.imp fun hab heq => by
    rw [(ByKey.clash_iff _ _).mpr heq] at hab
    contradiction
  unfold lookup
  revert h hkeys
  simp only [← mem_rows]
  generalize t.rows = rows
  intro h hkeys
  induction rows with
  | nil => rfl
  | cons a rows ih =>
      rw [List.pairwise_cons] at hkeys
      rw [List.forall_mem_cons] at h
      by_cases ha : key a = k
      · have hrest : rows.filterMap f = [] := by
          rw [List.filterMap_eq_nil_iff]
          intro b hb
          exact h.2 b hb fun hbk => hkeys.1 b hb (ha.trans hbk.symm)
        rw [List.find?_cons_of_pos (by simpa using ha), Option.bind_some, List.filterMap_cons]
        cases f a <;> simp [hrest]
      · rw [List.find?_cons_of_neg (by simpa using ha), List.filterMap_cons, h.1 ha]
        exact ih h.2 hkeys.2

@[simp] theorem lookup_empty : (empty : Table ρ).lookup k = none := rfl

/-- `DELETE` leaves the row unless it meets the condition. -/
@[simp] theorem lookup_deleteWhere {p : ρ → Bool} :
    (t.deleteWhere p).lookup k = (t.lookup k).filter fun r => !p r := by
  apply Option.ext
  intro r
  simp only [lookup_eq_some, mem_deleteWhere, Option.filter_eq_some_iff,
    Bool.not_eq_true']
  exact and_right_comm

/-- `DELETE … WHERE key = k'`. -/
theorem lookup_deleteWhere_key {k' : κ} :
    (t.deleteWhere fun r => key r = k').lookup k = if k = k' then none else t.lookup k := by
  rw [lookup_deleteWhere]
  cases hrow : t.lookup k with
  | none => simp
  | some r =>
      have hkey : key r = k := key_of_lookup hrow
      simp only [Option.filter_some, hkey]
      split <;> simp_all

/-- `UPDATE` changes the row if it meets the condition. -/
@[simp] theorem lookup_update {p : ρ → Bool} {f : ρ → ρ} {h : KeepsKeys f} :
    (t.update p f h).lookup k = (t.lookup k).map fun r => if p r then f r else r := by
  have hkey : ∀ r, key (if p r then f r else r) = key r := by
    intro r
    split
    · exact h.key r
    · rfl
  apply Option.ext
  intro x
  simp only [lookup_eq_some, mem_update, Option.map_eq_some_iff]
  constructor
  · rintro ⟨⟨r, hr, rfl⟩, hk⟩
    exact ⟨r, ⟨hr, (hkey r).symm.trans hk⟩, rfl⟩
  · rintro ⟨r, ⟨hr, hk⟩, rfl⟩
    exact ⟨⟨r, hr, rfl⟩, (hkey r).trans hk⟩

/-- A key that clashes with no row is the key of none. -/
theorem lookup_of_free (htaken : t.taken r = false) : t.lookup (key r) = none := by
  rw [lookup_eq_none]
  intro y hy hk
  have hclash := taken_eq_false.mp htaken y hy
  rw [← Bool.not_eq_true, ByKey.clash_iff] at hclash
  exact hclash hk.symm

/-- An upsert writes the row of its key and no other. -/
theorem lookup_upsert {merge : ρ → ρ → ρ} {h : KeepsKeys (merge · r)} :
    (t.upsert r merge h).lookup k =
      if key r = k then some (merged merge (t.lookup k) r) else t.lookup k := by
  by_cases htaken : t.taken r = false
  · -- no row has the key of `r`
    have hpush : t.upsert r merge h = t.push r htaken := by
      rw [upsert, dif_pos htaken]
    have hfree : t.lookup (key r) = none := lookup_of_free htaken
    rw [hpush]
    split
    · next hk =>
        rw [← hk, hfree]
        exact lookup_eq_some.mpr ⟨mem_push.mpr (.inr rfl), rfl⟩
    · next hk =>
        apply lookup_congr
        intro x hx
        rw [mem_push]
        apply or_iff_left
        rintro rfl
        exact hk hx
  · have hupdate : t.upsert r merge h = t.update (clash r) (merge · r) h := by
      rw [upsert, dif_neg htaken]
    rw [Bool.not_eq_false] at htaken
    obtain ⟨old, hold, hclash⟩ := taken_eq_true.mp htaken
    have hkey : key r = key old := (ByKey.clash_iff r old).mp hclash
    rw [hupdate, lookup_update]
    split
    · next hk =>
        rw [← hk, hkey, lookup_of_mem hold]
        simp [hclash]
    · next hk =>
        cases hlookup : t.lookup k with
        | none => rfl
        | some x =>
            have hne : clash r x = false := by
              rw [← Bool.not_eq_true, ByKey.clash_iff, key_of_lookup hlookup]
              exact hk
            simp [hne]

/-- `INSERT … SELECT … ON CONFLICT DO UPDATE`, from a table with the same
key. -/
theorem lookup_upsertAll {s : Table ρ} {merge : ρ → ρ → ρ}
    {h : ∀ r, KeepsKeys (merge · r)} :
    (t.upsertAll s.rows merge h).lookup k =
      (s.lookup k).elim (t.lookup k)
        fun r => some (merged merge (t.lookup k) r) := by
  have hrows : ∀ rs : List ρ, (rs.Pairwise fun a b => clash a b = false) →
      ∀ t : Table ρ, (t.upsertAll rs merge h).lookup k =
        ((rs.find? fun r => key r = k).elim (t.lookup k)
          fun r => some (merged merge (t.lookup k) r)) := by
    intro rs hrs
    induction rs with
    | nil => exact fun _ => rfl
    | cons r rs ih =>
        intro t
        obtain ⟨hr, htail⟩ := List.pairwise_cons.mp hrs
        rw [upsertAll_cons, ih htail, lookup_upsert, List.find?_cons]
        by_cases hk : key r = k
        · have hnone : (rs.find? fun r => key r = k) = none := by
            rw [List.find?_eq_none]
            intro y hy hyk
            have hclash := hr y hy
            rw [← Bool.not_eq_true, ByKey.clash_iff] at hclash
            exact hclash (hk.trans (of_decide_eq_true hyk).symm)
          simp [hk, hnone]
        · simp [hk]
  exact hrows s.rows s.unique t

/-- An upsert of rows that are one row wherever their key is one, and that change
nothing when they come again. -/
theorem lookup_upsertAll_again {rs : List ρ} {new : ρ} {merge : ρ → ρ → ρ}
    {h : ∀ r, KeepsKeys (merge · r)} (hsame : ∀ r ∈ rs, key r = k → r = new)
    (hagain : ∀ old, merge (merged merge old new) new = merged merge old new) :
    (t.upsertAll rs merge h).lookup k =
      if ∃ r ∈ rs, key r = k then some (merged merge (t.lookup k) new) else t.lookup k := by
  induction rs generalizing t with
  | nil => simp [upsertAll]
  | cons r rs ih =>
      have hrest : ∀ x ∈ rs, key x = k → x = new :=
        fun x hx => hsame x (List.mem_cons_of_mem _ hx)
      rw [upsertAll_cons, ih hrest, lookup_upsert]
      by_cases hk : key r = k
      · have hr : r = new := hsame r List.mem_cons_self hk
        have hsome : ∃ x ∈ r :: rs, key x = k := ⟨r, List.mem_cons_self, hk⟩
        rw [if_pos hk, if_pos hsome, hr, merged_some, hagain]
        split <;> rfl
      · rw [if_neg hk]
        congr 1
        simp [hk]

/-- An upsert leaves the first row with a property where it was, if the merge keeps
the property, or else appends the new one. -/
theorem map_key_find?_upsert {merge : ρ → ρ → ρ} {h : KeepsKeys (merge · r)} {q : ρ → Bool}
    (hmerge : ∀ old, q (merge old r) = q old) :
    ((t.upsert r merge h).rows.find? q).map key = ((t.rows.find? q).map key).or
      (if q r = true ∧ t.lookup (key r) = none then some (key r) else none) := by
  by_cases htaken : t.taken r = false
  · have hpush : t.upsert r merge h = t.push r htaken := by
      rw [upsert, dif_pos htaken]
    have hfree : t.lookup (key r) = none := lookup_of_free htaken
    have hrows : (t.push r htaken).rows = t.rows ++ [r] := rfl
    rw [hpush, hrows, List.find?_append]
    cases t.rows.find? q with
    | some x => rfl
    | none => cases hq : q r <;> simp [hq, hfree]
  · have hupdate : t.upsert r merge h = t.update (clash r) (merge · r) h := by
      rw [upsert, dif_neg htaken]
    rw [Bool.not_eq_false] at htaken
    obtain ⟨old, hold, hclash⟩ := taken_eq_true.mp htaken
    have hthere : t.lookup (key r) ≠ none := by
      rw [(ByKey.clash_iff r old).mp hclash, lookup_of_mem hold]
      exact Option.some_ne_none old
    have hrows : (t.update (clash r) (merge · r) h).rows =
        t.rows.map fun x => if clash r x then merge x r else x := rfl
    rw [hupdate, hrows, List.find?_map, Option.map_map]
    have hq : (q ∘ fun x => if clash r x then merge x r else x) = q := by
      funext x
      show q (if clash r x then merge x r else x) = q x
      split
      · exact hmerge x
      · rfl
    have hkey : (key ∘ fun x => if clash r x then merge x r else x) = (key : ρ → κ) := by
      funext x
      show key (if clash r x then merge x r else x) = key x
      split
      · exact h.key x
      · rfl
    rw [hq, hkey, if_neg fun hand => hthere hand.2, Option.or_none]

/-- The first row with a property after an upsert from a table: the first that was
there, or else the first of the new ones whose key was free. -/
theorem map_key_find?_upsertAll {s : Table ρ} {merge : ρ → ρ → ρ}
    {h : ∀ r, KeepsKeys (merge · r)} {q : ρ → Bool}
    (hmerge : ∀ old r, q (merge old r) = q old) :
    ((t.upsertAll s.rows merge h).rows.find? q).map key = ((t.rows.find? q).map key).or
      ((s.rows.find? fun r => q r && (t.lookup (key r)).isNone).map key) := by
  have hrows : ∀ rs : List ρ, (rs.Pairwise fun a b => clash a b = false) →
      ∀ t : Table ρ, ((t.upsertAll rs merge h).rows.find? q).map key =
        ((t.rows.find? q).map key).or
          ((rs.find? fun r => q r && (t.lookup (key r)).isNone).map key) := by
    intro rs hrs
    induction rs with
    | nil => exact fun t => (Option.or_none).symm
    | cons r rs ih =>
        intro t
        obtain ⟨hr, htail⟩ := List.pairwise_cons.mp hrs
        -- the keys of the rows to come are not the key of `r`
        have hlookup : ∀ x ∈ rs, (t.upsert r merge (h r)).lookup (key x) = t.lookup (key x) := by
          intro x hx
          rw [lookup_upsert, if_neg]
          intro hk
          rw [← ByKey.clash_iff, hr x hx] at hk
          contradiction
        have hrest : (rs.find? fun x =>
              q x && ((t.upsert r merge (h r)).lookup (key x)).isNone) =
            rs.find? fun x => q x && (t.lookup (key x)).isNone := by
          apply List.find?_congr
          intro x hx
          rw [hlookup x hx]
        rw [upsertAll_cons, ih htail, map_key_find?_upsert (fun old => hmerge old r), hrest,
          Option.or_assoc, List.find?_cons]
        congr 1
        by_cases hnew : q r = true ∧ t.lookup (key r) = none
        · simp [hnew.1, hnew.2]
        · have hskip : (q r && (t.lookup (key r)).isNone) = false := by
            rw [← Bool.not_eq_true, Bool.and_eq_true, Option.isNone_iff_eq_none]
            exact hnew
          rw [if_neg hnew, hskip, Option.none_or]
  exact hrows s.rows s.unique t

/-- `INSERT OR IGNORE` writes where there is no row. -/
theorem lookup_insertOrIgnore :
    (t.insertOrIgnore r).lookup k =
      (t.lookup k).or (if key r = k then some r else none) := by
  cases hlookup : t.lookup k with
  | some x =>
      obtain ⟨hx, hk⟩ := lookup_eq_some.mp hlookup
      exact lookup_eq_some.mpr ⟨mem_insertOrIgnore.mpr (.inl hx), hk⟩
  | none =>
      have hfree := lookup_eq_none.mp hlookup
      split
      · next hk =>
          refine lookup_eq_some.mpr ⟨mem_insertOrIgnore.mpr (.inr ⟨rfl, ?_⟩), hk⟩
          intro y hy
          rw [← Bool.not_eq_true, ByKey.clash_iff, hk]
          exact fun h => hfree y hy h.symm
      · next hk =>
          rw [Option.or_none, lookup_eq_none]
          intro y hy
          rcases mem_insertOrIgnore.mp hy with hy | ⟨rfl, -⟩
          · exact hfree y hy
          · exact hk

/-- `INSERT OR IGNORE`, row after row. -/
theorem lookup_insertAllOrIgnore {rs : List ρ} :
    (t.insertAllOrIgnore rs).lookup k =
      (t.lookup k).or (rs.find? fun r => key r = k) := by
  induction rs generalizing t with
  | nil => exact (Option.or_none).symm
  | cons r rs ih =>
      rw [insertAllOrIgnore_cons, ih, lookup_insertOrIgnore, List.find?_cons]
      by_cases hk : key r = k
      · simp [hk]
      · simp [hk]

/-- A selection offers what the row of the key offers. -/
@[simp] theorem lookup_select {σ : Type w} [Keyed σ] [ByKey σ κ]
    {f : ρ → Option σ} {h : ∀ r s, f r = some s → key s = key r} :
    (t.select f h).lookup k = (t.lookup k).bind f := by
  apply Option.ext
  intro x
  simp only [lookup_eq_some, mem_select, Option.bind_eq_some_iff]
  constructor
  · rintro ⟨⟨r, hr, hx⟩, hk⟩
    exact ⟨r, ⟨hr, (h r x hx).symm.trans hk⟩, hx⟩
  · rintro ⟨r, ⟨hr, hk⟩, hx⟩
    exact ⟨⟨r, hr, hx⟩, (h r x hx).trans hk⟩

end Table

end Komika.Lib
