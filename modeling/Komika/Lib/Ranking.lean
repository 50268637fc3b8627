import Mathlib.Data.List.Sort
import Mathlib.Data.List.Induction

/-!
# The best row of each key

A query that wants the best row for each key is written in two ways: order all
the rows, key first, and keep the first of each key in a loop; or number the
rows of each key by a window function, and keep those with number 1.
`keepFirst_perm` says that the two keep the same rows, when the order that
sorts agrees, within a key, with the order that numbers.

The order that sorts the rows need not be the one that numbers them.  What the theorem
asks is that a row that stands earlier among the rows of its key, in the sorted list, is
one that the numbering puts first; ties within a key are excluded by that.
-/

namespace Komika.Lib.Ranking

universe u v

variable {α : Type u} {κ : Type v} [DecidableEq κ]

/-- The loop: a row whose key has been seen is skipped. -/
def keepFirst (key : α → κ) (rows : List α) : List α :=
  rows.foldl (fun out x =>
    if out.any fun y => key y = key x then out else out ++ [x]) []

/-- `ROW_NUMBER() OVER (PARTITION BY key ORDER BY r)`. -/
def rowNumber (key : α → κ) (r : α → α → Prop) [DecidableRel r] (rows : List α)
    (x : α) : Nat :=
  1 + rows.countP fun y => key y = key x ∧ r y x ∧ ¬r x y

section KeepFirst

variable {key : α → κ} {s : α → α → Prop} {rows : List α}

/-- The last row is kept if its key is new. -/
theorem keepFirst_concat (rows : List α) (z : α) :
    keepFirst key (rows ++ [z]) =
      if (keepFirst key rows).any fun y => key y = key z then keepFirst key rows
      else keepFirst key rows ++ [z] := by
  rw [keepFirst, List.foldl_append]
  rfl

/-- Every key of the list is kept. -/
theorem exists_mem_keepFirst (key : α → κ) {x : α} (hx : x ∈ rows) :
    ∃ y ∈ keepFirst key rows, key y = key x := by
  induction rows using List.reverseRecOn with
  | nil => contradiction
  | append_singleton rows z ih =>
      rw [keepFirst_concat]
      split
      · next hany =>
          rcases List.mem_append.mp hx with hx | hx
          · exact ih hx
          · rw [List.mem_singleton.mp hx]
            simpa using hany
      · rcases List.mem_append.mp hx with hx | hx
        · obtain ⟨y, hy, hkey⟩ := ih hx
          exact ⟨y, List.mem_append_left _ hy, hkey⟩
        · exact ⟨z, by simp, by rw [List.mem_singleton.mp hx]⟩

/-- Nothing but rows of the list is kept. -/
theorem mem_of_mem_keepFirst {x : α} (hx : x ∈ keepFirst key rows) : x ∈ rows := by
  induction rows using List.reverseRecOn with
  | nil => exact hx
  | append_singleton rows z ih =>
      rw [keepFirst_concat] at hx
      split at hx
      · exact List.mem_append_left _ (ih hx)
      · rcases List.mem_append.mp hx with hx | hx
        · exact List.mem_append_left _ (ih hx)
        · exact List.mem_append_right _ hx

/-- Each key is kept once. -/
theorem nodup_keepFirst : ((keepFirst key rows).map key).Nodup := by
  induction rows using List.reverseRecOn with
  | nil => exact List.nodup_nil
  | append_singleton rows z ih =>
      rw [keepFirst_concat]
      split
      · exact ih
      · next hany =>
          rw [List.map_append, List.nodup_append]
          refine ⟨ih, List.nodup_singleton _, ?_⟩
          intro a ha b hb heq
          obtain ⟨y, hy, rfl⟩ := List.mem_map.mp ha
          rw [List.map_singleton, List.mem_singleton] at hb
          exact hany (List.any_eq_true.mpr ⟨y, hy, by simpa using heq.trans hb⟩)

/-- What is kept from a sorted list stands before all the rows of its key. -/
theorem le_of_mem_keepFirst (hrefl : ∀ x, s x x) (hsorted : rows.Pairwise s)
    {x y : α} (hx : x ∈ keepFirst key rows) (hy : y ∈ rows)
    (hkey : key y = key x) : s x y := by
  induction rows using List.reverseRecOn with
  | nil => contradiction
  | append_singleton rows z ih =>
      obtain ⟨hrows, -, hlast⟩ := List.pairwise_append.mp hsorted
      rw [keepFirst_concat] at hx
      split at hx
      · rcases List.mem_append.mp hy with hy | hy
        · exact ih hrows hx hy
        · exact hlast x (mem_of_mem_keepFirst hx) y hy
      · next hany =>
          rcases List.mem_append.mp hx with hx | hx
          · rcases List.mem_append.mp hy with hy | hy
            · exact ih hrows hx hy
            · exact hlast x (mem_of_mem_keepFirst hx) y hy
          · rw [List.mem_singleton.mp hx] at hkey ⊢
            rcases List.mem_append.mp hy with hy | hy
            · obtain ⟨q, hq, hqy⟩ := exists_mem_keepFirst key hy
              refine absurd (List.any_eq_true.mpr ⟨q, hq, ?_⟩) hany
              exact decide_eq_true (hqy.trans hkey)
            · rw [List.mem_singleton.mp hy]
              exact hrefl z

end KeepFirst

section RowNumber

variable {key : α → κ} {r r' : α → α → Prop} [DecidableRel r] [DecidableRel r']
  {rows : List α}

/-- A row's number depends on how it compares with the other rows. -/
theorem rowNumber_congr {x : α}
    (h : ∀ y ∈ rows, (r x y ↔ r' x y) ∧ (r y x ↔ r' y x)) :
    rowNumber key r rows x = rowNumber key r' rows x := by
  unfold rowNumber
  congr 1
  apply List.countP_congr
  intro y hy
  rw [decide_eq_true_eq, decide_eq_true_eq, (h y hy).1, (h y hy).2]

/-- Number 1 stands before all the rows of its key. -/
theorem rowNumber_eq_one_iff (htotal : ∀ x y, r x y ∨ r y x) {x : α} :
    rowNumber key r rows x = 1 ↔ ∀ y ∈ rows, key y = key x → r x y := by
  have hone : rowNumber key r rows x = 1 ↔
      (rows.countP fun y => key y = key x ∧ r y x ∧ ¬r x y) = 0 := by
    unfold rowNumber
    omega
  rw [hone, List.countP_eq_zero]
  constructor
  · intro h y hy hkey
    by_contra hnot
    have hyx := (htotal x y).resolve_left hnot
    exact h y hy (decide_eq_true ⟨hkey, hyx, hnot⟩)
  · intro h y hy hmem
    obtain ⟨hkey, -, hnot⟩ := of_decide_eq_true hmem
    exact hnot (h y hy hkey)

end RowNumber

/-- **The loop and the window function.** -/
theorem keepFirst_perm {key : α → κ} {s r : α → α → Prop} [DecidableRel s]
    [DecidableRel r] {rows : List α}
    (htotal : ∀ x y, r x y ∨ r y x) (hrefl : ∀ x, s x x)
    (hsort : ∀ x y, s x y ∨ s y x) (htrans : ∀ x y z, s x y → s y z → s x z)
    (hagree : ∀ x y, key y = key x → (s x y ↔ r x y)) (hnodup : rows.Nodup)
    (hanti : ∀ x ∈ rows, ∀ y ∈ rows, r x y → r y x → x = y) :
    (keepFirst key (rows.insertionSort s)).Perm
      (rows.filter fun x => rowNumber key r rows x = 1) := by
  have : Std.Total s := ⟨hsort⟩
  have : IsTrans α s := ⟨htrans⟩
  have hsorted : (rows.insertionSort s).Pairwise s := List.pairwise_insertionSort s rows
  apply (List.perm_ext_iff_of_nodup nodup_keepFirst.of_map
    (hnodup.sublist List.filter_sublist)).mpr
  intro x
  rw [List.mem_filter, decide_eq_true_eq, rowNumber_eq_one_iff htotal]
  constructor
  · intro hx
    refine ⟨(List.mem_insertionSort s).mp (mem_of_mem_keepFirst hx), fun y hy hkey => ?_⟩
    rw [← hagree x y hkey]
    exact le_of_mem_keepFirst hrefl hsorted hx ((List.mem_insertionSort s).mpr hy) hkey
  · rintro ⟨hx, hfirst⟩
    obtain ⟨q, hq, hkey⟩ :=
      exists_mem_keepFirst key ((List.mem_insertionSort s).mpr hx)
    have hqrows : q ∈ rows := (List.mem_insertionSort s).mp (mem_of_mem_keepFirst hq)
    have hqx : s q x :=
      le_of_mem_keepFirst hrefl hsorted hq ((List.mem_insertionSort s).mpr hx) hkey.symm
    have hsame : q = x :=
      hanti q hqrows x hx ((hagree q x hkey.symm).mp hqx) (hfirst q hqrows hkey)
    exact hsame ▸ hq

end Komika.Lib.Ranking
