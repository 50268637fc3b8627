import Mathlib.Data.List.DropRight
import Mathlib.Data.List.Dedup
import Mathlib.Data.List.Nodup

/-!
# Recency orders

A list kept in the order of recency: a touch moves a member to the front, or
adds it there.  Where a member stands after any number of touches depends only
on what was touched after it: the touches since its last one build a list in
front of it as they would from nothing (`touchAll_cons`), so its rank is the
number of distinct members among them (`idxOf_touchAll`).

The rank of a member is what a reader of the list sees, and the touches are what
happened.  `split_at_last` and `not_mem_since` split the history at the last touch of a
member, `idxOf_touchAll` counts the distinct members behind it, and `idxOf_le_touchAll`
says that a member that is not touched never gains.
-/

namespace Komika.Lib.Recency

universe u

variable {α : Type u} [DecidableEq α]

/-- `s` moves to the front, or is added there. -/
def toFront (order : List α) (s : α) : List α := s :: order.erase s

/-- Touches, oldest first, so that the last one ends in front. -/
def touchAll (order : List α) (touched : List α) : List α :=
  touched.foldl toFront order

/-- The touches after the last one of `s`. -/
def since (touched : List α) (s : α) : List α :=
  touched.rtakeWhile (· ≠ s)

/-- The members touched after the last touch of `s`, each once. -/
def overtakers (touched : List α) (s : α) : List α := (since touched s).dedup

@[simp] theorem touchAll_nil (order : List α) : touchAll order [] = order := rfl

/-- Later touches go on from the list that the earlier ones left. -/
theorem touchAll_append (order xs ys : List α) :
    touchAll order (xs ++ ys) = touchAll (touchAll order xs) ys := by
  simp [touchAll, List.foldl_append]

/-- The last touch is a move to the front. -/
theorem touchAll_concat (order xs : List α) (s : α) :
    touchAll order (xs ++ [s]) = toFront (touchAll order xs) s := by
  simp [touchAll]

/-- A move to the front loses no member. -/
theorem mem_toFront {order : List α} {s t : α} :
    t ∈ toFront order s ↔ t = s ∨ t ∈ order := by
  by_cases hts : t = s
  · simp [toFront, hts]
  · simp [toFront, hts, List.mem_erase_of_ne hts]

theorem nodup_toFront {order : List α} (h : order.Nodup) (s : α) :
    (toFront order s).Nodup :=
  List.nodup_cons.mpr ⟨h.not_mem_erase, h.erase s⟩

theorem mem_touchAll {order touched : List α} {t : α} :
    t ∈ touchAll order touched ↔ t ∈ touched ∨ t ∈ order := by
  induction touched using List.reverseRecOn with
  | nil => simp
  | append_singleton xs s ih =>
      rw [touchAll_concat, mem_toFront, ih]
      simp only [List.mem_append, List.mem_singleton]
      tauto

theorem nodup_touchAll {order : List α} (h : order.Nodup) (touched : List α) :
    (touchAll order touched).Nodup := by
  induction touched using List.reverseRecOn with
  | nil => exact h
  | append_singleton xs s ih =>
      rw [touchAll_concat]
      exact nodup_toFront ih s

/-- From nothing, touches build the list of what was touched. -/
theorem length_touchAll_nil (touched : List α) :
    (touchAll [] touched).length = touched.dedup.length := by
  have hnodup := nodup_touchAll List.nodup_nil touched
  refine ((List.perm_ext_iff_of_nodup hnodup touched.nodup_dedup).mpr ?_).length_eq
  intro t
  simp [mem_touchAll]

/-- Touches of others build their list in front of the head, as from nothing. -/
theorem touchAll_cons {s : α} {touched : List α} (hs : s ∉ touched) (rest : List α) :
    ∃ rest', touchAll (s :: rest) touched = touchAll [] touched ++ s :: rest' := by
  induction touched using List.reverseRecOn with
  | nil => exact ⟨rest, rfl⟩
  | append_singleton xs t ih =>
      obtain ⟨rest', ih⟩ := ih fun h => hs (List.mem_append_left _ h)
      have hst : s ≠ t := fun h => hs (by simp [h])
      rw [touchAll_concat, touchAll_concat, ih]
      unfold toFront
      by_cases ht : t ∈ touchAll [] xs
      · exact ⟨rest', by rw [List.erase_append_left _ ht, List.cons_append]⟩
      · refine ⟨rest'.erase t, ?_⟩
        rw [List.erase_append_right _ ht, List.erase_of_not_mem ht,
          List.erase_cons_tail (by simpa using hst), List.cons_append]

/-- No touch of a member comes after its last one. -/
theorem not_mem_since (touched : List α) (s : α) : s ∉ since touched s := by
  intro h
  simpa using List.mem_rtakeWhile_imp h

/-- The touches up to the last one of `s`, and the touches since. -/
theorem split_at_last {touched : List α} {s : α} (hs : s ∈ touched) :
    ∃ xs, touched = xs ++ s :: since touched s := by
  have hsplit := List.rdropWhile_append_rtakeWhile (p := (· ≠ s)) (l := touched)
  have hne : touched.rdropWhile (· ≠ s) ≠ [] := by
    intro h
    have hall := List.rdropWhile_eq_nil_iff.mp h
    simpa using hall s hs
  have hlast := List.rdropWhile_last_not (fun t : α => decide (t ≠ s)) touched hne
  have hlast : (touched.rdropWhile (· ≠ s)).getLast hne = s := by simpa using hlast
  have hjoin := List.dropLast_append_getLast hne
  rw [hlast] at hjoin
  refine ⟨(touched.rdropWhile (· ≠ s)).dropLast, ?_⟩
  calc touched
      = touched.rdropWhile (· ≠ s) ++ since touched s := hsplit.symm
    _ = ((touched.rdropWhile (· ≠ s)).dropLast ++ [s]) ++ since touched s := by
        rw [hjoin]
    _ = _ := by simp

/-- A touched member stands behind those touched after it, and no others. -/
theorem idxOf_touchAll {touched : List α} {s : α} (hs : s ∈ touched)
    (order : List α) :
    (touchAll order touched).idxOf s = (overtakers touched s).length := by
  obtain ⟨xs, hxs⟩ := split_at_last hs
  have hfront : touchAll order (xs ++ [s]) = s :: (touchAll order xs).erase s := by
    rw [touchAll_concat, toFront]
  obtain ⟨rest', hrest⟩ :=
    touchAll_cons (not_mem_since touched s) ((touchAll order xs).erase s)
  have htouched : touchAll order touched =
      touchAll [] (since touched s) ++ s :: rest' := by
    rw [← hrest, ← hfront, ← touchAll_append, List.append_assoc]
    simp [← hxs]
  have habsent : s ∉ touchAll [] (since touched s) := by
    simpa [mem_touchAll] using not_mem_since touched s
  rw [htouched, List.idxOf_append_of_notMem habsent, List.idxOf_cons_self,
    length_touchAll_nil, overtakers, Nat.add_zero]

/-- What is taken out of a list stood in front of a member at most once. -/
theorem idxOf_le_erase_succ {order : List α} {s t : α} (hst : s ≠ t) :
    order.idxOf t ≤ (order.erase s).idxOf t + 1 := by
  induction order with
  | nil => simp
  | cons a rest ih =>
      by_cases has : a = s
      · have hat : a ≠ t := by simpa [has] using hst
        rw [has, List.erase_cons_head, ← has, List.idxOf_cons_ne rest hat]
      · rw [List.erase_cons_tail (by simpa using has)]
        by_cases hat : a = t
        · simp [hat]
        · rw [List.idxOf_cons_ne rest hat, List.idxOf_cons_ne _ hat]
          omega

/-- A touch of another member pushes back at most. -/
theorem idxOf_le_toFront {order : List α} {s t : α} (hst : s ≠ t) :
    order.idxOf t ≤ (toFront order s).idxOf t := by
  rw [toFront, List.idxOf_cons_ne _ hst]
  exact idxOf_le_erase_succ hst

/-- Touches of others only push a member back. -/
theorem idxOf_le_touchAll {touched : List α} {t : α} (ht : t ∉ touched)
    (order : List α) : order.idxOf t ≤ (touchAll order touched).idxOf t := by
  induction touched using List.reverseRecOn with
  | nil => simp
  | append_singleton xs s ih =>
      have hxs : t ∉ xs := fun h => ht (List.mem_append_left _ h)
      have hst : s ≠ t := fun h => ht (by simp [h])
      rw [touchAll_concat]
      exact (ih hxs).trans (idxOf_le_toFront hst)

end Komika.Lib.Recency
