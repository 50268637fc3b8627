import Mathlib.Data.List.Sort
import Mathlib.Order.Compare

/-!
# Sorting with a comparator

A stable sort that is given a comparator promises something only when the
comparator is a total order on what it sorts; otherwise the order of the result
is unspecified.  `SortsTo` is that promise.

* `exists_sortsTo`, `SortsTo.eq_of_perm` — there is a result, and only one when
  no two elements compare equal, whatever the order of the input;
* `head?_mergeSort` — what a stable sort by a total order puts first;
* `tieBroken`, `tieBroken_totalOn_iff` — a comparator by a partial key that falls
  back to a second one, and when it is a total order.

The comparators of the source are written by hand and read keys that may be missing, so
nothing makes them total orders.  `TotalOn` asks for one on the elements that are there
and no others, and the theorems about results are for lists on which it holds.
-/

namespace Komika.Lib.SortBy

universe u v w

variable {α : Type u} {cmp : α → α → Ordering} {xs ys out out' : List α}

/-- The comparator is a total order on the elements of the list. -/
structure TotalOn (cmp : α → α → Ordering) (xs : List α) : Prop where
  swap : ∀ a ∈ xs, ∀ b ∈ xs, cmp b a = (cmp a b).swap
  trans : ∀ a ∈ xs, ∀ b ∈ xs, ∀ c ∈ xs,
    (cmp a b).isLE = true → (cmp b c).isLE = true → (cmp a c).isLE = true

/-- What a stable sort promises. -/
structure SortsTo (cmp : α → α → Ordering) (xs out : List α) : Prop where
  perm : out.Perm xs
  sorted : TotalOn cmp xs → out.Pairwise fun a b => (cmp a b).isLE = true
  stable : TotalOn cmp xs →
    ∀ a b, (cmp a b).isLE = true → List.Sublist [a, b] xs → List.Sublist [a, b] out

/-- The order of the input does not matter to the comparator. -/
theorem TotalOn.of_perm (h : TotalOn cmp xs) (hperm : ys.Perm xs) : TotalOn cmp ys where
  swap a ha b hb := h.swap a (hperm.mem_iff.mp ha) b (hperm.mem_iff.mp hb)
  trans a ha b hb c hc := h.trans a (hperm.mem_iff.mp ha) b (hperm.mem_iff.mp hb) c
    (hperm.mem_iff.mp hc)

theorem isLE_or_isLE_swap (o : Ordering) : (o.isLE || o.swap.isLE) = true := by
  cases o <;> rfl

/-- A sort has a result: the merge sort, if the comparator is a total order. -/
theorem exists_sortsTo (cmp : α → α → Ordering) (xs : List α) : ∃ out, SortsTo cmp xs out := by
  by_cases htotal : TotalOn cmp xs
  · -- the order is total on the elements of the list only
    let le : { a // a ∈ xs } → { a // a ∈ xs } → Bool := fun a b => (cmp a.1 b.1).isLE
    have htrans : ∀ a b c, le a b = true → le b c = true → le a c = true := fun a b c =>
      htotal.trans a.1 a.2 b.1 b.2 c.1 c.2
    have hor : ∀ a b, (le a b || le b a) = true := fun a b => by
      show ((cmp a.1 b.1).isLE || (cmp b.1 a.1).isLE) = true
      rw [htotal.swap a.1 a.2 b.1 b.2]
      exact isLE_or_isLE_swap (cmp a.1 b.1)
    have hval : xs.attach.map Subtype.val = xs := List.attach_map_subtype_val xs
    refine ⟨(xs.attach.mergeSort le).map Subtype.val, ?_, fun _ => ?_, fun _ a b hle hpair => ?_⟩
    · have hperm := (List.mergeSort_perm xs.attach le).map Subtype.val
      rwa [hval] at hperm
    · exact List.pairwise_map.mpr (List.pairwise_mergeSort htrans hor xs.attach)
    · rw [← hval] at hpair
      obtain ⟨pair, hsub, hmap⟩ := List.sublist_map_iff.mp hpair
      have hlen : pair.length = 2 := by
        have hlen := congrArg List.length hmap
        rw [List.length_map] at hlen
        exact hlen.symm
      obtain ⟨p, q, rfl⟩ := List.length_eq_two.mp hlen
      have hp : a = p.1 := (List.cons.inj hmap).1
      have hq : b = q.1 := (List.cons.inj (List.cons.inj hmap).2).1
      rw [hp, hq] at hle ⊢
      exact (List.pair_sublist_mergeSort htrans hor hle hsub).map Subtype.val
  · exact ⟨xs, List.Perm.refl xs, fun h => absurd h htotal, fun h => absurd h htotal⟩

/-- The result does not depend on the order of the input if no two elements
compare equal. -/
theorem SortsTo.eq_of_perm (h : SortsTo cmp xs out) (h' : SortsTo cmp ys out')
    (hperm : xs.Perm ys) (htotal : TotalOn cmp xs)
    (hanti : ∀ a ∈ xs, ∀ b ∈ xs, cmp a b = .eq → a = b) : out = out' := by
  have hsorted' := h'.sorted (htotal.of_perm hperm.symm)
  have hperms : out.Perm out' := h.perm.trans (hperm.trans h'.perm.symm)
  refine List.Perm.eq_of_pairwise ?_ (h.sorted htotal) hsorted' hperms
  intro a b ha hb hab hba
  have ha : a ∈ xs := h.perm.mem_iff.mp ha
  have hb : b ∈ xs := hperm.mem_iff.mpr (h'.perm.mem_iff.mp hb)
  apply hanti a ha b hb
  rw [htotal.swap a ha b hb] at hba
  cases hcmp : cmp a b with
  | lt => rw [hcmp] at hba; contradiction
  | eq => rfl
  | gt => rw [hcmp] at hab; contradiction

/-! ## A partial key with a tie break

The comparator that a program writes for a field that may be absent. -/

section TieBroken

variable {κ : Type v} {τ : Type w} [LinearOrder κ] [LinearOrder τ]
variable {key : α → Option κ} {tie : α → τ}

/-- The order of the keys, where both have one; then that of the ties. -/
def tieBroken (key : α → Option κ) (tie : α → τ) (a b : α) : Ordering :=
  (match key a, key b with
  | some i, some j => compare i j
  | _, _ => .eq).then (compare (tie a) (tie b))

/-- Two elements that have keys compare by them, then by the ties. -/
theorem tieBroken_of_some {a b : α} {i j : κ} (ha : key a = some i) (hb : key b = some j) :
    tieBroken key tie a b = (compare i j).then (compare (tie a) (tie b)) := by
  rw [tieBroken, ha, hb]

/-- Where a key is missing the ties decide. -/
theorem tieBroken_of_none {a b : α} (h : key a = none ∨ key b = none) :
    tieBroken key tie a b = compare (tie a) (tie b) := by
  rw [tieBroken]
  rcases h with h | h
  · rw [h, Ordering.eq_then]
  · rw [h]
    cases key a <;> rfl

/-- The comparison of a linear order. -/
theorem isLE_compare {β : Type v} [LinearOrder β] {i j : β} :
    (compare i j).isLE = true ↔ i ≤ j := by
  rw [Ordering.isLE_iff_ne_gt, not_iff_comm, not_le, compare_gt_iff_gt]

/-- Compared the other way round it is swapped. -/
theorem swap_compare {β : Type v} [LinearOrder β] (i j : β) :
    compare j i = (compare i j).swap := by
  rw [← cmp_eq_compare, ← cmp_eq_compare, cmp_swap]

/-- Two elements with keys are in order if their keys are, or are equal and their
ties are in order. -/
theorem isLE_tieBroken_of_some {a b : α} {i j : κ} (ha : key a = some i)
    (hb : key b = some j) :
    (tieBroken key tie a b).isLE = true ↔ i < j ∨ (i = j ∧ tie a ≤ tie b) := by
  rw [tieBroken_of_some ha hb]
  rcases lt_trichotomy i j with hlt | heq | hgt
  · rw [compare_lt_iff_lt.mpr hlt]
    exact iff_of_true rfl (Or.inl hlt)
  · rw [compare_eq_iff_eq.mpr heq, Ordering.eq_then, isLE_compare]
    simp [heq]
  · rw [compare_gt_iff_gt.mpr hgt]
    refine iff_of_false (fun h => nomatch h) ?_
    rintro (hlt | ⟨heq, -⟩)
    · exact lt_asymm hlt hgt
    · exact absurd heq hgt.ne'

/-- Where a key is missing they are in order if their ties are. -/
theorem isLE_tieBroken_of_none {a b : α} (h : key a = none ∨ key b = none) :
    (tieBroken key tie a b).isLE = true ↔ tie a ≤ tie b := by
  rw [tieBroken_of_none h, isLE_compare]

/-- The comparator is antisymmetric by construction. -/
theorem tieBroken_swap (a b : α) :
    tieBroken key tie b a = (tieBroken key tie a b).swap := by
  rw [tieBroken, tieBroken, Ordering.swap_then]
  congr 1
  · cases key a with
    | none => cases key b <;> rfl
    | some i =>
        cases key b with
        | none => rfl
        | some j => exact swap_compare i j
  · exact swap_compare (tie a) (tie b)

/-- No element without a key stands between two whose ties are against their
keys. -/
def Untangled (key : α → Option κ) (tie : α → τ) (xs : List α) : Prop :=
  ∀ p ∈ xs, ∀ q ∈ xs, ∀ m ∈ xs, ∀ i j, key p = some i → key q = some j → key m = none →
    i < j → ¬(tie q ≤ tie m ∧ tie m ≤ tie p)

/-- **When it is a total order**: transitivity fails at an element without a key between
two whose ties are against their keys, and nowhere else. -/
theorem tieBroken_totalOn_iff :
    TotalOn (tieBroken key tie) xs ↔ Untangled key tie xs := by
  constructor
  · intro h p hp q hq m hm i j hi hj hnone hij hbetween
    have hqm : (tieBroken key tie q m).isLE = true :=
      (isLE_tieBroken_of_none (Or.inr hnone)).mpr hbetween.1
    have hmp : (tieBroken key tie m p).isLE = true :=
      (isLE_tieBroken_of_none (Or.inl hnone)).mpr hbetween.2
    have hqp := (isLE_tieBroken_of_some hj hi).mp (h.trans q hq m hm p hp hqm hmp)
    rcases hqp with hlt | ⟨heq, -⟩
    · exact lt_asymm hij hlt
    · exact hij.ne' heq
  · intro h
    refine ⟨fun a _ b _ => tieBroken_swap a b, ?_⟩
    intro a ha b hb c hc hab hbc
    cases hka : key a with
    | none =>
        rw [isLE_tieBroken_of_none (Or.inl hka)] at hab ⊢
        cases hkb : key b with
        | none => exact hab.trans ((isLE_tieBroken_of_none (Or.inl hkb)).mp hbc)
        | some j =>
            cases hkc : key c with
            | none => exact hab.trans ((isLE_tieBroken_of_none (Or.inr hkc)).mp hbc)
            | some k =>
                rcases (isLE_tieBroken_of_some hkb hkc).mp hbc with hlt | ⟨-, htie⟩
                · by_contra hac
                  exact h b hb c hc a ha j k hkb hkc hka hlt ⟨(not_le.mp hac).le, hab⟩
                · exact hab.trans htie
    | some i =>
        cases hkb : key b with
        | none =>
            rw [isLE_tieBroken_of_none (Or.inr hkb)] at hab
            rw [isLE_tieBroken_of_none (Or.inl hkb)] at hbc
            cases hkc : key c with
            | none => exact (isLE_tieBroken_of_none (Or.inr hkc)).mpr (hab.trans hbc)
            | some k =>
                rw [isLE_tieBroken_of_some hka hkc]
                rcases lt_trichotomy i k with hlt | heq | hgt
                · exact Or.inl hlt
                · exact Or.inr ⟨heq, hab.trans hbc⟩
                · exact absurd ⟨hab, hbc⟩ (h c hc a ha b hb k i hkc hka hkb hgt)
        | some j =>
            rw [isLE_tieBroken_of_some hka hkb] at hab
            cases hkc : key c with
            | none =>
                rw [isLE_tieBroken_of_none (Or.inr hkc)] at hbc ⊢
                rcases hab with hlt | ⟨-, htie⟩
                · by_contra hac
                  exact h a ha b hb c hc i j hka hkb hkc hlt ⟨hbc, (not_le.mp hac).le⟩
                · exact htie.trans hbc
            | some k =>
                rw [isLE_tieBroken_of_some hkb hkc] at hbc
                rw [isLE_tieBroken_of_some hka hkc]
                rcases hab with hij | ⟨rfl, htie⟩
                · rcases hbc with hjk | ⟨rfl, -⟩
                  · exact Or.inl (hij.trans hjk)
                  · exact Or.inl hij
                · rcases hbc with hjk | ⟨rfl, htie'⟩
                  · exact Or.inl hjk
                  · exact Or.inr ⟨rfl, htie.trans htie'⟩

end TieBroken

section Head
variable {α : Type} {le : α → α → Bool}

/-- A stable sort keeps the order of what compares equal. -/
theorem filter_mergeSort (htrans : ∀ a b c, le a b = true → le b c = true → le a c = true)
    (htotal : ∀ a b, (le a b || le b a) = true) {p : α → Bool} {xs : List α}
    (hp : ∀ a ∈ xs, ∀ b ∈ xs, p a = true → p b = true → le a b = true) :
    (xs.mergeSort le).filter p = xs.filter p := by
  have hsorted : (xs.filter p).Pairwise fun a b => le a b = true := by
    rw [List.pairwise_iff_forall_sublist]
    intro a b hab
    have ha := List.mem_filter.mp (hab.subset List.mem_cons_self)
    have hb := List.mem_filter.mp (hab.subset (List.mem_cons_of_mem _ List.mem_cons_self))
    exact hp a ha.1 b hb.1 ha.2 hb.2
  have hsub : (xs.filter p).Sublist (xs.mergeSort le) :=
    List.sublist_mergeSort htrans htotal hsorted List.filter_sublist
  have hfilter := hsub.filter p
  simp only [List.filter_filter, Bool.and_self] at hfilter
  have hlen := ((List.mergeSort_perm xs le).filter p).length_eq
  exact (hfilter.eq_of_length hlen.symm).symm

/-- The first of a stable sort is the first that comes before all others. -/
theorem head?_mergeSort (htrans : ∀ a b c, le a b = true → le b c = true → le a c = true)
    (htotal : ∀ a b, (le a b || le b a) = true) (xs : List α) :
    (xs.mergeSort le).head? = xs.find? fun a => xs.all (le a) := by
  rw [← List.head?_filter, ← filter_mergeSort htrans htotal]
  · cases hsort : xs.mergeSort le with
    | nil => rfl
    | cons a rest =>
        have hsorted := List.pairwise_mergeSort htrans htotal xs
        rw [hsort, List.pairwise_cons] at hsorted
        have hfirst : xs.all (le a) = true := by
          rw [List.all_eq_true]
          intro b hb
          have hmem : b ∈ xs.mergeSort le := List.mem_mergeSort.mpr hb
          rw [hsort, List.mem_cons] at hmem
          rcases hmem with rfl | hmem
          · simpa using htotal b b
          · exact hsorted.1 b hmem
        rw [List.filter_cons_of_pos (by exact hfirst)]
        rfl
  · intro a _ b hb ha _
    exact List.all_eq_true.mp ha b hb

end Head

/-- Selecting and sorting looks at the elements of the list only. -/
theorem insertionSort_filter_congr {l : List α} {p q : α → Bool} {r s : α → α → Prop}
    [DecidableRel r] [DecidableRel s] (hpq : ∀ a ∈ l, p a = q a)
    (hrs : ∀ a ∈ l, ∀ b ∈ l, r a b ↔ s a b) :
    (l.filter p).insertionSort r = (l.filter q).insertionSort s := by
  have hmem : ∀ a ∈ l.filter q, a ∈ l := fun a ha => (List.mem_filter.mp ha).1
  have hsame := List.map_insertionSort r s id (l.filter q) fun a ha b hb =>
    hrs a (hmem a ha) b (hmem b hb)
  rw [List.map_id, List.map_id] at hsame
  rw [List.filter_congr hpq, hsame]

end Komika.Lib.SortBy
