import Mathlib.Data.List.Sort
import Mathlib.Data.List.Induction
import Mathlib.Order.Lex
import Mathlib.Data.Nat.Find

/-!
# Paged listings

A listing gives everything that satisfies a condition, once each and in the
order of a relation (`Lists`).  Listings come from sorting a selection by a key
(`lists_descending`), from the first occurrences of a list (`lists_distinct`),
and from putting a ranked part in front of the rest (`Lists.append`).

`slice` is what `LIMIT` and `OFFSET` leave of a list.  A slice of two lists in a
row is a slice of each of them (`slice_append`), which is the arithmetic of a
sort that is served in two phases.  The slices of one size, taken page after
page, partition the list (`exists_paginates_slice`).

* `exists_paginates_slice`, `Paginates.map` — pages of one size hold each member once,
  and may be shown instead of the members;
* `lists_descending`, `Lists.append` — the listings of one sort, and of a ranked part in
  front of the rest;
* `collect_eq_some_iff`, `lists_filterMap_collect` — a map collected from a list, read
  back in the order of its keys.
-/

namespace Komika.Lib.Paging

universe u v

variable {α : Type u} {κ : Type v}

/-! ## Slices -/

/-- `LIMIT len OFFSET offset`. -/
def slice (offset len : Nat) (xs : List α) : List α := (xs.drop offset).take len

@[simp] theorem slice_zero (offset : Nat) (xs : List α) : slice offset 0 xs = [] := rfl

/-- A slice is empty exactly if it starts behind the end. -/
theorem slice_eq_nil {offset len : Nat} (hlen : 0 < len) {xs : List α} :
    slice offset len xs = [] ↔ xs.length ≤ offset := by
  rw [slice, List.take_eq_nil_iff, List.drop_eq_nil_iff]
  omega

/-- A slice inside of the list is full. -/
theorem length_slice {offset len : Nat} {xs : List α} (h : offset + len ≤ xs.length) :
    (slice offset len xs).length = len := by
  rw [slice, List.length_take, List.length_drop]
  omega

/-- A slice of two lists in a row: what is left of the first one, and the rest
out of the second, counted from where the first one ends. -/
theorem slice_append (offset len : Nat) (xs ys : List α) :
    slice offset len (xs ++ ys) =
      slice offset (min (xs.length - offset) len) xs ++
        slice (offset - xs.length) (len - min (xs.length - offset) len) ys := by
  have hfirst : (xs.drop offset).take len =
      (xs.drop offset).take (min (xs.length - offset) len) := by
    rw [← List.length_drop, Nat.min_comm, ← List.take_eq_take_min]
  have hrest : len - (xs.drop offset).length =
      len - min (xs.length - offset) len := by
    rw [List.length_drop]
    omega
  rw [slice, slice, slice, List.drop_append, List.take_append, hfirst, hrest]

/-! ## Pages -/

/-- The pages up to the first empty one, `count` of them, are a partition of
`xs` into pages of one size, of which only the last may be shorter. -/
structure Paginates (size : Nat) (pages : Nat → List α) (count : Nat) (xs : List α) :
    Prop where
  stops : pages count = []
  goes_on : ∀ k < count, pages k ≠ []
  concatenates : (List.range count).flatMap pages = xs
  full : ∀ k, k + 1 < count → (pages k).length = size

/-- The first slices in a row are a beginning of the list. -/
theorem flatMap_slices (size count : Nat) (xs : List α) :
    (List.range count).flatMap (fun k => slice (k * size) size xs) =
      xs.take (count * size) := by
  induction count with
  | zero => simp
  | succ count ih =>
      rw [List.range_succ, List.flatMap_append, ih, Nat.succ_mul, List.take_add]
      simp [slice]

/-- The slices of one size paginate the list. -/
theorem exists_paginates_slice {size : Nat} (hsize : 0 < size) (xs : List α) :
    ∃ count, Paginates size (fun k => slice (k * size) size xs) count xs := by
  have hempty : ∃ k, xs.length ≤ k * size :=
    ⟨xs.length, Nat.le_mul_of_pos_right _ hsize⟩
  refine ⟨Nat.find hempty, ?_, ?_, ?_, ?_⟩
  · rw [slice_eq_nil hsize]
    exact Nat.find_spec hempty
  · intro k hk hnil
    rw [slice_eq_nil hsize] at hnil
    exact Nat.find_min hempty hk hnil
  · rw [flatMap_slices, List.take_of_length_le (Nat.find_spec hempty)]
  · intro k hk
    apply length_slice
    -- the next page is not the first empty one
    have hnext := Nat.find_min hempty hk
    rw [Nat.succ_mul] at hnext
    omega

/-- The pages may show something of each member. -/
theorem Paginates.map {β : Type u} {size count : Nat} {pages : Nat → List α}
    {xs : List α} (h : Paginates size pages count xs) (f : α → β) :
    Paginates size (fun k => (pages k).map f) count (xs.map f) where
  stops := by rw [h.stops, List.map_nil]
  goes_on k hk hnil := h.goes_on k hk (List.map_eq_nil_iff.mp hnil)
  concatenates := by rw [← h.concatenates, List.map_flatMap]
  full k hk := by rw [List.length_map, h.full k hk]

/-! ## Listings -/

/-- `xs` lists what satisfies `p`, once each, in the order of `r`. -/
structure Lists (p : α → Prop) (r : α → α → Prop) (xs : List α) : Prop where
  nodup : xs.Nodup
  mem : ∀ a, a ∈ xs ↔ p a
  ordered : xs.Pairwise r

namespace Lists

variable {p p' : α → Prop} {r r' : α → α → Prop} {xs ys : List α}

/-- Two listings of the same members are equally long, in whatever order. -/
theorem length_eq (hx : Lists p r xs) (hy : Lists p r' ys) : xs.length = ys.length := by
  apply List.Perm.length_eq
  rw [List.perm_ext_iff_of_nodup hx.nodup hy.nodup]
  intro a
  rw [hx.mem, hy.mem]

/-- The condition and the order matter on the members only. -/
theorem congr (h : Lists p r xs) (hp : ∀ a, p a ↔ p' a)
    (hr : ∀ a b, p a → p b → r a b → r' a b) : Lists p' r' xs where
  nodup := h.nodup
  mem a := (h.mem a).trans (hp a)
  ordered := by
    apply h.ordered.imp_of_mem
    intro a b ha hb hab
    exact hr a b ((h.mem a).mp ha) ((h.mem b).mp hb) hab

end Lists

/-- The ranked ones come first and in their own order, the others after them. -/
def RankedFirst (ranked : α → Prop) (above r : α → α → Prop) (a b : α) : Prop :=
  (ranked a ∧ ranked b ∧ above a b) ∨ (ranked a ∧ ¬ranked b) ∨
    (¬ranked a ∧ ¬ranked b ∧ r a b)

/-- A listing of the ranked ones in front of a listing of the others. -/
theorem Lists.append {p ranked : α → Prop} {above r : α → α → Prop} {xs ys : List α}
    (hx : Lists (fun a => p a ∧ ranked a) above xs)
    (hy : Lists (fun a => p a ∧ ¬ranked a) r ys) :
    Lists p (RankedFirst ranked above r) (xs ++ ys) where
  nodup := by
    apply List.nodup_append.mpr
    refine ⟨hx.nodup, hy.nodup, ?_⟩
    intro a ha b hb hab
    subst hab
    exact ((hy.mem a).mp hb).2 ((hx.mem a).mp ha).2
  mem a := by
    rw [List.mem_append, hx.mem, hy.mem, ← and_or_left, and_iff_left (em (ranked a))]
  ordered := by
    apply List.pairwise_append.mpr
    refine ⟨?_, ?_, ?_⟩
    · apply hx.ordered.imp_of_mem
      intro a b ha hb hab
      exact Or.inl ⟨((hx.mem a).mp ha).2, ((hx.mem b).mp hb).2, hab⟩
    · apply hy.ordered.imp_of_mem
      intro a b ha hb hab
      exact Or.inr (Or.inr ⟨((hy.mem a).mp ha).2, ((hy.mem b).mp hb).2, hab⟩)
    · intro a ha b hb
      exact Or.inr (Or.inl ⟨((hx.mem a).mp ha).2, ((hy.mem b).mp hb).2⟩)

/-! ## Sorting by a key -/

/-- `ORDER BY key DESC`. -/
def descending [LinearOrder κ] (key : α → κ) (xs : List α) : List α :=
  xs.insertionSort fun a b => key b ≤ key a

/-- The order that sorting by a key leaves. -/
def Descends [LinearOrder κ] (key : α → κ) (a b : α) : Prop := key b < key a

/-- Sorting by a key that tells the members apart. -/
theorem lists_descending [LinearOrder κ] {key : α → κ} {xs : List α} (h : xs.Nodup)
    (hkey : ∀ a ∈ xs, ∀ b ∈ xs, key a = key b → a = b) :
    Lists (· ∈ xs) (Descends key) (descending key xs) := by
  have hperm : (descending key xs).Perm xs := List.perm_insertionSort _ _
  have hnodup : (descending key xs).Nodup := hperm.nodup_iff.mpr h
  have hmem : ∀ a, a ∈ descending key xs ↔ a ∈ xs := fun a => hperm.mem_iff
  have : Std.Total fun a b : α => key b ≤ key a := ⟨fun a b => le_total (key b) (key a)⟩
  have : IsTrans α fun a b => key b ≤ key a := ⟨fun a b c hab hbc => hbc.trans hab⟩
  have hsorted : (descending key xs).Pairwise fun a b => key b ≤ key a :=
    List.pairwise_insertionSort _ xs
  refine ⟨hnodup, hmem, ?_⟩
  apply (hsorted.and hnodup).imp_of_mem
  intro a b ha hb hab
  apply lt_of_le_of_ne hab.1
  intro heq
  exact hab.2 (hkey a ((hmem a).mp ha) b ((hmem b).mp hb) heq.symm)

/-! ## First occurrences -/

variable [DecidableEq κ]

/-- Push what is not there yet. -/
def pushNew (out : List κ) (k : κ) : List κ := if k ∈ out then out else out ++ [k]

/-- Each member once, where it first occurs. -/
def distinct (ks : List κ) : List κ := ks.foldl pushNew []

/-- A member that was there before is not pushed again. -/
theorem distinct_concat (ks : List κ) (k : κ) :
    distinct (ks ++ [k]) = pushNew (distinct ks) k := by
  simp [distinct]

theorem mem_distinct {ks : List κ} {k : κ} : k ∈ distinct ks ↔ k ∈ ks := by
  induction ks using List.reverseRecOn with
  | nil => simp [distinct]
  | append_singleton ks x ih =>
      rw [distinct_concat, pushNew]
      by_cases hx : x ∈ distinct ks
      · rw [if_pos hx, ih, List.mem_append, List.mem_singleton]
        constructor
        · exact Or.inl
        · intro hk
          rcases hk with hk | rfl
          · exact hk
          · exact ih.mp hx
      · rw [if_neg hx, List.mem_append, List.mem_append, ih]

/-- The first occurrences are listed in the order in which they occur. -/
theorem lists_distinct (ks : List κ) :
    Lists (· ∈ ks) (fun a b => ks.idxOf a < ks.idxOf b) (distinct ks) := by
  refine ⟨?_, fun k => mem_distinct, ?_⟩
  · induction ks using List.reverseRecOn with
    | nil => simp [distinct]
    | append_singleton ks x ih =>
        rw [distinct_concat, pushNew]
        by_cases hx : x ∈ distinct ks
        · rw [if_pos hx]
          exact ih
        · rw [if_neg hx]
          exact List.nodup_append.mpr ⟨ih, List.nodup_singleton x, by
            intro a ha b hb hab
            rw [hab, List.mem_singleton.mp hb] at ha
            exact hx ha⟩
  · induction ks using List.reverseRecOn with
    | nil => simp [distinct]
    | append_singleton ks x ih =>
        have hold : (distinct ks).Pairwise fun a b =>
            (ks ++ [x]).idxOf a < (ks ++ [x]).idxOf b := by
          apply ih.imp_of_mem
          intro a b ha hb hab
          rw [List.idxOf_append_of_mem (mem_distinct.mp ha),
            List.idxOf_append_of_mem (mem_distinct.mp hb)]
          exact hab
        rw [distinct_concat, pushNew]
        by_cases hx : x ∈ distinct ks
        · rw [if_pos hx]
          exact hold
        · rw [if_neg hx]
          apply List.pairwise_append.mpr
          refine ⟨hold, List.pairwise_singleton _ _, ?_⟩
          intro a ha b hb
          -- a member that is new stands behind everything before it
          have ha' : a ∈ ks := mem_distinct.mp ha
          have hx' : x ∉ ks := fun h => hx (mem_distinct.mpr h)
          rw [List.mem_singleton.mp hb, List.idxOf_append_of_mem ha',
            List.idxOf_append_of_notMem hx']
          have := List.idxOf_lt_length_iff.mpr ha'
          omega

/-! ## Collecting into a map -/

/-- A hash map collected from `xs`: of several members under one key, the last. -/
def collect (key : α → κ) (xs : List α) (k : κ) : Option α :=
  xs.reverse.find? fun a => key a == k

/-- Where the keys tell the members apart, the map has each under its key. -/
theorem collect_eq_some_iff {key : α → κ} {xs : List α} {k : κ} {a : α}
    (hkey : ∀ a ∈ xs, ∀ b ∈ xs, key a = key b → a = b) :
    collect key xs k = some a ↔ a ∈ xs ∧ key a = k := by
  constructor
  · intro h
    have hmem := List.mem_reverse.mp (List.mem_of_find?_eq_some h)
    have hk := List.find?_some h
    rw [beq_iff_eq] at hk
    exact ⟨hmem, hk⟩
  · rintro ⟨ha, rfl⟩
    cases hfind : collect key xs (key a) with
    | none =>
        have hnone := List.find?_eq_none.mp hfind a (List.mem_reverse.mpr ha)
        exact absurd (beq_self_eq_true (key a)) hnone
    | some b =>
        have hb := List.mem_reverse.mp (List.mem_of_find?_eq_some hfind)
        have hk := List.find?_some hfind
        rw [beq_iff_eq] at hk
        rw [hkey b hb a ha hk]

/-- The members of a map, in the order of a list of keys. -/
theorem lists_filterMap_collect {key : α → κ} {xs : List α} {ks : List κ}
    {p : κ → Prop} {r : κ → κ → Prop}
    (hkey : ∀ a ∈ xs, ∀ b ∈ xs, key a = key b → a = b) (hks : Lists p r ks) :
    Lists (fun a => a ∈ xs ∧ p (key a)) (fun a b => r (key a) (key b))
      (ks.filterMap (collect key xs)) := by
  have hkey_of : ∀ {k a}, collect key xs k = some a → key a = k := by
    intro k a h
    exact ((collect_eq_some_iff hkey).mp h).2
  refine ⟨?_, ?_, ?_⟩
  · apply hks.nodup.filterMap
    intro k k' a hk hk'
    rw [← hkey_of hk, ← hkey_of hk']
  · intro a
    rw [List.mem_filterMap]
    constructor
    · rintro ⟨k, hk, hcollect⟩
      obtain ⟨ha, rfl⟩ := (collect_eq_some_iff hkey).mp hcollect
      exact ⟨ha, (hks.mem _).mp hk⟩
    · rintro ⟨ha, hp⟩
      exact ⟨key a, (hks.mem _).mpr hp, (collect_eq_some_iff hkey).mpr ⟨ha, rfl⟩⟩
  · apply List.pairwise_filterMap.mpr
    apply hks.ordered.imp
    intro k k' hr a ha b hb
    rw [hkey_of ha, hkey_of hb]
    exact hr

end Komika.Lib.Paging
