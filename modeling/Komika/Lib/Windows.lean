import Mathlib.Data.List.Basic
import Mathlib.Order.Lattice

/-!
# Windows on a sorted listing

A listing is served in the order of a key, and a window is the part of it from
some key on.  As the listing is sorted, a window is what is left of it after
its first so many records (`window_eq_drop`), so how far a reader has come
through windows that follow each other is a number.

The next window may start at the key of a record that the reader has seen
(`before_le_of_getElem?`), or at the next key, if the reader has seen as many
records as have this one (`before_next_le`): either way it starts no further
than the reader has come.
-/

namespace Komika.Lib.Windows

universe u v

variable {ρ : Type u} {κ : Type v} [LinearOrder κ] (key : ρ → κ)

/-- The record is not before `since`. -/
def admits (since : Option κ) (r : ρ) : Bool :=
  since.all fun s => decide (s ≤ key r)

/-- The records that are not before `since`. -/
def window (since : Option κ) (records : List ρ) : List ρ :=
  records.filter (admits key since)

/-- How many records are before `since`. -/
def before (since : Option κ) (records : List ρ) : Nat :=
  records.countP fun r => !admits key since r

/-- The listing is in the order of its keys. -/
abbrev Sorted (records : List ρ) : Prop :=
  records.Pairwise fun a b => key a ≤ key b

variable {key} {since : Option κ} {records : List ρ}

@[simp] theorem admits_none (r : ρ) : admits key none r = true := rfl

@[simp] theorem admits_some {s : κ} {r : ρ} :
    admits key (some s) r = true ↔ s ≤ key r := by simp [admits]

@[simp] theorem admits_some_eq_false {s : κ} {r : ρ} :
    admits key (some s) r = false ↔ key r < s := by simp [admits]

@[simp] theorem before_none : before key none records = 0 := by
  simp [before]

/-- There are no more records before a window than there are. -/
theorem before_le_length : before key since records ≤ records.length :=
  List.countP_le_length

/-- In a sorted listing a window has no gaps. -/
theorem admits_mono {a b : ρ} (hab : key a ≤ key b)
    (h : admits key since a = true) : admits key since b = true := by
  cases since with
  | none => rfl
  | some s => exact admits_some.mpr (le_trans (admits_some.mp h) hab)

/-- A window is what is left after the records before it. -/
theorem window_eq_drop (h : Sorted key records) :
    window key since records = records.drop (before key since records) := by
  unfold window before
  induction records with
  | nil => rfl
  | cons r records ih =>
      obtain ⟨hhead, htail⟩ := List.pairwise_cons.mp h
      cases hr : admits key since r with
      | false =>
          rw [List.filter_cons_of_neg (by simp [hr]), ih htail,
            List.countP_cons_of_pos (by simp [hr]), List.drop_succ_cons]
      | true =>
          have hall : ∀ x ∈ r :: records, admits key since x = true := by
            intro x hx
            rcases List.mem_cons.mp hx with rfl | hx
            · exact hr
            · exact admits_mono (hhead x hx) hr
          have hnone : (r :: records).countP (fun x => !admits key since x) = 0 := by
            rw [List.countP_eq_zero]
            intro x hx
            simp [hall x hx]
          rw [List.filter_eq_self.mpr hall, hnone, List.drop_zero]

/-- The records before a window and those in it are all. -/
theorem length_window (h : Sorted key records) :
    before key since records + (window key since records).length =
      records.length := by
  rw [window_eq_drop h, List.length_drop]
  exact Nat.add_sub_cancel' before_le_length

/-- A page of a window is a stretch of the listing. -/
theorem page_eq (h : Sorted key records) (offset limit : Nat) :
    ((window key since records).drop offset).take limit =
      (records.drop (before key since records + offset)).take limit := by
  rw [window_eq_drop h, List.drop_drop]

/-- The records before a window come first. -/
theorem mem_take_before (h : Sorted key records) {r : ρ} :
    r ∈ records.take (before key since records) ↔
      r ∈ records ∧ admits key since r = false := by
  constructor
  · intro hr
    -- All of the records before the window are counted in this stretch.
    have hwindow : (records.drop (before key since records)).countP
        (fun r => !admits key since r) = 0 := by
      rw [← window_eq_drop h, List.countP_eq_zero]
      intro x hx
      simp [List.of_mem_filter hx]
    have hcount : (records.take (before key since records)).countP
        (fun r => !admits key since r) =
          (records.take (before key since records)).length := by
      have hall : (records.take (before key since records) ++
          records.drop (before key since records)).countP
            (fun r => !admits key since r) = before key since records := by
        rw [List.take_append_drop, before]
      rw [List.countP_append, hwindow, Nat.add_zero] at hall
      rw [hall, List.length_take, Nat.min_eq_left before_le_length]
    have hadmits := List.countP_eq_length.mp hcount r hr
    exact ⟨List.mem_of_mem_take hr, by simpa using hadmits⟩
  · rintro ⟨hr, hbefore⟩
    rw [← List.take_append_drop (before key since records) records] at hr
    rcases List.mem_append.mp hr with htake | hdrop
    · exact htake
    · rw [← window_eq_drop h] at hdrop
      rw [List.of_mem_filter hdrop] at hbefore
      contradiction

/-- No record is before a window from some position on. -/
theorem before_le_of_forall {n : Nat}
    (h : ∀ r ∈ records.drop n, admits key since r = true) :
    before key since records ≤ n := by
  have hdrop : (records.drop n).countP (fun r => !admits key since r) = 0 := by
    rw [List.countP_eq_zero]
    intro r hr
    simp [h r hr]
  calc before key since records
      = (records.take n ++ records.drop n).countP
          (fun r => !admits key since r) := by rw [List.take_append_drop, before]
    _ = (records.take n).countP (fun r => !admits key since r) := by
        rw [List.countP_append, hdrop, Nat.add_zero]
    _ ≤ (records.take n).length := List.countP_le_length
    _ ≤ n := List.length_take_le n records

/-- A window from the key of a record starts at the record or before it. -/
theorem before_le_of_getElem? (h : Sorted key records) {i : Nat} {r : ρ}
    (hr : records[i]? = some r) : before key (some (key r)) records ≤ i := by
  apply before_le_of_forall
  intro x hx
  rw [admits_some]
  obtain ⟨hlt, hget⟩ := List.getElem?_eq_some_iff.mp hr
  rw [List.drop_eq_getElem_cons hlt, hget] at hx
  have hsuffix : (r :: records.drop (i + 1)).Pairwise fun a b => key a ≤ key b := by
    rw [← hget, ← List.drop_eq_getElem_cons hlt]
    exact h.drop
  rcases List.mem_cons.mp hx with rfl | hx
  · exact le_rfl
  · exact (List.pairwise_cons.mp hsuffix).1 x hx

/-- The records up to a position, and a stretch that starts there or before. -/
theorem mem_take_or_mem_stretch {m n k : Nat} (hmn : m ≤ n) {r : ρ} :
    r ∈ records.take n ∨ r ∈ (records.drop m).take k ↔
      r ∈ records.take (max n (m + k)) := by
  have hsplit : r ∈ records.take (m + k) ↔
      r ∈ records.take m ∨ r ∈ (records.drop m).take k := by
    rw [List.take_add, List.mem_append]
  have hmono : ∀ i j, i ≤ j → r ∈ records.take i → r ∈ records.take j :=
    fun i j hij hr => List.take_subset_take_left records hij hr
  rcases Nat.le_total n (m + k) with hle | hle
  · rw [Nat.max_eq_right hle]
    constructor
    · rintro (hr | hr)
      · exact hmono n (m + k) hle hr
      · exact hsplit.mpr (.inr hr)
    · intro hr
      exact (hsplit.mp hr).imp (hmono m n hmn) id
  · rw [Nat.max_eq_left hle]
    constructor
    · rintro (hr | hr)
      · exact hr
      · exact hmono (m + k) n hle (hsplit.mpr (.inr hr))
    · exact .inl

/-- Between a key and the next one are the records with this key. -/
theorem before_next_le {s next : κ} (hnext : ∀ k, k < next → k ≤ s) :
    before key (some next) records ≤
      before key (some s) records + records.countP fun r => key r = s := by
  unfold before
  induction records with
  | nil => exact Nat.zero_le _
  | cons r records ih =>
      simp only [List.countP_cons, Bool.not_eq_true', Bool.eq_false_iff,
        ne_eq, admits_some, not_le, decide_eq_true_eq]
      by_cases hlt : key r < next
      · rcases lt_or_eq_of_le (hnext (key r) hlt) with hs | hs
        · simp only [hlt, hs, if_true]
          omega
        · rw [hs] at hlt
          simp only [hlt, hs, if_true, lt_irrefl, if_false]
          omega
      · simp only [hlt, if_false]
        omega

/-! ## The first so many of an ascending list

For walks that take a bounded number of keys and leave the rest to whoever looks beyond
the last of them. -/

section First

variable {ascending : List κ} (h : ascending.Pairwise (· < ·))
include h

/-- The last of an ascending list is the greatest. -/
theorem le_getLast {last k : κ} (hlast : ascending.getLast? = some last)
    (hk : k ∈ ascending) : k ≤ last := by
  obtain ⟨init, rfl⟩ := List.getLast?_eq_some_iff.mp hlast
  rcases List.mem_append.mp hk with hinit | hend
  · exact le_of_lt ((List.pairwise_append.mp h).2.2 k hinit last (by simp))
  · exact le_of_eq (List.mem_singleton.mp hend)

/-- What is not among the first `n` is above the last of them, of which there
are then `n`. -/
theorem mem_take_or_above {n : Nat} (hn : 0 < n) {k : κ} (hk : k ∈ ascending) :
    k ∈ ascending.take n ∨ n ≤ (ascending.take n).length ∧
      ∃ last, (ascending.take n).getLast? = some last ∧ last < k := by
  rw [← List.take_append_drop n ascending] at hk h
  rcases List.mem_append.mp hk with hfirst | hrest
  · exact Or.inl hfirst
  · have hlen : n ≤ (ascending.take n).length := by
      have := List.length_pos_of_mem hrest
      simp only [List.length_drop] at this
      simp only [List.length_take]
      omega
    have hne : ascending.take n ≠ [] :=
      List.ne_nil_of_length_pos (Nat.lt_of_lt_of_le hn hlen)
    refine Or.inr ⟨hlen, (ascending.take n).getLast hne, List.getLast?_eq_getLast_of_ne_nil hne, ?_⟩
    exact (List.pairwise_append.mp h).2.2 _ (List.getLast_mem hne) k hrest

end First

end Komika.Lib.Windows
