import Komika.Lib.Rotation

/-!
# Walks by key

A walk over the keys of a set that others write reads a page of the smallest
keys after its cursor and moves the cursor to the last of them, until a page
comes back empty.  Nothing is known of the set from one page to the next.

A key behind the cursor and still there is on the page or behind its last
(`mem_page_or_beyond`), so a walk loses only keys that were not there when it
came past.  What the pages hold ascends over the whole walk
(`Ascends.append_page`): no key is read twice.  Each page passes a key
(`beyond_lt`), so there are no more pages than there are keys at all.
-/

namespace Komika.Lib.Keyset

universe u

variable {κ : Type u} [LinearOrder κ]

/-- `WHERE key > cursor ORDER BY key LIMIT size`. -/
def page (size : Nat) (cursor : κ) (keys : List κ) : List κ :=
  ((keys.filter fun k => decide (cursor < k)).insertionSort (· ≤ ·)).take size

variable {size : Nat} {cursor k last : κ} {keys : List κ}

/-- A page holds keys of the set, behind the cursor. -/
theorem mem_of_mem_page (h : k ∈ page size cursor keys) : k ∈ keys ∧ cursor < k := by
  have hmem := (List.mem_insertionSort _).mp (List.mem_of_mem_take h)
  rw [List.mem_filter, decide_eq_true_eq] at hmem
  exact hmem

theorem sorted_page (hkeys : keys.Nodup) :
    (page size cursor keys).Pairwise (· < ·) := by
  have hsorted := List.pairwise_insertionSort (· ≤ ·)
    (keys.filter fun k => decide (cursor < k))
  have hnodup := (List.perm_insertionSort (· ≤ ·)
    (keys.filter fun k => decide (cursor < k))).nodup_iff.mpr (hkeys.filter _)
  apply ((hsorted.and hnodup).sublist (List.take_sublist _ _)).imp
  intro a b hab
  exact lt_of_le_of_ne hab.1 hab.2

/-- The last key of a page is the greatest. -/
theorem le_last (hkeys : keys.Nodup) (hlast : (page size cursor keys).getLast? = some last)
    (h : k ∈ page size cursor keys) : k ≤ last := by
  have hsorted : (page size cursor keys).Pairwise (· < ·) := sorted_page hkeys
  obtain ⟨front, hfront⟩ := List.getLast?_eq_some_iff.mp hlast
  rw [hfront, List.pairwise_append] at hsorted
  rw [hfront, List.mem_append, List.mem_singleton] at h
  rcases h with h | rfl
  · exact (hsorted.2.2 k h last (List.mem_singleton_self _)).le
  · exact le_rfl

/-- A page misses nothing that is before its last key. -/
theorem mem_page_or_beyond (hsize : 0 < size) (hk : k ∈ keys) (hcursor : cursor < k) :
    k ∈ page size cursor keys ∨
      ∃ last, (page size cursor keys).getLast? = some last ∧ last < k := by
  by_cases hmem : k ∈ page size cursor keys
  · exact Or.inl hmem
  · have hin : k ∈ (keys.filter fun k => decide (cursor < k)).insertionSort (· ≤ ·) := by
      rw [List.mem_insertionSort, List.mem_filter, decide_eq_true_eq]
      exact ⟨hk, hcursor⟩
    obtain ⟨hfull, hbefore⟩ :=
      Rotation.lt_of_notMem_take (List.pairwise_insertionSort _ _) hin hmem
    cases hlast : (page size cursor keys).getLast? with
    | none =>
        rw [List.getLast?_eq_none_iff] at hlast
        change (page size cursor keys).length = size at hfull
        rw [hlast, List.length_nil] at hfull
        omega
    | some last =>
        exact Or.inr ⟨last, rfl, hbefore last (List.mem_of_getLast? hlast)⟩

/-- A page is empty only where nothing is left. -/
theorem le_cursor_of_page_empty (hsize : 0 < size)
    (h : (page size cursor keys).getLast? = none) (hk : k ∈ keys) : k ≤ cursor := by
  by_contra hbeyond
  rcases mem_page_or_beyond hsize hk (not_le.mp hbeyond) with hmem | ⟨last, hlast, -⟩
  · rw [List.getLast?_eq_none_iff] at h
    rw [h] at hmem
    exact absurd hmem List.not_mem_nil
  · rw [h] at hlast
    contradiction

/-- What a walk has read, and where it is. -/
structure Ascends (cursor : κ) (visited : List κ) : Prop where
  sorted : visited.Pairwise (· < ·)
  behind : ∀ k ∈ visited, k ≤ cursor

/-- A walk starts having read nothing. -/
theorem ascends_nil : Ascends cursor [] where
  sorted := List.Pairwise.nil
  behind := by simp

/-- The next page goes on where the walk is. -/
theorem Ascends.append_page {visited : List κ} (h : Ascends cursor visited)
    (hkeys : keys.Nodup) (hlast : (page size cursor keys).getLast? = some last) :
    Ascends last (visited ++ page size cursor keys) := by
  have hpast : cursor < last := (mem_of_mem_page (List.mem_of_getLast? hlast)).2
  constructor
  · apply List.pairwise_append.mpr
    refine ⟨h.sorted, sorted_page hkeys, ?_⟩
    intro a ha b hb
    exact (h.behind a ha).trans_lt (mem_of_mem_page hb).2
  · intro k hk
    rcases List.mem_append.mp hk with hk | hk
    · exact (h.behind k hk).trans hpast.le
    · exact le_last hkeys hlast hk

/-! ## Ending

The measure that every page brings down, which bounds the number of pages. -/

/-- How many of the keys a walk has in front of it. -/
def beyond (all : Finset κ) (cursor : κ) : Nat := (all.filter fun k => cursor < k).card

/-- A page passes at least one key. -/
theorem beyond_lt {all : Finset κ} (hall : ∀ k ∈ keys, k ∈ all)
    (hlast : (page size cursor keys).getLast? = some last) :
    beyond all last < beyond all cursor := by
  obtain ⟨hkey, hpast⟩ := mem_of_mem_page (List.mem_of_getLast? hlast)
  have hpassed := Rotation.card_passed_lt hpast (hall last hkey) (p := fun _ => True) trivial
  simp only [and_true] at hpassed
  exact hpassed

/-- There are no more keys in front of a walk than there are. -/
theorem beyond_le (all : Finset κ) (cursor : κ) : beyond all cursor ≤ all.card :=
  Finset.card_filter_le _ _

end Komika.Lib.Keyset
