import Komika.Lib.Machine
import Mathlib.Data.Finset.Card
import Mathlib.Data.Finset.Sort

/-!
# A cursor that goes round

A walk over a finite set of a linear order takes the next few members after its
cursor.  Where it gets a full batch the cursor moves to the last of them, and
where it runs off the end it starts again from below.

`distance` says how far the walk is from a member `g`.  Every pass that does
not take `g` brings it closer (`distance_advance`, `distance_wrap`), and from
anywhere it is at most one more than there are members (`distance_le`).  So a
pass that never fails to end takes every member in the end; when each pass ends
is what `exists_done_of_decreasing` is for.
-/

namespace Komika.Lib.Rotation

universe u v w

/-! ## The distance to a member

Members in front of the cursor up to `g`, or, if `g` is behind it, those in front of the
cursor and then those up to `g`. -/

section Distance

variable {α : Type u} [LinearOrder α] (G : Finset α) (g : α)

/-- How many members lie between the cursor and `g`, going round. -/
def distance (cursor : α) : Nat :=
  if cursor < g then (G.filter fun t => cursor < t ∧ t < g).card + 1
  else (G.filter fun t => cursor < t).card + (G.filter fun t => t < g).card + 2

/-- The walk is never there yet. -/
theorem distance_pos (cursor : α) : 0 < distance G g cursor := by
  unfold distance
  split <;> omega

variable {G g}

/-- One more than the members, at most. -/
theorem distance_le (hg : g ∈ G) (cursor : α) : distance G g cursor ≤ G.card + 1 := by
  have hbefore : ∀ p : α → Prop, ∀ [DecidablePred p], ¬p g → (G.filter p).card < G.card := by
    intro p _ hp
    exact Finset.card_lt_card (Finset.filter_ssubset.mpr ⟨g, hg, hp⟩)
  unfold distance
  by_cases hlt : cursor < g
  · rw [if_pos hlt]
    have := hbefore (fun t => cursor < t ∧ t < g) (by simp)
    omega
  · rw [if_neg hlt]
    have hapart : Disjoint (G.filter fun t => cursor < t) (G.filter fun t => t < g) := by
      rw [Finset.disjoint_filter]
      intro t _ hafter hbelow
      exact hlt (hafter.trans hbelow)
    have hboth := hbefore (fun t => cursor < t ∨ t < g) (by simp [hlt])
    rw [Finset.filter_or, Finset.card_union_of_disjoint hapart] at hboth
    omega

/-- A member that the cursor passes is left behind. -/
theorem card_passed_lt {cursor next : α} (hlt : cursor < next) (hnext : next ∈ G)
    {p : α → Prop} [DecidablePred p] (hp : p next) :
    (G.filter fun t => next < t ∧ p t).card < (G.filter fun t => cursor < t ∧ p t).card := by
  apply Finset.card_lt_card
  rw [Finset.ssubset_iff_of_subset]
  · exact ⟨next, by simp [hnext, hlt, hp], by simp⟩
  · intro t ht
    rw [Finset.mem_filter] at ht ⊢
    exact ⟨ht.1, hlt.trans ht.2.1, ht.2.2⟩

/-- A full batch that stops short of `g`, or starts behind it. -/
theorem distance_advance {cursor next : α} (hlt : cursor < next) (hnext : next ∈ G)
    (hskip : ¬(cursor < g ∧ g ≤ next)) : distance G g next < distance G g cursor := by
  unfold distance
  by_cases hbefore : cursor < g
  · have hshort : next < g := not_le.mp fun hle => hskip ⟨hbefore, hle⟩
    rw [if_pos hbefore, if_pos hshort]
    have := card_passed_lt hlt hnext (p := fun t => t < g) hshort
    omega
  · have hpast : ¬next < g := fun h => hbefore (hlt.trans h)
    rw [if_neg hbefore, if_neg hpast]
    have hcard := card_passed_lt hlt hnext (p := fun _ => True) trivial
    simp only [and_true] at hcard
    omega

/-- The walk starts again from below. -/
theorem distance_wrap {cursor start : α} (hstart : start < g) (hpast : g ≤ cursor) :
    distance G g start < distance G g cursor := by
  have hsub : (G.filter fun t => start < t ∧ t < g).card ≤
      (G.filter fun t => t < g).card :=
    Finset.card_le_card fun t ht => by
      rw [Finset.mem_filter] at ht ⊢
      exact ⟨ht.1, ht.2.2⟩
  unfold distance
  rw [if_pos hstart, if_neg (not_lt.mpr hpast)]
  omega

end Distance

/-! ## A batch of a sorted list -/

/-- A member of a sorted list that a batch leaves out is behind all of the batch. -/
theorem lt_of_notMem_take {α : Type u} [LinearOrder α] {xs : List α}
    (hsorted : xs.Pairwise (· ≤ ·)) {n : Nat} {g : α} (hg : g ∈ xs) (hout : g ∉ xs.take n) :
    (xs.take n).length = n ∧ ∀ t ∈ xs.take n, t < g := by
  rw [← List.take_append_drop n xs] at hsorted hg
  have hlater : g ∈ xs.drop n := (List.mem_append.mp hg).resolve_left hout
  constructor
  · have hlen := List.length_pos_of_mem hlater
    rw [List.length_drop] at hlen
    rw [List.length_take]
    omega
  · intro t ht
    have hle : t ≤ g := (List.pairwise_append.mp hsorted).2.2 t ht g hlater
    apply lt_of_le_of_ne hle
    rintro rfl
    exact hout ht

/-! ## Ending

Steps that bring the rank down come up again and again, and nothing raises it in
between. -/

/-- A run in which steps that bring a rank down come up again and again reaches
a state that is done, where no step before that raises the rank. -/
theorem exists_done_of_decreasing {σ : Type u} {ε : Type v} {β : Type w} [Preorder β]
    [WellFoundedLT β] {step : σ → ε → σ} (rank : σ → β) {Done : σ → Prop}
    {works : ε → Prop}
    (hkeep : ∀ s e, ¬Done s → Done (step s e) ∨ rank (step s e) ≤ rank s)
    (hless : ∀ s e, ¬Done s → works e → Done (step s e) ∨ rank (step s e) < rank s)
    (later : Nat → ε) (hoften : ∀ n, ∃ m, n ≤ m ∧ works (later m)) (s : σ) :
    ∃ n, Done (Machine.run step s ((List.range n).map later)) := by
  let states : Nat → σ := fun n => Machine.run step s ((List.range n).map later)
  have hnext : ∀ n, states (n + 1) = step (states n) (later n) := by
    intro n
    show Machine.run step s ((List.range (n + 1)).map later) = _
    rw [List.range_succ, List.map_append, List.map_singleton, Machine.run_concat]
  by_contra hnever
  have hopen : ∀ n, ¬Done (states n) := fun n h => hnever ⟨n, h⟩
  have hanti : ∀ n k, rank (states (n + k)) ≤ rank (states n) := by
    intro n k
    induction k with
    | zero => exact le_rfl
    | succ k ih =>
        have hstep := hkeep (states (n + k)) (later (n + k)) (hopen _)
        rw [← hnext] at hstep
        exact (hstep.resolve_left (hopen _)).trans ih
  have hdrop : ∀ n, ∃ m, rank (states m) < rank (states n) := by
    intro n
    obtain ⟨m, hm, hworks⟩ := hoften n
    have hstep := hless (states m) (later m) (hopen _) hworks
    rw [← hnext] at hstep
    refine ⟨m + 1, (hstep.resolve_left (hopen _)).trans_le ?_⟩
    have hle := hanti n (m - n)
    rwa [Nat.add_sub_cancel' hm] at hle
  -- no rank of the run is the least
  have hnone : ∀ b : β, ∀ n, rank (states n) ≠ b := by
    intro b
    induction b using WellFoundedLT.induction with
    | ind b ih =>
        intro n hn
        obtain ⟨m, hm⟩ := hdrop n
        exact ih _ (hn ▸ hm) m rfl
  exact hnone _ 0 rfl

end Komika.Lib.Rotation
