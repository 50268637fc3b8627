import Mathlib.Data.List.Basic

/-!
# Loops of a bounded number of turns

`for k in 0..n` with an early return: a turn goes on with another state, or
returns.  `loop` keeps the number and the state of every turn it takes, so that
what a turn does can be read off where it began.

* `length_loop_le`, `map_fst_loop` — it takes no more turns than it has, one after
  the other;
* `forall_mem_loop` — what every turn preserves holds where each one begins;
* `mem_loop_of_returned` — what is returned is returned by a turn that it takes.
-/

namespace Komika.Lib.Turns

/-- What a turn of the loop does: it goes on with a state, or returns. -/
inductive Turn (σ ρ : Type) where
  | again (s : σ)
  | done (r : ρ)

variable {σ ρ : Type}

/-- The turns taken, and what is returned if one of them returns. -/
def loop (turn : Nat → σ → Turn σ ρ) : Nat → Nat → σ → List (Nat × σ) × Option ρ
  | 0, _, _ => ([], none)
  | n + 1, k, s =>
      match turn k s with
      | .done r => ([(k, s)], some r)
      | .again s' => ((k, s) :: (loop turn n (k + 1) s').1, (loop turn n (k + 1) s').2)

variable {turn : Nat → σ → Turn σ ρ} {n k : Nat} {s : σ}

/-- A turn that returns is the last one. -/
theorem loop_done {r : ρ} (h : turn k s = .done r) :
    loop turn (n + 1) k s = ([(k, s)], some r) := by
  rw [loop, h]

/-- A turn that goes on is followed by the rest of the loop. -/
theorem loop_again {s' : σ} (h : turn k s = .again s') :
    loop turn (n + 1) k s =
      ((k, s) :: (loop turn n (k + 1) s').1, (loop turn n (k + 1) s').2) := by
  rw [loop, h]

/-- There are at most `n` turns. -/
theorem length_loop_le : (loop turn n k s).1.length ≤ n := by
  induction n generalizing k s with
  | zero => exact Nat.le_refl 0
  | succ n ih =>
      cases h : turn k s with
      | done r =>
          rw [loop_done h]
          exact Nat.succ_le_succ (Nat.zero_le n)
      | again s' =>
          rw [loop_again h]
          exact Nat.succ_le_succ ih

/-- The turns are numbered as they come. -/
theorem map_fst_loop :
    (loop turn n k s).1.map Prod.fst = List.range' k (loop turn n k s).1.length := by
  induction n generalizing k s with
  | zero => rfl
  | succ n ih =>
      cases h : turn k s with
      | done r =>
          rw [loop_done h]
          rfl
      | again s' =>
          rw [loop_again h, List.map_cons, List.length_cons, List.range'_succ, ih]

/-- A state that a turn goes on with is one that `I` holds of, if it held before. -/
theorem forall_mem_loop {I : σ → Prop} (hstart : I s)
    (hturn : ∀ k s s', I s → turn k s = .again s' → I s') :
    ∀ x ∈ (loop turn n k s).1, I x.2 := by
  induction n generalizing k s with
  | zero => nofun
  | succ n ih =>
      cases h : turn k s with
      | done r =>
          rw [loop_done h]
          intro x hx
          rw [List.mem_singleton.mp hx]
          exact hstart
      | again s' =>
          rw [loop_again h, List.forall_mem_cons]
          exact ⟨hstart, ih (hturn k s s' hstart h)⟩

/-- What the loop returns, one of its turns returned. -/
theorem mem_loop_of_returned {r : ρ} (h : (loop turn n k s).2 = some r) :
    ∃ x ∈ (loop turn n k s).1, turn x.1 x.2 = .done r := by
  induction n generalizing k s with
  | zero => contradiction
  | succ n ih =>
      cases hturn : turn k s with
      | done r' =>
          rw [loop_done hturn] at h ⊢
          rw [Option.some.inj h] at hturn
          exact ⟨(k, s), List.mem_singleton_self _, hturn⟩
      | again s' =>
          rw [loop_again hturn] at h ⊢
          obtain ⟨x, hx, hdone⟩ := ih h
          exact ⟨x, List.mem_cons_of_mem _ hx, hdone⟩

end Komika.Lib.Turns
