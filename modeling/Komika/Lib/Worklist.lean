import Komika.Lib.Machine
import Mathlib.Data.Finset.Card
import Mathlib.Data.Finset.SDiff

/-!
# Work-lists drained in batches

A drain reads a batch of at most `n` items off a work-list, and a later step
does them.  Meanwhile items may be done by others; none are added.  Whatever
comes in between, every batch that is written brings the list down by `n`, or to
nothing (`card_run_le`): an item that others have done while it was in the batch
is one that the batch need not do.
-/

namespace Komika.Lib.Worklist

universe u v w

/-- The items to do, and the batch that has been read. -/
structure Drain (κ : Type u) where
  work : Finset κ
  inFlight : Option (Finset κ)

variable {κ : Type u} [DecidableEq κ] {n : Nat}

/-- One step; the flag says whether it writes the batch. -/
inductive Step (n : Nat) : Drain κ → Bool → Drain κ → Prop where
  /-- A full batch is read, or all there is. -/
  | read {work batch : Finset κ} (hsub : batch ⊆ work) (hcap : batch.card ≤ n)
      (hfull : min n work.card ≤ batch.card) :
      Step n ⟨work, none⟩ false ⟨work, some batch⟩
  | write {work left batch : Finset κ} (h : left ⊆ work \ batch) :
      Step n ⟨work, some batch⟩ true ⟨left, none⟩
  | drop {work : Finset κ} {inFlight : Option (Finset κ)} :
      Step n ⟨work, inFlight⟩ false ⟨work, none⟩
  | shrink {work left : Finset κ} {inFlight : Option (Finset κ)} (h : left ⊆ work) :
      Step n ⟨work, inFlight⟩ false ⟨left, inFlight⟩

/-- No more than `n` items are in flight. -/
def Capped (n : Nat) (s : Drain κ) : Prop := ∀ batch ∈ s.inFlight, batch.card ≤ n

/-- What is left at most after `b` more batches. -/
def bound (n : Nat) (s : Drain κ) : Nat → Nat
  | 0 => s.work.card
  | b + 1 =>
      match s.inFlight with
      | none => s.work.card - n * (b + 1)
      | some batch => (s.work \ batch).card - n * b

/-- With no batch in flight the promise is about the list. -/
theorem bound_idle (work : Finset κ) (b : Nat) :
    bound n ⟨work, none⟩ b = work.card - n * b := by
  cases b with
  | zero => simp [bound]
  | succ b => rfl

/-- No step makes a batch larger than it was read. -/
theorem Step.capped {s s' : Drain κ} {w : Bool} (h : Step n s w s') (hs : Capped n s) :
    Capped n s' := by
  cases h with
  | read hsub hcap hfull => simpa [Capped] using hcap
  | write h => simp [Capped]
  | drop => simp [Capped]
  | shrink h => exact hs

/-- A step uses up no more than its own batch of what is promised. -/
theorem Step.bound_le {s s' : Drain κ} {w : Bool} (h : Step n s w s') (hs : Capped n s)
    (b : Nat) : bound n s' b ≤ bound n s (b + w.toNat) := by
  cases h with
  | @read work batch hsub hcap hfull =>
      have hcard := Finset.card_sdiff_of_subset hsub
      cases b with
      | zero => exact le_rfl
      | succ b =>
          show (work \ batch).card - n * b ≤ work.card - n * (b + 1)
          rw [Nat.mul_succ]
          omega
  | @write work left batch h =>
      have hcard := Finset.card_le_card h
      rw [bound_idle]
      show left.card - n * b ≤ (work \ batch).card - n * b
      omega
  | @drop work inFlight =>
      rw [bound_idle]
      cases b with
      | zero => exact Nat.sub_le _ _
      | succ b =>
          cases inFlight with
          | none => exact le_rfl
          | some batch =>
              have hcap : batch.card ≤ n := hs batch rfl
              have hcard := Finset.le_card_sdiff batch work
              show work.card - n * (b + 1) ≤ (work \ batch).card - n * b
              rw [Nat.mul_succ]
              omega
  | @shrink work left inFlight h =>
      have hcard := Finset.card_le_card h
      cases b with
      | zero => exact hcard
      | succ b =>
          cases inFlight with
          | none =>
              show left.card - n * (b + 1) ≤ work.card - n * (b + 1)
              omega
          | some batch =>
              have hrest : (left \ batch).card ≤ (work \ batch).card :=
                Finset.card_le_card (Finset.sdiff_subset_sdiff h subset_rfl)
              show (left \ batch).card - n * b ≤ (work \ batch).card - n * b
              exact Nat.sub_le_sub_right hrest _

/-! ## Machines that drain a work-list

A machine with a view of its state as a drain: each of its steps is a step of the drain,
and some of them write the batch. -/

section Runs

variable {σ : Type v} {ε : Type w} {step : σ → ε → σ}

/-- The batches that a run writes. -/
def batches (step : σ → ε → σ) (writes : σ → ε → Bool) : σ → List ε → Nat
  | _, [] => 0
  | s, e :: es => batches step writes (step s e) es + (writes s e).toNat

/-- Along a run whose steps are steps of a drain, each batch counts. -/
theorem card_run_le (writes : σ → ε → Bool) {drain : σ → Drain κ} {I : σ → Prop} {P : σ → ε → Prop}
    (hI : ∀ s e, I s → I (step s e))
    (hstep : ∀ s e, I s → P s e → Step n (drain s) (writes s e) (drain (step s e)))
    {s : σ} (hs : I s) (hcap : Capped n (drain s)) {es : List ε}
    (hes : Machine.EachStep step P s es) :
    (drain (Machine.run step s es)).work.card ≤
      bound n (drain s) (batches step writes s es) := by
  induction es generalizing s with
  | nil => exact le_rfl
  | cons e es ih =>
      have h := hstep s e hs hes.1
      calc (drain (Machine.run step s (e :: es))).work.card
          ≤ bound n (drain (step s e)) (batches step writes (step s e) es) :=
            ih (hI s e hs) (h.capped hcap) hes.2
        _ ≤ bound n (drain s) (batches step writes s (e :: es)) :=
            h.bound_le hcap _

end Runs

end Komika.Lib.Worklist
