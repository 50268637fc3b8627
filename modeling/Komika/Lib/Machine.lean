import Mathlib.Data.List.Induction

/-!
# Deterministic machines and what holds along their runs

A machine is a total function `step : σ → ε → σ`; a run is the fold of a list
of events, oldest first.  An event that is not enabled in a state leaves the
state as it is, so every list of events is a run and "for every run" needs no
side condition.

The rules below are the ones a safety proof uses:

* `run_invariant` — an invariant kept by every step holds after every run;
* `run_invariant_of_each` — the same, when only the steps that meet a
  condition keep it, for the runs all of whose steps meet the condition;
* `run_history_invariant` — the same for an invariant that also speaks of the
  events so far;
* `observations` — what a run shows of itself, for histories that no state
  records;
* `EachStep.of_invariant` — a property of single steps holds at every step of
  a run when an invariant supplies it;
* `eachStep_congr_of_invariant` — two such properties hold along the same runs
  when they agree under an invariant;
* `always_of_invariant` — what an invariant implies holds in every state of a
  run whose steps keep it;
* `always_iff_eachStep` — when a step keeps a property exactly under a
  condition, the property holds in every state of a run exactly if it holds in
  the first and every step meets the condition.
-/

namespace Komika.Lib.Machine

universe u v w

variable {σ : Type u} {ε : Type v}

/-- The state a run ends in. -/
def run (step : σ → ε → σ) (s : σ) (events : List ε) : σ :=
  events.foldl step s

variable (step : σ → ε → σ)

@[simp] theorem run_nil (s : σ) : run step s [] = s := rfl

@[simp] theorem run_cons (s : σ) (e : ε) (es : List ε) :
    run step s (e :: es) = run step (step s e) es := rfl

/-- A run is continued from where it ended. -/
theorem run_append (s : σ) (es fs : List ε) :
    run step s (es ++ fs) = run step (run step s es) fs := by
  simp [run, List.foldl_append]

/-- The last step of a run. -/
theorem run_concat (s : σ) (es : List ε) (e : ε) :
    run step s (es ++ [e]) = step (run step s es) e := by
  simp [run_append]

/-- `P` holds of every step of the run: of the state before it and its event. -/
def EachStep (P : σ → ε → Prop) : σ → List ε → Prop
  | _, [] => True
  | s, e :: es => P s e ∧ EachStep P (step s e) es

instance EachStep.decidable (P : σ → ε → Prop) [∀ s e, Decidable (P s e)] :
    ∀ s es, Decidable (EachStep step P s es)
  | _, [] => .isTrue trivial
  | s, e :: es =>
      @instDecidableAnd _ _ _ (EachStep.decidable P (step s e) es)

variable {step}

@[simp] theorem eachStep_nil (P : σ → ε → Prop) (s : σ) :
    EachStep step P s [] := trivial

@[simp] theorem eachStep_cons {P : σ → ε → Prop} {s : σ} {e : ε} {es : List ε} :
    EachStep step P s (e :: es) ↔ P s e ∧ EachStep step P (step s e) es :=
  Iff.rfl

/-- The steps of a longer run are those of its parts. -/
theorem eachStep_append {P : σ → ε → Prop} {s : σ} {es fs : List ε} :
    EachStep step P s (es ++ fs) ↔
      EachStep step P s es ∧ EachStep step P (run step s es) fs := by
  induction es generalizing s with
  | nil => simp
  | cons e es ih => simp [ih, and_assoc]

/-- A weaker condition holds of the same steps. -/
theorem EachStep.mono {P Q : σ → ε → Prop} {s : σ} {es : List ε}
    (hPQ : ∀ s e, P s e → Q s e) (h : EachStep step P s es) :
    EachStep step Q s es := by
  induction es generalizing s with
  | nil => trivial
  | cons e es ih => exact ⟨hPQ s e h.1, ih h.2⟩

/-- A condition on events alone, met by all of them. -/
theorem eachStep_of_forall {P : ε → Prop} {s : σ} {es : List ε}
    (h : ∀ e ∈ es, P e) : EachStep step (fun _ e => P e) s es := by
  induction es generalizing s with
  | nil => trivial
  | cons e es ih =>
      exact ⟨h e List.mem_cons_self, ih fun f hf => h f (List.mem_cons_of_mem _ hf)⟩

/-- Two conditions that hold of all steps hold together. -/
theorem EachStep.and {P Q : σ → ε → Prop} {s : σ} {es : List ε}
    (hP : EachStep step P s es) (hQ : EachStep step Q s es) :
    EachStep step (fun s e => P s e ∧ Q s e) s es := by
  induction es generalizing s with
  | nil => trivial
  | cons e es ih => exact ⟨⟨hP.1, hQ.1⟩, ih hP.2 hQ.2⟩

theorem eachStep_and {P Q : σ → ε → Prop} {s : σ} {es : List ε} :
    EachStep step (fun s e => P s e ∧ Q s e) s es ↔
      EachStep step P s es ∧ EachStep step Q s es := by
  constructor
  · intro h
    exact ⟨h.mono fun _ _ => And.left, h.mono fun _ _ => And.right⟩
  · rintro ⟨hP, hQ⟩
    exact hP.and hQ

/-- `Q` holds of some step of the run. -/
def Sometime (step : σ → ε → σ) (Q : σ → ε → Prop) : σ → List ε → Prop
  | _, [] => False
  | s, e :: es => Q s e ∨ Sometime step Q (step s e) es

@[simp] theorem sometime_cons {Q : σ → ε → Prop} {s : σ} {e : ε} {es : List ε} :
    Sometime step Q s (e :: es) ↔ Q s e ∨ Sometime step Q (step s e) es :=
  Iff.rfl

/-- What holds of no step fails at each of them. -/
theorem not_sometime {Q : σ → ε → Prop} {s : σ} {es : List ε} :
    ¬Sometime step Q s es ↔ EachStep step (fun s e => ¬Q s e) s es := by
  induction es generalizing s with
  | nil => simp [Sometime]
  | cons e es ih => rw [sometime_cons, eachStep_cons, not_or, ih]

/-! ## Observations

What a run shows of itself at each step, put together in order. -/

section Observations

variable {α : Type w} (step) (observe : σ → ε → Option α)

/-- What is observed at the steps of a run, in order. -/
def observations : σ → List ε → List α
  | _, [] => []
  | s, e :: es => (observe s e).toList ++ observations (step s e) es

@[simp] theorem observations_nil (s : σ) :
    observations step observe s [] = [] := rfl

/-- The observations of a longer run are those of its parts. -/
theorem observations_append (s : σ) (es fs : List ε) :
    observations step observe s (es ++ fs) =
      observations step observe s es ++ observations step observe (run step s es) fs := by
  induction es generalizing s with
  | nil => rfl
  | cons e es ih => simp [observations, ih]

/-- The last step adds what it shows. -/
theorem observations_concat (s : σ) (es : List ε) (e : ε) :
    observations step observe s (es ++ [e]) =
      observations step observe s es ++
        (observe (run step s es) e).toList := by
  rw [observations_append]
  simp [observations]

end Observations

/-! ## Invariants

An invariant is proved once for a step; these rules carry it to runs, with the condition
on steps that it needs, and with the history that it speaks of. -/

/-- An invariant that every step keeps holds after every run. -/
theorem run_invariant {I : σ → Prop} (hstep : ∀ s e, I s → I (step s e))
    {s : σ} (hs : I s) (es : List ε) : I (run step s es) := by
  induction es generalizing s with
  | nil => exact hs
  | cons e es ih => exact ih (hstep s e hs)

/-- An invariant kept by the steps that meet `P` holds after every run whose
steps all meet `P`. -/
theorem run_invariant_of_each {I : σ → Prop} {P : σ → ε → Prop}
    (hstep : ∀ s e, I s → P s e → I (step s e))
    {s : σ} (hs : I s) {es : List ε} (hes : EachStep step P s es) :
    I (run step s es) := by
  induction es generalizing s with
  | nil => exact hs
  | cons e es ih => exact ih (hstep s e hs hes.1) hes.2

/-- What some step brings about and every step keeps holds at the end. -/
theorem run_of_sometime {I P : σ → Prop} {Q : σ → ε → Prop}
    (hI : ∀ s e, I s → I (step s e)) (hkeep : ∀ s e, P s → P (step s e))
    (hbring : ∀ s e, I s → Q s e → P (step s e))
    {s : σ} (hs : I s) {es : List ε} (h : Sometime step Q s es) :
    P (run step s es) := by
  induction es generalizing s with
  | nil => exact h.elim
  | cons e es ih =>
      rcases h with hnow | hlater
      · exact run_invariant hkeep (hbring s e hs hnow) es
      · exact ih (hI s e hs) hlater

/-- `run_invariant_of_each` for an invariant that also reads the history. -/
theorem run_history_invariant {I : List ε → σ → Prop} {P : σ → ε → Prop}
    {s : σ} (hs : I [] s)
    (hstep : ∀ before e, I before (run step s before) →
      P (run step s before) e → I (before ++ [e]) (step (run step s before) e))
    {es : List ε} (hes : EachStep step P s es) : I es (run step s es) := by
  induction es using List.reverseRecOn with
  | nil => exact hs
  | append_singleton es e ih =>
      obtain ⟨hinit, hlast⟩ := eachStep_append.mp hes
      rw [run_concat]
      exact hstep es e (ih hinit) (eachStep_cons.mp hlast).1

/-- A step property that follows from an invariant holds at every step. -/
theorem EachStep.of_invariant {I : σ → Prop} {P Q : σ → ε → Prop}
    (hstep : ∀ s e, I s → P s e → I (step s e))
    (hQ : ∀ s e, I s → P s e → Q s e)
    {s : σ} (hs : I s) {es : List ε} (hes : EachStep step P s es) :
    EachStep step Q s es := by
  induction es generalizing s with
  | nil => trivial
  | cons e es ih => exact ⟨hQ s e hs hes.1, ih (hstep s e hs hes.1) hes.2⟩

/-- Two step properties that an invariant makes one hold at every step of the
same runs.  Only the steps that have the property need to keep the invariant. -/
theorem eachStep_congr_of_invariant {I : σ → Prop} {P Q : σ → ε → Prop}
    (hstep : ∀ s e, I s → Q s e → I (step s e)) (hiff : ∀ s e, I s → (P s e ↔ Q s e))
    {s : σ} (hs : I s) {es : List ε} :
    EachStep step P s es ↔ EachStep step Q s es := by
  induction es generalizing s with
  | nil => exact Iff.rfl
  | cons e es ih =>
      rw [eachStep_cons, eachStep_cons, hiff s e hs]
      exact and_congr_right fun hQ => ih (hstep s e hs hQ)

/-! ## Every state of a run

`EachStep` speaks of a state and the event that follows, `Always` of every state
reached; where one step keeps a property exactly under a condition the two are the
same. -/

/-- `P` holds of every state of the run, the first and the last included. -/
def Always (step : σ → ε → σ) (P : σ → Prop) (s : σ) (es : List ε) : Prop :=
  ∀ before, before <+: es → P (run step s before)

@[simp] theorem always_nil {P : σ → Prop} {s : σ} : Always step P s [] ↔ P s := by
  simp [Always]

@[simp] theorem always_cons {P : σ → Prop} {s : σ} {e : ε} {es : List ε} :
    Always step P s (e :: es) ↔ P s ∧ Always step P (step s e) es := by
  constructor
  · intro h
    refine ⟨h [] List.nil_prefix, fun before hbefore => ?_⟩
    exact h (e :: before) (List.cons_prefix_cons.mpr ⟨rfl, hbefore⟩)
  · rintro ⟨hs, hrest⟩ before hbefore
    cases before with
    | nil => exact hs
    | cons f before =>
        obtain ⟨rfl, htail⟩ := List.cons_prefix_cons.mp hbefore
        exact hrest before htail

/-- What holds of every state holds of the last one. -/
theorem Always.last {P : σ → Prop} {s : σ} {es : List ε}
    (h : Always step P s es) : P (run step s es) :=
  h es List.prefix_rfl

/-- The states of a run are the first and those its steps lead to. -/
theorem always_iff_after {P : σ → Prop} {s : σ} {es : List ε} :
    Always step P s es ↔ P s ∧ EachStep step (fun s e => P (step s e)) s es := by
  induction es generalizing s with
  | nil => simp
  | cons e es ih => rw [always_cons, ih, eachStep_cons]

/-- What an invariant implies holds along every run whose steps keep the
invariant. -/
theorem always_of_invariant {I P : σ → Prop} {Q : σ → ε → Prop}
    (hstep : ∀ s e, I s → Q s e → I (step s e)) (hP : ∀ s, I s → P s)
    {s : σ} (hs : I s) {es : List ε} (hes : EachStep step Q s es) :
    Always step P s es := by
  induction es generalizing s with
  | nil => exact always_nil.mpr (hP s hs)
  | cons e es ih =>
      rw [always_cons]
      exact ⟨hP s hs, ih (hstep s e hs hes.1) hes.2⟩

/-- Where a step keeps `P` exactly if `Q` holds of it, `P` holds along a run
exactly if it holds at its start and `Q` of all its steps. -/
theorem always_iff_eachStep {I P : σ → Prop} {Q : σ → ε → Prop}
    (hI : ∀ s e, I s → I (step s e))
    (hstep : ∀ s e, I s → P s → (P (step s e) ↔ Q s e))
    {s : σ} (hs : I s) {es : List ε} :
    Always step P s es ↔ P s ∧ EachStep step Q s es := by
  induction es generalizing s with
  | nil => simp
  | cons e es ih =>
      rw [always_cons, ih (hI s e hs), eachStep_cons, ← and_assoc, ← and_assoc]
      refine and_congr_left fun _ => and_congr_right fun hP => ?_
      exact hstep s e hs hP

end Komika.Lib.Machine
