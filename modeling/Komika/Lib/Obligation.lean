import Komika.Lib.Machine

/-!
# Obligations that pass to heirs

Some items of a state are marked.  A mark obliges its item, and the heirs that
the steps give it, to stay marked, until a state excuses them.  If no step
loses the mark of an item without an excuse, no run does.

The rule is the state's own: which items are marked, which items a step makes of an
item, and what excuses one.  `Watched` adds the memory of who was ever obliged, and
`always_kept_iff` reduces a statement about whole runs, over that memory, to a statement
about single steps that needs none.
-/

namespace Komika.Lib.Obligation

open Komika.Lib

variable {σ ε α : Type}

/-- Which items are marked, what a step makes of an item, and what excuses an item of
its mark. -/
structure Rule (σ ε α : Type) where
  marked : σ → List α
  /-- What becomes of an item in a step. -/
  heirs : σ → ε → α → List α
  excused : σ → α → Bool

/-- A state with the items that were marked, or whose forebears were, and that
nothing has excused since. -/
structure Watched (σ α : Type) where
  state : σ
  obliged : List α

variable (r : Rule σ ε α) (step : σ → ε → σ)

/-- Whatever is marked at first is obliged. -/
def Rule.start (s : σ) : Watched σ α := ⟨s, r.marked s⟩

/-- A step of the machine, with the obliged items that it leaves behind and that nothing
excuses. -/
def Rule.watch (w : Watched σ α) (e : ε) : Watched σ α :=
  let next := step w.state e
  ⟨next, r.marked next ++
    (w.obliged.flatMap (r.heirs w.state e)).filter fun a => !r.excused next a⟩

/-- Every obliged item is marked. -/
def Rule.Kept (w : Watched σ α) : Prop := ∀ a ∈ w.obliged, a ∈ r.marked w.state

/-- The step passes every mark on to the heirs it does not excuse. -/
def Rule.Passes (s : σ) (e : ε) : Prop :=
  ∀ a ∈ r.marked s, ∀ b ∈ r.heirs s e a,
    b ∈ r.marked (step s e) ∨ r.excused (step s e) b = true

variable {r step} {w : Watched σ α} {e : ε}

/-- A step that passes its marks on keeps every obligation. -/
theorem kept_watch (hkept : r.Kept w) (hpasses : r.Passes step w.state e) :
    r.Kept (r.watch step w e) := by
  intro b hb
  rcases List.mem_append.mp hb with hb | hb
  · exact hb
  · obtain ⟨hheir, hnot⟩ := List.mem_filter.mp hb
    obtain ⟨a, ha, hab⟩ := List.mem_flatMap.mp hheir
    rcases hpasses a (hkept a ha) b hab with hmarked | hexcused
    · exact hmarked
    · rw [hexcused] at hnot
      contradiction

/-- A mark that was lost without an excuse is still watched for. -/
theorem passes_of_kept_watch (hall : r.marked w.state ⊆ w.obliged)
    (hkept : r.Kept (r.watch step w e)) : r.Passes step w.state e := by
  intro a ha b hab
  by_cases hexcused : r.excused (step w.state e) b = true
  · exact .inr hexcused
  · refine .inl (hkept b (List.mem_append_right _ (List.mem_filter.mpr ⟨?_, ?_⟩)))
    · exact List.mem_flatMap.mpr ⟨a, hall ha, hab⟩
    · show (!r.excused (step w.state e) b) = true
      rw [Bool.not_eq_true] at hexcused
      rw [hexcused]
      rfl

/-- From a state in which every obligation is met: the runs that keep them are those
whose steps pass them on. -/
theorem always_kept_iff_of_kept {events : List ε} (hall : r.marked w.state ⊆ w.obliged)
    (hkept : r.Kept w) :
    Machine.Always (r.watch step) r.Kept w events ↔
      Machine.EachStep step (r.Passes step) w.state events := by
  induction events generalizing w with
  | nil => exact ⟨fun _ => trivial, fun _ => Machine.always_nil.mpr hkept⟩
  | cons e es ih =>
      have hall' : r.marked (r.watch step w e).state ⊆ (r.watch step w e).obliged :=
        fun a ha => List.mem_append_left _ ha
      rw [Machine.always_cons, Machine.eachStep_cons]
      constructor
      · rintro ⟨-, hrest⟩
        have hkept' : r.Kept (r.watch step w e) := hrest [] List.nil_prefix
        exact ⟨passes_of_kept_watch hall hkept', (ih hall' hkept').mp hrest⟩
      · rintro ⟨hpasses, hrest⟩
        exact ⟨hkept, (ih hall' (kept_watch hkept hpasses)).mpr hrest⟩

/-- A run loses no mark without an excuse exactly if none of its steps does. -/
theorem always_kept_iff {s : σ} {events : List ε} :
    Machine.Always (r.watch step) r.Kept (r.start s) events ↔
      Machine.EachStep step (r.Passes step) s events :=
  always_kept_iff_of_kept (fun _ ha => ha) fun _ ha => ha

end Komika.Lib.Obligation
