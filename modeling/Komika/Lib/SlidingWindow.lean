import Mathlib.Data.List.Count
import Mathlib.Order.Lattice

/-!
# Sliding windows

Stamps are instants of a clock that does not go back.  `live w now` keeps the
stamps that are less than `w` old, and `Within w cap` says that no half-open
interval of length `w` holds more than `cap` of them.

* `live_live` — what was dropped as too old stays too old, so a list may be
  pruned at any time;
* `Within.concat` — a stamp that finds less than `cap` live ones keeps the
  bound for every interval, not only for the one that ends now;
* `Covers` — a log that is behind another by at most `k` stamps, whatever
  instant they are counted from: `Covers.length_live_le`.
-/

namespace Komika.Lib.SlidingWindow

/-- The stamp is less than `w` old. -/
def fresh (w now s : Nat) : Bool := decide (now - s < w)

/-- The stamps that are less than `w` old. -/
def live (w now : Nat) (stamps : List Nat) : List Nat := stamps.filter (fresh w now)

/-- The stamps from `x` on. -/
def since (x : Nat) (stamps : List Nat) : Nat := stamps.countP fun s => decide (x ≤ s)

/-- The stamps of the interval that starts at `x`. -/
def inWindow (w x : Nat) (stamps : List Nat) : Nat :=
  stamps.countP fun s => decide (x ≤ s) && decide (s < x + w)

/-- No interval holds more than `cap` stamps. -/
def Within (w cap : Nat) (stamps : List Nat) : Prop := ∀ x, inWindow w x stamps ≤ cap

/-- `ahead` has all but `k` of the stamps of `log`, counted from any instant. -/
def Covers (ahead : List Nat) (k : Nat) (log : List Nat) : Prop :=
  ∀ x, since x log ≤ since x ahead + k

variable {w now later cap k x : Nat} {stamps log ahead : List Nat}

/-- A stamp is fresh for less than `w`. -/
theorem fresh_iff {s : Nat} : fresh w now s = true ↔ now - s < w := by simp [fresh]

@[simp] theorem live_nil : live w now [] = [] := rfl

/-- Of two logs in a row the live stamps are in a row. -/
theorem live_append (xs ys : List Nat) :
    live w now (xs ++ ys) = live w now xs ++ live w now ys := List.filter_append ..

/-- Pruning drops nothing that would be live later. -/
theorem live_live (h : now ≤ later) : live w later (live w now stamps) = live w later stamps := by
  unfold live
  rw [List.filter_filter]
  apply List.filter_congr
  intro s _
  by_cases hs : later - s < w
  · have hnow : now - s < w := by omega
    simp [fresh, hs, hnow]
  · simp [fresh, hs]

/-- Later there are no more of the same stamps live. -/
theorem length_live_anti (h : now ≤ later) :
    (live w later stamps).length ≤ (live w now stamps).length := by
  rw [← live_live h]
  exact List.length_filter_le _ _

/-- In a window of some length, to be live is to be recent enough. -/
theorem length_live (hw : 0 < w) :
    (live w now stamps).length = since (now + 1 - w) stamps := by
  unfold live since
  rw [← List.countP_eq_length_filter]
  apply List.countP_congr
  intro s _
  rw [fresh_iff, decide_eq_true_eq]
  omega

/-- In a window of no length nothing is live. -/
theorem live_zero : live 0 now stamps = [] := by
  simp [live, fresh]

/-- A stamp of now adds one at most. -/
theorem length_live_concat_le :
    (live w now (stamps ++ [now])).length ≤ (live w now stamps).length + 1 := by
  rw [live_append, List.length_append]
  have : (live w now [now]).length ≤ 1 := List.length_filter_le _ _
  omega

@[simp] theorem since_append (xs ys : List Nat) :
    since x (xs ++ ys) = since x xs + since x ys := List.countP_append ..

theorem since_singleton (s : Nat) : since x [s] = if x ≤ s then 1 else 0 := by
  simp [since, List.countP_cons]

/-- No stamp is from `x` on if all are before it. -/
theorem since_eq_zero (h : ∀ s ∈ stamps, s < x) : since x stamps = 0 := by
  unfold since
  rw [List.countP_eq_zero]
  intro s hs
  have := h s hs
  simp
  omega

/-! ## The bound

An interval that is full ends with a stamp, and at that stamp its others are live. -/

theorem within_nil : Within w cap [] := fun _ => Nat.zero_le _

/-- The last interval that a stamp can be in is the one that is live. -/
theorem inWindow_le_live (hx : now < x + w) :
    inWindow w x stamps ≤ (live w now stamps).length := by
  unfold inWindow live
  rw [← List.countP_eq_length_filter]
  apply List.countP_mono_left
  intro s _ hs
  simp only [Bool.and_eq_true, decide_eq_true_eq] at hs
  rw [fresh_iff]
  omega

/-- A stamp may be added where less than `cap` are live. -/
theorem Within.concat (h : Within w cap stamps) (hlive : (live w now stamps).length < cap) :
    Within w cap (stamps ++ [now]) := by
  intro x
  have hsplit : inWindow w x (stamps ++ [now]) = inWindow w x stamps + inWindow w x [now] :=
    List.countP_append ..
  by_cases hx : x ≤ now ∧ now < x + w
  · have hone : inWindow w x [now] ≤ 1 := List.countP_le_length
    have hrest : inWindow w x stamps ≤ (live w now stamps).length := inWindow_le_live hx.2
    omega
  · have hnone : inWindow w x [now] = 0 := by
      simp [inWindow]
      omega
    rw [hsplit, hnone]
    exact h x

/-- A part of a log that is within the bound is. -/
theorem Within.sublist {part : List Nat} (h : Within w cap stamps) (hpart : part.Sublist stamps) :
    Within w cap part :=
  fun x => hpart.countP_le.trans (h x)

/-! ## A log behind another

The difference of two logs is bounded from every instant on, so that it is bounded in
every window. -/

/-- The empty log is behind every other. -/
theorem covers_nil : Covers ahead k [] := fun _ => Nat.zero_le _

/-- Of a log behind another there are not more live, but for `k`. -/
theorem Covers.length_live_le (h : Covers ahead k log) :
    (live w now log).length ≤ (live w now ahead).length + k := by
  by_cases hw : 0 < w
  · rw [length_live hw, length_live hw]
    exact h _
  · have hzero : w = 0 := by omega
    simp [hzero, live_zero]

/-- It is behind by more as well. -/
theorem Covers.mono {k' : Nat} (h : Covers ahead k log) (hk : k ≤ k') : Covers ahead k' log := by
  intro x
  have := h x
  omega

/-- The log gets a stamp that the other will follow. -/
theorem Covers.concat (h : Covers ahead k log) (s : Nat) : Covers ahead (k + 1) (log ++ [s]) := by
  intro x
  have hx := h x
  rw [since_append, since_singleton]
  split <;> omega

/-- The other log catches up, no earlier than any stamp of the log. -/
theorem Covers.follow (h : Covers ahead (k + 1) log) (hlog : ∀ s ∈ log, s ≤ now) :
    Covers (ahead ++ [now]) k log := by
  intro x
  rw [since_append, since_singleton]
  by_cases hx : x ≤ now
  · rw [if_pos hx]
    have := h x
    omega
  · have hzero : since x log = 0 := since_eq_zero fun s hs => by
      have := hlog s hs
      omega
    omega

/-- The other log may only grow. -/
theorem Covers.append (h : Covers ahead k log) (more : List Nat) :
    Covers (ahead ++ more) k log := by
  intro x
  have := h x
  rw [since_append]
  omega

end Komika.Lib.SlidingWindow
