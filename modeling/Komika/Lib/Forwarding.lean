import Mathlib.Data.List.Basic
import Mathlib.Data.Option.Basic

/-!
# Forwarding addresses

Names are retired one after another, each in favour of a name that is still
in use; a forwarding map says where a retired name leads.  `forward` retires a
name and rewrites every address that led to it, so that one lookup is always
enough (`OneHop.forward`) and the map agrees with the whole history of
retirements (`Agrees.chain`).

The history is the list of retirements, oldest first; a map that `Agrees` with it sends
every retired name to where following the retirements one by one would end.
-/

namespace Komika.Lib

universe u

/-- Where each retired name leads; `none` for a name in use. -/
abbrev Forwarding (α : Type u) := α → Option α

namespace Forwarding

variable {α : Type u}

/-- The name to use for `x`. -/
def home (f : Forwarding α) (x : α) : α := (f x).getD x

/-- No address leads to a retired name. -/
def OneHop (f : Forwarding α) : Prop := ∀ x y, f x = some y → f y = none

/-- Every retirement of the history is still honoured. -/
def Agrees (f : Forwarding α) (history : List (α × α)) : Prop :=
  ∀ p ∈ history, f p.1 = some (f.home p.2)

/-- A name in use is its own home. -/
theorem home_of_none {f : Forwarding α} {x : α} (h : f x = none) :
    f.home x = x := by
  simp [home, h]

/-- Before anything is retired every map will do. -/
theorem Agrees.nil (f : Forwarding α) : Agrees f [] := by
  simp [Agrees]

/-- Following a chain of retirements to a name in use is one lookup. -/
theorem Agrees.chain {f : Forwarding α} {history : List (α × α)}
    (h : Agrees f history) {x y : α} {rest : List α}
    (hchain : List.IsChain (fun a b => (a, b) ∈ history) (x :: y :: rest))
    (hlast : f ((y :: rest).getLast (List.cons_ne_nil y rest)) = none) :
    f x = some ((y :: rest).getLast (List.cons_ne_nil y rest)) := by
  induction rest generalizing x y with
  | nil =>
      have hxy := (List.isChain_cons_cons.mp hchain).1
      have hy : f y = none := by simpa using hlast
      simpa [home_of_none hy] using h (x, y) hxy
  | cons z rest ih =>
      obtain ⟨hxy, htail⟩ := List.isChain_cons_cons.mp hchain
      have hy := ih htail (by simpa using hlast)
      simpa [home, hy] using h (x, y) hxy

variable [DecidableEq α]

/-- Retire `source` in favour of `target`. -/
def forward (f : Forwarding α) (source target : α) : Forwarding α := fun x =>
  if x = source then some target
  else (f x).map fun y => if y = source then target else y

section Forward

variable {f : Forwarding α} {source target : α}

/-- The retired name leads to its successor. -/
theorem forward_self : f.forward source target source = some target := by
  simp [forward]

/-- The others are in use as they were. -/
theorem forward_eq_none {x : α} :
    f.forward source target x = none ↔ x ≠ source ∧ f x = none := by
  by_cases hx : x = source <;> simp [forward, hx]

/-- Who lived at `source` lives at `target`. -/
theorem home_forward (hsource : f source = none) (x : α) :
    (f.forward source target).home x =
      if f.home x = source then target else f.home x := by
  by_cases hx : x = source
  · subst hx
    simp [home, forward, hsource]
  · cases hfx : f x with
    | none => simp [home, forward, hx, hfx]
    | some y => simp [home, forward, hx, hfx]

/-- One lookup is still enough, if the successor is in use. -/
theorem OneHop.forward (h : OneHop f) (htarget : f target = none)
    (hne : source ≠ target) : OneHop (f.forward source target) := by
  intro x y hxy
  rw [forward_eq_none]
  by_cases hx : x = source
  · subst hx
    rw [forward_self] at hxy
    cases hxy
    exact ⟨Ne.symm hne, htarget⟩
  · simp only [Forwarding.forward, hx, if_false, Option.map_eq_some_iff] at hxy
    obtain ⟨z, hz, rfl⟩ := hxy
    by_cases hzs : z = source
    · rw [if_pos hzs]
      exact ⟨Ne.symm hne, htarget⟩
    · rw [if_neg hzs]
      exact ⟨hzs, h x z hz⟩

/-- Retiring a name in use keeps the map in agreement with its history. -/
theorem Agrees.forward {history : List (α × α)} (h : Agrees f history)
    (hsource : f source = none) (htarget : f target = none)
    (hne : source ≠ target) :
    Agrees (f.forward source target) (history ++ [(source, target)]) := by
  intro p hp
  rw [home_forward hsource]
  rcases List.mem_append.mp hp with hp | hp
  · have hp1 : f p.1 = some (f.home p.2) := h p hp
    have hsrc : p.1 ≠ source := by
      intro heq
      rw [heq, hsource] at hp1
      contradiction
    simp [Forwarding.forward, hsrc, hp1]
  · rw [List.mem_singleton.mp hp, forward_self, home_of_none htarget,
      if_neg (Ne.symm hne)]

end Forward

end Forwarding

end Komika.Lib
