import Mathlib.Data.List.Basic
import Mathlib.Algebra.GroupWithZero.Nat
import Mathlib.Data.Set.Function
import Mathlib.Algebra.Order.BigOperators.Group.List

/-!
# Self-delimiting texts

A text that is put together from parts can be taken apart again if each part tells
where it ends.  A code of values as texts is self-delimiting if it does, whatever
text follows.

* `SelfDelimiting.closed` — a text closed by a mark that it does not contain;
* `SelfDelimiting.counted` — a text after a header with its weight, such as its
  length in bytes, which may contain anything;
* `SelfDelimiting.injOn_flatMap` — texts in a row are told apart, and so are lists
  of them, if no text is empty.

All are relative to a set of values, since a code may be injective on those that
occur and on no others.
-/

namespace Komika.Lib

universe u v

variable {α : Type u} {σ : Type v}

/-- The text of a value of `S` tells where it ends. -/
def SelfDelimiting (S : Set α) (enc : α → List σ) : Prop :=
  ∀ a ∈ S, ∀ b ∈ S, ∀ x y, enc a ++ x = enc b ++ y → a = b ∧ x = y

namespace SelfDelimiting

variable {S : Set α} {enc : α → List σ}

/-- A text up to a mark: the mark is not in it. -/
theorem closed {mark : σ} (hinj : Set.InjOn enc S) (hmark : ∀ a ∈ S, mark ∉ enc a) :
    SelfDelimiting S fun a => enc a ++ [mark] := by
  have hsplit : ∀ xs ys x y : List σ, mark ∉ xs → mark ∉ ys →
      xs ++ mark :: x = ys ++ mark :: y → xs = ys ∧ x = y := by
    intro xs
    induction xs with
    | nil =>
        intro ys x y _ hys heq
        cases ys with
        | nil => exact ⟨rfl, (List.cons.inj heq).2⟩
        | cons c ys =>
            have hc : mark = c := (List.cons.inj heq).1
            exact absurd (hc ▸ List.mem_cons_self) hys
    | cons c xs ih =>
        intro ys x y hxs hys heq
        cases ys with
        | nil =>
            have hc : c = mark := (List.cons.inj heq).1
            exact absurd (hc ▸ List.mem_cons_self) hxs
        | cons d ys =>
            obtain ⟨hhead, htail⟩ := List.cons.inj heq
            obtain ⟨hrest, hxy⟩ := ih ys x y (fun h => hxs (List.mem_cons_of_mem c h))
              (fun h => hys (List.mem_cons_of_mem d h)) htail
            exact ⟨by rw [hhead, hrest], hxy⟩
  intro a ha b hb x y heq
  simp only [List.append_assoc, List.singleton_append] at heq
  obtain ⟨henc, hxy⟩ := hsplit _ _ x y (hmark a ha) (hmark b hb) heq
  exact ⟨hinj ha hb henc, hxy⟩

/-- The sum of the weights of its characters. -/
def weight (w : σ → ℕ) (text : List σ) : ℕ := (text.map w).sum

/-- The weights of two texts in a row add up. -/
theorem weight_append {w : σ → ℕ} {x y : List σ} :
    weight w (x ++ y) = weight w x + weight w y := by
  simp [weight]

/-- Where every character weighs something, only the empty text weighs nothing. -/
theorem eq_nil_of_weight {w : σ → ℕ} (hw : ∀ c, 0 < w c) {x : List σ}
    (h : weight w x = 0) : x = [] := by
  cases x with
  | nil => rfl
  | cons c x =>
      have hc := hw c
      simp only [weight, List.map_cons, List.sum_cons] at h
      omega

/-- Two texts of one weight that begin a text are the same. -/
theorem eq_of_weight {w : σ → ℕ} (hw : ∀ c, 0 < w c) {a b x y : List σ}
    (hweight : weight w a = weight w b) (h : a ++ x = b ++ y) : a = b ∧ x = y := by
  rcases List.append_eq_append_iff.mp h with ⟨c, rfl, rfl⟩ | ⟨c, rfl, rfl⟩
  · rw [weight_append] at hweight
    have hc : c = [] := eq_nil_of_weight hw (by omega)
    simp [hc]
  · rw [weight_append] at hweight
    have hc : c = [] := eq_nil_of_weight hw (by omega)
    simp [hc]

/-- A text after its weight. -/
theorem counted {w : σ → ℕ} {header : ℕ → List σ} (hw : ∀ c, 0 < w c)
    (hheader : SelfDelimiting Set.univ header) :
    SelfDelimiting Set.univ fun text => header (weight w text) ++ text := by
  intro a _ b _ x y heq
  simp only [List.append_assoc] at heq
  obtain ⟨hweight, hrest⟩ := hheader _ trivial _ trivial _ _ heq
  exact eq_of_weight hw hweight hrest

/-- Texts in a row. -/
theorem injOn_flatMap (h : SelfDelimiting S enc) (hne : ∀ a ∈ S, enc a ≠ []) :
    Set.InjOn (fun as : List α => as.flatMap enc) {as | ∀ a ∈ as, a ∈ S} := by
  intro as has bs hbs heq
  induction as generalizing bs with
  | nil =>
      cases bs with
      | nil => rfl
      | cons b bs =>
          simp only [List.flatMap_nil, List.flatMap_cons] at heq
          have hempty := (List.append_eq_nil_iff.mp heq.symm).1
          exact absurd hempty (hne b (hbs b List.mem_cons_self))
  | cons a as ih =>
      cases bs with
      | nil =>
          simp only [List.flatMap_nil, List.flatMap_cons] at heq
          have hempty := (List.append_eq_nil_iff.mp heq).1
          exact absurd hempty (hne a (has a List.mem_cons_self))
      | cons b bs =>
          simp only [List.flatMap_cons] at heq
          obtain ⟨hhead, htail⟩ := h a (has a List.mem_cons_self) b
            (hbs b List.mem_cons_self) _ _ heq
          have hrest := ih (fun x hx => has x (List.mem_cons_of_mem a hx))
            (fun x hx => hbs x (List.mem_cons_of_mem b hx)) htail
          rw [hhead, hrest]

end SelfDelimiting

/-! ## Decimal digits

Numbers as texts, for headers and for marks behind them. -/

/-- A natural number is known by its digits. -/
theorem toDigits_injective : Function.Injective (Nat.toDigits 10) := by
  intro m n heq
  rw [← Nat.ofDigitChars_ten_toDigits (n := m), heq, Nat.ofDigitChars_ten_toDigits]

/-- A mark that is no digit closes a number. -/
theorem not_mem_toDigits {c : Char} (hc : c.isDigit = false) (n : ℕ) :
    c ∉ Nat.toDigits 10 n := by
  intro hmem
  rw [Nat.isDigit_of_mem_toDigits (by decide) (by decide) hmem] at hc
  contradiction

end Komika.Lib
