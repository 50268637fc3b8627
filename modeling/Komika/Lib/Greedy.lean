import Mathlib.Computability.Language

/-!
# Greedy matching

A matcher that never backtracks: it takes from the front of a word what it can see there and
goes on with the rest.  It decides a product of languages when every choice is forced by what
may follow.

* `Forced.mem_mul_iff` — one forced step decides `A * R` from the rest of the word;
* `Forced.mul` — steps compose;
* `Forced.upTo`, `Forced.oneOf` — a bounded repetition, and a look-ahead of `k` letters.
-/

namespace Komika.Lib.Greedy

variable {α : Type*}

/-- `D` takes a word of `A` from the front, and before a word of `R` it takes exactly the
word of `A` that stands there. -/
structure Forced (A R : Language α) (D : List α → List α) : Prop where
  sound : ∀ w, ∃ a ∈ A, a ++ D w = w
  forced : ∀ a ∈ A, ∀ r ∈ R, D (a ++ r) = r

namespace Forced

variable {A B R : Language α} {D E : List α → List α}

/-- The matcher's step decides whether the word is in the product. -/
theorem mem_mul_iff (h : Forced A R D) (w : List α) : w ∈ A * R ↔ D w ∈ R := by
  constructor
  · intro hw
    obtain ⟨a, ha, r, hr, happ⟩ := Language.mem_mul.mp hw
    rw [← happ, h.forced a ha r hr]
    exact hr
  · intro hD
    obtain ⟨a, ha, happ⟩ := h.sound w
    exact Language.mem_mul.mpr ⟨a, ha, D w, hD, happ⟩

/-- Two forced steps in a row are one forced step. -/
theorem mul (hA : Forced A (B * R) D) (hB : Forced B R E) :
    Forced (A * B) R (fun w => E (D w)) where
  sound w := by
    obtain ⟨a, ha, hwa⟩ := hA.sound w
    obtain ⟨b, hb, hwb⟩ := hB.sound (D w)
    have happ : a ++ b ++ E (D w) = w := by rw [List.append_assoc, hwb, hwa]
    exact ⟨a ++ b, Language.append_mem_mul ha hb, happ⟩
  forced := by
    intro w hw r hr
    obtain ⟨a, ha, b, hb, happ⟩ := Language.mem_mul.mp hw
    show E (D (w ++ r)) = r
    rw [← happ, List.append_assoc, hA.forced a ha _ (Language.append_mem_mul hb hr),
      hB.forced b hb r hr]

end Forced

/-! ## What a word may begin with -/

/-- A word of the language that is not empty begins with a letter of `S`. -/
def BeginsIn (S : Set α) (A : Language α) : Prop := ∀ w ∈ A, ∀ x ∈ w.head?, x ∈ S

variable {S T : Set α} {A B R : Language α}

theorem BeginsIn.mono (hA : BeginsIn S A) (h : S ⊆ T) : BeginsIn T A :=
  fun w hw x hx => h (hA w hw x hx)

theorem beginsIn_one : BeginsIn S (1 : Language α) := by
  intro w hw x hx
  rw [(Language.mem_one w).mp hw] at hx
  exact absurd hx (by simp)

/-- A product begins with a letter of either. -/
theorem BeginsIn.mul (hA : BeginsIn S A) (hB : BeginsIn T B) : BeginsIn (S ∪ T) (A * B) := by
  intro w hw x hx
  obtain ⟨a, ha, b, hb, rfl⟩ := Language.mem_mul.mp hw
  cases a with
  | nil => exact Or.inr (hB b hb x hx)
  | cons y a => exact Or.inl (hA _ ha x hx)

/-! ## Finitely many words -/

/-- One of finitely many words. -/
def oneOf (ws : List (List α)) : Language α := {w | w ∈ ws}

/-- The words of a finite language are those of the list. -/
theorem mem_oneOf {ws : List (List α)} {w : List α} : w ∈ oneOf ws ↔ w ∈ ws := Iff.rfl

/-- Relabelling the letters relabels the words. -/
theorem map_oneOf {β : Type*} (f : α → β) (ws : List (List α)) :
    Language.map f (oneOf ws) = oneOf (ws.map (List.map f)) := by
  ext w
  show (∃ v ∈ ws, v.map f = w) ↔ w ∈ ws.map (List.map f)
  rw [List.mem_map]

/-! ## A bounded repetition -/

/-- `x{0,n}`: the words of one letter, up to a length. -/
def upTo (x : α) (n : ℕ) : Language α := {w | ∃ k ≤ n, w = List.replicate k x}

/-- The words of a bounded repetition. -/
theorem mem_upTo {x : α} {n : ℕ} {w : List α} :
    w ∈ upTo x n ↔ ∃ k ≤ n, w = List.replicate k x := Iff.rfl

theorem nil_mem_upTo (x : α) (n : ℕ) : [] ∈ upTo x n := ⟨0, n.zero_le, rfl⟩

theorem beginsIn_upTo {x : α} {n : ℕ} (hx : x ∈ S) : BeginsIn S (upTo x n) := by
  intro w hw y hy
  obtain ⟨k, -, rfl⟩ := mem_upTo.mp hw
  cases k with
  | zero => exact absurd hy (by simp)
  | succ k =>
    have hyx : x = y := by simpa [List.replicate_succ] using hy
    exact hyx ▸ hx

theorem map_upTo {β : Type*} (f : α → β) (x : α) (n : ℕ) :
    Language.map f (upTo x n) = upTo (f x) n := by
  ext w
  constructor
  · rintro ⟨v, ⟨k, hk, rfl⟩, rfl⟩
    exact ⟨k, hk, List.map_replicate⟩
  · rintro ⟨k, hk, rfl⟩
    exact ⟨List.replicate k x, ⟨k, hk, rfl⟩, List.map_replicate⟩

variable [DecidableEq α]

/-- Drops at most `n` leading copies of `x`. -/
def dropUpTo (x : α) : ℕ → List α → List α
  | n + 1, y :: w => if y = x then dropUpTo x n w else y :: w
  | _, w => w

@[simp] theorem dropUpTo_zero (x : α) (w : List α) : dropUpTo x 0 w = w := by
  cases w <;> rfl

@[simp] theorem dropUpTo_nil (x : α) (n : ℕ) : dropUpTo x n [] = [] := by
  cases n <;> rfl

theorem dropUpTo_cons (x y : α) (n : ℕ) (w : List α) :
    dropUpTo x (n + 1) (y :: w) = if y = x then dropUpTo x n w else y :: w := rfl

/-- Nothing is dropped where the word begins with another letter. -/
theorem dropUpTo_of_head {x : α} (hx : x ∉ S) {w : List α} (hw : ∀ y ∈ w.head?, y ∈ S) (n : ℕ) :
    dropUpTo x n w = w := by
  cases n with
  | zero => exact dropUpTo_zero x w
  | succ n =>
    cases w with
    | nil => exact dropUpTo_nil x _
    | cons y w =>
      have hy : y ≠ x := fun h => hx (h ▸ hw y rfl)
      rw [dropUpTo_cons, if_neg hy]

/-- Taking all the copies there are is forced when nothing that follows begins with one. -/
theorem Forced.upTo {x : α} (hx : x ∉ S) (hR : BeginsIn S R) (n : ℕ) :
    Forced (upTo x n) R (dropUpTo x n) where
  sound := by
    induction n with
    | zero => exact fun w => ⟨[], nil_mem_upTo x 0, dropUpTo_zero x w⟩
    | succ n ih =>
      intro w
      cases w with
      | nil => exact ⟨[], nil_mem_upTo x _, rfl⟩
      | cons y w =>
        rw [dropUpTo_cons]
        split
        case isTrue hy =>
          obtain ⟨a, ⟨k, hk, rfl⟩, happ⟩ := ih w
          have hcons : List.replicate (k + 1) x ++ dropUpTo x n w = y :: w := by
            rw [List.replicate_succ, List.cons_append, happ, hy]
          exact ⟨_, ⟨k + 1, by omega, rfl⟩, hcons⟩
        case isFalse => exact ⟨[], nil_mem_upTo x _, rfl⟩
  forced := by
    rintro a ⟨k, hk, rfl⟩ r hr
    induction k generalizing n with
    | zero => exact dropUpTo_of_head hx (hR r hr) n
    | succ k ih =>
      obtain ⟨m, rfl⟩ : ∃ m, n = m + 1 := ⟨n - 1, by omega⟩
      rw [List.replicate_succ, List.cons_append, dropUpTo_cons, if_pos rfl]
      exact ih m (by omega)

/-! ## A look-ahead -/

/-- A choice between words of one length and a second matcher: looking at the first `k` letters
is enough when a word of the second language, with what may follow it, never begins with one
of the words. -/
theorem Forced.oneOf {ws : List (List α)} {k : ℕ} {D : List α → List α}
    (hlen : ∀ a ∈ ws, a.length = k) (hA : Forced A R D)
    (hne : ∀ a ∈ A, ∀ r ∈ R, (a ++ r).take k ∉ ws) :
    Forced (oneOf ws + A) R
      (fun w => if w.take k ∈ ws then w.drop k else D w) where
  sound w := by
    by_cases hw : w.take k ∈ ws
    · exact ⟨w.take k, Or.inl hw, by rw [if_pos hw, List.take_append_drop]⟩
    · obtain ⟨a, ha, happ⟩ := hA.sound w
      exact ⟨a, Or.inr ha, by rw [if_neg hw, happ]⟩
  forced := by
    intro a ha r hr
    show (if (a ++ r).take k ∈ ws then (a ++ r).drop k else D (a ++ r)) = r
    rcases (Language.mem_add _ _ a).mp ha with hws | hmem
    · have hk : a.length = k := hlen a (mem_oneOf.mp hws)
      have htake : (a ++ r).take k ∈ ws := by rwa [← hk, List.take_left]
      rw [if_pos htake, ← hk, List.drop_left]
    · rw [if_neg (hne a hmem r hr)]
      exact hA.forced a hmem r hr

end Komika.Lib.Greedy
