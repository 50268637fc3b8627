import Komika.Lib.Bytes
import Komika.Lib.Greedy
import Mathlib.Data.List.Basic

/-!
# `is_roman_numeral`

`catalog/normalize.rs` recognises a Roman numeral at the end of a title with a hand-written
matcher over the bytes of the token: one index that only moves forward, a two-byte look-ahead
in front of the hundreds, the tens and the units, and no backtracking.

* `isRomanNumeral_iff` — it accepts the canonical numerals and nothing else, and reads no byte
  outside the token.

The proof has two halves.  `mem_numeral_iff` is about words of letters: a greedy match
without backtracking decides the grammar, since at each place the first two letters
force the choice.  `advances_match` is about the index: it moves through the bytes as
the greedy match does through the word, and stays inside of them.
-/

namespace Komika.Catalog.RomanNumeral

open Lib.Bytes Lib.Greedy

/-! ## The matcher

The index, and the tests and loops that move it. -/

/-- The letters of a numeral. -/
inductive Letter
  | m | d | c | l | x | v | i
deriving DecidableEq, Repr

/-- `'m'`, … as the characters of a title. -/
def Letter.char : Letter → Char
  | m => 'm' | d => 'd' | c => 'c' | l => 'l' | x => 'x' | v => 'v' | i => 'i'

/-- `b'm'`, … as the bytes that the matcher compares. -/
def Letter.byte : Letter → UInt8
  | m => 109 | d => 100 | c => 99 | l => 108 | x => 120 | v => 118 | i => 105

/-- `i < b.len() && b[i] == letter`: `none` is an index out of bounds. -/
def isAt (b : List UInt8) (letter : Letter) (i : ℕ) : Option Bool :=
  if i < b.length then do
    pure ((← b[i]?) == letter.byte)
  else pure false

/-- `while i < b.len() && b[i] == letter && k < 3 { i += 1; k += 1; }`, where `left` is
`3 - k`. -/
def run (b : List UInt8) (letter : Letter) : ℕ → ℕ → Option ℕ
  | 0, i => do
    let _ ← isAt b letter i
    pure i
  | left + 1, i => do
    if ← isAt b letter i then run b letter left (i + 1) else pure i

/-- `i + 1 < b.len() && b[i] == one && (b[i + 1] == ten || b[i + 1] == five)`. -/
def isPair (b : List UInt8) (one five ten : Letter) (i : ℕ) : Option Bool :=
  if i + 1 < b.length then do
    if (← b[i]?) == one.byte then
      if (← b[i + 1]?) == ten.byte then pure true
      else pure ((← b[i + 1]?) == five.byte)
    else pure false
  else pure false

/-- One decimal place: `one ten | one five | five? one{0,3}`. -/
def place (b : List UInt8) (one five ten : Letter) (i : ℕ) : Option ℕ := do
  if ← isPair b one five ten i then pure (i + 2)
  else if ← isAt b five i then run b one 3 (i + 1)
  else run b one 3 i

/-- `is_roman_numeral`: the thousands, then three places with the same rule, and nothing
after them; `none` would be a read out of bounds. -/
def isRomanNumeral (s : String) : Option Bool :=
  if s.isEmpty then pure false
  else do
    let b := asBytes s  -- `s.as_bytes()`
    let i ← run b .m 3 0
    let i ← place b .c .d .m i
    let i ← place b .x .l .c i
    let i ← place b .i .v .x i
    pure (i == b.length)

/-! ## The canonical numerals

The grammar, as a product of languages over letters of any spelling. -/

section Grammar

variable {α : Type*}

/-- `one ten|one five|five?one{0,3}`: the two subtractive pairs, or up to eight. -/
def placeGrammar (a : Letter → α) (one five ten : Letter) : Language α :=
  oneOf [[a one, a ten], [a one, a five]] + upTo (a five) 1 * upTo (a one) 3

/-- `m{0,3}(cm|cd|d?c{0,3})(xc|xl|l?x{0,3})(ix|iv|v?i{0,3})`, where `a` spells the letters. -/
def numeral (a : Letter → α) : Language α :=
  upTo (a .m) 3 *
    (placeGrammar a .c .d .m * (placeGrammar a .x .l .c * placeGrammar a .i .v .x))

/-- Spelling the letters of one place. -/
theorem map_placeGrammar {β : Type*} (f : α → β) (a : Letter → α) (one five ten : Letter) :
    Language.map f (placeGrammar a one five ten) = placeGrammar (f ∘ a) one five ten := by
  simp only [placeGrammar, map_add, map_mul, map_oneOf, map_upTo, List.map_cons, List.map_nil,
    Function.comp_apply]

/-- The grammar does not depend on the spelling. -/
theorem map_numeral {β : Type*} (f : α → β) (a : Letter → α) :
    Language.map f (numeral a) = numeral (f ∘ a) := by
  simp only [numeral, map_mul, map_upTo, map_placeGrammar, Function.comp_apply]

/-- A place begins with one of its own two letters. -/
theorem beginsIn_placeGrammar (a : Letter → α) (one five ten : Letter) :
    BeginsIn {a one, a five} (placeGrammar a one five ten) := by
  intro w hw
  rcases (Language.mem_add _ _ w).mp hw with hpair | hrep
  · intro y hy
    rcases List.mem_pair.mp hpair with rfl | rfl <;>
      exact Or.inl (Option.some.inj hy).symm
  · have hboth : BeginsIn ({a five} ∪ {a one}) (upTo (a five) 1 * upTo (a one) 3) :=
      (beginsIn_upTo (Set.mem_singleton _)).mul (beginsIn_upTo (Set.mem_singleton _))
    exact hboth.mono (by rw [Set.pair_comm, Set.singleton_union]) w hrep

end Grammar

/-! ## The choices are forced

Place by place from the left, with the letters of the places to come excluded. -/

/-- What is left of a word after one decimal place. -/
def dropPlace (one five ten : Letter) (w : List UInt8) : List UInt8 :=
  if w.take 2 ∈ [[one.byte, ten.byte], [one.byte, five.byte]] then w.drop 2
  else dropUpTo one.byte 3 (dropUpTo five.byte 1 w)

/-- What is left of a word after the greedy match. -/
def dropNumeral (w : List UInt8) : List UInt8 :=
  dropPlace .i .v .x (dropPlace .x .l .c (dropPlace .c .d .m (dropUpTo Letter.m.byte 3 w)))

/-- A place taken letter by letter never begins like one of its two-letter words, unless what
follows it begins with a letter of the place. -/
theorem take_two_notMem {one five ten : UInt8} {S : Set UInt8} {R : Language UInt8}
    (h15 : one ≠ five) (h1t : one ≠ ten) (h1 : one ∉ S) (h5 : five ∉ S) (ht : ten ∉ S)
    (hR : BeginsIn S R) :
    ∀ a ∈ upTo five 1 * upTo one 3, ∀ r ∈ R,
      (a ++ r).take 2 ∉ [[one, ten], [one, five]] := by
  intro a ha r hr hmem
  obtain ⟨y, hy, htake⟩ : ∃ y, (y = ten ∨ y = five) ∧ (a ++ r).take 2 = [one, y] := by
    rcases List.mem_pair.mp hmem with h | h
    · exact ⟨ten, Or.inl rfl, h⟩
    · exact ⟨five, Or.inr rfl, h⟩
  have hyS : y ∉ S := by rcases hy with rfl | rfl <;> assumption
  have hy1 : one ≠ y := by rcases hy with rfl | rfl <;> assumption
  have hhead : ∀ x ∈ r.head?, x ∈ S := hR r hr
  obtain ⟨f, ⟨j, hj, rfl⟩, o, ⟨n, -, rfl⟩, rfl⟩ := Language.mem_mul.mp ha
  obtain rfl | rfl : j = 0 ∨ j = 1 := by omega
  · match n with
    | 0 =>
      -- what follows would begin with `one`
      cases r with
      | nil => simp at htake
      | cons z r =>
        have hz : z = one := by simpa using congrArg List.head? htake
        exact h1 (hz ▸ hhead z rfl)
    | 1 =>
      -- what follows would begin with the second letter
      cases r with
      | nil => simp at htake
      | cons z r =>
        have hz : z = y := by simpa [List.replicate_succ] using htake
        exact hyS (hz ▸ hhead z rfl)
    | n + 2 =>
      have hone : one = y := by simpa [List.replicate_succ] using htake
      exact hy1 hone
  · have hfive : five = one := by
      simpa [List.replicate_succ] using congrArg List.head? htake
    exact h15 hfive.symm

/-- Before a word that begins with none of its letters, the choice at a place is forced. -/
theorem forced_place {one five ten : Letter} {S : Set UInt8} {R : Language UInt8}
    (h15 : one.byte ≠ five.byte) (h1t : one.byte ≠ ten.byte) (h1 : one.byte ∉ S)
    (h5 : five.byte ∉ S) (ht : ten.byte ∉ S) (hR : BeginsIn S R) :
    Forced (placeGrammar Letter.byte one five ten) R (dropPlace one five ten) := by
  have hones : BeginsIn ({one.byte} ∪ S) (upTo one.byte 3 * R) :=
    (beginsIn_upTo (Set.mem_singleton _)).mul hR
  have hfive : five.byte ∉ ({one.byte} : Set UInt8) ∪ S := by
    rintro (h | h)
    · exact h15 h.symm
    · exact h5 h
  have hrest : Forced (upTo five.byte 1 * upTo one.byte 3) R
      (fun w => dropUpTo one.byte 3 (dropUpTo five.byte 1 w)) :=
    (Forced.upTo hfive hones 1).mul (Forced.upTo h1 hR 3)
  exact Forced.oneOf (by simp) hrest (take_two_notMem h15 h1t h1 h5 ht hR)

/-- The greedy match decides the grammar. -/
theorem mem_numeral_iff (w : List UInt8) : w ∈ numeral Letter.byte ↔ dropNumeral w = [] := by
  have hI : BeginsIn {105, 118} (placeGrammar Letter.byte .i .v .x) :=
    beginsIn_placeGrammar _ _ _ _
  have hX : BeginsIn ({120, 108} ∪ {105, 118})
      (placeGrammar Letter.byte .x .l .c * placeGrammar Letter.byte .i .v .x) :=
    (beginsIn_placeGrammar Letter.byte .x .l .c).mul hI
  have hC : BeginsIn ({99, 100} ∪ ({120, 108} ∪ {105, 118}))
      (placeGrammar Letter.byte .c .d .m *
        (placeGrammar Letter.byte .x .l .c * placeGrammar Letter.byte .i .v .x)) :=
    (beginsIn_placeGrammar Letter.byte .c .d .m).mul hX
  have units : Forced (placeGrammar Letter.byte .i .v .x) 1 (dropPlace .i .v .x) :=
    forced_place (S := ∅) (by decide) (by decide) (by simp) (by simp) (by simp) beginsIn_one
  have tens : Forced (placeGrammar Letter.byte .x .l .c) _ (dropPlace .x .l .c) :=
    forced_place (by decide) (by decide) (by simp [Letter.byte]) (by simp [Letter.byte])
      (by simp [Letter.byte]) hI
  have hundreds : Forced (placeGrammar Letter.byte .c .d .m) _ (dropPlace .c .d .m) :=
    forced_place (by decide) (by decide) (by simp [Letter.byte]) (by simp [Letter.byte])
      (by simp [Letter.byte]) hX
  have thousands : Forced (upTo Letter.m.byte 3) _ (dropUpTo Letter.m.byte 3) :=
    Forced.upTo (by simp [Letter.byte]) hC 3
  rw [numeral, thousands.mem_mul_iff, hundreds.mem_mul_iff, tens.mem_mul_iff]
  rw [← mul_one (placeGrammar Letter.byte .i .v .x), units.mem_mul_iff]
  exact Language.mem_one _

/-! ## The index and what is left

The bytes behind the index are all that the matcher looks at. -/

/-- From every index inside `b`, `f` moves to an index inside `b` with `D` of the bytes left:
it reads nothing out of bounds. -/
def Advances (b : List UInt8) (f : ℕ → Option ℕ) (D : List UInt8 → List UInt8) : Prop :=
  ∀ i ≤ b.length, ∃ j ≤ b.length, f i = some j ∧ b.drop j = D (b.drop i)

section Index

variable {b : List UInt8}

/-- A test of one byte looks at the first byte that is left. -/
theorem isAt_eq (letter : Letter) (i : ℕ) :
    isAt b letter i = some (decide ((b.drop i).head? = some letter.byte)) := by
  unfold isAt
  by_cases hi : i < b.length
  · have hdrop : (b.drop i).head? = some b[i] := by
      rw [List.head?_drop, List.getElem?_eq_getElem hi]
    rw [if_pos hi, List.getElem?_eq_getElem hi, hdrop]
    simp [beq_eq_decide]
  · have hdrop : b.drop i = [] := List.drop_eq_nil_of_le (by omega)
    rw [if_neg hi, hdrop]
    simp

/-- The loop drops the copies that the repetition takes, three of them at most. -/
theorem advances_run (letter : Letter) (left : ℕ) :
    Advances b (run b letter left) (dropUpTo letter.byte left) := by
  induction left with
  | zero =>
    intro i hi
    refine ⟨i, hi, ?_, (dropUpTo_zero _ _).symm⟩
    rw [run, isAt_eq]
    rfl
  | succ left ih =>
    intro i hi
    have hrun : run b letter (left + 1) i =
        if (b.drop i).head? = some letter.byte then run b letter left (i + 1) else some i := by
      rw [run, isAt_eq]
      simp
    rw [hrun]
    cases hw : b.drop i with
    | nil => exact ⟨i, hi, by simp, by rw [hw, dropUpTo_nil]⟩
    | cons y w =>
      have hlt : i < b.length := by
        by_contra hge
        rw [List.drop_eq_nil_of_le (by omega)] at hw
        exact absurd hw (by simp)
      have hnext : b.drop (i + 1) = w := by
        rw [← List.tail_drop, hw, List.tail_cons]
      rw [dropUpTo_cons, List.head?_cons]
      by_cases hy : y = letter.byte
      · obtain ⟨j, hj, hrun, hdrop⟩ := ih (i + 1) hlt
        rw [hnext] at hdrop
        exact ⟨j, hj, by rw [if_pos (by rw [hy]), hrun], by rw [if_pos hy, hdrop]⟩
      · have hne : some y ≠ some letter.byte := fun h => hy (Option.some.inj h)
        exact ⟨i, hi, if_neg hne, by rw [if_neg hy, hw]⟩

/-- With one turn it is a test and a step. -/
theorem run_one (letter : Letter) (i : ℕ) :
    run b letter 1 i =
      some (if (b.drop i).head? = some letter.byte then i + 1 else i) := by
  rw [run, isAt_eq]
  by_cases h : (b.drop i).head? = some letter.byte
  · rw [decide_eq_true h, if_pos h]
    show run b letter 0 (i + 1) = some (i + 1)
    rw [run, isAt_eq]
    rfl
  · rw [decide_eq_false h, if_neg h]
    rfl

/-- A test of two bytes looks at the first two that are left. -/
theorem isPair_eq (one five ten : Letter) (i : ℕ) :
    isPair b one five ten i = some (decide
      ((b.drop i).take 2 ∈ [[one.byte, ten.byte], [one.byte, five.byte]])) := by
  unfold isPair
  by_cases hi : i + 1 < b.length
  · have h0 : b[i]? = some b[i] := List.getElem?_eq_getElem (by omega)
    have h1 : b[i + 1]? = some b[i + 1] := List.getElem?_eq_getElem hi
    have htake : (b.drop i).take 2 = [b[i], b[i + 1]] := by
      rw [List.drop_eq_getElem_cons (by omega : i < b.length), List.drop_eq_getElem_cons hi]
      rfl
    rw [if_pos hi, h0, h1, htake]
    by_cases hone : b[i] = one.byte <;> by_cases hten : b[i + 1] = ten.byte <;>
      simp [hone, hten, beq_eq_decide]
  · have hlen : ((b.drop i).take 2).length < 2 := by
      rw [List.length_take, List.length_drop]
      omega
    have hnot : (b.drop i).take 2 ∉ [[one.byte, ten.byte], [one.byte, five.byte]] := by
      intro h
      rcases List.mem_pair.mp h with h | h <;> rw [h] at hlen <;> exact absurd hlen (by simp)
    rw [if_neg hi, decide_eq_false hnot]
    rfl

theorem Advances.bind {f g : ℕ → Option ℕ} {D E : List UInt8 → List UInt8}
    (hf : Advances b f D) (hg : Advances b g E) :
    Advances b (fun i => f i >>= g) (fun w => E (D w)) := by
  intro i hi
  obtain ⟨j, hj, hfi, hD⟩ := hf i hi
  obtain ⟨k, hk, hgj, hE⟩ := hg j hj
  have hbind : (f i >>= g) = some k := by rw [hfi]; exact hgj
  exact ⟨k, hk, hbind, by rw [hE, hD]⟩

theorem advances_place (one five ten : Letter) :
    Advances b (place b one five ten) (dropPlace one five ten) := by
  intro i hi
  by_cases hpair : (b.drop i).take 2 ∈ [[one.byte, ten.byte], [one.byte, five.byte]]
  · have hplace : place b one five ten i = some (i + 2) := by
      rw [place, isPair_eq, decide_eq_true hpair]
      rfl
    have hlen : ((b.drop i).take 2).length = 2 := by
      rcases List.mem_pair.mp hpair with h | h <;> rw [h] <;> rfl
    have hle : i + 2 ≤ b.length := by
      rw [List.length_take, List.length_drop] at hlen
      omega
    refine ⟨i + 2, hle, hplace, ?_⟩
    rw [dropPlace, if_pos hpair, List.drop_drop]
  · -- the optional letter is a run of at most one
    have hplace : place b one five ten i = (run b five 1 i >>= run b one 3) := by
      rw [place, isPair_eq, decide_eq_false hpair, isAt_eq, run_one]
      by_cases hfive : (b.drop i).head? = some five.byte
      · rw [decide_eq_true hfive, if_pos hfive]
        rfl
      · rw [decide_eq_false hfive, if_neg hfive]
        rfl
    have hrest : dropPlace one five ten (b.drop i) =
        dropUpTo one.byte 3 (dropUpTo five.byte 1 (b.drop i)) := if_neg hpair
    rw [hplace, hrest]
    exact (advances_run five 1).bind (advances_run one 3) i hi

/-- The whole match stops inside the bytes, with what the greedy match leaves. -/
theorem advances_match : Advances b
    (fun i => run b .m 3 i >>= fun i => place b .c .d .m i >>= fun i =>
      place b .x .l .c i >>= place b .i .v .x) dropNumeral :=
  (advances_run .m 3).bind
    ((advances_place .c .d .m).bind ((advances_place .x .l .c).bind (advances_place .i .v .x)))

end Index

/-! ## The bytes of a numeral -/

/-- Letters of a numeral are one byte each. -/
theorem asBytes_letters (w : List Letter) :
    asBytes (String.ofList (w.map Letter.char)) = w.map Letter.byte := by
  have hascii : IsAscii (w.map Letter.char) := by
    intro c hc
    obtain ⟨y, -, rfl⟩ := List.mem_map.mp hc
    cases y <;> decide
  rw [asBytes_ascii hascii, List.map_map]
  apply List.map_congr_left
  intro y _
  cases y <;> rfl

/-- A string is a numeral when its bytes spell one. -/
theorem asBytes_mem_numeral (s : String) :
    asBytes s ∈ numeral Letter.byte ↔ s.toList ∈ numeral Letter.char := by
  have hbyte : numeral Letter.byte = Language.map Letter.byte (numeral id) :=
    (map_numeral Letter.byte id).symm
  have hchar : numeral Letter.char = Language.map Letter.char (numeral id) :=
    (map_numeral Letter.char id).symm
  rw [hbyte, hchar]
  constructor
  · rintro ⟨w, hw, hbytes⟩
    have hs : String.ofList (w.map Letter.char) = s := by
      apply asBytes_injective
      rw [asBytes_letters]
      exact hbytes
    exact ⟨w, hw, by rw [← hs, String.toList_ofList]⟩
  · rintro ⟨w, hw, hchars⟩
    have hs : s = String.ofList (w.map Letter.char) := by
      rw [show w.map Letter.char = s.toList from hchars, String.ofList_toList]
    exact ⟨w, hw, by rw [hs, asBytes_letters]⟩

/-- What the matcher answers; it always answers. -/
theorem isRomanNumeral_eq (s : String) :
    isRomanNumeral s = some (decide (s ≠ "" ∧ dropNumeral (asBytes s) = [])) := by
  by_cases hs : s = ""
  · rw [hs]
    rfl
  · obtain ⟨j, hj, hmatch, hdrop⟩ := advances_match (b := asBytes s) 0 (Nat.zero_le _)
    have hres : isRomanNumeral s = some (j == (asBytes s).length) := by
      rw [isRomanNumeral, if_neg (by rwa [String.isEmpty_iff])]
      have hstep := congrArg (· >>= fun i => some (i == (asBytes s).length)) hmatch
      simp only [bind_assoc] at hstep
      exact hstep
    have hend : j = (asBytes s).length ↔ (asBytes s).drop j = [] := by
      rw [List.drop_eq_nil_iff]
      omega
    rw [List.drop_zero] at hdrop
    rw [hres, beq_eq_decide]
    congr 1
    rw [decide_eq_decide, hend, hdrop]
    exact ⟨fun h => ⟨hs, h⟩, fun h => h.2⟩

/-- **The matcher accepts exactly the canonical numerals** and reads no byte outside the
token: on every string it returns, and what it returns is whether the string is a word
of the grammar and not empty. -/
theorem isRomanNumeral_iff (s : String) :
    ∃ accepted, isRomanNumeral s = some accepted ∧
      (accepted = true ↔ s ≠ "" ∧ s.toList ∈ numeral Letter.char) := by
  refine ⟨_, isRomanNumeral_eq s, ?_⟩
  rw [decide_eq_true_iff, ← mem_numeral_iff, asBytes_mem_numeral]

example : isRomanNumeral "mix" = some true ∧ isRomanNumeral "civic" = some false := by
  decide +kernel

end Komika.Catalog.RomanNumeral
