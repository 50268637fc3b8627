import Komika.Lib.Bytes
import Mathlib.Data.List.TakeWhile

/-!
# Byte indices into a text

A text is searched by the bytes of its UTF-8 encoding and cut at indices into them.  A cut is
possible only between two characters; a test for ASCII letters finds such a place, since every
byte of another character is above them.

* `splitBytes_eq_some_iff` — a text can be cut where a beginning of it ends;
* `AsciiTest.findIdx?_utf8` — what a search of the bytes finds;
* `AsciiTest.map_getElem?_utf8` — what the byte behind a beginning says.

`String` methods that take and return byte indices are modelled by lists of characters
with `size` in place of the index: `splitBytes` cuts where the source would, and is
undefined where the source would panic.
-/

namespace Komika.Lib.ByteIndex

open Komika.Lib.Bytes

/-- The bytes of a list of characters. -/
def utf8 (cs : List Char) : List UInt8 := cs.flatMap String.utf8EncodeChar

/-- How many there are. -/
def size (cs : List Char) : ℕ := (utf8 cs).length

section Size

variable {xs ys cs : List Char} {c : Char}

@[simp] theorem utf8_append (xs ys : List Char) : utf8 (xs ++ ys) = utf8 xs ++ utf8 ys :=
  List.flatMap_append

@[simp] theorem utf8_cons (c : Char) (cs : List Char) :
    utf8 (c :: cs) = String.utf8EncodeChar c ++ utf8 cs := List.flatMap_cons

@[simp] theorem size_nil : size [] = 0 := rfl

@[simp] theorem size_append (xs ys : List Char) : size (xs ++ ys) = size xs + size ys := by
  rw [size, utf8_append, List.length_append, size, size]

@[simp] theorem size_cons (c : Char) (cs : List Char) : size (c :: cs) = c.utf8Size + size cs := by
  rw [size, utf8_cons, List.length_append, String.length_utf8EncodeChar, size]

/-- Every character has a byte. -/
theorem size_eq_zero_iff : size cs = 0 ↔ cs = [] := by
  constructor
  · intro h
    cases cs with
    | nil => rfl
    | cons c cs =>
      have hpos := c.utf8Size_pos
      rw [size_cons] at h
      omega
  · rintro rfl
    rfl

/-- An index behind a beginning is an index of a byte unless nothing follows. -/
theorem size_lt_length_iff : size xs < (utf8 (xs ++ ys)).length ↔ ys ≠ [] := by
  rw [← size, size_append, ne_eq, ← size_eq_zero_iff]
  omega

/-- Characters of one size each leave the size of the text. -/
theorem size_map {f : Char → Char} (hf : ∀ c, (f c).utf8Size = c.utf8Size) (cs : List Char) :
    size (cs.map f) = size cs := by
  induction cs with
  | nil => rfl
  | cons c cs ih => rw [List.map_cons, size_cons, size_cons, hf, ih]

end Size

/-! ## Cuts

A cut is an index at which a slice may begin or end. -/

/-- The text before an index and the text from there on; `none` if the index is inside a
character, or behind the end. -/
def splitBytes : ℕ → List Char → Option (List Char × List Char)
  | 0, cs => some ([], cs)
  | _ + 1, [] => none
  | n + 1, c :: cs =>
    if c.utf8Size ≤ n + 1 then
      (splitBytes (n + 1 - c.utf8Size) cs).map fun parts => (c :: parts.1, parts.2)
    else none

/-- `&s[start..]`: `none` is a panic. -/
def sliceFrom (start : ℕ) (cs : List Char) : Option (List Char) :=
  (splitBytes start cs).map Prod.snd

/-- `&s[start..stop]`; `none` where it would not fall on the bounds of characters. -/
def slice (start stop : ℕ) (cs : List Char) : Option (List Char) := do
  if start ≤ stop then
    let (before, _) ← splitBytes stop cs
    sliceFrom start before
  else none

section Cuts

variable {xs ys cs : List Char}

theorem splitBytes_zero (cs : List Char) : splitBytes 0 cs = some ([], cs) := by
  cases cs <;> rfl

theorem splitBytes_append (xs ys : List Char) :
    splitBytes (size xs) (xs ++ ys) = some (xs, ys) := by
  induction xs with
  | nil => exact splitBytes_zero ys
  | cons c xs ih =>
    obtain ⟨n, hn⟩ := Nat.exists_eq_add_of_lt c.utf8Size_pos
    have hsize : size (c :: xs) = (n + size xs) + 1 := by
      rw [size_cons]
      omega
    have hrest : n + size xs + 1 - c.utf8Size = size xs := by omega
    rw [hsize, List.cons_append, splitBytes, if_pos (by omega), hrest, ih]
    rfl

/-- A text can be cut where a beginning of it ends, and nowhere else. -/
theorem splitBytes_eq_some_iff {n : ℕ} :
    splitBytes n cs = some (xs, ys) ↔ xs ++ ys = cs ∧ size xs = n := by
  constructor
  · intro h
    induction cs generalizing n xs with
    | nil =>
      cases n with
      | zero =>
        cases h
        exact ⟨rfl, rfl⟩
      | succ n => cases h
    | cons c cs ih =>
      cases n with
      | zero =>
        cases h
        exact ⟨rfl, rfl⟩
      | succ n =>
        rw [splitBytes] at h
        split at h
        case isTrue hle =>
          obtain ⟨⟨before, after⟩, hsplit, hparts⟩ := Option.map_eq_some_iff.mp h
          obtain ⟨rfl, rfl⟩ := Prod.mk.inj hparts
          obtain ⟨happ, hsize⟩ := ih hsplit
          rw [List.cons_append, happ, size_cons, hsize]
          exact ⟨rfl, by omega⟩
        case isFalse => cases h
  · rintro ⟨rfl, rfl⟩
    exact splitBytes_append xs ys

/-- The part from the end of a beginning on. -/
theorem sliceFrom_append (xs ys : List Char) : sliceFrom (size xs) (xs ++ ys) = some ys := by
  rw [sliceFrom, splitBytes_eq_some_iff.mpr ⟨rfl, rfl⟩]
  rfl

/-- The part between the ends of two beginnings. -/
theorem slice_append (xs ys zs : List Char) :
    slice (size xs) (size (xs ++ ys)) (xs ++ ys ++ zs) = some ys := by
  have hle : size xs ≤ size (xs ++ ys) := by
    rw [size_append]
    exact Nat.le_add_right _ _
  rw [slice, if_pos hle, splitBytes_eq_some_iff.mpr ⟨rfl, rfl⟩]
  exact sliceFrom_append xs ys

end Cuts

/-! ## Tests on bytes

The search compares bytes with ASCII letters, without asking where a character
begins. -/

/-- `q` tests a byte for the ASCII letters that `p` tests a character for. -/
structure AsciiTest (p : Char → Bool) (q : UInt8 → Bool) : Prop where
  ascii : ∀ c, c.toNat < 128 → q (byteOf c) = p c
  char : ∀ c, 128 ≤ c.toNat → p c = false
  byte : ∀ b : UInt8, 128 ≤ b.toNat → q b = false

/-- Every byte of a character that is not ASCII is above ASCII. -/
theorem le_of_mem_utf8EncodeChar {c : Char} (hc : 128 ≤ c.toNat) :
    ∀ b ∈ String.utf8EncodeChar c, 128 ≤ b.toNat := by
  intro b hb
  have hbig : ¬c.val.toNat ≤ 127 := Nat.not_le.mpr hc
  -- the first byte of two, three and four, and the bytes behind it
  have hhigh : ∀ m h : ℕ, m + h < 256 → 128 ≤ h → 128 ≤ (UInt8.ofNat (m + h)).toNat := by
    intro m h hlt hle
    rw [UInt8.toNat_ofNat']
    omega
  unfold String.utf8EncodeChar at hb
  simp only [if_neg hbig] at hb
  split at hb
  case isTrue =>
    simp only [List.mem_cons, List.not_mem_nil, or_false] at hb
    rcases hb with rfl | rfl <;> exact hhigh _ _ (by omega) (by decide)
  case isFalse =>
    split at hb
    case isTrue =>
      simp only [List.mem_cons, List.not_mem_nil, or_false] at hb
      rcases hb with rfl | rfl | rfl <;> exact hhigh _ _ (by omega) (by decide)
    case isFalse =>
      simp only [List.mem_cons, List.not_mem_nil, or_false] at hb
      rcases hb with rfl | rfl | rfl | rfl <;> exact hhigh _ _ (by omega) (by decide)

namespace AsciiTest

variable {p : Char → Bool} {q : UInt8 → Bool}

/-- The bytes of a character pass the test exactly if it does. -/
theorem of_mem (h : AsciiTest p q) {c : Char} {b : UInt8} (hb : b ∈ String.utf8EncodeChar c) :
    q b = p c := by
  by_cases hc : c.toNat < 128
  · rw [utf8EncodeChar_ascii hc, List.mem_singleton] at hb
    rw [hb, h.ascii c hc]
  · rw [h.char c (by omega), h.byte b (le_of_mem_utf8EncodeChar (by omega) b hb)]

/-- What passes an ASCII test is one byte. -/
theorem utf8Size_of_pos (h : AsciiTest p q) {c : Char} (hc : p c = true) : c.utf8Size = 1 := by
  have hascii : c.toNat < 128 := by
    by_contra hbig
    rw [h.char c (by omega)] at hc
    cases hc
  rw [← String.length_utf8EncodeChar, utf8EncodeChar_ascii hascii]
  rfl

/-- What a search of the bytes finds: the place of the first character that passes. -/
theorem findIdx?_utf8 (h : AsciiTest p q) (cs : List Char) :
    (utf8 cs).findIdx? q =
      if cs.any p then some (size (cs.takeWhile fun c => !p c)) else none := by
  induction cs with
  | nil => rfl
  | cons c cs ih =>
    rw [utf8_cons, List.findIdx?_append, ih, List.any_cons]
    cases hc : p c with
    | true =>
      obtain ⟨b, hb⟩ := List.length_eq_one_iff.mp
        ((String.length_utf8EncodeChar c).trans (h.utf8Size_of_pos hc))
      have hq : q b = true := by rw [h.of_mem (hb ▸ List.mem_singleton_self b), hc]
      rw [hb, List.findIdx?_singleton, if_pos hq, List.takeWhile_cons_of_neg (by simp [hc])]
      rfl
    | false =>
      have hnone : (String.utf8EncodeChar c).findIdx? q = none := by
        rw [List.findIdx?_eq_none_iff]
        intro b hb
        rw [h.of_mem hb, hc]
      rw [hnone, List.takeWhile_cons_of_pos (by simp [hc]), String.length_utf8EncodeChar]
      by_cases hany : cs.any p = true
      · simp [hany, Nat.add_comm]
      · simp [hany]

/-- What the byte behind a beginning of the text says. -/
theorem map_getElem?_utf8 (h : AsciiTest p q) (xs ys : List Char) :
    ((utf8 (xs ++ ys))[size xs]?).map q = ys.head?.map p := by
  have hget : (utf8 (xs ++ ys))[size xs]? = (utf8 ys).head? := by
    rw [utf8_append, size, List.getElem?_append_right le_rfl, Nat.sub_self,
      List.head?_eq_getElem?]
  rw [hget]
  cases ys with
  | nil => rfl
  | cons c ys =>
    obtain ⟨b, bs, hb⟩ := List.exists_cons_of_length_pos
      ((String.length_utf8EncodeChar c).symm ▸ c.utf8Size_pos)
    have hq : q b = p c := h.of_mem (hb ▸ List.mem_cons_self)
    rw [utf8_cons, hb, List.cons_append, List.head?_cons, List.head?_cons, Option.map_some,
      Option.map_some, hq]

end AsciiTest

end Komika.Lib.ByteIndex
