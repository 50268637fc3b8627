import Komika.Lib.Binary64
import Komika.Lib.Decimal

/-!
# Strings and numbers of ECMAScript

What a script computes from a text without asking anybody: whether it is truthy,
what `trim` leaves of it, what `Number` reads, and what `toLowerCase` writes.  Texts
are lists of characters.

`Number` reads decimals exactly and rounds once, to the nearest double.  Lower case
is defined on ASCII; beyond it the tables of Unicode are a parameter, and so is what
they make of the characters around one.

* `trim_of_core` — white space on both sides is all that is trimmed;
* `toLowerCase_ascii` — the tables do not touch an ASCII text.
-/

namespace Komika.Lib.EcmaScript

/-! ## White space

The two classes of the standard together, which is what `trim` takes off. -/

/-- `WhiteSpace` and `LineTerminator` of the standard, the byte order mark among
them. -/
def isSpace (c : Char) : Bool :=
  (9 ≤ c.toNat && c.toNat ≤ 13) || (0x2000 ≤ c.toNat && c.toNat ≤ 0x200a) ||
    [0x20, 0xa0, 0x1680, 0x2028, 0x2029, 0x202f, 0x205f, 0x3000, 0xfeff].contains c.toNat

/-- `trim`, which takes spaces off both ends and none within. -/
def trim (text : List Char) : List Char := (text.dropWhile isSpace).rdropWhile isSpace

/-- What begins and ends with no white space is left when all around it is. -/
theorem trim_of_core {lead core trail : List Char} (hlead : ∀ c ∈ lead, isSpace c = true)
    (hcore : ∀ c ∈ core, isSpace c = false) (htrail : ∀ c ∈ trail, isSpace c = true) :
    trim (lead ++ core ++ trail) = core := by
  unfold trim
  rw [List.append_assoc, List.dropWhile_append_of_pos hlead]
  cases core with
  | nil =>
      rw [List.nil_append, List.dropWhile_eq_nil_iff.mpr htrail]
      rfl
  | cons c cs =>
      have hc : isSpace c = false := hcore c List.mem_cons_self
      rw [List.cons_append, List.dropWhile_cons_of_neg (by rw [hc]; decide), ← List.cons_append]
      induction trail using List.reverseRecOn with
      | nil =>
          rw [List.append_nil]
          apply List.rdropWhile_eq_self_iff.mpr
          intro hne
          rw [hcore _ (List.getLast_mem hne)]
          decide
      | append_singleton trail d ih =>
          have hd : isSpace d = true := htrail d (by simp)
          rw [← List.append_assoc, List.rdropWhile_concat_pos _ _ _ hd]
          exact ih fun x hx => htrail x (List.mem_append_left _ hx)

/-- A string that is neither absent nor empty. -/
def truthy (text : Option String) : Option String := text.filter (· ≠ "")

/-! ## Lower case

Letters of ASCII are lowered by themselves; beyond ASCII a letter may become several,
and the sigma depends on its neighbours. -/

/-- What a character beyond ASCII becomes, behind what is read already (the last
character first) and in front of the rest. -/
abbrev LowerCase := List Char → Char → List Char → List Char

/-- Lower case from some place on, with what stands before it, the last character
first. -/
def lowerFrom (beyond : LowerCase) (before : List Char) : List Char → List Char
  | [] => []
  | c :: cs =>
      (if c.toNat < 128 then [c.toLower] else beyond before c cs) ++
        lowerFrom beyond (c :: before) cs

/-- `toLowerCase`: character by character, with the final sigma by its place. -/
def toLowerCase (beyond : LowerCase) (text : List Char) : List Char := lowerFrom beyond [] text

/-- An ASCII text is lowered letter by letter. -/
theorem toLowerCase_ascii {beyond : LowerCase} {text : List Char}
    (h : ∀ c ∈ text, c.toNat < 128) : toLowerCase beyond text = text.map Char.toLower := by
  have hfrom : ∀ before, lowerFrom beyond before text = text.map Char.toLower := by
    induction text with
    | nil => exact fun _ => rfl
    | cons c cs ih =>
        intro before
        have hc : c.toNat < 128 := h c List.mem_cons_self
        rw [lowerFrom, if_pos hc, ih fun x hx => h x (List.mem_cons_of_mem c hx)]
        rfl
  exact hfrom []

/-! ## Numbers

A literal is trimmed first; it is a decimal, an infinity, or digits of base 2, 8 or 16
behind a prefix. -/

/-- The base that a literal announces, and its digits. -/
def radix : List Char → Option (Nat × List Char)
  | '0' :: 'x' :: digits | '0' :: 'X' :: digits => some (16, digits)
  | '0' :: 'o' :: digits | '0' :: 'O' :: digits => some (8, digits)
  | '0' :: 'b' :: digits | '0' :: 'B' :: digits => some (2, digits)
  | _ => none

/-- The value of a digit, of 16 or fewer. -/
def digitValue (c : Char) : Option Nat :=
  if c.isDigit then some (c.toNat - '0'.toNat)
  else if 'a' ≤ c ∧ c ≤ 'f' then some (c.toNat - 'a'.toNat + 10)
  else if 'A' ≤ c ∧ c ≤ 'F' then some (c.toNat - 'A'.toNat + 10)
  else none

/-- The value of one or more digits of a base. -/
def digitsValue (base : Nat) (digits : List Char) : Option Nat :=
  if digits = [] then none
  else digits.foldlM (fun n c => (digitValue c).bind fun d =>
    if d < base then some (n * base + d) else none) 0

/-- A decimal literal, with a sign or without, or an infinity. -/
def readDecimal (text : List Char) : Binary64 :=
  let negative := (Decimal.sign text).1
  let rest := (Decimal.sign text).2
  if rest = "Infinity".toList then .infinity negative
  else
    match Decimal.magnitude rest with
    | none => .nan
    | some q => Binary64.ofQuotient negative q.num.toNat q.den

/-- `Number(text)`: an empty text is zero, and what is no literal is NaN. -/
def number (text : List Char) : Binary64 :=
  let body := trim text
  if body = [] then .finite false 0
  else
    match radix body with
    | some (base, digits) =>
        (digitsValue base digits).elim .nan fun n => Binary64.ofQuotient false n 1
    | none => readDecimal body

-- a header of white space declares a length of zero, and a base is read as well
example : number " ".toList = .ofNat 0 ∧ number "0x1F".toList = .ofNat 31 ∧
    number "1e3".toList = .ofNat 1000 ∧ number "12 bytes".toList = .nan := by
  decide +kernel

end Komika.Lib.EcmaScript
