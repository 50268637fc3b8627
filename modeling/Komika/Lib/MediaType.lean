import Mathlib.Data.List.DropRight
import Mathlib.Data.List.TakeWhile

/-!
# The media type of a response

What a `Content-Type` header says to a client.  Several fields of that name arrive
as one value, joined by commas, so a client first splits the value at the commas
that stand outside of quoted strings.  Each part is parsed on its own: a type and a
subtype, which are tokens, in any case and with parameters behind them.  What does
not parse is passed over, and so is `*/*`; of the rest the last one counts.

* `values`, `values_eq_singleton` — the parts of a header, and when there is one;
* `parse`, `parse_spec` — the media type of a part, and the shape of a part that
  has one;
* `ofHeader`, `ofHeader_of_single` — the media type of a header, and of one part.
-/

namespace Komika.Lib.MediaType

/-- A media type without its parameters. -/
structure Essence where
  type : List Char
  subtype : List Char
deriving DecidableEq, Repr

/-! ## The parts of a header

The splitting reads the header from the left and only has to know whether it is inside
of a quoted string, and there whether the last character was a backslash. -/

/-- Where in a value a character stands. -/
inductive Mode where
  | plain
  | quoted
  | escaped
deriving DecidableEq

/-- A character in front of the first part. -/
def push (c : Char) (parts : List (List Char)) : List (List Char) :=
  (c :: parts.headD []) :: parts.tail

/-- The parts between the commas that stand outside of quoted strings. -/
def values : Mode → List Char → List (List Char)
  | _, [] => [[]]
  | .plain, c :: cs =>
      if c = ',' then [] :: values .plain cs
      else push c (values (if c = '"' then .quoted else .plain) cs)
  | .quoted, c :: cs =>
      push c (values (if c = '"' then .plain else if c = '\\' then .escaped else .quoted) cs)
  | .escaped, c :: cs => push c (values .quoted cs)

theorem length_push (c : Char) (parts : List (List Char)) :
    (push c parts).length = parts.tail.length + 1 := rfl

theorem values_ne_nil (m : Mode) (header : List Char) : values m header ≠ [] := by
  cases header with
  | nil => exact List.cons_ne_nil _ _
  | cons c cs =>
      cases m with
      | plain =>
          rw [values]
          split
          · exact List.cons_ne_nil _ _
          · exact List.cons_ne_nil _ _
      | quoted => exact List.cons_ne_nil _ _
      | escaped => exact List.cons_ne_nil _ _

/-- A part in front of which a character is put is alone if it was. -/
theorem push_of_singleton {c : Char} {cs : List Char} {parts : List (List Char)}
    (hne : parts ≠ []) (hone : (push c parts).length = 1)
    (ih : parts.length = 1 → parts = [cs]) : push c parts = [c :: cs] := by
  have hlength : parts.length = 1 := by
    rw [length_push, List.length_tail] at hone
    have hpos := List.length_pos_of_ne_nil hne
    omega
  rw [ih hlength]
  rfl

/-- A part that is alone is the whole header. -/
theorem values_eq_singleton (m : Mode) (header : List Char)
    (h : (values m header).length = 1) : values m header = [header] := by
  induction header generalizing m with
  | nil => cases m <;> rfl
  | cons c cs ih =>
      cases m with
      | plain =>
          rw [values] at h ⊢
          split at h
          · -- a comma leaves a part behind it
            rw [List.length_cons] at h
            exact absurd (List.length_eq_zero_iff.mp (by omega)) (values_ne_nil .plain cs)
          · next hc =>
              rw [if_neg hc]
              exact push_of_singleton (values_ne_nil _ cs) h (ih _)
      | quoted => exact push_of_singleton (values_ne_nil _ cs) h (ih _)
      | escaped => exact push_of_singleton (values_ne_nil _ cs) h (ih _)

/-! ## The media type of a part

Blanks are trimmed, then come a token, a slash and a token; what follows a semicolon is
parameters and not looked at. -/

/-- HTTP whitespace: space, tab and the two line ends. -/
def isBlank (c : Char) : Bool := c = ' ' || c = '\t' || c = '\n' || c = '\r'

/-- A character of a token: a letter or a digit of ASCII, or one of a few signs, of
which 96 is the backquote. -/
def isToken (c : Char) : Bool :=
  c.isAlphanum || "!#$%&'*+-.^_|~".toList.contains c || c.toNat = 96

/-- What stands in front of the slash, after the blanks. -/
def typeOf (value : List Char) : List Char :=
  (value.dropWhile isBlank).takeWhile (· ≠ '/')

/-- What stands behind the slash, up to the parameters and the blanks before them. -/
def subtypeOf (value : List Char) : List Char :=
  (((value.dropWhile isBlank).dropWhile (· ≠ '/')).tail.takeWhile (· ≠ ';')).rdropWhile isBlank

/-- The media type that a part names, in lower case. -/
def parse (value : List Char) : Option Essence :=
  if (typeOf value ≠ [] ∧ (typeOf value).all isToken = true) ∧
      subtypeOf value ≠ [] ∧ (subtypeOf value).all isToken = true then
    some ⟨(typeOf value).map Char.toLower, (subtypeOf value).map Char.toLower⟩
  else none

/-- Tokens are of ASCII, so what holds of the ASCII ones holds of all. -/
theorem forall_isToken {P : Char → Prop}
    (h : ∀ n < 128, isToken (Char.ofNat n) = true → P (Char.ofNat n)) {c : Char}
    (hc : isToken c = true) : P c := by
  have hlt : c.toNat < 128 := by
    unfold isToken at hc
    rw [Bool.or_eq_true, Bool.or_eq_true, decide_eq_true_eq] at hc
    rcases hc with (hletter | hsign) | hquote
    · have hcodes : c.isAlphanum = ((decide (c.val ≥ 'A'.val ∧ c.val ≤ 'Z'.val) ||
          decide (c.val ≥ 'a'.val) && decide (c.val ≤ 'z'.val)) ||
          decide (c.val ≥ '0'.val) && decide (c.val ≤ '9'.val)) := rfl
      rw [hcodes] at hletter
      simp only [Bool.or_eq_true, Bool.and_eq_true, decide_eq_true_eq, UInt32.le_iff_toNat_le]
        at hletter
      have hlast : 'Z'.val.toNat < 128 ∧ 'z'.val.toNat < 128 ∧ '9'.val.toNat < 128 := by
        decide
      have hval : c.toNat = c.val.toNat := rfl
      omega
    · have hsigns : "!#$%&'*+-.^_|~".toList.all (fun d => decide (d.toNat < 128)) = true := by
        decide
      exact of_decide_eq_true (List.all_eq_true.mp hsigns c (List.contains_iff_mem.mp hsign))
    · omega
  rw [← Char.ofNat_toNat c] at hc ⊢
  exact h c.toNat hlt hc

/-- The semicolon in front of the parameters is no character of a token. -/
theorem ne_semicolon_of_isToken {c : Char} (hc : isToken c = true) : c ≠ ';' :=
  forall_isToken (P := fun c => c ≠ ';') (by decide +kernel) hc

theorem ne_semicolon_of_isBlank {c : Char} (hc : isBlank c = true) : c ≠ ';' := by
  rintro rfl
  contradiction

/-- A part with a subtype has a slash behind its type. -/
theorem exists_slash {value : List Char} (h : subtypeOf value ≠ []) :
    ∃ rest, (value.dropWhile isBlank).dropWhile (· ≠ '/') = '/' :: rest := by
  cases hrest : (value.dropWhile isBlank).dropWhile (· ≠ '/') with
  | nil =>
      unfold subtypeOf at h
      rw [hrest] at h
      exact absurd rfl h
  | cons c rest =>
      have hc := List.head_dropWhile_not (p := fun c : Char => decide (c ≠ '/'))
        (l := value.dropWhile isBlank) (by rw [hrest]; exact List.cons_ne_nil _ _)
      simp only [hrest, List.head_cons, decide_eq_false_iff_not, ne_eq, not_not] at hc
      exact ⟨rest, by rw [hc]⟩

/-- What stands in front of the parameters of a part that names a media type: blanks,
the two tokens with a slash between them, and blanks. -/
theorem parse_spec {value : List Char} {t : Essence} (h : parse value = some t) :
    ∃ lead type subtype trail,
      value.takeWhile (· ≠ ';') = lead ++ (type ++ '/' :: subtype) ++ trail ∧
        (∀ c ∈ lead, isBlank c = true) ∧ (∀ c ∈ trail, isBlank c = true) ∧
        (∀ c ∈ type, isToken c = true) ∧ (∀ c ∈ subtype, isToken c = true) ∧
        t = ⟨type.map Char.toLower, subtype.map Char.toLower⟩ := by
  unfold parse at h
  split at h
  case isFalse => contradiction
  case isTrue htokens =>
  obtain ⟨⟨-, htype⟩, hne, hsubtype⟩ := htokens
  rw [List.all_eq_true] at htype hsubtype
  cases h
  refine ⟨value.takeWhile isBlank, typeOf value, subtypeOf value,
    (((value.dropWhile isBlank).dropWhile (· ≠ '/')).tail.takeWhile (· ≠ ';')).rtakeWhile
      isBlank, ?_, ?_, ?_, htype, hsubtype, rfl⟩
  · obtain ⟨rest, hrest⟩ := exists_slash hne
    have hvalue : value = value.takeWhile isBlank ++ (typeOf value ++ '/' :: rest) := by
      unfold typeOf
      rw [← hrest, List.takeWhile_append_dropWhile, List.takeWhile_append_dropWhile]
    have hlead : ∀ c ∈ value.takeWhile isBlank, decide (c ≠ ';') = true := fun c hc =>
      decide_eq_true (ne_semicolon_of_isBlank (List.mem_takeWhile_imp hc))
    have hname : ∀ c ∈ typeOf value, decide (c ≠ ';') = true := fun c hc =>
      decide_eq_true (ne_semicolon_of_isToken (htype c hc))
    have hrestOf : subtypeOf value = (rest.takeWhile (· ≠ ';')).rdropWhile isBlank := by
      rw [subtypeOf, hrest, List.tail_cons]
    calc value.takeWhile (· ≠ ';')
        = (value.takeWhile isBlank ++ (typeOf value ++ '/' :: rest)).takeWhile (· ≠ ';') :=
          congrArg _ hvalue
      _ = value.takeWhile isBlank ++ (typeOf value ++ '/' :: rest.takeWhile (· ≠ ';')) := by
          rw [List.takeWhile_append_of_pos hlead, List.takeWhile_append_of_pos hname,
            List.takeWhile_cons_of_pos (by decide)]
      _ = _ := by
          rw [hrestOf, hrest, List.tail_cons, List.append_assoc, List.append_assoc,
            List.cons_append, List.rdropWhile_append_rtakeWhile]
  · exact fun c hc => List.mem_takeWhile_imp hc
  · exact fun c hc => List.mem_rtakeWhile_imp hc

/-- The media type of a header: the last that a part names. -/
def ofHeader (header : List Char) : Option Essence :=
  (((values .plain header).filterMap parse).filter fun t => t ≠ ⟨['*'], ['*']⟩).getLast?

/-- A header of one part has the media type of that part. -/
theorem ofHeader_of_single {header : List Char} {t : Essence}
    (hone : (values .plain header).length = 1) (h : parse header = some t)
    (hany : t ≠ ⟨['*'], ['*']⟩) : ofHeader header = some t := by
  unfold ofHeader
  rw [values_eq_singleton .plain header hone, List.filterMap_cons_some h, List.filterMap_nil]
  simp [hany]

end Komika.Lib.MediaType
