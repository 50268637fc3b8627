import Komika.Chapters.ExactLabel
import Komika.Lib.ByteIndex

/-!
# The number in a name

`first_number` of `chapter_label.rs` looks for the number of a chapter in its name, by the bytes
of the name and with cuts at byte indices.  `strip_volume_prefix` takes a volume and its number
away first: it looks for the volume in a copy in lower case, and cuts the name itself.

* `firstNumber_eq` — no index is out of bounds and no cut is inside a character, so the search is
  one for characters, as `Label` has it;
* `reads_iff` — the number that is found is the chapter's, not the volume's, unless the volume
  token is a `V` without a point behind it.

* `scan_eq`, `stripPrefixes_eq` — the loops over bytes, as functions of characters;
* `takeNumber_text`, `IsFirst` — the first number of a text;
* `stripVolume_of_beginsWith`, `beginsWith_of_stripVolume` — what is cut off for a
  volume;
* `firstNumber_of_recognised`, `firstNumber_of_not_recognised` — the number of a name
  with a volume in front, in both cases.
-/

namespace Komika.Chapters.NameNumber

open Komika.Lib Komika.Lib.ByteIndex
open Komika.Chapters.Label (trimStart takeNumber afterStart)

/-! ## The code

The bytes of the name, with indices and slices. -/

/-- `u8::is_ascii_digit`, of the bytes `0` to `9`. -/
def isAsciiDigit (b : UInt8) : Bool := 48 ≤ b && b ≤ 57

/-- The prefixes of `strip_volume_prefix`, in the order in which they are tried. -/
def prefixes : List String := ["volume", "vol.", "vol", "v."]

/-- What may stand between a volume and its number. -/
def separators : List Char := [' ', '.', '#', ':', '-']

/-- One round of the loop of `strip_volume_prefix`; `none` is a panic. -/
def stripVolume (trimmed : List Char) (pre : String) : Option (Option (List Char)) :=
  match afterStart pre (trimmed.map Char.toLower) with
  | none => some none
  | some rest =>
    let skipped := rest.dropWhile separators.contains
    if skipped.head?.any Char.isDigit then
      -- `trimmed.len() - skipped.len()`
      if size skipped ≤ size trimmed then do
        let tail ← sliceFrom (size trimmed - size skipped) trimmed
        pure (some (tail.dropWhile fun c => c.isDigit || c = '.'))
      else none
    else some none

/-- The loop: the first of the prefixes that has a number behind it, in the order of the
list. -/
def stripPrefixes (trimmed : List Char) : List String → Option (List Char)
  | [] => pure trimmed
  | pre :: rest => do
    match ← stripVolume trimmed pre with
    | some afterNumber => pure afterNumber
    | none => stripPrefixes trimmed rest

/-- `strip_volume_prefix`: what stands behind the volume's number, or the whole name. -/
def stripVolumePrefix (name : String) : Option (List Char) :=
  stripPrefixes (trimStart name.toList) prefixes

/-- The loop of `first_number`: `none` is an index out of bounds. -/
def scan (bytes : List UInt8) (stop : ℕ) (seenDot : Bool) : Option ℕ :=
  if h : stop < bytes.length then do
    let b ← bytes[stop]?
    if isAsciiDigit b then scan bytes (stop + 1) seenDot
    else if b == 46 && !seenDot && stop + 1 < bytes.length then do
      let next ← bytes[stop + 1]?
      if isAsciiDigit next then scan bytes (stop + 1) true else pure stop
    else pure stop
  else pure stop
termination_by bytes.length - stop

/-- `first_number`: `none` is a panic, and `parse` is `str::parse`. -/
def firstNumber {ν : Type} (parse : String → Option ν) (name : String) : Option (Option ν) := do
  let cleaned ← stripVolumePrefix name
  let bytes := utf8 cleaned
  match bytes.findIdx? isAsciiDigit with
  | none => pure none
  | some start =>
    let stop ← scan bytes start false
    let text ← slice start stop cleaned
    pure (parse (String.ofList text))

/-! ## From bytes to characters

Every index that is used is the end of some characters. -/

section Letters

variable {c d : Char}

theorem isDigit_test : AsciiTest Char.isDigit isAsciiDigit where
  ascii c hc := by
    rw [Bool.eq_iff_iff, Char.isDigit_iff_toNat, isAsciiDigit, Bool.and_eq_true,
      decide_eq_true_eq, decide_eq_true_eq, UInt8.le_iff_toNat_le, UInt8.le_iff_toNat_le,
      Bytes.toNat_byteOf hc]
    rfl
  char c hc := by
    rw [← Bool.not_eq_true, Char.isDigit_iff_toNat]
    show ¬(48 ≤ c.toNat ∧ c.toNat ≤ 57)
    omega
  byte b hb := by
    have hhigh : ¬b ≤ 57 := by
      rw [UInt8.le_iff_toNat_le]
      show ¬b.toNat ≤ 57
      omega
    rw [isAsciiDigit, decide_eq_false hhigh, Bool.and_false]

theorem point_test : AsciiTest (fun c => c = '.') (fun b => b == 46) where
  ascii c hc := by
    rw [beq_eq_decide]
    exact decide_eq_decide.mpr (Bytes.byteOf_inj hc (by decide : '.'.toNat < 128))
  char c hc := by
    apply decide_eq_false
    rintro rfl
    exact absurd hc (by decide)
  byte b hb := by
    rw [beq_eq_decide]
    apply decide_eq_false
    rintro rfl
    exact absurd hb (by decide)

/-- Only capitals are lowered, by 32. -/
theorem toLower_cases (c : Char) :
    c.toLower = c ∨ (65 ≤ c.toNat ∧ c.toNat ≤ 90 ∧ c.toLower.toNat = c.toNat + 32) := by
  unfold Char.toLower
  split
  case isTrue h =>
    have hlo : 65 ≤ c.toNat := UInt32.le_iff_toNat_le.mp h.1
    have hhi : c.toNat ≤ 90 := UInt32.le_iff_toNat_le.mp h.2
    refine Or.inr ⟨hlo, hhi, ?_⟩
    show (c.val + 32).toNat = c.toNat + 32
    rw [UInt32.toNat_add]
    exact Nat.mod_eq_of_lt (by show c.toNat + 32 < 2 ^ 32; omega)
  case isFalse => exact Or.inl rfl

theorem utf8Size_toLower (c : Char) : c.toLower.utf8Size = c.utf8Size := by
  rcases toLower_cases c with hsame | ⟨-, hhi, hlower⟩
  · rw [hsame]
  · have hone : ∀ d : Char, d.toNat ≤ 127 → d.utf8Size = 1 :=
      fun d hd => Char.utf8Size_eq_one_iff.mpr (UInt32.le_iff_toNat_le.mpr hd)
    rw [hone c (by omega), hone c.toLower (by omega)]

/-- What is no small letter was not lowered. -/
theorem eq_of_toLower (h : c.toLower = d) (hd : d.toNat < 97) : c = d := by
  rcases toLower_cases c with hsame | ⟨hlo, -, hlower⟩
  · exact hsame.symm.trans h
  · rw [h] at hlower
    omega

end Letters

section Bytes

variable {name : String}

theorem afterStart_eq_some_iff {pre : String} {cs rest : List Char} :
    afterStart pre cs = some rest ↔ cs = pre.toList ++ rest := by
  rw [afterStart, Option.ite_none_right_eq_some, List.isPrefixOf_iff_prefix]
  constructor
  · rintro ⟨⟨rest, rfl⟩, hdrop⟩
    rw [← Option.some.inj hdrop, List.drop_left]
  · rintro rfl
    rw [List.drop_left]
    exact ⟨List.prefix_append _ _, rfl⟩

/-- A volume is cut off where the copy in lower case says. -/
theorem stripVolume_eq (trimmed : List Char) (pre : String) :
    stripVolume trimmed pre = some (Label.stripVolume trimmed pre) := by
  unfold stripVolume Label.stripVolume
  cases hrest : afterStart pre (trimmed.map Char.toLower) with
  | none => rfl
  | some rest =>
    have hsuffix : rest.dropWhile separators.contains <:+ trimmed.map Char.toLower := by
      rw [afterStart_eq_some_iff.mp hrest]
      exact (List.dropWhile_suffix _).trans (List.suffix_append _ _)
    obtain ⟨before, hbefore⟩ := hsuffix
    obtain ⟨xs, ys, rfl, -, hys⟩ := List.map_eq_append_iff.mp hbefore.symm
    have hsize : size (rest.dropWhile separators.contains) = size ys := by
      rw [← hys, size_map utf8Size_toLower]
    have hlen : (rest.dropWhile separators.contains).length = ys.length := by
      rw [← hys, List.length_map]
    have hle : size ys ≤ size (xs ++ ys) := by
      rw [size_append]
      exact Nat.le_add_left _ _
    have hconsumed : size (xs ++ ys) - size ys = size xs := by
      rw [size_append, Nat.add_sub_cancel]
    have hdrop : (xs ++ ys).drop ((xs ++ ys).length - ys.length) = ys := by
      rw [List.length_append, Nat.add_sub_cancel, List.drop_left]
    have hskipped : rest.dropWhile [' ', '.', '#', ':', '-'].contains =
        rest.dropWhile separators.contains := rfl
    simp only [Option.bind_some, hskipped, hsize, hlen, if_pos hle, hconsumed, sliceFrom_append,
      hdrop]
    split <;> rfl

/-- So is the first volume that one of the prefixes finds. -/
theorem stripPrefixes_eq (trimmed : List Char) (pres : List String) :
    stripPrefixes trimmed pres =
      some ((pres.findSome? (Label.stripVolume trimmed)).getD trimmed) := by
  induction pres with
  | nil => rfl
  | cons pre pres ih =>
    rw [stripPrefixes, stripVolume_eq, List.findSome?_cons]
    cases Label.stripVolume trimmed pre with
    | none => exact ih
    | some afterNumber => rfl

theorem stripVolumePrefix_eq (name : String) :
    stripVolumePrefix name = some (Label.stripVolumePrefix name) :=
  stripPrefixes_eq (trimStart name.toList) prefixes

/-- What the byte behind a beginning says of the next character. -/
theorem exists_byte (xs : List Char) (c : Char) (ys : List Char) :
    ∃ b, (utf8 (xs ++ c :: ys))[size xs]? = some b ∧ isAsciiDigit b = c.isDigit ∧
      (b == 46) = decide (c = '.') := by
  obtain ⟨b, hb, hdigit⟩ := Option.map_eq_some_iff.mp
    (isDigit_test.map_getElem?_utf8 xs (c :: ys))
  have hpoint := point_test.map_getElem?_utf8 xs (c :: ys)
  rw [hb] at hpoint
  exact ⟨b, hb, hdigit, Option.some.inj hpoint⟩

/-- A round of the loop at the end of a beginning. -/
theorem scan_cons (xs : List Char) (c : Char) (ys : List Char) (seenDot : Bool) :
    scan (utf8 (xs ++ c :: ys)) (size xs) seenDot =
      if c.isDigit = true then scan (utf8 (xs ++ c :: ys)) (size (xs ++ [c])) seenDot
      else if (decide (c = '.') && !seenDot && ys.head?.any Char.isDigit) = true then
        scan (utf8 (xs ++ c :: ys)) (size (xs ++ [c])) true
      else some (size xs) := by
  have hinside : size xs < (utf8 (xs ++ c :: ys)).length :=
    size_lt_length_iff.mpr (List.cons_ne_nil _ _)
  obtain ⟨b, hb, hdigit, hpoint⟩ := exists_byte xs c ys
  have hnext : c.utf8Size = 1 → size xs + 1 = size (xs ++ [c]) := by
    intro hone
    rw [size_append, size_cons, size_nil, hone]
  rw [scan, dif_pos hinside, hb]
  simp only [Option.bind_eq_bind, Option.bind_some, hdigit, hpoint]
  by_cases hc : c.isDigit = true
  · rw [if_pos hc, if_pos hc, hnext (isDigit_test.utf8Size_of_pos hc)]
  · rw [if_neg hc, if_neg hc]
    by_cases hdot : (decide (c = '.') && !seenDot) = true
    · obtain ⟨hpt, -⟩ := Bool.and_eq_true_iff.mp hdot
      rw [hdot, Bool.true_and, Bool.true_and, hnext (point_test.utf8Size_of_pos hpt)]
      cases ys with
      | nil =>
        have hend : ¬size (xs ++ [c]) < (utf8 (xs ++ [c])).length := lt_irrefl _
        rw [decide_eq_false hend]
        rfl
      | cons d ys =>
        -- the byte behind the point is of the next character
        have hmove : xs ++ c :: d :: ys = (xs ++ [c]) ++ d :: ys := by
          rw [List.append_assoc, List.singleton_append]
        obtain ⟨b', hb', hdigit', -⟩ := exists_byte (xs ++ [c]) d ys
        have hinside' : size (xs ++ [c]) < (utf8 (xs ++ c :: d :: ys)).length :=
          hmove ▸ size_lt_length_iff.mpr (List.cons_ne_nil _ _)
        rw [← hmove] at hb'
        rw [decide_eq_true hinside', if_pos rfl, hb', Option.bind_some, hdigit']
        rfl
    · rw [Bool.not_eq_true] at hdot
      rw [hdot, Bool.false_and, Bool.false_and]
      rfl

/-- The loop goes from the end of a beginning to the end of the number behind it. -/
theorem scan_eq (xs ys : List Char) (seenDot : Bool) :
    scan (utf8 (xs ++ ys)) (size xs) seenDot = some (size (xs ++ takeNumber seenDot ys)) := by
  induction ys generalizing xs seenDot with
  | nil =>
    have hend : ¬size xs < (utf8 (xs ++ [])).length := fun h => size_lt_length_iff.mp h rfl
    rw [scan, dif_neg hend, takeNumber, List.append_nil]
    rfl
  | cons c ys ih =>
    have hgo : ∀ seen, scan (utf8 (xs ++ c :: ys)) (size (xs ++ [c])) seen =
        some (size (xs ++ c :: takeNumber seen ys)) := by
      intro seen
      have hmove : ∀ zs : List Char, xs ++ c :: zs = (xs ++ [c]) ++ zs := by
        intro zs
        rw [List.append_assoc, List.singleton_append]
      rw [hmove ys, ih, ← hmove]
    rw [scan_cons, takeNumber, hgo, hgo]
    split
    · rfl
    · split
      · rfl
      · rw [List.append_nil]

theorem takeNumber_prefix (seenDot : Bool) (cs : List Char) : takeNumber seenDot cs <+: cs := by
  induction cs generalizing seenDot with
  | nil => exact List.prefix_rfl
  | cons c cs ih =>
    unfold takeNumber
    split
    · exact List.cons_prefix_cons.mpr ⟨rfl, ih _⟩
    · split
      · exact List.cons_prefix_cons.mpr ⟨rfl, ih _⟩
      · exact List.nil_prefix

/-- The number in a text: from the first digit on. -/
def numberIn {ν : Type} (parse : String → Option ν) (cs : List Char) : Option ν :=
  let rest := cs.dropWhile fun c => !c.isDigit
  if rest = [] then none else parse (String.ofList (takeNumber false rest))

theorem dropWhile_eq_nil_iff {cs : List Char} :
    (cs.dropWhile fun c => !c.isDigit) = [] ↔ ∀ c ∈ cs, c.isDigit = false := by
  simp only [List.dropWhile_eq_nil_iff, Bool.not_eq_true']

theorem dropWhile_ne_nil {cs : List Char} (h : ∃ c ∈ cs, c.isDigit = true) :
    (cs.dropWhile fun c => !c.isDigit) ≠ [] := by
  obtain ⟨c, hc, hdigit⟩ := h
  intro hnil
  rw [dropWhile_eq_nil_iff.mp hnil c hc] at hdigit
  cases hdigit

/-- The search of the bytes never panics, and finds what a search of the characters does. -/
theorem firstNumber_eq {ν : Type} (parse : String → Option ν) (name : String) :
    firstNumber parse name = some (numberIn parse (Label.stripVolumePrefix name)) := by
  rw [firstNumber, stripVolumePrefix_eq, Option.bind_eq_bind, Option.bind_some]
  generalize Label.stripVolumePrefix name = cleaned
  simp only [numberIn, isDigit_test.findIdx?_utf8]
  have hsplit : (cleaned.takeWhile fun c => !c.isDigit) ++ (cleaned.dropWhile fun c => !c.isDigit) =
      cleaned := List.takeWhile_append_dropWhile
  by_cases hany : cleaned.any Char.isDigit = true
  · have hsome := dropWhile_ne_nil (List.any_eq_true.mp hany)
    have hscan := scan_eq (cleaned.takeWhile fun c => !c.isDigit)
      (cleaned.dropWhile fun c => !c.isDigit) false
    obtain ⟨after, hafter⟩ := takeNumber_prefix false (cleaned.dropWhile fun c => !c.isDigit)
    have hslice := slice_append (cleaned.takeWhile fun c => !c.isDigit)
      (takeNumber false (cleaned.dropWhile fun c => !c.isDigit)) after
    rw [hsplit] at hscan
    rw [List.append_assoc, hafter, hsplit] at hslice
    rw [if_pos hany, if_neg hsome]
    simp only [hscan, Option.bind_eq_bind, Option.bind_some, hslice]
    rfl
  · have hnone : (cleaned.dropWhile fun c => !c.isDigit) = [] := by
      rw [dropWhile_eq_nil_iff]
      intro c hc
      exact Bool.eq_false_iff.mpr fun hdigit => hany (List.any_eq_true.mpr ⟨c, hc, hdigit⟩)
    rw [if_neg hany, if_pos hnone]
    rfl

end Bytes

/-! ## What a name says

A volume with its number, and then a chapter with its own. -/

/-- A number in digits, with one decimal part or none. -/
structure Numeral where
  whole : List Char
  frac : List Char
  nonempty : whole ≠ []
  wholeDigits : ∀ c ∈ whole, c.isDigit = true
  fracDigits : ∀ c ∈ frac, c.isDigit = true

/-- The characters of a numeral. -/
def Numeral.text (n : Numeral) : List Char := Decimal.plain n.whole n.frac

/-- As a text, which is what the parser is called with. -/
def Numeral.str (n : Numeral) : String := String.ofList n.text

/-- What comes after the number goes on with it. -/
def Numeral.Extends (n : Numeral) (after : List Char) : Prop :=
  after.head?.any Char.isDigit = true ∨
    (n.frac = [] ∧ ∃ rest, after = '.' :: rest ∧ rest.head?.any Char.isDigit = true)

/-- The first run of digits, with at most one point inside, as long as it gets. -/
def IsFirst (cs : List Char) (n : Numeral) : Prop :=
  ∃ before after, cs = before ++ n.text ++ after ∧ (∀ c ∈ before, c.isDigit = false) ∧
    ¬n.Extends after

/-- The tokens of a volume. -/
inductive VolumeToken
  | volume | volPoint | vol | v
deriving DecidableEq, Repr

/-- `Volume`, `Vol.`, `Vol` and `V`, in lower case. -/
def VolumeToken.text : VolumeToken → String
  | volume => "volume" | volPoint => "vol." | vol => "vol" | v => "v"

/-- A text begins with the token, in any case, and a digit, separators in between or none. -/
def BeginsWith (token : String) (cs : List Char) : Prop :=
  ∃ spelled seps d rest, cs = spelled ++ (seps ++ d :: rest) ∧
    spelled.map Char.toLower = token.toList ∧ (∀ c ∈ seps, c ∈ separators) ∧ d.isDigit = true

/-- The name begins with a volume, after its blanks. -/
def LeadsWithVolume (name : String) : Prop :=
  ∃ token : VolumeToken, BeginsWith token.text (trimStart name.toList)

/-- A name that says the volume and then the chapter. -/
structure VolumeName where
  blank : List Char
  isBlank : ∀ c ∈ blank, Label.isWhitespace c = true
  token : VolumeToken
  spelled : List Char
  isSpelled : spelled.map Char.toLower = token.text.toList
  seps : List Char
  areSeps : ∀ c ∈ seps, c ∈ separators
  volume : Numeral
  /-- Separators, or any other text without a digit. -/
  between : List Char
  noDigit : ∀ c ∈ between, c.isDigit = false
  chapter : Numeral
  tail : List Char
  ends : ¬chapter.Extends tail

/-- From `Ch.` on, which is where the number of the chapter is to be found. -/
def VolumeName.chapterPart (n : VolumeName) : List Char :=
  "Ch.".toList ++ n.chapter.text ++ n.tail

/-- The name without its blanks. -/
def VolumeName.trimmed (n : VolumeName) : List Char :=
  n.spelled ++ (n.seps ++ (n.volume.text ++ (n.between ++ n.chapterPart)))

/-- The whole name: blanks, the volume, and the chapter behind it. -/
def VolumeName.name (n : VolumeName) : String := String.ofList (n.blank ++ n.trimmed)

/-- The token is one of those that are looked for: a `V` has a point behind it. -/
def VolumeName.Recognised (n : VolumeName) : Prop :=
  n.token = .v → n.seps.head? = some '.'

/-- What `first_number` is to find: the number of the chapter behind the one of the volume, the
first number of a name without a volume, and some answer for every name. -/
structure Reads {ν : Type} (parse : String → Option ν) (n : VolumeName) (name : String) :
    Prop where
  chapter : firstNumber parse n.name = some (parse n.chapter.str)
  plain : ¬LeadsWithVolume name →
    (∃ m, IsFirst name.toList m ∧ firstNumber parse name = some (parse m.str)) ∨
      (∀ c ∈ name.toList, c.isDigit = false) ∧ firstNumber parse name = some none
  total : (firstNumber parse name).isSome = true

/-! ## The first number of a text

Digits, and behind a point more of them. -/

section First

variable {n m : Numeral} {cs before after : List Char}

theorem takeNumber_digits {ds : List Char} (h : ∀ c ∈ ds, c.isDigit = true) (seenDot : Bool)
    (cs : List Char) : takeNumber seenDot (ds ++ cs) = ds ++ takeNumber seenDot cs := by
  induction ds with
  | nil => rfl
  | cons d ds ih =>
    rw [List.cons_append, takeNumber, if_pos (h d List.mem_cons_self),
      ih fun c hc => h c (List.mem_cons_of_mem _ hc), List.cons_append]

/-- The loop stops where nothing goes on with the number. -/
theorem takeNumber_stop {seenDot : Bool} (hdigit : ¬cs.head?.any Char.isDigit = true)
    (hdot : seenDot = false →
      ¬∃ rest, cs = '.' :: rest ∧ rest.head?.any Char.isDigit = true) :
    takeNumber seenDot cs = [] := by
  cases cs with
  | nil => rfl
  | cons c cs =>
    have hpoint : ¬(decide (c = '.') && !seenDot && cs.head?.any Char.isDigit) = true := by
      intro h
      rw [Bool.and_eq_true, Bool.and_eq_true, decide_eq_true_eq, Bool.not_eq_true'] at h
      obtain ⟨⟨rfl, hseen⟩, hnext⟩ := h
      exact hdot hseen ⟨cs, rfl, hnext⟩
    have hc : ¬c.isDigit = true := hdigit
    rw [takeNumber, if_neg hc, if_neg hpoint]

theorem takeNumber_text (h : ¬n.Extends after) :
    takeNumber false (n.text ++ after) = n.text := by
  obtain ⟨hdigit, hdot⟩ := not_or.mp h
  rw [Numeral.text, Decimal.plain]
  split
  case isTrue hfrac =>
    rw [takeNumber_digits n.wholeDigits, takeNumber_stop hdigit fun _ hrest => hdot ⟨hfrac, hrest⟩,
      List.append_nil]
  case isFalse hfrac =>
    obtain ⟨d, ds, hcons⟩ := List.exists_cons_of_ne_nil hfrac
    have hd : d.isDigit = true := n.fracDigits d (hcons ▸ List.mem_cons_self)
    have hnext : (n.frac ++ after).head?.any Char.isDigit = true := by
      rw [hcons]
      exact hd
    have hstop : takeNumber true after = [] := takeNumber_stop hdigit fun h => by cases h
    rw [List.append_assoc, takeNumber_digits n.wholeDigits, List.cons_append, takeNumber,
      if_neg (by decide), hnext, if_pos (by decide), takeNumber_digits n.fracDigits, hstop,
      List.append_nil]

theorem Numeral.exists_cons (n : Numeral) :
    ∃ d rest, n.text = d :: rest ∧ d.isDigit = true := by
  obtain ⟨d, ds, hcons⟩ := List.exists_cons_of_ne_nil n.nonempty
  have hd : d.isDigit = true := n.wholeDigits d (hcons ▸ List.mem_cons_self)
  rw [Numeral.text, Decimal.plain, hcons]
  split
  · exact ⟨d, ds, rfl, hd⟩
  · exact ⟨d, _, rfl, hd⟩

/-- A text without a digit is skipped. -/
theorem dropWhile_append_digit (hbefore : ∀ c ∈ before, c.isDigit = false) {d : Char}
    (hd : d.isDigit = true) (cs : List Char) :
    (before ++ d :: cs).dropWhile (fun c => !c.isDigit) = d :: cs := by
  rw [List.dropWhile_append_of_pos fun c hc => by rw [hbefore c hc]; rfl,
    List.dropWhile_cons_of_neg (by simp [hd])]

/-- The search reads the first number. -/
theorem numberIn_of_isFirst {ν : Type} (parse : String → Option ν) (h : IsFirst cs n) :
    numberIn parse cs = parse n.str := by
  obtain ⟨before, after, rfl, hbefore, hends⟩ := h
  obtain ⟨d, rest, hcons, hd⟩ := n.exists_cons
  have hdrop : (before ++ n.text ++ after).dropWhile (fun c => !c.isDigit) = n.text ++ after := by
    rw [List.append_assoc, hcons, List.cons_append, dropWhile_append_digit hbefore hd]
  have hsome : n.text ++ after ≠ [] := by
    rw [hcons]
    exact List.cons_ne_nil _ _
  simp only [numberIn, hdrop, if_neg hsome, takeNumber_text hends]
  rfl

/-- There is one first number. -/
theorem IsFirst.unique (hm : IsFirst cs m) (hn : IsFirst cs n) : m.text = n.text := by
  have hsame : some m.str = some n.str :=
    (numberIn_of_isFirst some hm).symm.trans (numberIn_of_isFirst some hn)
  exact String.ofList_inj.mp (Option.some.inj hsame)

/-- A number stands where a digit does: its digits, and behind a point that a digit follows
more of them. -/
theorem exists_numeral {d : Char} (hd : d.isDigit = true) (cs : List Char) :
    ∃ (n : Numeral) (after : List Char), d :: cs = n.text ++ after ∧ ¬n.Extends after := by
  have hne : (d :: cs).takeWhile Char.isDigit ≠ [] := by
    rw [List.takeWhile_cons_of_pos hd]
    exact List.cons_ne_nil _ _
  have hdigits : ∀ xs : List Char, ∀ c ∈ xs.takeWhile Char.isDigit, c.isDigit = true :=
    fun xs c hc => List.mem_takeWhile_imp hc
  have hstop : ∀ xs : List Char, ¬(xs.dropWhile Char.isDigit).head?.any Char.isDigit = true := by
    intro xs h
    obtain ⟨c, hc, hdigit⟩ := (Option.any_eq_true _ _).mp h
    have hnot := List.head?_dropWhile_not Char.isDigit xs
    rw [hc] at hnot
    have hno : c.isDigit = false := hnot
    rw [hdigit] at hno
    cases hno
  by_cases hpoint : ∃ rest, (d :: cs).dropWhile Char.isDigit = '.' :: rest ∧
      rest.head?.any Char.isDigit = true
  · obtain ⟨rest, hrest, hnext⟩ := hpoint
    have hfrac : rest.takeWhile Char.isDigit ≠ [] := by
      cases rest with
      | nil => cases hnext
      | cons e rest =>
        have he : e.isDigit = true := hnext
        rw [List.takeWhile_cons_of_pos he]
        exact List.cons_ne_nil _ _
    refine ⟨⟨_, _, hne, hdigits _, hdigits rest⟩, rest.dropWhile Char.isDigit, ?_, ?_⟩
    · show _ = Decimal.plain _ _ ++ _
      rw [Decimal.plain, if_neg hfrac, List.append_assoc, List.cons_append,
        List.takeWhile_append_dropWhile, ← hrest, List.takeWhile_append_dropWhile]
    · rintro (hdigit | ⟨hnil, -⟩)
      · exact hstop rest hdigit
      · exact hfrac hnil
  · have hnofrac : ∀ c ∈ ([] : List Char), c.isDigit = true := by simp
    refine ⟨⟨_, [], hne, hdigits _, hnofrac⟩, (d :: cs).dropWhile Char.isDigit, ?_, ?_⟩
    · show _ = Decimal.plain _ _ ++ _
      rw [Decimal.plain, if_pos rfl, List.takeWhile_append_dropWhile]
    · rintro (hdigit | ⟨-, hrest⟩)
      · exact hstop _ hdigit
      · exact hpoint hrest

theorem exists_isFirst (h : ∃ c ∈ cs, c.isDigit = true) : ∃ n, IsFirst cs n := by
  obtain ⟨d, rest, hcons⟩ := List.exists_cons_of_ne_nil (dropWhile_ne_nil h)
  have hd : d.isDigit = true := by
    have hnot := List.head?_dropWhile_not (fun c : Char => !c.isDigit) cs
    rw [hcons] at hnot
    simpa using hnot
  obtain ⟨n, after, htext, hends⟩ := exists_numeral hd rest
  refine ⟨n, cs.takeWhile (fun c => !c.isDigit), after, ?_, ?_, hends⟩
  · rw [List.append_assoc, ← htext, ← hcons, List.takeWhile_append_dropWhile]
  · intro c hc
    have hno := List.mem_takeWhile_imp hc
    simpa using hno

/-- Nothing in front of the digits matters. -/
theorem numberIn_trimStart {ν : Type} (parse : String → Option ν) (cs : List Char) :
    numberIn parse (trimStart cs) = numberIn parse cs := by
  have hsplit : cs.takeWhile Label.isWhitespace ++ trimStart cs = cs :=
    List.takeWhile_append_dropWhile
  have hskip : ∀ c ∈ cs.takeWhile Label.isWhitespace, (!c.isDigit) = true := by
    intro c hc
    have hblank : Label.isWhitespace c = true := List.mem_takeWhile_imp hc
    rw [Bool.not_eq_true', ← Bool.not_eq_true]
    intro hdigit
    rw [ExactLabel.isWhitespace_of_isDigit hdigit] at hblank
    cases hblank
  have hdrop : (cs.takeWhile Label.isWhitespace ++ trimStart cs).dropWhile (fun c => !c.isDigit) =
      (trimStart cs).dropWhile fun c => !c.isDigit := List.dropWhile_append_of_pos hskip
  rw [hsplit] at hdrop
  simp only [numberIn, hdrop]

theorem numberIn_eq_none {ν : Type} (parse : String → Option ν)
    (h : ∀ c ∈ cs, c.isDigit = false) : numberIn parse cs = none := by
  simp only [numberIn, dropWhile_eq_nil_iff.mpr h, if_true]

end First

/-! ## The volume in front

Its prefixes, in any case. -/

section Volume

variable {cs rest spelled seps : List Char} {c : Char} {pre name : String}

theorem toLower_of_lt (h : c.toNat < 65) : c.toLower = c := by
  rcases toLower_cases c with hsame | ⟨hlo, -, -⟩
  · exact hsame
  · omega

theorem lt_of_isDigit (h : c.isDigit = true) : c.toNat < 58 := by
  have hrange : 48 ≤ c.toNat ∧ c.toNat ≤ 57 := Char.isDigit_iff_toNat.mp h
  omega

theorem lt_of_mem_separators (h : c ∈ separators) : c.toNat < 65 ∧ c.isDigit = false := by
  have hall : (separators.all fun c => decide (c.toNat < 65 ∧ c.isDigit = false)) = true := by
    decide
  exact of_decide_eq_true (List.all_eq_true.mp hall c h)

theorem isDigit_of_mem_prefixes (h : pre ∈ prefixes) (hc : c ∈ pre.toList) :
    c.isDigit = false := by
  have hall : (prefixes.all fun pre => pre.toList.all fun c => !c.isDigit) = true := by decide
  have hpre := List.all_eq_true.mp hall pre h
  rw [← Bool.not_eq_true']
  exact List.all_eq_true.mp hpre c hc

/-- There is no digit in a token, however it is spelled, and none in the separators. -/
theorem noDigit_front (hpre : ∀ c ∈ pre.toList, c.isDigit = false)
    (hspelled : spelled.map Char.toLower = pre.toList) (hseps : ∀ c ∈ seps, c ∈ separators) :
    ∀ c ∈ spelled ++ seps, c.isDigit = false := by
  intro c hc
  rcases List.mem_append.mp hc with hmem | hmem
  · have hlower : c.toLower ∈ pre.toList := hspelled ▸ List.mem_map_of_mem hmem
    rw [← Bool.not_eq_true]
    intro hdigit
    have hlt := lt_of_isDigit hdigit
    rw [toLower_of_lt (by omega)] at hlower
    rw [hpre c hlower] at hdigit
    cases hdigit
  · exact (lt_of_mem_separators (hseps c hmem)).2

/-- What is left of a text behind its first number and the points after it. -/
def afterFirst (cs : List Char) : List Char :=
  (cs.dropWhile fun c => !c.isDigit).dropWhile fun c => c.isDigit || c = '.'

/-- A volume is cut off with all that stands in front of its number. -/
theorem stripVolume_of_beginsWith (hpre : ∀ c ∈ pre.toList, c.isDigit = false)
    (h : BeginsWith pre cs) : Label.stripVolume cs pre = some (afterFirst cs) := by
  obtain ⟨spelled, seps, d, rest, rfl, hspelled, hseps, hd⟩ := h
  have hdlower : d.toLower = d := toLower_of_lt (by have := lt_of_isDigit hd; omega)
  have hlowered : seps.map Char.toLower = seps := by
    rw [List.map_congr_left fun c hc => toLower_of_lt (lt_of_mem_separators (hseps c hc)).1,
      List.map_id']
  have hcopy : (spelled ++ (seps ++ d :: rest)).map Char.toLower =
      pre.toList ++ (seps ++ d :: rest.map Char.toLower) := by
    rw [List.map_append, List.map_append, List.map_cons, hspelled, hlowered, hdlower]
  have hafter := afterStart_eq_some_iff.mpr hcopy
  have hskipped : (seps ++ d :: rest.map Char.toLower).dropWhile
      [' ', '.', '#', ':', '-'].contains = d :: rest.map Char.toLower := by
    have hno : ¬separators.contains d = true := by
      intro hmem
      rw [(lt_of_mem_separators (List.contains_iff_mem.mp hmem)).2] at hd
      cases hd
    show (seps ++ d :: rest.map Char.toLower).dropWhile separators.contains = _
    rw [List.dropWhile_append_of_pos fun c hc => List.contains_iff_mem.mpr (hseps c hc),
      List.dropWhile_cons_of_neg hno]
  have hconsumed : (spelled ++ (seps ++ d :: rest)).length - (d :: rest.map Char.toLower).length =
      (spelled ++ seps).length := by
    simp only [List.length_append, List.length_cons, List.length_map]
    omega
  have hfront := noDigit_front hpre hspelled hseps
  have hdrop : (spelled ++ (seps ++ d :: rest)).drop (spelled ++ seps).length = d :: rest := by
    rw [← List.append_assoc, List.drop_left]
  have hfirst : (spelled ++ (seps ++ d :: rest)).dropWhile (fun c => !c.isDigit) = d :: rest := by
    rw [← List.append_assoc, dropWhile_append_digit hfront hd]
  have hhead : (d :: rest.map Char.toLower).head?.any Char.isDigit = true := hd
  rw [Label.stripVolume, hafter]
  simp only [Option.bind_some, hskipped, if_pos hhead, hconsumed, hdrop, afterFirst, hfirst]

/-- Only a volume is cut off. -/
theorem beginsWith_of_stripVolume (h : Label.stripVolume cs pre = some rest) :
    BeginsWith pre cs := by
  obtain ⟨lowered, hafter, hcut⟩ := Option.bind_eq_some_iff.mp h
  obtain ⟨hdigit, -⟩ := Option.ite_none_right_eq_some.mp hcut
  obtain ⟨spelled, ys, rfl, hspelled, hys⟩ :=
    List.map_eq_append_iff.mp (afterStart_eq_some_iff.mp hafter)
  have hsplit : ys.map Char.toLower =
      lowered.takeWhile separators.contains ++ lowered.dropWhile separators.contains := by
    rw [hys, List.takeWhile_append_dropWhile]
  obtain ⟨seps, zs, rfl, hseps, hzs⟩ := List.map_eq_append_iff.mp hsplit
  cases zs with
  | nil =>
    have hnil : lowered.dropWhile [' ', '.', '#', ':', '-'].contains = [] := hzs.symm
    rw [hnil] at hdigit
    cases hdigit
  | cons d rest =>
    have hcons : lowered.dropWhile [' ', '.', '#', ':', '-'].contains =
        d.toLower :: rest.map Char.toLower := hzs.symm
    rw [hcons] at hdigit
    have hlower : d.toLower.isDigit = true := hdigit
    have hsame : d = d.toLower := eq_of_toLower rfl (by have := lt_of_isDigit hlower; omega)
    refine ⟨spelled, seps, d, rest, rfl, hspelled, fun c hc => ?_, by rw [hsame, hlower]⟩
    have hmem : c.toLower ∈ lowered.takeWhile separators.contains :=
      hseps ▸ List.mem_map_of_mem hc
    have hsep : c.toLower ∈ separators :=
      List.contains_iff_mem.mp (List.mem_takeWhile_imp hmem)
    have hsame : c = c.toLower :=
      eq_of_toLower rfl (by have := (lt_of_mem_separators hsep).1; omega)
    rw [hsame]
    exact hsep

/-- Which of the prefixes finds the volume makes no difference. -/
theorem stripVolumePrefix_of_beginsWith (h : pre ∈ prefixes)
    (hbegins : BeginsWith pre (trimStart name.toList)) :
    Label.stripVolumePrefix name = afterFirst (trimStart name.toList) := by
  show (prefixes.findSome? (Label.stripVolume (trimStart name.toList))).getD _ = _
  cases hfound : prefixes.findSome? (Label.stripVolume (trimStart name.toList)) with
  | none =>
    have hnone := List.findSome?_eq_none_iff.mp hfound pre h
    rw [stripVolume_of_beginsWith (fun c => isDigit_of_mem_prefixes h) hbegins] at hnone
    cases hnone
  | some rest =>
    obtain ⟨found, hmem, hcut⟩ := List.exists_of_findSome?_eq_some hfound
    rw [stripVolume_of_beginsWith (fun c => isDigit_of_mem_prefixes hmem)
      (beginsWith_of_stripVolume hcut)] at hcut
    exact (Option.some.inj hcut).symm

theorem stripVolumePrefix_of_not (h : ∀ pre ∈ prefixes, ¬BeginsWith pre (trimStart name.toList)) :
    Label.stripVolumePrefix name = trimStart name.toList := by
  have hnone : prefixes.findSome? (Label.stripVolume (trimStart name.toList)) = none := by
    rw [List.findSome?_eq_none_iff]
    intro pre hpre
    rw [Option.eq_none_iff_forall_not_mem]
    exact fun rest hcut => h pre hpre (beginsWith_of_stripVolume hcut)
  show (prefixes.findSome? (Label.stripVolume (trimStart name.toList))).getD _ = _
  rw [hnone]
  rfl

/-- A `V` with a point is a `V` as well. -/
theorem beginsWith_v (h : BeginsWith "v." cs) : BeginsWith "v" cs := by
  obtain ⟨spelled, seps, d, rest, rfl, hspelled, hseps, hd⟩ := h
  obtain ⟨a, spelled, rfl, ha, hpoint⟩ := List.map_eq_cons_iff.mp hspelled
  obtain ⟨b, spelled, rfl, hb, hnil⟩ := List.map_eq_cons_iff.mp hpoint
  cases List.map_eq_nil_iff.mp hnil
  cases eq_of_toLower hb (by decide)
  refine ⟨[a], '.' :: seps, d, rest, rfl, by rw [List.map_singleton, ha]; rfl, ?_, hd⟩
  intro c hc
  rcases List.mem_cons.mp hc with rfl | hmem
  · decide
  · exact hseps c hmem

/-- The second letter is an `o`, or it is the point. -/
theorem second_of_beginsWith {a b : Char} (h : pre ∈ prefixes)
    (hbegins : BeginsWith pre (a :: b :: rest)) : b.toLower = 'o' ∨ b.toLower = '.' := by
  have hpre : ∃ x more, pre.toList = 'v' :: x :: more ∧ (x = 'o' ∨ x = '.') := by
    simp only [prefixes, List.mem_cons, List.not_mem_nil, or_false] at h
    rcases h with rfl | rfl | rfl | rfl
    · exact ⟨'o', _, rfl, Or.inl rfl⟩
    · exact ⟨'o', _, rfl, Or.inl rfl⟩
    · exact ⟨'o', _, rfl, Or.inl rfl⟩
    · exact ⟨'.', _, rfl, Or.inr rfl⟩
  obtain ⟨x, more, hcons, hx⟩ := hpre
  obtain ⟨spelled, seps, d, digits, hcs, hspelled, -, -⟩ := hbegins
  obtain ⟨a', spelled, rfl, -, htail⟩ := List.map_eq_cons_iff.mp (hspelled.trans hcons)
  obtain ⟨b', spelled, rfl, hb, -⟩ := List.map_eq_cons_iff.mp htail
  have hsame : b = b' := (List.cons.inj (List.cons.inj hcs).2).1
  rw [hsame, hb]
  exact hx

/-- What is looked for is a volume. -/
theorem leadsWithVolume_of_mem (h : pre ∈ prefixes)
    (hbegins : BeginsWith pre (trimStart name.toList)) : LeadsWithVolume name := by
  simp only [prefixes, List.mem_cons, List.not_mem_nil, or_false] at h
  rcases h with rfl | rfl | rfl | rfl
  · exact ⟨.volume, hbegins⟩
  · exact ⟨.volPoint, hbegins⟩
  · exact ⟨.vol, hbegins⟩
  · exact ⟨.v, beginsWith_v hbegins⟩

end Volume

/-! ## The number that is found

With and without a volume. -/

section Found

variable {ν : Type} {parse : String → Option ν} {name : String}

theorem firstNumber_isSome (parse : String → Option ν) (name : String) :
    (firstNumber parse name).isSome = true := by
  rw [firstNumber_eq]
  rfl

/-- Without a volume it is the first number of the name, or there is none. -/
theorem firstNumber_plain (h : ¬LeadsWithVolume name) :
    (∃ m, IsFirst name.toList m ∧ firstNumber parse name = some (parse m.str)) ∨
      (∀ c ∈ name.toList, c.isDigit = false) ∧ firstNumber parse name = some none := by
  have hstrip : Label.stripVolumePrefix name = trimStart name.toList :=
    stripVolumePrefix_of_not fun pre hpre hbegins => h (leadsWithVolume_of_mem hpre hbegins)
  rw [firstNumber_eq, hstrip, numberIn_trimStart]
  by_cases hany : ∃ c ∈ name.toList, c.isDigit = true
  · obtain ⟨m, hm⟩ := exists_isFirst hany
    exact Or.inl ⟨m, hm, by rw [numberIn_of_isFirst parse hm]⟩
  · have hnone : ∀ c ∈ name.toList, c.isDigit = false :=
      fun c hc => Bool.eq_false_iff.mpr fun hdigit => hany ⟨c, hc, hdigit⟩
    exact Or.inr ⟨hnone, by rw [numberIn_eq_none parse hnone]⟩

end Found

theorem Numeral.mem_text {n : Numeral} {c : Char} (h : c ∈ n.text) :
    (c.isDigit || c = '.') = true := by
  rw [Bool.or_eq_true, decide_eq_true_eq]
  rw [Numeral.text, Decimal.plain] at h
  split at h
  · exact Or.inl (n.wholeDigits c h)
  · rcases List.mem_append.mp h with hmem | hmem
    · exact Or.inl (n.wholeDigits c hmem)
    · rcases List.mem_cons.mp hmem with rfl | hfrac
      · exact Or.inr rfl
      · exact Or.inl (n.fracDigits c hfrac)

theorem not_head_isDigit {between rest : List Char} {c : Char}
    (hbetween : ∀ c ∈ between, c.isDigit = false) (hc : c.isDigit = false) :
    ¬(between ++ c :: rest).head?.any Char.isDigit = true := by
  intro h
  cases between with
  | nil =>
    have hdigit : c.isDigit = true := h
    rw [hc] at hdigit
    cases hdigit
  | cons b between =>
    have hdigit : b.isDigit = true := h
    rw [hbetween b List.mem_cons_self] at hdigit
    cases hdigit

/-- A number ends where no digit comes before the next letter. -/
theorem Numeral.not_extends {n : Numeral} {between rest : List Char} {c : Char}
    (hbetween : ∀ c ∈ between, c.isDigit = false) (hc : c.isDigit = false)
    (hpoint : c ≠ '.') : ¬n.Extends (between ++ c :: rest) := by
  rintro (hdigit | ⟨-, more, hmore, hdigit⟩)
  · exact not_head_isDigit hbetween hc hdigit
  · cases between with
    | nil => exact hpoint (List.cons.inj hmore).1
    | cons b between =>
      rw [← (List.cons.inj hmore).2] at hdigit
      exact not_head_isDigit (fun c hmem => hbetween c (List.mem_cons_of_mem _ hmem)) hc hdigit

namespace VolumeName

variable {ν : Type} (n : VolumeName)

/-- A token begins with a `V`. -/
theorem exists_spelled : ∃ a rest, n.spelled = a :: rest ∧ a.toLower = 'v' := by
  have hcons : ∃ rest, n.token.text.toList = 'v' :: rest := by
    cases n.token <;> exact ⟨_, rfl⟩
  obtain ⟨rest, hrest⟩ := hcons
  obtain ⟨a, spelled, hspelled, ha, -⟩ := List.map_eq_cons_iff.mp (n.isSpelled.trans hrest)
  exact ⟨a, spelled, hspelled, ha⟩

theorem trimStart_name : trimStart n.name.toList = n.trimmed := by
  obtain ⟨a, rest, hspelled, ha⟩ := n.exists_spelled
  have hprinted : Label.isWhitespace a = false := by
    rcases toLower_cases a with hsame | ⟨hlo, hhi, -⟩
    · rw [← hsame, ha]
      decide
    · exact ExactLabel.isWhitespace_of_printed (by omega) (by omega)
  have hhead : ¬Label.isWhitespace a = true := by
    rw [hprinted]
    decide
  rw [name, String.toList_ofList, trimStart, List.dropWhile_append_of_pos n.isBlank, trimmed,
    hspelled, List.cons_append, List.dropWhile_cons_of_neg hhead]

theorem front_noDigit : ∀ c ∈ n.spelled ++ n.seps, c.isDigit = false := by
  have htoken : ∀ c ∈ n.token.text.toList, c.isDigit = false := by
    have hall : (n.token.text.toList.all fun c => !c.isDigit) = true := by
      cases n.token <;> decide
    intro c hc
    rw [← Bool.not_eq_true']
    exact List.all_eq_true.mp hall c hc
  exact noDigit_front htoken n.isSpelled n.areSeps

theorem trimmed_eq :
    n.trimmed = n.spelled ++ n.seps ++ n.volume.text ++ (n.between ++ n.chapterPart) := by
  simp only [trimmed, List.append_assoc]

/-- One of the prefixes is there. -/
theorem exists_prefix (h : n.Recognised) : ∃ pre ∈ prefixes, BeginsWith pre n.trimmed := by
  obtain ⟨d, digits, hdigits, hd⟩ := n.volume.exists_cons
  have hbegins : BeginsWith n.token.text n.trimmed := by
    refine ⟨n.spelled, n.seps, d, digits ++ (n.between ++ n.chapterPart), ?_, n.isSpelled,
      n.areSeps, hd⟩
    rw [trimmed, hdigits, List.cons_append]
  cases htoken : n.token with
  | volume =>
    rw [htoken] at hbegins
    exact ⟨"volume", by decide, hbegins⟩
  | volPoint =>
    rw [htoken] at hbegins
    exact ⟨"vol.", by decide, hbegins⟩
  | vol =>
    rw [htoken] at hbegins
    exact ⟨"vol", by decide, hbegins⟩
  | v =>
    obtain ⟨seps, hseps⟩ := List.head?_eq_some_iff.mp (h htoken)
    refine ⟨"v.", by decide, n.spelled ++ ['.'], seps, d,
      digits ++ (n.between ++ n.chapterPart), ?_, ?_, ?_, hd⟩
    · rw [trimmed, hdigits, hseps, List.append_assoc, List.singleton_append, List.cons_append,
        List.cons_append]
    · rw [List.map_append, n.isSpelled, htoken]
      rfl
    · exact fun c hc => n.areSeps c (hseps ▸ List.mem_cons_of_mem _ hc)

/-- A `V` without a point is none of them. -/
theorem not_beginsWith (h : ¬n.Recognised) {pre : String} (hpre : pre ∈ prefixes) :
    ¬BeginsWith pre n.trimmed := by
  obtain ⟨htoken, hpoint⟩ := Classical.not_imp.mp h
  have hv : n.spelled.map Char.toLower = ['v'] := by
    rw [n.isSpelled, htoken]
    rfl
  obtain ⟨a, rest, hspelled, -, hnil⟩ := List.map_eq_cons_iff.mp hv
  cases List.map_eq_nil_iff.mp hnil
  obtain ⟨d, digits, hdigits, hd⟩ := n.volume.exists_cons
  have hsecond : ∃ b more, n.trimmed = a :: b :: more ∧ b.toNat < 65 ∧ b ≠ '.' := by
    cases hseps : n.seps with
    | nil =>
      refine ⟨d, digits ++ (n.between ++ n.chapterPart), ?_, ?_, ?_⟩
      · rw [trimmed, hspelled, hseps, hdigits]
        rfl
      · have hlt := lt_of_isDigit hd
        omega
      · rintro rfl
        cases hd
    | cons b seps =>
      refine ⟨b, seps ++ (n.volume.text ++ (n.between ++ n.chapterPart)), ?_, ?_, ?_⟩
      · rw [trimmed, hspelled, hseps]
        rfl
      · exact (lt_of_mem_separators (n.areSeps b (hseps ▸ List.mem_cons_self))).1
      · rintro rfl
        exact hpoint (by rw [hseps]; rfl)
  obtain ⟨b, more, htrimmed, hlt, hne⟩ := hsecond
  intro hbegins
  rw [htrimmed] at hbegins
  have hletter := second_of_beginsWith hpre hbegins
  rw [toLower_of_lt hlt] at hletter
  rcases hletter with rfl | rfl
  · exact absurd hlt (by decide)
  · exact hne rfl

/-- Behind the volume the chapter's number is the first. -/
theorem isFirst_afterFirst : IsFirst (afterFirst n.trimmed) n.chapter := by
  have hchapterPart : n.chapterPart = 'C' :: ("h.".toList ++ n.chapter.text ++ n.tail) := rfl
  have hkeep : n.chapterPart.dropWhile (fun c => c.isDigit || c = '.') = n.chapterPart := by
    rw [hchapterPart]
    exact List.dropWhile_cons_of_neg (by decide)
  obtain ⟨d, digits, hdigits, hd⟩ := n.volume.exists_cons
  have hfirst : n.trimmed.dropWhile (fun c => !c.isDigit) =
      n.volume.text ++ (n.between ++ n.chapterPart) := by
    rw [trimmed_eq, List.append_assoc, hdigits, List.cons_append,
      dropWhile_append_digit n.front_noDigit hd]
  have hafter : afterFirst n.trimmed =
      n.between.dropWhile (fun c => c.isDigit || c = '.') ++ n.chapterPart := by
    rw [afterFirst, hfirst, List.dropWhile_append_of_pos fun c => Numeral.mem_text,
      List.dropWhile_append, hkeep]
    split
    · rename_i hempty
      rw [List.isEmpty_iff.mp hempty, List.nil_append]
    · rfl
  refine ⟨n.between.dropWhile (fun c => c.isDigit || c = '.') ++ "Ch.".toList, n.tail, ?_, ?_,
    n.ends⟩
  · rw [hafter, chapterPart]
    simp only [List.append_assoc]
  · intro c hc
    rcases List.mem_append.mp hc with hmem | hmem
    · exact n.noDigit c ((List.dropWhile_sublist _).subset hmem)
    · have hall : ("Ch.".toList.all fun c => !c.isDigit) = true := by decide
      rw [← Bool.not_eq_true']
      exact List.all_eq_true.mp hall c hmem

/-- In the whole name the volume's is. -/
theorem isFirst_trimmed : IsFirst n.trimmed n.volume :=
  ⟨n.spelled ++ n.seps, n.between ++ n.chapterPart, n.trimmed_eq, n.front_noDigit,
    Numeral.not_extends n.noDigit (by decide) (by decide)⟩

theorem firstNumber_of_recognised (parse : String → Option ν) (h : n.Recognised) :
    firstNumber parse n.name = some (parse n.chapter.str) := by
  obtain ⟨pre, hpre, hbegins⟩ := n.exists_prefix h
  rw [← n.trimStart_name] at hbegins
  rw [firstNumber_eq, stripVolumePrefix_of_beginsWith hpre hbegins, n.trimStart_name,
    numberIn_of_isFirst parse n.isFirst_afterFirst]

theorem firstNumber_of_not_recognised (parse : String → Option ν) (h : ¬n.Recognised) :
    firstNumber parse n.name = some (parse n.volume.str) := by
  have hnot : ∀ pre ∈ prefixes, ¬BeginsWith pre (trimStart n.name.toList) := by
    intro pre hpre
    rw [n.trimStart_name]
    exact n.not_beginsWith h hpre
  rw [firstNumber_eq, stripVolumePrefix_of_not hnot, n.trimStart_name,
    numberIn_of_isFirst parse n.isFirst_trimmed]

end VolumeName

/-! ## Numbers that are read

Exactly, and by the labels. -/

/-- What a numeral says. -/
def Numeral.value (n : Numeral) : ℚ := Decimal.value n.whole n.frac

theorem parse_str (n : Numeral) : ExactLabel.parse n.str = some (.rational n.value) := by
  obtain ⟨d, rest, hcons, hd⟩ := n.exists_cons
  have hsign : Decimal.sign n.str.toList = (false, n.text) := by
    rw [Numeral.str, String.toList_ofList, hcons, Decimal.sign_of_digit hd]
  have hread : Decimal.magnitude n.text = some n.value :=
    Decimal.magnitude_plain n.nonempty n.wholeDigits n.fracDigits
  simp only [ExactLabel.parse, hsign, hread]
  rfl

/-- The labels' two functions are this one. -/
theorem firstNumber_label (parse : String → Option Binary64) (name : String) :
    firstNumber parse name = some (Label.firstNumber parse name) :=
  firstNumber_eq parse name

theorem firstNumber_exactLabel (name : String) :
    firstNumber ExactLabel.parse name = some (ExactLabel.firstNumber name) :=
  firstNumber_eq ExactLabel.parse name

/-- Read exactly, a chapter behind a volume has its own number. -/
theorem exact_of_recognised (n : VolumeName) (h : n.Recognised) :
    ExactLabel.firstNumber n.name = some (.rational n.chapter.value) := by
  have hread := n.firstNumber_of_recognised ExactLabel.parse h
  rw [firstNumber_exactLabel, parse_str] at hread
  exact Option.some.inj hread

/-- Behind a `V` without a point it has the volume's. -/
theorem exact_of_not_recognised (n : VolumeName) (h : ¬n.Recognised) :
    ExactLabel.firstNumber n.name = some (.rational n.volume.value) := by
  have hread := n.firstNumber_of_not_recognised ExactLabel.parse h
  rw [firstNumber_exactLabel, parse_str] at hread
  exact Option.some.inj hread

/-- **The number of the chapter is found**, unless the volume token is a `V` without a
point and the volume has another number; all else holds of every name: without a volume
its first number is found, and no slice falls within a character. -/
theorem reads_iff {ν : Type} (parse : String → Option ν) (n : VolumeName) (name : String) :
    Reads parse n name ↔ n.Recognised ∨ parse n.volume.str = parse n.chapter.str := by
  constructor
  · intro h
    by_cases hrec : n.Recognised
    · exact Or.inl hrec
    · have hvolume := n.firstNumber_of_not_recognised parse hrec
      exact Or.inr (Option.some.inj (hvolume.symm.trans h.chapter))
  · intro h
    have hchapter : firstNumber parse n.name = some (parse n.chapter.str) := by
      by_cases hrec : n.Recognised
      · exact n.firstNumber_of_recognised parse hrec
      · rw [n.firstNumber_of_not_recognised parse hrec, h.resolve_left hrec]
    exact ⟨hchapter, firstNumber_plain, firstNumber_isSome parse name⟩

/-- Volume 4, chapter 16. -/
def v4 : VolumeName where
  blank := []
  isBlank := nofun
  token := .v
  spelled := ['V']
  isSpelled := by decide
  seps := []
  areSeps := nofun
  volume := ⟨['4'], [], by decide, by simp, nofun⟩
  between := [' ']
  noDigit := by simp
  chapter := ⟨['1', '6'], [], by decide, by simp, nofun⟩
  tail := []
  ends := by rintro (h | ⟨-, rest, h, -⟩) <;> cases h

/-- It is read as chapter 4. -/
theorem not_reads_v4 :
    v4.name = "V4 Ch.16" ∧
      firstNumber ExactLabel.parse "V4 Ch.16" = some (some (.rational 4)) ∧
      ¬Reads ExactLabel.parse v4 "V4 Ch.16" := by
  have hname : v4.name = "V4 Ch.16" := by decide
  have hrec : ¬v4.Recognised := fun h => nomatch h rfl
  have hvolume : v4.volume.value = 4 := by
    show ((4 : ℕ) : ℚ) / 10 ^ 0 = 4
    norm_num
  have hchapter : v4.chapter.value = 16 := by
    show ((16 : ℕ) : ℚ) / 10 ^ 0 = 16
    norm_num
  have hread := v4.firstNumber_of_not_recognised ExactLabel.parse hrec
  rw [hname, parse_str, hvolume] at hread
  refine ⟨hname, hread, fun h => ?_⟩
  have hright := h.chapter
  rw [hname, hread, parse_str, hchapter] at hright
  have hfour : (4 : ℚ) = 16 :=
    ExactLabel.Value.rational.inj (Option.some.inj (Option.some.inj hright))
  norm_num at hfour

end Komika.Chapters.NameNumber
