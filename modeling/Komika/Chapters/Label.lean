import Komika.Catalog.SpineKeys
import Komika.Lib.Binary64

/-!
# Chapter labels

`chapter_label.rs`: what to show for a chapter, and the key it is grouped by.
A number that `chapter_display` returns is finite, and between 0 and
`SANE_MAX_CHAPTER`; `ChapterNumber` carries that, so no other number has a key.

The definitions are generic in the parser of numbers, so that `ExactLabel` may read the
same texts exactly and `NameNumber` may say which number is found without reading it.
-/

namespace Komika.Chapters.Label

open Komika.Lib
open Komika.Catalog.SpineKeys

/-! ## Texts

What is trimmed, as the standard library does. -/

/-- `char::is_whitespace`, the characters with the property `White_Space`. -/
def isWhitespace (c : Char) : Bool :=
  (9 ≤ c.toNat && c.toNat ≤ 13) || (0x2000 ≤ c.toNat && c.toNat ≤ 0x200a) ||
    [0x20, 0x85, 0xa0, 0x1680, 0x2028, 0x2029, 0x202f, 0x205f, 0x3000].contains c.toNat

/-- `trim_start`, on characters. -/
def trimStart (cs : List Char) : List Char := cs.dropWhile isWhitespace

/-- `str::trim`, which takes blanks off both ends. -/
def trim (text : String) : String :=
  String.ofList (trimStart (trimStart text.toList).reverse).reverse

/-- `filter(|s| !s.is_empty())`: an empty text counts as none. -/
def nonEmpty (text : String) : Option String := if text = "" then none else some text

/-! ## Numbers

The type of sane numbers, and how they are printed and keyed. -/

/-- `SANE_MAX_CHAPTER`: a larger number is taken for corrupt data. -/
def saneMaxChapter : Nat := 5000

/-- `is_sane_number`: finite, and from 0 to `SANE_MAX_CHAPTER`. -/
def isSaneNumber (n : Binary64) : Bool :=
  n.isFinite && ((Binary64.ofNat 0).le n && n.le (.ofNat saneMaxChapter))

/-- A number that a label can have, with the proof that it is sane. -/
abbrev ChapterNumber := { n : Binary64 // isSaneNumber n = true }

/-- `filter(|n| is_sane_number(*n))`, which keeps the proof. -/
def sane (n : Binary64) : Option ChapterNumber :=
  if h : isSaneNumber n = true then some ⟨n, h⟩ else none

/-- `((n * 100.0).round() as i64).to_string()`, the key of a numbered chapter. -/
def hundredths (n : ChapterNumber) : String :=
  toString ((n.val.timesNat 100).round.toI64)

/-- `{:.2}` of a magnitude, ties to even, without trailing zeros. -/
def twoDecimals (units : Nat) : String :=
  let quotient := units * 100 / Binary64.one
  let rest := units * 100 % Binary64.one
  let cents :=
    if 2 * rest < Binary64.one ∨ (2 * rest = Binary64.one ∧ quotient % 2 = 0) then
      quotient
    else quotient + 1
  let whole := toString (cents / 100)
  if cents % 100 = 0 then whole
  else if cents % 10 = 0 then whole ++ "." ++ toString (cents / 10 % 10)
  else whole ++ "." ++ toString (cents / 10 % 10) ++ toString (cents % 10)

/-- `format_number`: a whole number without a point, any other to two places; `n -
n.round()` is exact. -/
def formatNumber (n : ChapterNumber) : String :=
  match n.val with
  | .finite negative units =>
      let nearest := Binary64.nearest units
      let distance := max units (nearest * Binary64.one) -
        min units (nearest * Binary64.one)
      if distance < Binary64.one / 2 ^ 52 then
        toString (Binary64.signed negative nearest)
      else twoDecimals units
  | _ => ""

/-! ## The number in a name

`first_number`, over characters. -/

/-- The text after `pre`, if it starts with it. -/
def afterStart (pre : String) (cs : List Char) : Option (List Char) :=
  if pre.toList.isPrefixOf cs then some (cs.drop pre.toList.length) else none

/-- One round of the loop of `strip_volume_prefix`: the prefix, separators, and a
number, which all go; `none` if there is no number. -/
def stripVolume (trimmed : List Char) (pre : String) : Option (List Char) :=
  (afterStart pre (trimmed.map Char.toLower)).bind fun rest =>
    let skipped := rest.dropWhile [' ', '.', '#', ':', '-'].contains
    if skipped.head?.any Char.isDigit then
      some ((trimmed.drop (trimmed.length - skipped.length)).dropWhile fun c =>
        c.isDigit || c = '.')
    else none

/-- `strip_volume_prefix`: behind the first prefix that has a number, or the whole
name. -/
def stripVolumePrefix (name : String) : List Char :=
  let trimmed := trimStart name.toList
  (["volume", "vol.", "vol", "v."].findSome? (stripVolume trimmed)).getD trimmed

/-- The loop of `first_number`: a dot goes on with the number only when a digit
follows. -/
def takeNumber (seenDot : Bool) : List Char → List Char
  | [] => []
  | c :: cs =>
      if c.isDigit then c :: takeNumber seenDot cs
      else if c = '.' && !seenDot && cs.head?.any Char.isDigit then
        c :: takeNumber true cs
      else []

/-- `first_number`: from the first digit behind the volume on; `parse` is
`str::parse::<f64>`. -/
def firstNumber (parse : String → Option Binary64) (name : String) :
    Option Binary64 :=
  let cleaned := (stripVolumePrefix name).dropWhile fun c => !c.isDigit
  if cleaned = [] then none else parse (String.ofList (takeNumber false cleaned))

/-! ## Labels

`chapter_display`, and the key of a label. -/

/-- `chapter_display`: the number of the row, a number in the raw text, one in the name,
and last a text that is no number. -/
def chapterDisplay (parse : String → Option Binary64) (number : Option Binary64)
    (raw name : Option String) : ChapterLabel ChapterNumber :=
  let rawText := (raw.map trim).bind nonEmpty
  match number.bind sane with
  | some n => .numbered n
  | none =>
      match (rawText.bind parse).bind sane with
      | some n => .numbered n
      | none =>
          match (name.bind (firstNumber parse)).bind sane with
          | some n => .numbered n
          | none =>
              let usableRaw := rawText.filter fun s => (parse s).isNone
              .unnumbered ((usableRaw.or ((name.map trim).bind nonEmpty)).getD "Oneshot")

/-- The functions of this file, as the spine's writers call them. -/
def labelRules (parse : String → Option Binary64) : LabelRules ChapterNumber where
  chapterDisplay := chapterDisplay parse none
  hundredths := hundredths
  formatNumber := formatNumber

/-- `ChapterLabel::number`, which only a numbered label has. -/
def number : ChapterLabel ChapterNumber → Option ChapterNumber
  | .numbered n => some n
  | .unnumbered _ => none

end Komika.Chapters.Label
