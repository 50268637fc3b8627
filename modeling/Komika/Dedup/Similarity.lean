import Mathlib.Algebra.Order.Ring.Int
import Mathlib.Data.Finset.Card
import Mathlib.Data.List.Dedup

/-!
# Similarity signals

The comparators of `catalog/similarity.rs`: Jaccard over shingles for titles and
descriptions, Hamming over perceptual hashes for covers.  `f64` is `Float`.

What the standard library knows of Unicode, and its hasher, are parameters.

The definitions follow the order of the module; the scores that they go into are in
`Resolve`, and the bounds on these in `Verdict`.
-/

namespace Komika.Dedup.Similarity

/-- The functions of the standard library the comparators call. -/
structure SimilarityRules where
  /-- `str::to_lowercase`. -/
  toLowercase : String → String
  /-- `char::is_whitespace`. -/
  isWhitespace : Char → Bool
  /-- `char::is_alphanumeric`. -/
  isAlphanumeric : Char → Bool
  /-- `hash_one`. -/
  hashOne : String → UInt64

/-! ## Shingles

Overlapping pieces of a text, as a set. -/

/-- `windows(n)`: the pieces of one length, one for each place where one begins. -/
def windows {α : Type} (n : Nat) (l : List α) : List (List α) :=
  (List.range (l.length + 1 - n)).map fun i => (l.drop i).take n

/-- `split(p)`, without the empty pieces between two separators. -/
def pieces (p : Char → Bool) (s : String) : List String :=
  ((s.toList.splitOnP p).filter fun piece => piece ≠ []).map String.ofList

/-- `split_whitespace`: the words of a text, by the platform's blanks. -/
def splitWhitespace (rules : SimilarityRules) (s : String) : List String :=
  pieces rules.isWhitespace s

/-- `char_ngrams`: the hashes of the pieces of `n` characters, blanks aside; a shorter
text is one piece. -/
def charNgrams (rules : SimilarityRules) (s : String) (n : Nat) : Finset UInt64 :=
  let chars := s.toList.filter fun c => !rules.isWhitespace c
  if n ≤ chars.length then
    ((windows n chars).map fun w => rules.hashOne (String.ofList w)).toFinset
  else if chars ≠ [] then {rules.hashOne (String.ofList chars)}
  else ∅

/-- `shingles`: of three words, or of three characters where there are not that
many words. -/
def shingles (rules : SimilarityRules) (text : String) : Finset UInt64 :=
  let norm := rules.toLowercase text
  let words := splitWhitespace rules norm
  if 3 ≤ words.length then
    ((windows 3 words).map fun w => rules.hashOne (" ".intercalate w)).toFinset
  else charNgrams rules norm 3

/-- `jaccard`: the share of what two sets have in common, and 0 if one of them is
empty. -/
def jaccard (a b : Finset UInt64) : Float :=
  if a = ∅ ∨ b = ∅ then 0.0
  else
    let inter := (a ∩ b).card.toFloat
    let union := (a ∪ b).card.toFloat
    if union == 0.0 then 0.0 else inter / union

/-- The shingles of a title, of either kind: its words, and its triples of
characters. -/
structure TitleShingles where
  raw : String
  tokens : Finset String
  ngrams : Finset UInt64

/-- `title_shingles`, computed once for each title of a block. -/
def titleShingles (rules : SimilarityRules) (s : String) : TitleShingles :=
  ⟨s, (splitWhitespace rules s).toFinset, charNgrams rules s 3⟩

/-- `title_similarity_pre`: 1 for equal titles, else the better of the two measures. -/
def titleSimilarityPre (a b : TitleShingles) : Float :=
  if a.raw = "" ∨ b.raw = "" then 0.0
  else if a.raw = b.raw then 1.0
  else
    let token :=
      if a.tokens = ∅ ∨ b.tokens = ∅ then 0.0
      else (a.tokens ∩ b.tokens).card.toFloat / (a.tokens ∪ b.tokens).card.toFloat
    max token (jaccard a.ngrams b.ngrams)

/-! ## Perceptual hashes

Distances between hashes of one length, in bits. -/

/-- A digit of a hash, in either case. -/
def hexDigit (c : Char) : Option Nat :=
  if '0' ≤ c ∧ c ≤ '9' then some (c.toNat - '0'.toNat)
  else if 'a' ≤ c ∧ c ≤ 'f' then some (c.toNat - 'a'.toNat + 10)
  else if 'A' ≤ c ∧ c ≤ 'F' then some (c.toNat - 'A'.toNat + 10)
  else none

/-- `hex::decode`: pairs of digits, each a byte; an odd one out is an error. -/
def decodeDigits : List Char → Option (List Nat)
  | [] => some []
  | [_] => none
  | high :: low :: rest =>
      match hexDigit high, hexDigit low, decodeDigits rest with
      | some h, some l, some bytes => some ((16 * h + l) :: bytes)
      | _, _, _ => none

/-- `hex::decode`, of a text. -/
def hexDecode (s : String) : Option (List Nat) := decodeDigits s.toList

/-- `count_ones` of a byte, bit by bit. -/
def countOnes (byte : Nat) : Nat := (List.range 8).countP fun i => byte.testBit i

/-- `phash_similarity`: the share of the bits in which two hashes of one length
agree. -/
def phashSimilarity (a b : Option String) : Option Float :=
  match a.bind hexDecode, b.bind hexDecode with
  | some ba, some bb =>
      if ba = [] ∨ ba.length ≠ bb.length then none
      else
        let bits := (ba.length * 8).toFloat
        let dist := ((ba.zip bb).map fun (x, y) => countOnes (x ^^^ y)).sum
        some (1.0 - dist.toFloat / bits)
  | _, _ => none

/-- `is_discriminative_phash`, and `consolidate_phash_is_discriminative`: 64 bits, not
nearly all of them equal. -/
def isDiscriminativePhash (hex : String) : Bool :=
  match hexDecode hex with
  | none => false
  | some bytes =>
      bytes.length = 8 &&
        (12 ≤ (bytes.map countOnes).sum && (bytes.map countOnes).sum ≤ 52)

/-! ## Titles, authors and years

How long a title has to be, and what corroborates it. -/

/-- `FEDERATED_MIN_TITLE_CHARS`: a shorter title says too little to merge on. -/
def federatedMinTitleChars : Nat := 5

/-- `author_key`, and `consolidate_author_key`: the words of a name in lower case,
sorted, so that their order does not matter. -/
def authorKey (rules : SimilarityRules) (name : String) : List String :=
  (pieces (fun c => !rules.isAlphanumeric c) (rules.toLowercase name)).mergeSort
    fun a b => decide (a ≤ b)

/-- `author_matches`: both are known, and their keys are equal and not empty. -/
def authorMatches (rules : SimilarityRules) (a b : Option String) : Bool :=
  match a, b with
  | some a, some b =>
      let key := authorKey rules a
      key ≠ [] && key = authorKey rules b
  | _, _ => false

/-- `a - b`, which wraps in a release build: two years far apart may come out close. -/
def subI64 (a b : Int) : Int := (a - b).bmod (2 ^ 64)

/-- `a.abs()`, which wraps at the least of the numbers. -/
def absI64 (a : Int) : Int := (a.natAbs : Int).bmod (2 ^ 64)

/-- `year_close`: both are known, and at most a year apart. -/
def yearClose (a b : Option Int) : Bool :=
  match a, b with
  | some a, some b => absI64 (subI64 a b) ≤ 1
  | _, _ => false

end Komika.Dedup.Similarity
