import Komika.Chapters.Label
import Komika.Lib.Decimal
import Komika.Lib.Encoding
import Komika.Lib.Rounding
import Mathlib.Data.Rat.Floor

/-!
# Keys and printed labels

Two chapters are one to the ledger when their keys are equal, and one to a reader when they are
printed alike.  The key rounds the hundredths of a number with ties away from zero, what is
printed rounds them with ties to even.  `agree_iff` says for which numbers that is the same.

The functions of `chapter_label.rs` over exact numbers: no product and no reading rounds.
`formatNumber_exact` and `hundredths_exact` say what this has to do with the numbers in the
registers.

* `keyed_spec`, `printed_spec` — the two roundings of the hundredths;
* `chapterDisplay_formatNumber` — a printed label read back;
* `readsBack_iff`, `agree_iff` — for which numbers key and label agree;
* `not_agree_eighth` — 0.125.
-/

namespace Komika.Chapters.ExactLabel

open Komika.Lib Komika.Lib.Decimal Komika.Lib.Rounding
open Komika.Catalog.SpineKeys

/-! ## Numbers

Rational numbers, and what is not a number. -/

/-- What a text can be read as. -/
inductive Value where
  | rational (q : ℚ)
  | infinite (negative : Bool)
  | nan

/-- `str::parse::<f64>`, without rounding: a decimal with or without an exponent, or one
of the words. -/
def parse (s : String) : Option Value :=
  let negative := (sign s.toList).1
  let digits := (sign s.toList).2
  match magnitude digits with
  | some q => some (.rational (if negative = true then -q else q))
  | none =>
    let word := String.ofList (digits.map Char.toLower)
    if word = "inf" ∨ word = "infinity" then some (.infinite negative)
    else if word = "nan" then some .nan
    else none

/-- `is_sane_number`: from 0 to `SANE_MAX_CHAPTER`. -/
def isSaneNumber : Value → Bool
  | .rational q => decide (0 ≤ q ∧ q ≤ Label.saneMaxChapter)
  | _ => false

/-- A number that a label can have. -/
abbrev SaneNumber := { q : ℚ // isSaneNumber (.rational q) = true }

/-- `filter(|n| is_sane_number(*n))`, with the proof that it is one. -/
def sane : Value → Option SaneNumber
  | .rational q => if h : isSaneNumber (.rational q) = true then some ⟨q, h⟩ else none
  | _ => none

/-- `as i64` of a whole number. -/
def asI64 (z : ℤ) : ℤ := max (-2 ^ 63) (min (2 ^ 63 - 1) z)

/-! ## Labels

The functions of `Label` on these. -/

/-- `((n * 100.0).round() as i64).to_string()`. -/
def hundredths (n : SaneNumber) : String := toString (asI64 (roundHalfAway (n.val * 100)))

/-- `{n:.2}`: two places, ties to even. -/
def twoDecimals (n : SaneNumber) : List Char := fixed 2 (roundHalfEven (n.val * 100)).toNat

/-- `format_number`: a whole number where it is as good as whole, else two places
without trailing zeros. -/
def formatNumber (n : SaneNumber) : String :=
  if |n.val - roundHalfAway n.val| < 1 / 2 ^ 52 then toString (asI64 (roundHalfAway n.val))
  else String.ofList (((twoDecimals n).rdropWhile (· == '0')).rdropWhile (· == '.'))

/-- `first_number`: behind the volume, if there is one, from the first digit on. -/
def firstNumber (name : String) : Option Value :=
  let cleaned := (Label.stripVolumePrefix name).dropWhile fun c => !c.isDigit
  if cleaned = [] then none else parse (String.ofList (Label.takeNumber false cleaned))

/-- `chapter_display`: the number of the row, the raw text, the name, and last a text
that is no number. -/
def chapterDisplay (number : Option Value) (raw name : Option String) :
    ChapterLabel SaneNumber :=
  let rawText := (raw.map Label.trim).bind Label.nonEmpty
  match number.bind sane with
  | some n => .numbered n
  | none =>
      match (rawText.bind parse).bind sane with
      | some n => .numbered n
      | none =>
          match (name.bind firstNumber).bind sane with
          | some n => .numbered n
          | none =>
              let usableRaw := rawText.filter fun s => (parse s).isNone
              .unnumbered ((usableRaw.or ((name.map Label.trim).bind Label.nonEmpty)).getD
                "Oneshot")

/-- The functions of this file, as the spine's writers call them. -/
def labelRules : LabelRules SaneNumber where
  chapterDisplay := chapterDisplay none
  hundredths := hundredths
  formatNumber := formatNumber

/-! ## What is printed

Hundredths, without the zeros at the end. -/

section Printed

variable {n : SaneNumber}

theorem bounds (n : SaneNumber) : 0 ≤ n.val ∧ n.val ≤ 5000 := of_decide_eq_true n.property

theorem asI64_natCast {k : ℕ} (h : k ≤ 500000) : asI64 k = k := by
  rw [asI64]
  omega

theorem hundred_bounds (n : SaneNumber) :
    0 ≤ n.val * 100 ∧ n.val * 100 ≤ (500000 : ℕ) := by
  obtain ⟨hlo, hhi⟩ := bounds n
  push_cast
  constructor <;> linarith

/-- The hundredths of the key. -/
def keyed (n : SaneNumber) : ℕ := (roundHalfAway (n.val * 100)).toNat

theorem keyed_spec (n : SaneNumber) :
    (keyed n : ℤ) = roundHalfAway (n.val * 100) ∧ keyed n ≤ 500000 := by
  obtain ⟨hnonneg, hle⟩ := roundHalfAway_le (hundred_bounds n).1 (hundred_bounds n).2
  rw [keyed]
  omega

/-- The hundredths that are printed. -/
def printed (n : SaneNumber) : ℕ := (roundHalfEven (n.val * 100)).toNat

theorem printed_spec (n : SaneNumber) :
    (printed n : ℤ) = roundHalfEven (n.val * 100) ∧ printed n ≤ 500000 := by
  obtain ⟨hnonneg, hle⟩ := roundHalfEven_le (hundred_bounds n).1 (hundred_bounds n).2
  rw [printed]
  omega

theorem hundredths_eq (n : SaneNumber) : hundredths n = toString (keyed n) := by
  obtain ⟨hkeyed, hle⟩ := keyed_spec n
  rw [hundredths, ← hkeyed, asI64_natCast hle]
  rfl

/-- A number that is printed as a whole number is close enough to it for its hundredths to
round there too, so all numbers are printed by their hundredths. -/
theorem formatNumber_eq (n : SaneNumber) :
    formatNumber n = String.ofList (trimmed 2 (printed n)) := by
  rw [formatNumber]
  split
  case isTrue h =>
    obtain ⟨hlo, hhi⟩ := bounds n
    have hle : n.val ≤ (5000 : ℕ) := by
      push_cast
      exact hhi
    obtain ⟨hnonneg, hbound⟩ := roundHalfAway_le hlo hle
    obtain ⟨k, hk⟩ := Int.eq_ofNat_of_zero_le hnonneg
    have hclose : |n.val * 100 - ((k * 100 : ℕ) : ℤ)| < 1 / 2 := by
      have hscale : n.val * 100 - ((k * 100 : ℕ) : ℤ) = (n.val - roundHalfAway n.val) * 100 := by
        rw [hk]
        push_cast
        ring
      rw [hscale, abs_mul, abs_of_pos (by norm_num : (0 : ℚ) < 100)]
      have heps : (1 : ℚ) / 2 ^ 52 * 100 < 1 / 2 := by norm_num
      linarith
    have hprinted : printed n = k * 10 ^ 2 := by
      rw [printed, roundHalfEven_of_abs_lt hclose]
      rfl
    have hk500 : k ≤ 500000 := by omega
    rw [hprinted, trimmed_mul_pow, hk]
    show toString (asI64 (k : ℤ)) = _
    rw [asI64_natCast hk500]
    exact Nat.toString_eq_ofList_toDigits
  case isFalse => rfl

/-- Two numbers have one key when their hundredths do, and are printed alike when those are. -/
theorem hundredths_inj {m n : SaneNumber} :
    hundredths m = hundredths n ↔ keyed m = keyed n := by
  rw [hundredths_eq, hundredths_eq, Nat.toString_eq_ofList_toDigits,
    Nat.toString_eq_ofList_toDigits, String.ofList_inj]
  exact toDigits_injective.eq_iff

theorem formatNumber_inj {m n : SaneNumber} :
    formatNumber m = formatNumber n ↔ printed m = printed n := by
  rw [formatNumber_eq, formatNumber_eq, String.ofList_inj]
  exact (trimmed_injective (by decide)).eq_iff

theorem keyed_eq_printed_iff (n : SaneNumber) :
    keyed n = printed n ↔ ¬HalfAboveEven (n.val * 100) := by
  rw [← roundHalfAway_eq_roundHalfEven_iff (hundred_bounds n).1, ← (keyed_spec n).1,
    ← (printed_spec n).1]
  omega

end Printed

/-! ## Reading it back

What is printed is digits and a point. -/

section Read

variable {n : SaneNumber}

/-- The number of `k` hundredths. -/
def ofHundredths (k : ℕ) (h : k ≤ 500000) : SaneNumber :=
  ⟨k / 100, by
    have hle : (k : ℚ) ≤ 500000 := by exact_mod_cast h
    apply decide_eq_true
    constructor
    · positivity
    · show (k : ℚ) / 100 ≤ (5000 : ℕ)
      push_cast
      linarith⟩

theorem isDigit_or_of_mem_trimmed {k : ℕ} {c : Char} (hc : c ∈ trimmed 2 k) :
    c.isDigit = true ∨ c = '.' := by
  have hmem := (List.rdropWhile_prefix _ _).subset ((List.rdropWhile_prefix _ _).subset hc)
  rw [fixed, List.mem_append] at hmem
  rcases hmem with hw | hf
  · exact Or.inl (isDigit_toDigits c hw)
  · rcases List.mem_cons.mp hf with rfl | hf
    · exact Or.inr rfl
    · exact Or.inl (isDigit_fracDigits c hf)

/-- What is printed begins with a digit. -/
theorem exists_trimmed_cons (k : ℕ) :
    ∃ c cs, trimmed 2 k = c :: cs ∧ c.isDigit = true := by
  obtain ⟨c, cs, hw⟩ := List.exists_cons_of_ne_nil
    (Nat.toDigits_ne_nil : Nat.toDigits 10 (k / 10 ^ 2) ≠ [])
  have hc : c.isDigit = true := isDigit_toDigits c (by rw [hw]; exact List.mem_cons_self)
  rw [trimmed_eq, plain, wholeDigits, hw]
  split
  · exact ⟨c, cs, rfl, hc⟩
  · exact ⟨c, _, rfl, hc⟩

theorem parse_trimmed (k : ℕ) :
    parse (String.ofList (trimmed 2 k)) = some (.rational (k / 100)) := by
  obtain ⟨c, cs, hcons, hc⟩ := exists_trimmed_cons k
  have hsign : sign (String.ofList (trimmed 2 k)).toList = (false, trimmed 2 k) := by
    rw [String.toList_ofList, hcons, sign_of_digit hc]
  have hread : magnitude (trimmed 2 k) = some ((k : ℚ) / 100) := by
    rw [magnitude_trimmed (by decide)]
    norm_num
  simp only [parse, hsign, hread]
  rfl

theorem trimStart_of_forall {cs : List Char} (h : ∀ c ∈ cs, Label.isWhitespace c = false) :
    Label.trimStart cs = cs := by
  cases cs with
  | nil => rfl
  | cons c cs =>
    have hc : ¬Label.isWhitespace c = true := by
      rw [h c List.mem_cons_self]
      decide
    exact List.dropWhile_cons_of_neg hc

/-- What ASCII prints is no blank. -/
theorem isWhitespace_of_printed {c : Char} (hlo : 33 ≤ c.toNat) (hhi : c.toNat ≤ 126) :
    Label.isWhitespace c = false := by
  have hmem : c.toNat ∉
      [0x20, 0x85, 0xa0, 0x1680, 0x2028, 0x2029, 0x202f, 0x205f, 0x3000] := by
    intro h
    simp only [List.mem_cons, List.not_mem_nil, or_false] at h
    omega
  have hcontrol : decide (c.toNat ≤ 13) = false := decide_eq_false (by omega)
  have hspaces : decide (0x2000 ≤ c.toNat) = false := decide_eq_false (by omega)
  rw [Label.isWhitespace, hcontrol, hspaces, List.contains_eq_mem, decide_eq_false hmem,
    Bool.and_false, Bool.false_and]
  rfl

theorem isWhitespace_of_isDigit {c : Char} (h : c.isDigit = true) :
    Label.isWhitespace c = false := by
  have hrange : 48 ≤ c.toNat ∧ c.toNat ≤ 57 := Char.isDigit_iff_toNat.mp h
  exact isWhitespace_of_printed (by omega) (by omega)

/-- There is no blank to trim. -/
theorem trim_trimmed (k : ℕ) :
    Label.trim (String.ofList (trimmed 2 k)) = String.ofList (trimmed 2 k) := by
  have hblank : ∀ c ∈ trimmed 2 k, Label.isWhitespace c = false := by
    intro c hc
    rcases isDigit_or_of_mem_trimmed hc with hdig | rfl
    · exact isWhitespace_of_isDigit hdig
    · decide
  have hrev : ∀ c ∈ (trimmed 2 k).reverse, Label.isWhitespace c = false :=
    fun c hc => hblank c (List.mem_reverse.mp hc)
  rw [Label.trim, String.toList_ofList, trimStart_of_forall hblank, trimStart_of_forall hrev,
    List.reverse_reverse]

/-- A printed label is read as the number of its hundredths. -/
theorem chapterDisplay_formatNumber (n : SaneNumber) (name : Option String) :
    chapterDisplay none (some (formatNumber n)) name =
      .numbered (ofHundredths (printed n) (printed_spec n).2) := by
  obtain ⟨c, cs, hcons, -⟩ := exists_trimmed_cons (printed n)
  have hne : String.ofList (trimmed 2 (printed n)) ≠ "" := by
    intro h
    have hnil := congrArg String.toList h
    rw [String.toList_ofList, hcons] at hnil
    cases hnil
  have hsane : sane (.rational ((printed n : ℚ) / 100)) =
      some (ofHundredths (printed n) (printed_spec n).2) :=
    dif_pos (ofHundredths (printed n) (printed_spec n).2).property
  rw [formatNumber_eq, chapterDisplay]
  simp only [Option.bind_none, Option.map_some, Option.bind_some, trim_trimmed,
    Label.nonEmpty, if_neg hne, parse_trimmed, hsane]

theorem keyed_ofHundredths (k : ℕ) (h : k ≤ 500000) : keyed (ofHundredths k h) = k := by
  have hval : (ofHundredths k h).val * 100 = (k : ℚ) := by
    show (k : ℚ) / 100 * 100 = k
    norm_num
  rw [keyed, hval, roundHalfAway_natCast]
  rfl

end Read

/-! ## One chapter

The number, its key, and its label. -/

/-- What is printed for `n` is read back under the key of `n`. -/
def ReadsBack (n : SaneNumber) : Prop :=
  ∀ name identity,
    (chapterDisplay none (some ((ChapterLabel.numbered n).text labelRules)) name).key labelRules
        identity =
      (ChapterLabel.numbered n).key labelRules identity

/-- Two chapters are one to the ledger exactly if they are one to a reader, and what is printed
for them is read back under their keys. -/
structure Agree (m n : SaneNumber) : Prop where
  same : ∀ a b, (ChapterLabel.numbered m).key labelRules a =
      (ChapterLabel.numbered n).key labelRules b ↔
    (ChapterLabel.numbered m).text labelRules = (ChapterLabel.numbered n).text labelRules
  left : ReadsBack m
  right : ReadsBack n

theorem readsBack_iff (n : SaneNumber) : ReadsBack n ↔ ¬HalfAboveEven (n.val * 100) := by
  have hread : ∀ name identity,
      (chapterDisplay none (some ((ChapterLabel.numbered n).text labelRules)) name).key labelRules
        identity = hundredths (ofHundredths (printed n) (printed_spec n).2) := by
    intro name identity
    show (chapterDisplay none (some (formatNumber n)) name).key labelRules identity = _
    rw [chapterDisplay_formatNumber]
    rfl
  rw [← keyed_eq_printed_iff]
  constructor
  · intro h
    have hkey : hundredths (ofHundredths (printed n) (printed_spec n).2) = hundredths n :=
      (hread none "").symm.trans (h none "")
    rw [hundredths_inj, keyed_ofHundredths] at hkey
    exact hkey.symm
  · intro h name identity
    rw [hread]
    show _ = hundredths n
    rw [hundredths_inj, keyed_ofHundredths, h]

/-- **Keys and labels agree** unless the hundredths of a number lie half-way above an
even number.  The key rounds half away from zero and the label half to even, and these
two differ at such numbers only; below them both print what the other reads. -/
theorem agree_iff (m n : SaneNumber) :
    Agree m n ↔ ¬HalfAboveEven (m.val * 100) ∧ ¬HalfAboveEven (n.val * 100) := by
  constructor
  · intro h
    exact ⟨(readsBack_iff m).mp h.left, (readsBack_iff n).mp h.right⟩
  · rintro ⟨hm, hn⟩
    refine ⟨?_, (readsBack_iff m).mpr hm, (readsBack_iff n).mpr hn⟩
    intro a b
    show hundredths m = hundredths n ↔ formatNumber m = formatNumber n
    rw [hundredths_inj, formatNumber_inj, (keyed_eq_printed_iff m).mpr hm,
      (keyed_eq_printed_iff n).mpr hn]

/-- Chapters 0.125 and 0.12 are printed alike and have two keys. -/
theorem not_agree_eighth :
    ¬∀ m n : SaneNumber, Agree m n := by
  intro h
  have hagree := h ⟨1 / 8, by decide +kernel⟩ ⟨12 / 100, by decide +kernel⟩
  have hkeys := (hagree.same "" "").mpr (by decide +kernel)
  exact absurd hkeys (by decide +kernel)

/-! ## The numbers in the registers

Where the doubles compute what the rational numbers do. -/

section Registers

open Label (ChapterNumber)
open Binary64 (one signed)

theorem one_pos : 0 < one := by decide +kernel

theorem one_cast_pos : (0 : ℚ) < (one : ℕ) := Nat.cast_pos.mpr one_pos

theorem epsilon_dvd_one : 2 ^ 52 ∣ one := by decide +kernel

theorem two_dvd_one : 2 ∣ one := Dvd.dvd.trans ⟨2 ^ 51, rfl⟩ epsilon_dvd_one

/-- The exact value of a register that holds a number. -/
def exactValue : Binary64 → ℚ
  | .finite negative units => signed negative units / (one : ℕ)
  | _ => 0

/-- A number that a label can have is a magnitude; its sign says nothing. -/
theorem units_of_sane {x : Binary64} (hx : Label.isSaneNumber x = true) :
    ∃ negative units, x = .finite negative units ∧ (negative = true → units = 0) ∧
      units ≤ Label.saneMaxChapter * one := by
  rw [Label.isSaneNumber, Bool.and_eq_true, Bool.and_eq_true] at hx
  obtain ⟨hfinite, hlo, hhi⟩ := hx
  cases x with
  | nan => cases hfinite
  | infinity negative => cases hfinite
  | finite negative units =>
    rw [Binary64.ofNat, Binary64.le_finite] at hlo hhi
    cases negative with
    | false =>
      simp only [signed, Bool.false_eq_true, if_false] at hhi
      exact ⟨false, units, rfl, nofun, Int.ofNat_le.mp hhi⟩
    | true =>
      have hzero : units = 0 := by
        rw [Nat.zero_mul] at hlo
        have hneg : (0 : ℤ) ≤ -units := hlo
        omega
      exact ⟨true, units, rfl, fun _ => hzero, hzero ▸ Nat.zero_le _⟩

theorem exactValue_finite {negative : Bool} {units : ℕ} (h : negative = true → units = 0) :
    exactValue (.finite negative units) = units / (one : ℕ) := by
  cases negative with
  | false => rfl
  | true =>
    rw [h rfl]
    rfl

/-- The exact number of a label. -/
def exact (n : ChapterNumber) : SaneNumber :=
  ⟨exactValue n.val, by
    obtain ⟨negative, units, hn, hneg, hle⟩ := units_of_sane n.property
    have hunits : (units : ℚ) ≤ (Label.saneMaxChapter : ℕ) * (one : ℕ) := by
      rw [← Nat.cast_mul]
      exact Nat.cast_le.mpr hle
    apply decide_eq_true
    rw [hn, exactValue_finite hneg]
    exact ⟨div_nonneg units.cast_nonneg one_cast_pos.le,
      (div_le_iff₀ one_cast_pos).mpr hunits⟩⟩

theorem signed_nearest {negative : Bool} {units : ℕ} (h : negative = true → units = 0) :
    signed negative (Binary64.nearest units) = ((Binary64.nearest units : ℕ) : ℤ) := by
  cases negative with
  | false => rfl
  | true =>
    have hzero : Binary64.nearest 0 = 0 := by
      rw [Binary64.nearest, Nat.zero_add]
      exact Nat.div_eq_of_lt (Nat.div_lt_self one_pos (by decide))
    rw [h rfl, hzero]
    rfl

/-- The distance of two magnitudes. -/
theorem natCast_max_sub_min (a b : ℕ) : ((max a b - min a b : ℕ) : ℚ) = |(a : ℚ) - b| := by
  rcases le_total a b with h | h
  · have hle : (a : ℚ) ≤ b := by exact_mod_cast h
    rw [max_eq_right h, min_eq_left h, Nat.cast_sub h, abs_sub_comm,
      abs_of_nonneg (sub_nonneg.mpr hle)]
  · have hle : (b : ℚ) ≤ a := by exact_mod_cast h
    rw [max_eq_left h, min_eq_right h, Nat.cast_sub h, abs_of_nonneg (sub_nonneg.mpr hle)]

/-- The test for a whole number, on magnitudes over any unit. -/
theorem abs_sub_lt_epsilon_iff {d : ℕ} (hd : 0 < d) (heps : 2 ^ 52 ∣ d) (units k : ℕ) :
    |(units : ℚ) / d - k| < 1 / 2 ^ 52 ↔
      max units (k * d) - min units (k * d) < d / 2 ^ 52 := by
  have hpos : (0 : ℚ) < d := Nat.cast_pos.mpr hd
  have hscale : (units : ℚ) / d - k = ((units : ℚ) - (k * d : ℕ)) / d := by
    rw [sub_div, Nat.cast_mul, mul_div_assoc, div_self hpos.ne', mul_one]
  obtain ⟨e, rfl⟩ := heps
  rw [Nat.mul_div_cancel_left e (by decide), hscale, abs_div, ← natCast_max_sub_min,
    abs_of_pos hpos, div_lt_div_iff₀ hpos (by positivity), one_mul]
  have hmul : ((2 ^ 52 * e : ℕ) : ℚ) = e * 2 ^ 52 := by
    push_cast
    ring
  rw [hmul, mul_lt_mul_iff_left₀ (by positivity)]
  exact Nat.cast_lt

theorem toString_natCast (k : ℕ) : toString k = String.ofList (Nat.toDigits 10 k) :=
  Nat.toString_eq_ofList_toDigits

/-- The two decimals, printed without their zeros. -/
theorem trimmed_two_eq (cents : ℕ) : String.ofList (trimmed 2 cents) =
    if cents % 100 = 0 then toString (cents / 100)
    else if cents % 10 = 0 then toString (cents / 100) ++ "." ++ toString (cents / 10 % 10)
    else toString (cents / 100) ++ "." ++ toString (cents / 10 % 10) ++
      toString (cents % 10) := by
  simp only [toString_natCast]
  rw [trimmed_two]
  split
  · rfl
  · split
    · rw [show "." = String.ofList ['.'] from rfl, ← String.ofList_append,
        ← String.ofList_append, List.append_assoc]
      rfl
    · rw [show "." = String.ofList ['.'] from rfl, ← String.ofList_append,
        ← String.ofList_append, ← String.ofList_append, List.append_assoc, List.append_assoc]
      rfl

theorem twoDecimals_exact (units : ℕ) :
    Label.twoDecimals units =
      String.ofList (trimmed 2 (roundHalfEven ((units : ℚ) / (one : ℕ) * 100)).toNat) := by
  have hscale : (units : ℚ) / (one : ℕ) * 100 = ((units * 100 : ℕ) : ℚ) / (one : ℕ) := by
    rw [Nat.cast_mul, div_mul_eq_mul_div]
    rfl
  have hcents : (roundHalfEven ((units : ℚ) / (one : ℕ) * 100)).toNat =
      if 2 * (units * 100 % one) < one ∨
          (2 * (units * 100 % one) = one ∧ units * 100 / one % 2 = 0) then units * 100 / one
      else units * 100 / one + 1 := by
    rw [hscale, roundHalfEven_div _ one_pos]
    split <;> exact Int.toNat_natCast _
  rw [hcents, trimmed_two_eq]
  rfl

/-- What is printed for the number in a register is what is printed for its exact value. -/
theorem formatNumber_exact (n : ChapterNumber) :
    Label.formatNumber n = formatNumber (exact n) := by
  obtain ⟨negative, units, hn, hneg, hle⟩ := units_of_sane n.property
  have hval : (exact n).val = units / (one : ℕ) := by
    show exactValue n.val = _
    rw [hn, exactValue_finite hneg]
  have haway : roundHalfAway (exact n).val = ((Binary64.nearest units : ℕ) : ℤ) := by
    rw [hval]
    exact roundHalfAway_div units one_pos two_dvd_one
  have htest : |(exact n).val - ((Binary64.nearest units : ℕ) : ℤ)| < 1 / 2 ^ 52 ↔
      max units (Binary64.nearest units * one) - min units (Binary64.nearest units * one) <
        one / 2 ^ 52 := by
    rw [hval, Int.cast_natCast]
    exact abs_sub_lt_epsilon_iff one_pos epsilon_dvd_one units _
  have hprint : String.ofList (((twoDecimals (exact n)).rdropWhile (· == '0')).rdropWhile
      (· == '.')) = Label.twoDecimals units := by
    rw [twoDecimals_exact, ← hval]
    rfl
  rw [Label.formatNumber, hn, formatNumber, haway, hprint]
  simp only [htest]
  split
  case isTrue =>
    have hle : Binary64.nearest units ≤ 5000 := by
      have hbound : (exact n).val ≤ (5000 : ℕ) := (bounds (exact n)).2
      have haway_le := (roundHalfAway_le (bounds (exact n)).1 hbound).2
      rw [haway] at haway_le
      exact Int.ofNat_le.mp haway_le
    rw [asI64_natCast (by omega), signed_nearest hneg]
  case isFalse => rfl

/-- Where the product with 100 needs no rounding, the key in the register is the exact one. -/
theorem hundredths_exact (n : ChapterNumber)
    (h : ∀ negative units, n.val = .finite negative units →
      Binary64.roundUnits (units * 100) = units * 100) :
    Label.hundredths n = hundredths (exact n) := by
  obtain ⟨negative, units, hn, hneg, hle⟩ := units_of_sane n.property
  have hexact := h negative units hn
  have hscale : (exact n).val * 100 = ((units * 100 : ℕ) : ℚ) / (one : ℕ) := by
    show exactValue n.val * 100 = _
    rw [hn, exactValue_finite hneg, Nat.cast_mul, div_mul_eq_mul_div]
    rfl
  have haway : roundHalfAway ((exact n).val * 100) =
      ((Binary64.nearest (units * 100) : ℕ) : ℤ) := by
    rw [hscale]
    exact roundHalfAway_div (units * 100) one_pos two_dvd_one
  have hfinite : ¬2 ^ 1024 * one ≤ units * 100 := by
    have hmax : Label.saneMaxChapter * 100 = 500000 := rfl
    have hsmall : units * 100 ≤ 500000 * one := by
      calc
        units * 100 ≤ Label.saneMaxChapter * one * 100 := Nat.mul_le_mul_right 100 hle
        _ = 500000 * one := by rw [Nat.mul_right_comm, hmax]
    have hbig : 500000 * one < 2 ^ 1024 * one := by
      apply Nat.mul_lt_mul_of_pos_right _ one_pos
      decide +kernel
    exact Nat.not_le.mpr (hsmall.trans_lt hbig)
  have hproduct : n.val.timesNat 100 = .finite negative (units * 100) := by
    rw [hn, Binary64.timesNat]
    simp only [hexact, if_neg hfinite]
  have hsigned : signed negative (Binary64.nearest (units * 100)) =
      ((Binary64.nearest (units * 100) : ℕ) : ℤ) :=
    signed_nearest fun h => by rw [hneg h, Nat.zero_mul]
  rw [Label.hundredths, hproduct, Binary64.round, Binary64.toI64, Nat.mul_div_cancel _ one_pos,
    hsigned, hundredths, haway]
  rfl

/-- Chapter 0.125 as a register holds it. -/
example : let n : ChapterNumber := ⟨.finite false (2 ^ 1071), by decide +kernel⟩
    Label.hundredths n = "13" ∧ Label.formatNumber n = "0.12" := by
  decide +kernel

end Registers

end Komika.Chapters.ExactLabel
