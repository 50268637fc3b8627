import Komika.Cache.SpineMirror
import Komika.Chapters.WorkChapters
import Komika.Feed.PersistScan

/-!
# Two clocks from one text

A Suwayomi chapter's `upload_date` is read twice.  `normalize_epoch_millis`
(`series_cache.rs`) takes a number below 10^12 for seconds, and refuses one that
is not positive or lies past 2100; the newest of what remains is the series'
`latest_chapter_at`.  `suwayomi_upload_date_to_iso` (`catalog/mod.rs`) takes every
number for milliseconds, and writes each chapter's time into the spine.

The two agree on a list exactly if every `upload_date` in it is no number, or
milliseconds between 2001-09-09 and 2100, or a time that both refuse
(`clocksAgree_iff`).

* `spineTime_iff`, `normalizeEpochMillis_eq` — each clock as a function of the number
  that it reads;
* `conversions_agree_iff`, `each_iff` — one number, and one chapter;
* `castInteger_padded`, `publishedAt_eq_none_iff` — the newest time of a list, as each
  clock stores it;
* `clocksAgree_iff` — every list;
* `not_clocksAgree_seconds` — a source that counts in seconds.
-/

namespace Komika.Cache.ReleaseClocks

open Komika.Catalog.Ledger (ChapterInput)
open Komika.Cache.SeriesCache
open Komika.Feed.Schema (SuwayomiChapter)
open Komika.Feed.PersistScan

variable {ν : Type}

/-! ## The spine's clock

Every number is milliseconds, as far as `chrono` can represent them. -/

/-- What `chrono` does for it: `DateTime::from_timestamp_millis`, and the text of
the time that this gives. -/
structure Chrono where
  timestampMillis : Int → Option String
  /-- Two times have two texts. -/
  injective : ∀ a b text, timestampMillis a = some text → timestampMillis b = some text →
    a = b
  /-- The times from 1970 to 2100 can be represented. -/
  represents : ∀ ms, 0 < ms → ms ≤ 4102444800000 → (timestampMillis ms).isSome = true

/-- The number that both clocks read in an `upload_date`: `trim().parse().ok()`. -/
def parsed (rules : ScanRules) (uploadDate : Option String) : Option Int :=
  uploadDate.bind fun text => rules.parseI64 (rules.trim text)

/-- `suwayomi_upload_date_to_iso`: the number in the text taken as milliseconds,
whatever its size. -/
def suwayomiUploadDateToIso (rules : ScanRules) (chrono : Chrono)
    (uploadDate : Option String) : Option String :=
  (parsed rules uploadDate).bind chrono.timestampMillis

/-- The rules of the spine's writers, with that conversion. -/
def spineWriterRules (rules : ScanRules) (chrono : Chrono) (cache : CacheRules ν) :
    CacheRules ν :=
  { cache with uploadDateToIso := suwayomiUploadDateToIso rules chrono }

/-- `published_at` of the spine input of a chapter. -/
def publishedAt (rules : ScanRules) (chrono : Chrono) (cache : CacheRules ν)
    (c : SuwayomiChapter) : Option String :=
  (suwayomiChapterInput (spineWriterRules rules chrono cache) c).publishedAt

/-- The spine's time of the chapter, in milliseconds. -/
def SpineTime (rules : ScanRules) (chrono : Chrono) (cache : CacheRules ν)
    (c : SuwayomiChapter) (ms : Int) : Prop :=
  ∃ text, publishedAt rules chrono cache c = some text ∧
    chrono.timestampMillis ms = some text

/-! ## Agreement

What it is to read one time out of one text, chapter by chapter. -/

/-- The clocks agree on a list. -/
structure ClocksAgree (rules : ScanRules) (chrono : Chrono) (cache : CacheRules ν)
    (chapters : List SuwayomiChapter) : Prop where
  /-- `latest_chapter_at` is the newest time in the spine. -/
  latest : ∀ text, deriveLatestChapterAt rules chapters = some text →
    IsGreatest {ms | ∃ c ∈ chapters, SpineTime rules chrono cache c ms} (castInteger text)
  /-- One is absent exactly when the other is. -/
  absent : deriveLatestChapterAt rules chapters = none ↔
    ∀ c ∈ chapters, publishedAt rules chrono cache c = none
  /-- Each chapter's time in the spine is what `normalize_epoch_millis` makes of
  its `upload_date`. -/
  each : ∀ c ∈ chapters, ∀ ms,
    SpineTime rules chrono cache c ms ↔
      c.uploadDate.bind (normalizeEpochMillis rules) = some ms

/-- No number; or plausible milliseconds; or implausible, and past what `chrono`
can represent. -/
def Unambiguous (rules : ScanRules) (chrono : Chrono) (uploadDate : Option String) : Prop :=
  ∀ n, parsed rules uploadDate = some n →
    (1000000000000 ≤ n ∧ n ≤ 4102444800000) ∨
      ((n ≤ 0 ∨ 4102444800000 < n) ∧ chrono.timestampMillis n = none)

/-- `normalize_epoch_millis` on a number. -/
def normalized (n : Int) : Option Int :=
  if n ≤ 0 then none
  else
    let ms := if n < 1000000000000 then n * 1000 else n
    if 4102444800000 < ms then none else some ms

section Chapter

variable {rules : ScanRules} {chrono : Chrono} {cache : CacheRules ν}

/-- The clock of the cache reads the number first, and then sorts it. -/
theorem normalizeEpochMillis_eq (uploadDate : Option String) :
    uploadDate.bind (normalizeEpochMillis rules) =
      (parsed rules uploadDate).bind normalized := by
  cases uploadDate <;> rfl

/-- What it takes is positive, and no later than 2100. -/
theorem normalized_pos {n ms : Int} (h : normalized n = some ms) :
    0 < ms ∧ ms ≤ 4102444800000 := by
  unfold normalized at h
  by_cases hn : n ≤ 0
  · simp [hn] at h
  · rw [if_neg hn] at h
    by_cases hsmall : n < 1000000000000
    · simp only [hsmall, if_true] at h
      split at h
      · contradiction
      · have hms := Option.some.inj h
        omega
    · simp only [hsmall, if_false] at h
      split at h
      · contradiction
      · have hms := Option.some.inj h
        omega

/-- The spine's time is the number itself, where it can be represented. -/
theorem spineTime_iff {c : SuwayomiChapter} {ms : Int} :
    SpineTime rules chrono cache c ms ↔
      parsed rules c.uploadDate = some ms ∧ (chrono.timestampMillis ms).isSome = true := by
  have hpublished : publishedAt rules chrono cache c =
      (parsed rules c.uploadDate).bind chrono.timestampMillis := rfl
  unfold SpineTime
  rw [hpublished]
  constructor
  · rintro ⟨text, htext, hms⟩
    obtain ⟨n, hn, hntext⟩ := Option.bind_eq_some_iff.mp htext
    have hsame := chrono.injective n ms text hntext hms
    rw [hn, hsame, hms]
    exact ⟨rfl, rfl⟩
  · rintro ⟨hn, hsome⟩
    obtain ⟨text, htext⟩ := Option.isSome_iff_exists.mp hsome
    exact ⟨text, by rw [hn, Option.bind_some, htext], htext⟩

/-- On one number the two conversions give the same time exactly in the cases of
`Unambiguous`. -/
theorem conversions_agree_iff (n : Int) :
    (∀ ms, (n = ms ∧ (chrono.timestampMillis ms).isSome = true) ↔ normalized n = some ms) ↔
      (1000000000000 ≤ n ∧ n ≤ 4102444800000) ∨
        ((n ≤ 0 ∨ 4102444800000 < n) ∧ chrono.timestampMillis n = none) := by
  have hrepresents := chrono.represents n
  constructor
  · intro h
    by_cases hplausible : 0 < n ∧ n ≤ 4102444800000
    · have hn := (h n).mp ⟨rfl, hrepresents hplausible.1 hplausible.2⟩
      by_cases hsmall : n < 1000000000000
      · -- seconds are scaled, so they do not stay what they are
        rw [normalized, if_neg (by omega)] at hn
        simp only [hsmall, if_true] at hn
        split at hn
        · contradiction
        · have hms := Option.some.inj hn
          omega
      · exact .inl (by omega)
    · refine .inr ⟨by omega, ?_⟩
      by_contra hsome
      have hn := (h n).mp ⟨rfl, Option.isSome_iff_ne_none.mpr hsome⟩
      exact hplausible (normalized_pos hn)
  · rintro (⟨hlow, hhigh⟩ | ⟨hout, hnone⟩) ms
    · have hn : normalized n = some n := by
        unfold normalized
        rw [if_neg (by omega)]
        simp only [show ¬n < 1000000000000 by omega, if_false]
        rw [if_neg (by omega)]
      rw [hn, Option.some.injEq]
      refine and_iff_left_of_imp ?_
      rintro rfl
      exact hrepresents (by omega) hhigh
    · have hn : normalized n = none := by
        unfold normalized
        by_cases hneg : n ≤ 0
        · rw [if_pos hneg]
        · rw [if_neg hneg]
          simp only [show ¬n < 1000000000000 by omega, if_false]
          rw [if_pos (by omega)]
      rw [hn]
      constructor
      · rintro ⟨rfl, hsome⟩
        rw [hnone] at hsome
        contradiction
      · exact fun h => nomatch h

/-- The clocks agree on a chapter exactly if its `upload_date` is unambiguous. -/
theorem each_iff (c : SuwayomiChapter) :
    (∀ ms, SpineTime rules chrono cache c ms ↔
      c.uploadDate.bind (normalizeEpochMillis rules) = some ms) ↔
    Unambiguous rules chrono c.uploadDate := by
  rw [normalizeEpochMillis_eq]
  simp only [spineTime_iff]
  unfold Unambiguous
  cases hparsed : parsed rules c.uploadDate with
  | none => simp
  | some n =>
      simp only [Option.some.injEq, Option.bind_some, forall_eq']
      exact conversions_agree_iff n

end Chapter

/-! ## The newest time

The series stores the greatest time as padded text, so that the order of texts is the
order of numbers. -/

theorem toList_pushn (c : Char) (n : Nat) : ("".pushn c n).toList = List.replicate n c := by
  rw [String.pushn_eq_repeat_push]
  induction n with
  | zero => rfl
  | succ n ih =>
      rw [Nat.repeat, String.toList_push, ih, List.replicate_succ']

/-- The zeros in front do not change the number. -/
theorem castInteger_padded {ms : Int} (h : 0 ≤ ms) : castInteger (padded ms) = ms := by
  obtain ⟨n, rfl⟩ := Int.eq_ofNat_of_zero_le h
  have hdigits : (toString (n : Int)).toList = Nat.toDigits 10 n := Nat.toList_repr
  have hlist : (padded n).toList =
      List.replicate (13 - (toString (n : Int)).length) '0' ++ Nat.toDigits 10 n := by
    rw [padded, String.toList_append, hdigits, toList_pushn]
  have hall : ∀ c ∈ (padded n).toList, c.isDigit = true := by
    intro c hc
    rw [hlist] at hc
    rcases List.mem_append.mp hc with hc | hc
    · rw [List.eq_of_mem_replicate hc]
      rfl
    · exact Nat.isDigit_of_mem_toDigits (by decide) (by decide) hc
  have hne : (padded n).toList ≠ [] := by
    rw [hlist]
    simp
  obtain ⟨c, cs, hcons⟩ := List.exists_cons_of_ne_nil hne
  have hvalue : leadingDigits (padded n).toList = n := by
    rw [leadingDigits, List.takeWhile_eq_self_iff.mpr hall, hlist, Nat.ofDigitChars_append]
    simp
  unfold castInteger
  rw [hcons, signedInteger_of_isDigit (hall c (by simp [hcons])), ← hcons, hvalue]

section Lists

variable {rules : ScanRules} {chrono : Chrono} {cache : CacheRules ν}
  {chapters : List SuwayomiChapter}

/-- The times of a list, as the series' clock reads them. -/
def times (rules : ScanRules) (chapters : List SuwayomiChapter) : List Int :=
  chapters.filterMap fun c => c.uploadDate.bind (normalizeEpochMillis rules)

/-- The series' clock is the greatest of the times, padded. -/
theorem deriveLatestChapterAt_eq :
    deriveLatestChapterAt rules chapters = (times rules chapters).max?.map padded := rfl

/-- A chapter without a time in the spine. -/
theorem publishedAt_eq_none_iff {c : SuwayomiChapter} :
    publishedAt rules chrono cache c = none ↔ ∀ ms, ¬SpineTime rules chrono cache c ms := by
  constructor
  · rintro hnone ms ⟨text, htext, -⟩
    rw [hnone] at htext
    contradiction
  · intro hnot
    rw [Option.eq_none_iff_forall_ne_some]
    intro text htext
    obtain ⟨n, -, hn⟩ := Option.bind_eq_some_iff.mp htext
    exact hnot n ⟨text, htext, hn⟩

/-- Where every chapter has one time, so has the list. -/
theorem clocksAgree_of_each
    (h : ∀ c ∈ chapters, ∀ ms, SpineTime rules chrono cache c ms ↔
      c.uploadDate.bind (normalizeEpochMillis rules) = some ms) :
    ClocksAgree rules chrono cache chapters := by
  have htimes : ∀ ms, (∃ c ∈ chapters, SpineTime rules chrono cache c ms) ↔
      ms ∈ times rules chapters := by
    intro ms
    rw [times, List.mem_filterMap]
    exact exists_congr fun c => and_congr_right fun hc => h c hc ms
  refine ⟨?_, ?_, h⟩
  · intro text htext
    rw [deriveLatestChapterAt_eq] at htext
    obtain ⟨ms, hmax, rfl⟩ := Option.map_eq_some_iff.mp htext
    obtain ⟨hmem, hgreatest⟩ := List.max?_eq_some_iff.mp hmax
    have hpos : 0 ≤ ms := by
      obtain ⟨c, -, hc⟩ := List.mem_filterMap.mp hmem
      rw [normalizeEpochMillis_eq] at hc
      obtain ⟨n, -, hn⟩ := Option.bind_eq_some_iff.mp hc
      have hlow := (normalized_pos hn).1
      omega
    rw [castInteger_padded hpos]
    refine ⟨(htimes ms).mpr hmem, fun other hother => ?_⟩
    exact hgreatest other ((htimes other).mp hother)
  · rw [deriveLatestChapterAt_eq, Option.map_eq_none_iff, List.max?_eq_none_iff,
      List.eq_nil_iff_forall_not_mem]
    constructor
    · intro hnone c hc
      rw [publishedAt_eq_none_iff]
      exact fun ms hms => hnone ms ((htimes ms).mp ⟨c, hc, hms⟩)
    · intro hnone ms hms
      obtain ⟨c, hc, htime⟩ := (htimes ms).mpr hms
      exact publishedAt_eq_none_iff.mp (hnone c hc) ms htime

end Lists

/-- **When the two clocks agree.**  On any list: the series' time is the newest in the
spine, one is absent when the other is, and each chapter has one time, exactly if every
`upload_date` is unambiguous.  One clock takes small numbers for seconds and refuses far
ones, the other takes every number for milliseconds. -/
theorem clocksAgree_iff (rules : ScanRules) (chrono : Chrono) (cache : CacheRules ν)
    (chapters : List SuwayomiChapter) :
    ClocksAgree rules chrono cache chapters ↔
      ∀ c ∈ chapters, Unambiguous rules chrono c.uploadDate := by
  constructor
  · exact fun h c hc => (each_iff c).mp (h.each c hc)
  · exact fun h => clocksAgree_of_each fun c hc => (each_iff c).mpr (h c hc)

/-! ## A date in seconds

A source outside of what the spine expects. -/

/-- The standard library's rules. -/
def textRules : ScanRules :=
  { scanRules with
    trim := Chapters.Label.trim
    parseI64 := Chapters.WorkChapters.parseI64 }

/-- The time of 1750000000 milliseconds, as `chrono` writes it. -/
def earlyTime : String := "1970-01-21T06:06:40+00:00"

/-- A `chrono` that writes this time as the real one does. -/
def plainChrono : Chrono where
  timestampMillis ms := some (if ms = 1750000000 then earlyTime else toString ms)
  injective a b text ha hb := by
    have hother : ∀ n : Int, toString n ≠ earlyTime := by
      intro n hn
      have hvalue : n = castInteger earlyTime := by rw [← hn, castInteger_toString]
      rw [hvalue] at hn
      revert hn
      decide +kernel
    have hsame := (Option.some.inj ha).trans (Option.some.inj hb).symm
    by_cases hae : a = 1750000000
    · by_cases hbe : b = 1750000000
      · rw [hae, hbe]
      · rw [if_pos hae, if_neg hbe] at hsame
        exact absurd hsame.symm (hother b)
    · by_cases hbe : b = 1750000000
      · rw [if_neg hae, if_pos hbe] at hsame
        exact absurd hsame (hother a)
      · rw [if_neg hae, if_neg hbe] at hsame
        rw [← castInteger_toString a, hsame, castInteger_toString]
  represents _ _ _ := rfl

/-- A chapter whose source counts in seconds. -/
def inSeconds : SuwayomiChapter where
  id := 90
  mangaId := 9
  name := "Chapter 1"
  chapterNumber := 1
  scanlator := none
  uploadDate := some "1750000000"
  isRead := false
  isBookmarked := false
  isDownloaded := false
  lastPageRead := 0
  pageCount := 20

/-- The series says June 2025, and the spine January 1970. -/
theorem not_clocksAgree_seconds :
    ¬ClocksAgree textRules plainChrono SpineMirror.plainCacheRules [inSeconds] := by
  intro h
  have hseries : deriveLatestChapterAt textRules [inSeconds] = some "1750000000000" := by
    decide +kernel
  have hparsed : parsed textRules inSeconds.uploadDate = some 1750000000 := by
    decide +kernel
  obtain ⟨⟨c, hc, htime⟩, -⟩ := h.latest _ hseries
  rw [List.mem_singleton.mp hc] at htime
  have hspine := (spineTime_iff.mp htime).1
  rw [hparsed] at hspine
  revert hspine
  decide +kernel

end Komika.Cache.ReleaseClocks
