import Komika.Chapters.Label

/-!
# Insane numbers

`chapter_display` asks three slots for a number and takes the first sane one.
An insane number in the first two is never shown: the first is no text, and the
second is skipped as a label if it parses.  The name is the label that is left,
and nobody asks whether the name parses.

* `chapterDisplay_eq` — the slots, one after the other;
* `chapterDisplay_text` — a number and its text give one label;
* `neverInsane_iff` — when no insane number is shown.
-/

namespace Komika.Chapters.InsaneNumbers

open Komika.Lib
open Komika.Catalog.SpineKeys Komika.Chapters.Label

/-- A slot's text, trimmed, if anything is left. -/
def words (text : Option String) : Option String := (text.map trim).bind nonEmpty

theorem words_some {text : String} (h : trim text ≠ "") : words (some text) = some (trim text) :=
  if_neg h

theorem ne_of_words {text : Option String} {t : String} (h : words text = some t) : t ≠ "" := by
  obtain ⟨s, -, hs⟩ := Option.bind_eq_some_iff.mp h
  unfold nonEmpty at hs
  split at hs
  · contradiction
  · next hne =>
      rw [← Option.some.inj hs]
      exact hne

section Slots

variable (parse : String → Option Binary64) (number : Option Binary64) (raw name : Option String)

/-- The first sane number of the three slots. -/
def firstSane : Option ChapterNumber :=
  ((number.bind sane).or (((words raw).bind parse).bind sane)).or
    ((name.bind (firstNumber parse)).bind sane)

/-- The label where there is none. -/
def fallback : String :=
  (((words raw).filter fun s => (parse s).isNone).or (words name)).getD "Oneshot"

theorem chapterDisplay_eq :
    chapterDisplay parse number raw name =
      (firstSane parse number raw name).elim (.unnumbered (fallback parse raw name))
        .numbered := by
  unfold chapterDisplay firstSane fallback words
  dsimp only
  cases number.bind sane with
  | some n => rfl
  | none =>
      cases (((raw.map trim).bind nonEmpty).bind parse).bind sane with
      | some n => rfl
      | none =>
          cases (name.bind (firstNumber parse)).bind sane with
          | some n => rfl
          | none => rfl

/-! ## The property

What is shown, and what an insane number is. -/

/-- What a label may show. -/
def Shows : ChapterLabel ChapterNumber → Prop
  | .numbered n => (Binary64.ofNat 0).le n = true ∧ n.val.le (.ofNat saneMaxChapter) = true
  | .unnumbered text => text ≠ "" ∧ parse text = none

/-- No insane number is shown, and a number and its text are one chapter. -/
structure NeverInsane : Prop where
  shows : Shows parse (chapterDisplay parse number raw name)
  /-- `text` is any text that reads as the number. -/
  sameLabel : ∀ x text, number = some x → trim text ≠ "" → parse (trim text) = some x →
    chapterDisplay parse (some x) none name = chapterDisplay parse none (some text) name
  sameKey : ∀ x text identity, number = some x → trim text ≠ "" →
    parse (trim text) = some x →
      (chapterDisplay parse (some x) none name).key (labelRules parse) identity =
        (chapterDisplay parse none (some text) name).key (labelRules parse) identity

/-- No slot has a sane number, the raw text is no word, and the name is itself a
number. -/
structure NumeralName : Prop where
  number : number.bind sane = none
  raw : ∀ t, words raw = some t → ∃ x, parse t = some x ∧ sane x = none
  digits : (name.bind (firstNumber parse)).bind sane = none
  name : ∃ t, words name = some t ∧ (parse t).isSome = true

end Slots

section Labels

variable {parse : String → Option Binary64} {number : Option Binary64} {raw name : Option String}

/-- A number and a text that reads as it give one label. -/
theorem chapterDisplay_text {x : Binary64} {text : String} (hblank : trim text ≠ "")
    (hparse : parse (trim text) = some x) :
    chapterDisplay parse (some x) none name = chapterDisplay parse none (some text) name := by
  have hwords : words (some text) = some (trim text) := words_some hblank
  have hfirst : firstSane parse (some x) none name = firstSane parse none (some text) name := by
    have hnone : words none = none := rfl
    simp [firstSane, hwords, hparse, hnone]
  -- a text that parses is no label of its own
  have hfallback : fallback parse none name = fallback parse (some text) name := by
    have hskipped : (some (trim text)).filter (fun s => (parse s).isNone) = none := by
      rw [Option.filter_some, if_neg (by simp [hparse])]
    rw [fallback, fallback, hwords, hskipped]
    rfl
  rw [chapterDisplay_eq, chapterDisplay_eq, hfirst, hfallback]

theorem firstSane_eq_none :
    firstSane parse number raw name = none ↔
      number.bind sane = none ∧ ((words raw).bind parse).bind sane = none ∧
        (name.bind (firstNumber parse)).bind sane = none := by
  rw [firstSane, Option.or_eq_none_iff, Option.or_eq_none_iff, and_assoc]

/-- A sane number is what its type says. -/
theorem shows_numbered (n : ChapterNumber) : Shows parse (.numbered n) := by
  have hsane := n.property
  unfold isSaneNumber at hsane
  simp only [Bool.and_eq_true] at hsane
  exact hsane.2

theorem fallback_ne (parse : String → Option Binary64) (raw name : Option String) :
    fallback parse raw name ≠ "" := by
  unfold fallback
  cases hraw : (words raw).filter fun s => (parse s).isNone with
  | some t => exact ne_of_words (Option.filter_eq_some_iff.mp hraw).1
  | none =>
      cases hname : words name with
      | some t => exact ne_of_words hname
      | none => decide

/-- The label that is left parses exactly if it is a name that does. -/
theorem parse_fallback (hword : parse "Oneshot" = none) :
    parse (fallback parse raw name) = none ↔
      ¬((∀ t, words raw = some t → (parse t).isSome = true) ∧
        ∃ t, words name = some t ∧ (parse t).isSome = true) := by
  unfold fallback
  cases hraw : (words raw).filter fun s => (parse s).isNone with
  | some t =>
      obtain ⟨hwords, hnone⟩ := Option.filter_eq_some_iff.mp hraw
      have hnone : parse t = none := Option.isNone_iff_eq_none.mp hnone
      simp [hwords, hnone]
  | none =>
      have hparses : ∀ t, words raw = some t → (parse t).isSome = true := by
        intro t ht
        have hskipped := Option.filter_eq_none_iff.mp hraw t ht
        rwa [Option.isNone_iff_eq_none, ← ne_eq, Option.ne_none_iff_isSome] at hskipped
      cases hname : words name with
      | none => simp [hword]
      | some t =>
          simp only [Option.none_or, Option.getD_some, Option.some.injEq, exists_eq_left']
          rw [and_iff_right hparses, Bool.not_eq_true, Option.isSome_eq_false_iff,
            Option.isNone_iff_eq_none]

theorem shows_iff (hword : parse "Oneshot" = none) :
    Shows parse (chapterDisplay parse number raw name) ↔
      ¬NumeralName parse number raw name := by
  rw [chapterDisplay_eq]
  cases hfirst : firstSane parse number raw name with
  | some n =>
      refine iff_of_true (shows_numbered n) fun h => ?_
      have hraw : ((words raw).bind parse).bind sane = none := by
        cases hwords : words raw with
        | none => rfl
        | some t =>
            obtain ⟨x, hx, hsane⟩ := h.raw t hwords
            rw [Option.bind_some, hx, Option.bind_some, hsane]
      rw [firstSane_eq_none.mpr ⟨h.number, hraw, h.digits⟩] at hfirst
      contradiction
  | none =>
      obtain ⟨hnumber, hraw, hdigits⟩ := firstSane_eq_none.mp hfirst
      show _ ≠ "" ∧ parse (fallback parse raw name) = none ↔ _
      rw [parse_fallback hword]
      constructor
      · rintro ⟨-, hnot⟩ h
        refine hnot ⟨fun t ht => ?_, h.name⟩
        obtain ⟨x, hx, -⟩ := h.raw t ht
        rw [hx]
        rfl
      · intro hnot
        refine ⟨fallback_ne parse raw name, fun ⟨hparses, hname⟩ => hnot ?_⟩
        refine ⟨hnumber, fun t ht => ?_, hdigits, hname⟩
        obtain ⟨x, hx⟩ := Option.isSome_iff_exists.mp (hparses t ht)
        rw [ht, Option.bind_some, hx, Option.bind_some] at hraw
        exact ⟨x, hx, hraw⟩

theorem NeverInsane.not_numeralName (h : NeverInsane parse number raw name)
    (hword : parse "Oneshot" = none) : ¬NumeralName parse number raw name :=
  (shows_iff hword).mp h.shows

/-- **An insane number is never shown**, except where nothing is left to show but a name
that is itself a number: the number and the raw text are judged before they are shown,
but the name, as the last resort, is not. -/
theorem neverInsane_iff (parse : String → Option Binary64) (number : Option Binary64)
    (raw name : Option String) (hword : parse "Oneshot" = none) :
    NeverInsane parse number raw name ↔ ¬NumeralName parse number raw name := by
  constructor
  · exact fun h => h.not_numeralName hword
  · intro h
    refine ⟨(shows_iff hword).mpr h, ?_, ?_⟩
    · intro x text _ hblank hparse
      exact chapterDisplay_text hblank hparse
    · intro x text identity _ hblank hparse
      rw [chapterDisplay_text hblank hparse]

end Labels

/-! ## Two series

One with a word for a name, and one with a number. -/

/-- The texts of two numbers, as `str::parse` reads them. -/
def sentinels (text : String) : Option Binary64 :=
  if text = "-1" then some (.finite true Binary64.one)
  else if text = "1" then some (.ofNat 1)
  else if text = "99999999" then some (.ofNat 99999999)
  else none

theorem neverInsane_oneshot :
    NeverInsane sentinels (some (.finite true Binary64.one)) (some "-1") (some "Oneshot") := by
  apply (neverInsane_iff sentinels _ _ _ (by decide)).mpr
  rintro ⟨-, -, -, t, ht, hparse⟩
  have hname : words (some "Oneshot") = some "Oneshot" := by decide
  rw [hname] at ht
  rw [← Option.some.inj ht] at hparse
  exact absurd hparse (by decide)

/-- The number of a test upload, and its name. -/
theorem not_neverInsane_testUpload :
    ¬NeverInsane sentinels (some (.ofNat 99999999)) none (some "99999999") := by
  intro h
  apply h.not_numeralName (by decide)
  exact
    { number := by decide +kernel
      raw := nofun
      digits := by decide +kernel
      name := ⟨"99999999", by decide, by decide +kernel⟩ }

end Komika.Chapters.InsaneNumbers
