import Komika.Cache.SeriesCache
import Komika.Chapters.Label
import Komika.Lib.Grouping
import Komika.Lib.SortBy
import Mathlib.Data.String.Basic
import Mathlib.Order.WithBot

/-!
# The chapters a reader sees

`select_reader_chapters` (`catalog/mod.rs`) keeps one of the mirrored rows of
each chapter and sorts what it kept.  It groups by the label's key, which no
insane number has; but it sorts by the number as it is parsed.  A number below
zero is then before the numbered chapters, and `nan` is not comparable at all.

* `mem_selected`, `exists_selected`, `nodup_selected` — one row of each key, the
  best one;
* `readerCmp_eq`, `totalOn_readerCmp_iff` — the comparator, and when it is a total
  order;
* `canonical_iff` — when the selection is canonical.

The map is a grouping by key, so what is selected is one row of each key
(`mem_selected`); the sort is by a comparator that need not be total, so the result is
any list that the sort may leave (`SelectsReaderChapters`).
-/

namespace Komika.Chapters.ReaderSelection

open Std (TransCmp)
open Komika.Lib Komika.Lib.SortBy
open Komika.Catalog.SpineKeys
open Komika.Cache.SeriesCache (castInteger castInteger_toString)
open Komika.Chapters.Label

/-! ## The code

The group, the preference within it, and the sort. -/

/-- A mirrored row, as the query returns it. -/
structure CanonicalChapter where
  externalId : String
  number : Option String
  volume : Option String
  lang : Option String
  title : Option String
  publishedAt : Option String
  externalUrl : Option String
deriving DecidableEq, Repr

/-- `chapter_sort_key`; `parse` is `str::parse::<f64>`. -/
def chapterSortKey (parse : String → Option Binary64) (number : Option String) : Binary64 :=
  ((number.map trim).bind parse).getD (.infinity false)

/-- The release text, with `None` before every text. -/
def releaseText (r : CanonicalChapter) : WithBot String := r.publishedAt

/-- The row is in English. -/
def isEnglish (r : CanonicalChapter) : Bool := r.lang = some "en"

/-- `prefer_reader_chapter`: English, then the later release, then the smaller id. -/
def preferReaderChapter (candidate existing : CanonicalChapter) : Bool :=
  if isEnglish candidate ≠ isEnglish existing then isEnglish candidate
  else
    match compare (releaseText candidate) (releaseText existing) with
    | .gt => true
    | .lt => false
    | .eq => candidate.externalId < existing.externalId

section Code

variable (parse : String → Option Binary64)

/-- The label of a row. -/
def chapterLabel (r : CanonicalChapter) : ChapterLabel ChapterNumber :=
  chapterDisplay parse none r.number none

/-- Its key, by which rows are grouped. -/
def chapterKey (r : CanonicalChapter) : String :=
  (chapterLabel parse r).key (labelRules parse) r.externalId

/-- The body of the loop, for the entry of the row's key. -/
def better (existing row : CanonicalChapter) : CanonicalChapter :=
  if preferReaderChapter row existing then row else existing

/-- `best` at the end of the loop. -/
def bestRows (rows : List CanonicalChapter) : Std.TreeMap String CanonicalChapter compare :=
  Grouping.collect compare (chapterKey parse) id better rows

/-- The rows that `best` holds. -/
def selected (rows : List CanonicalChapter) : List CanonicalChapter :=
  (bestRows parse rows).toList.map Prod.snd

/-- The comparator of the sort. -/
def readerCmp (a b : CanonicalChapter) : Ordering :=
  (((chapterSortKey parse a.number).partialCmp (chapterSortKey parse b.number)).getD
    .eq).then (compare a.externalId b.externalId)

/-- `select_reader_chapters`; `into_values` lists a hash map in any order. -/
def SelectsReaderChapters (rows out : List CanonicalChapter) : Prop :=
  ∃ values, values.Perm (selected parse rows) ∧ SortsTo (readerCmp parse) values out

/-! ## The property

One row of each chapter, in order, however the rows came. -/

/-- The number that is shown of a row. -/
def numberOf (r : CanonicalChapter) : Option ChapterNumber := number (chapterLabel parse r)

/-- `round(number * 100)`, the key of a numbered row. -/
def cents (r : CanonicalChapter) : Option Int :=
  (numberOf parse r).map fun n => (n.val.timesNat 100).round.toI64

/-- The row shows no number. -/
def unnumbered (r : CanonicalChapter) : Bool := (cents parse r).isNone

/-- English first, then the latest release text, then the smallest id. -/
def rank (r : CanonicalChapter) : Bool ×ₗ WithBot String ×ₗ Stringᵒᵈ :=
  toLex (isEnglish r, toLex (releaseText r, OrderDual.toDual r.externalId))

/-- A row may stand before another one: numbers ascend, and what has none is last. -/
def MayPrecede (a b : CanonicalChapter) : Prop :=
  ∀ n, numberOf parse b = some n → ∃ m, numberOf parse a = some m ∧ m.val.le n.val = true

/-- One row of each chapter, the best one, in order. -/
structure IsSelection (rows out : List CanonicalChapter) : Prop where
  subset : out ⊆ rows
  oneRow : (out.filterMap (cents parse)).Nodup
  covers : ∀ r ∈ rows, ∀ c, cents parse r = some c → ∃ a ∈ out, cents parse a = some c
  keeps : (out.filter (unnumbered parse)).Perm (rows.filter (unnumbered parse))
  best : ∀ a ∈ out, ∀ r ∈ rows, ∀ c, cents parse a = some c → cents parse r = some c →
    rank r ≤ rank a
  ordered : out.Pairwise (MayPrecede parse)

/-- The comparator is a total order on what is sorted, the result is one row of
each chapter, and it does not depend on the order of the rows. -/
structure Canonical (rows : List CanonicalChapter) : Prop where
  total : TotalOn (readerCmp parse) (selected parse rows)
  selection : ∀ out, SelectsReaderChapters parse rows out → IsSelection parse rows out
  unique : ∀ rows' out out', rows.Perm rows' → SelectsReaderChapters parse rows out →
    SelectsReaderChapters parse rows' out' → out = out'

end Code

/-! ## Preference

A rank, of which the greatest is kept. -/

theorem preferReaderChapter_iff {candidate existing : CanonicalChapter} :
    preferReaderChapter candidate existing = true ↔ rank existing < rank candidate := by
  rw [rank, rank, Prod.Lex.toLex_lt_toLex, Prod.Lex.toLex_lt_toLex, preferReaderChapter]
  by_cases hen : isEnglish candidate = isEnglish existing
  · rw [if_neg (not_not.mpr hen), hen]
    simp only [lt_irrefl, true_and, false_or]
    rcases lt_trichotomy (releaseText candidate) (releaseText existing) with hlt | heq | hgt
    · rw [compare_lt_iff_lt.mpr hlt]
      simp [hlt.not_gt, hlt.ne']
    · rw [compare_eq_iff_eq.mpr heq, heq]
      simp
    · rw [compare_gt_iff_gt.mpr hgt]
      simp [hgt]
  · rw [if_pos hen]
    cases hc : isEnglish candidate <;> cases he : isEnglish existing <;>
      simp_all

theorem rank_le_iff {r best : CanonicalChapter} :
    rank r ≤ rank best ↔ preferReaderChapter r best = false := by
  rw [← not_lt, ← preferReaderChapter_iff, Bool.not_eq_true]

theorem better_self (e : CanonicalChapter) : better e e = e := by
  unfold better
  split <;> rfl

/-- The loop keeps one of the rows, and no other one has a greater rank. -/
theorem foldl_better (e : CanonicalChapter) (rows : List CanonicalChapter) :
    rows.foldl better e ∈ e :: rows ∧ ∀ r ∈ e :: rows, rank r ≤ rank (rows.foldl better e) := by
  induction rows generalizing e with
  | nil => simp
  | cons q rows ih =>
      obtain ⟨hmem, hmax⟩ := ih (better e q)
      have hbetter : (better e q = e ∨ better e q = q) ∧ rank e ≤ rank (better e q) ∧
          rank q ≤ rank (better e q) := by
        unfold better
        by_cases hq : preferReaderChapter q e = true
        · rw [if_pos hq]
          exact ⟨Or.inr rfl, (preferReaderChapter_iff.mp hq).le, le_rfl⟩
        · rw [if_neg hq]
          exact ⟨Or.inl rfl, le_rfl, rank_le_iff.mpr (Bool.not_eq_true _ ▸ hq)⟩
      have hkept := hmax (better e q) List.mem_cons_self
      rw [List.foldl_cons]
      constructor
      · rcases List.mem_cons.mp hmem with hmem | hmem
        · rw [hmem]
          rcases hbetter.1 with h | h <;> rw [h] <;> simp
        · exact List.mem_cons_of_mem _ (List.mem_cons_of_mem _ hmem)
      · intro r hr
        rcases List.mem_cons.mp hr with rfl | hr
        · exact hbetter.2.1.trans hkept
        · rcases List.mem_cons.mp hr with rfl | hr
          · exact hbetter.2.2.trans hkept
          · exact hmax r (List.mem_cons_of_mem _ hr)

/-- A row that no later one is preferred to stays. -/
theorem foldl_better_of_max {e : CanonicalChapter} {rows : List CanonicalChapter}
    (h : ∀ r ∈ rows, rank r ≤ rank e) : rows.foldl better e = e := by
  induction rows with
  | nil => rfl
  | cons q rows ih =>
      have hkeep : better e q = e := by
        rw [better, rank_le_iff.mp (h q List.mem_cons_self)]
        rfl
      rw [List.foldl_cons, hkeep]
      exact ih fun r hr => h r (List.mem_cons_of_mem _ hr)

/-! ## What is selected

The rows that the map ends with. -/

section Selection

variable {parse : String → Option Binary64} {rows : List CanonicalChapter}
variable {a b r : CanonicalChapter}

/-- An entry is the best row of its key. -/
theorem entry_spec {k : String} (h : (k, a) ∈ (bestRows parse rows).toList) :
    chapterKey parse a = k ∧ a ∈ rows ∧
      ∀ r ∈ rows, chapterKey parse r = k → rank r ≤ rank a := by
  have hsummary := Grouping.mem_toList_collect h
  generalize hrows : Grouping.members compare (chapterKey parse) rows k = members at hsummary
  have hmembers : ∀ r, r ∈ members ↔ r ∈ rows ∧ chapterKey parse r = k := fun r => by
    rw [← hrows, Grouping.mem_members, compare_eq_iff_eq]
  cases members with
  | nil => contradiction
  | cons e members =>
      have hfold : members.foldl better (better e e) = a := Option.some.inj hsummary
      rw [better_self] at hfold
      obtain ⟨hin, hmax⟩ := foldl_better e members
      rw [hfold] at hin hmax
      obtain ⟨ha, hk⟩ := (hmembers a).mp hin
      exact ⟨hk, ha, fun r hr hkey => hmax r ((hmembers r).mpr ⟨hr, hkey⟩)⟩

theorem mem_selected (h : a ∈ selected parse rows) :
    a ∈ rows ∧ ∀ r ∈ rows, chapterKey parse r = chapterKey parse a → rank r ≤ rank a := by
  obtain ⟨⟨k, g⟩, hmem, rfl⟩ := List.mem_map.mp h
  obtain ⟨hkey, hin, hmax⟩ := entry_spec hmem
  exact ⟨hin, fun r hr hr' => hmax r hr (hr'.trans hkey)⟩

variable (parse) in
theorem exists_selected (h : r ∈ rows) :
    ∃ a ∈ selected parse rows, chapterKey parse a = chapterKey parse r := by
  have hentry : ∃ k g, (k, g) ∈ (bestRows parse rows).toList ∧
      compare (chapterKey parse r) k = .eq := Grouping.exists_mem_toList_collect h
  obtain ⟨k, g, hmem, hk⟩ := hentry
  exact ⟨g, List.mem_map_of_mem hmem,
    (entry_spec hmem).1.trans (compare_eq_iff_eq.mp hk).symm⟩

theorem nodup_selected (rows : List CanonicalChapter) :
    ((selected parse rows).map (chapterKey parse)).Nodup := by
  have hkeys : (selected parse rows).map (chapterKey parse) =
      (bestRows parse rows).toList.map Prod.fst := by
    rw [selected, List.map_map]
    exact List.map_congr_left fun e he => (entry_spec he).1
  rw [hkeys]
  refine List.pairwise_map.mpr ((bestRows parse rows).distinct_keys_toList.imp ?_)
  intro x y hne heq
  exact hne (compare_eq_iff_eq.mpr heq)

theorem nodup_rows_selected (rows : List CanonicalChapter) : (selected parse rows).Nodup :=
  (nodup_selected rows).of_map _

/-- Two selected rows of one key are one row. -/
theorem eq_of_mem_selected (ha : a ∈ selected parse rows) (hb : b ∈ selected parse rows)
    (h : chapterKey parse a = chapterKey parse b) : a = b :=
  List.inj_on_of_nodup_map (nodup_selected rows) ha hb h

/-- A row in front stays if no row of its key has a greater rank. -/
theorem mem_selected_of_max (h : ∀ r ∈ rows, chapterKey parse r = chapterKey parse a →
    rank r ≤ rank a) : a ∈ selected parse (a :: rows) := by
  have hmembers : Grouping.members compare (chapterKey parse) (a :: rows)
      (chapterKey parse a) =
      a :: Grouping.members compare (chapterKey parse) rows (chapterKey parse a) := by
    simp [Grouping.members]
  have hentry : (bestRows parse (a :: rows))[chapterKey parse a]? = some a := by
    rw [bestRows, Grouping.getElem?_collect, hmembers]
    show some (List.foldl better (better a a) _) = some a
    rw [better_self, foldl_better_of_max]
    intro r hr
    obtain ⟨hr, hk⟩ := Grouping.mem_members.mp hr
    exact h r hr (compare_eq_iff_eq.mp hk)
  obtain ⟨k, -, hin⟩ :=
    Std.TreeMap.getElem?_eq_some_iff_exists_compare_eq_eq_and_mem_toList.mp hentry
  exact List.mem_map_of_mem hin

end Selection

/-! ## Keys and numbers

A key is that of the number, as long as there is one that is sane. -/

/-- The text of an integer is not the key of an unnumbered row. -/
theorem toString_ne_unnumbered (n : Int) (identity : String) :
    toString n ≠ "x:" ++ identity := by
  intro h
  have hlist := congrArg String.toList h
  rw [String.toList_append] at hlist
  cases n with
  | ofNat n =>
      have hdigits : (toString (Int.ofNat n)).toList = Nat.toDigits 10 n := Nat.toList_repr
      rw [hdigits] at hlist
      have hmem : 'x' ∈ Nat.toDigits 10 n := hlist ▸ List.mem_append_left _ (by decide)
      exact absurd (Nat.isDigit_of_mem_toDigits (by decide) (by decide) hmem) (by decide)
  | negSucc n =>
      have hdigits : (toString (Int.negSucc n)).toList =
          '-' :: (Nat.repr (n + 1)).toList := by
        show ("-" ++ Nat.repr (n + 1)).toList = _
        rw [String.toList_append]
        rfl
      rw [hdigits] at hlist
      exact absurd (List.cons.inj hlist).1 (by decide)

/-- The places of the two bounds of a number. -/
def lowest : Int ×ₗ Int := toLex (0, 0)

/-- The place of `saneMaxChapter` among the numbers. -/
def highest : Int ×ₗ Int :=
  toLex (0, Binary64.signed false (saneMaxChapter * Binary64.one))

theorem spot_ofNat_zero : (Binary64.ofNat 0).spot = some lowest := by
  rw [Binary64.ofNat, Nat.zero_mul]
  rfl

/-- The numbers a label can have are those between the two bounds. -/
theorem isSaneNumber_iff {x : Binary64} :
    isSaneNumber x = true ↔ ∃ p, x.spot = some p ∧ lowest ≤ p ∧ p ≤ highest := by
  have hmax : (Binary64.ofNat saneMaxChapter).spot = some highest := rfl
  cases hx : x.spot with
  | none =>
      rw [Binary64.spot_eq_none.mp hx]
      exact iff_of_false (fun h => nomatch h) (by simp)
  | some p =>
      rw [isSaneNumber, Bool.and_eq_true, Bool.and_eq_true, Binary64.le_of_spot spot_ofNat_zero hx,
        Binary64.le_of_spot hx hmax]
      constructor
      · rintro ⟨-, hlo, hhi⟩
        exact ⟨p, rfl, hlo, hhi⟩
      · rintro ⟨q, hq, hlo, hhi⟩
        cases hq
        refine ⟨?_, hlo, hhi⟩
        cases x with
        | nan => cases hx
        | finite negative units => rfl
        | infinity negative =>
            cases Option.some.inj hx
            rw [lowest, Prod.Lex.toLex_le_toLex] at hlo
            rw [highest, Prod.Lex.toLex_le_toLex] at hhi
            generalize Binary64.signed false (saneMaxChapter * Binary64.one) = most at hhi
            cases negative with
            | false =>
                have hrank : (1 : Int) < 0 ∨ (1 : Int) = 0 ∧ (0 : Int) ≤ most := hhi
                omega
            | true =>
                have hrank : (0 : Int) < -1 ∨ (0 : Int) = -1 ∧ (0 : Int) ≤ 0 := hlo
                omega

section Numbers

variable {parse : String → Option Binary64} {a b r : CanonicalChapter} {n : ChapterNumber}

/-- A number is shown if the parsed text is a sane number. -/
theorem numberOf_eq_bind (hempty : parse "" = none) (r : CanonicalChapter) :
    numberOf parse r = ((r.number.map trim).bind parse).bind sane := by
  have htext : ((r.number.map trim).bind nonEmpty).bind parse =
      (r.number.map trim).bind parse := by
    cases r.number.map trim with
    | none => rfl
    | some text =>
        show (nonEmpty text).bind parse = parse text
        unfold nonEmpty
        by_cases h : text = ""
        · rw [if_pos h, h, hempty]
          rfl
        · rw [if_neg h]
          rfl
  rw [numberOf, chapterLabel, chapterDisplay]
  dsimp only [Option.bind_none]
  rw [htext]
  cases ((r.number.map trim).bind parse).bind sane <;> rfl

theorem sane_eq_some {x : Binary64} : sane x = some n ↔ x = n.val := by
  unfold sane
  by_cases h : isSaneNumber x = true
  · rw [dif_pos h, Option.some.injEq]
    exact ⟨fun hn => hn ▸ rfl, fun hn => Subtype.ext hn⟩
  · rw [dif_neg h]
    refine iff_of_false (fun hn => nomatch hn) ?_
    rintro rfl
    exact h n.2

/-- The sort key of a row that shows a number is that number. -/
theorem numberOf_eq_some (hempty : parse "" = none) :
    numberOf parse r = some n ↔ chapterSortKey parse r.number = n.val := by
  rw [numberOf_eq_bind hempty, chapterSortKey]
  cases (r.number.map trim).bind parse with
  | none =>
      refine iff_of_false (fun h => nomatch h) ?_
      intro h
      have hsane : isSaneNumber (.infinity false) = true := by
        have heq : Binary64.infinity false = n.val := h
        rw [heq]
        exact n.2
      contradiction
  | some x => exact sane_eq_some

theorem spot_of_numberOf (hempty : parse "" = none) (h : numberOf parse r = some n) :
    ∃ p, (chapterSortKey parse r.number).spot = some p ∧ lowest ≤ p ∧ p ≤ highest := by
  rw [(numberOf_eq_some hempty).mp h]
  exact isSaneNumber_iff.mp n.2

/-- A row without a number is sorted before the least number or after the
greatest one, unless it is `nan`. -/
theorem spot_of_numberOf_none (hempty : parse "" = none) (h : numberOf parse r = none)
    {p : Int ×ₗ Int} (hp : (chapterSortKey parse r.number).spot = some p) :
    p < lowest ∨ highest < p := by
  by_contra hbetween
  rw [not_or, not_lt, not_lt] at hbetween
  have hsane : isSaneNumber (chapterSortKey parse r.number) = true :=
    isSaneNumber_iff.mpr ⟨p, hp, hbetween⟩
  have hsome : numberOf parse r = some ⟨_, hsane⟩ := (numberOf_eq_some hempty).mpr rfl
  rw [h] at hsome
  contradiction

theorem chapterKey_eq (r : CanonicalChapter) :
    chapterKey parse r =
      ((cents parse r).map fun c => toString c).getD ("x:" ++ r.externalId) := by
  rw [chapterKey, cents, numberOf]
  cases chapterLabel parse r <;> rfl

/-- Two rows have one key if they have one number of cents, or no number and one
id. -/
theorem chapterKey_eq_iff :
    chapterKey parse a = chapterKey parse b ↔
      cents parse a = cents parse b ∧ (cents parse a = none → a.externalId = b.externalId) := by
  rw [chapterKey_eq, chapterKey_eq]
  cases cents parse a with
  | none =>
      cases cents parse b with
      | none =>
          show "x:" ++ a.externalId = "x:" ++ b.externalId ↔ _
          simp
      | some d =>
          refine iff_of_false (fun h => ?_) (fun h => nomatch h.1)
          exact toString_ne_unnumbered d a.externalId h.symm
  | some c =>
      cases cents parse b with
      | none =>
          exact iff_of_false (toString_ne_unnumbered c b.externalId) (fun h => nomatch h.1)
      | some d =>
          show toString c = toString d ↔ _
          constructor
          · intro h
            have hcast := congrArg castInteger h
            rw [castInteger_toString, castInteger_toString] at hcast
            exact ⟨congrArg some hcast, fun h => nomatch h⟩
          · rintro ⟨h, -⟩
            cases h
            rfl

theorem cents_eq_none : cents parse r = none ↔ numberOf parse r = none :=
  Option.map_eq_none_iff

theorem cents_of_numberOf (h : numberOf parse r = some n) :
    cents parse r = some (n.val.timesNat 100).round.toI64 := by
  rw [cents, h]
  rfl

theorem toI64_cents_zero (negative : Bool) :
    ((Binary64.finite negative 0).timesNat 100).round.toI64 = 0 := by
  cases negative <;> decide +kernel

/-- Two numbers at one place have one number of cents. -/
theorem toI64_cents_of_spot {m n : ChapterNumber} (h : m.val.spot = n.val.spot) :
    (m.val.timesNat 100).round.toI64 = (n.val.timesNat 100).round.toI64 := by
  obtain ⟨m, hm⟩ := m
  obtain ⟨n, hn⟩ := n
  cases m with
  | nan => cases hm
  | infinity negative => cases hm
  | finite s units =>
      cases n with
      | nan => cases hn
      | infinity negative => cases hn
      | finite t units' =>
          have hplace : Binary64.signed s units = Binary64.signed t units' :=
            congrArg Prod.snd (toLex.injective (Option.some.inj h))
          have hcases : (s = t ∧ units = units') ∨ (units = 0 ∧ units' = 0) := by
            unfold Binary64.signed at hplace
            cases s <;> cases t <;> simp at hplace ⊢ <;> omega
          dsimp only
          rcases hcases with ⟨rfl, rfl⟩ | ⟨rfl, rfl⟩
          · rfl
          · rw [toI64_cents_zero, toI64_cents_zero]

end Numbers

/-! ## The comparator

By number, and then by id; a `nan` compares with nothing. -/

section Comparator

variable {parse : String → Option Binary64} {rows values out : List CanonicalChapter}
variable {a b m : CanonicalChapter}

/-- What the comparator looks at first. -/
def sortSpot (parse : String → Option Binary64) (r : CanonicalChapter) :
    Option (Int ×ₗ Int) :=
  (chapterSortKey parse r.number).spot

theorem readerCmp_eq (parse : String → Option Binary64) :
    readerCmp parse = tieBroken (sortSpot parse) CanonicalChapter.externalId := by
  funext a b
  rw [readerCmp]
  cases ha : sortSpot parse a with
  | none =>
      rw [Binary64.partialCmp_of_none (Or.inl ha), tieBroken_of_none (Or.inl ha)]
      exact Ordering.eq_then
  | some i =>
      cases hb : sortSpot parse b with
      | none =>
          rw [Binary64.partialCmp_of_none (Or.inr hb), tieBroken_of_none (Or.inr hb)]
          exact Ordering.eq_then
      | some j =>
          rw [Binary64.partialCmp_of_spot ha hb, tieBroken_of_some ha hb]
          rfl

/-- The comparator is a total order on rows if no `nan` row stands between two of
them whose ids are against their numbers. -/
theorem totalOn_readerCmp_iff :
    TotalOn (readerCmp parse) rows ↔
      Untangled (sortSpot parse) CanonicalChapter.externalId rows := by
  rw [readerCmp_eq]
  exact tieBroken_totalOn_iff

theorem exists_selectsReaderChapters (h : values.Perm (selected parse rows)) :
    ∃ out, SelectsReaderChapters parse rows out ∧ SortsTo (readerCmp parse) values out := by
  obtain ⟨out, hsort⟩ := exists_sortsTo (readerCmp parse) values
  exact ⟨out, ⟨values, h, hsort⟩, hsort⟩

theorem SelectsReaderChapters.perm (h : SelectsReaderChapters parse rows out) :
    out.Perm (selected parse rows) := by
  obtain ⟨values, hvalues, hsort⟩ := h
  exact hsort.perm.trans hvalues

theorem SelectsReaderChapters.sorted (h : SelectsReaderChapters parse rows out)
    (htotal : TotalOn (readerCmp parse) (selected parse rows)) :
    out.Pairwise fun a b => (readerCmp parse a b).isLE = true := by
  obtain ⟨values, hvalues, hsort⟩ := h
  exact hsort.sorted (htotal.of_perm hvalues)

/-- Of two selected rows, one that is not greater can come first. -/
theorem exists_before (htotal : TotalOn (readerCmp parse) (selected parse rows))
    (hm : m ∈ selected parse rows) (ha : a ∈ selected parse rows) (hne : m ≠ a)
    (hle : (readerCmp parse m a).isLE = true) :
    ∃ out, SelectsReaderChapters parse rows out ∧ List.Sublist [m, a] out := by
  -- the hash map lists `m` and `a` first
  have hperm : (m :: a :: ((selected parse rows).erase m).erase a).Perm
      (selected parse rows) := by
    have ha' : a ∈ (selected parse rows).erase m := (List.mem_erase_of_ne hne.symm).mpr ha
    exact ((List.perm_cons_erase ha').symm.cons m).trans (List.perm_cons_erase hm).symm
  obtain ⟨out, hout, hsort⟩ := exists_selectsReaderChapters hperm
  refine ⟨out, hout, hsort.stable (htotal.of_perm hperm) m a hle ?_⟩
  exact ((List.nil_sublist _).cons_cons a).cons_cons m

end Comparator

/-! ## When the selection is canonical

Both directions. -/

/-- No row of the chapter is preferred to the row. -/
def Best (parse : String → Option Binary64) (rows : List CanonicalChapter)
    (a : CanonicalChapter) : Prop :=
  a ∈ rows ∧ ∀ r ∈ rows, ∀ c, cents parse a = some c → cents parse r = some c →
    preferReaderChapter r a = false

/-- The rows have no two best rows of one chapter, and no unnumbered row that the
sort key puts before a numbered one. -/
structure Settled (parse : String → Option Binary64) (rows : List CanonicalChapter) :
    Prop where
  distinctIds : ((rows.filter (unnumbered parse)).map CanonicalChapter.externalId).Nodup
  oneBest : ∀ a b c, Best parse rows a → Best parse rows b → cents parse a = some c →
    cents parse b = some c → a = b
  noNegative : ∀ a ∈ rows, ∀ m ∈ rows, unnumbered parse a = false →
    unnumbered parse m = true →
    (chapterSortKey parse m.number).lt (.ofNat 0) = false
  nanAfter : ∀ a m, Best parse rows a → m ∈ rows → unnumbered parse a = false →
    chapterSortKey parse m.number = .nan → a.externalId < m.externalId
  nanApart : ∀ p q m, Best parse rows p → Best parse rows q → m ∈ rows →
    chapterSortKey parse m.number = .nan →
    (chapterSortKey parse p.number).lt (chapterSortKey parse q.number) = true →
    ¬(q.externalId ≤ m.externalId ∧ m.externalId ≤ p.externalId)

section Results

variable {parse : String → Option Binary64} {rows rows' out : List CanonicalChapter}
variable {a b m r : CanonicalChapter}

theorem unnumbered_iff : unnumbered parse r = true ↔ cents parse r = none :=
  Option.isNone_iff_eq_none

theorem exists_cents (h : unnumbered parse r = false) : ∃ c, cents parse r = some c := by
  cases hc : cents parse r with
  | none =>
      rw [unnumbered, hc] at h
      contradiction
  | some c => exact ⟨c, rfl⟩

theorem exists_numberOf (h : unnumbered parse r = false) : ∃ n, numberOf parse r = some n := by
  obtain ⟨c, hc⟩ := exists_cents h
  obtain ⟨n, hn, -⟩ := Option.map_eq_some_iff.mp hc
  exact ⟨n, hn⟩

theorem unnumbered_of_numberOf {n : ChapterNumber} (h : numberOf parse r = some n) :
    unnumbered parse r = false := by
  rw [unnumbered, cents, h]
  rfl

theorem chapterKey_eq_of_cents {c : Int} (ha : cents parse a = some c)
    (hb : cents parse b = some c) : chapterKey parse a = chapterKey parse b :=
  chapterKey_eq_iff.mpr ⟨ha.trans hb.symm, fun h => by rw [ha] at h; contradiction⟩

theorem chapterKey_eq_of_unnumbered (ha : unnumbered parse a = true)
    (hb : unnumbered parse b = true) (h : a.externalId = b.externalId) :
    chapterKey parse a = chapterKey parse b :=
  chapterKey_eq_iff.mpr ⟨(unnumbered_iff.mp ha).trans (unnumbered_iff.mp hb).symm, fun _ => h⟩

theorem unnumbered_of_nan (hempty : parse "" = none)
    (h : chapterSortKey parse r.number = .nan) : unnumbered parse r = true := by
  rw [unnumbered_iff, cents_eq_none]
  cases hn : numberOf parse r with
  | none => rfl
  | some n =>
      obtain ⟨p, hp, -⟩ := spot_of_numberOf hempty hn
      rw [h] at hp
      cases hp

theorem best_of_mem_selected (h : a ∈ selected parse rows) : Best parse rows a := by
  obtain ⟨hin, hmax⟩ := mem_selected h
  refine ⟨hin, fun r hr c ha hc => ?_⟩
  exact rank_le_iff.mp (hmax r hr (chapterKey_eq_of_cents hc ha))

/-! ### Of settled rows -/

theorem mem_selected_of_distinctIds
    (h : ((rows.filter (unnumbered parse)).map CanonicalChapter.externalId).Nodup)
    (hr : r ∈ rows) (hun : unnumbered parse r = true) : r ∈ selected parse rows := by
  obtain ⟨a, ha, hkey⟩ := exists_selected parse hr
  obtain ⟨hcents, hid⟩ := chapterKey_eq_iff.mp hkey
  have hnone : cents parse a = none := hcents.trans (unnumbered_iff.mp hun)
  have ha' : a ∈ rows.filter (unnumbered parse) :=
    List.mem_filter.mpr ⟨(mem_selected ha).1, unnumbered_iff.mpr hnone⟩
  have hr' : r ∈ rows.filter (unnumbered parse) := List.mem_filter.mpr ⟨hr, hun⟩
  have hsame : a = r := List.inj_on_of_nodup_map h ha' hr' (hid hnone)
  rwa [hsame] at ha

/-- The selected rows are the best ones. -/
theorem Settled.mem_selected_iff (h : Settled parse rows) :
    a ∈ selected parse rows ↔ Best parse rows a := by
  constructor
  · exact best_of_mem_selected
  · intro hbest
    cases hun : unnumbered parse a with
    | true => exact mem_selected_of_distinctIds h.distinctIds hbest.1 hun
    | false =>
        obtain ⟨c, hc⟩ := exists_cents hun
        obtain ⟨b, hb, hkey⟩ := exists_selected parse hbest.1
        have hcb := (chapterKey_eq_iff.mp hkey).1.trans hc
        rw [h.oneBest a b c hbest (best_of_mem_selected hb) hc hcb]
        exact hb

theorem Best.of_perm (hperm : rows'.Perm rows) (h : Best parse rows a) : Best parse rows' a :=
  ⟨hperm.mem_iff.mpr h.1, fun r hr => h.2 r (hperm.mem_iff.mp hr)⟩

theorem Settled.of_perm (hperm : rows.Perm rows') (h : Settled parse rows) :
    Settled parse rows' where
  distinctIds := ((hperm.filter _).map _).nodup_iff.mp h.distinctIds
  oneBest a b c ha hb := h.oneBest a b c (ha.of_perm hperm) (hb.of_perm hperm)
  noNegative a ha m hm := h.noNegative a (hperm.mem_iff.mpr ha) m (hperm.mem_iff.mpr hm)
  nanAfter a m ha hm := h.nanAfter a m (ha.of_perm hperm) (hperm.mem_iff.mpr hm)
  nanApart p q m hp hq hm :=
    h.nanApart p q m (hp.of_perm hperm) (hq.of_perm hperm) (hperm.mem_iff.mpr hm)

theorem Settled.total (h : Settled parse rows) :
    TotalOn (readerCmp parse) (selected parse rows) := by
  rw [totalOn_readerCmp_iff]
  intro p hp q hq m hm i j hi hj hnone hij
  refine h.nanApart p q m (best_of_mem_selected hp) (best_of_mem_selected hq)
    (mem_selected hm).1 (Binary64.spot_eq_none.mp hnone) ?_
  exact (Binary64.lt_of_spot hi hj).mpr hij

/-- A row that the comparator does not put after a numbered one has a number. -/
theorem Settled.mayPrecede (hempty : parse "" = none) (h : Settled parse rows)
    (ha : a ∈ selected parse rows) (hb : b ∈ selected parse rows)
    (hle : (readerCmp parse a b).isLE = true) : MayPrecede parse a b := by
  intro n hn
  obtain ⟨j, hj, hlo, hhi⟩ := spot_of_numberOf hempty hn
  have hbnum := unnumbered_of_numberOf hn
  rw [readerCmp_eq] at hle
  cases hi : sortSpot parse a with
  | none =>
      rw [isLE_tieBroken_of_none (Or.inl hi)] at hle
      have hafter := h.nanAfter b a (best_of_mem_selected hb) (mem_selected ha).1 hbnum
        (Binary64.spot_eq_none.mp hi)
      exact absurd hle (not_le.mpr hafter)
  | some i =>
      have hij : i ≤ j := by
        rcases (isLE_tieBroken_of_some hi hj).mp hle with hlt | ⟨heq, -⟩
        · exact hlt.le
        · exact heq.le
      cases hm : numberOf parse a with
      | some m =>
          rw [sortSpot, (numberOf_eq_some hempty).mp hm] at hi
          rw [(numberOf_eq_some hempty).mp hn] at hj
          exact ⟨m, rfl, (Binary64.le_of_spot hi hj).mpr hij⟩
      | none =>
          have haun : unnumbered parse a = true :=
            unnumbered_iff.mpr (cents_eq_none.mpr hm)
          rcases spot_of_numberOf_none hempty hm hi with hlow | hhigh
          · have hneg := (Binary64.lt_of_spot hi spot_ofNat_zero).mpr hlow
            rw [h.noNegative b (mem_selected hb).1 a (mem_selected ha).1 hbnum haun] at hneg
            contradiction
          · exact absurd (hhigh.trans_le hij) (not_lt.mpr hhi)

/-- Two selected rows that compare equal are one row. -/
theorem Settled.eq_of_readerCmp (hempty : parse "" = none) (h : Settled parse rows)
    (ha : a ∈ selected parse rows) (hb : b ∈ selected parse rows)
    (heq : readerCmp parse a b = .eq) : a = b := by
  have hab : (readerCmp parse a b).isLE = true := by rw [heq]; rfl
  have hba : (readerCmp parse b a).isLE = true := by
    rw [h.total.swap a ha b hb, heq]
    rfl
  have hprecede := h.mayPrecede hempty ha hb hab
  have hprecede' := h.mayPrecede hempty hb ha hba
  apply eq_of_mem_selected ha hb
  cases hm : numberOf parse a with
  | none =>
      cases hn : numberOf parse b with
      | none =>
          rw [readerCmp, Ordering.then_eq_eq] at heq
          exact chapterKey_eq_of_unnumbered (unnumbered_iff.mpr (cents_eq_none.mpr hm))
            (unnumbered_iff.mpr (cents_eq_none.mpr hn)) (compare_eq_iff_eq.mp heq.2)
      | some n =>
          obtain ⟨m, hm', -⟩ := hprecede n hn
          rw [hm] at hm'
          contradiction
  | some m =>
      obtain ⟨n, hn, -⟩ := hprecede' m hm
      obtain ⟨i, hi, -⟩ := spot_of_numberOf hempty hm
      obtain ⟨j, hj, -⟩ := spot_of_numberOf hempty hn
      have hspot : i = j := by
        have ha' : sortSpot parse a = some i := hi
        have hb' : sortSpot parse b = some j := hj
        rw [readerCmp_eq, tieBroken_of_some ha' hb', Ordering.then_eq_eq] at heq
        exact compare_eq_iff_eq.mp heq.1
      rw [(numberOf_eq_some hempty).mp hm] at hi
      rw [(numberOf_eq_some hempty).mp hn] at hj
      have hcents := toI64_cents_of_spot (hi.trans (hspot ▸ hj.symm))
      exact chapterKey_eq_of_cents (cents_of_numberOf hm)
        ((cents_of_numberOf hn).trans (congrArg some hcents.symm))

theorem SelectsReaderChapters.mem_iff (h : SelectsReaderChapters parse rows out) :
    a ∈ out ↔ a ∈ selected parse rows := h.perm.mem_iff

theorem SelectsReaderChapters.pairwise_key (h : SelectsReaderChapters parse rows out) :
    out.Pairwise fun a b => chapterKey parse a ≠ chapterKey parse b := by
  have hnodup : (out.map (chapterKey parse)).Nodup :=
    (h.perm.map _).nodup_iff.mpr (nodup_selected rows)
  exact List.pairwise_map.mp hnodup

/-- The result is one row of each chapter, the best one, in order. -/
theorem Settled.isSelection (hempty : parse "" = none) (h : Settled parse rows)
    (hout : SelectsReaderChapters parse rows out) : IsSelection parse rows out where
  subset _ ha := (mem_selected (hout.mem_iff.mp ha)).1
  oneRow := by
    refine List.pairwise_filterMap.mpr (hout.pairwise_key.imp ?_)
    intro a b hne c hc d hd hcd
    exact hne (chapterKey_eq_of_cents hc (hcd ▸ hd))
  covers r hr c hc := by
    obtain ⟨a, ha, hkey⟩ := exists_selected parse hr
    exact ⟨a, hout.mem_iff.mpr ha, (chapterKey_eq_iff.mp hkey).1.trans hc⟩
  keeps := by
    have hnodup : out.Nodup := hout.perm.nodup_iff.mpr (nodup_rows_selected rows)
    have hrows : (rows.filter (unnumbered parse)).Nodup := h.distinctIds.of_map _
    refine (List.perm_ext_iff_of_nodup (hnodup.filter _) hrows).mpr fun r => ?_
    rw [List.mem_filter, List.mem_filter, hout.mem_iff]
    constructor
    · rintro ⟨hr, hun⟩
      exact ⟨(mem_selected hr).1, hun⟩
    · rintro ⟨hr, hun⟩
      exact ⟨mem_selected_of_distinctIds h.distinctIds hr hun, hun⟩
  best a ha r hr c hca hcr :=
    (mem_selected (hout.mem_iff.mp ha)).2 r hr (chapterKey_eq_of_cents hcr hca)
  ordered := (hout.sorted h.total).imp_of_mem fun ha hb hle =>
    h.mayPrecede hempty (hout.mem_iff.mp ha) (hout.mem_iff.mp hb) hle

theorem Settled.selected_perm (h : Settled parse rows) (hperm : rows.Perm rows') :
    (selected parse rows).Perm (selected parse rows') := by
  refine (List.perm_ext_iff_of_nodup (nodup_rows_selected rows)
    (nodup_rows_selected rows')).mpr fun a => ?_
  rw [h.mem_selected_iff, (h.of_perm hperm).mem_selected_iff]
  exact ⟨fun hbest => hbest.of_perm hperm.symm, fun hbest => hbest.of_perm hperm⟩

theorem Settled.canonical (hempty : parse "" = none) (h : Settled parse rows) :
    Canonical parse rows where
  total := h.total
  selection _ hout := h.isSelection hempty hout
  unique rows' out out' hperm := by
    rintro ⟨values, hvalues, hsort⟩ ⟨values', hvalues', hsort'⟩
    have hvalue : ∀ a, a ∈ values ↔ a ∈ selected parse rows := fun a => hvalues.mem_iff
    refine hsort.eq_of_perm hsort'
      (hvalues.trans ((h.selected_perm hperm).trans hvalues'.symm))
      (h.total.of_perm hvalues) fun a ha b hb heq => ?_
    exact h.eq_of_readerCmp hempty ((hvalue a).mp ha) ((hvalue b).mp hb) heq

/-! ### Of canonical selections -/

theorem exists_selects (parse : String → Option Binary64) (rows : List CanonicalChapter) :
    ∃ out, SelectsReaderChapters parse rows out := by
  obtain ⟨out, hout, -⟩ := exists_selectsReaderChapters (List.Perm.refl (selected parse rows))
  exact ⟨out, hout⟩

theorem Canonical.mem_selected (h : Canonical parse rows) (hr : r ∈ rows)
    (hun : unnumbered parse r = true) : r ∈ selected parse rows := by
  obtain ⟨out, hout⟩ := exists_selects parse rows
  have hin : r ∈ rows.filter (unnumbered parse) := List.mem_filter.mpr ⟨hr, hun⟩
  have hkept := (h.selection out hout).keeps.mem_iff.mpr hin
  exact hout.mem_iff.mp (List.mem_filter.mp hkept).1

/-- The comparator puts the unnumbered rows after the numbered ones. -/
theorem Canonical.not_before (h : Canonical parse rows) (hm : m ∈ selected parse rows)
    (ha : a ∈ selected parse rows) (hun : unnumbered parse m = true)
    (hnum : unnumbered parse a = false) : ¬(readerCmp parse m a).isLE = true := by
  intro hle
  have hne : m ≠ a := by
    rintro rfl
    rw [hun] at hnum
    contradiction
  obtain ⟨out, hout, hsub⟩ := exists_before h.total hm ha hne hle
  have hpair := ((h.selection out hout).ordered.sublist hsub)
  obtain ⟨n, hn⟩ := exists_numberOf hnum
  obtain ⟨i, hi, -⟩ := List.pairwise_pair.mp hpair n hn
  rw [unnumbered_of_numberOf hi] at hun
  contradiction

/-- A best row in front is selected, so that the result has it. -/
theorem Canonical.mem_of_best (h : Canonical parse rows) {c : Int} (ha : Best parse rows a)
    (hc : cents parse a = some c) (hout : SelectsReaderChapters parse rows out) : a ∈ out := by
  have hperm := List.perm_cons_erase ha.1
  have hfront : a ∈ selected parse (a :: rows.erase a) := by
    apply mem_selected_of_max
    intro r hr hkey
    exact rank_le_iff.mpr (ha.2 r (List.mem_of_mem_erase hr) c hc
      ((chapterKey_eq_iff.mp hkey).1.trans hc))
  obtain ⟨out', hout'⟩ := exists_selects parse (a :: rows.erase a)
  rw [h.unique (a :: rows.erase a) out out' hperm hout hout']
  exact hout'.mem_iff.mpr hfront

theorem Canonical.mem_selected_of_best (h : Canonical parse rows) (ha : Best parse rows a) :
    a ∈ selected parse rows := by
  cases hun : unnumbered parse a with
  | true => exact h.mem_selected ha.1 hun
  | false =>
      obtain ⟨c, hc⟩ := exists_cents hun
      obtain ⟨out, hout⟩ := exists_selects parse rows
      exact hout.mem_iff.mp (h.mem_of_best ha hc hout)

theorem Canonical.settled (hempty : parse "" = none) (h : Canonical parse rows) :
    Settled parse rows where
  distinctIds := by
    obtain ⟨out, hout⟩ := exists_selects parse rows
    refine ((h.selection out hout).keeps.map _).nodup_iff.mp ?_
    refine List.pairwise_map.mpr (List.pairwise_filter.mpr (hout.pairwise_key.imp ?_))
    intro a b hne ha hb hid
    exact hne (chapterKey_eq_of_unnumbered ha hb hid)
  oneBest a b c ha hb hca hcb :=
    eq_of_mem_selected (h.mem_selected_of_best ha) (h.mem_selected_of_best hb)
      (chapterKey_eq_of_cents hca hcb)
  noNegative a ha m hm hnum hun := by
    rw [Bool.eq_false_iff]
    intro hneg
    obtain ⟨i, j, hi, hj, hij⟩ := Binary64.spot_of_lt hneg
    rw [spot_ofNat_zero] at hj
    obtain ⟨b, hb, hkey⟩ := exists_selected parse ha
    have hbnum : unnumbered parse b = false := by
      rw [unnumbered, (chapterKey_eq_iff.mp hkey).1]
      exact hnum
    obtain ⟨n, hn⟩ := exists_numberOf hbnum
    obtain ⟨k, hk, hlo, -⟩ := spot_of_numberOf hempty hn
    refine h.not_before (h.mem_selected hm hun) hb hun hbnum ?_
    rw [readerCmp_eq]
    cases Option.some.inj hj
    have hm' : sortSpot parse m = some i := hi
    have hb' : sortSpot parse b = some k := hk
    exact (isLE_tieBroken_of_some hm' hb').mpr (Or.inl (hij.trans_le hlo))
  nanAfter a m ha hm hnum hnan := by
    have hun := unnumbered_of_nan hempty hnan
    have hlate := h.not_before (h.mem_selected hm hun) (h.mem_selected_of_best ha) hun hnum
    have hspot : sortSpot parse m = none := Binary64.spot_eq_none.mpr hnan
    rw [readerCmp_eq, isLE_tieBroken_of_none (Or.inl hspot), not_le] at hlate
    exact hlate
  nanApart p q m hp hq hm hnan hlt := by
    obtain ⟨i, j, hi, hj, hij⟩ := Binary64.spot_of_lt hlt
    exact totalOn_readerCmp_iff.mp h.total p (h.mem_selected_of_best hp) q
      (h.mem_selected_of_best hq) m (h.mem_selected hm (unnumbered_of_nan hempty hnan)) i j hi hj
      (Binary64.spot_eq_none.mpr hnan) hij

end Results

/-- **When the selection is canonical.**  The comparator is a total order on the rows
that are kept, each chapter keeps one row, and neither depends on the order of the
input, exactly if the rows are `Settled`: no two best rows of one chapter, and no
unnumbered row whose sort key is negative or not a number and gets between two
others. -/
theorem canonical_iff (parse : String → Option Binary64) (hempty : parse "" = none)
    (rows : List CanonicalChapter) : Canonical parse rows ↔ Settled parse rows :=
  ⟨fun h => h.settled hempty, fun h => h.canonical hempty⟩

/-- A row that is alone with its number is its best one. -/
theorem best_of_alone {parse : String → Option Binary64} {rows : List CanonicalChapter}
    {a : CanonicalChapter} (ha : a ∈ rows)
    (h : ∀ r ∈ rows, cents parse r = cents parse a → r = a) : Best parse rows a := by
  refine ⟨ha, fun r hr c hca hcr => ?_⟩
  rw [h r hr (hcr.trans hca.symm), ← rank_le_iff]

section Samples

/-- A parser, on the texts of the samples. -/
def parseSample (text : String) : Option Binary64 :=
  match text with
  | "1" => some (.ofNat 1)
  | "2" => some (.ofNat 2)
  | "-1" => some (.finite true Binary64.one)
  | "nan" => some .nan
  | _ => none

/-- An English row with a number and nothing else. -/
def sampleRow (id : String) (number : Option String) : CanonicalChapter :=
  ⟨id, number, none, some "en", none, some "2024-01-01T00:00:00Z", none⟩

/-- Two numbered rows and one without a number. -/
def settledRows : List CanonicalChapter :=
  [sampleRow "c" (some "2"), sampleRow "b" none, sampleRow "a" (some " 1 ")]

/-- A work whose oneshot has the number `-1`. -/
def oneshotRows : List CanonicalChapter :=
  [sampleRow "b" (some "1"), sampleRow "a" (some "-1")]

/-- A work with a `nan` row, whose ids are against the numbers. -/
def nanRows : List CanonicalChapter :=
  [sampleRow "c" (some "1"), sampleRow "a" (some "2"), sampleRow "b" (some "nan")]

theorem canonical_settledRows : parseSample "" = none ∧ Canonical parseSample settledRows := by
  refine ⟨rfl, (canonical_iff parseSample rfl settledRows).mpr ?_⟩
  have halone : ∀ a ∈ settledRows, ∀ b ∈ settledRows,
      cents parseSample a = cents parseSample b → a = b := by
    decide +kernel
  have hnumbers : ∀ m ∈ settledRows, chapterSortKey parseSample m.number ≠ .nan ∧
      (chapterSortKey parseSample m.number).lt (.ofNat 0) = false := by
    decide +kernel
  exact
    { distinctIds := by decide +kernel
      oneBest := fun a b c ha hb hca hcb => halone a ha.1 b hb.1 (hca.trans hcb.symm)
      noNegative := fun a _ m hm _ _ => (hnumbers m hm).2
      nanAfter := fun a m _ hm _ hnan => absurd hnan (hnumbers m hm).1
      nanApart := fun p q m _ _ hm hnan => absurd hnan (hnumbers m hm).1 }

/-- The oneshot is sorted before chapter 1; and with the `nan` row the comparator
is not a total order. -/
theorem not_canonical_samples :
    ¬Canonical parseSample oneshotRows ∧ ¬Canonical parseSample nanRows := by
  constructor
  · intro h
    have hneg := (h.settled rfl).noNegative (sampleRow "b" (some "1")) (by decide +kernel)
      (sampleRow "a" (some "-1")) (by decide +kernel) (by decide +kernel) (by decide +kernel)
    exact absurd hneg (by decide +kernel)
  · intro h
    have hbest : ∀ a ∈ nanRows, Best parseSample nanRows a := by
      have halone : ∀ a ∈ nanRows, ∀ r ∈ nanRows,
          cents parseSample r = cents parseSample a → r = a := by
        decide +kernel
      exact fun a ha => best_of_alone ha (halone a ha)
    refine (h.settled rfl).nanApart (sampleRow "c" (some "1")) (sampleRow "a" (some "2"))
      (sampleRow "b" (some "nan")) (hbest _ (by decide +kernel)) (hbest _ (by decide +kernel))
      (by decide +kernel) (by decide +kernel) (by decide +kernel) ?_
    decide +kernel

end Samples

end Komika.Chapters.ReaderSelection
