import Komika.Feed.BrowseSql
import Komika.Feed.Types

/-!
# The pages of Browse

`browse_catalogue` serves a page of the filtered catalogue under one of four
sorts.  Two of them are served in two phases, out of two statements: the works
that are ranked (rated, or viewed lately), and then all of the others by their
newest release.  `split_two_phase` cuts the page between the two, and
`slice_append` says that the cut is right: the two phases are the two parts of
one list.

So each sort has one listing of the filtered catalogue, of which the pages are
slices (`pageRows_spec`), and `browse_pages_partition` puts that together: the
pages partition the filtered catalogue.

The ranking of `TRENDING` is read anew for each page; the pages of one listing are those
of one ranking.

* `phase_eq`, `splitTwoPhase_natCast` — the cut, on the offsets that occur;
* `fetchPage_spec`, `rest_spec` — one statement as the slice of a listing;
* `ratingPage_spec`, `trendingPage_spec` — two statements as the slice of one;
* `pageRows_spec` — every sort;
* `browse_pages_partition` — the pages and the total.
-/

namespace Komika.Feed.BrowsePages

open Komika.Lib Komika.Lib.Paging Komika.Catalog.Schema Komika.Feed.Schema
open Komika.Feed.Types (startsWith)
open Komika.Feed.BrowseSql

variable {ρ : Type} [Rating ρ]

/-! ## The pages

The requests of a page: one statement, or two phases and the count that splits them. -/

/-- `BROWSE_PAGE_SIZE`, the cards of one page. -/
def browsePageSize : Nat := 30

/-- How many rows to take from the ranked part, how many from the rest, and
where to start in the rest. -/
def splitTwoPhase (prefixLen offset pageSize : Int) : Int × Int × Int :=
  let takePrefix := min (max (prefixLen - offset) 0) pageSize
  (takePrefix, pageSize - takePrefix, max (offset - prefixLen) 0)

/-- One phase of a page, of which nothing may be taken. -/
def phase (take : Int) (rows : Option (List BrowseRow)) : Option (List BrowseRow) :=
  if take > 0 then rows else some []

/-- `RATING`: the rated works by their average, and then the others. -/
def ratingPage (db : BrowseDb) (whereSql : List Clause) (binds : List (Bind ρ))
    (pageSize offset : Int) : Option (List BrowseRow) := do
  let rated : Select := ⟨true, true, whereSql⟩
  let ratedCount ← rated.count db binds
  let (takeRated, takeRest, restOffset) := splitTwoPhase ratedCount offset pageSize
  let rows ← phase takeRated <|
    rated.fetch db binds (orderByAvg (ρ := ρ) db) takeRated offset
  let rest ← phase takeRest <|
    fetchPage db true whereSql [.notRated] binds (orderBy .newest) takeRest restOffset
  some (rows ++ rest)

/-- What the view counts say while the pages are read. -/
structure Ranking where
  /-- The keys of `views::trending_keys` with their views, most viewed first, or
  `none` when that fails. -/
  keys : Option (List (String × Int))
  /-- Whether the statement that resolves the numeric keys succeeds. -/
  resolves : Bool

/-- The work that a numeric key stands for, out of one statement for all of them. -/
def workOfNumeric (db : BrowseDb) (ranking : Ranking) (numeric : List String)
    (k : String) : Option Id :=
  let found :=
    if ranking.resolves then
      db.sourceSeries.rows.filter fun ss =>
        ss.sourceType == "suwayomi" && numeric.contains ss.sourceKey
    else []
  (collect SourceSeries.sourceKey found k).map SourceSeries.workId

/-- The works that the keys name, most viewed first.  A key of either shape may
name the same work. -/
def namedWorks (db : BrowseDb) (ranking : Ranking) : List Id :=
  let keys := (ranking.keys.getD []).map Prod.fst
  let numeric := keys.filter fun k => !startsWith k "w_"
  keys.filterMap fun k =>
    if startsWith k "w_" then some k else workOfNumeric db ranking numeric k

/-- Each work once, where it comes first. -/
def trendingWorkIds (db : BrowseDb) (ranking : Ranking) : List Id :=
  distinct (namedWorks db ranking)

/-- `TRENDING`: the viewed works that the filter leaves, and then the others. -/
def trendingPage (db : BrowseDb) (ranking : Ranking) (whereSql : List Clause)
    (binds : List (Bind ρ)) (usesRated : Bool) (pageSize offset : Int) :
    Option (List BrowseRow) :=
  let ranked := trendingWorkIds db ranking
  if ranked.isEmpty then
    fetchPage db usesRated whereSql [] binds (orderBy .newest) pageSize offset
  else do
    let rankedBinds := binds ++ ranked.map .text
    let matched ←
      Select.rows ⟨usesRated, false, whereSql ++ [.workIdIn ranked.length]⟩ db rankedBinds
    -- the filter is the statement's, the order is the ranking's
    let found := ranked.filterMap (collect BrowseEntry.workId matched)
    let (takePrefix, takeRest, restOffset) := splitTwoPhase found.length offset pageSize
    let rows := (slice offset.toNat takePrefix.toNat found).map browseCols
    let rest ← phase takeRest <|
      fetchPage db usesRated whereSql [.workIdNotIn ranked.length] rankedBinds
        (orderBy .newest) takeRest restOffset
    some (rows ++ rest)

/-- The rows of one page. -/
def pageRows (db : BrowseDb) (ranking : Ranking) (sort : BrowseSort) (w : Where ρ)
    (offset : Int) : Option (List BrowseRow) :=
  match sort with
  | .newest | .chapters =>
      fetchPage db w.usesRated w.parts [] w.binds (orderBy sort) browsePageSize offset
  | .rating => ratingPage db w.parts w.binds browsePageSize offset
  | .trending =>
      trendingPage db ranking w.parts w.binds w.usesRated browsePageSize offset

/-- The total, memoized or else counted under the WHERE of the pages. -/
def totalFor (db : BrowseDb) (memo : Option Int) (w : Where ρ) : Option Int :=
  match memo with
  | some t => some t
  | none => Select.count ⟨w.usesRated, false, w.parts⟩ db w.binds

/-- The total and the rows of the page; `memo` is the total that is memoized for
the filter.  Pages are 32-bit numbers on the wire, so that no offset overflows. -/
def browseCatalogue (db : BrowseDb) (ranking : Ranking) (memo : Option Int)
    (q : BrowseQuery ρ) : Option (Int × List BrowseRow) := do
  let w := buildWhere q
  let page := max q.page 1
  let offset := (page - 1) * browsePageSize
  let total ← totalFor db memo w
  let rows ← pageRows db ranking q.sort w offset
  some (total, rows)

/-! ## The orders

What each sort means for two rows, and that the `ORDER BY` of its statement says so. -/

/-- The newest release first and no release last; of equals, the greater id. -/
def Newer (f g : BrowseEntry) : Prop :=
  match f.releasedAt, g.releasedAt with
  | some x, some y => y < x ∨ x = y ∧ g.workId < f.workId
  | some _, none => True
  | none, some _ => False
  | none, none => g.workId < f.workId

/-- The most chapters first; of equals, the greater id. -/
def MoreChapters (f g : BrowseEntry) : Prop :=
  g.enChapterCount < f.enChapterCount ∨
    f.enChapterCount = g.enChapterCount ∧ g.workId < f.workId

/-- The best average first; of equals, the greater id. -/
def BetterRated (ρ : Type) [Rating ρ] (db : BrowseDb) (f g : BrowseEntry) : Prop :=
  (ratingOf db g.workId : ρ) < ratingOf db f.workId ∨
    (ratingOf db f.workId : ρ) = ratingOf db g.workId ∧ g.workId < f.workId

/-- The work that the ranking names first. -/
def MoreViewed (db : BrowseDb) (ranking : Ranking) (f g : BrowseEntry) : Prop :=
  (namedWorks db ranking).idxOf f.workId < (namedWorks db ranking).idxOf g.workId

/-- The order of a sort. -/
def Before (ρ : Type) [Rating ρ] (db : BrowseDb) (ranking : Ranking) :
    BrowseSort → BrowseEntry → BrowseEntry → Prop
  | .newest => Newer
  | .chapters => MoreChapters
  | .rating => RankedFirst (fun f => Rated db f.workId) (BetterRated ρ db) Newer
  | .trending =>
      RankedFirst (fun f => f.workId ∈ namedWorks db ranking) (MoreViewed db ranking) Newer

/-- The order of the statement, as a reader means it. -/
theorem newer_iff {f g : BrowseEntry} :
    Descends (orderBy .newest) f g ↔ Newer f g := by
  show toLex (nullable g.releasedAt, g.workId) < toLex (nullable f.releasedAt, f.workId) ↔ _
  rw [Prod.Lex.toLex_lt_toLex, Newer]
  cases f.releasedAt with
  | none =>
      cases g.releasedAt with
      | none => simp only [nullable_none, lt_irrefl, true_and, false_or]
      | some y =>
          simp only [nullable_none, nullable_some, not_lt_bot, WithBot.coe_ne_bot, false_and,
            or_false]
  | some x =>
      cases g.releasedAt with
      | none => simp only [nullable_none, nullable_some, WithBot.bot_lt_coe, true_or]
      | some y =>
          simp only [nullable_some, WithBot.coe_lt_coe, WithBot.coe_inj, eq_comm (a := y)]

/-- The order of the statement, as a reader means it. -/
theorem moreChapters_iff {f g : BrowseEntry} :
    Descends (orderBy .chapters) f g ↔ MoreChapters f g := by
  rw [Descends, orderBy, orderBy, Prod.Lex.toLex_lt_toLex, MoreChapters, eq_comm]
  simp only [nullable_some, WithBot.coe_lt_coe, WithBot.coe_inj]

/-- The column is not NULL for a work that the join leaves. -/
theorem nullable_ratedPerWork {db : BrowseDb} {workId : Id} (h : Rated db workId) :
    nullable (ratedPerWork (ρ := ρ) db workId) = (ratingOf db workId : ρ) := by
  obtain ⟨x, hx⟩ := Option.isSome_iff_exists.mp ((isSome_ratedPerWork (ρ := ρ)).mpr h)
  rw [ratingOf, hx, nullable_some, Option.getD_some]

/-- The order of the statement, over rows that have an average. -/
theorem betterRated_iff {db : BrowseDb} {f g : BrowseEntry} (hf : Rated db f.workId)
    (hg : Rated db g.workId) :
    Descends (orderByAvg (ρ := ρ) db) f g ↔ BetterRated ρ db f g := by
  rw [Descends, orderByAvg, orderByAvg, Prod.Lex.toLex_lt_toLex, BetterRated,
    nullable_ratedPerWork hf, nullable_ratedPerWork hg, WithBot.coe_lt_coe, WithBot.coe_inj,
    eq_comm]

/-! ## Two phases

Each of the two statements is sliced by its own window; together they are sliced by
one. -/

/-- No offset is negative, so the arithmetic is that of natural numbers. -/
theorem splitTwoPhase_natCast (n offset size : Nat) :
    splitTwoPhase n offset size =
      (((min (n - offset) size : Nat) : Int), ((size - min (n - offset) size : Nat) : Int),
        ((offset - n : Nat) : Int)) := by
  simp only [splitTwoPhase, Prod.mk.injEq]
  omega

/-- A phase of which nothing is taken does not run its statement. -/
theorem phase_eq {offset limit : Nat} {xs : List BrowseEntry} {rows : Option (List BrowseRow)}
    (h : rows = some ((slice offset limit xs).map browseCols)) :
    phase limit rows = some ((slice offset limit xs).map browseCols) := by
  rw [phase]
  by_cases hlimit : (limit : Int) > 0
  · rw [if_pos hlimit, h]
  · have hzero : limit = 0 := by omega
    rw [if_neg hlimit, hzero, slice_zero, List.map_nil]

variable {db : BrowseDb} {whereSql : List Clause} {binds : List (Bind ρ)}
variable {p : BrowseEntry → Prop}

omit [Rating ρ] in
/-- A statement whose flag says whether its clauses read `rated_per_work`. -/
theorem defined_append {w : Where ρ} (hreads : w.parts.any Clause.usesRated = w.usesRated)
    {extra : List Clause} (hextra : extra.any Clause.usesRated = false) :
    Select.defined ⟨w.usesRated, false, w.parts ++ extra⟩ = true := by
  simp [Select.defined, hreads, hextra]

/-- One statement for the whole sort. -/
theorem fetchPage_spec (sort : BrowseSort) {w : Where ρ} (h : w.Means db p) :
    ∃ xs, Lists (fun f => f ∈ db.browseCatalogue ∧ p f) (Descends (orderBy sort)) xs ∧
      ∀ limit offset : Nat,
        fetchPage db w.usesRated w.parts [] w.binds (orderBy sort) limit offset =
          some ((slice offset limit xs).map browseCols) := by
  have hdef : Select.defined ⟨w.usesRated, false, w.parts ++ []⟩ = true :=
    defined_append h.reads rfl
  have hfits : Fits db (w.parts ++ []) w.binds p := by
    rw [List.append_nil]
    exact h.fits
  obtain ⟨xs, hxs, hfetch⟩ := Select.fetch_spec (orderBy_injective sort) hdef hfits
  exact ⟨xs, hxs.congr (by simp) fun f g _ _ hfg => hfg, hfetch⟩

/-- What is not ranked comes by its newest release, behind the clause that
leaves the ranked ones out. -/
theorem rest_spec (cte : Bool) {extra : List Clause} {extraBinds : List (Bind ρ)}
    {r : BrowseEntry → Prop} (hdef : Select.defined ⟨cte, false, whereSql ++ extra⟩ = true)
    (h : Fits db whereSql binds p) (hextra : Fits db extra extraBinds r) :
    ∃ xs, Lists (fun f => (f ∈ db.browseCatalogue ∧ p f) ∧ r f) Newer xs ∧
      ∀ limit offset : Nat,
        fetchPage db cte whereSql extra (binds ++ extraBinds) (orderBy .newest) limit offset =
          some ((slice offset limit xs).map browseCols) := by
  obtain ⟨xs, hxs, hfetch⟩ :=
    Select.fetch_spec (orderBy_injective .newest) hdef (h.append hextra)
  refine ⟨xs, hxs.congr ?_ ?_, hfetch⟩
  · intro f
    simp [and_assoc]
  · intro f g _ _ hfg
    exact newer_iff.mp hfg

/-- The rated works and the others are one listing, and a page is a slice of it. -/
theorem ratingPage_spec (ranking : Ranking) (h : Fits db whereSql binds p) :
    ∃ xs, Lists (fun f => f ∈ db.browseCatalogue ∧ p f) (Before ρ db ranking .rating) xs ∧
      ∀ size offset : Nat, ratingPage db whereSql binds size offset =
        some ((slice offset size xs).map browseCols) := by
  have hdef : Select.defined ⟨true, true, whereSql⟩ = true := rfl
  obtain ⟨rated, hrated, hfetch⟩ := Select.fetch_spec (orderByAvg_injective (ρ := ρ) db) hdef h
  have hcount := Select.count_eq hdef h hrated
  obtain ⟨rest, hrest, hfetchRest⟩ := rest_spec true rfl h (fits_notRated db)
  rw [List.append_nil] at hfetchRest
  have hratedFirst : Lists (fun f => (f ∈ db.browseCatalogue ∧ p f) ∧ Rated db f.workId)
      (BetterRated ρ db) rated := by
    apply hrated.congr
    · intro f
      constructor
      · rintro ⟨hf, hrated, hp⟩
        exact ⟨⟨hf, hp⟩, hrated rfl⟩
      · rintro ⟨⟨hf, hp⟩, hrated⟩
        exact ⟨hf, fun _ => hrated, hp⟩
    · intro f g hf hg hfg
      exact (betterRated_iff (hf.2.1 rfl) (hg.2.1 rfl)).mp hfg
  refine ⟨rated ++ rest, hratedFirst.append hrest, ?_⟩
  intro size offset
  have hfirst := phase_eq (hfetch (min (rated.length - offset) size) offset)
  have hsecond := phase_eq (hfetchRest (size - min (rated.length - offset) size)
    (offset - rated.length))
  rw [slice_append, List.map_append, ratingPage, hcount]
  simp only [Option.bind_eq_bind, Option.bind_some, splitTwoPhase_natCast, hfirst, hsecond]

/-- The ranked works that the filter leaves, in the order of the ranking. -/
theorem matched_spec (ranking : Ranking) {usesRated : Bool}
    (hdef : Select.defined
      ⟨usesRated, false, whereSql ++ [.workIdIn (trendingWorkIds db ranking).length]⟩ = true)
    (h : Fits db whereSql binds p) :
    ∃ matched,
      Select.rows
        ⟨usesRated, false, whereSql ++ [.workIdIn (trendingWorkIds db ranking).length]⟩ db
        (binds ++ (trendingWorkIds db ranking).map .text) = some matched ∧
      Lists (fun f => (f ∈ db.browseCatalogue ∧ p f) ∧ f.workId ∈ namedWorks db ranking)
        (MoreViewed db ranking)
        ((trendingWorkIds db ranking).filterMap (collect BrowseEntry.workId matched)) := by
  obtain ⟨matched, hmatched, hlists⟩ := Select.rows_spec hdef
    (h.append (fits_workIdIn db (trendingWorkIds db ranking)))
  have hkey : ∀ f ∈ matched, ∀ g ∈ matched, f.workId = g.workId → f = g := by
    intro f hf g hg heq
    apply Table.eq_of_clash ((hlists.mem f).mp hf).1 ((hlists.mem g).mp hg).1
    exact decide_eq_true heq
  have hranked := lists_filterMap_collect hkey (lists_distinct (namedWorks db ranking))
  refine ⟨matched, hmatched, hranked.congr ?_ fun f g _ _ hfg => hfg⟩
  intro f
  rw [hlists.mem]
  constructor
  · rintro ⟨⟨hf, -, hp, -⟩, hnamed⟩
    exact ⟨⟨hf, hp⟩, hnamed⟩
  · rintro ⟨⟨hf, hp⟩, hnamed⟩
    exact ⟨⟨hf, fun hjoin => Bool.noConfusion hjoin, hp, mem_distinct.mpr hnamed⟩, hnamed⟩

/-- The viewed works and the others are one listing, and a page is a slice of it. -/
theorem trendingPage_spec (ranking : Ranking) {w : Where ρ} (h : w.Means db p) :
    ∃ xs, Lists (fun f => f ∈ db.browseCatalogue ∧ p f) (Before ρ db ranking .trending) xs ∧
      ∀ size offset : Nat,
        trendingPage db ranking w.parts w.binds w.usesRated size offset =
          some ((slice offset size xs).map browseCols) := by
  by_cases hempty : trendingWorkIds db ranking = []
  · have hnone : ∀ workId, workId ∉ namedWorks db ranking := by
      intro workId hmem
      rw [← mem_distinct] at hmem
      rw [trendingWorkIds] at hempty
      rw [hempty] at hmem
      exact List.not_mem_nil hmem
    obtain ⟨xs, hxs, hfetch⟩ := fetchPage_spec .newest h
    refine ⟨xs, hxs.congr (fun f => Iff.rfl) ?_, ?_⟩
    · intro f g _ _ hfg
      exact Or.inr (Or.inr ⟨hnone _, hnone _, newer_iff.mp hfg⟩)
    · intro size offset
      rw [trendingPage, hempty]
      exact hfetch size offset
  · obtain ⟨matched, hmatched, hfound⟩ := matched_spec ranking
      (defined_append h.reads rfl) h.fits
    obtain ⟨rest, hrest, hfetchRest⟩ := rest_spec w.usesRated (defined_append h.reads rfl)
      h.fits (fits_workIdNotIn db (trendingWorkIds db ranking))
    have hothers : Lists
        (fun f => (f ∈ db.browseCatalogue ∧ p f) ∧ f.workId ∉ namedWorks db ranking)
        Newer rest := by
      apply hrest.congr ?_ fun f g _ _ hfg => hfg
      intro f
      rw [trendingWorkIds, mem_distinct]
    refine ⟨_, hfound.append hothers, ?_⟩
    intro size offset
    have hsecond := fun limit restOffset => phase_eq (hfetchRest limit restOffset)
    have hnonempty : (trendingWorkIds db ranking).isEmpty = false :=
      List.isEmpty_eq_false_iff.mpr hempty
    rw [slice_append, List.map_append]
    simp only [trendingPage, hnonempty, Bool.false_eq_true, if_false, hmatched,
      Option.bind_eq_bind, Option.bind_some, splitTwoPhase_natCast, hsecond,
      Int.toNat_natCast]

/-- Keys of both shapes name one work, which is ranked once, by the better one. -/
example : trendingWorkIds
    { browseCatalogue := .empty
      workTag := .empty
      reviews := .empty
      sourceSeries := ⟨[⟨"s_1", "w_1", "suwayomi", "1", "17", none, false, none⟩], by decide⟩ }
    ⟨some [("17", 9), ("w_2", 4), ("w_1", 2)], true⟩ = ["w_1", "w_2"] := by decide

/-- A sort has one listing of the filtered catalogue, of which its pages are slices. -/
theorem pageRows_spec (ranking : Ranking) (sort : BrowseSort) {w : Where ρ}
    (h : w.Means db p) :
    ∃ xs, Lists (fun f => f ∈ db.browseCatalogue ∧ p f) (Before ρ db ranking sort) xs ∧
      ∀ offset : Nat, pageRows db ranking sort w offset =
        some ((slice offset browsePageSize xs).map browseCols) := by
  cases sort with
  | newest =>
      obtain ⟨xs, hxs, hfetch⟩ := fetchPage_spec .newest h
      refine ⟨xs, hxs.congr (fun f => Iff.rfl) ?_, hfetch browsePageSize⟩
      intro f g _ _ hfg
      exact newer_iff.mp hfg
  | chapters =>
      obtain ⟨xs, hxs, hfetch⟩ := fetchPage_spec .chapters h
      refine ⟨xs, hxs.congr (fun f => Iff.rfl) ?_, hfetch browsePageSize⟩
      intro f g _ _ hfg
      exact moreChapters_iff.mp hfg
  | rating =>
      obtain ⟨xs, hxs, hpage⟩ := ratingPage_spec ranking h.fits
      exact ⟨xs, hxs, hpage browsePageSize⟩
  | trending =>
      obtain ⟨xs, hxs, hpage⟩ := trendingPage_spec ranking h
      exact ⟨xs, hxs, hpage browsePageSize⟩

/-! ## The partition

Pages are windows of one size, so that the slices of one listing put it together
again. -/

/-- A total that is counted is the length of every listing. -/
theorem totalFor_spec {w : Where ρ} (h : w.Means db p)
    {r : BrowseEntry → BrowseEntry → Prop} {xs : List BrowseEntry}
    (hxs : Lists (fun f => f ∈ db.browseCatalogue ∧ p f) r xs) (memo : Option Int) :
    totalFor db memo w = some (memo.getD xs.length) := by
  cases memo with
  | some t => rfl
  | none =>
      have hdef : Select.defined ⟨w.usesRated, false, w.parts ++ []⟩ = true :=
        defined_append h.reads rfl
      rw [List.append_nil] at hdef
      exact Select.count_eq hdef h.fits (hxs.congr (by simp) fun f g _ _ hfg => hfg)

/-- Where a page starts. -/
def pageStart (page : Int) : Nat := ((max page 1 - 1) * browsePageSize).toNat

/-- The offset as the code computes it. -/
theorem natCast_pageStart (page : Int) :
    (pageStart page : Int) = (max page 1 - 1) * browsePageSize := by
  rw [pageStart, browsePageSize]
  omega

/-- Pages below 1 are page 1. -/
theorem pageStart_of_lt {page : Int} (h : page < 1) : pageStart page = pageStart 1 := by
  rw [pageStart, pageStart, max_eq_right h.le, max_self]

/-- Pages are cut one behind the other. -/
theorem pageStart_succ (k : Nat) : pageStart (k + 1) = k * browsePageSize := by
  rw [pageStart, browsePageSize]
  omega

/-- **The pages of Browse partition the filtered catalogue.**  For every filter
and sort there is a listing of it, each work once and in the order of the sort,
which the pages cut into pieces of one size up to the first empty one; pages
below 1 are page 1, and a total that is not memoized is the length of it. -/
theorem browse_pages_partition (db : BrowseDb) (ranking : Ranking) (q : BrowseQuery ρ) :
    ∃ (listing : List BrowseEntry) (pages : Int → List BrowseRow) (count : Nat),
      Lists (fun f => f ∈ db.browseCatalogue ∧ Selected db q f)
        (Before ρ db ranking q.sort) listing ∧
      (∀ memo page, browseCatalogue db ranking memo { q with page := page } =
        some (memo.getD listing.length, pages page)) ∧
      (∀ page < 1, pages page = pages 1) ∧
      Paginates browsePageSize (fun k => pages (k + 1)) count (listing.map browseCols) := by
  have hmeans := buildWhere_means db q
  obtain ⟨listing, hlisting, hpage⟩ := pageRows_spec ranking q.sort hmeans
  obtain ⟨count, hslices⟩ := exists_paginates_slice (show 0 < browsePageSize by decide) listing
  refine ⟨listing,
    fun page => (slice (pageStart page) browsePageSize listing).map browseCols,
    count, hlisting, ?_, ?_, ?_⟩
  · intro memo page
    have hrows := hpage (pageStart page)
    rw [natCast_pageStart] at hrows
    show (totalFor db memo (buildWhere q)).bind _ = _
    rw [totalFor_spec hmeans hlisting, Option.bind_some]
    show (pageRows db ranking q.sort (buildWhere q) _).bind _ = _
    rw [hrows]
    rfl
  · intro page hlt
    show (slice (pageStart page) browsePageSize listing).map browseCols = _
    rw [pageStart_of_lt hlt]
  · have hpages := hslices.map browseCols
    simp only [← pageStart_succ] at hpages
    exact hpages

end Komika.Feed.BrowsePages
