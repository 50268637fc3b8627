import Komika.Feed.Browse
import Komika.Feed.Publish
import Mathlib.Data.List.Dedup

/-!
# The columns that may not be NULL

What the `INSERT`s of the rebuild offer for the `NOT NULL` columns of their
tables, as SQL computes it: a `COALESCE` that runs out is a NULL.  The rows of
`Publish`, `Rebuild` and `Browse` are those that pass; here a row that would
not is told apart from one that is not selected.

`feed_series_updates`, `browse_catalogue` and the facets are never offered a
NULL: their titles fall back on a column that has none, or a `WHERE` clause
drops the row.  `feed_updates` takes the bare title of the work, which may be
NULL.

* `mirrorColumns_eq`, `scannerColumns_eq` — the two inserts of the feed offer whole
  rows;
* `browseColumns_eq` — so does the insert of Browse;
* `isSome_facetColumns` — and the one of the facets;
* `complete_feedUpdateColumns` — the exception.
-/

namespace Komika.Feed.Constraints

open Komika.Lib Komika.Lib.Table
open Komika.Catalog.Schema (Id SourceSeries WorkTag)
open Komika.Feed.Schema Komika.Feed.Types Komika.Feed.Rebuild
open Komika.Feed.Publish Komika.Feed.Browse

/-! ## What is offered

The expressions of the selects, where a NULL is `none`. -/

/-- The `NOT NULL` columns of `feed_updates`. -/
structure FeedUpdateColumns where
  title : Option String
  isNsfw : Option Bool
  latestAt : Option String
deriving DecidableEq

/-- No column is NULL. -/
def FeedUpdateColumns.complete (c : FeedUpdateColumns) : Bool :=
  c.title.isSome && c.isNsfw.isSome && c.latestAt.isSome

/-- `feed_updates_select`, for one work. -/
def feedUpdateColumns (base : Base) (now : String) (w : Work) :
    Option FeedUpdateColumns :=
  (newestReleased base now w.id).map fun r =>
    { title := w.primaryTitle
      isNsfw := w.isNsfwOverride.or (some w.isNsfw)
      latestAt := (r.2.readableAt.or r.2.publishedAt).or (some r.2.createdAt) }

/-- The `NOT NULL` columns that the inserts into `feed_series_updates` set. -/
structure FeedSeriesColumns where
  readerId : Option String
  title : Option String
  releasedAt : Option Int
  isNsfw : Option Bool
  contentRating : Option String
deriving DecidableEq

/-- No column is NULL. -/
def FeedSeriesColumns.complete (c : FeedSeriesColumns) : Bool :=
  c.readerId.isSome && c.title.isSome && c.releasedAt.isSome && c.isNsfw.isSome &&
    c.contentRating.isSome

/-- The mirror half: `WHERE strftime('%s', fu.latest_at) IS NOT NULL`. -/
def mirrorColumns (rules : FeedRules) (base : Base) (fu : FeedUpdate) :
    Option FeedSeriesColumns :=
  (base.work.lookup fu.workId).bind fun w =>
    if (rules.strftimeSeconds fu.latestAt).isSome then
      some
        { readerId := some fu.workId
          title := w.titleOverride.or (some fu.title)
          releasedAt := (rules.strftimeSeconds fu.latestAt).map (· * 1000)
          isNsfw := some fu.isNsfw
          contentRating := w.contentRating.or (some "safe") }
    else none

/-- The scanner half, before the table has checked its columns. -/
def scannerColumns (rules : FeedRules) (base : Base) (w : Work) :
    Option FeedSeriesColumns :=
  (newestSource rules base w.id).map fun s =>
    { readerId := some (if anchored base w.id then w.id else toString s.series.id)
      title := w.titleOverride.or (w.primaryTitle.or (some s.series.title))
      releasedAt := s.series.latestChapterAt.map rules.castInteger
      isNsfw := w.isNsfwOverride.or (some w.isNsfw)
      contentRating := w.contentRating.or (some "safe") }

/-- The `NOT NULL` columns of `browse_catalogue`. -/
structure BrowseColumns where
  readerId : Option String
  title : Option String
  contentRating : Option String
  isNsfw : Option Bool
  enChapterCount : Option Int
  createdAt : Option String
deriving DecidableEq

/-- No column is NULL. -/
def BrowseColumns.complete (c : BrowseColumns) : Bool :=
  c.readerId.isSome && c.title.isSome && c.contentRating.isSome && c.isNsfw.isSome &&
    c.enChapterCount.isSome && c.createdAt.isSome

/-- `browse_catalogue_select`, for one work. -/
def browseColumns (rules : FeedRules) (base : Base) (feed : Table FeedSeriesUpdate)
    (w : Work) : Option BrowseColumns :=
  let f := feed.lookup w.id
  let sw := firstSuwayomi rules base w.id
  if openable rules base w.id && browseTitle rules base f w ≠ "" then
    some
      { readerId :=
          if anchored base w.id then some w.id
          else f.elim (sw.map (·.1.sourceKey)) fun f => some f.readerId
        title :=
          f.elim (w.titleOverride.or (w.primaryTitle.or (suwayomiTitle rules base w.id)))
            fun f => some f.title
        contentRating := f.elim (w.contentRating.or (some "safe")) fun f => some f.contentRating
        isNsfw := f.elim (w.isNsfwOverride.or (some w.isNsfw)) fun f => some f.isNsfw
        enChapterCount := some (max (englishCount base w.id)
          ((suwayomiCount rules base w.id).getD 0))
        createdAt := some w.createdAt }
  else none

/-- The cards that carry a tag. -/
def taggedCards (tags : Table WorkTag) (browse : Table BrowseEntry) (tag : String) :
    List BrowseEntry :=
  (tags.rows.filter fun t => t.tag = tag).filterMap fun t => browse.lookup t.workId

/-- `SUM`, which of no rows is NULL. -/
def sqlSum (xs : List Int) : Option Int := if xs = [] then none else some xs.sum

/-- `GROUP BY t.tag`: the tags that some card carries. -/
def facetTags (tags : Table WorkTag) (browse : Table BrowseEntry) : List String :=
  ((tags.rows.filter fun t => (browse.lookup t.workId).isSome).map WorkTag.tag).dedup

/-- `safe_count` and `all_count` of `feed_genre_facet`. -/
def facetColumns (tags : Table WorkTag) (browse : Table BrowseEntry) (tag : String) :
    Option Int × Option Int :=
  let cards := taggedCards tags browse tag
  (sqlSum (cards.map fun b => if b.isNsfw then 0 else 1), some cards.length)

/-! ## What is never NULL

Each offer is compared with the row of the table. -/

section Complete

variable {rules : FeedRules} {base : Base} {feed : Table FeedSeriesUpdate} {w : Work}

/-- The columns of a row of the feed. -/
def columnsOf (r : FeedSeriesUpdate) : FeedSeriesColumns where
  readerId := some r.readerId
  title := some r.title
  releasedAt := some r.releasedAt
  isNsfw := some r.isNsfw
  contentRating := some r.contentRating

/-- A row that is there has them all. -/
theorem complete_columnsOf (r : FeedSeriesUpdate) : (columnsOf r).complete = true := rfl

/-- `COALESCE` that ends in a column without NULLs. -/
theorem or_some_eq {α : Type} (o : Option α) (a : α) : o.or (some a) = some (o.getD a) := by
  cases o <;> rfl

/-- The mirror half offers the row of `Rebuild`. -/
theorem mirrorColumns_eq (fu : FeedUpdate) :
    mirrorColumns rules base fu = (mirrorRow rules base fu).map columnsOf := by
  unfold mirrorColumns mirrorRow
  cases base.work.lookup fu.workId with
  | none => rfl
  | some w =>
      rw [Option.bind_some, Option.bind_some]
      cases rules.strftimeSeconds fu.latestAt with
      | none => rfl
      | some seconds =>
          simp only [or_some_eq]
          rfl

/-- A source in the library has a release time, which is the one it is ranked
by. -/
theorem releasedAt_newestSource {workId : Id} {s : LibrarySource}
    (h : newestSource rules base workId = some s) :
    s.series.latestChapterAt.map rules.castInteger = some s.releasedAt := by
  obtain ⟨-, -, -, t, ht, hreleased⟩ := mem_librarySources.mp (mem_of_newestSource h)
  rw [ht, hreleased, Option.map_some]

/-- The scanner half offers the row of `Rebuild`. -/
theorem scannerColumns_eq : scannerColumns rules base w =
    (scannerRow rules base w).map columnsOf := by
  unfold scannerColumns scannerRow
  cases hnewest : newestSource rules base w.id with
  | none => rfl
  | some s =>
      have htitle : w.titleOverride.or (w.primaryTitle.or (some s.series.title)) =
          some ((w.titleOverride.or w.primaryTitle).getD s.series.title) := by
        rw [← Option.or_assoc, or_some_eq]
      rw [Option.map_some, Option.map_some, htitle, releasedAt_newestSource hnewest,
        or_some_eq, or_some_eq]
      rfl

/-- The columns of a card. -/
def columnsOfCard (r : BrowseEntry) : BrowseColumns where
  readerId := some r.readerId
  title := some r.title
  contentRating := some r.contentRating
  isNsfw := some r.isNsfw
  enChapterCount := some r.enChapterCount
  createdAt := some r.createdAt

/-- A card that is there has them all. -/
theorem complete_columnsOfCard (r : BrowseEntry) : (columnsOfCard r).complete = true := rfl

/-- Browse offers the card of `Browse`: the `WHERE` clause asks for a source to
open, and for a title. -/
theorem browseColumns_eq : browseColumns rules base feed w =
    (browseRow rules base feed w).map columnsOfCard := by
  unfold browseColumns browseRow
  dsimp only
  split
  · next hselected =>
      rw [Bool.and_eq_true, decide_eq_true_eq] at hselected
      obtain ⟨hopen, htitle⟩ := hselected
      have hreader : (if anchored base w.id then some w.id
          else (feed.lookup w.id).elim
            ((firstSuwayomi rules base w.id).map (·.1.sourceKey)) fun f => some f.readerId) =
          some (if anchored base w.id then w.id
            else ((feed.lookup w.id).map (·.readerId)).getD
              (((firstSuwayomi rules base w.id).map (·.1.sourceKey)).getD "")) := by
        cases hanchored : anchored base w.id with
        | true => rfl
        | false =>
            rw [openable, hanchored, Bool.false_or] at hopen
            obtain ⟨sw, hsw⟩ := Option.isSome_iff_exists.mp hopen
            rw [hsw]
            cases feed.lookup w.id <;> rfl
      have hname : (feed.lookup w.id).elim
          (w.titleOverride.or (w.primaryTitle.or (suwayomiTitle rules base w.id)))
            (fun f => some f.title) = some (browseTitle rules base (feed.lookup w.id) w) := by
        unfold browseTitle at htitle ⊢
        cases hf : feed.lookup w.id with
        | some f => rfl
        | none =>
            rw [hf] at htitle
            simp only [Option.map_none, Option.none_or, Option.elim_none] at htitle ⊢
            cases hcoalesced : w.titleOverride.or
                (w.primaryTitle.or (suwayomiTitle rules base w.id)) with
            | some t => rfl
            | none => exact absurd (by rw [hcoalesced]; rfl) htitle
      rw [hreader, hname]
      simp only [Option.map_some, columnsOfCard, Option.some.injEq, BrowseColumns.mk.injEq,
        true_and, and_true]
      cases feed.lookup w.id with
      | none => exact ⟨or_some_eq _ _, or_some_eq _ _⟩
      | some f => exact ⟨rfl, rfl⟩
  · rfl

/-- A tag that is grouped by is on some card, so its sum is one of some rows. -/
theorem isSome_facetColumns {tags : Table WorkTag} {browse : Table BrowseEntry} {tag : String}
    (h : tag ∈ facetTags tags browse) :
    (facetColumns tags browse tag).1.isSome = true ∧
      (facetColumns tags browse tag).2.isSome = true := by
  obtain ⟨t, ht, rfl⟩ := List.mem_map.mp (List.mem_dedup.mp h)
  obtain ⟨hmem, hcard⟩ := List.mem_filter.mp ht
  obtain ⟨b, hb⟩ := Option.isSome_iff_exists.mp hcard
  have hcards : b ∈ taggedCards tags browse t.tag :=
    List.mem_filterMap.mpr ⟨t, List.mem_filter.mpr ⟨hmem, by simp⟩, hb⟩
  refine ⟨?_, rfl⟩
  unfold facetColumns sqlSum
  dsimp only
  rw [if_neg]
  · rfl
  · intro hnil
    rw [List.map_eq_nil_iff] at hnil
    rw [hnil] at hcards
    exact List.not_mem_nil hcards

end Complete

/-! ## What may be NULL

The title of an anchored work. -/

section FeedUpdates

variable {base : Base} {now : String} {w : Work}

/-- The row of a work is complete exactly if the work has a title of its own. -/
theorem complete_feedUpdateColumns {c : FeedUpdateColumns}
    (h : feedUpdateColumns base now w = some c) :
    c.complete = w.primaryTitle.isSome := by
  obtain ⟨r, -, rfl⟩ := Option.map_eq_some_iff.mp h
  simp only [FeedUpdateColumns.complete, or_some_eq, Option.isSome_some, Bool.and_true]

end FeedUpdates

end Komika.Feed.Constraints
