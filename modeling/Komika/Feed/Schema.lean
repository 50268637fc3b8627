import Komika.Catalog.Schema
import Komika.Lib.Lookup

/-!
# The tables behind Updates, Browse and search

`feed_updates`, `feed_series_updates`, `browse_catalogue` and `work_fts` are
derived: the statements that write them read the catalogue, the Suwayomi cache
and the release ledger, and write nothing else.  `Base` is what they read,
`Feeds` is what they write.

The catalogue's rows are those of `Catalog.Schema`, with the columns that only
the feeds read.

Each table has its key, and the lemmas at the end read the key of a row.  The search
index is a list, because a virtual table has no key that an insert could meet.
-/

namespace Komika.Feed.Schema

open Komika.Lib
open Komika.Catalog.Schema (Id SourceSeries WorkAlias WorkTag TagSource
  ReleaseEvent)

/-! ## What the feeds are derived from

A source refers to its work, which the foreign key of the catalogue says; the
derivations rely on it where they join. -/

/-- A work, with the columns that only the feeds read. -/
structure Work extends Catalog.Schema.Work where
  coverCachedVersion : Option Int
  contentTypeOverride : Option String
  createdAt : String
deriving DecidableEq

/-- A chapter, with the time it was first seen. -/
structure Chapter extends Catalog.Schema.Chapter where
  createdAt : String
deriving DecidableEq

/-- A series of the Suwayomi cache, with what cards show of it. -/
structure SuwayomiSeries extends Catalog.Schema.SuwayomiSeries where
  thumbnailUrl : Option String
  genre : Option String
  inLibrary : Bool
  chapterCount : Int
  latestChapterAt : Option String
deriving DecidableEq

/-- A chapter of the Suwayomi cache. -/
structure SuwayomiChapter where
  id : Int
  mangaId : Int
  name : String
  chapterNumber : Rat
  scanlator : Option String
  uploadDate : Option String
  isRead : Bool
  isBookmarked : Bool
  isDownloaded : Bool
  lastPageRead : Int
  pageCount : Int
deriving DecidableEq

/-- What the scanner keeps of a library series, as far as the feeds read it. -/
structure SeriesScanState where
  seriesId : String
  lastNewChapterAt : Option String
deriving DecidableEq

instance : Keyed Work := .ofKey fun r => r.id
instance : Keyed Chapter where
  clash a b := clash a.toChapter b.toChapter
  clash_symm a b := clash_symm a.toChapter b.toChapter
instance : Keyed SuwayomiSeries := .ofKey fun r => r.id
instance : Keyed SuwayomiChapter := .ofKey SuwayomiChapter.id
instance : Keyed SeriesScanState := .ofKey SeriesScanState.seriesId

/-- What the feeds are derived from. -/
structure Base where
  work : Table Work
  sourceSeries : Table SourceSeries
  chapter : Table Chapter
  suwayomiSeries : Table SuwayomiSeries
  suwayomiChapter : Table SuwayomiChapter
  seriesScanState : Table SeriesScanState
  workTag : Table WorkTag
  workAlias : Table WorkAlias
  releaseEvent : Table ReleaseEvent
  /-- `source_series.work_id REFERENCES work(id)`. -/
  sourceSeries_work : ∀ ss ∈ sourceSeries, ∃ w ∈ work, w.id = ss.workId

/-- A work with a title and nothing else. -/
def bareWork (id : Id) (primaryTitle : Option String) : Work where
  id := id
  primaryTitle := primaryTitle
  primaryLang := none
  description := none
  year := none
  originalLanguage := none
  status := none
  demographic := none
  contentRating := none
  isNsfw := false
  author := none
  artist := none
  coverPhash := none
  coverFileName := none
  titleOverride := none
  isNsfwOverride := none
  coverCachedVersion := none
  contentTypeOverride := none
  createdAt := "t0"

/-- The one work `w`. -/
def oneWork (primaryTitle : Option String) : Table Work :=
  ⟨[bareWork "w" primaryTitle], List.pairwise_singleton _ _⟩

/-- A cached series in the library. -/
def librarySeries (id : Int) (title : String) (chapterCount : Int)
    (latestChapterAt : Option String) : SuwayomiSeries where
  id := id
  title := title
  author := none
  artist := none
  description := none
  status := "ONGOING"
  lang := some "en"
  thumbnailUrl := none
  genre := none
  inLibrary := true
  chapterCount := chapterCount
  latestChapterAt := latestChapterAt

/-- No rows at all. -/
def Base.empty : Base where
  work := .empty
  sourceSeries := .empty
  chapter := .empty
  suwayomiSeries := .empty
  suwayomiChapter := .empty
  seriesScanState := .empty
  workTag := .empty
  workAlias := .empty
  releaseEvent := .empty
  sourceSeries_work _ hss := absurd hss (Table.not_mem_empty _)

/-! ## The derived tables

One row for each work, except for the index. -/

/-- A row of `feed_updates`: the newest readable chapter of an anchored work. -/
structure FeedUpdate where
  workId : Id
  mangadexId : Option String
  title : String
  isNsfw : Bool
  coverUrl : Option String
  latestChapter : Option String
  latestChapterTitle : Option String
  latestAt : String
deriving DecidableEq

/-- A row of `feed_series_updates`: a card of Updates. -/
@[ext] structure FeedSeriesUpdate where
  workId : Id
  readerId : String
  title : String
  coverUrl : Option String
  suwayomiThumbnail : Option String
  comicType : Option String
  latestChapter : Option String
  latestChapterTitle : Option String
  chapterCount : Option Int
  releasedAt : Int
  detectedAt : Option String
  isNsfw : Bool
  status : Option String
  contentRating : String
  enChapterCount : Int
deriving DecidableEq

/-- A row of `browse_catalogue`: a card of Browse. -/
structure BrowseEntry where
  workId : Id
  readerId : String
  title : String
  coverUrl : Option String
  suwayomiThumbnail : Option String
  comicType : Option String
  status : Option String
  contentRating : String
  isNsfw : Bool
  enChapterCount : Int
  latestChapter : Option String
  releasedAt : Option Int
  createdAt : String
deriving DecidableEq

/-- `work_fts` is a full-text index, which has no keys. -/
structure FtsRow where
  workId : Id
  chapters : Nat
  title : String
  aliases : String
deriving DecidableEq

instance : Keyed FeedUpdate := .ofKey FeedUpdate.workId
instance : Keyed FeedSeriesUpdate := .ofKey FeedSeriesUpdate.workId
instance : Keyed BrowseEntry := .ofKey BrowseEntry.workId

/-- The derived tables, which can be built anew from the others. -/
structure Feeds where
  feedUpdates : Table FeedUpdate
  feedSeriesUpdates : Table FeedSeriesUpdate
  browseCatalogue : Table BrowseEntry
  workFts : List FtsRow

/-- Nothing has been derived yet. -/
def Feeds.empty : Feeds where
  feedUpdates := .empty
  feedSeriesUpdates := .empty
  browseCatalogue := .empty
  workFts := []

/-! ## Keys

What the lookups of the tables go by. -/

instance : ByKey Work Id where
  key r := r.id
  clash_iff _ _ := decide_eq_true_iff

instance : ByKey SuwayomiSeries Int where
  key r := r.id
  clash_iff _ _ := decide_eq_true_iff

instance : ByKey SeriesScanState String where
  key := SeriesScanState.seriesId
  clash_iff _ _ := decide_eq_true_iff

instance : ByKey FeedUpdate Id where
  key := FeedUpdate.workId
  clash_iff _ _ := decide_eq_true_iff

instance : ByKey FeedSeriesUpdate Id where
  key := FeedSeriesUpdate.workId
  clash_iff _ _ := decide_eq_true_iff

instance : ByKey BrowseEntry Id where
  key := BrowseEntry.workId
  clash_iff _ _ := decide_eq_true_iff

@[simp] theorem key_work (r : Work) : key r = r.id := rfl

@[simp] theorem key_feedUpdate (r : FeedUpdate) : key r = r.workId := rfl

@[simp] theorem key_feedSeriesUpdate (r : FeedSeriesUpdate) :
    key r = r.workId := rfl

@[simp] theorem key_browseEntry (r : BrowseEntry) : key r = r.workId := rfl

end Komika.Feed.Schema
