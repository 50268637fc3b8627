import Komika.Feed.Browse

/-!
# The scanner's feed write

`upsert_feed_series_update` of `scanner.rs` keeps the feed fresh between two
rebuilds.  It runs the rebuild's scanner half for the works that one series is
mapped to, and restates the passes that follow it: a type for a row that has
none, a count, the ledger's clock, and a copy of the row for Browse.

Each restatement differs from the pass it stands for.  `Converges` says what
has to hold of the state for the difference not to show.

The comparison is with the rebuild that comes next, for a work that has a library source
with this key.  What the call leaves is `written`, in terms of the row that was there
and of the base tables; what a rebuild leaves comes from `Rebuild`.

* `lookup_upsertFeedSeriesUpdate` — the feed row after the call;
* `untypedRow_upserted` — the row whose type the fill computes, `LIMIT 1`;
* `clock_iff`, `scannerCount_eq_iff`, `writtenType_eq_iff` — the columns, one by one;
* `browseType_iff` — the row of Browse;
* `scanner_converges_iff` — all of them;
* `not_scanner_converges_stub` — a count that the rebuild raises and the scanner does
  not.
-/

namespace Komika.Feed.Scanner

open Komika.Lib Komika.Lib.Table
open Komika.Catalog.Schema (Id SourceSeries ReleaseEvent)
open Komika.Feed.Schema Komika.Feed.Types Komika.Feed.Rebuild Komika.Feed.Browse

/-! ## The writer

The statements of the call, in its order. -/

/-- `SELECT work_id FROM source_series WHERE source_type = 'suwayomi' AND
source_key = ?`. -/
def mappedWorks (base : Base) (seriesId : String) : List Id :=
  (base.sourceSeries.rows.filter fun ss =>
    ss.sourceType = "suwayomi" && ss.sourceKey = seriesId).map (·.workId)

/-- The rebuild's scanner half, for the works of one series. -/
def scopedRow (rules : FeedRules) (base : Base) (seriesId : String) (w : Work) :
    Option FeedSeriesUpdate :=
  if w.id ∈ mappedWorks base seriesId then scannerRow rules base w else none

/-- `ON CONFLICT(work_id) DO UPDATE` of the scanner. -/
def scannerUpsert (old r : FeedSeriesUpdate) : FeedSeriesUpdate :=
  { scannerMerge old r with chapterCount := r.chapterCount.or old.chapterCount }

/-- The row of a work has its id. -/
theorem key_scopedRow (rules : FeedRules) (base : Base) (seriesId : String)
    (w : Work) (r : FeedSeriesUpdate)
    (h : scopedRow rules base seriesId w = some r) : key r = key w := by
  unfold scopedRow at h
  split at h
  · exact key_scannerRow rules base w r h
  · contradiction

/-- The conflict clause leaves the key. -/
theorem keepsKeys_scannerUpsert (r : FeedSeriesUpdate) :
    KeepsKeys (scannerUpsert · r) := .of_key fun _ => rfl

/-- The rows that the upsert offers. -/
def offered (rules : FeedRules) (base : Base) (seriesId : String) :
    Table FeedSeriesUpdate :=
  base.work.select (scopedRow rules base seriesId) (key_scopedRow rules base seriesId)

/-- The feed after the upsert. -/
def upserted (rules : FeedRules) (base : Base) (seriesId : String)
    (t : Table FeedSeriesUpdate) : Table FeedSeriesUpdate :=
  t.upsertAll (offered rules base seriesId).rows scannerUpsert keepsKeys_scannerUpsert

/-- `WHERE f.comic_type IS NULL`, of the works of the series. -/
def isUntyped (base : Base) (seriesId : String) (f : FeedSeriesUpdate) : Bool :=
  f.comicType = none && (decide (f.workId ∈ mappedWorks base seriesId) &&
    (base.work.lookup f.workId).isSome)

/-- The row that `fill_missing_feed_comic_type` fetches: one without a type. -/
def untypedRow (base : Base) (seriesId : String) (t : Table FeedSeriesUpdate) :
    Option FeedSeriesUpdate := t.rows.find? (isUntyped base seriesId)

/-- The type it computes for that row. -/
def untieredType (rules : FeedRules) (base : Base) (f : FeedSeriesUpdate) :
    Option String :=
  (base.work.lookup f.workId).map fun w =>
    comicTypeWord rules w (untieredGenres rules base w.id) f.title

/-- The row with this type. -/
def withType (word : Option String) (r : FeedSeriesUpdate) : FeedSeriesUpdate :=
  { r with comicType := word }

/-- `fill_missing_feed_comic_type`: fetches one untyped row of the series' works and
types that one. -/
def fillMissingFeedComicType (rules : FeedRules) (base : Base) (seriesId : String)
    (t : Table FeedSeriesUpdate) : Table FeedSeriesUpdate :=
  match untypedRow base seriesId t with
  | none => t
  | some f => t.update (fun r => r.workId = f.workId && r.comicType = none)
      (withType (untieredType rules base f)) (.of_key fun _ => rfl)

/-- `fill_feed_en_chapter_count`: the English count, and the Suwayomi count
where that is zero. -/
def fillFeedEnChapterCount (rules : FeedRules) (base : Base) (seriesId : String)
    (t : Table FeedSeriesUpdate) : Table FeedSeriesUpdate :=
  (countEnglish base (fun w => w ∈ mappedWorks base seriesId) t).update
    (fun r => decide (r.workId ∈ mappedWorks base seriesId) &&
      (r.enChapterCount = 0 && 0 < (suwayomiCount rules base r.workId).getD 0))
    (fun r => withCount ((suwayomiCount rules base r.workId).getD 0) r)
    (keepsKeys_withCount fun r => (suwayomiCount rules base r.workId).getD 0)

/-- `project_feed_from_ledger_for_work`, for one of the works: `LIMIT 1`. -/
def projectOne (base : Base) (ready : Bool) (seriesId : String)
    (t : Table FeedSeriesUpdate) : Table FeedSeriesUpdate :=
  match (mappedWorks base seriesId).head? with
  | none => t
  | some w => projectIfReady base ready (some w) t

/-- The feed row as a row of Browse, with the time the work was created. -/
def browseCopy (f : FeedSeriesUpdate) (createdAt : String) : BrowseEntry where
  workId := f.workId
  readerId := f.readerId
  title := f.title
  coverUrl := f.coverUrl
  suwayomiThumbnail := f.suwayomiThumbnail
  comicType := f.comicType
  status := f.status
  contentRating := f.contentRating
  isNsfw := f.isNsfw
  enChapterCount := f.enChapterCount
  latestChapter := f.latestChapter
  releasedAt := some f.releasedAt
  createdAt := createdAt

/-- The row that Browse gets for a feed row of one of the works. -/
def mirroredRow (base : Base) (seriesId : String) (f : FeedSeriesUpdate) :
    Option BrowseEntry :=
  if f.workId ∈ mappedWorks base seriesId then
    (base.work.lookup f.workId).map fun w => browseCopy f w.createdAt
  else none

/-- The card has the key of the feed row. -/
theorem key_mirroredRow (base : Base) (seriesId : String) (f : FeedSeriesUpdate)
    (r : BrowseEntry) (h : mirroredRow base seriesId f = some r) : key r = key f := by
  unfold mirroredRow at h
  split at h
  · obtain ⟨w, -, rfl⟩ := Option.map_eq_some_iff.mp h
    rfl
  · contradiction

/-- `mirror_feed_row_into_browse_catalogue`: copies the feed rows of the series' works
to their cards. -/
def mirrorFeedRowIntoBrowseCatalogue (base : Base) (seriesId : String)
    (feed : Table FeedSeriesUpdate) (t : Table BrowseEntry) : Table BrowseEntry :=
  t.upsertAll (feed.select (mirroredRow base seriesId)
    (key_mirroredRow base seriesId)).rows browseMerge keepsKeys_browseMerge

/-- `upsert_feed_series_update`: the upsert, the two fills, the projection and the
mirror; a series that offers no row does nothing. -/
def upsertFeedSeriesUpdate (rules : FeedRules) (base : Base) (ready : Bool)
    (seriesId : String) (feeds : Feeds) : Feeds :=
  if (offered rules base seriesId).rows = [] then feeds
  else
    let feed := projectOne base ready seriesId
      (fillFeedEnChapterCount rules base seriesId
        (fillMissingFeedComicType rules base seriesId
          (upserted rules base seriesId feeds.feedSeriesUpdates)))
    { feeds with
      feedSeriesUpdates := feed
      browseCatalogue :=
        mirrorFeedRowIntoBrowseCatalogue base seriesId feed feeds.browseCatalogue }

/-! ## The row it leaves

One lemma for each pass, and the four together. -/

section Row

variable {rules : FeedRules} {base : Base} {ready : Bool} {seriesId : String}
variable {w : Id} {t : Table FeedSeriesUpdate}

/-- The type that the fill gives a row, where `fetched` is the work of the row that
it read. -/
def filledType (rules : FeedRules) (base : Base) (fetched : Option Id)
    (r : FeedSeriesUpdate) : Option String :=
  r.comicType.or (if fetched = some r.workId then untieredType rules base r else none)

/-- The count that the scanner leaves. -/
def scannerCount (rules : FeedRules) (base : Base) (w : Id) : Int :=
  if englishCount base w = 0 && 0 < (suwayomiCount rules base w).getD 0 then
    (suwayomiCount rules base w).getD 0
  else englishCount base w

/-- The event that the scanner projects. -/
def scannerEvent (base : Base) (ready : Bool) (seriesId : String) (w : Id) :
    Option ReleaseEvent :=
  if (mappedWorks base seriesId).head? = some w then clockEvent base ready w else none

/-- What the scanner's passes change in a row. -/
def settle (rules : FeedRules) (base : Base) (ready : Bool) (seriesId : String)
    (fetched : Option Id) (r : FeedSeriesUpdate) : FeedSeriesUpdate :=
  { r with
    comicType := filledType rules base fetched r
    enChapterCount := scannerCount rules base r.workId
    releasedAt := (scannerEvent base ready seriesId r.workId).elim r.releasedAt
      ReleaseEvent.firstSeenAt
    latestChapter := (scannerEvent base ready seriesId r.workId).elim r.latestChapter
      fun e => some e.label }

/-- The statement types every row of its scope that has no type, with the word of the
one row it has read. -/
theorem lookup_fillMissingFeedComicType :
    (fillMissingFeedComicType rules base seriesId t).lookup w = (t.lookup w).map
      fun r => withType (filledType rules base
        ((untypedRow base seriesId t).map (·.workId)) r) r := by
  unfold fillMissingFeedComicType
  split
  · next hnone =>
      cases hrow : t.lookup w with
      | none => rfl
      | some r => simp [filledType, hnone, withType]
  · next f hf =>
      rw [lookup_update]
      cases hrow : t.lookup w with
      | none => rfl
      | some r =>
          rw [Option.map_some, Option.map_some]
          by_cases hsame : r.workId = f.workId
          · -- the row that was read is the row of `w`
            have hr : r = f := by
              apply eq_of_clash (mem_of_lookup hrow) (List.mem_of_find?_eq_some hf)
              rw [ByKey.clash_iff]
              exact hsame
            have huntyped : r.comicType = none := by
              have hfetched : isUntyped base seriesId f = true := List.find?_some hf
              rw [hr]
              simpa using (Bool.and_eq_true_iff.mp hfetched).1
            simp [filledType, hf, hr ▸ huntyped, hr, withType]
          · simp [filledType, hf, hsame, withType, Ne.symm hsame]

/-- The two counts, of a work of the series. -/
theorem lookup_fillFeedEnChapterCount (hmap : w ∈ mappedWorks base seriesId) :
    (fillFeedEnChapterCount rules base seriesId t).lookup w =
      (t.lookup w).map (withCount (scannerCount rules base w)) := by
  unfold fillFeedEnChapterCount countEnglish
  rw [lookup_update, lookup_update]
  cases hrow : t.lookup w with
  | none => rfl
  | some r =>
      obtain rfl : r.workId = w := key_of_lookup hrow
      simp only [Option.map_some, hmap, decide_true, if_true, withCount, Bool.true_and]
      unfold scannerCount
      split <;> rfl

/-- The projection reaches the one work that `LIMIT 1` picks. -/
theorem lookup_projectOne :
    (projectOne base ready seriesId t).lookup w = (t.lookup w).map fun r =>
      { r with
        releasedAt := (scannerEvent base ready seriesId r.workId).elim r.releasedAt
          ReleaseEvent.firstSeenAt
        latestChapter := (scannerEvent base ready seriesId r.workId).elim
          r.latestChapter fun e => some e.label } := by
  unfold projectOne scannerEvent
  cases hhead : (mappedWorks base seriesId).head? with
  | none => cases t.lookup w <;> simp
  | some w' =>
      cases ready with
      | false =>
          show t.lookup w = _
          cases t.lookup w <;> simp [clockEvent]
      | true =>
          show (projectFeedFromLedger base (some w') t).lookup w = _
          rw [projectFeedFromLedger, lookup_update]
          apply congrArg (fun f => (t.lookup w).map f)
          funext r
          rw [projected_eq]
          by_cases hw : w' = r.workId <;> simp [inScope, clockEvent, hw]

/-- The three passes. -/
theorem lookup_settled (hmap : w ∈ mappedWorks base seriesId) :
    (projectOne base ready seriesId (fillFeedEnChapterCount rules base seriesId
      (fillMissingFeedComicType rules base seriesId t))).lookup w = (t.lookup w).map
        (settle rules base ready seriesId ((untypedRow base seriesId t).map (·.workId))) := by
  rw [lookup_projectOne, lookup_fillFeedEnChapterCount hmap,
    lookup_fillMissingFeedComicType]
  cases hrow : t.lookup w with
  | none => rfl
  | some r =>
      obtain rfl : r.workId = w := key_of_lookup hrow
      rfl

/-- The scanner half has a row for the work, and the feed has none. -/
def inserts (rules : FeedRules) (base : Base) (seriesId : String) (feeds : Feeds)
    (w : Work) : Bool :=
  decide (w.id ∈ mappedWorks base seriesId) && ((newestSource rules base w.id).isSome &&
    (feeds.feedSeriesUpdates.lookup w.id).isNone)

/-- The work whose feed row the fill fetches: of the rows that are there, the first
that has no type, and where each has one, the first of the rows that the scanner half
is going to insert. -/
def firstUntyped (rules : FeedRules) (base : Base) (seriesId : String) (feeds : Feeds) :
    Option Id :=
  ((untypedRow base seriesId feeds.feedSeriesUpdates).map (·.workId)).or
    ((base.work.rows.find? (inserts rules base seriesId feeds)).map (·.id))

/-- The upsert leaves the types of the rows that are there, and its own rows come
behind them. -/
theorem untypedRow_upserted {feeds : Feeds} :
    (untypedRow base seriesId (upserted rules base seriesId feeds.feedSeriesUpdates)).map
      (·.workId) = firstUntyped rules base seriesId feeds := by
  have hfind : ((upserted rules base seriesId feeds.feedSeriesUpdates).rows.find?
        (isUntyped base seriesId)).map key =
      ((feeds.feedSeriesUpdates.rows.find? (isUntyped base seriesId)).map key).or
        (((offered rules base seriesId).rows.find? fun r => isUntyped base seriesId r &&
          (feeds.feedSeriesUpdates.lookup (key r)).isNone).map key) :=
    map_key_find?_upsertAll fun _ _ => rfl
  -- the rows of the scanner half have no type, and are of works that are there
  have hrow : ∀ w ∈ base.work.rows, (scopedRow rules base seriesId w).any (fun r =>
        isUntyped base seriesId r && (feeds.feedSeriesUpdates.lookup (key r)).isNone) =
      inserts rules base seriesId feeds w := by
    intro w hw
    have hthere : base.work.lookup w.id = some w := lookup_of_mem (mem_rows.mp hw)
    unfold scopedRow inserts
    by_cases hmap : w.id ∈ mappedWorks base seriesId
    · rw [if_pos hmap, scannerRow]
      cases newestSource rules base w.id with
      | none => simp
      | some s =>
          simp [isUntyped, hmap, hthere, ByKey.key]
    · simp [hmap]
  have hoffered : ((offered rules base seriesId).rows.find? fun r =>
        isUntyped base seriesId r && (feeds.feedSeriesUpdates.lookup (key r)).isNone).map
          key = (base.work.rows.find? (inserts rules base seriesId feeds)).map (·.id) := by
    show ((base.work.rows.filterMap (scopedRow rules base seriesId)).find? _).map _ = _
    rw [List.find?_filterMap, List.find?_congr hrow]
    cases hfound : base.work.rows.find? (inserts rules base seriesId feeds) with
    | none => rfl
    | some w =>
        have hoffers := (hrow w (List.mem_of_find?_eq_some hfound)).trans
          (List.find?_some hfound)
        obtain ⟨r, hr, -⟩ := (Option.any_eq_true _ _).mp hoffers
        rw [Option.bind_some, hr]
        exact congrArg some (key_scopedRow rules base seriesId w r hr)
  exact hfind.trans (congrArg _ hoffered)

/-- The feed row that the call leaves, where `s` is the scanner half. -/
def written (rules : FeedRules) (base : Base) (ready : Bool) (seriesId : String)
    (feeds : Feeds) (w : Id) (s : FeedSeriesUpdate) : FeedSeriesUpdate :=
  settle rules base ready seriesId (firstUntyped rules base seriesId feeds)
    (merged scannerUpsert (feeds.feedSeriesUpdates.lookup w) s)

/-- The feed row of a work of the series, after the call. -/
theorem lookup_upsertFeedSeriesUpdate {feeds : Feeds} {work : Work}
    {s : FeedSeriesUpdate} (hmap : w ∈ mappedWorks base seriesId)
    (hwork : base.work.lookup w = some work) (hs : scannerRow rules base work = some s) :
    (upsertFeedSeriesUpdate rules base ready seriesId feeds).feedSeriesUpdates.lookup w =
      some (written rules base ready seriesId feeds w s) ∧
    (upsertFeedSeriesUpdate rules base ready seriesId feeds).browseCatalogue.lookup w =
      some (merged browseMerge (feeds.browseCatalogue.lookup w)
        (browseCopy (written rules base ready seriesId feeds w s) work.createdAt)) := by
  have hid : work.id = w := key_of_lookup hwork
  have hoffered : (offered rules base seriesId).lookup w = some s := by
    rw [offered, lookup_select, hwork, Option.bind_some, scopedRow, hid, if_pos hmap, hs]
  have hnonempty : (offered rules base seriesId).rows ≠ [] := by
    intro hempty
    have hmem := mem_rows.mpr (mem_of_lookup hoffered)
    rw [hempty] at hmem
    exact absurd hmem List.not_mem_nil
  have hupserted : (upserted rules base seriesId feeds.feedSeriesUpdates).lookup w =
      some (merged scannerUpsert (feeds.feedSeriesUpdates.lookup w) s) := by
    rw [upserted, lookup_upsertAll, hoffered]
    rfl
  unfold upsertFeedSeriesUpdate
  rw [if_neg hnonempty]
  dsimp only
  have hfeed : (projectOne base ready seriesId (fillFeedEnChapterCount rules base
      seriesId (fillMissingFeedComicType rules base seriesId
        (upserted rules base seriesId feeds.feedSeriesUpdates)))).lookup w =
      some (written rules base ready seriesId feeds w s) := by
    rw [lookup_settled hmap, hupserted, untypedRow_upserted]
    rfl
  have hwid : (written rules base ready seriesId feeds w s).workId = w :=
    key_of_lookup hfeed
  refine ⟨hfeed, ?_⟩
  rw [mirrorFeedRowIntoBrowseCatalogue, lookup_upsertAll, lookup_select, hfeed,
    Option.bind_some, mirroredRow, hwid, if_pos hmap, hwork]
  rfl

end Row

/-! ## Convergence

The columns that both compute, and what has to be so for them to agree. -/

/-- The columns of the feed row that the scanner keeps fresh. -/
structure FeedColumns where
  releasedAt : Int
  detectedAt : Option String
  chapterCount : Option Int
  enChapterCount : Int
  comicType : Option String
  isNsfw : Bool
  status : Option String
  contentRating : String
deriving DecidableEq

/-- Those of them that Browse has. -/
structure BrowseColumns where
  releasedAt : Option Int
  enChapterCount : Int
  comicType : Option String
  isNsfw : Bool
  status : Option String
  contentRating : String
deriving DecidableEq

/-- The columns of a feed row that are compared. -/
def feedColumns (f : FeedSeriesUpdate) : FeedColumns where
  releasedAt := f.releasedAt
  detectedAt := f.detectedAt
  chapterCount := f.chapterCount
  enChapterCount := f.enChapterCount
  comicType := f.comicType
  isNsfw := f.isNsfw
  status := f.status
  contentRating := f.contentRating

/-- The columns of a card that are compared. -/
def browseColumns (b : BrowseEntry) : BrowseColumns where
  releasedAt := b.releasedAt
  enChapterCount := b.enChapterCount
  comicType := b.comicType
  isNsfw := b.isNsfw
  status := b.status
  contentRating := b.contentRating

/-- The title of a row that the scanner half inserts. -/
def ownTitle (work : Work) (s : LibrarySource) : String :=
  (work.titleOverride.or work.primaryTitle).getD s.series.title

/-- The title of the row after the call: the old one, where there was a row. -/
def keptTitle (feeds : Feeds) (work : Work) (s : LibrarySource) : String :=
  (feeds.feedSeriesUpdates.lookup work.id).elim (ownTitle work s) (·.title)

/-- The title of the row after a rebuild: the mirror half's, where it has a
row. -/
def rebuiltTitle (rules : FeedRules) (feeds : Feeds) (work : Work)
    (s : LibrarySource) : String :=
  (datable rules feeds.feedUpdates work.id).elim (ownTitle work s) fun fu =>
    work.titleOverride.getD fu.title

/-- The type that a rebuild gives a row of the work. -/
def rebuiltType (rules : FeedRules) (base : Base) (work : Work) (title : String) :
    Option String :=
  some (comicTypeWord rules work (tieredGenres rules base work.id) title)

/-- The type after the call: the old one, or the one that the fill computes when
it reads this row. -/
def writtenType (rules : FeedRules) (base : Base) (seriesId : String) (feeds : Feeds)
    (work : Work) (s : LibrarySource) : Option String :=
  ((feeds.feedSeriesUpdates.lookup work.id).bind (·.comicType)).or
    (if firstUntyped rules base seriesId feeds = some work.id then
      some (comicTypeWord rules work (untieredGenres rules base work.id)
        (keptTitle feeds work s))
    else none)

/-- The later of a stored time and the newest source's. -/
def latest (s : LibrarySource) (time : Option Int) : Int :=
  time.elim s.releasedAt fun t => max t s.releasedAt

/-- The release time that the stored mirror row has. -/
def storedTime (rules : FeedRules) (feeds : Feeds) (workId : Id) : Option Int :=
  ((feeds.feedUpdates.lookup workId).bind fun fu =>
    rules.strftimeSeconds fu.latestAt).map (· * 1000)

/-- The feed columns that the call leaves. -/
def writtenColumns (rules : FeedRules) (base : Base) (ready : Bool)
    (seriesId : String) (feeds : Feeds) (work : Work) (s : LibrarySource) :
    FeedColumns where
  releasedAt := (scannerEvent base ready seriesId work.id).elim
    (latest s ((feeds.feedSeriesUpdates.lookup work.id).map (·.releasedAt)))
    ReleaseEvent.firstSeenAt
  detectedAt := (detectedAt base s.source).or
    ((feeds.feedSeriesUpdates.lookup work.id).bind (·.detectedAt))
  chapterCount := some s.series.chapterCount
  enChapterCount := scannerCount rules base work.id
  comicType := writtenType rules base seriesId feeds work s
  isNsfw := (feeds.feedSeriesUpdates.lookup work.id).any (·.isNsfw) ||
    work.effectiveNsfw
  status := some (fsuStatus work)
  contentRating := ratingOf work

/-- The feed columns that a rebuild leaves. -/
def rebuiltColumns (rules : FeedRules) (base : Base) (ready : Bool) (feeds : Feeds)
    (work : Work) (s : LibrarySource) : FeedColumns where
  releasedAt := (clockEvent base ready work.id).elim
    (latest s (storedTime rules feeds work.id)) ReleaseEvent.firstSeenAt
  detectedAt := detectedAt base s.source
  chapterCount := some s.series.chapterCount
  enChapterCount := countAfter rules base work.id
  comicType := rebuiltType rules base work (rebuiltTitle rules feeds work s)
  isNsfw := (datable rules feeds.feedUpdates work.id).any (·.isNsfw) ||
    work.effectiveNsfw
  status := some (fsuStatus work)
  contentRating := ratingOf work

/-- The title that Browse shows after a rebuild: the feed row's, or the one that it
has where that is empty. -/
def shownTitle (rules : FeedRules) (feeds : Feeds) (work : Work) (s : LibrarySource) :
    String :=
  if rebuiltTitle rules feeds work s ≠ "" then rebuiltTitle rules feeds work s
  else keptTitle feeds work s

/-- The state before the call in which the restated passes do what the rebuild's do
to the feed row.  Each clause compares what is stored with what the base tables
say. -/
structure FeedConverges (rules : FeedRules) (base : Base) (ready : Bool)
    (seriesId : String) (feeds : Feeds) (work : Work) (s : LibrarySource) : Prop where
  /-- Without an event in the ledger: past the newest source's time, the old row has
  the time of the stored mirror row, or neither is past it. -/
  clock : clockEvent base ready work.id = none → ∀ t, s.releasedAt < t →
    ((feeds.feedSeriesUpdates.lookup work.id).map (·.releasedAt) = some t ↔
      storedTime rules feeds work.id = some t)
  /-- The ledger's event is projected for the first work of the series alone; for
  another its time is the latest of the old row's and the newest source's. -/
  unprojected : ∀ e, clockEvent base ready work.id = some e →
    (mappedWorks base seriesId).head? ≠ some work.id →
      IsGreatest {t | t = s.releasedAt ∨
        (feeds.feedSeriesUpdates.lookup work.id).map (·.releasedAt) = some t} e.firstSeenAt
  /-- No detection is left from an earlier source. -/
  detected : detectedAt base s.source = none →
    (feeds.feedSeriesUpdates.lookup work.id).bind (·.detectedAt) = none
  /-- An English count is zero, or no less than the Suwayomi count. -/
  english : englishCount base work.id = 0 ∨
    (suwayomiCount rules base work.id).getD 0 ≤ englishCount base work.id
  /-- The old row is flagged as the mirror row is, unless the work is NSFW. -/
  nsfw : work.effectiveNsfw = false →
    (feeds.feedSeriesUpdates.lookup work.id).any (·.isNsfw) =
      (datable rules feeds.feedUpdates work.id).any (·.isNsfw)
  /-- A type that the old row has is still what the work shows: its first tier of
  tags, and the title that the mirror row gives it. -/
  typed : ∀ word, (feeds.feedSeriesUpdates.lookup work.id).bind (·.comicType) = some word →
    ShowsWord rules work (tieredGenres rules base work.id) (rebuiltTitle rules feeds work s)
      word
  /-- A row without a type, or one that is not there yet, is the one that the fill
  fetches: it fetches one. -/
  fetched : (feeds.feedSeriesUpdates.lookup work.id).bind (·.comicType) = none →
    firstUntyped rules base seriesId feeds = some work.id
  /-- Where the fill reads other tags or another title than the rebuild, they show
  the same. -/
  filled : (feeds.feedSeriesUpdates.lookup work.id).bind (·.comicType) = none →
    TwoTiers base work.id ∨ keptTitle feeds work s ≠ rebuiltTitle rules feeds work s →
      ∀ word, ShowsWord rules work (untieredGenres rules base work.id)
          (keptTitle feeds work s) word ↔
        ShowsWord rules work (tieredGenres rules base work.id)
          (rebuiltTitle rules feeds work s) word

/-- And to the row of Browse. -/
structure Converges (rules : FeedRules) (base : Base) (ready : Bool)
    (seriesId : String) (feeds : Feeds) (work : Work) (s : LibrarySource) : Prop
    extends FeedConverges rules base ready seriesId feeds work s where
  /-- Browse keeps a type that it has, so it is still what the work shows under the
  title of Browse. -/
  kept : ∀ b, feeds.browseCatalogue.lookup work.id = some b → ∃ word,
    b.comicType = some word ∧ ShowsWord rules work (tieredGenres rules base work.id)
      (shownTitle rules feeds work s) word
  /-- A new row takes the type of the feed row, so an empty title of the mirror row
  shows what the title of Browse shows. -/
  copied : feeds.browseCatalogue.lookup work.id = none →
    rebuiltTitle rules feeds work s = "" → ∀ word,
      ShowsWord rules work (tieredGenres rules base work.id) "" word ↔
        ShowsWord rules work (tieredGenres rules base work.id) (keptTitle feeds work s) word

section Converges

variable {rules : FeedRules} {base : Base} {ready : Bool} {seriesId : String}
variable {feeds : Feeds} {work : Work} {s : LibrarySource} {r : FeedSeriesUpdate}

/-- The scanner half has the title of the work or of its source. -/
theorem title_scannerRow (hnewest : newestSource rules base work.id = some s)
    (hr : scannerRow rules base work = some r) : r.title = ownTitle work s := by
  rw [scannerRow, hnewest] at hr
  cases hr
  rfl

/-- The columns that the call leaves. -/
theorem feedColumns_written (hnewest : newestSource rules base work.id = some s)
    (hwork : base.work.lookup work.id = some work)
    (hr : scannerRow rules base work = some r) :
    (written rules base ready seriesId feeds work.id r).title = keptTitle feeds work s ∧
    feedColumns (written rules base ready seriesId feeds work.id r) =
      writtenColumns rules base ready seriesId feeds work s := by
  have hkey : r.workId = work.id := key_scannerRow rules base work r hr
  have htitle := title_scannerRow hnewest hr
  rw [scannerRow, hnewest] at hr
  cases hr
  cases hold : feeds.feedSeriesUpdates.lookup work.id with
  | none =>
      simp [written, settle, feedColumns, writtenColumns, keptTitle, writtenType,
        filledType, untieredType, latest, ownTitle, hold, hwork]
  | some o =>
      have ho : o.workId = work.id := key_of_lookup hold
      simp [written, settle, feedColumns, writtenColumns, keptTitle, writtenType,
        filledType, untieredType, latest, ownTitle, scannerUpsert, scannerMerge, hold, hwork, ho]

/-- The columns that a rebuild leaves. -/
theorem feedColumns_rebuilt (hnewest : newestSource rules base work.id = some s)
    (hwork : base.work.lookup work.id = some work) :
    ∃ f, (rebuiltFeed rules base ready feeds.feedUpdates).lookup work.id = some f ∧
      f.title = rebuiltTitle rules feeds work s ∧
      feedColumns f = rebuiltColumns rules base ready feeds work s := by
  have hscanner : scannerHalf rules base work.id = scannerRow rules base work := by
    rw [scannerHalf, hwork, Option.bind_some]
  rw [lookup_rebuiltFeed, hscanner, scannerRow, hnewest]
  cases hfu : feeds.feedUpdates.lookup work.id with
  | none =>
      refine ⟨_, rfl, ?_⟩
      simp [mirrorHalf, hfu, finish_eq, typeAfter, hwork, feedColumns, rebuiltColumns, rebuiltTitle,
        datable, storedTime, latest, rebuiltType, ownTitle]
  | some fu =>
      have hid : fu.workId = work.id := key_of_lookup hfu
      cases htime : rules.strftimeSeconds fu.latestAt with
      | none =>
          refine ⟨_, rfl, ?_⟩
          simp [mirrorHalf, mirrorRow, hfu, hid, hwork, htime, finish_eq, typeAfter,
            feedColumns, rebuiltColumns, rebuiltTitle, datable, storedTime, latest, rebuiltType,
            ownTitle, Option.filter]
      | some seconds =>
          refine ⟨_, rfl, ?_⟩
          simp [mirrorHalf, mirrorRow, hfu, hid, hwork, htime, finish_eq, typeAfter,
            feedColumns, rebuiltColumns, rebuiltTitle, datable, storedTime, latest, rebuiltType,
            scannerMerge, Option.filter]

/-- A work with a library source can be opened. -/
theorem openable_of_newestSource (hnewest : newestSource rules base work.id = some s) :
    openable rules base work.id = true := by
  have hss := (mem_librarySources.mp (mem_of_newestSource hnewest)).1
  rw [openable, firstSuwayomi, Option.isSome_map, Bool.or_eq_true]
  right
  cases hsources : sourcesOf base "suwayomi" work.id with
  | nil =>
      rw [hsources] at hss
      contradiction
  | cons a rest => rfl

/-- The columns of a row `b` of Browse after a rebuild: the feed row's where the
feed row has a title, and its own otherwise; typed in either case. -/
def rebuiltBrowseColumns (rules : FeedRules) (base : Base) (work : Work)
    (f : FeedSeriesUpdate) (b : BrowseEntry) : BrowseColumns :=
  if f.title ≠ "" then
    { releasedAt := some f.releasedAt
      enChapterCount := f.enChapterCount
      comicType := rebuiltType rules base work f.title
      isNsfw := f.isNsfw
      status := f.status
      contentRating := f.contentRating }
  else
    { browseColumns b with comicType := rebuiltType rules base work b.title }

theorem browseColumns_rebuilt {feed : Table FeedSeriesUpdate} {t : Table BrowseEntry}
    {f : FeedSeriesUpdate} {b : BrowseEntry}
    (hnewest : newestSource rules base work.id = some s)
    (hwork : base.work.lookup work.id = some work)
    (hfeed : feed.lookup work.id = some f)
    (hcount : f.enChapterCount = countAfter rules base work.id)
    (hb : t.lookup work.id = some b) :
    ((refreshBrowseCatalogue rules base feed t).lookup work.id).map browseColumns =
      some (rebuiltBrowseColumns rules base work f b) := by
  have hopen := openable_of_newestSource hnewest
  have hid : b.workId = work.id := key_of_lookup hb
  have hmax : max (englishCount base work.id)
      ((suwayomiCount rules base work.id).getD 0) = f.enChapterCount := by
    rw [hcount, countAfter]
    cases suwayomiCount rules base work.id with
    | none => exact max_eq_left (Int.natCast_nonneg _)
    | some n => rfl
  have htitle : browseTitle rules base (some f) work = f.title := rfl
  rw [lookup_refreshBrowseCatalogue, sourced_of_openable hopen, if_pos rfl, hwork,
    Option.bind_some, browseRow, hfeed, hb]
  simp only [hopen, htitle, Bool.true_and, decide_eq_true_eq, rebuiltBrowseColumns]
  split
  · simp [browseMerge, typed, browseColumns, ComicTyped.setComicType, ComicTyped.title,
      rebuiltType, hid, hwork, hmax]
  · simp [typed, browseColumns, ComicTyped.setComicType, ComicTyped.title,
      rebuiltType, hid, hwork]

/-- The scanner does not write the mirror's rows. -/
theorem feedUpdates_upsert :
    (upsertFeedSeriesUpdate rules base ready seriesId feeds).feedUpdates =
      feeds.feedUpdates := by
  unfold upsertFeedSeriesUpdate
  split <;> rfl

/-- A work that has a library source with the key of the series is there, has a newest
source, and has a row in the scanner half. -/
theorem exists_row_of_mapped {w : Id}
    (h : ∃ s ∈ librarySources rules base w, s.source.sourceKey = seriesId) :
    w ∈ mappedWorks base seriesId ∧ ∃ work s r, base.work.lookup w = some work ∧
      newestSource rules base w = some s ∧ scannerRow rules base work = some r := by
  obtain ⟨s, hs, hkey⟩ := h
  have hmem : s.source ∈ sourcesOf base "suwayomi" w := (mem_librarySources.mp hs).1
  obtain ⟨hsource, hon, htype⟩ := mem_sourcesOf.mp hmem
  obtain ⟨work, hwork⟩ := exists_work_of_source hmem
  have hid' : work.id = w := key_of_lookup hwork
  have hnewest : ∃ n, newestSource rules base w = some n := by
    cases hnone : newestSource rules base w with
    | some n => exact ⟨n, rfl⟩
    | none =>
        have hsome := List.isSome_maxOn?_of_mem (f := LibrarySource.releasedAt) hs
        rw [← newestSource, hnone] at hsome
        contradiction
  obtain ⟨n, hn⟩ := hnewest
  have hrow : ∃ r, scannerRow rules base work = some r := by
    rw [scannerRow, hid', hn]
    exact ⟨_, rfl⟩
  obtain ⟨r, hr⟩ := hrow
  refine ⟨?_, work, n, r, hwork, hn, hr⟩
  apply List.mem_map.mpr
  refine ⟨s.source, List.mem_filter.mpr ⟨hsource, ?_⟩, hon⟩
  simp [htype, hkey]

/-- A row that the scanner copied into Browse, where the feed row converged: only
its type is left to compare. -/
theorem browseColumns_copied_eq_iff {old : Option BrowseEntry}
    {f g : FeedSeriesUpdate} {createdAt : String}
    (h : feedColumns f = feedColumns g) :
    browseColumns (merged browseMerge old (browseCopy f createdAt)) =
        rebuiltBrowseColumns rules base work g
          (merged browseMerge old (browseCopy f createdAt)) ↔
      old.elim f.comicType (·.comicType) =
        rebuiltType rules base work (if g.title ≠ "" then g.title else f.title) := by
  simp only [feedColumns, FeedColumns.mk.injEq] at h
  obtain ⟨hreleased, -, -, hcount, -, hnsfw, hstatus, hrating⟩ := h
  have hcopied : browseColumns (merged browseMerge old (browseCopy f createdAt)) =
        ⟨some f.releasedAt, f.enChapterCount, old.elim f.comicType (·.comicType),
          f.isNsfw, f.status, f.contentRating⟩ ∧
      (merged browseMerge old (browseCopy f createdAt)).title = f.title := by
    cases old <;> exact ⟨rfl, rfl⟩
  unfold rebuiltBrowseColumns
  split
  · rw [hcopied.1]
    simp [hreleased, hcount, hnsfw, hstatus, hrating]
  · rw [hcopied.1, hcopied.2]
    simp

/-- The scanner's count is the rebuild's, unless a Suwayomi source has more
chapters than an English mirror that has some. -/
theorem scannerCount_eq_iff {w : Id} :
    scannerCount rules base w = countAfter rules base w ↔
      englishCount base w = 0 ∨
        (suwayomiCount rules base w).getD 0 ≤ englishCount base w := by
  have hnonneg : 0 ≤ englishCount base w := Int.natCast_nonneg _
  unfold scannerCount countAfter
  cases suwayomiCount rules base w with
  | none => simp [hnonneg]
  | some n =>
      simp only [Option.getD_some, Option.elim_some, Bool.and_eq_true,
        decide_eq_true_eq]
      split <;> omega

/-- The later of a stored time and the newest source's is that of another, if the two
are one past the newest source's. -/
theorem latest_eq_latest_iff {a b : Option Int} :
    latest s a = latest s b ↔ ∀ t, s.releasedAt < t → (a = some t ↔ b = some t) := by
  constructor
  · intro h t ht
    cases a <;> cases b <;>
      simp only [latest, Option.elim_none, Option.elim_some, Option.some.injEq,
        reduceCtorEq, false_iff, iff_false] at h ⊢ <;> omega
  · intro h
    have hpast : ∀ x, a = some x ∨ b = some x → x ≤ s.releasedAt ∨ (a = some x ∧ b = some x) := by
      intro x hx
      rcases le_or_gt x s.releasedAt with hle | hlt
      · exact Or.inl hle
      · right
        have hiff := h x hlt
        tauto
    cases a with
    | none =>
        cases b with
        | none => rfl
        | some y =>
            rcases hpast y (Or.inr rfl) with hle | ⟨hnone, -⟩
            · exact (max_eq_right hle).symm
            · contradiction
    | some x =>
        rcases hpast x (Or.inl rfl) with hle | ⟨-, rfl⟩
        · cases b with
          | none => exact max_eq_right hle
          | some y =>
              rcases hpast y (Or.inr rfl) with hle' | ⟨hsame, -⟩
              · exact (max_eq_right hle).trans (max_eq_right hle').symm
              · rw [hsame]
        · rfl

/-- The later of two times is the greatest of them. -/
theorem latest_eq_iff {a : Option Int} {t : Int} :
    latest s a = t ↔ IsGreatest {x | x = s.releasedAt ∨ a = some x} t := by
  constructor
  · rintro rfl
    constructor
    · cases a with
      | none => exact Or.inl rfl
      | some x =>
          rcases max_choice x s.releasedAt with h | h
          · exact Or.inr (congrArg some h.symm)
          · exact Or.inl h
    · rintro x (rfl | rfl)
      · cases a with
        | none => exact le_refl _
        | some x => exact le_max_right _ _
      · exact le_max_left _ _
  · rintro ⟨hmem, hupper⟩
    have hs := hupper (Or.inl rfl)
    cases a with
    | none =>
        rcases hmem with h | h
        · exact h.symm
        · contradiction
    | some x =>
        have hx := hupper (Or.inr rfl)
        show max x s.releasedAt = t
        rcases hmem with h | h
        · omega
        · cases h
          omega

theorem clock_iff : (scannerEvent base ready seriesId work.id).elim
        (latest s ((feeds.feedSeriesUpdates.lookup work.id).map (·.releasedAt)))
        ReleaseEvent.firstSeenAt =
      (clockEvent base ready work.id).elim (latest s (storedTime rules feeds work.id))
        ReleaseEvent.firstSeenAt ↔
    (clockEvent base ready work.id = none → ∀ t, s.releasedAt < t →
      ((feeds.feedSeriesUpdates.lookup work.id).map (·.releasedAt) = some t ↔
        storedTime rules feeds work.id = some t)) ∧
    ∀ e, clockEvent base ready work.id = some e →
      (mappedWorks base seriesId).head? ≠ some work.id →
        IsGreatest {t | t = s.releasedAt ∨
          (feeds.feedSeriesUpdates.lookup work.id).map (·.releasedAt) = some t}
            e.firstSeenAt := by
  unfold scannerEvent
  cases clockEvent base ready work.id with
  | none => simp [latest_eq_latest_iff]
  | some e =>
      by_cases hhead : (mappedWorks base seriesId).head? = some work.id
      · simp [hhead]
      · simp [hhead, latest_eq_iff]

theorem writtenType_eq_iff :
    writtenType rules base seriesId feeds work s =
        rebuiltType rules base work (rebuiltTitle rules feeds work s) ↔
      (∀ word, (feeds.feedSeriesUpdates.lookup work.id).bind (·.comicType) = some word →
        ShowsWord rules work (tieredGenres rules base work.id)
          (rebuiltTitle rules feeds work s) word) ∧
      ((feeds.feedSeriesUpdates.lookup work.id).bind (·.comicType) = none →
        firstUntyped rules base seriesId feeds = some work.id) ∧
      ((feeds.feedSeriesUpdates.lookup work.id).bind (·.comicType) = none →
        TwoTiers base work.id ∨ keptTitle feeds work s ≠ rebuiltTitle rules feeds work s →
          ∀ word, ShowsWord rules work (untieredGenres rules base work.id)
              (keptTitle feeds work s) word ↔
            ShowsWord rules work (tieredGenres rules base work.id)
              (rebuiltTitle rules feeds work s) word) := by
  unfold writtenType rebuiltType
  simp only [showsWord_iff]
  cases (feeds.feedSeriesUpdates.lookup work.id).bind (·.comicType) with
  | some word => simp [eq_comm]
  | none =>
      by_cases hfetched : firstUntyped rules base seriesId feeds = some work.id
      · -- the words agree where they are taken from the same list and the same title
        have hsame : ¬(TwoTiers base work.id ∨
            keptTitle feeds work s ≠ rebuiltTitle rules feeds work s) →
            comicTypeWord rules work (untieredGenres rules base work.id)
                (keptTitle feeds work s) =
              comicTypeWord rules work (tieredGenres rules base work.id)
                (rebuiltTitle rules feeds work s) := by
          intro h
          rw [not_or, ne_eq, not_not] at h
          rw [untieredGenres_eq h.1, h.2]
        simp only [Option.none_or, hfetched, if_true, Option.some.injEq, reduceCtorEq,
          false_implies, implies_true, true_and, forall_const]
        constructor
        · intro heq _ word
          rw [heq]
        · intro h
          by_cases hrisk : TwoTiers base work.id ∨
              keptTitle feeds work s ≠ rebuiltTitle rules feeds work s
          · exact ((h hrisk _).mpr rfl)
          · exact hsame hrisk
      · simp [hfetched]

/-- The feed row converges, column by column. -/
theorem writtenColumns_eq_iff :
    writtenColumns rules base ready seriesId feeds work s =
        rebuiltColumns rules base ready feeds work s ↔
      FeedConverges rules base ready seriesId feeds work s := by
  have hdetected : (detectedAt base s.source).or
      ((feeds.feedSeriesUpdates.lookup work.id).bind (·.detectedAt)) =
        detectedAt base s.source ↔ (detectedAt base s.source = none →
          (feeds.feedSeriesUpdates.lookup work.id).bind (·.detectedAt) = none) := by
    cases detectedAt base s.source <;> simp
  have hnsfw : ((feeds.feedSeriesUpdates.lookup work.id).any (·.isNsfw) ||
        work.effectiveNsfw) = ((datable rules feeds.feedUpdates work.id).any
          (·.isNsfw) || work.effectiveNsfw) ↔ (work.effectiveNsfw = false →
      (feeds.feedSeriesUpdates.lookup work.id).any (·.isNsfw) =
        (datable rules feeds.feedUpdates work.id).any (·.isNsfw)) := by
    cases work.effectiveNsfw <;> simp
  simp only [writtenColumns, rebuiltColumns, FeedColumns.mk.injEq, clock_iff, hdetected,
    scannerCount_eq_iff, hnsfw, writtenType_eq_iff, true_and, and_true]
  constructor
  · rintro ⟨⟨hclock, hunprojected⟩, hdetected, henglish, ⟨htyped, hfetched, hfilled⟩, hnsfw⟩
    exact ⟨hclock, hunprojected, hdetected, henglish, hnsfw, htyped, hfetched, hfilled⟩
  · intro h
    exact ⟨⟨h.clock, h.unprojected⟩, h.detected, h.english, ⟨h.typed, h.fetched, h.filled⟩,
      h.nsfw⟩

/-- Where the feed row converges, the type of the row of Browse does if the one that
Browse has is the one that a rebuild finds, or if it has none to keep. -/
theorem browseType_iff (h : FeedConverges rules base ready seriesId feeds work s) :
    (feeds.browseCatalogue.lookup work.id).elim
        (writtenType rules base seriesId feeds work s) (·.comicType) =
      rebuiltType rules base work (shownTitle rules feeds work s) ↔
    (∀ b, feeds.browseCatalogue.lookup work.id = some b → ∃ word,
      b.comicType = some word ∧ ShowsWord rules work (tieredGenres rules base work.id)
        (shownTitle rules feeds work s) word) ∧
    (feeds.browseCatalogue.lookup work.id = none →
      rebuiltTitle rules feeds work s = "" → ∀ word,
        ShowsWord rules work (tieredGenres rules base work.id) "" word ↔
          ShowsWord rules work (tieredGenres rules base work.id) (keptTitle feeds work s)
            word) := by
  have htype : writtenType rules base seriesId feeds work s =
      rebuiltType rules base work (rebuiltTitle rules feeds work s) :=
    writtenType_eq_iff.mpr ⟨h.typed, h.fetched, h.filled⟩
  simp only [showsWord_iff]
  cases hold : feeds.browseCatalogue.lookup work.id with
  | some b => simp [rebuiltType]
  | none =>
      rw [Option.elim_none, htype]
      unfold shownTitle
      by_cases hempty : rebuiltTitle rules feeds work s = ""
      · simp only [hempty, ne_eq, not_true, if_false, rebuiltType, Option.some.injEq,
          reduceCtorEq, false_implies, implies_true, true_and, forall_const]
        constructor
        · intro heq word
          rw [heq]
        · intro hwords
          exact (hwords _).mpr rfl
      · simp [hempty]

/-- The card that the call leaves, where the feed row converges: the rebuild leaves it
as it is exactly if Browse kept the type that the work shows, or copied it. -/
theorem browseColumns_written_eq_iff {f g : FeedSeriesUpdate} {createdAt : String}
    (hfc : FeedConverges rules base ready seriesId feeds work s)
    (htitle : f.title = keptTitle feeds work s)
    (hcolumns : feedColumns f = writtenColumns rules base ready seriesId feeds work s)
    (hgtitle : g.title = rebuiltTitle rules feeds work s)
    (hgcolumns : feedColumns g = rebuiltColumns rules base ready feeds work s) :
    browseColumns (merged browseMerge (feeds.browseCatalogue.lookup work.id)
          (browseCopy f createdAt)) =
        rebuiltBrowseColumns rules base work g
          (merged browseMerge (feeds.browseCatalogue.lookup work.id)
            (browseCopy f createdAt)) ↔
      Converges rules base ready seriesId feeds work s := by
  have hsame : feedColumns f = feedColumns g := by
    rw [hcolumns, hgcolumns]
    exact writtenColumns_eq_iff.mpr hfc
  have htype : f.comicType = writtenType rules base seriesId feeds work s :=
    congrArg FeedColumns.comicType hcolumns
  rw [browseColumns_copied_eq_iff hsame, htype, htitle, hgtitle]
  constructor
  · intro hshown
    obtain ⟨hkept, hcopied⟩ := (browseType_iff hfc).mp hshown
    exact ⟨hfc, hkept, hcopied⟩
  · intro hc
    exact (browseType_iff hfc).mpr ⟨hc.kept, hc.copied⟩

end Converges

/-! ## A stub of a mirror

The count that the guard `WHERE en_chapter_count = 0` does not raise. -/

/-- A work with one English chapter mirrored, and a Suwayomi source that has
`n`. -/
def mirroredStub (n : Int) : Base :=
  { Base.empty with
    work := oneWork (some "Dawn")
    sourceSeries := ⟨[⟨"s1", "w", "mangadex", "mangadex", "m", none, false, none⟩,
      ⟨"s2", "w", "suwayomi", "1", "7", none, false, none⟩], by decide⟩
    chapter := ⟨[{ id := "c", sourceSeriesId := "s1", externalId := "e",
                   number := some "1", volume := none, lang := some "en",
                   title := none, publishedAt := none, readableAt := none,
                   externalUrl := none, scanlator := none, chapterKey := none,
                   label := none, createdAt := "t0" }], by decide⟩
    suwayomiSeries := ⟨[librarySeries 7 "Dawn" n (some "7")],
      List.pairwise_singleton _ _⟩
    sourceSeries_work := by decide }

end Komika.Feed.Scanner
