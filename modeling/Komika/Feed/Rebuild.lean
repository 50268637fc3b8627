import Komika.Feed.Types
import Mathlib.Algebra.Order.Ring.Rat

/-!
# The merged updates feed

`refresh_feed_series_updates` of `catalog/mod.rs`, its first transaction: the
mirror half is inserted from `feed_updates`, the scanner half is folded onto
it, and three passes set the comic type, the chapter count and the release
clock.

Every statement acts on one work at a time, so the table it leaves is known by
its rows: `lookup_rebuiltFeed`.  The incremental writers run the same passes
(`finish`) over other rows.

Where an aggregate leaves SQLite a choice between rows of one maximum, the
model takes the first.

`lookup_rebuiltFeed` is the module's result, and the one that the writers in `Publish`,
`Scanner` and `Reproject` are compared with; `finish_eq` and `finish_eq_finish_iff` are
what they use of the passes.
-/

namespace Komika.Feed.Rebuild

open Komika.Lib Komika.Lib.Table
open Komika.Catalog.Schema (Id SourceSeries ReleaseEvent)
open Komika.Feed.Schema Komika.Feed.Types

/-! ## Columns of a work

Expressions that every feed repeats. -/

/-- `FSU_STATUS_SQL`: the spellings of both upstreams in one vocabulary. -/
def fsuStatus (w : Work) : String :=
  match w.status with
  | some "ON_HIATUS" => "HIATUS"
  | some "PUBLISHING_FINISHED" => "COMPLETED"
  | some "LICENSED" => "COMPLETED"
  | status => status.getD "UNKNOWN"

/-- `COALESCE(w.content_rating, 'safe')`: a work that nobody rated is safe. -/
def ratingOf (w : Work) : String := w.contentRating.getD "safe"

/-- The path of the materialised cover. -/
def cachedCover (w : Work) : Option String :=
  w.coverCachedVersion.map fun v => "/covers/" ++ w.id ++ ".webp?v=" ++ toString v

/-- The path of the cover, materialised or not. -/
def workCover (w : Work) : Option String :=
  (cachedCover w).or (w.coverFileName.map fun _ => "/covers/" ++ w.id ++ ".webp")

/-- `EXISTS` a MangaDex source of the work. -/
def anchored (base : Base) (workId : Id) : Bool :=
  base.sourceSeries.rows.any fun md =>
    md.workId = workId && md.sourceType = "mangadex"

/-! ## The two halves

The mirror half reads `feed_updates`, the scanner half the sources in the library; a
work may have both. -/

/-- The row of the mirror half: dropped where the release time does not
parse. -/
def mirrorRow (rules : FeedRules) (base : Base) (fu : FeedUpdate) :
    Option FeedSeriesUpdate :=
  (base.work.lookup fu.workId).bind fun w =>
    (rules.strftimeSeconds fu.latestAt).map fun seconds =>
      { workId := fu.workId
        readerId := fu.workId
        title := w.titleOverride.getD fu.title
        coverUrl := fu.coverUrl
        suwayomiThumbnail := none
        comicType := none
        latestChapter := fu.latestChapter
        latestChapterTitle := fu.latestChapterTitle
        chapterCount := none
        releasedAt := seconds * 1000
        detectedAt := none
        isNsfw := fu.isNsfw
        status := some (fsuStatus w)
        contentRating := ratingOf w
        enChapterCount := 0 }

/-- A source in the library with a release time. -/
structure LibrarySource where
  source : SourceSeries
  series : SuwayomiSeries
  releasedAt : Int

/-- `WHERE ss.source_type = 'suwayomi' AND sy.in_library = 1 AND
sy.latest_chapter_at IS NOT NULL`. -/
def librarySources (rules : FeedRules) (base : Base) (workId : Id) :
    List LibrarySource :=
  (sourcesOf base "suwayomi" workId).filterMap fun ss =>
    (cachedSeries rules base ss).bind fun sy =>
      if sy.inLibrary then
        sy.latestChapterAt.map fun t => ⟨ss, sy, rules.castInteger t⟩
      else none

/-- The source that the bare columns are taken from. -/
def newestSource (rules : FeedRules) (base : Base) (workId : Id) :
    Option LibrarySource :=
  (librarySources rules base workId).maxOn? LibrarySource.releasedAt

/-- What the select of the sources lists. -/
theorem mem_librarySources {rules : FeedRules} {base : Base} {workId : Id}
    {x : LibrarySource} : x ∈ librarySources rules base workId ↔
      x.source ∈ sourcesOf base "suwayomi" workId ∧
        cachedSeries rules base x.source = some x.series ∧ x.series.inLibrary = true ∧
          ∃ t, x.series.latestChapterAt = some t ∧ x.releasedAt = rules.castInteger t := by
  simp only [librarySources, List.mem_filterMap, Option.bind_eq_some_iff,
    Option.ite_none_right_eq_some, Option.map_eq_some_iff]
  constructor
  · rintro ⟨ss, hss, sy, hsy, hlib, t, ht, rfl⟩
    exact ⟨hss, hsy, hlib, t, ht, rfl⟩
  · rintro ⟨hss, hsy, hlib, t, ht, hreleased⟩
    exact ⟨x.source, hss, x.series, hsy, hlib, t, ht, by rw [← hreleased]⟩

/-- The newest source is one of them. -/
theorem mem_of_newestSource {rules : FeedRules} {base : Base} {workId : Id} {s : LibrarySource}
    (h : newestSource rules base workId = some s) : s ∈ librarySources rules base workId :=
  List.maxOn?_mem h

/-- `a > b` in a descending order, where a `NULL` comes last. -/
def later : Option Int → Option Int → Bool
  | some a, some b => b < a
  | some _, none => true
  | none, _ => false

/-- `ORDER BY CAST(upload_date AS INTEGER) DESC, chapter_number DESC`. -/
def uploadOrder (rules : FeedRules) (a b : SuwayomiChapter) : Bool :=
  let dateA := a.uploadDate.map rules.castInteger
  let dateB := b.uploadDate.map rules.castInteger
  later dateA dateB || (dateA = dateB && b.chapterNumber ≤ a.chapterNumber)

/-- `lc`: the chapter of rank 1, of those numbered 0 to 5000. -/
def topChapter (rules : FeedRules) (base : Base) (mangaId : Int) :
    Option SuwayomiChapter :=
  ((base.suwayomiChapter.rows.filter fun c =>
    c.mangaId = mangaId && (0 ≤ c.chapterNumber && c.chapterNumber ≤ 5000)).insertionSort
      fun a b => uploadOrder rules a b = true).head?

/-- `LEFT JOIN series_scan_state`: when the scanner last saw a new chapter. -/
def detectedAt (base : Base) (ss : SourceSeries) : Option String :=
  (base.seriesScanState.lookup ss.sourceKey).bind SeriesScanState.lastNewChapterAt

/-- The row of the scanner half. -/
def scannerRow (rules : FeedRules) (base : Base) (w : Work) :
    Option FeedSeriesUpdate :=
  (newestSource rules base w.id).map fun s =>
    let lc := topChapter rules base s.series.id
    { workId := w.id
      readerId := if anchored base w.id then w.id else toString s.series.id
      title := (w.titleOverride.or w.primaryTitle).getD s.series.title
      coverUrl := cachedCover w
      suwayomiThumbnail := s.series.thumbnailUrl
      comicType := none
      -- `printf` formats a NULL as 0
      latestChapter := some (rules.formatG ((lc.map (·.chapterNumber)).getD 0))
      latestChapterTitle := lc.map (·.name)
      chapterCount := some s.series.chapterCount
      releasedAt := s.releasedAt
      detectedAt := detectedAt base s.source
      isNsfw := w.effectiveNsfw
      status := some (fsuStatus w)
      contentRating := ratingOf w
      enChapterCount := 0 }

/-- `COALESCE(NULLIF(a, ''), b)`: an empty text counts as none. -/
def coalesceNonempty (a b : Option String) : Option String :=
  (a.filter fun t => t ≠ "").or b

/-- `ON CONFLICT(work_id) DO UPDATE` of the rebuild's scanner half. -/
def scannerMerge (old r : FeedSeriesUpdate) : FeedSeriesUpdate :=
  { old with
    releasedAt := max old.releasedAt r.releasedAt
    detectedAt := r.detectedAt.or old.detectedAt
    chapterCount := old.chapterCount.or r.chapterCount
    coverUrl := coalesceNonempty old.coverUrl r.coverUrl
    suwayomiThumbnail := old.suwayomiThumbnail.or r.suwayomiThumbnail
    isNsfw := old.isNsfw || r.isNsfw
    status := r.status
    contentRating := r.contentRating }

/-- Both halves have the id of the work. -/
theorem key_mirrorRow (rules : FeedRules) (base : Base) (fu : FeedUpdate)
    (r : FeedSeriesUpdate) (h : mirrorRow rules base fu = some r) :
    key r = key fu := by
  simp only [mirrorRow, Option.bind_eq_some_iff, Option.map_eq_some_iff] at h
  obtain ⟨w, -, seconds, -, rfl⟩ := h
  rfl

/-- Both halves have the id of the work. -/
theorem key_scannerRow (rules : FeedRules) (base : Base) (w : Work)
    (r : FeedSeriesUpdate) (h : scannerRow rules base w = some r) :
    key r = key w := by
  simp only [scannerRow, Option.map_eq_some_iff] at h
  obtain ⟨s, -, rfl⟩ := h
  rfl

/-- The conflict clause leaves the key. -/
theorem keepsKeys_scannerMerge (r : FeedSeriesUpdate) :
    KeepsKeys (scannerMerge · r) := .of_key fun _ => rfl

/-! ## The chapter count

Two statements: a count of the chapters that MangaDex has in English, and then the
Suwayomi count where that is larger. -/

/-- The English chapters that the work's MangaDex sources mirror. -/
def englishChapters (base : Base) (workId : Id) : List (SourceSeries × Chapter) :=
  (sourcesOf base "mangadex" workId).flatMap fun ss =>
    (base.chapter.rows.filter fun c =>
      c.sourceSeriesId = ss.id && c.lang = some "en").map fun c => (ss, c)

/-- The chapters that are counted are those of MangaDex sources. -/
theorem source_of_englishChapter {base : Base} {workId : Id} {r : SourceSeries × Chapter}
    (h : r ∈ englishChapters base workId) : r.1 ∈ sourcesOf base "mangadex" workId := by
  obtain ⟨ss, hss, hr⟩ := List.mem_flatMap.mp h
  obtain ⟨c, -, rfl⟩ := List.mem_map.mp hr
  exact hss

/-- `COUNT(DISTINCT c.number)`, which does not count a NULL. -/
def englishCount (base : Base) (workId : Id) : Int :=
  ((englishChapters base workId).filterMap fun r => r.2.number).dedup.length

/-- `MAX(sy.chapter_count)` over the cached series of the work's Suwayomi mappings. -/
def suwayomiCount (rules : FeedRules) (base : Base) (workId : Id) : Option Int :=
  ((sourcesOf base "suwayomi" workId).filterMap fun ss =>
    (cachedSeries rules base ss).map SuwayomiSeries.chapterCount).max?

/-- The row with this count. -/
def withCount (n : Int) (r : FeedSeriesUpdate) : FeedSeriesUpdate :=
  { r with enChapterCount := n }

theorem keepsKeys_withCount (n : FeedSeriesUpdate → Int) :
    KeepsKeys fun r => withCount (n r) r := .of_key fun _ => rfl

/-- The first statement of both writers: the English count, of the works in
scope. -/
def countEnglish (base : Base) (scope : Id → Bool) (t : Table FeedSeriesUpdate) :
    Table FeedSeriesUpdate :=
  t.update (fun r => scope r.workId) (fun r => withCount (englishCount base r.workId) r)
    (keepsKeys_withCount fun r => englishCount base r.workId)

/-- `WHERE sw.n > en_chapter_count`. -/
def raised (rules : FeedRules) (base : Base) (r : FeedSeriesUpdate) :
    FeedSeriesUpdate :=
  match suwayomiCount rules base r.workId with
  | none => r
  | some n => if r.enChapterCount < n then withCount n r else r

theorem keepsKeys_raised (rules : FeedRules) (base : Base) :
    KeepsKeys (raised rules base) := by
  apply KeepsKeys.of_key
  intro r
  unfold raised
  split
  · rfl
  · split <;> rfl

/-- `fill_en_chapter_count`: the English count, then the Suwayomi count where
that is larger. -/
def fillEnChapterCount (rules : FeedRules) (base : Base) (workId : Option Id)
    (t : Table FeedSeriesUpdate) : Table FeedSeriesUpdate :=
  (countEnglish base (inScope workId) t).update
    (fun r => inScope workId r.workId) (raised rules base)
    (keepsKeys_raised rules base)

/-! ## The release clock

Once the ledger is complete, the newest event of a work is its release, and labels
it. -/

/-- `MAX(re.first_seen_at)`, with the label of that event. -/
def newestEvent (base : Base) (workId : Id) : Option ReleaseEvent :=
  (base.releaseEvent.rows.filter fun e => e.workId = workId).maxOn?
    ReleaseEvent.firstSeenAt

/-- The row on the ledger's clock, if the work has an event. -/
def projected (base : Base) (r : FeedSeriesUpdate) : FeedSeriesUpdate :=
  match newestEvent base r.workId with
  | none => r
  | some e => { r with releasedAt := e.firstSeenAt, latestChapter := some e.label }

theorem keepsKeys_projected (base : Base) : KeepsKeys (projected base) := by
  apply KeepsKeys.of_key
  intro r
  unfold projected
  split <;> rfl

/-- The pass sets two columns, and each of them falls back on what it was. -/
theorem projected_eq (base : Base) (r : FeedSeriesUpdate) : projected base r =
    { r with
      releasedAt := (newestEvent base r.workId).elim r.releasedAt
        ReleaseEvent.firstSeenAt
      latestChapter := (newestEvent base r.workId).elim r.latestChapter
        fun e => some e.label } := by
  unfold projected
  split
  · next hnone => simp [hnone]
  · next e he => simp [he]

/-- `project_feed_from_ledger`: the newest event of the ledger sets the release time and
the label, for one work or for all. -/
def projectFeedFromLedger (base : Base) (workId : Option Id)
    (t : Table FeedSeriesUpdate) : Table FeedSeriesUpdate :=
  t.update (fun r => inScope workId r.workId) (projected base)
    (keepsKeys_projected base)

/-- The projection, once `ledger::is_complete`. -/
def projectIfReady (base : Base) (ready : Bool) (workId : Option Id)
    (t : Table FeedSeriesUpdate) : Table FeedSeriesUpdate :=
  if ready then projectFeedFromLedger base workId t else t

/-! ## The rebuild

The transaction as a whole, and the row that it leaves of a work. -/

/-- The first transaction of `refresh_feed_series_updates`. -/
def rebuiltFeed (rules : FeedRules) (base : Base) (ready : Bool)
    (feedUpdates : Table FeedUpdate) : Table FeedSeriesUpdate :=
  let mirror := feedUpdates.select (mirrorRow rules base) (key_mirrorRow rules base)
  let scanner := base.work.select (scannerRow rules base) (key_scannerRow rules base)
  let both := mirror.upsertAll scanner.rows scannerMerge keepsKeys_scannerMerge
  projectIfReady base ready none
    (fillEnChapterCount rules base none (fillComicTypes rules base none both))

/-- What the three passes make of a row. -/
def finish (rules : FeedRules) (base : Base) (ready : Bool)
    (r : FeedSeriesUpdate) : FeedSeriesUpdate :=
  let typed := typed rules base r
  let counted := raised rules base (withCount (englishCount base typed.workId) typed)
  if ready then projected base counted else counted

/-- The mirror half of a work. -/
def mirrorHalf (rules : FeedRules) (base : Base) (feedUpdates : Table FeedUpdate)
    (workId : Id) : Option FeedSeriesUpdate :=
  (feedUpdates.lookup workId).bind (mirrorRow rules base)

/-- The scanner half of a work. -/
def scannerHalf (rules : FeedRules) (base : Base) (workId : Id) :
    Option FeedSeriesUpdate :=
  (base.work.lookup workId).bind (scannerRow rules base)

/-- An upsert that may offer no row. -/
def mergedWith (merge : FeedSeriesUpdate → FeedSeriesUpdate → FeedSeriesUpdate)
    (old new : Option FeedSeriesUpdate) : Option FeedSeriesUpdate :=
  new.elim old fun r => some (Table.merged merge old r)

section Pointwise

variable {rules : FeedRules} {base : Base} {ready : Bool} {w : Id}
variable {t : Table FeedSeriesUpdate}

/-- The passes, over a table whose row is in scope. -/
theorem lookup_passes {scope : Option Id} (h : inScope scope w = true) :
    (projectIfReady base ready scope (fillEnChapterCount rules base scope
      (fillComicTypes rules base scope t))).lookup w =
        (t.lookup w).map (finish rules base ready) := by
  have hkey : ∀ r, t.lookup w = some r → r.workId = w := by
    intro r hr
    exact Table.key_of_lookup hr
  cases hrow : t.lookup w with
  | none =>
      cases ready <;>
        simp [projectIfReady, projectFeedFromLedger, fillEnChapterCount,
          countEnglish, fillComicTypes, hrow]
  | some r =>
      obtain rfl := hkey r hrow
      have htyped : (typed rules base r).workId = r.workId := key_typed rules base r
      have hraised : ∀ r, (raised rules base r).workId = r.workId := by
        intro r
        exact (keepsKeys_raised rules base).key r
      cases ready <;>
        simp [projectIfReady, projectFeedFromLedger, fillEnChapterCount,
          countEnglish, fillComicTypes, finish, withCount, hrow, h, htyped, hraised]

/-- The comic type after the passes. -/
def typeAfter (rules : FeedRules) (base : Base) (r : FeedSeriesUpdate) :
    Option String :=
  (base.work.lookup r.workId).elim r.comicType fun w =>
    some (comicTypeWord rules w (tieredGenres rules base w.id) r.title)

/-- The chapter count after the passes. -/
def countAfter (rules : FeedRules) (base : Base) (workId : Id) : Int :=
  (suwayomiCount rules base workId).elim (englishCount base workId)
    (max (englishCount base workId))

/-- The ledger's event for the work, once it is ready. -/
def clockEvent (base : Base) (ready : Bool) (workId : Id) : Option ReleaseEvent :=
  if ready then newestEvent base workId else none

/-- What the passes change. -/
theorem finish_eq (r : FeedSeriesUpdate) :
    finish rules base ready r =
      { r with
        comicType := typeAfter rules base r
        enChapterCount := countAfter rules base r.workId
        releasedAt := (clockEvent base ready r.workId).elim r.releasedAt
          ReleaseEvent.firstSeenAt
        latestChapter := (clockEvent base ready r.workId).elim r.latestChapter
          fun e => some e.label } := by
  have htyped : typed rules base r = { r with comicType := typeAfter rules base r } := by
    unfold typed typeAfter
    cases base.work.lookup (key r) with
    | none => rfl
    | some w => rfl
  have hraised : ∀ r : FeedSeriesUpdate, raised rules base r =
      withCount ((suwayomiCount rules base r.workId).elim r.enChapterCount
        (max r.enChapterCount)) r := by
    intro r
    unfold raised
    cases suwayomiCount rules base r.workId with
    | none => rfl
    | some n =>
        simp only [Option.elim_some]
        split
        · next hlt => rw [max_eq_right hlt.le]
        · next hle =>
            rw [max_eq_left (not_lt.mp hle)]
            rfl
  unfold finish
  dsimp only
  rw [htyped, hraised]
  cases ready with
  | false => rfl
  | true =>
      rw [if_pos rfl, projected_eq]
      rfl

/-- Two rows of one work and one title that the passes make equal. -/
theorem finish_eq_finish_iff {a b : FeedSeriesUpdate} {work : Work}
    (hwork : base.work.lookup a.workId = some work) (hid : a.workId = b.workId)
    (htitle : a.title = b.title) :
    finish rules base ready a = finish rules base ready b ↔
      a.readerId = b.readerId ∧ a.coverUrl = b.coverUrl ∧
      a.suwayomiThumbnail = b.suwayomiThumbnail ∧
      a.latestChapterTitle = b.latestChapterTitle ∧
      a.chapterCount = b.chapterCount ∧ a.detectedAt = b.detectedAt ∧
      a.isNsfw = b.isNsfw ∧ a.status = b.status ∧
      a.contentRating = b.contentRating ∧
      (clockEvent base ready a.workId = none →
        a.releasedAt = b.releasedAt ∧ a.latestChapter = b.latestChapter) := by
  have htype : typeAfter rules base a = typeAfter rules base b := by
    rw [typeAfter, typeAfter, ← hid, hwork, htitle]
    rfl
  rw [finish_eq, finish_eq, FeedSeriesUpdate.mk.injEq, htype, ← hid]
  cases clockEvent base ready a.workId with
  | none =>
      simp only [Option.elim_none, htitle, true_and, and_true, forall_const]
      tauto
  | some e =>
      simp only [Option.elim_some, htitle, true_and, and_true, reduceCtorEq,
        false_implies]

/-- **The rebuild, row by row.**  The two halves of the work, merged, and the
passes over them. -/
theorem lookup_rebuiltFeed {feedUpdates : Table FeedUpdate} :
    (rebuiltFeed rules base ready feedUpdates).lookup w =
      (mergedWith scannerMerge (mirrorHalf rules base feedUpdates w)
        (scannerHalf rules base w)).map (finish rules base ready) := by
  unfold rebuiltFeed
  dsimp only
  rw [lookup_passes rfl, Table.lookup_upsertAll, Table.lookup_select,
    Table.lookup_select]
  rfl

end Pointwise

end Komika.Feed.Rebuild
