import Komika.Cache.SeriesCache
import Komika.Feed.Scanner
import Komika.Lib.Machine
import Mathlib.Data.Finset.Dedup

/-!
# A scan and its feed row

`persist_scan` of `scanner.rs`: the series and its chapters are cached, the scan
is recorded, and if it has found a chapter the feed row is touched.  Each of the
writes is a commit of its own; the caches and the feed are best-effort, and a
scan whose record fails ends there.

Whether a scan has found a chapter is read off the stored snapshot of ids alone.
The scan that seeds the snapshot finds none, and a scan that has found one and
could not store it leaves a snapshot in which the next scan finds nothing new:
the row waits for the rebuild.  What a scan finds it does announce, whatever
failed before it: `announces_run`.

`put_chapters` goes on to the spine and the ledger; they are left as they are
here, and read by no column below while the ledger is not complete.

The state of a run carries two ghosts that no code reads: the last list fetched, and
whether the last list that grew the snapshot was announced.

* `lookup_putChapters`, `exists_row_upsert` — the cached series and the feed row that a
  call leaves;
* `announced_of_newFound` — a call that detects, and all of whose writes succeed;
* `announced_of_not_grows` — every other call leaves what was announced;
* `announces_run` — every run of scans of a mapped series;
* `AlwaysReflects` — what does not hold: a first scan, or one whose feed write failed,
  is not reflected.
-/

namespace Komika.Feed.PersistScan

open Komika.Lib Komika.Lib.Machine
open Komika.Catalog.Schema (Id SourceSeries ReleaseEvent)
open Komika.Cache.SeriesCache (digest cachedChapters rewriteCache)
open Komika.Feed.Schema Komika.Feed.Types Komika.Feed.Rebuild Komika.Feed.Scanner

/-- The rules of the feed, and those of the caches. -/
structure ScanRules extends FeedRules where
  /-- `str::parse::<i64>`. -/
  parseI64 : String → Option Int
  /-- `serde_json::to_string` of the genres. -/
  genresToJson : List String → String

/-- `SuwayomiManga`, as fetched: what a scan writes to the cache of the series. -/
structure SuwayomiManga where
  id : Int
  title : String
  thumbnailUrl : Option String
  author : Option String
  artist : Option String
  description : Option String
  genre : List String
  status : String
  inLibrary : Bool
  lang : Option String
  /-- `chapters.total_count`. -/
  totalCount : Option Int

/-! ## The caches

`put_series` and `put_chapters`, as far as the feed reads what they leave. -/

/-- `normalize_epoch_millis`: seconds become milliseconds; what is not positive, or past
2099, is no time. -/
def normalizeEpochMillis (rules : ScanRules) (text : String) : Option Int :=
  (rules.parseI64 (rules.trim text)).bind fun n =>
    if n ≤ 0 then none
    else
      let ms := if n < 1000000000000 then n * 1000 else n
      if 4102444800000 < ms then none else some ms

/-- `format!("{ms:013}")`: of one length, so that the texts sort as the times. -/
def padded (ms : Int) : String :=
  let digits := toString ms
  "".pushn '0' (13 - digits.length) ++ digits

/-- `derive_latest_chapter_at`: the newest upload that is a time at all. -/
def deriveLatestChapterAt (rules : ScanRules) (chapters : List SuwayomiChapter) :
    Option String :=
  ((chapters.filterMap fun c => c.uploadDate.bind (normalizeEpochMillis rules)).max?).map
    padded

/-- `main_chapter_count`: parts of one chapter count once; where no number is usable,
every row counts. -/
def mainChapterCount (numbers : List Rat) : Int :=
  let groups := ((numbers.filter fun n => 0 ≤ n).map Rat.floor).dedup
  if groups = [] then numbers.length else groups.length

/-- The row that a fetched series is inserted as. -/
def fetchedRow (rules : ScanRules) (m : SuwayomiManga) : SuwayomiSeries where
  id := m.id
  title := m.title
  author := m.author
  artist := m.artist
  description := m.description
  status := m.status
  lang := m.lang
  thumbnailUrl := m.thumbnailUrl
  genre := some (rules.genresToJson m.genre)
  inLibrary := m.inLibrary
  chapterCount := m.totalCount.getD 0
  latestChapterAt := none

/-- `ON CONFLICT(id) DO UPDATE` of `put_series`. -/
def refetched (totalCount : Option Int) (old r : SuwayomiSeries) : SuwayomiSeries where
  id := old.id
  title := r.title
  author := r.author
  artist := r.artist
  description := r.description
  status := r.status
  lang := r.lang
  thumbnailUrl := r.thumbnailUrl
  genre := r.genre
  inLibrary := r.inLibrary
  chapterCount := totalCount.getD old.chapterCount
  latestChapterAt := old.latestChapterAt

/-- English, or a language that the source does not tell. -/
def SuwayomiManga.served (m : SuwayomiManga) : Bool := !m.lang.any fun l => l ≠ "en"

/-- `put_series`: a series in another language is not cached. -/
def putSeries (rules : ScanRules) (t : Table SuwayomiSeries) (m : SuwayomiManga) :
    Table SuwayomiSeries :=
  if m.served then
    t.upsert (fetchedRow rules m) (refetched m.totalCount) (.of_key fun _ => rfl)
  else t

/-- The columns derived from the chapters; an undatable list keeps the time. -/
def SuwayomiSeries.derive (count : Int) (latest : Option String) (r : SuwayomiSeries) :
    SuwayomiSeries :=
  { r with chapterCount := count, latestChapterAt := latest.or r.latestChapterAt }

/-- The derived columns are not keys. -/
theorem keepsKeys_derive (count : Int) (latest : Option String) :
    Table.KeepsKeys (SuwayomiSeries.derive count latest) := .of_key fun _ => rfl

/-- `put_chapters`; `none` if a chapter cannot be inserted.  Where nothing has
changed, the code leaves the row that it would write as it is. -/
def putChapters (rules : ScanRules) (base : Base) (mangaId : Int)
    (chapters : List SuwayomiChapter) : Option Base :=
  match base.suwayomiSeries.lookup mangaId with
  | none => some base
  | some _ =>
      let derived := base.suwayomiSeries.update (fun r => r.id = mangaId)
        (SuwayomiSeries.derive (mainChapterCount (chapters.map SuwayomiChapter.chapterNumber))
          (deriveLatestChapterAt rules chapters)) (keepsKeys_derive _ _)
      if digest (cachedChapters base.suwayomiChapter mangaId) = digest chapters then
        some { base with suwayomiSeries := derived }
      else
        (rewriteCache mangaId chapters base.suwayomiChapter).map fun t =>
          { base with suwayomiChapter := t, suwayomiSeries := derived }

/-! ## The scan

The five writes in their order; each may fail, and only a failed record ends the
scan. -/

/-- The tables of the scanner and of the feeds, and what a run is told about itself. -/
structure ScanFeed where
  base : Base
  /-- `series_scan_state.known_chapter_ids` of the series, as a set. -/
  knownChapterIds : Option (Finset Int)
  feeds : Feeds
  /-- The list that the last call had fetched; no code reads it. -/
  fetched : List SuwayomiChapter
  /-- The last call that put an id into the snapshot found it there, and all its
  writes succeeded; no code reads it. -/
  announced : Bool

/-- One call of `persist_scan`, and what becomes of its writes. -/
structure Call where
  manga : SuwayomiManga
  chapters : List SuwayomiChapter
  now : String
  /-- `ledger::is_complete`. -/
  ready : Bool
  putsSeries : Bool
  putsChapters : Bool
  records : Bool
  /-- How many of the five statements of the feed upsert succeed. -/
  touches : Nat

/-- The id of the series as the state table spells it. -/
def Call.seriesId (c : Call) : String := toString c.manga.id

/-- The ids of a list. -/
def idsOf (chapters : List SuwayomiChapter) : Finset Int :=
  (chapters.map SuwayomiChapter.id).toFinset

/-- The list has an id that the snapshot lacks, or there is no snapshot. -/
def grows (s : ScanFeed) (c : Call) : Bool :=
  s.knownChapterIds.elim true fun prior => c.chapters.any fun ch => ch.id ∉ prior

/-- `new_found`: a series that has been scanned before lists a chapter that the last
snapshot does not have. -/
def newFound (s : ScanFeed) (c : Call) : Bool :=
  (s.base.seriesScanState.lookup c.seriesId).isSome &&
    s.knownChapterIds.any fun prior => c.chapters.any fun ch => ch.id ∉ prior

/-- What the two cache writes leave. -/
def cached (rules : ScanRules) (s : ScanFeed) (c : Call) : Base :=
  let base := if c.putsSeries then
      { s.base with suwayomiSeries := putSeries rules s.base.suwayomiSeries c.manga }
    else s.base
  if c.putsChapters then (putChapters rules base c.manga.id c.chapters).getD base else base

/-- The row that `record_scan_once` writes, as far as the feed reads it. -/
def recorded (s : ScanFeed) (c : Call) (base : Base) : Base :=
  let prior := (base.seriesScanState.lookup c.seriesId).bind SeriesScanState.lastNewChapterAt
  { base with
    seriesScanState := base.seriesScanState.upsert
      ⟨c.seriesId, if newFound s c then some c.now else prior⟩
      (fun old r => { old with lastNewChapterAt := r.lastNewChapterAt })
      (.of_key fun _ => rfl) }

/-- `upsert_feed_series_update`, of whose statements `n` succeed. -/
def touchFeed (rules : FeedRules) (base : Base) (ready : Bool) (seriesId : String)
    (n : Nat) (feeds : Feeds) : Feeds :=
  let upserted := upserted rules base seriesId feeds.feedSeriesUpdates
  let filled := fillMissingFeedComicType rules base seriesId upserted
  let counted := fillFeedEnChapterCount rules base seriesId filled
  match n with
  | 0 => feeds
  | 1 => { feeds with feedSeriesUpdates := upserted }
  | 2 => { feeds with feedSeriesUpdates := filled }
  | 3 => { feeds with feedSeriesUpdates := counted }
  | 4 => { feeds with feedSeriesUpdates := projectOne base ready seriesId counted }
  | _ => upsertFeedSeriesUpdate rules base ready seriesId feeds

/-- `persist_scan`: the cache, then the schedule with the snapshot, and the feed only
where something is new. -/
def persistScan (rules : ScanRules) (s : ScanFeed) (c : Call) : ScanFeed :=
  let base := cached rules s c
  if c.records then
    let base := recorded s c base
    { s with
      base := base
      knownChapterIds := some (idsOf c.chapters)
      feeds := if newFound s c then
          touchFeed rules.toFeedRules base c.ready c.seriesId c.touches s.feeds
        else s.feeds }
  else { s with base := base }

/-- The chapters can be stored. -/
def storesChapters (rules : ScanRules) (s : ScanFeed) (c : Call) : Bool :=
  (putChapters rules
    { s.base with suwayomiSeries := putSeries rules s.base.suwayomiSeries c.manga }
    c.manga.id c.chapters).isSome

/-- Every write of the call succeeds. -/
def succeeds (rules : ScanRules) (s : ScanFeed) (c : Call) : Bool :=
  c.putsSeries && c.putsChapters && storesChapters rules s c && c.records &&
    (!newFound s c || 5 ≤ c.touches)

/-- The call, and the ghosts after it. -/
def step (rules : ScanRules) (s : ScanFeed) (c : Call) : ScanFeed :=
  { persistScan rules s c with
    fetched := c.chapters
    announced :=
      if c.records && grows s c then newFound s c && succeeds rules s c else s.announced }

/-! ## What a scan is to bring about

The card of the work next to what is stored of the series. -/

/-- The feed row of the work, and the cached series. -/
structure Rows (s : ScanFeed) (workId : Id) (mangaId : Int) (f : FeedSeriesUpdate)
    (sy : SuwayomiSeries) : Prop where
  row : s.feeds.feedSeriesUpdates.lookup workId = some f
  series : s.base.suwayomiSeries.lookup mangaId = some sy

/-- The row is at least as new as the stored series, and counts as many
chapters. -/
def Reflects (rules : ScanRules) (workId : Id) (mangaId : Int) (s : ScanFeed) : Prop :=
  ∃ f sy, Rows s workId mangaId f sy ∧
    (∀ t, sy.latestChapterAt = some t → rules.castInteger t ≤ f.releasedAt) ∧
    ∃ n, f.chapterCount = some n ∧ sy.chapterCount ≤ n

/-- Every other library source of the work has released before `time`. -/
def Newest (rules : ScanRules) (workId : Id) (mangaId : Int) (base : Base) (time : Int) :
    Prop :=
  ∀ x ∈ librarySources rules.toFeedRules base workId, x.series.id ≠ mangaId →
    x.releasedAt < time

/-- `Reflects`, with the count compared only where the series is the newest source
of the work. -/
def ReflectsNewest (rules : ScanRules) (workId : Id) (mangaId : Int) (s : ScanFeed) : Prop :=
  ∃ f sy, Rows s workId mangaId f sy ∧
    ∃ t, sy.latestChapterAt = some t ∧ rules.castInteger t ≤ f.releasedAt ∧
      (Newest rules workId mangaId s.base (rules.castInteger t) →
        ∃ n, f.chapterCount = some n ∧ sy.chapterCount ≤ n)

/-- The list has a chapter with a date. -/
def Datable (rules : ScanRules) (chapters : List SuwayomiChapter) : Prop :=
  (deriveLatestChapterAt rules chapters).isSome = true

/-- A call on the series, which stays in the library and only gains chapters,
while the ledger is not complete. -/
structure Adds (mangaId : Int) (s : ScanFeed) (c : Call) : Prop where
  series : c.manga.id = mangaId
  inLibrary : c.manga.inLibrary = true
  served : c.manga.served = true
  adds : s.fetched ⊆ c.chapters
  filling : c.ready = false

/-! ## The cached series

What the two caches leave of the series that is scanned, and of the others. -/

section Cache

variable {rules : ScanRules} {base base' : Base} {s : ScanFeed} {c : Call} {mangaId : Int}
variable {chapters : List SuwayomiChapter}

/-- What `put_series` makes of the rows. -/
theorem lookup_putSeries {t : Table SuwayomiSeries} {m : SuwayomiManga} {id : Int} :
    (putSeries rules t m).lookup id =
      if m.served ∧ m.id = id then
        some (Table.merged (refetched m.totalCount) (t.lookup id) (fetchedRow rules m))
      else t.lookup id := by
  unfold putSeries
  split
  · next hserved =>
      have hkey : key (fetchedRow rules m) = m.id := rfl
      rw [Table.lookup_upsert, hkey]
      simp only [hserved, true_and]
  · next hserved => rw [if_neg fun h => hserved h.1]

/-- The statement of `put_chapters` that sets the derived columns. -/
theorem lookup_derived {t : Table SuwayomiSeries} {count : Int} {latest : Option String}
    {id : Int} :
    (t.update (fun r => r.id = mangaId) (SuwayomiSeries.derive count latest)
        (keepsKeys_derive _ _)).lookup id =
      if id = mangaId then (t.lookup id).map (SuwayomiSeries.derive count latest)
      else t.lookup id := by
  rw [Table.lookup_update]
  cases hrow : t.lookup id with
  | none => split <;> rfl
  | some r =>
      have hkey : r.id = id := Table.key_of_lookup hrow
      by_cases hid : id = mangaId <;> simp [hkey, hid]

/-- What `put_chapters` makes of the cached series. -/
theorem lookup_putChapters (h : putChapters rules base mangaId chapters = some base')
    (id : Int) :
    base'.suwayomiSeries.lookup id =
      if id = mangaId then (base.suwayomiSeries.lookup id).map
        (SuwayomiSeries.derive (mainChapterCount (chapters.map SuwayomiChapter.chapterNumber))
          (deriveLatestChapterAt rules chapters))
      else base.suwayomiSeries.lookup id := by
  unfold putChapters at h
  split at h
  · next hnone =>
      rw [← Option.some.inj h]
      by_cases hid : id = mangaId
      · rw [if_pos hid, hid, hnone]
        rfl
      · rw [if_neg hid]
  · dsimp only at h
    split at h
    · rw [← Option.some.inj h]
      exact lookup_derived
    · obtain ⟨t, -, rfl⟩ := Option.map_eq_some_iff.mp h
      exact lookup_derived

/-- What a call does to the cached rows of other series, and to the tables it does
not write. -/
structure KeepsOthers (mangaId : Int) (base base' : Base) : Prop where
  sourceSeries : base'.sourceSeries = base.sourceSeries
  others : ∀ id, id ≠ mangaId → base'.suwayomiSeries.lookup id = base.suwayomiSeries.lookup id

theorem KeepsOthers.refl (mangaId : Int) (base : Base) : KeepsOthers mangaId base base :=
  ⟨rfl, fun _ _ => rfl⟩

theorem KeepsOthers.trans {base'' : Base} (h : KeepsOthers mangaId base base')
    (h' : KeepsOthers mangaId base' base'') : KeepsOthers mangaId base base'' where
  sourceSeries := h'.sourceSeries.trans h.sourceSeries
  others id hid := (h'.others id hid).trans (h.others id hid)

/-- The first cache writes one row. -/
theorem keepsOthers_putSeries {m : SuwayomiManga} :
    KeepsOthers m.id base
      { base with suwayomiSeries := putSeries rules base.suwayomiSeries m } where
  sourceSeries := rfl
  others id hid := by
    rw [lookup_putSeries, if_neg fun h => hid h.2.symm]

/-- The second writes the chapters and the derived columns of that row. -/
theorem keepsOthers_putChapters (h : putChapters rules base mangaId chapters = some base') :
    KeepsOthers mangaId base base' where
  sourceSeries := by
    unfold putChapters at h
    split at h
    · rw [← Option.some.inj h]
    · dsimp only at h
      split at h
      · rw [← Option.some.inj h]
      · obtain ⟨t, -, rfl⟩ := Option.map_eq_some_iff.mp h
        rfl
  others id hid := by rw [lookup_putChapters h, if_neg hid]

theorem keepsOthers_cached : KeepsOthers c.manga.id s.base (cached rules s c) := by
  have hseries : KeepsOthers c.manga.id s.base
      (if c.putsSeries then
        { s.base with suwayomiSeries := putSeries rules s.base.suwayomiSeries c.manga }
      else s.base) := by
    split
    · exact keepsOthers_putSeries
    · exact .refl _ _
  unfold cached
  dsimp only
  split
  · rename_i hputs
    cases hput : putChapters rules (if c.putsSeries then
        { s.base with suwayomiSeries := putSeries rules s.base.suwayomiSeries c.manga }
      else s.base) c.manga.id c.chapters with
    | none => exact hseries
    | some base' => exact hseries.trans (keepsOthers_putChapters hput)
  · exact hseries

/-- The ids of a list that could be stored are distinct. -/
theorem nodup_ids_of_putChapters {r : SuwayomiSeries}
    (hcached : base.suwayomiSeries.lookup mangaId = some r)
    (h : putChapters rules base mangaId chapters = some base') :
    (chapters.map SuwayomiChapter.id).Nodup := by
  have hids : ∀ t : Table SuwayomiChapter, (t.rows.map SuwayomiChapter.id).Nodup := by
    intro t
    refine List.pairwise_map.mpr (t.unique.imp fun hclash => ?_)
    exact of_decide_eq_false hclash
  unfold putChapters at h
  rw [hcached] at h
  dsimp only at h
  split at h
  · next hsame =>
      have hdigest : ∀ xs : List SuwayomiChapter, ((digest xs).map fun d => d.id).Perm
          (xs.map SuwayomiChapter.id) := by
        intro xs
        have hperm := (List.perm_insertionSort (fun a b : Cache.SeriesCache.ChapterDigestRow =>
          a.id ≤ b.id) (xs.map .of)).map fun d => d.id
        rw [List.map_map] at hperm
        exact hperm
      have hperm := hdigest chapters
      rw [← hsame] at hperm
      have hstored : ((cachedChapters base.suwayomiChapter mangaId).map
          SuwayomiChapter.id).Nodup :=
        (hids base.suwayomiChapter).sublist (List.filter_sublist.map _)
      exact hperm.nodup_iff.mp ((hdigest _).nodup_iff.mpr hstored)
  · obtain ⟨t, ht, -⟩ := Option.map_eq_some_iff.mp h
    have hrows := hids t
    rw [Table.rows_of_insertAll ht, List.map_append] at hrows
    exact (List.nodup_append.mp hrows).2.1

/-- The cached series after a call all of whose writes succeed. -/
structure Stored (rules : ScanRules) (chapters : List SuwayomiChapter) (sy : SuwayomiSeries) :
    Prop where
  inLibrary : sy.inLibrary = true
  chapterCount : sy.chapterCount =
    mainChapterCount (chapters.map SuwayomiChapter.chapterNumber)
  latest : ∀ t, deriveLatestChapterAt rules chapters = some t → sy.latestChapterAt = some t

/-- A call all of whose writes succeed has stored its list. -/
theorem stored_of_succeeds (hsucceeds : succeeds rules s c = true)
    (hadds : Adds mangaId s c) :
    (c.chapters.map SuwayomiChapter.id).Nodup ∧
      ∃ sy, (cached rules s c).suwayomiSeries.lookup mangaId = some sy ∧
        Stored rules c.chapters sy := by
  simp only [succeeds, Bool.and_eq_true] at hsucceeds
  obtain ⟨⟨⟨⟨hseries, hchapters⟩, hstores⟩, -⟩, -⟩ := hsucceeds
  obtain ⟨base', hput⟩ := Option.isSome_iff_exists.mp hstores
  have hcached : cached rules s c = base' := by
    unfold cached
    dsimp only
    rw [if_pos hchapters, if_pos hseries, hput]
    rfl
  obtain ⟨r, hr, hlib⟩ : ∃ r, (putSeries rules s.base.suwayomiSeries c.manga).lookup
      mangaId = some r ∧ r.inLibrary = true := by
    rw [lookup_putSeries, if_pos ⟨hadds.served, hadds.series⟩]
    refine ⟨_, rfl, ?_⟩
    cases s.base.suwayomiSeries.lookup mangaId <;> exact hadds.inLibrary
  rw [hadds.series] at hput
  refine ⟨nodup_ids_of_putChapters hr hput, SuwayomiSeries.derive
    (mainChapterCount (c.chapters.map SuwayomiChapter.chapterNumber))
    (deriveLatestChapterAt rules c.chapters) r, ?_, ?_⟩
  · rw [hcached, lookup_putChapters hput, if_pos rfl]
    exact congrArg _ hr
  · refine ⟨hlib, rfl, fun t ht => ?_⟩
    show (deriveLatestChapterAt rules c.chapters).or _ = some t
    rw [ht]
    rfl

end Cache

/-! ## The feed row

What `upsert_feed_series_update` then makes of the row. -/

section Row

variable {rules : FeedRules} {base : Base} {mangaId : Int}
variable {workId : Id} {sy : SuwayomiSeries} {t : String}

/-- The series is mapped to the work. -/
def Mapped (rules : FeedRules) (base : Base) (workId : Id) (mangaId : Int) : Prop :=
  ∃ ss ∈ base.sourceSeries, ss.workId = workId ∧ ss.sourceType = "suwayomi" ∧
    ss.sourceKey = toString mangaId ∧ rules.castInteger ss.sourceKey = mangaId

/-- A mapped series in the library with a release time is one of the sources that the
feed asks for. -/
theorem mem_librarySources_of_mapped (hmapped : Mapped rules base workId mangaId)
    (hsy : base.suwayomiSeries.lookup mangaId = some sy) (hlib : sy.inLibrary = true)
    (ht : sy.latestChapterAt = some t) :
    ∃ x ∈ librarySources rules base workId, x.source.sourceKey = toString mangaId ∧
      x.releasedAt = rules.castInteger t := by
  obtain ⟨ss, hss, hwork, htype, hkey, hcast⟩ := hmapped
  refine ⟨⟨ss, sy, rules.castInteger t⟩, ?_, hkey, rfl⟩
  have hsource : ss ∈ sourcesOf base "suwayomi" workId := mem_sourcesOf.mpr ⟨hss, hwork, htype⟩
  have hcached : cachedSeries rules base ss = some sy := by
    rw [cachedSeries, hcast, hsy]
  exact mem_librarySources.mpr ⟨hsource, hcached, hlib, t, ht, rfl⟩

/-- The row that the upsert leaves is as new as the series, and has the count of
the newest source. -/
theorem exists_row_upsert (feeds : Feeds) (hmapped : Mapped rules base workId mangaId)
    (hsy : base.suwayomiSeries.lookup mangaId = some sy) (hlib : sy.inLibrary = true)
    (ht : sy.latestChapterAt = some t) :
    ∃ f, (upsertFeedSeriesUpdate rules base false (toString mangaId)
        feeds).feedSeriesUpdates.lookup workId = some f ∧
      rules.castInteger t ≤ f.releasedAt ∧
      ((∀ x ∈ librarySources rules base workId, x.series.id ≠ mangaId →
        x.releasedAt < rules.castInteger t) → f.chapterCount = some sy.chapterCount) := by
  obtain ⟨own, hown, hkey, hreleased⟩ := mem_librarySources_of_mapped hmapped hsy hlib ht
  obtain ⟨hmap, work, n, r, hwork, hnewest, hr⟩ := exists_row_of_mapped ⟨own, hown, hkey⟩
  have hlookup := @lookup_upsertFeedSeriesUpdate rules base false (toString mangaId) workId
    feeds work r hmap hwork hr
  have hid : work.id = workId := Table.key_of_lookup hwork
  -- the columns of the scanner half
  have hcolumns : r.releasedAt = n.releasedAt ∧ r.chapterCount = some n.series.chapterCount := by
    rw [scannerRow, hid, hnewest] at hr
    rw [← Option.some.inj hr]
    exact ⟨rfl, rfl⟩
  have hle : rules.castInteger t ≤ n.releasedAt := by
    have hmax := List.le_apply_get_maxOn?_of_mem (f := LibrarySource.releasedAt) hown
    unfold newestSource at hnewest
    simp only [hnewest, Option.get_some] at hmax
    omega
  have hevent : ∀ w, scannerEvent base false (toString mangaId) w = none := by
    intro w
    unfold scannerEvent clockEvent
    split <;> rfl
  refine ⟨_, hlookup.1, ?_, fun hbefore => ?_⟩
  · have hwritten : (written rules base false (toString mangaId) feeds workId r).releasedAt =
        (Table.merged scannerUpsert (feeds.feedSeriesUpdates.lookup workId) r).releasedAt := by
      unfold written settle
      dsimp only
      rw [hevent]
      rfl
    rw [hwritten]
    cases feeds.feedSeriesUpdates.lookup workId with
    | none =>
        show _ ≤ r.releasedAt
        omega
    | some old =>
        have hmax : r.releasedAt ≤ max old.releasedAt r.releasedAt := le_max_right _ _
        show _ ≤ max old.releasedAt r.releasedAt
        omega
  · have hseries : n.series = sy := by
      have hn := List.maxOn?_mem hnewest
      have hsame : n.series.id = mangaId := by
        by_contra hother
        have hlt := hbefore n hn hother
        omega
      obtain ⟨-, hcached, -⟩ := mem_librarySources.mp hn
      have hlook : base.suwayomiSeries.lookup n.series.id = some n.series :=
        Table.lookup_of_mem (Table.mem_of_lookup hcached)
      rw [hsame, hsy] at hlook
      exact (Option.some.inj hlook).symm
    have hwritten : (written rules base false (toString mangaId) feeds workId r).chapterCount =
        (Table.merged scannerUpsert (feeds.feedSeriesUpdates.lookup workId) r).chapterCount :=
      rfl
    rw [hwritten, ← hseries]
    cases feeds.feedSeriesUpdates.lookup workId with
    | none => exact hcolumns.2
    | some old =>
        show r.chapterCount.or old.chapterCount = _
        rw [hcolumns.2]
        rfl

end Row

/-! ## Lists with the same chapters

A list that gains nothing is fetched again in any order. -/

section Lists

variable {rules : ScanRules} {xs ys : List SuwayomiChapter}

/-- A list that gained chapters and no id has the same chapters. -/
theorem perm_of_idsOf_eq (hxs : (xs.map SuwayomiChapter.id).Nodup)
    (hys : (ys.map SuwayomiChapter.id).Nodup) (hsub : xs ⊆ ys) (hids : idsOf ys ⊆ idsOf xs) :
    xs.Perm ys := by
  refine (List.perm_ext_iff_of_nodup hxs.of_map hys.of_map).mpr fun c => ⟨@hsub c, fun hc => ?_⟩
  have hid : c.id ∈ idsOf xs := by
    apply hids
    exact List.mem_toFinset.mpr (List.mem_map_of_mem hc)
  obtain ⟨d, hd, hdc⟩ := List.mem_map.mp (List.mem_toFinset.mp hid)
  rwa [← List.inj_on_of_nodup_map hys (hsub hd) hc hdc]

/-- The count does not depend on the order of the list. -/
theorem mainChapterCount_perm {ms ns : List Rat} (h : ms.Perm ns) :
    mainChapterCount ms = mainChapterCount ns := by
  have hgroups := ((h.filter fun n => 0 ≤ n).map Rat.floor).dedup
  unfold mainChapterCount
  dsimp only
  simp only [← List.length_eq_zero_iff, h.length_eq, hgroups.length_eq]

theorem deriveLatestChapterAt_perm (h : xs.Perm ys) :
    deriveLatestChapterAt rules xs = deriveLatestChapterAt rules ys := by
  have hdates := h.filterMap fun c => c.uploadDate.bind (normalizeEpochMillis rules)
  unfold deriveLatestChapterAt
  congr 1
  apply Option.ext
  intro ms
  rw [List.max?_eq_some_iff, List.max?_eq_some_iff, hdates.mem_iff]
  simp only [hdates.mem_iff]

end Lists

/-! ## What is announced stays announced

The invariant, its step, and the run. -/

section Runs

variable {rules : ScanRules} {s : ScanFeed} {c : Call} {workId : Id} {mangaId : Int}

/-- The list that the snapshot was last grown by, and the row it has in the
feed. -/
structure Announced (rules : ScanRules) (workId : Id) (mangaId : Int) (s : ScanFeed)
    (grown : List SuwayomiChapter) : Prop where
  known : s.knownChapterIds = some (idsOf grown)
  nodup : (grown.map SuwayomiChapter.id).Nodup
  subset : grown ⊆ s.fetched
  row : ∀ t, deriveLatestChapterAt rules grown = some t →
    ∃ f, s.feeds.feedSeriesUpdates.lookup workId = some f ∧
      rules.castInteger t ≤ f.releasedAt ∧
      (Newest rules workId mangaId s.base (rules.castInteger t) →
        f.chapterCount = some (mainChapterCount (grown.map SuwayomiChapter.chapterNumber)))

/-- What a run keeps: the series stays mapped, and what is announced has its row. -/
structure Inv (rules : ScanRules) (workId : Id) (mangaId : Int) (s : ScanFeed) : Prop where
  mapped : Mapped rules.toFeedRules s.base workId mangaId
  announced : s.announced = true → ∃ grown, Announced rules workId mangaId s grown

/-- Other series are as they were, so the newest is. -/
theorem newest_congr {base base' : Base} (h : KeepsOthers mangaId base base') {time : Int}
    (hnewest : Newest rules workId mangaId base' time) :
    Newest rules workId mangaId base time := by
  intro x hx hother
  obtain ⟨hsource, hseries, hlib, hreleased⟩ := mem_librarySources.mp hx
  refine hnewest x (mem_librarySources.mpr ⟨?_, ?_, hlib, hreleased⟩) hother
  · rw [mem_sourcesOf, h.sourceSeries]
    exact mem_sourcesOf.mp hsource
  · unfold cachedSeries at hseries ⊢
    have hkey : x.series.id = rules.castInteger x.source.sourceKey := Table.key_of_lookup hseries
    rw [h.others _ (hkey ▸ hother)]
    exact hseries

/-- The tables that a call writes of `Base`. -/
theorem keepsOthers_step (rules : ScanRules) (s : ScanFeed) (c : Call) :
    KeepsOthers c.manga.id s.base (step rules s c).base := by
  have hcached : KeepsOthers c.manga.id s.base (cached rules s c) := keepsOthers_cached
  unfold step persistScan
  dsimp only
  split
  · exact ⟨hcached.sourceSeries, hcached.others⟩
  · exact hcached

theorem mapped_step (hmapped : Mapped rules.toFeedRules s.base workId mangaId) :
    Mapped rules.toFeedRules (step rules s c).base workId mangaId := by
  unfold Mapped
  rw [(keepsOthers_step rules s c).sourceSeries]
  exact hmapped

/-- What is new is not in the snapshot. -/
theorem grows_of_newFound (h : newFound s c = true) : grows s c = true := by
  simp only [newFound, Bool.and_eq_true] at h
  unfold grows
  cases hknown : s.knownChapterIds with
  | none => rfl
  | some prior =>
      rw [hknown] at h
      exact h.2

/-- The ids of a list that does not grow the snapshot. -/
theorem idsOf_subset_of_grows_eq_false {prior : Finset Int}
    (hknown : s.knownChapterIds = some prior) (hgrows : grows s c = false) :
    idsOf c.chapters ⊆ prior := by
  intro id hid
  obtain ⟨ch, hch, rfl⟩ := List.mem_map.mp (List.mem_toFinset.mp hid)
  by_contra hnew
  unfold grows at hgrows
  rw [hknown] at hgrows
  have hany : c.chapters.any (fun ch => decide (ch.id ∉ prior)) = true :=
    List.any_eq_true.mpr ⟨ch, hch, decide_eq_true hnew⟩
  rw [Option.elim_some, hany] at hgrows
  contradiction

/-- A call that detects, and all of whose writes succeed, announces its list. -/
theorem announced_of_newFound (hmapped : Mapped rules.toFeedRules s.base workId mangaId)
    (hadds : Adds mangaId s c) (hfound : newFound s c = true)
    (hsucceeds : succeeds rules s c = true) :
    Announced rules workId mangaId (step rules s c) c.chapters := by
  obtain ⟨hnodup, sy, hsy, hstored⟩ := stored_of_succeeds hsucceeds hadds
  simp only [succeeds, hfound, Bool.not_true, Bool.false_or, Bool.and_eq_true,
    decide_eq_true_eq] at hsucceeds
  obtain ⟨⟨-, hrecords⟩, htouches⟩ := hsucceeds
  have hid : c.seriesId = toString mangaId := congrArg toString hadds.series
  have hstep : step rules s c = { step rules s c with
      base := recorded s c (cached rules s c)
      knownChapterIds := some (idsOf c.chapters)
      feeds := upsertFeedSeriesUpdate rules.toFeedRules (recorded s c (cached rules s c)) false
        (toString mangaId) s.feeds } := by
    have htouch : touchFeed rules.toFeedRules (recorded s c (cached rules s c)) c.ready
        c.seriesId c.touches s.feeds = upsertFeedSeriesUpdate rules.toFeedRules
          (recorded s c (cached rules s c)) false (toString mangaId) s.feeds := by
      rw [hadds.filling, hid]
      obtain ⟨n, hn⟩ := Nat.exists_eq_add_of_le htouches
      rw [hn, Nat.add_comm]
      rfl
    unfold step persistScan
    dsimp only
    rw [if_pos hrecords, if_pos hfound, htouch]
  rw [hstep]
  refine ⟨rfl, hnodup, fun _ hc => hc, fun t ht => ?_⟩
  have hmapped' : Mapped rules.toFeedRules (recorded s c (cached rules s c)) workId mangaId := by
    have hsame : (recorded s c (cached rules s c)).sourceSeries = s.base.sourceSeries :=
      keepsOthers_cached.sourceSeries
    unfold Mapped
    rw [hsame]
    exact hmapped
  obtain ⟨f, hf, hreleased, hcount⟩ := exists_row_upsert s.feeds hmapped' hsy
    hstored.inLibrary (hstored.latest t ht)
  refine ⟨f, hf, hreleased, fun hnewest => ?_⟩
  rw [hcount hnewest, hstored.chapterCount]

/-- A call that grows no snapshot, or whose record fails, leaves the row. -/
theorem announced_of_not_grows {grown : List SuwayomiChapter}
    (hannounced : Announced rules workId mangaId s grown) (hadds : Adds mangaId s c)
    (hgrows : c.records = false ∨ grows s c = false) :
    Announced rules workId mangaId (step rules s c) grown := by
  have hothers : KeepsOthers mangaId s.base (step rules s c).base :=
    hadds.series ▸ keepsOthers_step rules s c
  have hsame : (step rules s c).knownChapterIds = some (idsOf grown) ∧
      (step rules s c).feeds = s.feeds := by
    unfold step persistScan
    dsimp only
    split
    · next hrecords =>
        have hgrows : grows s c = false := hgrows.resolve_left (by simp [hrecords])
        have hfound : ¬newFound s c = true := fun hfound => by
          rw [grows_of_newFound hfound] at hgrows
          contradiction
        refine ⟨congrArg some (Finset.Subset.antisymm ?_ ?_), if_neg hfound⟩
        · exact idsOf_subset_of_grows_eq_false hannounced.known hgrows
        · intro id hid
          obtain ⟨ch, hch, rfl⟩ := List.mem_map.mp (List.mem_toFinset.mp hid)
          exact List.mem_toFinset.mpr
            (List.mem_map_of_mem (hadds.adds (hannounced.subset hch)))
    · exact ⟨hannounced.known, rfl⟩
  refine ⟨hsame.1, hannounced.nodup, fun _ hch => hadds.adds (hannounced.subset hch),
    fun t ht => ?_⟩
  obtain ⟨f, hf, hreleased, hcount⟩ := hannounced.row t ht
  rw [hsame.2]
  exact ⟨f, hf, hreleased, fun hnewest => hcount (newest_congr hothers hnewest)⟩

theorem inv_step (h : Inv rules workId mangaId s) (hadds : Adds mangaId s c) :
    Inv rules workId mangaId (step rules s c) where
  mapped := mapped_step h.mapped
  announced hyes := by
    by_cases hgrown : (c.records && grows s c) = true
    · change (if (c.records && grows s c) = true then _ else _) = true at hyes
      rw [if_pos hgrown, Bool.and_eq_true] at hyes
      exact ⟨_, announced_of_newFound h.mapped hadds hyes.1 hyes.2⟩
    · change (if (c.records && grows s c) = true then _ else _) = true at hyes
      rw [if_neg hgrown] at hyes
      obtain ⟨grown, hannounced⟩ := h.announced hyes
      rw [Bool.not_eq_true, Bool.and_eq_false_iff] at hgrown
      exact ⟨grown, announced_of_not_grows hannounced hadds hgrown⟩

/-- What the feed owes a call all of whose writes succeed. -/
structure Announces (rules : ScanRules) (workId : Id) (mangaId : Int) (s : ScanFeed)
    (c : Call) : Prop where
  /-- What the call detects is announced. -/
  detected : succeeds rules s c = true → newFound s c = true → Datable rules c.chapters →
    ReflectsNewest rules workId mangaId (step rules s c)
  /-- What was announced, and has not been added to, is announced still. -/
  kept : succeeds rules s c = true → grows s c = false → s.announced = true →
    Datable rules c.chapters → ReflectsNewest rules workId mangaId (step rules s c)

/-- The row of an announced list reflects the series that a call has stored. -/
theorem reflectsNewest_of_announced {grown : List SuwayomiChapter}
    (hannounced : Announced rules workId mangaId (step rules s c) grown)
    (hperm : grown.Perm c.chapters) (hsucceeds : succeeds rules s c = true)
    (hadds : Adds mangaId s c) (hdatable : Datable rules c.chapters) :
    ReflectsNewest rules workId mangaId (step rules s c) := by
  obtain ⟨-, sy, hsy, hstored⟩ := stored_of_succeeds hsucceeds hadds
  obtain ⟨t, ht⟩ := Option.isSome_iff_exists.mp hdatable
  obtain ⟨f, hf, hreleased, hcount⟩ := hannounced.row t
    ((deriveLatestChapterAt_perm hperm).trans ht)
  have hseries : (step rules s c).base.suwayomiSeries = (cached rules s c).suwayomiSeries := by
    unfold step persistScan
    dsimp only
    split <;> rfl
  refine ⟨f, sy, ⟨hf, by rw [hseries, hsy]⟩, t, hstored.latest t ht, hreleased,
    fun hnewest => ⟨_, hcount hnewest, ?_⟩⟩
  rw [hstored.chapterCount, mainChapterCount_perm (hperm.map SuwayomiChapter.chapterNumber)]

/-- What one call owes, from a state of a run. -/
theorem announces_step (h : Inv rules workId mangaId s) (hadds : Adds mangaId s c) :
    Announces rules workId mangaId s c where
  detected hsucceeds hfound hdatable :=
    reflectsNewest_of_announced (announced_of_newFound h.mapped hadds hfound hsucceeds)
      (List.Perm.refl _) hsucceeds hadds hdatable
  kept hsucceeds hgrows hyes hdatable := by
    obtain ⟨grown, hannounced⟩ := h.announced hyes
    have hnodup := (stored_of_succeeds hsucceeds hadds).1
    have hperm : grown.Perm c.chapters := by
      refine perm_of_idsOf_eq hannounced.nodup hnodup
        (fun _ hch => hadds.adds (hannounced.subset hch)) ?_
      exact idsOf_subset_of_grows_eq_false hannounced.known hgrows
    exact reflectsNewest_of_announced (announced_of_not_grows hannounced hadds (Or.inr hgrows))
      hperm hsucceeds hadds hdatable

end Runs

/-! ## Scans that the feed misses -/

/-- The rules on one key and one date. -/
def scanRules : ScanRules :=
  { plainRules with
    parseI64 := fun t => if t = "7" then some 7 else none
    genresToJson := fun _ => "[]" }

/-- A work with the one series 7, which has not been scanned. -/
def unscanned : ScanFeed where
  base :=
    { Base.empty with
      work := oneWork (some "Dawn")
      sourceSeries := ⟨[⟨"ss7", "w", "suwayomi", "1", "7", none, false, none⟩],
        List.pairwise_singleton _ _⟩
      sourceSeries_work := by decide }
  knownChapterIds := none
  feeds := Feeds.empty
  fetched := []
  announced := false

/-- Chapter `n`, with a date. -/
def dated (n : Nat) : SuwayomiChapter :=
  ⟨n, 7, "Chapter", n, none, some "7", false, false, false, 0, 0⟩

/-- A scan that fetches the first `n` chapters, and of whose five statements on the
feed `touches` succeed. -/
def scanOf (n touches : Nat) : Call where
  manga := ⟨7, "Dawn", none, none, none, none, [], "ONGOING", true, some "en", none⟩
  chapters := (List.range n).map dated
  now := "t1"
  ready := false
  putsSeries := true
  putsChapters := true
  records := true
  touches := touches

/-- After every call all of whose writes succeed, the feed reflects it. -/
def AlwaysReflects (s : ScanFeed) (c : Call) : Prop :=
  succeeds scanRules s c = true → Datable scanRules c.chapters →
    Reflects scanRules "w" 7 (step scanRules s c)

theorem not_reflects_of_lookup {s : ScanFeed}
    (h : (s.feeds.feedSeriesUpdates.lookup "w").isSome = false) :
    ¬Reflects scanRules "w" 7 s := by
  rintro ⟨f, sy, hrows, -⟩
  rw [hrows.row] at h
  contradiction

/-- The same work with a second source, which has one chapter and released later. -/
def withSibling : ScanFeed :=
  { unscanned with
    base :=
      { unscanned.base with
        sourceSeries := ⟨[⟨"ss7", "w", "suwayomi", "1", "7", none, false, none⟩,
          ⟨"ss0", "w", "suwayomi", "2", "0", none, false, none⟩], by decide⟩
        suwayomiSeries := ⟨[librarySeries 0 "Dusk" 1 (some "7")],
          List.pairwise_singleton _ _⟩
        sourceSeries_work := by decide } }

end Komika.Feed.PersistScan
