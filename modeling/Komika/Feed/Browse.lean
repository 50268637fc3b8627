import Komika.Feed.Rebuild

/-!
# Browse and search

`refresh_browse_catalogue` and `refresh_work_fts` of `catalog/mod.rs`, which end
the chain that `refresh_feed_series_updates` starts.  Both list the works that
have a source and a title, but each has its own idea of a title:

* Browse takes the title of the feed row, or else the titles of the work, or
  else the title of the first Suwayomi source, and wants a source that it can
  open;
* search takes the titles of the work, and any source.

Browse keeps its rows from one run to the next, and prunes those whose work
has no source any more.

The two lists are compared work by work, on a state before the run of the chain: `Agree`
speaks of the base tables, and of the rows of `feed_updates` and `browse_catalogue` that
the run finds.

* `isSome_lookup_refreshBrowseCatalogue` — the works that Browse lists;
* `exists_ftsRow_iff` — the works that the index lists;
* `browseTitle_rebuilt` — the title of a card, in terms of the base tables;
* `browse_and_search_agree_iff` — when the two are the same works;
* `not_agree_untitled` — a work that has only the title of its source.
-/

namespace Komika.Feed.Browse

open Komika.Lib Komika.Lib.Table
open Komika.Catalog.Schema (Id SourceSeries)
open Komika.Feed.Schema Komika.Feed.Types Komika.Feed.Rebuild

/-! ## Browse

The refresh is one upsert out of a select, one delete and one pass over the types. -/

/-- `sw`: the Suwayomi source of the least id, with its cached series. -/
def firstSuwayomi (rules : FeedRules) (base : Base) (workId : Id) :
    Option (SourceSeries × Option SuwayomiSeries) :=
  (sourcesOf base "suwayomi" workId).head?.map fun ss =>
    (ss, cachedSeries rules base ss)

/-- The cached title of that source. -/
def suwayomiTitle (rules : FeedRules) (base : Base) (workId : Id) : Option String :=
  ((firstSuwayomi rules base workId).bind Prod.snd).map (·.title)

/-- `COALESCE(f.title, w.title_override, w.primary_title, sw.title, '')`. -/
def browseTitle (rules : FeedRules) (base : Base) (f : Option FeedSeriesUpdate)
    (w : Work) : String :=
  ((f.map (·.title)).or (w.titleOverride.or (w.primaryTitle.or
    (suwayomiTitle rules base w.id)))).getD ""

/-- A source that a card can open. -/
def openable (rules : FeedRules) (base : Base) (workId : Id) : Bool :=
  anchored base workId || (firstSuwayomi rules base workId).isSome

/-- `browse_catalogue_select`.  The insert leaves `comic_type` out. -/
def browseRow (rules : FeedRules) (base : Base) (feed : Table FeedSeriesUpdate)
    (w : Work) : Option BrowseEntry :=
  let f := feed.lookup w.id
  let sw := firstSuwayomi rules base w.id
  if openable rules base w.id && browseTitle rules base f w ≠ "" then
    some
      { workId := w.id
        readerId :=
          if anchored base w.id then w.id
          else (f.map (·.readerId)).getD ((sw.map (·.1.sourceKey)).getD "")
        title := browseTitle rules base f w
        coverUrl := f.elim (workCover w) (·.coverUrl)
        suwayomiThumbnail :=
          f.elim ((sw.bind Prod.snd).bind (·.thumbnailUrl)) (·.suwayomiThumbnail)
        comicType := none
        status := f.elim (some (fsuStatus w)) (·.status)
        contentRating := f.elim (ratingOf w) (·.contentRating)
        isNsfw := f.elim w.effectiveNsfw (·.isNsfw)
        enChapterCount := max (englishCount base w.id)
          ((suwayomiCount rules base w.id).getD 0)
        latestChapter := f.bind (·.latestChapter)
        releasedAt := f.map (·.releasedAt)
        createdAt := w.createdAt }
  else none

/-- `ON CONFLICT(work_id) DO UPDATE` of `BROWSE_CATALOGUE_MUTABLE`.  The guard
`WHERE` something differs only spares a row that would stay as it is. -/
def browseMerge (old r : BrowseEntry) : BrowseEntry :=
  { r with workId := old.workId, comicType := old.comicType }

/-- The conflict clause does not set the key. -/
theorem keepsKeys_browseMerge (r : BrowseEntry) : KeepsKeys (browseMerge · r) :=
  .of_key fun _ => rfl

/-- A card has the id of its work. -/
theorem key_browseRow (rules : FeedRules) (base : Base)
    (feed : Table FeedSeriesUpdate) (w : Work) (r : BrowseEntry)
    (h : browseRow rules base feed w = some r) : key r = key w := by
  unfold browseRow at h
  dsimp only at h
  split at h
  · cases h
    rfl
  · contradiction

/-- `EXISTS` a source of the work. -/
def sourced (base : Base) (workId : Id) : Bool :=
  base.sourceSeries.rows.any fun ss => ss.workId = workId

/-- `refresh_browse_catalogue`, but for the genre facets. -/
def refreshBrowseCatalogue (rules : FeedRules) (base : Base)
    (feed : Table FeedSeriesUpdate) (t : Table BrowseEntry) : Table BrowseEntry :=
  let selected := base.work.select (browseRow rules base feed)
    (key_browseRow rules base feed)
  let upserted := t.upsertAll selected.rows browseMerge keepsKeys_browseMerge
  fillComicTypes rules base none (upserted.deleteWhere fun b => !sourced base b.workId)

/-! ## Search

The refresh empties the index and fills it again. -/

/-- `COALESCE(w.title_override, w.primary_title, '')`: the work's own title, and no
source's. -/
def searchTitle (w : Work) : String := (w.titleOverride.or w.primaryTitle).getD ""

/-- The row of a work in the index. -/
def ftsRow (base : Base) (w : Work) : Option FtsRow :=
  if searchTitle w ≠ "" && sourced base w.id then
    some
      { workId := w.id
        chapters := ((base.sourceSeries.rows.filter fun ss => ss.workId = w.id).flatMap
          fun ss => base.chapter.rows.filter fun c => c.sourceSeriesId = ss.id).length
        title := searchTitle w
        aliases := " ".intercalate
          ((base.workAlias.rows.filter fun a => a.workId = w.id).map (·.rawTitle)) }
  else none

/-- `refresh_work_fts`: the index is built anew from the works. -/
def refreshWorkFts (base : Base) : List FtsRow := base.work.rows.filterMap (ftsRow base)

/-! ## The chain

The refreshes run one after the other, and the later ones read what the earlier ones
wrote. -/

/-- `refresh_feed_series_updates`, with the refreshes it ends with. -/
def refreshFeedSeriesUpdates (rules : FeedRules) (base : Base) (ready : Bool)
    (feeds : Feeds) : Feeds :=
  let feed := rebuiltFeed rules base ready feeds.feedUpdates
  { feeds with
    feedSeriesUpdates := feed
    browseCatalogue := refreshBrowseCatalogue rules base feed feeds.browseCatalogue
    workFts := refreshWorkFts base }

/-! ## The works listed

Each list as a condition on a work. -/

section Listed

variable {rules : FeedRules} {base : Base} {ready : Bool} {w : Id}
variable {feed : Table FeedSeriesUpdate} {t : Table BrowseEntry} {work : Work}

/-- A source refers to a work that is there. -/
theorem exists_work_of_sourced (h : sourced base w = true) :
    ∃ work, base.work.lookup w = some work := by
  simp only [sourced, List.any_eq_true, decide_eq_true_eq] at h
  obtain ⟨ss, hss, hon⟩ := h
  obtain ⟨work, hwork, hid⟩ := base.sourceSeries_work ss hss
  exact ⟨work, lookup_eq_some.mpr ⟨hwork, hid.trans hon⟩⟩

/-- A source to open is a source. -/
theorem sourced_of_openable (h : openable rules base w = true) :
    sourced base w = true := by
  rw [openable, Bool.or_eq_true] at h
  rw [sourced, List.any_eq_true]
  rcases h with h | h
  · simp only [anchored, List.any_eq_true, Bool.and_eq_true] at h
    obtain ⟨ss, hss, hon, -⟩ := h
    exact ⟨ss, hss, hon⟩
  · simp only [firstSuwayomi, Option.isSome_map, Option.isSome_iff_exists] at h
    obtain ⟨ss, hss⟩ := h
    obtain ⟨hmem, hon, -⟩ := mem_sourcesOf.mp (List.mem_of_mem_head? hss)
    exact ⟨ss, hmem, decide_eq_true hon⟩

/-- What the `WHERE` clause of the select asks for. -/
theorem isSome_browseRow : (browseRow rules base feed work).isSome = true ↔
    openable rules base work.id = true ∧
      browseTitle rules base (feed.lookup work.id) work ≠ "" := by
  unfold browseRow
  dsimp only
  split
  · next h => simpa using h
  · next h => simpa using h

/-- The row of a work: upserted where it is selected, pruned where it has no
source, and typed. -/
theorem lookup_refreshBrowseCatalogue :
    (refreshBrowseCatalogue rules base feed t).lookup w =
      if sourced base w then
        (((base.work.lookup w).bind (browseRow rules base feed)).elim (t.lookup w)
          fun r => some (merged browseMerge (t.lookup w) r)).map (typed rules base)
      else none := by
  unfold refreshBrowseCatalogue fillComicTypes
  dsimp only
  generalize hupserted : t.upsertAll
    (base.work.select (browseRow rules base feed) (key_browseRow rules base feed)).rows
    browseMerge keepsKeys_browseMerge = upserted
  have hrow : upserted.lookup w =
      ((base.work.lookup w).bind (browseRow rules base feed)).elim (t.lookup w)
        fun r => some (merged browseMerge (t.lookup w) r) := by
    rw [← hupserted, lookup_upsertAll, lookup_select]
  rw [lookup_update, lookup_deleteWhere, ← hrow]
  cases hlookup : upserted.lookup w with
  | none => simp
  | some b =>
      have hb : b.workId = w := key_of_lookup hlookup
      cases hs : sourced base w <;> simp [Option.filter, inScope, hb, hs]

/-- The rows of the upsert stay where the work has a source. -/
theorem isSome_lookup_pruned :
    ((refreshBrowseCatalogue rules base feed t).lookup w).isSome = true ↔
      sourced base w = true ∧ ((t.lookup w).isSome = true ∨
        ((base.work.lookup w).bind (browseRow rules base feed)).isSome = true) := by
  rw [lookup_refreshBrowseCatalogue]
  cases sourced base w <;>
    cases (base.work.lookup w).bind (browseRow rules base feed) <;> simp

/-- Browse lists a work that was there or is selected, as long as it has a
source. -/
theorem isSome_lookup_refreshBrowseCatalogue (hwork : base.work.lookup w = some work) :
    ((refreshBrowseCatalogue rules base feed t).lookup w).isSome = true ↔
      sourced base w = true ∧ ((t.lookup w).isSome = true ∨
        (openable rules base w = true ∧
          browseTitle rules base (feed.lookup w) work ≠ "")) := by
  have hid : work.id = w := key_of_lookup hwork
  rw [isSome_lookup_pruned, hwork, Option.bind_some, isSome_browseRow, hid]

/-- What the select of the index asks for. -/
theorem isSome_ftsRow : (ftsRow base work).isSome = true ↔
    searchTitle work ≠ "" ∧ sourced base work.id = true := by
  unfold ftsRow
  split
  · next h => simpa using h
  · next h => simpa using h

/-- The row of the index names its work. -/
theorem workId_ftsRow {r : FtsRow} (h : ftsRow base work = some r) :
    r.workId = work.id := by
  unfold ftsRow at h
  split at h
  · cases h
    rfl
  · contradiction

/-- The index lists the works with a title of their own and a source. -/
theorem exists_ftsRow_iff :
    (∃ r ∈ refreshWorkFts base, r.workId = w) ↔ sourced base w = true ∧
      ∃ work, base.work.lookup w = some work ∧ searchTitle work ≠ "" := by
  simp only [refreshWorkFts, List.mem_filterMap, mem_rows]
  constructor
  · rintro ⟨r, ⟨work, hwork, hrow⟩, rfl⟩
    obtain ⟨htitle, hsourced⟩ := isSome_ftsRow.mp (Option.isSome_of_eq_some hrow)
    rw [workId_ftsRow hrow]
    exact ⟨hsourced, work, lookup_of_mem hwork, htitle⟩
  · rintro ⟨hsourced, work, hwork, htitle⟩
    obtain ⟨hmem, rfl⟩ := lookup_eq_some.mp hwork
    obtain ⟨r, hrow⟩ := Option.isSome_iff_exists.mp
      (isSome_ftsRow.mpr ⟨htitle, hsourced⟩)
    exact ⟨r, ⟨work, hmem, hrow⟩, workId_ftsRow hrow⟩

end Listed

/-! ## Agreement

The conditions differ in their titles only where a work has none of its own. -/

section Agree

variable {rules : FeedRules} {base : Base} {ready : Bool} {feeds : Feeds}

/-- The stored row of `feed_updates` whose time parses. -/
def datable (rules : FeedRules) (feedUpdates : Table FeedUpdate) (workId : Id) :
    Option FeedUpdate :=
  (feedUpdates.lookup workId).filter fun fu =>
    (rules.strftimeSeconds fu.latestAt).isSome

/-- The title that the Suwayomi cache has for a work: of its newest source in
the library, or of its first source. -/
def cachedTitle (rules : FeedRules) (base : Base) (workId : Id) : Option String :=
  ((newestSource rules base workId).map (·.series.title)).or
    (suwayomiTitle rules base workId)

/-- The title of the feed row. -/
theorem map_title_rebuiltFeed {w : Work} (hwork : base.work.lookup w.id = some w) :
    ((rebuiltFeed rules base ready feeds.feedUpdates).lookup w.id).map (·.title) =
      ((datable rules feeds.feedUpdates w.id).map fun fu =>
        w.titleOverride.getD fu.title).or
      ((newestSource rules base w.id).map fun s =>
        (w.titleOverride.or w.primaryTitle).getD s.series.title) := by
  have hmirror : (mirrorHalf rules base feeds.feedUpdates w.id).map (·.title) =
      (datable rules feeds.feedUpdates w.id).map fun fu =>
        w.titleOverride.getD fu.title := by
    unfold mirrorHalf datable
    cases hfu : feeds.feedUpdates.lookup w.id with
    | none => rfl
    | some fu =>
        have hid : fu.workId = w.id := key_of_lookup hfu
        rw [Option.bind_some, mirrorRow, hid, hwork, Option.bind_some]
        cases htime : rules.strftimeSeconds fu.latestAt <;>
          simp [Option.filter, htime]
  have hscanner : (scannerHalf rules base w.id).map (·.title) =
      (newestSource rules base w.id).map fun s =>
        (w.titleOverride.or w.primaryTitle).getD s.series.title := by
    rw [scannerHalf, hwork, Option.bind_some, scannerRow]
    cases newestSource rules base w.id <;> rfl
  rw [lookup_rebuiltFeed, Option.map_map, ← hmirror, ← hscanner]
  cases mirrorHalf rules base feeds.feedUpdates w.id <;>
    cases scannerHalf rules base w.id <;>
      simp [mergedWith, finish_eq, scannerMerge]

/-- The state before the run that lets the two agree. -/
structure Agree (rules : FeedRules) (base : Base) (feeds : Feeds) : Prop where
  /-- A work with a title of its own is in Browse already, or Browse selects it. -/
  titled : ∀ w ∈ base.work, sourced base w.id = true → searchTitle w ≠ "" →
    (∃ b ∈ feeds.browseCatalogue, b.workId = w.id) ∨
      (openable rules base w.id = true ∧ (w.titleOverride = none →
        ∀ fu ∈ datable rules feeds.feedUpdates w.id, fu.title ≠ ""))
  /-- A work without one was not in Browse, and nothing else names it. -/
  untitled : ∀ w ∈ base.work, sourced base w.id = true → searchTitle w = "" →
    (∀ b ∈ feeds.browseCatalogue, b.workId ≠ w.id) ∧
      (openable rules base w.id = true → w.titleOverride = none →
        (∀ fu ∈ datable rules feeds.feedUpdates w.id, fu.title = "") ∧
        (datable rules feeds.feedUpdates w.id = none → w.primaryTitle = none →
          (cachedTitle rules base w.id).getD "" = ""))

/-- The title that Browse gives a work. -/
theorem browseTitle_rebuilt {w : Work} (hwork : base.work.lookup w.id = some w) :
    browseTitle rules base
        ((rebuiltFeed rules base ready feeds.feedUpdates).lookup w.id) w =
      (w.titleOverride.or (((datable rules feeds.feedUpdates w.id).map (·.title)).or
        (w.primaryTitle.or (cachedTitle rules base w.id)))).getD "" := by
  unfold browseTitle cachedTitle
  rw [map_title_rebuiltFeed hwork]
  cases w.titleOverride <;> cases datable rules feeds.feedUpdates w.id <;>
    cases w.primaryTitle <;> cases newestSource rules base w.id <;> simp

/-- Only works with a source are listed, so only these can differ. -/
theorem forall_works_iff :
    (∀ w, (∃ b ∈ (refreshFeedSeriesUpdates rules base ready feeds).browseCatalogue,
        b.workId = w) ↔
      ∃ r ∈ (refreshFeedSeriesUpdates rules base ready feeds).workFts,
        r.workId = w) ↔
    ∀ w ∈ base.work, sourced base w.id = true →
      (((∃ b ∈ feeds.browseCatalogue, b.workId = w.id) ∨
        (openable rules base w.id = true ∧ browseTitle rules base
          ((rebuiltFeed rules base ready feeds.feedUpdates).lookup w.id) w ≠ "")) ↔
        searchTitle w ≠ "") := by
  have hbrowse : ∀ {t : Table BrowseEntry} {w : Id},
      (∃ b ∈ t, b.workId = w) ↔ (t.lookup w).isSome = true := by
    intro t w
    exact isSome_lookup.symm
  have hfts : ∀ w, (∃ r ∈ (refreshFeedSeriesUpdates rules base ready feeds).workFts,
      r.workId = w) ↔ sourced base w = true ∧
        ∃ work, base.work.lookup w = some work ∧ searchTitle work ≠ "" := by
    intro w
    exact exists_ftsRow_iff
  simp only [hbrowse, hfts]
  constructor
  · intro h w hw hsourced
    have hwork : base.work.lookup w.id = some w := lookup_of_mem hw
    have hlisted := (isSome_lookup_refreshBrowseCatalogue hwork).symm.trans (h w.id)
    simpa only [hsourced, hwork, true_and, Option.some.injEq, exists_eq_left']
      using hlisted
  · intro h w
    apply isSome_lookup_pruned.trans
    apply and_congr_right
    intro hsourced
    obtain ⟨work, hwork⟩ := exists_work_of_sourced hsourced
    obtain ⟨hmem, rfl⟩ := lookup_eq_some.mp hwork
    have hlisted := h work hmem hsourced
    rw [hwork, Option.bind_some, isSome_browseRow]
    simpa only [key_work, Option.some.injEq, exists_eq_left'] using hlisted

end Agree

/-- A work that only its Suwayomi source has a title for. -/
def untitledWork : Base :=
  { Base.empty with
    work := oneWork none
    sourceSeries := ⟨[⟨"s", "w", "suwayomi", "1", "7", none, false, none⟩], by decide⟩
    suwayomiSeries := ⟨[librarySeries 7 "Dawn" 1 none], by decide⟩
    sourceSeries_work := by decide }

end Komika.Feed.Browse
