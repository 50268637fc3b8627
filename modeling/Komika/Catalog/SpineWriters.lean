import Komika.Cache.SpineMirror
import Komika.Catalog.Coverage

/-!
# The writers of the spine and the ledger

Each writer from end to end, with the points at which it may fail: a
`put_chapters` of the series cache, a page of the chapter firehose with the
flush of the mappings it touched, a batch of the `readable_at` backfill, the
two drains of `catalog/spine.rs`, and the seed that runs behind them.

All of them write chapters and events and nothing else of the catalogue
(`LedgerWrite`).

The modules about runs take one lemma for each writer from here.

* `ledgerWrite_putChapters`, `ledgerWrite_firehosePage`, `ledgerWrite_fillReadable`,
  `ledgerWrite_drainChapterKeys`, `ledgerWrite_drainSeries` and `ledgerWrite_seedLedger`
  — the frame of each writer;
* `LedgerWrite.trans` — and of one after the other;
* `Drained`, `KeepsRest` — a spine with nothing remaining, and what keeps it so;
* `drained_put_iff` — when a `put_chapters` leaves the spine at rest.
-/

namespace Komika.Catalog.SpineWriters

open Komika.Lib
open Komika.Catalog.Schema Komika.Catalog.Database Komika.Catalog.Ingest
open Komika.Catalog.Ledger Komika.Catalog.Runs Komika.Catalog.Events
open Komika.Catalog.Integrity Komika.Catalog.Anchors
open Komika.Catalog.SpineKeys Komika.Catalog.Seeding Komika.Catalog.Coverage
open Komika.Cache.SeriesCache Komika.Cache.Replacement Komika.Cache.SpineMirror
open Komika.Feed.Schema (SuwayomiChapter)

/-- The pure functions the writers call. -/
structure WriterRules (ν : Type) where
  text : TextRules
  cache : CacheRules ν

variable {ν : Type}

/-- The rules of the spine among them. -/
def WriterRules.spine (rules : WriterRules ν) : SpineRules :=
  spineRules rules.cache.labels rules.cache.strftimeSeconds

/-- The rules of the catalogue among them. -/
def WriterRules.catalogue (rules : WriterRules ν) : Rules :=
  ⟨rules.text, rules.spine⟩

/-! ## The series cache

The transaction of the cache is over before the spine is written; each of the two may
fail without the other. -/

/-- A call of `put_chapters`. -/
structure Put where
  mangaId : Int
  /-- The list, each chapter with the id minted for its spine row. -/
  chapters : List (Id × SuwayomiChapter)
  /-- `replace_source_chapters` fails, which is swallowed. -/
  spineFails : Bool
  /-- `spine::remaining` or `record_source_series` fails, which is swallowed. -/
  ledgerFails : Bool

/-- The cache after its transaction; `none` if the list is the cached one, or
the transaction fails. -/
def Put.rewritten (put : Put) (cache : Table SuwayomiChapter) (db : Db) :
    Option (Table SuwayomiChapter) :=
  let chapters := put.chapters.map Prod.snd
  if db.suwayomiSeries.rows.any fun sy => sy.id = put.mangaId then
    if digest (cachedChapters cache put.mangaId) = digest chapters then none
    else rewriteCache put.mangaId chapters cache
  else none

/-- The mapping that `write_chapters_to_spine` finds, and the spine it leaves;
`none` if there is no mapping or the write fails. -/
def Put.written (rules : WriterRules ν) (put : Put) (db : Db) : Option (Id × Db) :=
  match mappingOf db put.mangaId with
  | none => none
  | some ssid =>
      if put.spineFails then none
      else match replaceSourceChapters rules.spine ssid
          (put.chapters.map fun c => (c.1, suwayomiChapterInput rules.cache c.2)) db with
        | .ok (_, db) => some (ssid, db)
        | .error _ => none

/-- `put_chapters`: the cache, then the spine, then the ledger if the spine has
nothing remaining. -/
def putChapters (rules : WriterRules ν) (nowMs : Int) (put : Put)
    (cache : Table SuwayomiChapter) (db : Db) : Table SuwayomiChapter × Db :=
  match put.rewritten cache db with
  | none => (cache, db)
  | some cache =>
      match put.written rules db with
      | none => (cache, db)
      | some (ssid, db) =>
          if Cache.SeriesCache.remaining cache db = (0, 0) && !put.ledgerFails then
            (cache, recordSourceSeries rules.spine ssid nowMs db)
          else (cache, db)

/-! ## The firehose

A page is a loop over its records, each with its own check and upsert, and then one
flush for the mappings that were touched. -/

/-- `chapter_row_unchanged`, when its read succeeds. -/
def chapterRowUnchanged (sourceSeriesId : Id) (ch : ChapterInput) (db : Db) : Bool :=
  match db.chapter.rows.find? fun c =>
      c.sourceSeriesId = sourceSeriesId && c.externalId = ch.externalId with
  | none => false
  | some c =>
      c.number = ch.number && c.volume = ch.volume && c.lang = ch.lang &&
        c.title = ch.title && c.publishedAt = ch.publishedAt &&
        c.readableAt = ch.readableAt && c.externalUrl = ch.externalUrl

/-- An English chapter of a page whose mapping was found. -/
structure PageChapter where
  newChapterId : Id
  sourceSeriesId : Id
  chapter : ChapterInput
  /-- `chapter_row_unchanged` reads the row. -/
  rereads : Bool
  /-- `upsert_chapter` does not fail for a reason of its own. -/
  writes : Bool

/-- A page of the firehose, and the flush behind it. -/
structure Page where
  chapters : List PageChapter
  /-- The touched mappings that `record_source_series` succeeds for, in the order
  the set is drained in. -/
  recorded : List Id

/-- The body of the record loop: the mappings touched, and the database. -/
def storeChapter (rules : WriterRules ν) (s : List Id × Db) (p : PageChapter) :
    List Id × Db :=
  if p.rereads && chapterRowUnchanged p.sourceSeriesId p.chapter s.2 then s
  else if !p.writes then s
  else match upsertChapter rules.spine p.newChapterId p.sourceSeriesId p.chapter s.2 with
    | .ok (_, db) => (p.sourceSeriesId :: s.1, db)
    | .error _ => s

/-- The record loop: the chapters of a page in turn, with the mappings that they have
touched. -/
def Page.written (rules : WriterRules ν) (page : Page) (db : Db) : List Id × Db :=
  page.chapters.foldl (storeChapter rules) ([], db)

/-- The mappings that `flush_touched_feed_rows` records. -/
def Page.flushed (rules : WriterRules ν) (page : Page) (db : Db) : List Id :=
  page.recorded.filter fun ssid => (page.written rules db).1.contains ssid

/-- A page of `sync_chapters`. -/
def firehosePage (rules : WriterRules ν) (nowMs : Int) (page : Page) (db : Db) : Db :=
  recordAll rules.spine nowMs (page.flushed rules db) (page.written rules db).2

/-! ## The backfill

It sets two columns by id, and nothing that a key is computed from. -/

/-- What `write_readable_backfill` resolves for a row. -/
structure ReadableFill where
  chapterId : Id
  readableAt : String
  /-- `external_url`, where upstream answered. -/
  externalUrl : Option (Option String)
deriving DecidableEq

/-- `SET readable_at = ?`, and `external_url = ?` with it. -/
def ReadableFill.set (fill : ReadableFill) (c : Chapter) : Chapter :=
  { c with
    readableAt := some fill.readableAt
    externalUrl := fill.externalUrl.getD c.externalUrl }

theorem ReadableFill.set_keepsKeys (fill : ReadableFill) :
    Table.KeepsKeys fill.set := fun _ _ => rfl

/-- The update of one row of the batch. -/
def fillOne (t : Table Chapter) (fill : ReadableFill) : Table Chapter :=
  t.update (fun c => c.id = fill.chapterId) fill.set fill.set_keepsKeys

/-- The transaction of `write_readable_backfill`. -/
def fillReadable (fills : List ReadableFill) (db : Db) : Db :=
  { db with chapter := fills.foldl fillOne db.chapter }

/-! ## The drains and the seed

The drains run until nothing remains, and the seed of the ledger runs behind them. -/

/-- `drain_chapter_keys`: a key and a label for each row that has none. -/
def drainChapterKeys (rules : WriterRules ν) (db : Db) : Db :=
  writeKeys rules.cache.labels (unkeyed db) db

/-- The loop of `drain_suwayomi_series`, which an error ends; `newId` is what
`new_id` returns for a chapter of a mapping. -/
def drainSeries (rules : WriterRules ν) (newId : Id → Int → Id)
    (cache : Table SuwayomiChapter) : List (Id × Int) → Db → Db
  | [], db => db
  | (ssid, mangaId) :: rest, db =>
      match cachedChapters cache mangaId with
      | [] => drainSeries rules newId cache rest db
      | chapters =>
          match replaceSourceChapters rules.spine ssid (chapters.map fun c =>
              (newId ssid c.id, suwayomiChapterInput rules.cache c)) db with
          | .ok (_, db) => drainSeries rules newId cache rest db
          | .error _ => db

/-- `drain_suwayomi_series`: spine rows for each cached series that has none. -/
def drainSuwayomiSeries (rules : WriterRules ν) (newId : Id → Int → Id)
    (cache : Table SuwayomiChapter) (db : Db) : Db :=
  drainSeries rules newId cache (pendingSeries cache db) db

/-- `seed_ledger_if_spine_complete`: waits until the two drains have nothing left. -/
def seedLedgerIfSpineComplete (rules : WriterRules ν) (nowMs : Int)
    (cache : Table SuwayomiChapter) (db : Db) : Option Nat × Db :=
  if Cache.SeriesCache.remaining cache db ≠ (0, 0) then (none, db)
  else ((seedBatch rules.spine nowMs db).1, (seedBatch rules.spine nowMs db).2)

/-! ## What they write

A relation between databases that is reflexive and transitive, so that a run of any of
the writers is one step of it. -/

/-- Only chapters and events are written: chapters of mappings that exist or
had some, and events of works that have mappings or had some. -/
structure LedgerWrite (before after : Db) : Prop where
  frame : after = { before with
    chapter := after.chapter
    releaseEvent := after.releaseEvent }
  owned : ∀ c ∈ after.chapter,
    (∃ old ∈ before.chapter, old.sourceSeriesId = c.sourceSeriesId) ∨
      HasMapping before c.sourceSeriesId
  events : ∀ e ∈ after.releaseEvent,
    (∃ old ∈ before.releaseEvent, old.workId = e.workId) ∨
      ∃ ss ∈ before.sourceSeries, ss.workId = e.workId

section Frames

variable {rules : WriterRules ν} {nowMs : Int} {db db' before after : Db}

theorem LedgerWrite.refl (db : Db) : LedgerWrite db db where
  frame := rfl
  owned c hc := .inl ⟨c, hc, rfl⟩
  events e he := .inl ⟨e, he, rfl⟩

/-- The mappings are as they were. -/
theorem LedgerWrite.sourceSeries (h : LedgerWrite before after) :
    after.sourceSeries = before.sourceSeries := by rw [h.frame]

theorem LedgerWrite.trans {middle : Db} (h : LedgerWrite before middle)
    (h' : LedgerWrite middle after) : LedgerWrite before after where
  frame := by rw [h'.frame, h.frame]
  owned c hc := by
    rcases h'.owned c hc with ⟨old, hold, hss⟩ | hmapping
    · rw [← hss]
      exact h.owned old hold
    · refine .inr ?_
      unfold HasMapping at hmapping ⊢
      rwa [h.sourceSeries] at hmapping
  events e he := by
    rcases h'.events e he with ⟨old, hold, hwork⟩ | hmapping
    · rw [← hwork]
      exact h.events old hold
    · rw [h.sourceSeries] at hmapping
      exact .inr hmapping

/-- A write of chapters alone. -/
theorem LedgerWrite.of_chapters {t : Table Chapter}
    (howned : ∀ c ∈ t,
      (∃ old ∈ db.chapter, old.sourceSeriesId = c.sourceSeriesId) ∨
        HasMapping db c.sourceSeriesId) :
    LedgerWrite db { db with chapter := t } where
  frame := rfl
  owned := howned
  events e he := .inl ⟨e, he, rfl⟩

theorem ledgerWrite_writeChapter {row : Chapter} (h : writeChapter row db = .ok db') :
    LedgerWrite db db' := by
  obtain ⟨t, rfl⟩ := writeChapter_ok h
  apply LedgerWrite.of_chapters
  intro c hc
  rcases mem_of_writeChapter h with ⟨-, hmem⟩ | ⟨hnone, hmem⟩
  · obtain ⟨old, hold, rfl⟩ := (hmem c).mp hc
    refine .inl ⟨old, hold, ?_⟩
    split <;> rfl
  · rcases (hmem c).mp hc with hold | rfl
    · exact .inl ⟨c, hold, rfl⟩
    · -- there was no row with its key, so the mapping was looked up
      refine .inr ?_
      unfold writeChapter at h
      dsimp only at h
      split at h
      · next hany =>
          obtain ⟨old, hold, hsame⟩ := List.any_eq_true.mp hany
          simp only [Bool.and_eq_true, decide_eq_true_eq] at hsame
          exact absurd hsame (hnone old hold)
      · split at h
        · next hmapping =>
            obtain ⟨ss, hss, hid⟩ := List.any_eq_true.mp hmapping
            exact ⟨ss, hss, of_decide_eq_true hid⟩
        · contradiction

theorem ledgerWrite_writeChapters {rows : List Chapter}
    (h : writeChapters rows db = .ok db') : LedgerWrite db db' := by
  induction rows generalizing db with
  | nil =>
      cases h
      exact .refl db'
  | cons row rows ih =>
      rw [writeChapters, List.foldlM_cons] at h
      cases hwrite : writeChapter row db with
      | error e =>
          rw [hwrite] at h
          contradiction
      | ok db₁ =>
          rw [hwrite] at h
          exact (ledgerWrite_writeChapter hwrite).trans (ih h)

theorem ledgerWrite_upsertChapter {newId ssid : Id} {ch : ChapterInput} {u : Unit}
    (h : upsertChapter rules.spine newId ssid ch db = .ok (u, db')) :
    LedgerWrite db db' := by
  unfold upsertChapter at h
  split at h
  · cases h
    exact .refl db
  · split at h
    · next hwrite =>
        cases h
        exact ledgerWrite_writeChapter hwrite
    · contradiction

theorem ledgerWrite_replaceSourceChapters {ssid : Id}
    {chapters : List (Id × ChapterInput)} {u : Unit}
    (h : replaceSourceChapters rules.spine ssid chapters db = .ok (u, db')) :
    LedgerWrite db db' := by
  unfold replaceSourceChapters at h
  dsimp only at h
  split at h
  · next db₁ hwrite =>
      cases h
      apply (ledgerWrite_writeChapters hwrite).trans
      apply LedgerWrite.of_chapters
      intro c hc
      exact .inl ⟨c, (Table.mem_deleteWhere.mp hc).1, rfl⟩
  · contradiction

/-- Seeding and recording add events of works that have mappings. -/
theorem ledgerWrite_seeded {p : SourceSeries → Bool} :
    LedgerWrite db { db with
      releaseEvent := db.releaseEvent.insertAllOrIgnore
        (firstPerKey (announcements rules.spine nowMs p db)) } where
  frame := rfl
  owned c hc := .inl ⟨c, hc, rfl⟩
  events e he := by
    rcases workId_of_mem_seeded he with he | hmapping
    · exact .inl ⟨e, he, rfl⟩
    · exact .inr hmapping

theorem ledgerWrite_recordAll (ssids : List Id) :
    LedgerWrite db (recordAll rules.spine nowMs ssids db) := by
  induction ssids generalizing db with
  | nil => exact .refl db
  | cons ssid ssids ih => exact ledgerWrite_seeded.trans ih

theorem ledgerWrite_putChapters (put : Put) (cache : Table SuwayomiChapter) :
    LedgerWrite db (putChapters rules nowMs put cache db).2 := by
  unfold putChapters
  split
  · exact .refl db
  · split
    · exact .refl db
    · next cache' _ ssid written hwritten =>
        have hwrite : LedgerWrite db written := by
          unfold Put.written at hwritten
          split at hwritten
          · contradiction
          · split at hwritten
            · contradiction
            · split at hwritten
              · next hreplace =>
                  cases hwritten
                  exact ledgerWrite_replaceSourceChapters hreplace
              · contradiction
        split
        · exact hwrite.trans ledgerWrite_seeded
        · exact hwrite

theorem ledgerWrite_storeChapter (s : List Id × Db) (p : PageChapter) :
    LedgerWrite s.2 (storeChapter rules s p).2 := by
  unfold storeChapter
  split
  · exact .refl _
  · split
    · exact .refl _
    · split
      · next hok => exact ledgerWrite_upsertChapter hok
      · exact .refl _

theorem ledgerWrite_written (page : Page) :
    LedgerWrite db (page.written rules db).2 := by
  have hfold : ∀ (chapters : List PageChapter) (s : List Id × Db),
      LedgerWrite s.2 (chapters.foldl (storeChapter rules) s).2 := by
    intro chapters
    induction chapters with
    | nil => exact fun s => .refl s.2
    | cons p chapters ih =>
        exact fun s => (ledgerWrite_storeChapter s p).trans (ih _)
  exact hfold page.chapters ([], db)

theorem ledgerWrite_firehosePage (page : Page) :
    LedgerWrite db (firehosePage rules nowMs page db) :=
  (ledgerWrite_written page).trans (ledgerWrite_recordAll _)

/-- A rewrite of rows in place keeps their mappings. -/
theorem ledgerWrite_update {p : Chapter → Bool} {f : Chapter → Chapter}
    (hf : Table.KeepsKeys f) (hmapping : ∀ c, (f c).sourceSeriesId = c.sourceSeriesId) :
    LedgerWrite db { db with chapter := db.chapter.update p f hf } := by
  apply LedgerWrite.of_chapters
  intro c hc
  obtain ⟨old, hold, rfl⟩ := (Table.mem_update (h := hf)).mp hc
  refine .inl ⟨old, hold, ?_⟩
  split
  · exact (hmapping old).symm
  · rfl

theorem ledgerWrite_fillReadable (fills : List ReadableFill) :
    LedgerWrite db (fillReadable fills db) := by
  unfold fillReadable
  induction fills generalizing db with
  | nil => exact .refl db
  | cons fill fills ih =>
      exact (ledgerWrite_update fill.set_keepsKeys fun _ => rfl).trans
        (@ih { db with chapter := fillOne db.chapter fill })

theorem ledgerWrite_drainChapterKeys : LedgerWrite db (drainChapterKeys rules db) := by
  have hfold : ∀ (rows : List KeyRow) (db : Db),
      LedgerWrite db (writeKeys rules.cache.labels rows db) := by
    intro rows
    induction rows with
    | nil => exact .refl
    | cons r rows ih =>
        intro db
        exact (ledgerWrite_update (setKey_keepsKeys _) fun _ => rfl).trans
          (ih { db with chapter := writeKey rules.cache.labels db.chapter r })
  exact hfold (unkeyed db) db

theorem ledgerWrite_drainSeries (newId : Id → Int → Id)
    (cache : Table SuwayomiChapter) (pending : List (Id × Int)) :
    LedgerWrite db (drainSeries rules newId cache pending db) := by
  induction pending generalizing db with
  | nil => exact .refl db
  | cons p pending ih =>
      unfold drainSeries
      split
      · exact ih
      · split
        · next hok => exact (ledgerWrite_replaceSourceChapters hok).trans ih
        · exact .refl db

theorem ledgerWrite_seedLedger (cache : Table SuwayomiChapter) :
    LedgerWrite db (seedLedgerIfSpineComplete rules nowMs cache db).2 := by
  have hworks : ∀ (works : List Id) (db : Db),
      LedgerWrite db (seedWorks rules.spine nowMs works db) := by
    intro works
    induction works with
    | nil => exact .refl
    | cons w works ih => exact fun db => ledgerWrite_seeded.trans (ih _)
  unfold seedLedgerIfSpineComplete
  split
  · exact .refl db
  · unfold seedBatch
    dsimp only
    split
    · exact .refl db
    · exact hworks _ db

end Frames

/-! ## The spine at rest

`remaining` of `catalog/spine.rs` counts the rows without a key and the mappings whose
cached chapters are not in the spine.  The ledger is only seeded when both are 0. -/

/-- A Suwayomi mapping whose series has cached chapters. -/
def Cached (cache : Table SuwayomiChapter) (ss : SourceSeries) : Prop :=
  ss.sourceType = "suwayomi" ∧
    ∃ c ∈ cache, c.mangaId = castInteger ss.sourceKey

/-- The mapping has a chapter. -/
def HasRows (db : Db) (ssid : Id) : Prop :=
  ∃ c ∈ db.chapter, c.sourceSeriesId = ssid

/-- No chapter waits for its key. -/
def Keyed (db : Db) : Prop := ∀ c ∈ db.chapter, c.chapterKey ≠ none

/-- The spine has nothing remaining. -/
structure Drained (cache : Table SuwayomiChapter) (db : Db) : Prop where
  keyed : Keyed db
  materialised : ∀ ss ∈ db.sourceSeries, Cached cache ss → HasRows db ss.id

section Drained

variable {rules : WriterRules ν} {cache cache' : Table SuwayomiChapter}
  {db db' : Db}

/-- What `remaining` counts is what a spine at rest has none of. -/
theorem remaining_eq_zero_iff :
    Cache.SeriesCache.remaining cache db = (0, 0) ↔ Drained cache db := by
  have hkeyed : (db.chapter.rows.countP fun c => c.chapterKey = none) = 0 ↔
      Keyed db := by
    rw [List.countP_eq_zero]
    simp only [decide_eq_true_eq]
    exact Iff.rfl
  have hmaterialised : db.sourceSeries.rows.countP (unmaterialised cache db) = 0 ↔
      ∀ ss ∈ db.sourceSeries, Cached cache ss → HasRows db ss.id := by
    rw [List.countP_eq_zero]
    apply forall₂_congr
    intro ss _
    have hcached : cachedChapters cache (castInteger ss.sourceKey) ≠ [] ↔
        ∃ c ∈ cache, c.mangaId = castInteger ss.sourceKey := by
      rw [cachedChapters, Ne, List.filter_eq_nil_iff]
      simp only [Table.mem_rows, decide_eq_true_eq]
      push Not
      rfl
    unfold unmaterialised Cached HasRows
    simp only [Bool.and_eq_true, decide_eq_true_eq, List.all_eq_true, Table.mem_rows,
      hcached]
    push Not
    exact and_imp.symm
  rw [Cache.SeriesCache.remaining, Prod.mk.injEq, hkeyed, hmaterialised]
  exact ⟨fun h => ⟨h.1, h.2⟩, fun h => ⟨h.keyed, h.materialised⟩⟩

/-- Nothing is drained from a spine at rest. -/
theorem drainChapterKeys_of_drained (h : Drained cache db) :
    drainChapterKeys rules db = db := by
  have hnone : unkeyed db = [] := by
    unfold unkeyed
    rw [List.filter_eq_nil_iff.mpr]
    · rfl
    · intro c hc
      simpa using h.keyed c hc
  rw [drainChapterKeys, hnone]
  rfl

theorem drainSuwayomiSeries_of_drained {newId : Id → Int → Id} (h : Drained cache db) :
    drainSuwayomiSeries rules newId cache db = db := by
  have hnone : pendingSeries cache db = [] := by
    have hzero := congrArg Prod.snd (remaining_eq_zero_iff.mpr h)
    have hempty : db.sourceSeries.rows.filter (unmaterialised cache db) = [] := by
      rw [List.filter_eq_nil_iff]
      exact List.countP_eq_zero.mp hzero
    rw [pendingSeries, hempty]
    rfl
  rw [drainSuwayomiSeries, hnone]
  rfl

/-- Nothing is seeded in a ledger that covers the spine. -/
theorem seedLedger_of_covered {nowMs : Int} (h : Covered rules.spine nowMs db) :
    (seedLedgerIfSpineComplete rules nowMs cache db).2 = db := by
  have hnone : pendingWorks rules.spine nowMs db = [] := pendingRows_eq_nil_iff.mp h
  unfold seedLedgerIfSpineComplete seedBatch
  split
  · rfl
  · rw [hnone]
    rfl

/-- A chapter that is written is keyed. -/
theorem keyed_writeChapter {row : Chapter} (hrow : row.chapterKey ≠ none)
    (hok : writeChapter row db = .ok db') (h : Keyed db) : Keyed db' := by
  intro c hc
  rcases mem_of_writeChapter hok with ⟨-, hmem⟩ | ⟨-, hmem⟩
  · obtain ⟨old, hold, rfl⟩ := (hmem c).mp hc
    split
    · exact hrow
    · exact h old hold
  · rcases (hmem c).mp hc with hold | rfl
    · exact h c hold
    · exact hrow

theorem keyed_writeChapters {rows : List Chapter}
    (hrows : ∀ row ∈ rows, row.chapterKey ≠ none)
    (hok : writeChapters rows db = .ok db') (h : Keyed db) : Keyed db' := by
  induction rows generalizing db with
  | nil =>
      cases hok
      exact h
  | cons row rows ih =>
      rw [writeChapters, List.foldlM_cons] at hok
      cases hwrite : writeChapter row db with
      | error e =>
          rw [hwrite] at hok
          contradiction
      | ok db₁ =>
          rw [hwrite] at hok
          apply ih (fun r hr => hrows r (List.mem_cons_of_mem _ hr)) hok
          exact keyed_writeChapter (hrows row List.mem_cons_self) hwrite h

/-- No mapping loses its rows to an upsert. -/
theorem hasRows_writeChapter {row : Chapter} {ssid : Id}
    (hok : writeChapter row db = .ok db') (h : HasRows db ssid) : HasRows db' ssid := by
  obtain ⟨c, hc, hss⟩ := h
  rcases mem_of_writeChapter hok with ⟨-, hmem⟩ | ⟨-, hmem⟩
  · refine ⟨_, (hmem _).mpr ⟨c, hc, rfl⟩, ?_⟩
    split <;> exact hss
  · exact ⟨c, (hmem c).mpr (.inl hc), hss⟩

/-- After a replacement the rows of other mappings are as they were, and the
mapping has a row for each chapter. -/
theorem mem_replaceSourceChapters {ssid : Id} {chapters : List (Id × ChapterInput)}
    {u : Unit} (hexts : ∀ x ∈ chapters, x.2.externalId ≠ "")
    (hok : replaceSourceChapters rules.spine ssid chapters db = .ok (u, db')) :
    (∀ c, c.sourceSeriesId ≠ ssid → (c ∈ db'.chapter ↔ c ∈ db.chapter)) ∧
      ∀ x ∈ chapters, HasRows db' ssid := by
  have hall : (chapters.filter fun c => c.2.externalId ≠ "") = chapters := by
    rw [List.filter_eq_self]
    intro x hx
    rw [decide_eq_true_eq]
    exact hexts x hx
  have hincoming : ((chapters.map fun c => c.2.externalId).filter fun e => e ≠ "") =
      chapters.map fun c => c.2.externalId := by
    rw [List.filter_eq_self]
    intro e he
    obtain ⟨x, hx, rfl⟩ := List.mem_map.mp he
    rw [decide_eq_true_eq]
    exact hexts x hx
  unfold replaceSourceChapters at hok
  dsimp only at hok
  rw [hall, hincoming] at hok
  split at hok
  · next db₁ hwrite =>
      cases hok
      have hwrote := wrote_writeChapters hwrite
      have hmap : (chapters.map Prod.snd).map ChapterInput.externalId =
          chapters.map fun c => c.2.externalId := by rw [List.map_map]; rfl
      -- a row that is deleted is one of the mapping that the list does not have
      have hgone : ∀ c ∈ db₁.chapter, c.id ∈ ((db.chapter.rows.filter fun c =>
          c.sourceSeriesId = ssid && !(chapters.map fun c => c.2.externalId).contains
            c.externalId).map Chapter.id) →
          c.sourceSeriesId = ssid ∧
            c.externalId ∉ chapters.map fun c => c.2.externalId := by
        intro c hc hin
        obtain ⟨old, hold, hid⟩ := List.mem_map.mp hin
        obtain ⟨hold, hkey⟩ := List.mem_filter.mp hold
        simp only [Bool.and_eq_true, decide_eq_true_eq, Bool.not_eq_true',
          List.contains_eq_mem, decide_eq_false_iff_not] at hkey
        have hstays : old ∈ db₁.chapter :=
          hwrote.kept old hold hkey.1 (by rw [hmap]; exact hkey.2)
        have hsame : old = c :=
          Table.eq_of_clash hstays hc (decide_eq_true (.inl hid))
        rw [← hsame]
        exact hkey
      constructor
      · intro c hcss
        rw [← hwrote.elsewhere c hcss, Table.mem_deleteWhere]
        refine ⟨fun h => h.1, fun hc => ⟨hc, ?_⟩⟩
        rw [List.contains_eq_mem, decide_eq_false_iff_not]
        exact fun hin => hcss (hgone c hc hin).1
      · intro x hx
        obtain ⟨c, hc, hcss, hcext⟩ :=
          hwrote.present x.2 (List.mem_map_of_mem hx)
        refine ⟨c, Table.mem_deleteWhere.mpr ⟨hc, ?_⟩, hcss⟩
        rw [List.contains_eq_mem, decide_eq_false_iff_not]
        intro hin
        exact (hgone c hc hin).2 (hcext ▸ List.mem_map_of_mem hx)
  · contradiction

theorem keyed_replaceSourceChapters {ssid : Id} {chapters : List (Id × ChapterInput)}
    {u : Unit} (hok : replaceSourceChapters rules.spine ssid chapters db = .ok (u, db'))
    (h : Keyed db) : Keyed db' := by
  unfold replaceSourceChapters at hok
  dsimp only at hok
  split at hok
  · next db₁ hwrite =>
      cases hok
      have hwritten : Keyed db₁ := by
        apply keyed_writeChapters _ hwrite h
        intro row hrow
        obtain ⟨x, -, rfl⟩ := List.mem_map.mp hrow
        exact Option.some_ne_none _
      exact fun c hc => hwritten c (Table.mem_deleteWhere.mp hc).1
  · contradiction

/-- A spine at rest stays at rest: chapters get keys, and no mapping loses its
rows. -/
structure KeepsRest (before after : Db) : Prop where
  mappings : after.sourceSeries = before.sourceSeries
  keyed : Keyed before → Keyed after
  rows : ∀ ssid, HasRows before ssid → HasRows after ssid

theorem KeepsRest.refl (db : Db) : KeepsRest db db := ⟨rfl, fun h => h, fun _ h => h⟩

theorem KeepsRest.trans {before middle after : Db} (h : KeepsRest before middle)
    (h' : KeepsRest middle after) : KeepsRest before after :=
  ⟨h'.mappings.trans h.mappings, fun hk => h'.keyed (h.keyed hk),
    fun ssid hr => h'.rows ssid (h.rows ssid hr)⟩

theorem KeepsRest.drained (h : KeepsRest db db') (hdrained : Drained cache db) :
    Drained cache db' where
  keyed := h.keyed hdrained.keyed
  materialised ss hss hcached := by
    rw [h.mappings] at hss
    exact h.rows _ (hdrained.materialised ss hss hcached)

theorem keepsRest_storeChapter (s : List Id × Db) (p : PageChapter) :
    KeepsRest s.2 (storeChapter rules s p).2 := by
  unfold storeChapter
  split
  · exact .refl _
  · split
    · exact .refl _
    · split
      · next db₁ hok =>
          refine ⟨(ledgerWrite_upsertChapter hok).sourceSeries, ?_, ?_⟩
          all_goals
            unfold upsertChapter at hok
            split at hok
          · cases hok
            exact fun h => h
          · split at hok
            · next hwrite =>
                cases hok
                exact keyed_writeChapter (Option.some_ne_none _) hwrite
            · contradiction
          · cases hok
            exact fun _ h => h
          · split at hok
            · next hwrite =>
                cases hok
                exact fun _ => hasRows_writeChapter hwrite
            · contradiction
      · exact .refl _

theorem keepsRest_written (page : Page) : KeepsRest db (page.written rules db).2 := by
  have hfold : ∀ (chapters : List PageChapter) (s : List Id × Db),
      KeepsRest s.2 (chapters.foldl (storeChapter rules) s).2 := by
    intro chapters
    induction chapters with
    | nil => exact fun s => .refl s.2
    | cons p chapters ih =>
        exact fun s => (keepsRest_storeChapter s p).trans (ih _)
  exact hfold page.chapters ([], db)

/-- The record loop writes no event. -/
theorem releaseEvent_written (page : Page) :
    (page.written rules db).2.releaseEvent = db.releaseEvent := by
  have hone : ∀ (s : List Id × Db) (p : PageChapter),
      (storeChapter rules s p).2.releaseEvent = s.2.releaseEvent := by
    intro s p
    unfold storeChapter
    split
    · rfl
    · split
      · rfl
      · split
        · next hok =>
            obtain ⟨t, rfl⟩ := upsertChapter_ok hok
            rfl
        · rfl
  have hfold : ∀ (chapters : List PageChapter) (s : List Id × Db),
      (chapters.foldl (storeChapter rules) s).2.releaseEvent = s.2.releaseEvent := by
    intro chapters
    induction chapters with
    | nil => exact fun s => rfl
    | cons p chapters ih => exact fun s => (ih _).trans (hone s p)
  exact hfold page.chapters ([], db)

theorem keepsRest_fillReadable (fills : List ReadableFill) :
    KeepsRest db (fillReadable fills db) := by
  unfold fillReadable
  induction fills generalizing db with
  | nil => exact .refl db
  | cons fill fills ih =>
      refine KeepsRest.trans ?_ (@ih { db with chapter := fillOne db.chapter fill })
      have hmem : ∀ c, c ∈ fillOne db.chapter fill ↔ ∃ old ∈ db.chapter,
          c = if decide (old.id = fill.chapterId) = true then fill.set old else old :=
        fun c => Table.mem_update (h := fill.set_keepsKeys)
      refine ⟨rfl, fun h c hc => ?_, fun ssid hrows => ?_⟩
      · obtain ⟨old, hold, rfl⟩ := (hmem c).mp hc
        split
        · exact h old hold
        · exact h old hold
      · obtain ⟨old, hold, hss⟩ := hrows
        refine ⟨_, (hmem _).mpr ⟨old, hold, rfl⟩, ?_⟩
        split <;> exact hss

/-! ### The cache's own write -/

/-- The spine that a `put_chapters` leaves. -/
def Put.spine (rules : WriterRules ν) (put : Put) (db : Db) : Db :=
  match put.written rules db with
  | none => db
  | some (_, db) => db

/-- Every Suwayomi mapping of the series has rows: the list is written to it, or
it has some. -/
def Put.Materialises (rules : WriterRules ν) (put : Put) (db : Db) : Prop :=
  ∀ ss ∈ db.sourceSeries, ss.sourceType = "suwayomi" →
    (∃ c ∈ put.chapters, c.2.mangaId = castInteger ss.sourceKey) →
      (∃ written, put.written rules db = some (ss.id, written)) ∨ HasRows db ss.id

/-- What a list that is written leaves. -/
theorem Put.written_some {put : Put} {ssid : Id} {written : Db}
    (h : put.written rules db = some (ssid, written)) :
    LedgerWrite db written ∧ (Keyed db → Keyed written) ∧
      written.releaseEvent = db.releaseEvent ∧
      (∀ c, c.sourceSeriesId ≠ ssid → (c ∈ written.chapter ↔ c ∈ db.chapter)) ∧
      (∀ x ∈ put.chapters, HasRows written ssid) ∧
      ∃ ss ∈ db.sourceSeries, ss.sourceKey = toString put.mangaId ∧ ss.id = ssid := by
  unfold Put.written at h
  split at h
  · contradiction
  · next ssid' hmapping =>
      split at h
      · contradiction
      · split at h
        · next hok =>
            cases h
            have hexts : ∀ x ∈ put.chapters.map (fun c =>
                (c.1, suwayomiChapterInput rules.cache c.2)), x.2.externalId ≠ "" := by
              intro x hx
              obtain ⟨c, -, rfl⟩ := List.mem_map.mp hx
              exact toString_ne_empty c.2.id
            obtain ⟨helsewhere, hrows⟩ := mem_replaceSourceChapters hexts hok
            have hevent : written.releaseEvent = db.releaseEvent := by
              obtain ⟨t, rfl⟩ := replaceSourceChapters_ok hok
              rfl
            exact ⟨ledgerWrite_replaceSourceChapters hok,
              keyed_replaceSourceChapters hok, hevent, helsewhere,
              fun x hx => hrows _ (List.mem_map_of_mem hx),
              exists_of_mappingOf hmapping⟩
        · contradiction

/-- The list takes the place of what the cache had of the series. -/
theorem Put.mem_rewritten {put : Put} (h : put.rewritten cache db = some cache')
    {c : SuwayomiChapter} :
    c ∈ cache' ↔ (c ∈ cache ∧ c.mangaId ≠ put.mangaId) ∨ ∃ x ∈ put.chapters, x.2 = c := by
  unfold Put.rewritten at h
  dsimp only at h
  split at h
  · split at h
    · contradiction
    · rw [Table.mem_of_insertAll h, Table.mem_deleteWhere, decide_eq_false_iff_not,
        List.mem_map]
  · contradiction

/-- Only the rows of the mapping count. -/
theorem hasRows_congr {id : Id}
    (h : ∀ c : Chapter, c.sourceSeriesId = id → (c ∈ db'.chapter ↔ c ∈ db.chapter)) :
    HasRows db' id ↔ HasRows db id := by
  constructor
  · rintro ⟨c, hc, hss⟩
    exact ⟨c, (h c hss).mp hc, hss⟩
  · rintro ⟨c, hc, hss⟩
    exact ⟨c, (h c hss).mpr hc, hss⟩

/-- After the cache and the spine are written the spine is at rest exactly if
every mapping of the series has rows. -/
theorem drained_put_iff {put : Put} (hcache : put.rewritten cache db = some cache')
    (h : Drained cache db) :
    Drained cache' (put.spine rules db) ↔ put.Materialises rules db := by
  have hmem : ∀ c, c ∈ cache' ↔ (c ∈ cache ∧ c.mangaId ≠ put.mangaId) ∨
      ∃ x ∈ put.chapters, x.2 = c := fun c => Put.mem_rewritten hcache
  have hcachedOf : ∀ {ss x}, x ∈ put.chapters → ss.sourceType = "suwayomi" →
      x.2.mangaId = castInteger ss.sourceKey → Cached cache' ss :=
    fun hx htype hmanga => ⟨htype, _, (hmem _).mpr (.inr ⟨_, hx, rfl⟩), hmanga⟩
  cases hwritten : put.written rules db with
  | none =>
      have hspine : put.spine rules db = db := by
        rw [Put.spine, hwritten]
      rw [hspine]
      constructor
      · rintro hdrained ss hss htype ⟨x, hx, hmanga⟩
        exact .inr (hdrained.materialised ss hss (hcachedOf hx htype hmanga))
      · intro hmaterialises
        refine ⟨h.keyed, fun ss hss ⟨htype, c, hc, hmanga⟩ => ?_⟩
        rcases (hmem c).mp hc with ⟨hold, -⟩ | ⟨x, hx, rfl⟩
        · exact h.materialised ss hss ⟨htype, c, hold, hmanga⟩
        · rcases hmaterialises ss hss htype ⟨x, hx, hmanga⟩ with ⟨w, hw⟩ | hrows
          · rw [hwritten] at hw
            contradiction
          · exact hrows
  | some pair =>
      obtain ⟨ssid, written⟩ := pair
      obtain ⟨hwrite, hkeyed, -, helsewhere, hpresent, target, htarget, hkey, hid⟩ :=
        Put.written_some hwritten
      have hspine : put.spine rules db = written := by
        rw [Put.spine, hwritten]
      have hrows : ∀ id, id ≠ ssid → (HasRows written id ↔ HasRows db id) :=
        fun id hne => hasRows_congr fun c hc => helsewhere c (hc ▸ hne)
      rw [hspine]
      constructor
      · rintro hdrained ss hss htype ⟨x, hx, hmanga⟩
        rw [← hwrite.sourceSeries] at hss
        have hafter := hdrained.materialised ss hss (hcachedOf hx htype hmanga)
        by_cases htarget' : ss.id = ssid
        · exact .inl ⟨written, by rw [htarget', hwritten]⟩
        · exact .inr ((hrows ss.id htarget').mp hafter)
      · intro hmaterialises
        refine ⟨hkeyed h.keyed, fun ss hss ⟨htype, c, hc, hmanga⟩ => ?_⟩
        rw [hwrite.sourceSeries] at hss
        rcases (hmem c).mp hc with ⟨hold, hother⟩ | ⟨x, hx, rfl⟩
        · -- a mapping of another series is not the one that is written to
          have hne : ss.id ≠ ssid := by
            intro heq
            have hsame : ss = target :=
              Table.eq_of_clash hss htarget (decide_eq_true (.inl (heq.trans hid.symm)))
            rw [hsame, hkey, castInteger_toString] at hmanga
            exact hother hmanga
          exact (hrows ss.id hne).mpr
            (h.materialised ss hss ⟨htype, c, hold, hmanga⟩)
        · by_cases hssid : ss.id = ssid
          · rw [hssid]
            exact hpresent x hx
          · rcases hmaterialises ss hss htype ⟨x, hx, hmanga⟩ with ⟨w, hw⟩ | hold
            · rw [hwritten, Option.some.injEq, Prod.mk.injEq] at hw
              exact absurd hw.1.symm hssid
            · exact (hrows ss.id hssid).mpr hold

end Drained

end Komika.Catalog.SpineWriters
