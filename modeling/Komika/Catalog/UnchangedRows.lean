import Komika.Catalog.SpineWriters

/-!
# Chapters that the firehose does not write

`sync_chapters` asks `chapter_row_unchanged` before it writes a chapter, and
skips the upsert of a chapter whose row is as upstream has it.  The check
compares seven columns.  The upsert sets ten: also the scanlator, and the key
and the label, which it computes from the number and the title.

A skip is what the upsert would be exactly if the three others are as the
upsert would set them (`sweep_skips_iff`).  A row whose key is still missing, or
was written for another number, is therefore left as it is by a sweep that
would have given it its key.

The loop is compared with one that does not check, first on the database it leaves and
then with the flush behind a page.

* `chapterRowUnchanged_iff` and `refreshChapter_eq_self_iff` — what the check compares
  and what the upsert sets;
* `skipIsUpsert_iff_settled` — one chapter;
* `sweep_skips_iff` — every sweep, whatever fails in it;
* `firehosePage_unchecked` — the flush, where the mappings that were not touched are up
  to date;
* `not_skipIsUpsert_unkeyed` — a row that waits for its key.
-/

namespace Komika.Catalog.UnchangedRows

open Komika.Lib
open Komika.Catalog.Schema Komika.Catalog.Database
open Komika.Catalog.Ledger Komika.Catalog.SpineKeys Komika.Catalog.Coverage
open Komika.Catalog.SpineWriters

variable {ν : Type}

/-! ## What upstream sends

The fields that are copied; the others of a chapter are not read. -/

/-- The fields of a chapter of a page that `sync_chapters` copies. -/
structure UpstreamChapter where
  id : String
  chapter : Option String
  volume : Option String
  translatedLanguage : Option String
  title : Option String
  publishAt : Option String
  readableAt : Option String
  externalUrl : Option String
deriving DecidableEq

/-- The `ChapterInput` of a chapter: MangaDex has no scanlator on it. -/
def chapterInput (c : UpstreamChapter) : ChapterInput where
  externalId := c.id
  number := c.chapter
  volume := c.volume
  lang := c.translatedLanguage
  title := c.title
  publishedAt := c.publishAt
  readableAt := c.readableAt
  externalUrl := c.externalUrl
  scanlator := none

/-- A chapter of a page whose mapping was found, with the id that an insert
would mint for it and what fails. -/
structure Offered where
  newChapterId : Id
  sourceSeriesId : Id
  upstream : UpstreamChapter
  rereads : Bool
  writes : Bool

/-- The chapter as the record loop takes it. -/
def Offered.page (o : Offered) : PageChapter :=
  ⟨o.newChapterId, o.sourceSeriesId, chapterInput o.upstream, o.rereads, o.writes⟩

/-- `chapter_row_unchanged`: a read that fails does not say so. -/
def Offered.unchanged (o : Offered) (db : Db) : Bool :=
  o.rereads && chapterRowUnchanged o.sourceSeriesId (chapterInput o.upstream) db

/-- `upsert_chapter`, with what the upstream has offered. -/
def Offered.upserted (rules : WriterRules ν) (o : Offered) (db : Db) :
    Except CatalogError (Unit × Db) :=
  upsertChapter rules.spine o.newChapterId o.sourceSeriesId (chapterInput o.upstream) db

/-! ## Sweeps

A sweep is the record loop over the chapters of all its pages. -/

/-- The record loop of `sync_chapters` on one chapter. -/
def stored (rules : WriterRules ν) (db : Db) (o : Offered) : Db :=
  (storeChapter rules ([], db) o.page).2

/-- The chapter as a loop without the check would take it. -/
def Offered.unchecked (o : Offered) : Offered := { o with rereads := false }

/-- The database after a sweep. -/
def sweep (rules : WriterRules ν) (offered : List Offered) (db : Db) : Db :=
  Machine.run (stored rules) db offered

/-- A sweep that writes every chapter. -/
def sweepAll (rules : WriterRules ν) (offered : List Offered) (db : Db) : Db :=
  sweep rules (offered.map Offered.unchecked) db

/-! ## The seven columns and the three

The check is the comparison of seven; the conflict clause of the upsert sets ten. -/

/-- The columns that the check compares. -/
def SameColumns (c : Chapter) (ch : ChapterInput) : Prop :=
  c.number = ch.number ∧ c.volume = ch.volume ∧ c.lang = ch.lang ∧ c.title = ch.title ∧
    c.publishedAt = ch.publishedAt ∧ c.readableAt = ch.readableAt ∧
    c.externalUrl = ch.externalUrl

instance (c : Chapter) (ch : ChapterInput) : Decidable (SameColumns c ch) :=
  inferInstanceAs (Decidable (_ ∧ _))

/-- A row with no scanlator, and with the key and the label of its own number,
title and external id. -/
structure Settled (labels : LabelRules ν) (c : Chapter) : Prop where
  scanlator : c.scanlator = none
  chapterKey : c.chapterKey = some ((keyRow c).keyAndLabel labels).1
  label : c.label = some ((keyRow c).keyAndLabel labels).2

/-- The row that has the key of an upsert. -/
def HasKey (sourceSeriesId : Id) (externalId : String) (c : Chapter) : Prop :=
  c.sourceSeriesId = sourceSeriesId ∧ c.externalId = externalId

/-- The check finds a row and sees no difference. -/
theorem chapterRowUnchanged_iff {ssid : Id} {ch : ChapterInput} {db : Db} :
    chapterRowUnchanged ssid ch db = true ↔
      ∃ c ∈ db.chapter, HasKey ssid ch.externalId c ∧ SameColumns c ch := by
  have hclash : ∀ a b : Chapter, HasKey ssid ch.externalId a → HasKey ssid ch.externalId b →
      clash a b = true := by
    intro a b ha hb
    exact decide_eq_true (.inr ⟨ha.1.trans hb.1.symm, ha.2.trans hb.2.symm⟩)
  unfold chapterRowUnchanged
  constructor
  · intro h
    split at h
    · contradiction
    · next c hfind =>
        have hkey := List.find?_some hfind
        have hc : c ∈ db.chapter := Table.mem_rows.mp (List.mem_of_find?_eq_some hfind)
        simp only [Bool.and_eq_true, decide_eq_true_eq] at hkey h
        exact ⟨c, hc, hkey, by simpa [SameColumns, and_assoc] using h⟩
  · rintro ⟨c, hc, hkey, hsame⟩
    split
    · next hnone =>
        have hnot := List.find?_eq_none.mp hnone c (Table.mem_rows.mpr hc)
        simp [hkey.1, hkey.2] at hnot
    · next d hfind =>
        have hdkey := List.find?_some hfind
        have hd : d ∈ db.chapter := Table.mem_rows.mp (List.mem_of_find?_eq_some hfind)
        simp only [Bool.and_eq_true, decide_eq_true_eq] at hdkey
        have hdc : d = c := Table.eq_of_clash hd hc (hclash d c hdkey hkey)
        simpa [SameColumns, and_assoc, hdc] using hsame

/-- The conflict clause sets the seven columns, and the three. -/
theorem refreshChapter_eq_self_iff (rules : WriterRules ν) (newId : Id) {ssid : Id}
    {u : UpstreamChapter} {c : Chapter} (hkey : HasKey ssid u.id c) :
    refreshChapter (chapterRow rules.spine newId ssid (chapterInput u)) c = c ↔
      SameColumns c (chapterInput u) ∧ Settled rules.cache.labels c := by
  obtain ⟨id, cssid, ext, number, volume, lang, title, publishedAt, readableAt,
    externalUrl, scanlator, chapterKey, label⟩ := c
  obtain ⟨rfl, rfl⟩ := hkey
  simp only [refreshChapter, chapterRow, chapterInput, Chapter.mk.injEq, SameColumns,
    true_and]
  constructor
  · rintro ⟨rfl, rfl, rfl, rfl, rfl, rfl, rfl, rfl, rfl, rfl⟩
    exact ⟨⟨rfl, rfl, rfl, rfl, rfl, rfl, rfl⟩, ⟨rfl, rfl, rfl⟩⟩
  · rintro ⟨⟨rfl, rfl, rfl, rfl, rfl, rfl, rfl⟩, hscanlator, hchapterKey, hlabel⟩
    exact ⟨rfl, rfl, rfl, rfl, rfl, rfl, rfl, hscanlator.symm, hchapterKey.symm,
      hlabel.symm⟩

/-- Over a row with its key a write is an update. -/
theorem writeChapter_of_mem {row : Chapter} {db : Db}
    (h : ∃ c ∈ db.chapter, HasKey row.sourceSeriesId row.externalId c) :
    writeChapter row db = .ok { db with
      chapter := db.chapter.update
        (fun c => c.sourceSeriesId = row.sourceSeriesId && c.externalId = row.externalId)
        (refreshChapter row) (refreshChapter_keepsKeys row) } := by
  obtain ⟨c, hc, hkey⟩ := h
  unfold writeChapter
  dsimp only
  rw [if_pos (List.any_eq_true.mpr ⟨c, Table.mem_rows.mpr hc, by simp [hkey.1, hkey.2]⟩)]

/-- An upsert over a row changes nothing exactly if the row is as the conflict
clause would set it. -/
theorem upserted_eq_self_iff {rules : WriterRules ν} {o : Offered} {db : Db}
    (hid : o.upstream.id ≠ "") {c : Chapter} (hc : c ∈ db.chapter)
    (hkey : HasKey o.sourceSeriesId o.upstream.id c) :
    o.upserted rules db = .ok ((), db) ↔
      SameColumns c (chapterInput o.upstream) ∧ Settled rules.cache.labels c := by
  rw [← refreshChapter_eq_self_iff rules o.newChapterId hkey]
  have hother : ∀ d ∈ db.chapter, HasKey o.sourceSeriesId o.upstream.id d → d = c :=
    fun d hd hdkey => Table.eq_of_clash hd hc (decide_eq_true
      (.inr ⟨hdkey.1.trans hkey.1.symm, hdkey.2.trans hkey.2.symm⟩))
  have hid' : (chapterInput o.upstream).externalId ≠ "" := hid
  unfold Offered.upserted upsertChapter
  rw [if_neg hid', writeChapter_of_mem ⟨c, hc, hkey⟩]
  simp only [Except.ok.injEq, Prod.mk.injEq, true_and, chapterRow_sourceSeriesId,
    chapterRow_externalId]
  constructor
  · intro h
    have hchapter := congrArg Db.chapter h
    exact (Table.update_eq_self_iff (h := refreshChapter_keepsKeys _)).mp hchapter c hc
      (by simp [hkey.1, hkey.2, chapterInput])
  · intro h
    have hself : ∀ d ∈ db.chapter, (decide (d.sourceSeriesId = o.sourceSeriesId) &&
        decide (d.externalId = (chapterInput o.upstream).externalId)) = true →
        refreshChapter (chapterRow rules.spine o.newChapterId o.sourceSeriesId
          (chapterInput o.upstream)) d = d := by
      intro d hd hdkey
      simp only [Bool.and_eq_true, decide_eq_true_eq] at hdkey
      rw [hother d hd hdkey]
      exact h
    have hupdate := (Table.update_eq_self_iff (h := refreshChapter_keepsKeys _)).mpr hself
    exact congrArg (fun t => { db with chapter := t }) hupdate

/-! ## Skips and upserts

The chapter by chapter form, and the loop. -/

/-- The event that the row with the chapter's key announces at `nowMs`. -/
def rowEvent (rules : WriterRules ν) (nowMs : Int) (o : Offered) (db : Db) :
    List (Option (String × Int)) :=
  (db.chapter.rows.filter fun c =>
    c.sourceSeriesId = o.sourceSeriesId && c.externalId = o.upstream.id).map
      (seedable rules.spine nowMs)

/-- Where the check says that the row is unchanged, the upsert leaves every
column of every row as it is, and what the row announces. -/
def SkipIsUpsert (rules : WriterRules ν) (db : Db) (o : Offered) : Prop :=
  o.unchanged db = true →
    ∃ db', o.upserted rules db = .ok ((), db') ∧ db'.chapter = db.chapter ∧
      ∀ nowMs, rowEvent rules nowMs o db' = rowEvent rules nowMs o db

/-- A row that the check finds unchanged is settled; an empty id is never
written. -/
def UnchangedIsSettled (labels : LabelRules ν) (db : Db) (o : Offered) : Prop :=
  o.rereads = true → o.upstream.id ≠ "" →
    ∀ c ∈ db.chapter, HasKey o.sourceSeriesId o.upstream.id c →
      SameColumns c (chapterInput o.upstream) → Settled labels c

/-- An upsert that changes no chapter changes nothing. -/
theorem upserted_frame {rules : WriterRules ν} {o : Offered} {db db' : Db} {u : Unit}
    (h : o.upserted rules db = .ok (u, db')) (hchapter : db'.chapter = db.chapter) :
    db' = db := by
  obtain ⟨t, rfl⟩ := upsertChapter_ok h
  simp only at hchapter
  rw [hchapter]

/-- A chapter without an id is not written. -/
theorem upserted_of_empty {rules : WriterRules ν} {o : Offered} {db : Db}
    (h : o.upstream.id = "") : o.upserted rules db = .ok ((), db) :=
  if_pos h

/-- What a harmless skip says of the upsert. -/
theorem skipIsUpsert_iff {rules : WriterRules ν} {db : Db} {o : Offered} :
    SkipIsUpsert rules db o ↔
      (o.unchanged db = true → o.upserted rules db = .ok ((), db)) := by
  refine imp_congr_right fun _ => ?_
  constructor
  · rintro ⟨db', hok, hchapter, -⟩
    rw [hok, upserted_frame hok hchapter]
  · intro hok
    exact ⟨db, hok, rfl, fun _ => rfl⟩

/-- A skip is what the upsert would be exactly if the row is settled. -/
theorem skipIsUpsert_iff_settled (rules : WriterRules ν) (db : Db) (o : Offered) :
    SkipIsUpsert rules db o ↔ UnchangedIsSettled rules.cache.labels db o := by
  rw [skipIsUpsert_iff]
  constructor
  · intro hskip hrereads hid c hc hkey hsame
    have hunchanged : o.unchanged db = true := by
      rw [Offered.unchanged, hrereads, Bool.true_and, chapterRowUnchanged_iff]
      exact ⟨c, hc, hkey, hsame⟩
    exact ((upserted_eq_self_iff hid hc hkey).mp (hskip hunchanged)).2
  · intro hsettled hunchanged
    obtain ⟨hrereads, hrow⟩ := (Bool.and_eq_true _ _).mp hunchanged
    obtain ⟨c, hc, hkey, hsame⟩ := chapterRowUnchanged_iff.mp hrow
    by_cases hid : o.upstream.id = ""
    · exact upserted_of_empty hid
    · exact (upserted_eq_self_iff hid hc hkey).mpr
        ⟨hsame, hsettled hrereads hid c hc hkey hsame⟩

section Sweeps

variable {rules : WriterRules ν}

/-- What the loop does to a chapter that the check does not skip. -/
theorem stored_unchecked (db : Db) (o : Offered) :
    stored rules db o.unchecked =
      if o.writes then db.commit (o.upserted rules db) else db := by
  unfold stored storeChapter Offered.unchecked Offered.page Offered.upserted Db.commit
  cases o.writes with
  | false => simp
  | true =>
      simp only [Bool.false_and, Bool.false_eq_true, if_false, Bool.not_true, if_true]
      split <;> simp_all

/-- The loop either skips, or does what the loop without the check does. -/
theorem stored_eq (db : Db) (o : Offered) :
    stored rules db o =
      if o.unchanged db then db else stored rules db o.unchecked := by
  unfold stored storeChapter Offered.unchecked Offered.unchanged Offered.page
  by_cases h : o.rereads && chapterRowUnchanged o.sourceSeriesId (chapterInput o.upstream) db
  · simp [h]
  · simp [h]

/-- A step with the check does what a step without it would do. -/
theorem stored_eq_unchecked {db : Db} {o : Offered} (h : SkipIsUpsert rules db o) :
    stored rules db o = stored rules db o.unchecked := by
  rw [stored_eq]
  by_cases hunchanged : o.unchanged db = true
  · have hok := skipIsUpsert_iff.mp h hunchanged
    rw [if_pos hunchanged, stored_unchecked, hok]
    simp [Db.commit]
  · rw [if_neg hunchanged]

/-- So the sweep ends where one that writes every chapter ends. -/
theorem sweep_eq_sweepAll {db : Db} {offered : List Offered}
    (h : Machine.EachStep (stored rules) (SkipIsUpsert rules) db offered) :
    sweep rules offered db = sweepAll rules offered db := by
  induction offered generalizing db with
  | nil => rfl
  | cons o rest ih =>
      obtain ⟨ho, hrest⟩ := h
      have hstep := stored_eq_unchecked ho
      show sweep rules rest (stored rules db o) =
        sweepAll rules rest (stored rules db o.unchecked)
      rw [← hstep]
      exact ih hrest

end Sweeps

/-- **When skipping is upserting.**  From any database and over any chapters of any
pages, whatever fails: every skip is what the upsert would be, and the sweep ends in the
database in which a sweep that writes every chapter ends, exactly if every row that the
check finds unchanged is settled.  The check compares seven columns of the ten that an
upsert writes; a settled row has the other three as the upsert would write them. -/
theorem sweep_skips_iff (rules : WriterRules ν) (db : Db) (offered : List Offered) :
    (Machine.EachStep (stored rules) (SkipIsUpsert rules) db offered ∧
        sweep rules offered db = sweepAll rules offered db) ↔
      Machine.EachStep (stored rules) (UnchangedIsSettled rules.cache.labels) db
        offered := by
  have hstep : Machine.EachStep (stored rules) (SkipIsUpsert rules) db offered ↔
      Machine.EachStep (stored rules) (UnchangedIsSettled rules.cache.labels) db offered := by
    constructor
    · exact Machine.EachStep.mono fun db o => (skipIsUpsert_iff_settled rules db o).mp
    · exact Machine.EachStep.mono fun db o => (skipIsUpsert_iff_settled rules db o).mpr
  rw [← hstep]
  exact and_iff_left_of_imp sweep_eq_sweepAll

/-- A row from before the columns, which the drain has not reached. -/
def oneWithoutKey : Db :=
  { Db.empty with
    sourceSeries := ⟨[⟨"md1", "w", "mangadex", "mangadex", "m1", none, false, none⟩],
      by decide⟩
    chapter := ⟨[⟨"ch1", "md1", "u1", some "1", none, some "en", none,
      some "2020-01-01", none, none, none, none, none⟩], by decide⟩ }

/-- The chapter as upstream still has it. -/
def offeredAgain : Offered :=
  ⟨"ch2", "md1", ⟨"u1", some "1", none, some "en", none, some "2020-01-01", none, none⟩,
    true, true⟩

/-- Rules under which a chapter is its own label. -/
def plainWriterRules : WriterRules String :=
  ⟨Runs.plainRules.toTextRules, Cache.SpineMirror.plainCacheRules⟩

/-- The skip leaves the row without a key, and the upsert gives it one. -/
theorem not_skipIsUpsert_unkeyed :
    ¬SkipIsUpsert plainWriterRules oneWithoutKey offeredAgain ∧
      sweep plainWriterRules [offeredAgain] oneWithoutKey ≠
        sweepAll plainWriterRules [offeredAgain] oneWithoutKey := by
  have hkeys : (sweep plainWriterRules [offeredAgain] oneWithoutKey).chapter.rows.map
      Chapter.chapterKey = [none] := by decide +kernel
  have hall : (sweepAll plainWriterRules [offeredAgain] oneWithoutKey).chapter.rows.map
      Chapter.chapterKey = [some "100"] := by decide +kernel
  have hne : sweep plainWriterRules [offeredAgain] oneWithoutKey ≠
      sweepAll plainWriterRules [offeredAgain] oneWithoutKey := by
    intro heq
    rw [heq, hall] at hkeys
    contradiction
  exact ⟨fun hskip => hne (sweep_eq_sweepAll ⟨hskip, trivial⟩), hne⟩

/-! ## The flush behind a page

Only the mappings that were touched are recorded in the ledger, so a skip also leaves a
mapping out of the flush. -/

section Flush

variable {rules : WriterRules ν} {nowMs : Int}

/-- Every chapter of the mapping that can be announced has its event. -/
def UpToDate (rules : WriterRules ν) (nowMs : Int) (db : Db) (ssid : Id) : Prop :=
  ∀ r ∈ Seeding.spine db, r.1.id = ssid →
    (seedable rules.spine nowMs r.2).isSome = true → Seeding.recorded db r = true

/-- Recording a mapping that is up to date adds nothing. -/
theorem recordSourceSeries_of_upToDate {db : Db} {ssid : Id}
    (h : UpToDate rules nowMs db ssid) :
    recordSourceSeries rules.spine ssid nowMs db = db := by
  have htaken : ∀ e ∈ firstPerKey
      (announcements rules.spine nowMs (fun ss => ss.id = ssid) db),
      db.releaseEvent.taken e = true := by
    intro e he
    have hmem := (Seeding.of_mem_firstPerKey he).1
    simp only [announcements, List.mem_flatMap, List.mem_filterMap, List.mem_filter,
      Table.mem_rows, Option.map_eq_some_iff, decide_eq_true_eq] at hmem
    obtain ⟨ss, ⟨hss, hid⟩, c, ⟨hc, hon⟩, ⟨key, ms⟩, hseed, rfl⟩ := hmem
    have hrecorded := h (ss, c) (Seeding.mem_spine.mpr ⟨hss, hc, hon⟩) hid
      (Option.isSome_of_eq_some hseed)
    obtain ⟨e, he, hwork, hkey⟩ := Seeding.recorded_iff.mp hrecorded
    have hsame : key = e.chapterKey :=
      Option.some.inj ((Seeding.seedable_some hseed).1.symm.trans hkey)
    exact Table.taken_eq_true.mpr ⟨e, he, Events.clash_event.mpr ⟨hwork.symm, hsame⟩⟩
  unfold recordSourceSeries
  rw [Table.insertAllOrIgnore_of_taken htaken]

/-- The ledger only grows, so a mapping stays up to date. -/
theorem UpToDate.recorded {db : Db} {ssid : Id} (h : UpToDate rules nowMs db ssid)
    (other : Id) :
    UpToDate rules nowMs (recordSourceSeries rules.spine other nowMs db) ssid :=
  fun r hr hid hseed =>
    recorded_recordSourceSeries_iff.mpr (.inl (h r hr hid hseed))

/-- Mappings that are up to date can be left out of a flush. -/
theorem recordAll_filter {keep : Id → Bool} {ssids : List Id} {db : Db}
    (h : ∀ ssid ∈ ssids, keep ssid = false → UpToDate rules nowMs db ssid) :
    recordAll rules.spine nowMs (ssids.filter keep) db =
      recordAll rules.spine nowMs ssids db := by
  induction ssids generalizing db with
  | nil => rfl
  | cons ssid rest ih =>
      have hcons : recordAll rules.spine nowMs (ssid :: rest) db =
          recordAll rules.spine nowMs rest
            (recordSourceSeries rules.spine ssid nowMs db) := rfl
      have hrest : ∀ id ∈ rest, keep id = false →
          UpToDate rules nowMs (recordSourceSeries rules.spine ssid nowMs db) id :=
        fun id hid hkeep => (h id (List.mem_cons_of_mem _ hid) hkeep).recorded ssid
      rw [hcons]
      by_cases hkeep : keep ssid = true
      · rw [List.filter_cons_of_pos hkeep]
        exact ih hrest
      · rw [List.filter_cons_of_neg hkeep]
        have hssid := h ssid List.mem_cons_self (by simpa using hkeep)
        rw [recordSourceSeries_of_upToDate hssid] at hrest ⊢
        exact ih hrest

/-- What the loop writes does not depend on what it has touched. -/
theorem storeChapter_snd (rules : WriterRules ν) (touched : List Id) (db : Db) (o : Offered) :
    (storeChapter rules (touched, db) o.page).2 = stored rules db o := by
  unfold stored storeChapter
  dsimp only
  split_ifs
  · rfl
  · rfl
  · split <;> rfl

/-- The check only takes mappings away. -/
theorem storeChapter_fst_subset (rules : WriterRules ν) {touched all : List Id}
    (hsub : touched ⊆ all) (db : Db) (o : Offered) :
    (storeChapter rules (touched, db) o.page).1 ⊆
      (storeChapter rules (all, db) o.unchecked.page).1 := by
  unfold storeChapter Offered.page Offered.unchecked
  simp only [Bool.false_and, Bool.false_eq_true, if_false]
  by_cases hwrites : o.writes = true
  · simp only [hwrites, Bool.not_true, Bool.false_eq_true, if_false]
    split_ifs
    · split
      · exact List.subset_cons_of_subset _ hsub
      · exact hsub
    · split
      · exact List.cons_subset_cons _ hsub
      · exact hsub
  · simp only [hwrites, Bool.not_false, if_true]
    split_ifs <;> exact hsub

/-- The record loop of a page that writes every chapter reaches the same
database, and has touched no fewer mappings. -/
theorem written_unchecked {offered : List Offered} {touched all : List Id} {db : Db}
    (hsub : touched ⊆ all)
    (h : Machine.EachStep (stored rules) (SkipIsUpsert rules) db offered) :
    let loop := (offered.map Offered.page).foldl (storeChapter rules) (touched, db)
    let loopAll := (offered.map fun o => o.unchecked.page).foldl (storeChapter rules)
      (all, db)
    loop.1 ⊆ loopAll.1 ∧ loop.2 = loopAll.2 := by
  induction offered generalizing touched all db with
  | nil => exact ⟨hsub, rfl⟩
  | cons o rest ih =>
      obtain ⟨ho, hrest⟩ := h
      have hstep := storeChapter_snd rules touched db o
      have hstepAll := storeChapter_snd rules all db o.unchecked
      rw [← stored_eq_unchecked ho] at hstepAll
      have hfst := storeChapter_fst_subset rules hsub db o
      simp only [List.map_cons, List.foldl_cons]
      rw [← Prod.mk.eta (p := storeChapter rules (touched, db) o.page),
        ← Prod.mk.eta (p := storeChapter rules (all, db) o.unchecked.page), hstep, hstepAll]
      exact ih hfst hrest

/-- With the flush behind it: a page of settled rows ends as one that writes
every chapter, where the mappings that only the other one touches are up to
date. -/
theorem firehosePage_unchecked {offered : List Offered} {recorded : List Id} {db : Db}
    (hsettled : Machine.EachStep (stored rules) (UnchangedIsSettled rules.cache.labels) db
      offered) :
    let page : Page := ⟨offered.map Offered.page, recorded⟩
    let pageAll : Page := ⟨offered.map fun o => o.unchecked.page, recorded⟩
    (∀ ssid ∈ pageAll.flushed rules db, ssid ∉ page.flushed rules db →
      UpToDate rules nowMs (page.written rules db).2 ssid) →
    firehosePage rules nowMs page db = firehosePage rules nowMs pageAll db := by
  intro page pageAll hcurrent
  have hskip := Machine.EachStep.mono
    (fun db o => (skipIsUpsert_iff_settled rules db o).mpr) hsettled
  obtain ⟨htouched, hwritten⟩ : (page.written rules db).1 ⊆ (pageAll.written rules db).1 ∧
      (page.written rules db).2 = (pageAll.written rules db).2 :=
    written_unchecked (List.Subset.refl []) hskip
  have hflushed : page.flushed rules db =
      (pageAll.flushed rules db).filter fun ssid =>
        (page.written rules db).1.contains ssid := by
    unfold Page.flushed
    rw [List.filter_filter]
    refine List.filter_congr fun ssid _ => ?_
    by_cases hin : ssid ∈ (page.written rules db).1
    · simp [hin, htouched hin]
    · simp [hin]
  unfold firehosePage
  rw [← hwritten, hflushed]
  refine recordAll_filter fun ssid hssid hnot => hcurrent ssid hssid ?_
  intro hin
  rw [hflushed] at hin
  have hkept : (page.written rules db).1.contains ssid = true := (List.mem_filter.mp hin).2
  rw [hnot] at hkept
  contradiction

end Flush

end Komika.Catalog.UnchangedRows
