import Komika.Catalog.SpineWriters
import Komika.Chapters.Label
import Komika.Lib.Worklist
import Mathlib.Data.Finset.Dedup

/-!
# The backfill of the release clock

`backfill_chapter_external_urls` (`mangadex.rs`) reads up to a hundred MangaDex
rows with no `readable_at`, asks upstream for them and gives each one a time,
in one transaction: what upstream says, or else the row's own `published_at`, or
else its `created_at`.  There is no cursor: a row that has a time is off the list.

The list only gets shorter, and a drain that nothing adds to empties it.  A row
that upstream did not answer for keeps its url.  It keeps its release time too,
exactly if the time was not changed between the read and the write, and the
`published_at` that was read is one that the ladder takes as it is
(`backfill_fills_iff`): the ladder passes over a blank `published_at`, which the
readers' `COALESCE` does not.

* `mem_writeReadableBackfill` — the rows after a batch;
* `drain_step`, `drains` — the list as a work-list that is drained (`Lib.WorkList`);
* `readableAt_fillOf`, `ladder_of_clean` — what a row gets that upstream did not answer
  for;
* `backfill_fills_iff` — every run;
* `not_batchFills_blank_overtaken` — a blank time, and one that changed in between.
-/

namespace Komika.Mangadex.ReadableBackfill

open Komika.Lib
open Komika.Catalog.Schema Komika.Catalog.Database Komika.Catalog.Ledger
open Komika.Catalog.SpineWriters (ReadableFill fillOne fillReadable)
open Komika.Chapters.Label (trim nonEmpty)

/-! ## One row

The ladder: upstream's time, the row's own, or when it was seen. -/

/-- `READABLE_BACKFILL_BATCH`: the rows of one batch, and of one request. -/
def readableBackfillBatch : Nat := 100

/-- A row of the batch. -/
structure PendingChapter where
  id : Id
  externalId : String
  publishedAt : Option String
  createdAt : String
deriving DecidableEq

/-- What the backfill reads of `MdChapterAttrs`. -/
structure MdChapterAttrs where
  publishAt : Option String
  readableAt : Option String
  externalUrl : Option String
deriving DecidableEq

/-- What is written for it. -/
structure ResolvedChapter where
  readableAt : String
  externalUrl : Option String
  answered : Bool
deriving DecidableEq

/-- `present`: a blank text is no text. -/
def present (v : Option String) : Option String := (v.map trim).bind nonEmpty

/-- `resolve_readable_at`: the upstream's times in turn, else what the row has; a row
without an answer gets a time as well. -/
def resolveReadableAt (row : PendingChapter) (upstream : Option MdChapterAttrs) :
    ResolvedChapter where
  readableAt :=
    (((present (upstream.bind MdChapterAttrs.readableAt)).or
      (present (upstream.bind MdChapterAttrs.publishAt))).or
        (present row.publishedAt)).getD row.createdAt
  externalUrl := present (upstream.bind MdChapterAttrs.externalUrl)
  answered := upstream.isSome

/-- `by_id.get`: of two records with one id the map keeps the later. -/
def byId (upstream : List (String × MdChapterAttrs)) (externalId : String) :
    Option MdChapterAttrs :=
  (upstream.reverse.find? fun record => record.1 = externalId).map Prod.snd

/-! ## The statements

The read of a batch, and the transaction that writes it. -/

/-- The tables, and the column `created_at` of a chapter, by its id. -/
structure Mirror where
  db : Db
  createdAt : Id → String

/-- `WHERE c.readable_at IS NULL AND EXISTS …`. -/
def needsReadableAt (db : Db) (c : Chapter) : Bool :=
  c.readableAt = none && db.sourceSeries.rows.any fun ss =>
    ss.id = c.sourceSeriesId && ss.sourceType = "mangadex"

/-- The columns that are read. -/
def pendingChapter (m : Mirror) (c : Chapter) : PendingChapter :=
  ⟨c.id, c.externalId, c.publishedAt, m.createdAt c.id⟩

/-- `chapters_needing_readable_at`: the first rows of the list, with what they fall back
on. -/
def chaptersNeedingReadableAt (limit : Nat) (m : Mirror) : List PendingChapter :=
  ((m.db.chapter.rows.filter (needsReadableAt m.db)).take limit).map (pendingChapter m)

/-- `readable_backfill_remaining`: how long the list still is. -/
def readableBackfillRemaining (m : Mirror) : Nat :=
  (m.db.chapter.rows.filter (needsReadableAt m.db)).length

/-- `COALESCE(readable_at, published_at, created_at)`: a chapter has a time in any
case. -/
def clock (m : Mirror) (c : Chapter) : String :=
  (c.readableAt.or c.publishedAt).getD (m.createdAt c.id)

/-- What a batch moved: the source's `ReadableFill`. -/
structure BatchCounts where
  filled : Nat
  fromUpstream : Nat
  external : Nat
  unanswered : Nat
deriving DecidableEq

/-- What is set on a row: the url only where upstream answered. -/
def fillOf (upstream : List (String × MdChapterAttrs)) (row : PendingChapter) :
    ReadableFill :=
  let resolved := resolveReadableAt row (byId upstream row.externalId)
  ⟨row.id, resolved.readableAt,
    if resolved.answered then some resolved.externalUrl else none⟩

/-- `write_readable_backfill`: one transaction, every row by its id alone. -/
def writeReadableBackfill (pending : List PendingChapter)
    (upstream : List (String × MdChapterAttrs)) (db : Db) : BatchCounts × Db :=
  let answer (row : PendingChapter) := byId upstream row.externalId
  (⟨pending.length,
    pending.countP fun row => (answer row).any fun a => a.readableAt.isSome,
    pending.countP fun row => (resolveReadableAt row (answer row)).externalUrl.isSome,
    pending.countP fun row => (answer row).isNone⟩,
   fillReadable (pending.map (fillOf upstream)) db)

/-! ## Batches and the firehose

The answer of upstream comes between the two, and so may a write of the firehose. -/

/-- The mirror, and the batch that has been read and not yet written. -/
structure DrainState extends Mirror where
  inFlight : Option (List PendingChapter)

/-- A read, an answer, a failure, or a write of the firehose. -/
inductive Event where
  /-- The drain reads its work-list. -/
  | read
  /-- Upstream answers for some of the ids, and the batch is written. -/
  | answer (upstream : List (String × MdChapterAttrs))
  /-- The fetch fails, or the transaction does. -/
  | fail
  /-- The firehose upserts a chapter. -/
  | upsert (newId sourceSeriesId : Id) (ch : ChapterInput) (now : String)

/-- An insert stamps its row; an update leaves `created_at` as it is. -/
def stamp (m : Mirror) (newId : Id) (now : String) (id : Id) : String :=
  if id = newId ∧ ¬m.db.chapter.rows.any (fun c => c.id = newId) then now
  else m.createdAt id

/-- The state after an event. -/
def step (rules : SpineRules) (s : DrainState) : Event → DrainState
  | .read =>
      let pending := chaptersNeedingReadableAt readableBackfillBatch s.toMirror
      if s.inFlight = none ∧ pending ≠ [] then { s with inFlight := some pending } else s
  | .answer upstream =>
      match s.inFlight with
      | none => s
      | some pending =>
          { s with
            db := (writeReadableBackfill pending upstream s.db).2
            inFlight := none }
  | .fail => { s with inFlight := none }
  | .upsert newId sourceSeriesId ch now =>
      { s with
        db := s.db.commit (upsertChapter rules newId sourceSeriesId ch s.db)
        createdAt := stamp s.toMirror newId now }

/-- Nothing is in flight. -/
def start (db : Db) (createdAt : Id → String) : DrainState := ⟨⟨db, createdAt⟩, none⟩

/-! ## What a batch is to do

To leave the release time of a row that upstream did not answer for. -/

/-- The event writes the batch with this answer. -/
def Writes (s : DrainState) (e : Event) (pending : List PendingChapter)
    (upstream : List (String × MdChapterAttrs)) : Prop :=
  s.inFlight = some pending ∧ e = .answer upstream

/-- A batch takes its rows off the list, and leaves the rows that upstream did
not answer for their url and their release time. -/
structure BatchFills (rules : SpineRules) (s : DrainState) (e : Event) : Prop where
  leaves : ∀ pending upstream, Writes s e pending upstream → ∀ p ∈ pending,
    ∀ c ∈ (step rules s e).db.chapter, c.id = p.id →
      needsReadableAt (step rules s e).db c = false
  keeps : ∀ pending upstream, Writes s e pending upstream → ∀ p ∈ pending,
    byId upstream p.externalId = none → ∀ c ∈ s.db.chapter, c.id = p.id →
      ∃ c' ∈ (step rules s e).db.chapter, c'.id = c.id ∧ c'.externalUrl = c.externalUrl ∧
        clock (step rules s e).toMirror c' = clock s.toMirror c

/-- The event puts no row on the list. -/
def AddsNone (rules : SpineRules) (s : DrainState) (e : Event) : Prop :=
  ∀ c ∈ (step rules s e).db.chapter, needsReadableAt (step rules s e).db c = true →
    ∃ old ∈ s.db.chapter, old.id = c.id ∧ needsReadableAt s.db old = true

/-- A batch is in flight and upstream answers. -/
def writesBatch (s : DrainState) : Event → Bool
  | .answer _ => s.inFlight.isSome
  | _ => false

/-- The batches that a run writes. -/
def batches (rules : SpineRules) (s : DrainState) (events : List Event) : Nat :=
  Worklist.batches (step rules) writesBatch s events

/-- From between two batches, and as long as nothing is put on the list, every
batch takes a hundred rows off it, or what is left. -/
def Drains (rules : SpineRules) (s : DrainState) : Prop :=
  s.inFlight = none → ∀ events, Machine.EachStep (step rules) (AddsNone rules) s events →
    readableBackfillRemaining (Machine.run (step rules) s events).toMirror ≤
      readableBackfillRemaining s.toMirror -
        readableBackfillBatch * batches rules s events

/-- The count is zero exactly if the list is empty. -/
def RemainingExact (m : Mirror) : Prop :=
  readableBackfillRemaining m = 0 ↔
    chaptersNeedingReadableAt readableBackfillBatch m = []

/-! ## When the release time is kept

As a condition on the row as it was read and as it is. -/

/-- `published_at` is NULL, or a text that the ladder takes as it is. -/
def Clean (p : PendingChapter) : Prop :=
  ∀ t, p.publishedAt = some t → present (some t) = some t

instance (p : PendingChapter) : Decidable (Clean p) :=
  decidable_of_iff (p.publishedAt.all fun t => present (some t) = some t) (by
    unfold Clean
    cases p.publishedAt <;> simp)

/-- The release time of a row when it was read: it had no `readable_at`. -/
def readClock (p : PendingChapter) : String := p.publishedAt.getD p.createdAt

/-- When a batch is written, each row that upstream did not answer for has the
release time it was read with; or that was not clean, and the row has meanwhile
been given what the ladder makes of it. -/
def Undisturbed (s : DrainState) (e : Event) : Prop :=
  ∀ pending upstream, Writes s e pending upstream → ∀ p ∈ pending,
    byId upstream p.externalId = none → ∀ c ∈ s.db.chapter, c.id = p.id →
      (Clean p → clock s.toMirror c = readClock p) ∧
        (¬Clean p → clock s.toMirror c = (present p.publishedAt).getD p.createdAt)

/-! ## What the statements do

On the rows of the table, one by one. -/

section Statements

variable {rules : SpineRules} {s : DrainState}

/-- A chapter's id is its own. -/
theorem nodup_ids (t : Table Chapter) (p : Chapter → Bool) :
    ((t.rows.filter p).map Chapter.id).Nodup := by
  have hids : (t.rows.map Chapter.id).Nodup := by
    refine List.pairwise_map.mpr (t.unique.imp ?_)
    intro a b hab hid
    simp [clash, hid] at hab
  exact hids.sublist (List.filter_sublist.map Chapter.id)

/-- The batch is the head of the list. -/
theorem chaptersNeeding_ids (limit : Nat) (m : Mirror) :
    (chaptersNeedingReadableAt limit m).map PendingChapter.id =
      ((m.db.chapter.rows.filter (needsReadableAt m.db)).map Chapter.id).take limit := by
  rw [chaptersNeedingReadableAt, List.map_map, ← List.map_take]
  rfl

/-- Each row that the batch names is set once, the others are left. -/
theorem mem_fillReadable {fills : List ReadableFill}
    (hfills : (fills.map ReadableFill.chapterId).Nodup) {db : Db} {c : Chapter} :
    c ∈ (fillReadable fills db).chapter ↔ ∃ old ∈ db.chapter,
      (∃ fill ∈ fills, old.id = fill.chapterId ∧ c = fill.set old) ∨
        ((∀ fill ∈ fills, old.id ≠ fill.chapterId) ∧ c = old) := by
  have hapart : fills.Pairwise fun a b => ∀ c : Chapter,
      decide (c.id = a.chapterId) = true → decide (c.id = b.chapterId) = false := by
    refine (List.pairwise_map.mp hfills).imp fun hne c hc => ?_
    simpa [of_decide_eq_true hc] using hne
  have hkeep : ∀ (a b : ReadableFill) (c : Chapter),
      decide ((a.set c).id = b.chapterId) = decide (c.id = b.chapterId) :=
    fun _ _ _ => rfl
  have h : c ∈ fills.foldl fillOne db.chapter ↔ _ :=
    Table.mem_foldl_update_apart (h := ReadableFill.set_keepsKeys) hkeep hapart
  simpa [fillReadable] using h

/-- Each row of the batch is written under its own id. -/
theorem fillOf_ids (upstream : List (String × MdChapterAttrs))
    (pending : List PendingChapter) :
    (pending.map (fillOf upstream)).map ReadableFill.chapterId =
      pending.map PendingChapter.id := by
  rw [List.map_map]
  rfl

/-- The rows after a batch: each one that it names is set, the others are left. -/
theorem mem_writeReadableBackfill {pending : List PendingChapter}
    (hpending : (pending.map PendingChapter.id).Nodup)
    {upstream : List (String × MdChapterAttrs)} {db : Db} {c : Chapter} :
    c ∈ (writeReadableBackfill pending upstream db).2.chapter ↔ ∃ old ∈ db.chapter,
      (∃ p ∈ pending, old.id = p.id ∧ c = (fillOf upstream p).set old) ∨
        ((∀ p ∈ pending, old.id ≠ p.id) ∧ c = old) := by
  have hfills : ((pending.map (fillOf upstream)).map ReadableFill.chapterId).Nodup := by
    rw [fillOf_ids]
    exact hpending
  show c ∈ (fillReadable (pending.map (fillOf upstream)) db).chapter ↔ _
  rw [mem_fillReadable hfills]
  simp only [List.mem_map, exists_exists_and_eq_and, forall_exists_index, and_imp,
    forall_apply_eq_imp_iff₂]
  rfl

/-- A row that is set is off the list. -/
theorem needsReadableAt_set (db : Db) (fill : ReadableFill) (c : Chapter) :
    needsReadableAt db (fill.set c) = false := by
  simp [needsReadableAt, ReadableFill.set]

/-- The rows of the firehose stay, under their ids. -/
theorem exists_of_upsert (rules : SpineRules) (newId ssid : Id) (ch : ChapterInput)
    {db : Db} {c : Chapter} (hc : c ∈ db.chapter) :
    ∃ c' ∈ (db.commit (upsertChapter rules newId ssid ch db)).chapter, c'.id = c.id := by
  unfold upsertChapter
  by_cases hid : ch.externalId = ""
  · rw [if_pos hid]
    exact ⟨c, hc, rfl⟩
  · rw [if_neg hid]
    cases hwrite : writeChapter (chapterRow rules newId ssid ch) db with
    | error e => exact ⟨c, hc, rfl⟩
    | ok db' =>
        show ∃ c' ∈ db'.chapter, c'.id = c.id
        rcases mem_of_writeChapter hwrite with ⟨-, hmem⟩ | ⟨-, hmem⟩
        · refine ⟨_, (hmem _).mpr ⟨c, hc, rfl⟩, ?_⟩
          split <;> rfl
        · exact ⟨c, (hmem c).mpr (.inl hc), rfl⟩

end Statements

/-! ## The batch in flight

What remains true of it while others write. -/

/-- The batch has each of its rows once, no more than a hundred, and all of them
are still there, with the `created_at` they were read with. -/
structure Proper (s : DrainState) : Prop where
  nodup : ∀ pending, s.inFlight = some pending → (pending.map PendingChapter.id).Nodup
  length : ∀ pending, s.inFlight = some pending → pending.length ≤ readableBackfillBatch
  there : ∀ pending, s.inFlight = some pending → ∀ p ∈ pending,
    ∃ c ∈ s.db.chapter, c.id = p.id ∧ s.createdAt p.id = p.createdAt

section Runs

variable {rules : SpineRules} {s : DrainState}

theorem proper_of_idle (h : s.inFlight = none) : Proper s := by
  constructor <;> simp [h]

/-- A row that is there keeps its `created_at`. -/
theorem stamp_of_mem {m : Mirror} {c : Chapter} (hc : c ∈ m.db.chapter) (newId : Id)
    (now : String) : stamp m newId now c.id = m.createdAt c.id := by
  unfold stamp
  refine if_neg ?_
  rintro ⟨hid, hfree⟩
  exact hfree (List.any_eq_true.mpr ⟨c, Table.mem_rows.mpr hc, by simpa using hid⟩)

/-- A batch that has just been read. -/
theorem proper_read (m : Mirror) :
    Proper ⟨m, some (chaptersNeedingReadableAt readableBackfillBatch m)⟩ where
  nodup pending h := by
    cases h
    rw [chaptersNeeding_ids]
    exact (nodup_ids m.db.chapter _).sublist (List.take_sublist ..)
  length pending h := by
    cases h
    simp [chaptersNeedingReadableAt]
  there pending h p hp := by
    cases h
    obtain ⟨c, hc, rfl⟩ := List.mem_map.mp hp
    have hrow := (List.mem_filter.mp (List.mem_of_mem_take hc)).1
    exact ⟨c, Table.mem_rows.mp hrow, rfl, rfl⟩

/-- What the firehose does in between. -/
theorem proper_step (h : Proper s) (e : Event) : Proper (step rules s e) := by
  cases e with
  | read =>
      simp only [step]
      split
      · exact proper_read s.toMirror
      · exact h
  | answer upstream =>
      simp only [step]
      split
      · exact h
      · exact proper_of_idle rfl
  | fail => exact proper_of_idle rfl
  | upsert newId ssid ch now =>
      refine ⟨h.nodup, h.length, fun pending hpending p hp => ?_⟩
      obtain ⟨c, hc, hid, hcreated⟩ := h.there pending hpending p hp
      obtain ⟨c', hc', hid'⟩ := exists_of_upsert rules newId ssid ch hc
      refine ⟨c', hc', hid'.trans hid, ?_⟩
      show stamp s.toMirror newId now p.id = p.createdAt
      rw [← hid, stamp_of_mem hc, hid]
      exact hcreated

/-! ## The list gets shorter

A batch takes its rows off, and nothing brings them back. -/

/-- The ids on the list, and the ids in flight. -/
def drain (s : DrainState) : Worklist.Drain Id where
  work := ((s.db.chapter.rows.filter (needsReadableAt s.db)).map Chapter.id).toFinset
  inFlight := s.inFlight.map fun pending => (pending.map PendingChapter.id).toFinset

/-- The work-list are the rows without a time. -/
theorem mem_work {id : Id} :
    id ∈ (drain s).work ↔
      ∃ c ∈ s.db.chapter, needsReadableAt s.db c = true ∧ c.id = id := by
  simp [drain, Table.mem_rows, and_assoc]

/-- It is as long as the count says. -/
theorem card_work (s : DrainState) :
    (drain s).work.card = readableBackfillRemaining s.toMirror := by
  rw [drain, List.toFinset_card_of_nodup (nodup_ids s.db.chapter _), List.length_map]
  rfl

/-- The batch in flight, as a part of the list. -/
theorem drain_of_inFlight {inFlight : Option (List PendingChapter)}
    (h : s.inFlight = inFlight) :
    drain s = ⟨(drain s).work,
      inFlight.map fun pending => (pending.map PendingChapter.id).toFinset⟩ := by
  rw [← h]
  rfl

/-- The list after a batch: what was on it, less the batch. -/
theorem work_answer (h : Proper s) {pending : List PendingChapter}
    (hpending : s.inFlight = some pending) (upstream : List (String × MdChapterAttrs)) :
    (drain (step rules s (.answer upstream))).work ⊆
      (drain s).work \ (pending.map PendingChapter.id).toFinset := by
  intro id hid
  obtain ⟨c, hc, hneeds, rfl⟩ := mem_work.mp hid
  simp only [step, hpending] at hc hneeds
  obtain ⟨old, hold, hcase⟩ := (mem_writeReadableBackfill (h.nodup pending hpending)).mp hc
  rcases hcase with ⟨p, -, -, rfl⟩ | ⟨hother, rfl⟩
  · rw [needsReadableAt_set] at hneeds
    contradiction
  · rw [Finset.mem_sdiff]
    refine ⟨mem_work.mpr ⟨c, hold, hneeds, rfl⟩, ?_⟩
    simp only [List.mem_toFinset, List.mem_map, not_exists, not_and]
    exact fun p hp heq => hother p hp heq.symm

/-- The drain is a drain of a work-list. -/
theorem drain_step (h : Proper s) {e : Event} (hadds : AddsNone rules s e) :
    Worklist.Step readableBackfillBatch (drain s) (writesBatch s e)
      (drain (step rules s e)) := by
  have hsub : (drain (step rules s e)).work ⊆ (drain s).work := by
    intro id hid
    obtain ⟨c, hc, hneeds, rfl⟩ := mem_work.mp hid
    obtain ⟨old, hold, hid, hneeds⟩ := hadds c hc hneeds
    exact mem_work.mpr ⟨old, hold, hneeds, hid⟩
  cases e with
  | read =>
      by_cases hread : s.inFlight = none ∧
          chaptersNeedingReadableAt readableBackfillBatch s.toMirror ≠ []
      · have hstep : step rules s .read = { s with
            inFlight := some (chaptersNeedingReadableAt readableBackfillBatch s.toMirror) } :=
          if_pos hread
        have hcard : ((chaptersNeedingReadableAt readableBackfillBatch s.toMirror).map
            PendingChapter.id).toFinset.card =
              min readableBackfillBatch (drain s).work.card := by
          rw [chaptersNeeding_ids, List.toFinset_card_of_nodup
            ((nodup_ids s.db.chapter _).sublist (List.take_sublist ..)), List.length_take,
            List.length_map, card_work]
          rfl
        rw [hstep, drain_of_inFlight hread.1]
        refine Worklist.Step.read ?_ (hcard.le.trans (Nat.min_le_left ..)) hcard.ge
        intro id hid
        have hid := List.mem_toFinset.mp hid
        rw [chaptersNeeding_ids] at hid
        exact List.mem_toFinset.mpr (List.mem_of_mem_take hid)
      · have hstep : step rules s .read = s := if_neg hread
        rw [hstep]
        exact .shrink subset_rfl
  | answer upstream =>
      cases hpending : s.inFlight with
      | none =>
          have hstep : step rules s (.answer upstream) = s := by simp [step, hpending]
          rw [hstep, writesBatch, hpending]
          exact .shrink subset_rfl
      | some pending =>
          have hidle : (step rules s (.answer upstream)).inFlight = none := by
            simp [step, hpending]
          rw [drain_of_inFlight hpending, drain_of_inFlight hidle, writesBatch, hpending]
          exact .write (work_answer h hpending upstream)
  | fail => exact .drop
  | upsert newId ssid ch now => exact .shrink hsub

/-- From between two batches every batch takes its hundred rows off the list. -/
theorem drains (s : DrainState) : Drains rules s := by
  intro hidle events hadds
  have hbound := Worklist.card_run_le writesBatch (I := Proper)
    (fun _ e h => proper_step h e) (fun _ _ h hadds => drain_step h hadds)
    (proper_of_idle hidle) (by simp [Worklist.Capped, drain, hidle]) hadds
  rw [card_work, drain_of_inFlight hidle, Option.map_none, Worklist.bound_idle,
    card_work] at hbound
  exact hbound

/-- The count is that of the rows. -/
theorem remainingExact (m : Mirror) : RemainingExact m := by
  unfold RemainingExact readableBackfillRemaining chaptersNeedingReadableAt
  rw [List.map_eq_nil_iff, List.take_eq_nil_iff, List.length_eq_zero_iff]
  simp [readableBackfillBatch]

/-! ## What a batch leaves as it is

The time that the readers see, before and after. -/

/-- What the ladder makes of a row that upstream did not answer for. -/
theorem readableAt_fillOf {upstream : List (String × MdChapterAttrs)} {p : PendingChapter}
    (h : byId upstream p.externalId = none) :
    fillOf upstream p =
      ⟨p.id, (present p.publishedAt).getD p.createdAt, none⟩ := by
  simp [fillOf, resolveReadableAt, h, present]

/-- The ladder takes a clean `published_at` as it is. -/
theorem ladder_of_clean {p : PendingChapter} (h : Clean p) :
    (present p.publishedAt).getD p.createdAt = readClock p := by
  unfold readClock
  cases hp : p.publishedAt with
  | none => rfl
  | some t => rw [h t hp]

/-- A row is undisturbed exactly if it has the time that the ladder gives it. -/
theorem undisturbed_iff {e : Event} :
    Undisturbed s e ↔ ∀ pending upstream, Writes s e pending upstream → ∀ p ∈ pending,
      byId upstream p.externalId = none → ∀ c ∈ s.db.chapter, c.id = p.id →
        clock s.toMirror c = (present p.publishedAt).getD p.createdAt := by
  unfold Undisturbed
  constructor
  · intro h pending upstream hwrites p hp hnone c hc hid
    obtain ⟨hclean, hblank⟩ := h pending upstream hwrites p hp hnone c hc hid
    by_cases htext : Clean p
    · rw [ladder_of_clean htext, hclean htext]
    · exact hblank htext
  · intro h pending upstream hwrites p hp hnone c hc hid
    have hclock := h pending upstream hwrites p hp hnone c hc hid
    exact ⟨fun hclean => hclock.trans (ladder_of_clean hclean), fun _ => hclock⟩

theorem batchFills_iff (h : Proper s) (e : Event) :
    BatchFills rules s e ↔ Undisturbed s e := by
  rw [undisturbed_iff]
  constructor
  · rintro ⟨-, hkeeps⟩ pending upstream hwrites p hp hnone c hc hid
    obtain ⟨c', hc', hid', -, hclock⟩ := hkeeps pending upstream hwrites p hp hnone c hc hid
    obtain ⟨hpending, rfl⟩ := hwrites
    simp only [step, hpending] at hc' hclock
    obtain ⟨old, hold, hcase⟩ :=
      (mem_writeReadableBackfill (h.nodup pending hpending)).mp hc'
    rcases hcase with ⟨q, hq, hqid, rfl⟩ | ⟨hother, rfl⟩
    · have hqp : q = p := by
        have hids : q.id = p.id := hqid.symm.trans (hid'.trans hid)
        exact List.inj_on_of_nodup_map (h.nodup pending hpending) hq hp hids
      rw [← hclock, hqp, readableAt_fillOf hnone]
      rfl
    · exact absurd (hid'.trans hid) (hother p hp)
  · intro hclock
    constructor
    · rintro pending upstream ⟨hpending, rfl⟩ p hp c hc hid
      simp only [step, hpending] at hc ⊢
      obtain ⟨old, hold, hcase⟩ :=
        (mem_writeReadableBackfill (h.nodup pending hpending)).mp hc
      rcases hcase with ⟨q, -, -, rfl⟩ | ⟨hother, rfl⟩
      · exact needsReadableAt_set _ _ _
      · exact absurd hid (hother p hp)
    · intro pending upstream hwrites p hp hnone c hc hid
      have hrow := hclock pending upstream hwrites p hp hnone c hc hid
      obtain ⟨hpending, rfl⟩ := hwrites
      refine ⟨(fillOf upstream p).set c, ?_, rfl, ?_, ?_⟩
      · simp only [step, hpending]
        exact (mem_writeReadableBackfill (h.nodup pending hpending)).mpr
          ⟨c, hc, .inl ⟨p, hp, hid, rfl⟩⟩
      · rw [readableAt_fillOf hnone]
        rfl
      · rw [hrow, readableAt_fillOf hnone]
        rfl

theorem eachStep_batchFills_iff (db : Db) (createdAt : Id → String) (events : List Event) :
    Machine.EachStep (step rules) (BatchFills rules) (start db createdAt) events ↔
      Machine.EachStep (step rules) Undisturbed (start db createdAt) events :=
  Machine.eachStep_congr_of_invariant (fun _ e h _ => proper_step h e)
    (fun _ e h => batchFills_iff h e) (proper_of_idle rfl)

/-- **What the backfill fills.**  From any database, over any sequence of reads,
answers, failures and upserts of the firehose: every batch takes its rows off the list,
and leaves a row that upstream did not answer for its url and its release time, exactly
if the rows are undisturbed whenever a batch is written.  Along every run the count is
exact and a drain that nothing adds to empties the list. -/
theorem backfill_fills_iff (rules : SpineRules) (db : Db) (createdAt : Id → String)
    (events : List Event) :
    (Machine.EachStep (step rules) (BatchFills rules) (start db createdAt) events ∧
        Machine.Always (step rules) (fun s => RemainingExact s.toMirror ∧ Drains rules s)
          (start db createdAt) events) ↔
      Machine.EachStep (step rules) Undisturbed (start db createdAt) events := by
  rw [← eachStep_batchFills_iff]
  exact and_iff_left fun before _ => ⟨remainingExact _, drains _⟩

end Runs

/-! ## Two rows that lose their time

Each of the two conditions is needed. -/

/-- A mapping with one chapter that has no `readable_at`. -/
def oneUntimed (publishedAt : String) : Db :=
  { Db.empty with
    sourceSeries := ⟨[⟨"md2", "w", "mangadex", "mangadex", "m2", none, false, none⟩],
      by decide⟩
    chapter := ⟨[⟨"ch5", "md2", "u5", some "1", none, some "en", none, some publishedAt,
      none, none, none, some "100", some "1"⟩], List.pairwise_singleton _ _⟩ }

/-- The chapter as the firehose has it, with its real time. -/
def timed : ChapterInput :=
  ⟨"u5", some "1", none, some "en", none, some "2037-12-31", some "2023-10-07", none, none⟩

/-- Rules under which every chapter is the first. -/
def plainSpineRules : SpineRules := ⟨fun _ => ("100", "1"), fun _ => none⟩

/-- A blank `published_at` is a time for the readers and none for the ladder; and
a time that the firehose writes while upstream is asked is overwritten. -/
theorem not_batchFills_blank_overtaken :
    ¬Machine.EachStep (step plainSpineRules) (BatchFills plainSpineRules)
        (start (oneUntimed "") fun _ => "2024-01-01") [.read, .answer []] ∧
      ¬Machine.EachStep (step plainSpineRules) (BatchFills plainSpineRules)
        (start (oneUntimed "2037-12-31") fun _ => "2024-01-01")
        [.read, .upsert "ch6" "md2" timed "2024-02-02", .answer []] := by
  rw [eachStep_batchFills_iff, eachStep_batchFills_iff]
  constructor
  · rintro ⟨-, h, -⟩
    have hrow := (h _ [] ⟨rfl, rfl⟩ ⟨"ch5", "u5", some "", "2024-01-01"⟩
      (by decide +kernel) rfl _ (List.mem_singleton_self _) rfl).2 (by decide +kernel)
    exact absurd hrow (by decide +kernel)
  · rintro ⟨-, -, h, -⟩
    have hrow := (h _ [] ⟨rfl, rfl⟩ ⟨"ch5", "u5", some "2037-12-31", "2024-01-01"⟩
      (by decide +kernel) rfl _ (List.mem_singleton_self _) rfl).1 (by decide +kernel)
    exact absurd hrow (by decide +kernel)

end Komika.Mangadex.ReadableBackfill
