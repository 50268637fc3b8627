import Mathlib.Data.Fintype.BigOperators
import Komika.Lib.Keyset
import Komika.Lib.Timestamp
import Komika.Catalog.Integrity

/-!
# The sweep of orphaned covers

`sweep_work_cover_blobs` of `gc.rs`.  Cover blobs are in a database of their
own, keyed by work id, and nothing in the main database can cascade to them.
The sweep walks their keys a page at a time, asks the main database which of
the works are still there, and deletes the blobs of the others that were last
written before a cutoff.  The read, the probe and the delete are three
statements on two databases, with anything in between.

Before the first delete the sweep wants to see a plausible main database: as
many works as a floor, and not too many orphans in a sample.

The other parties are the catalogue's writers (`Catalog.Runs`), which create,
merge, split and delete works; the writers of covers; and the call that drops
the cover of a work that was merged away.  A statement that fails ends the
sweep where it is; what the databases hold then, they hold in a run that stands
there.

* `advance_cases` — what a statement of the sweep does;
* `step_cases`, `retired_run` — what the other parties do: a work that is gone stays
  gone;
* `kept_walked_step` — the two invariants: every blob from before the cutoff that is not
  an orphan is still there, and every orphan behind the cursor has been deleted;
* `rank_step` — a measure that each statement of the sweep makes smaller;
* `sweepsOrphans` — a sweep deletes the blobs of works that were gone from the start and
  no others, in every interleaving.
-/

namespace Komika.Covers.OrphanSweep

open Komika.Lib Komika.Lib.Timestamp
open Komika.Catalog.Schema Komika.Catalog.Database Komika.Catalog.Runs
open Komika.Catalog.Integrity

/-! ## The two databases

The blobs are keyed by the id of a work, and stamped when they are written. -/

/-- `COVER_SCAN_BATCH`: how many keys one statement reads. -/
def coverScanBatch : Nat := 500

/-- `COVER_DELETE_BUDGET`: the blobs that one sweep deletes at most. -/
def coverDeleteBudget : Nat := 1000

/-- `COVER_SWEEP_MIN_WORKS`: a catalogue with fewer works is not swept. -/
def coverSweepMinWorks : Nat := 10000

/-- `COVER_RATIO_SAMPLE`: how many keys are sampled before the first is deleted. -/
def coverRatioSample : Nat := 2000

/-- `COVER_MAX_ORPHAN_PCT`: with a larger share of orphans the sweep does not begin. -/
def coverMaxOrphanPct : Nat := 25

/-- `COVER_ORPHAN_MIN_AGE_HOURS`, in nanoseconds: a younger blob is left alone, as its
work may still be on its way. -/
def coverOrphanMinAge : Nat := nsPerDay

/-- A time that has a four-digit year. -/
abbrev Instant := { t : Nat // t < endOfYears }

/-- A row of `work_cover_blob`.  Its key is the id some work had, and
`updated_at` the time of the last write. -/
structure Blob where
  workId : Id
  named : workId ≠ ""
  webp : List UInt8
  version : Nat
  written : Instant

/-- `updated_at`, the text that the statements compare with the cutoff. -/
def Blob.updatedAt (b : Blob) : String := toRfc3339 b.written.val

instance : Keyed Blob := .ofKey Blob.workId

theorem clash_blob {a b : Blob} : clash a b = true ↔ a.workId = b.workId := by
  simp [clash]

/-- The upsert of `put_work_cover` overwrites every column but the key. -/
def Blob.rewrite (old new : Blob) : Blob :=
  { old with webp := new.webp, version := new.version, written := new.written }

theorem rewrite_keepsKeys (new : Blob) : Table.KeepsKeys (Blob.rewrite · new) :=
  fun _ _ => rfl

/-- The cursor starts before every key. -/
theorem empty_lt {key : Id} (h : key ≠ "") : "" < key := by
  rw [String.lt_iff_toList_lt]
  cases hkey : key.toList with
  | nil => exact absurd (String.toList_eq_nil_iff.mp hkey) h
  | cons c cs => exact List.nil_lt_cons c cs

/-- The keys of the cover database. -/
def coverKeys (covers : Table Blob) : List Id := covers.rows.map Blob.workId

theorem mem_coverKeys {covers : Table Blob} {id : Id} :
    id ∈ coverKeys covers ↔ ∃ b ∈ covers, b.workId = id := by
  simp [coverKeys, Table.mem_rows]

theorem nodup_coverKeys (covers : Table Blob) : (coverKeys covers).Nodup := by
  apply List.pairwise_map.mpr
  apply covers.unique.imp
  intro a b hab heq
  rw [← Bool.not_eq_true, clash_blob] at hab
  exact hab heq

/-! ## The sweep

Probe of the main database, then page by page. -/

/-- How a sweep that returns `Ok` came to its end. -/
inductive Outcome where
  /-- Too few works in the main database. -/
  | fewWorks
  /-- Too many orphans in the sample. -/
  | insaneRate
  | shutdown
  | budget
  /-- The walk came to the end of the keys. -/
  | exhausted
deriving DecidableEq, Repr

/-- What the sweep does next. -/
inductive Phase where
  /-- `SELECT COUNT(*) FROM work`. -/
  | count
  /-- `SELECT work_id … LIMIT 2000`. -/
  | sample
  /-- The probe of what is left of the sample, and the orphans so far. -/
  | probe (sampled : Nat) (rest : List Id) (orphans : Nat)
  /-- The check for shutdown, and the next page. -/
  | read
  /-- `missing_work_ids` of a page. -/
  | check (ids : List Id)
  /-- `DELETE FROM work_cover_blob WHERE work_id IN (…) AND updated_at < ?`. -/
  | delete (orphans : List Id)
  | returned (outcome : Outcome)
deriving DecidableEq, Repr

/-- Where the sweep is. -/
structure Sweep where
  phase : Phase
  cutoff : Instant
  cursor : Id
  deleted : Nat
  /-- The keys of the pages so far. -/
  visited : List Id

/-- The two databases, the clock, and the sweep. -/
structure State where
  clock : Instant
  catalog : CatalogState
  covers : Table Blob
  /-- The value of the shutdown channel. -/
  shutdown : Bool
  sweep : Sweep

/-- `orphan_rate_sane`: in whole numbers, and true of no sample at all. -/
def orphanRateSane (orphans sampled : Nat) : Bool :=
  if sampled = 0 then true
  else decide (orphans * 100 ≤ sampled * coverMaxOrphanPct)

/-- `missing_work_ids`: those of the ids that no work has. -/
def missingWorkIds (db : Db) (ids : List Id) : List Id :=
  let live := (db.work.rows.filter fun w => ids.contains w.id).map Work.id
  ids.filter fun id => !live.contains id

/-- The blobs that the delete of a batch takes. -/
def doomed (orphans : List Id) (cutoff : Instant) (b : Blob) : Bool :=
  orphans.contains b.workId && decide (b.updatedAt < toRfc3339 cutoff.val)

/-- The sweep goes on to its next statement. -/
def State.goTo (s : State) (phase : Phase) : State :=
  { s with sweep := { s.sweep with phase := phase } }

/-- A page came back, with `last` at its end. -/
def State.turnPage (s : State) (ids : List Id) (last : Id) : State :=
  { s with
    sweep :=
      { s.sweep with
        phase := .check ids
        cursor := last
        visited := s.sweep.visited ++ ids } }

/-- The delete of a batch. -/
def State.purge (s : State) (orphans : List Id) : State :=
  { s with
    covers := s.covers.deleteWhere (doomed orphans s.sweep.cutoff)
    sweep :=
      { s.sweep with
        deleted := s.sweep.deleted +
          s.covers.rows.countP (doomed orphans s.sweep.cutoff) } }

/-- The page the sweep reads next. -/
def State.nextPage (s : State) : List Id :=
  Keyset.page coverScanBatch s.sweep.cursor (coverKeys s.covers)

/-- The next statement of `sweep_work_cover_blobs`. -/
def State.advance (s : State) : State :=
  match s.sweep.phase with
  | .count =>
      if s.catalog.db.work.rows.length < coverSweepMinWorks then
        s.goTo (.returned .fewWorks)
      else s.goTo .sample
  | .sample =>
      let sample := ((coverKeys s.covers).insertionSort (· ≤ ·)).take coverRatioSample
      s.goTo (.probe sample.length sample 0)
  | .probe sampled [] orphans =>
      if orphanRateSane orphans sampled then s.goTo .read
      else s.goTo (.returned .insaneRate)
  | .probe sampled rest orphans =>
      s.goTo (.probe sampled (rest.drop coverScanBatch)
        (orphans + (missingWorkIds s.catalog.db (rest.take coverScanBatch)).length))
  | .read =>
      if s.shutdown then s.goTo (.returned .shutdown)
      else match s.nextPage.getLast? with
        | none => s.goTo (.returned .exhausted)
        | some last => s.turnPage s.nextPage last
  | .check ids =>
      let orphans := missingWorkIds s.catalog.db ids
      if orphans.isEmpty then s.goTo .read else s.goTo (.delete orphans)
  | .delete orphans =>
      let next := s.purge orphans
      if coverDeleteBudget ≤ next.sweep.deleted then next.goTo (.returned .budget)
      else next.goTo .read
  | .returned _ => s

/-! ## The other parties

Whatever may run between two statements. -/

/-- A digit of a uuid. -/
def hexDigit (d : Fin 16) : Char := Char.ofNat (if d.val < 10 then 48 + d.val else 87 + d.val)

/-- `new_id`: the uuid in its simple form. -/
def newId (kind : String) (uuid : Fin 32 → Fin 16) : Id :=
  kind ++ String.ofList (List.ofFn fun i => hexDigit (uuid i))

/-- A transaction of the catalogue whose ids come from `new_id`. -/
structure Transaction where
  op : Op
  uuids : ∀ id ∈ op.mints, (∃ uuid, id = newId "w_" uuid) ∨ ∃ uuid, id = newId "ss_" uuid

/-- A statement of another party, time that goes by, or the next statement of the
sweep. -/
inductive Event where
  | tick (elapsed : Nat)
  | catalog (transaction : Transaction)
  | putWorkCover (workId : Id) (webp : List UInt8)
  | reclaimCoverBlob (workId : Id)
  | shutdown
  /-- The sweep runs its next statement. -/
  | sweep

/-- The event is a statement of the sweep. -/
def Event.sweeps : Event → Bool
  | .sweep => true
  | _ => false

/-- The clock moves on. -/
def State.pass (s : State) (elapsed : Nat) : State :=
  if h : s.clock.val + elapsed < endOfYears then
    { s with clock := ⟨s.clock.val + elapsed, h⟩ }
  else s

/-- `put_work_cover`, for a work that is there or was there when the caller
looked.  The version that it also notes in the row of the work is not read
here. -/
def State.putWorkCover (s : State) (workId : Id) (webp : List UInt8) : State :=
  if h : workId ≠ "" ∧ workId ∈ s.catalog.minted then
    { s with
      covers := s.covers.upsert
        ⟨workId, h.1, webp, s.clock.val / nsPerSecond, s.clock⟩
        Blob.rewrite (rewrite_keepsKeys _) }
  else s

/-- `reclaim_cover_blob`: the blob of one work is deleted. -/
def State.reclaimCoverBlob (s : State) (workId : Id) : State :=
  { s with covers := s.covers.deleteWhere fun b => b.workId = workId }

/-- The state after an event. -/
def State.step (rules : Rules) (s : State) : Event → State
  | .tick elapsed => s.pass elapsed
  | .catalog transaction =>
      { s with catalog := s.catalog.step rules transaction.op }
  | .putWorkCover workId webp => s.putWorkCover workId webp
  | .reclaimCoverBlob workId => s.reclaimCoverBlob workId
  | .shutdown => { s with shutdown := true }
  | .sweep => s.advance

/-- The two databases: the main one keeps its foreign keys, and a blob belongs
to a work that is there or was once. -/
structure Stores where
  catalog : CatalogState
  grounded : Grounded catalog
  covers : Table Blob
  known : ∀ b ∈ covers, b.workId ∈ catalog.minted

/-- A day before `clock`. -/
def cutoffAt (clock : Instant) : Instant :=
  ⟨clock.val - coverOrphanMinAge, by have := clock.property; omega⟩

theorem cutoffAt_le (clock : Instant) : cutoffAt clock ≤ clock :=
  Subtype.mk_le_mk.mpr (Nat.sub_le _ _)

theorem lt_cutoffAt {t clock : Instant} :
    t < cutoffAt clock ↔ t.val < clock.val - coverOrphanMinAge := Iff.rfl

/-- A sweep begins: the cutoff is read off the clock once, and no key has been
visited. -/
def begin (stores : Stores) (clock : Instant) : State where
  clock := clock
  catalog := stores.catalog
  covers := stores.covers
  shutdown := false
  sweep := ⟨.count, cutoffAt clock, "", 0, []⟩

/-- The state of the two databases and of the sweep after `events`. -/
def after (rules : Rules) (stores : Stores) (clock : Instant) (events : List Event) :
    State :=
  Machine.run (State.step rules) (begin stores clock) events

/-! ## What the statements say

On the rows that they read and delete. -/

variable {rules : Rules} {s : State} {db : Db} {ids orphans : List Id} {id : Id}

theorem mem_missingWorkIds :
    id ∈ missingWorkIds db ids ↔ id ∈ ids ∧ db.hasWork id = false := by
  have hlive : id ∈ (db.work.rows.filter fun w => ids.contains w.id).map Work.id ↔
      db.hasWork id = true ∧ id ∈ ids := by
    rw [hasWork_iff, List.mem_map]
    constructor
    · rintro ⟨w, hw, rfl⟩
      rw [List.mem_filter, List.contains_iff_mem] at hw
      exact ⟨⟨w, hw.1, rfl⟩, hw.2⟩
    · rintro ⟨⟨w, hw, rfl⟩, hid⟩
      exact ⟨w, List.mem_filter.mpr ⟨hw, List.contains_iff_mem.mpr hid⟩, rfl⟩
  unfold missingWorkIds
  dsimp only
  rw [List.mem_filter]
  apply and_congr_right
  intro hid
  rw [Bool.not_eq_true', ← Bool.not_eq_true, ← Bool.not_eq_true, List.contains_iff_mem, hlive]
  simp [hid]

theorem doomed_iff {cutoff : Instant} {b : Blob} :
    doomed orphans cutoff b = true ↔ b.workId ∈ orphans ∧ b.written < cutoff := by
  unfold doomed Blob.updatedAt
  rw [Bool.and_eq_true, List.contains_iff_mem, decide_eq_true_eq,
    toRfc3339_lt_iff b.written.property cutoff.property]
  rfl

/-- The delete asks for the cutoff again, blob by blob. -/
theorem mem_purge {b : Blob} :
    b ∈ (s.purge orphans).covers ↔
      b ∈ s.covers ∧ ¬(b.workId ∈ orphans ∧ b.written < s.sweep.cutoff) := by
  unfold State.purge
  rw [Table.mem_deleteWhere, ← Bool.not_eq_true, doomed_iff]

/-- A blob after a cover was written: an earlier one, or stamped now. -/
theorem mem_putWorkCover {workId : Id} {webp : List UInt8} {b : Blob}
    (h : b ∈ (s.putWorkCover workId webp).covers) :
    b ∈ s.covers ∨ (b.workId ∈ s.catalog.minted ∧ b.written = s.clock) := by
  unfold State.putWorkCover at h
  split at h
  · next hknown =>
      rcases Table.mem_upsert.mp h with ⟨h, -⟩ | ⟨rfl, -⟩ | ⟨old, -, hclash, rfl⟩
      · exact Or.inl h
      · exact Or.inr ⟨hknown.2, rfl⟩
      · rw [clash_blob] at hclash
        exact Or.inr ⟨hclash ▸ hknown.2, rfl⟩
  · exact Or.inl h

theorem putWorkCover_rest (s : State) (workId : Id) (webp : List UInt8) :
    (s.putWorkCover workId webp).clock = s.clock ∧
      (s.putWorkCover workId webp).catalog = s.catalog ∧
      (s.putWorkCover workId webp).sweep = s.sweep := by
  unfold State.putWorkCover
  split <;> exact ⟨rfl, rfl, rfl⟩

theorem pass_rest (s : State) (elapsed : Nat) :
    (s.pass elapsed).covers = s.covers ∧ (s.pass elapsed).catalog = s.catalog ∧
      (s.pass elapsed).sweep = s.sweep ∧ s.clock ≤ (s.pass elapsed).clock := by
  unfold State.pass
  split
  · exact ⟨rfl, rfl, rfl, Subtype.mk_le_mk.mpr (Nat.le_add_right _ _)⟩
  · exact ⟨rfl, rfl, rfl, le_rfl⟩

/-! ## What one statement does

To the blobs, the cursor, and the phase. -/

/-- The phase holds ids that were read, or says that the walk came to its end. -/
def Phase.holds : Phase → Bool
  | .check _ | .delete _ | .returned .exhausted => true
  | _ => false

/-- How many statements are left before the next page is turned. -/
def Phase.weight : Phase → Nat
  | .count => coverRatioSample + 4
  | .sample => coverRatioSample + 3
  | .probe _ rest _ => rest.length + 2
  | .read => 1
  | .check _ => 3
  | .delete _ => 2
  | .returned _ => 0

/-- What a statement of the sweep does to the state. -/
inductive Advance (s : State) : State → Prop where
  | rests (outcome : Outcome) (hphase : s.sweep.phase = .returned outcome) : Advance s s
  | goes (phase : Phase) (hfrom : s.sweep.phase.holds = false) (hto : phase.holds = false)
      (hweight : phase.weight < s.sweep.phase.weight) : Advance s (s.goTo phase)
  | ends (hphase : s.sweep.phase = .read) (hnone : s.nextPage.getLast? = none) :
      Advance s (s.goTo (.returned .exhausted))
  | turns (last : Id) (hphase : s.sweep.phase = .read)
      (hlast : s.nextPage.getLast? = some last) : Advance s (s.turnPage s.nextPage last)
  | finds (ids : List Id) (hphase : s.sweep.phase = .check ids) :
      Advance s (s.goTo (.delete (missingWorkIds s.catalog.db ids)))
  | spares (ids : List Id) (hphase : s.sweep.phase = .check ids)
      (hnone : missingWorkIds s.catalog.db ids = []) : Advance s (s.goTo .read)
  | deletes (orphans : List Id) (phase : Phase) (hphase : s.sweep.phase = .delete orphans)
      (hnext : phase = .read ∨ phase = .returned .budget) :
      Advance s ((s.purge orphans).goTo phase)

/-- A probe of the sample gets shorter, and ends in the walk or in a refusal. -/
theorem advance_probe {sampled orphans : Nat} {rest : List Id}
    (hphase : s.sweep.phase = .probe sampled rest orphans) : Advance s s.advance := by
  have hfrom : s.sweep.phase.holds = false := by
    rw [hphase]
    rfl
  cases rest with
  | nil =>
      have hadvance : s.advance = if orphanRateSane orphans sampled then s.goTo .read
          else s.goTo (.returned .insaneRate) := by
        simp only [State.advance, hphase]
      rw [hadvance]
      split <;> exact .goes _ hfrom rfl (by rw [hphase]; simp [Phase.weight])
  | cons first others =>
      have hadvance : s.advance = s.goTo (.probe sampled ((first :: others).drop coverScanBatch)
          (orphans + (missingWorkIds s.catalog.db
            ((first :: others).take coverScanBatch)).length)) := by
        simp only [State.advance, hphase]
      rw [hadvance]
      apply Advance.goes _ hfrom rfl
      rw [hphase]
      show ((first :: others).drop coverScanBatch).length + 2 < (first :: others).length + 2
      rw [List.length_drop, List.length_cons]
      unfold coverScanBatch
      omega

/-- A page is read unless the server shuts down, and turned unless it is empty. -/
theorem advance_read (hphase : s.sweep.phase = .read) : Advance s s.advance := by
  by_cases hshutdown : s.shutdown = true
  · have hadvance : s.advance = s.goTo (.returned .shutdown) := by
      simp only [State.advance, hphase, if_pos hshutdown]
    rw [hadvance]
    exact .goes _ (by rw [hphase]; rfl) rfl (by rw [hphase]; decide)
  · cases hlast : s.nextPage.getLast? with
    | none =>
        have hadvance : s.advance = s.goTo (.returned .exhausted) := by
          simp only [State.advance, hphase, if_neg hshutdown, hlast]
        rw [hadvance]
        exact .ends hphase hlast
    | some last =>
        have hadvance : s.advance = s.turnPage s.nextPage last := by
          simp only [State.advance, hphase, if_neg hshutdown, hlast]
        rw [hadvance]
        exact .turns last hphase hlast

/-- The statements of the sweep, one by one. -/
theorem advance_cases (s : State) : Advance s s.advance := by
  cases hphase : s.sweep.phase with
  | count =>
      have hadvance : s.advance = if s.catalog.db.work.rows.length < coverSweepMinWorks then
          s.goTo (.returned .fewWorks) else s.goTo .sample := by
        simp only [State.advance, hphase]
      rw [hadvance]
      split <;> exact .goes _ (by rw [hphase]; rfl) rfl (by rw [hphase]; decide)
  | sample =>
      have hadvance : s.advance = s.goTo (.probe
          (((coverKeys s.covers).insertionSort (· ≤ ·)).take coverRatioSample).length
          (((coverKeys s.covers).insertionSort (· ≤ ·)).take coverRatioSample) 0) := by
        simp only [State.advance, hphase]
      rw [hadvance]
      refine .goes _ (by rw [hphase]; rfl) rfl ?_
      rw [hphase]
      show (((coverKeys s.covers).insertionSort (· ≤ ·)).take coverRatioSample).length + 2 <
        coverRatioSample + 3
      have hlen := List.length_take_le coverRatioSample
        ((coverKeys s.covers).insertionSort (· ≤ ·))
      omega
  | probe sampled rest orphans => exact advance_probe hphase
  | read => exact advance_read hphase
  | check ids =>
      have hadvance : s.advance = if (missingWorkIds s.catalog.db ids).isEmpty then s.goTo .read
          else s.goTo (.delete (missingWorkIds s.catalog.db ids)) := by
        simp only [State.advance, hphase]
      rw [hadvance]
      split
      · next hempty => exact .spares ids hphase (List.isEmpty_iff.mp hempty)
      · exact .finds ids hphase
  | delete orphans =>
      have hadvance : s.advance =
          if coverDeleteBudget ≤ (s.purge orphans).sweep.deleted then
            (s.purge orphans).goTo (.returned .budget)
          else (s.purge orphans).goTo .read := by
        simp only [State.advance, hphase]
      rw [hadvance]
      split
      · exact .deletes orphans _ hphase (Or.inr rfl)
      · exact .deletes orphans _ hphase (Or.inl rfl)
  | returned outcome =>
      have hadvance : s.advance = s := by
        simp only [State.advance, hphase]
      rw [hadvance]
      exact .rests outcome hphase

/-! ## What the other parties do

They write blobs with the clock of their time, and they take no work away without a
trace. -/

/-- What an event that is not the sweep's does to the state. -/
structure Written (rules : Rules) (s s' : State) : Prop where
  sweep : s'.sweep = s.sweep
  clock : s.clock ≤ s'.clock
  covers : ∀ b ∈ s'.covers,
    b ∈ s.covers ∨ (b.workId ∈ s.catalog.minted ∧ b.written = s.clock)
  catalog : s'.catalog = s.catalog ∨
    ∃ transaction : Transaction, s'.catalog = s.catalog.step rules transaction.op

theorem written_step {e : Event} (h : e.sweeps = false) : Written rules s (s.step rules e) := by
  cases e with
  | tick elapsed =>
      obtain ⟨hcovers, hcatalog, hsweep, hclock⟩ := pass_rest s elapsed
      refine ⟨hsweep, hclock, fun b hb => Or.inl ?_, Or.inl hcatalog⟩
      have hb : b ∈ (s.pass elapsed).covers := hb
      rwa [hcovers] at hb
  | catalog transaction =>
      exact ⟨rfl, le_rfl, fun b hb => Or.inl hb, Or.inr ⟨transaction, rfl⟩⟩
  | putWorkCover workId webp =>
      obtain ⟨hclock, hcatalog, hsweep⟩ := putWorkCover_rest s workId webp
      exact ⟨hsweep, hclock.ge, fun b hb => mem_putWorkCover hb, Or.inl hcatalog⟩
  | reclaimCoverBlob workId =>
      exact ⟨rfl, le_rfl, fun b hb => Or.inl (Table.mem_deleteWhere.mp hb).1, Or.inl rfl⟩
  | shutdown => exact ⟨rfl, le_rfl, fun b hb => Or.inl hb, Or.inl rfl⟩
  | sweep => contradiction

/-- A step is the sweep's, or it is as `Written` says. -/
theorem step_cases (rules : Rules) (s : State) (e : Event) :
    (e.sweeps = false ∧ Written rules s (s.step rules e)) ∨ e = .sweep := by
  cases hsweeps : e.sweeps with
  | false => exact Or.inl ⟨rfl, written_step hsweeps⟩
  | true =>
      right
      cases e with
      | sweep => rfl
      | _ => contradiction

/-- No party brings a work back: a new one gets an id that was never there. -/
structure Retired (catalog : CatalogState) (id : Id) : Prop where
  minted : id ∈ catalog.minted
  gone : catalog.db.hasWork id = false

theorem Retired.step {catalog : CatalogState} (hgrounded : Grounded catalog)
    (h : Retired catalog id) (op : Op) : Retired (catalog.step rules op) id where
  minted := minted_subset_step h.minted
  gone := by
    rw [← Bool.not_eq_true]
    intro hlive
    rcases hasWork_of_step hgrounded hlive with hbefore | hnew
    · rw [h.gone] at hbefore
      contradiction
    · exact hnew h.minted

theorem Written.grounded {s' : State} (h : Written rules s s')
    (hgrounded : Grounded s.catalog) : Grounded s'.catalog := by
  rcases h.catalog with heq | ⟨transaction, heq⟩
  · rw [heq]
    exact hgrounded
  · rw [heq]
    exact grounded_step hgrounded

theorem Written.retired {s' : State} (h : Written rules s s')
    (hgrounded : Grounded s.catalog) (hid : Retired s.catalog id) : Retired s'.catalog id := by
  rcases h.catalog with heq | ⟨transaction, heq⟩
  · rw [heq]
    exact hid
  · rw [heq]
    exact hid.step hgrounded transaction.op

theorem Written.minted {s' : State} (h : Written rules s s') :
    s.catalog.minted ⊆ s'.catalog.minted := by
  rcases h.catalog with heq | ⟨transaction, heq⟩
  · rw [heq]
    exact List.Subset.refl _
  · rw [heq]
    exact minted_subset_step

/-- The sweep does not write the main database. -/
theorem Advance.catalog {s' : State} (h : Advance s s') :
    s'.catalog = s.catalog ∧ s'.clock = s.clock := by
  cases h <;> exact ⟨rfl, rfl⟩

/-- A work that is gone stays gone, whatever comes. -/
theorem retired_run (hgrounded : Grounded s.catalog) (hid : Retired s.catalog id)
    (events : List Event) :
    Retired (Machine.run (State.step rules) s events).catalog id := by
  have hrun : Grounded (Machine.run (State.step rules) s events).catalog ∧
      Retired (Machine.run (State.step rules) s events).catalog id := by
    apply Machine.run_invariant (I := fun s : State => Grounded s.catalog ∧ Retired s.catalog id)
    · intro s e h
      rcases step_cases rules s e with ⟨-, hwritten⟩ | rfl
      · exact ⟨hwritten.grounded h.1, hwritten.retired h.1 h.2⟩
      · show Grounded s.advance.catalog ∧ Retired s.advance.catalog id
        rw [(advance_cases s).catalog.1]
        exact h
    · exact ⟨hgrounded, hid⟩
  exact hrun.2

/-! ## The invariant

What is kept, and what has been walked over. -/

/-- The ids there can ever be: those of the start, and the uuids. -/
@[irreducible] def idSpace (stores : Stores) : Finset Id :=
  stores.catalog.minted.toFinset ∪
    (Finset.univ.image (newId "w_") ∪ Finset.univ.image (newId "ss_"))

theorem card_idSpace_le (stores : Stores) :
    (idSpace stores).card ≤ stores.catalog.minted.length + 2 * 16 ^ 32 := by
  have huuids : ∀ kind : String, (Finset.univ.image (newId kind)).card ≤ 16 ^ 32 := by
    intro kind
    apply Finset.card_image_le.trans
    rw [Finset.card_univ, Fintype.card_fun, Fintype.card_fin, Fintype.card_fin]
  have hboth : (Finset.univ.image (newId "w_") ∪ Finset.univ.image (newId "ss_")).card ≤
      16 ^ 32 + 16 ^ 32 :=
    (Finset.card_union_le _ _).trans (Nat.add_le_add (huuids _) (huuids _))
  unfold idSpace
  apply (Finset.card_union_le _ _).trans
  have hold := List.toFinset_card_le stores.catalog.minted
  omega

theorem mem_idSpace {stores : Stores} :
    id ∈ idSpace stores ↔ id ∈ stores.catalog.minted ∨
      (∃ uuid, id = newId "w_" uuid) ∨ ∃ uuid, id = newId "ss_" uuid := by
  unfold idSpace
  rw [Finset.mem_union, Finset.mem_union, List.mem_toFinset, Finset.mem_image,
    Finset.mem_image]
  simp only [Finset.mem_univ, true_and, eq_comm]

/-- What the two databases keep since the sweep began. -/
structure Kept (stores : Stores) (clock : Instant) (s : State) : Prop where
  grounded : Grounded s.catalog
  minted : stores.catalog.minted ⊆ s.catalog.minted
  spaced : ∀ id ∈ s.catalog.minted, id ∈ idSpace stores
  known : ∀ b ∈ s.covers, b.workId ∈ s.catalog.minted
  /-- A blob that no one wrote since then was there. -/
  early : ∀ b ∈ s.covers, b.written < clock → b.workId ∈ stores.catalog.minted
  retired : ∀ id, Retired stores.catalog id → Retired s.catalog id
  later : clock ≤ s.clock

/-- The walk still comes to this key. -/
def Ahead (sweep : Sweep) (id : Id) : Prop :=
  sweep.cursor < id ∨ (∃ ids, sweep.phase = .check ids ∧ id ∈ ids) ∨
    ∃ orphans, sweep.phase = .delete orphans ∧ id ∈ orphans

/-- Where no ids are held, what is ahead is after the cursor. -/
theorem Ahead.lt {sweep : Sweep} (h : Ahead sweep id)
    (hcheck : ∀ ids, sweep.phase ≠ .check ids) (hdelete : ∀ ids, sweep.phase ≠ .delete ids) :
    sweep.cursor < id := by
  rcases h with hahead | ⟨ids, hphase, -⟩ | ⟨ids, hphase, -⟩
  · exact hahead
  · exact absurd hphase (hcheck ids)
  · exact absurd hphase (hdelete ids)

theorem Ahead.mem_of_check {sweep : Sweep} (h : Ahead sweep id)
    (hphase : sweep.phase = .check ids) : sweep.cursor < id ∨ id ∈ ids := by
  rcases h with hahead | ⟨ids', hcheck, hid⟩ | ⟨ids', hdelete, -⟩
  · exact Or.inl hahead
  · rw [hphase] at hcheck
    exact Or.inr (Phase.check.inj hcheck ▸ hid)
  · rw [hphase] at hdelete
    cases hdelete

theorem Ahead.mem_of_delete {sweep : Sweep} (h : Ahead sweep id)
    (hphase : sweep.phase = .delete orphans) : sweep.cursor < id ∨ id ∈ orphans := by
  rcases h with hahead | ⟨ids', hcheck, -⟩ | ⟨ids', hdelete, hid⟩
  · exact Or.inl hahead
  · rw [hphase] at hcheck
    cases hcheck
  · rw [hphase] at hdelete
    exact Or.inr (Phase.delete.inj hdelete ▸ hid)

/-- What the sweep holds in its hands. -/
def Held (clock : Instant) (s : State) : Prop :=
  match s.sweep.phase with
  | .check ids => ∀ id ∈ ids, id ∈ s.catalog.minted
  | .delete orphans => ∀ id ∈ orphans, Retired s.catalog id
  | .returned .exhausted => ∀ b ∈ s.covers, b.written < clock → b.workId ≤ s.sweep.cursor
  | _ => True

/-- How far the walk is. -/
structure Walked (stores : Stores) (clock : Instant) (s : State) : Prop where
  cutoff : s.sweep.cutoff = cutoffAt clock
  ascends : Keyset.Ascends s.sweep.cursor s.sweep.visited
  passed : ∀ b ∈ s.covers, b.written < clock →
    b.workId ∈ s.sweep.visited ∨ s.sweep.cursor < b.workId
  ahead : ∀ b ∈ s.covers, b.written < cutoffAt clock →
    stores.catalog.db.hasWork b.workId = false → Ahead s.sweep b.workId
  held : Held clock s

section Steps

variable {stores : Stores} {clock : Instant} {s' : State}

theorem kept_begin (stores : Stores) (clock : Instant) :
    Kept stores clock (begin stores clock) where
  grounded := stores.grounded
  minted := List.Subset.refl _
  spaced _ hid := mem_idSpace.mpr (Or.inl hid)
  known := stores.known
  early b hb _ := stores.known b hb
  retired _ hid := hid
  later := le_rfl

/-- A blob from before the sweep is one that was there. -/
theorem Written.mem_of_early (h : Written rules s s') (hkept : Kept stores clock s) {b : Blob}
    (hb : b ∈ s'.covers) (hearly : b.written < clock) : b ∈ s.covers := by
  rcases h.covers b hb with hb | ⟨-, hstamp⟩
  · exact hb
  · rw [hstamp] at hearly
    exact absurd hearly (not_lt.mpr hkept.later)

/-- Other parties delete no blob of a work that is there. -/
theorem kept_written (h : Written rules s s') (hkept : Kept stores clock s) :
    Kept stores clock s' where
  grounded := h.grounded hkept.grounded
  minted := List.Subset.trans hkept.minted h.minted
  spaced id hid := by
    rcases h.catalog with heq | ⟨transaction, heq⟩
    · rw [heq] at hid
      exact hkept.spaced id hid
    · rw [heq] at hid
      unfold CatalogState.step at hid
      split at hid
      · rcases List.mem_append.mp hid with hnew | hold
        · exact mem_idSpace.mpr (Or.inr (transaction.uuids id hnew))
        · exact hkept.spaced id hold
      · exact hkept.spaced id hid
  known b hb := by
    rcases h.covers b hb with hb | ⟨hid, -⟩
    · exact h.minted (hkept.known b hb)
    · exact h.minted hid
  early b hb hearly := hkept.early b (h.mem_of_early hkept hb hearly) hearly
  retired id hid := h.retired hkept.grounded (hkept.retired id hid)
  later := hkept.later.trans h.clock

theorem Advance.mem_covers (h : Advance s s') {b : Blob} (hb : b ∈ s'.covers) :
    b ∈ s.covers := by
  cases h with
  | deletes orphans phase hphase hnext => exact (mem_purge.mp hb).1
  | _ => exact hb

theorem kept_advance (h : Advance s s') (hkept : Kept stores clock s) :
    Kept stores clock s' := by
  obtain ⟨hcatalog, hclock⟩ := h.catalog
  constructor
  · rw [hcatalog]
    exact hkept.grounded
  · rw [hcatalog]
    exact hkept.minted
  · rw [hcatalog]
    exact hkept.spaced
  · intro b hb
    rw [hcatalog]
    exact hkept.known b (h.mem_covers hb)
  · intro b hb
    exact hkept.early b (h.mem_covers hb)
  · rw [hcatalog]
    exact hkept.retired
  · rw [hclock]
    exact hkept.later

theorem walked_begin (stores : Stores) (clock : Instant) :
    Walked stores clock (begin stores clock) where
  cutoff := rfl
  ascends := Keyset.ascends_nil
  passed b _ _ := Or.inr (empty_lt b.named)
  ahead b _ _ _ := Or.inl (empty_lt b.named)
  held := trivial

theorem walked_written (h : Written rules s s') (hkept : Kept stores clock s)
    (hwalked : Walked stores clock s) : Walked stores clock s' := by
  constructor
  · rw [h.sweep]
    exact hwalked.cutoff
  · rw [h.sweep]
    exact hwalked.ascends
  · intro b hb hearly
    rw [h.sweep]
    exact hwalked.passed b (h.mem_of_early hkept hb hearly) hearly
  · intro b hb hold
    rw [h.sweep]
    exact hwalked.ahead b (h.mem_of_early hkept hb (lt_of_lt_of_le hold (cutoffAt_le clock))) hold
  · have hheld := hwalked.held
    unfold Held at hheld ⊢
    rw [h.sweep]
    split
    · next ids hphase =>
        rw [hphase] at hheld
        exact fun id hid => h.minted (hheld id hid)
    · next orphans hphase =>
        rw [hphase] at hheld
        exact fun id hid => h.retired hkept.grounded (hheld id hid)
    · next hphase =>
        rw [hphase] at hheld
        exact fun b hb hearly => hheld b (h.mem_of_early hkept hb hearly) hearly
    · trivial

/-- Only the delete of a batch takes a blob away. -/
theorem deleted_of_advance {b : Blob} (hb : b ∈ s.covers) (hgone : b ∉ s.advance.covers) :
    ∃ orphans, s.sweep.phase = .delete orphans ∧ b.workId ∈ orphans ∧
      b.written < s.sweep.cutoff := by
  have hadvance := advance_cases s
  generalize s.advance = next at hgone hadvance
  cases hadvance with
  | deletes orphans phase hphase hnext =>
      by_contra hnot
      exact hgone (mem_purge.mpr ⟨hb, fun h => hnot ⟨orphans, hphase, h⟩⟩)
  | _ => exact absurd hb hgone

/-- A phase that holds nothing comes after one that holds nothing. -/
theorem walked_goes {phase : Phase} (hfrom : s.sweep.phase.holds = false)
    (hto : phase.holds = false) (hwalked : Walked stores clock s) :
    Walked stores clock (s.goTo phase) where
  cutoff := hwalked.cutoff
  ascends := hwalked.ascends
  passed := hwalked.passed
  ahead b hb hold hgone := by
    apply Or.inl
    apply (hwalked.ahead b hb hold hgone).lt
    · intro ids hphase
      rw [hphase] at hfrom
      cases hfrom
    · intro orphans hphase
      rw [hphase] at hfrom
      cases hfrom
  held := by
    cases phase with
    | check => cases hto
    | delete => cases hto
    | returned outcome =>
        cases outcome with
        | exhausted => cases hto
        | _ => trivial
    | _ => trivial

/-- No key is behind the cursor when a page comes back empty. -/
theorem walked_ends (hphase : s.sweep.phase = .read) (hnone : s.nextPage.getLast? = none)
    (hwalked : Walked stores clock s) :
    Walked stores clock (s.goTo (.returned .exhausted)) := by
  have hbehind : ∀ b ∈ s.covers, b.workId ≤ s.sweep.cursor := by
    intro b hb
    exact Keyset.le_cursor_of_page_empty (by decide) hnone (mem_coverKeys.mpr ⟨b, hb, rfl⟩)
  refine ⟨hwalked.cutoff, hwalked.ascends, hwalked.passed, ?_, fun b hb _ => hbehind b hb⟩
  intro b hb hold hgone
  apply Or.inl
  apply (hwalked.ahead b hb hold hgone).lt <;> simp [hphase]

/-- A page takes up every key before its last. -/
theorem walked_turns {last : Id} (hphase : s.sweep.phase = .read)
    (hlast : s.nextPage.getLast? = some last) (hkept : Kept stores clock s)
    (hwalked : Walked stores clock s) : Walked stores clock (s.turnPage s.nextPage last) := by
  have htaken : ∀ b ∈ s.covers, s.sweep.cursor < b.workId →
      b.workId ∈ s.nextPage ∨ last < b.workId := by
    intro b hb hcursor
    have hsize : 0 < coverScanBatch := by decide
    rcases Keyset.mem_page_or_beyond hsize (mem_coverKeys.mpr ⟨b, hb, rfl⟩) hcursor with
      hmem | ⟨last', hlast', hbeyond⟩
    · exact Or.inl hmem
    · rw [State.nextPage] at hlast
      rw [hlast] at hlast'
      exact Or.inr (Option.some.inj hlast' ▸ hbeyond)
  constructor
  · exact hwalked.cutoff
  · exact hwalked.ascends.append_page (nodup_coverKeys s.covers) hlast
  · intro b hb hearly
    rcases hwalked.passed b hb hearly with hvisited | hahead
    · exact Or.inl (List.mem_append_left _ hvisited)
    · rcases htaken b hb hahead with hpage | hbeyond
      · exact Or.inl (List.mem_append_right _ hpage)
      · exact Or.inr hbeyond
  · intro b hb hold hgone
    have hahead := (hwalked.ahead b hb hold hgone).lt (by simp [hphase]) (by simp [hphase])
    rcases htaken b hb hahead with hpage | hbeyond
    · exact Or.inr (Or.inl ⟨s.nextPage, rfl, hpage⟩)
    · exact Or.inl hbeyond
  · intro id hid
    obtain ⟨b, hb, rfl⟩ := mem_coverKeys.mp (Keyset.mem_of_mem_page hid).1
    exact hkept.known b hb

/-- The probe of a page finds every blob whose work was gone from the start. -/
theorem ahead_of_check {phase : Phase} (hphase : s.sweep.phase = .check ids)
    (hto : ∀ id, id ∈ missingWorkIds s.catalog.db ids →
      ∃ orphans, phase = .delete orphans ∧ id ∈ orphans)
    (hkept : Kept stores clock s) (hwalked : Walked stores clock s) :
    ∀ b ∈ s.covers, b.written < cutoffAt clock →
      stores.catalog.db.hasWork b.workId = false → Ahead (s.goTo phase).sweep b.workId := by
  intro b hb hold hgone
  rcases (hwalked.ahead b hb hold hgone).mem_of_check hphase with hahead | hid
  · exact Or.inl hahead
  · have hminted := hkept.early b hb (lt_of_lt_of_le hold (cutoffAt_le clock))
    have hretired := hkept.retired b.workId ⟨hminted, hgone⟩
    exact Or.inr (Or.inr (hto b.workId (mem_missingWorkIds.mpr ⟨hid, hretired.gone⟩)))

theorem walked_finds (hphase : s.sweep.phase = .check ids) (hkept : Kept stores clock s)
    (hwalked : Walked stores clock s) :
    Walked stores clock (s.goTo (.delete (missingWorkIds s.catalog.db ids))) where
  cutoff := hwalked.cutoff
  ascends := hwalked.ascends
  passed := hwalked.passed
  ahead := by
    have hto : ∀ id, id ∈ missingWorkIds s.catalog.db ids →
        ∃ orphans, Phase.delete (missingWorkIds s.catalog.db ids) = .delete orphans ∧
          id ∈ orphans := fun _ hid => ⟨_, rfl, hid⟩
    exact ahead_of_check (s := s) hphase hto hkept hwalked
  held id hid := by
    obtain ⟨hpage, hgone⟩ := mem_missingWorkIds.mp hid
    have hheld := hwalked.held
    rw [Held, hphase] at hheld
    exact ⟨hheld id hpage, hgone⟩

theorem walked_spares (hphase : s.sweep.phase = .check ids)
    (hnone : missingWorkIds s.catalog.db ids = []) (hkept : Kept stores clock s)
    (hwalked : Walked stores clock s) : Walked stores clock (s.goTo .read) where
  cutoff := hwalked.cutoff
  ascends := hwalked.ascends
  passed := hwalked.passed
  ahead := by
    apply ahead_of_check hphase ?_ hkept hwalked
    intro id hid
    rw [hnone] at hid
    exact absurd hid List.not_mem_nil
  held := trivial

/-- The delete takes what is old of its batch. -/
theorem walked_deletes {phase : Phase} (hphase : s.sweep.phase = .delete orphans)
    (hnext : phase = .read ∨ phase = .returned .budget) (hwalked : Walked stores clock s) :
    Walked stores clock ((s.purge orphans).goTo phase) where
  cutoff := hwalked.cutoff
  ascends := hwalked.ascends
  passed b hb hearly := hwalked.passed b (mem_purge.mp hb).1 hearly
  ahead b hb hold hgone := by
    obtain ⟨hmem, hspared⟩ := mem_purge.mp hb
    rcases (hwalked.ahead b hmem hold hgone).mem_of_delete hphase with hahead | hid
    · exact Or.inl hahead
    · rw [hwalked.cutoff] at hspared
      exact absurd ⟨hid, hold⟩ hspared
  held := by
    rcases hnext with rfl | rfl <;> trivial

/-- A page that is turned has been probed, and what it has found is deleted before. -/
theorem walked_advance (h : Advance s s') (hkept : Kept stores clock s)
    (hwalked : Walked stores clock s) : Walked stores clock s' := by
  cases h with
  | rests outcome hphase => exact hwalked
  | goes phase hfrom hto hweight => exact walked_goes hfrom hto hwalked
  | ends hphase hnone => exact walked_ends hphase hnone hwalked
  | turns last hphase hlast => exact walked_turns hphase hlast hkept hwalked
  | finds ids hphase => exact walked_finds hphase hkept hwalked
  | spares ids hphase hnone => exact walked_spares hphase hnone hkept hwalked
  | deletes orphans phase hphase hnext => exact walked_deletes hphase hnext hwalked

/-- Any event keeps both. -/
theorem kept_walked_step (e : Event) (h : Kept stores clock s ∧ Walked stores clock s) :
    Kept stores clock (s.step rules e) ∧ Walked stores clock (s.step rules e) := by
  rcases step_cases rules s e with ⟨-, hwritten⟩ | rfl
  · exact ⟨kept_written hwritten h.1, walked_written hwritten h.1 h.2⟩
  · exact ⟨kept_advance (advance_cases s) h.1, walked_advance (advance_cases s) h.1 h.2⟩

theorem kept_walked_after (rules : Rules) (stores : Stores) (clock : Instant)
    (events : List Event) :
    Kept stores clock (after rules stores clock events) ∧
      Walked stores clock (after rules stores clock events) :=
  Machine.run_invariant (I := fun s => Kept stores clock s ∧ Walked stores clock s)
    (fun _ e h => kept_walked_step e h) ⟨kept_begin stores clock, walked_begin stores clock⟩ events

/-! ## The sweep comes to an end

New keys may appear behind the cursor, but only finitely many in front of it. -/

/-- How many statements the sweep has left, at most. -/
def rank (stores : Stores) (s : State) : Nat :=
  3 * Keyset.beyond (idSpace stores) s.sweep.cursor + s.sweep.phase.weight

/-- The sweep has returned. -/
def State.ended (s : State) : Prop := ∃ outcome, s.sweep.phase = .returned outcome

theorem rank_advance (h : Advance s s') (hkept : Kept stores clock s) :
    s'.ended ∨ rank stores s' < rank stores s := by
  unfold rank
  cases h with
  | rests outcome hphase => exact Or.inl ⟨outcome, hphase⟩
  | goes phase hfrom hto hweight =>
      exact Or.inr (Nat.add_lt_add_left hweight _)
  | ends hphase hnone => exact Or.inl ⟨_, rfl⟩
  | turns last hphase hlast =>
      right
      have hspace : ∀ id ∈ coverKeys s.covers, id ∈ idSpace stores := by
        intro id hid
        obtain ⟨b, hb, rfl⟩ := mem_coverKeys.mp hid
        exact hkept.spaced _ (hkept.known b hb)
      have hpassed := Keyset.beyond_lt hspace hlast
      rw [hphase]
      show 3 * Keyset.beyond (idSpace stores) last + 3 <
        3 * Keyset.beyond (idSpace stores) s.sweep.cursor + 1
      omega
  | finds ids hphase =>
      right
      rw [hphase]
      exact Nat.add_lt_add_left (Nat.lt_succ_self 2) _
  | spares ids hphase hnone =>
      right
      rw [hphase]
      exact Nat.add_lt_add_left (Nat.lt_add_of_pos_right Nat.two_pos) _
  | deletes orphans phase hphase hnext =>
      rcases hnext with rfl | rfl
      · right
        rw [hphase]
        exact Nat.add_lt_add_left (Nat.lt_succ_self 1) _
      · exact Or.inl ⟨_, rfl⟩

/-- Every statement of the sweep is one less to come. -/
theorem rank_step (e : Event) (hkept : Kept stores clock s) :
    (s.step rules e).ended ∨
      rank stores (s.step rules e) + [e].countP Event.sweeps ≤ rank stores s := by
  rcases step_cases rules s e with ⟨hsweeps, hwritten⟩ | rfl
  · right
    unfold rank
    rw [hwritten.sweep]
    simp [hsweeps]
  · apply (rank_advance (advance_cases s) hkept).imp_right
    intro hless
    exact hless

theorem ended_step (e : Event) (h : s.ended) : (s.step rules e).ended := by
  rcases step_cases rules s e with ⟨-, hwritten⟩ | rfl
  · unfold State.ended
    rw [hwritten.sweep]
    exact h
  · obtain ⟨outcome, hphase⟩ := h
    have hrests : s.advance = s := by simp only [State.advance, hphase]
    show s.advance.ended
    rw [hrests]
    exact ⟨outcome, hphase⟩

/-- The sweep has ended, or less of it is left than there was. -/
theorem rank_after (rules : Rules) (stores : Stores) (clock : Instant) (events : List Event) :
    (after rules stores clock events).ended ∨
      rank stores (after rules stores clock events) + events.countP Event.sweeps ≤
        rank stores (begin stores clock) := by
  induction events using List.reverseRecOn with
  | nil => exact Or.inr le_rfl
  | append_singleton events e ih =>
      have hnext : after rules stores clock (events ++ [e]) =
          (after rules stores clock events).step rules e := Machine.run_concat _ _ _ _
      rw [hnext, List.countP_append]
      rcases ih with hended | hless
      · exact Or.inl (ended_step e hended)
      · apply (rank_step e (kept_walked_after rules stores clock events).1).imp_right
        intro hstep
        omega

/-! ## The sweep of orphaned covers

The two together, at the end of any run. -/

/-- As many statements of its own end a sweep. -/
def statementBound (stores : Stores) : Nat :=
  3 * (stores.catalog.minted.length + 2 * 16 ^ 32) + coverRatioSample + 5

/-- What a sweep that begins at `clock` does, whatever the others do meanwhile. -/
structure SweepsOrphans (rules : Rules) (stores : Stores) (clock : Instant) : Prop where
  /-- A blob that a statement of the sweep deletes was last written before the
  cutoff, and its work is gone from then on. -/
  deletes : ∀ events later b,
    b ∈ (after rules stores clock events).covers →
    b ∉ (after rules stores clock (events ++ [.sweep])).covers →
      b.written.val < clock.val - coverOrphanMinAge ∧
        (after rules stores clock (events ++ [.sweep] ++ later)).catalog.db.hasWork
          b.workId = false
  /-- A sweep that comes to the end of the keys leaves no blob from before the
  cutoff whose work was not there when it began. -/
  misses : ∀ events, (after rules stores clock events).sweep.phase = .returned .exhausted →
    ∀ b ∈ (after rules stores clock events).covers,
      b.written.val < clock.val - coverOrphanMinAge →
        stores.catalog.db.hasWork b.workId = true
  /-- No key is visited twice, and at the end of the keys none was passed over
  whose blob is still as it was. -/
  visits : ∀ events, (after rules stores clock events).sweep.visited.Pairwise (· < ·) ∧
    ((after rules stores clock events).sweep.phase = .returned .exhausted →
      ∀ b ∈ (after rules stores clock events).covers, b.written < clock →
        b.workId ∈ (after rules stores clock events).sweep.visited)
  terminates : ∀ events, statementBound stores ≤ events.countP Event.sweeps →
    (after rules stores clock events).ended

/-- **The sweep deletes orphans and nothing else.**  Whatever the other parties do
between its statements, it deletes only old blobs of works that are gone for good,
leaves none behind that was an orphan when it began, visits no key twice, and ends. -/
theorem sweepsOrphans (rules : Rules) (stores : Stores) (clock : Instant) :
    SweepsOrphans rules stores clock where
  deletes events later b hb hgone := by
    obtain ⟨hkept, hwalked⟩ := kept_walked_after rules stores clock events
    have hnext : after rules stores clock (events ++ [.sweep]) =
        (after rules stores clock events).advance := Machine.run_concat _ _ _ _
    have hrun : after rules stores clock (events ++ [.sweep] ++ later) =
        Machine.run (State.step rules) (after rules stores clock events).advance later := by
      rw [← hnext]
      exact Machine.run_append _ _ _ _
    rw [hnext] at hgone
    obtain ⟨orphans, hphase, hid, hold⟩ := deleted_of_advance hb hgone
    have hheld := hwalked.held
    rw [Held, hphase] at hheld
    rw [hwalked.cutoff] at hold
    refine ⟨lt_cutoffAt.mp hold, ?_⟩
    rw [hrun]
    have hcatalog := (advance_cases (after rules stores clock events)).catalog.1
    apply Retired.gone
    apply retired_run
    · rw [hcatalog]
      exact hkept.grounded
    · rw [hcatalog]
      exact hheld b.workId hid
  misses events hphase b hb hold := by
    obtain ⟨hkept, hwalked⟩ := kept_walked_after rules stores clock events
    by_contra hgone
    rw [Bool.not_eq_true] at hgone
    have hheld := hwalked.held
    rw [Held, hphase] at hheld
    rw [← lt_cutoffAt] at hold
    have hbehind := hheld b hb (lt_of_lt_of_le hold (cutoffAt_le clock))
    have hahead := (hwalked.ahead b hb hold hgone).lt (by simp [hphase]) (by simp [hphase])
    exact absurd hahead (not_lt.mpr hbehind)
  visits events := by
    obtain ⟨-, hwalked⟩ := kept_walked_after rules stores clock events
    refine ⟨hwalked.ascends.sorted, ?_⟩
    intro hphase b hb hearly
    have hheld := hwalked.held
    rw [Held, hphase] at hheld
    rcases hwalked.passed b hb hearly with hvisited | hahead
    · exact hvisited
    · exact absurd hahead (not_lt.mpr (hheld b hb hearly))
  terminates events hmany := by
    rcases rank_after rules stores clock events with hended | hless
    · exact hended
    · exfalso
      have hbeyond := Keyset.beyond_le (idSpace stores) (begin stores clock).sweep.cursor
      have hcard := card_idSpace_le stores
      have hbegin : rank stores (begin stores clock) =
          3 * Keyset.beyond (idSpace stores) (begin stores clock).sweep.cursor +
            (coverRatioSample + 4) := rfl
      unfold statementBound at hmany
      omega

end Steps

end Komika.Covers.OrphanSweep
