import Komika.Catalog.SpineWriters

/-!
# The ledger-ready latch

`is_complete` (`catalog/ledger.rs`) asks whether the ledger has caught up with
the spine, and once the answer was yes it never asks again: the writers that
add chapters after the seed are said to record their events in the same breath.

An answer of yes stays true along a run exactly if, from the latch on, every
step keeps the spine at rest, some event, and every seedable chapter recorded
(`latchSound_iff`).  Not every step does: the writers record only what is
released when they write, swallow the failure of the record, and a mapping can
be added or moved away from the events of its chapters.

A step is a whole writer, or a whole call of the check, on one state of the
database; between the transactions of one writer its chapters are pending.

* `honestCheck_iff` — what the honest answer means;
* `honest_tick_iff`, `honest_firehosePage_iff`, `honest_fillReadable_iff`,
  `honest_putChapters_iff`, `honest_catalogue_iff` — when each kind of step leaves it at
  yes;
* `latched_step_iff` — a latched yes is honest after a step exactly if the step keeps
  it;
* `latchSound_iff` — the same for runs;
* `not_latchSound_scheduled` — time alone is enough to break it.
-/

namespace Komika.Catalog.ReadyLatch

open Komika.Lib
open Komika.Catalog.Schema Komika.Catalog.Database Komika.Catalog.Ingest
open Komika.Catalog.Ledger Komika.Catalog.Runs Komika.Catalog.Integrity
open Komika.Catalog.Anchors Komika.Catalog.LedgerRuns Komika.Catalog.SpineKeys
open Komika.Catalog.Seeding Komika.Catalog.Coverage Komika.Catalog.SpineWriters
open Komika.Cache.SeriesCache Komika.Cache.SpineMirror
open Komika.Feed.Schema (SuwayomiChapter)

variable {ν : Type}

/-! ## The memo

`ReadyMemo`, with the window in which a negative answer is not looked up again. -/

/-- The least `i64`, the time of a check that never was. -/
def i64Min : Int := -2 ^ 63

/-- The greatest `i64`, at which differences saturate. -/
def i64Max : Int := 2 ^ 63 - 1

/-- `i64::saturating_sub`, so that the first check is always due. -/
def saturatingSub (a b : Int) : Int := max i64Min (min i64Max (a - b))

/-- `READY_RECHECK_MS`: between two honest checks of a ledger that was not ready. -/
def readyRecheckMs : Int := 60000

/-- The latch, and when it was last checked. -/
structure ReadyMemo where
  ready : Bool
  lastCheckMs : Int
deriving DecidableEq, Repr

/-- `ReadyMemo::new`: the latch is closed, and no check has been made. -/
def ReadyMemo.new : ReadyMemo := ⟨false, i64Min⟩

/-- `ReadyMemo::poll`: `none` runs the honest check, and arms the window. -/
def ReadyMemo.poll (memo : ReadyMemo) (nowMs : Int) : Option Bool × ReadyMemo :=
  if memo.ready then (some true, memo)
  else if saturatingSub nowMs memo.lastCheckMs < readyRecheckMs then (some false, memo)
  else (none, { memo with lastCheckMs := nowMs })

/-- `ReadyMemo::latch`: whether this call was the transition. -/
def ReadyMemo.latch (memo : ReadyMemo) : Bool × ReadyMemo :=
  (!memo.ready, { memo with ready := true })

/-- `ReadyMemo::forget`: closes the latch, so that the next call checks again. -/
def ReadyMemo.forget (memo : ReadyMemo) : ReadyMemo :=
  { memo with ready := false, lastCheckMs := i64Min }

/-- What `is_complete_memoised` answers when the memo does not. -/
def honestCheck (spine : SpineRules) (nowMs : Int) (cache : Table SuwayomiChapter)
    (db : Db) : Bool :=
  if Cache.SeriesCache.remaining cache db ≠ (0, 0) then false
  else
    let (events, pending) := Seeding.remaining spine nowMs db
    0 < events && pending = 0

/-- `is_complete_memoised`: the memo answers while it may; an honest yes opens the
latch. -/
def isCompleteMemoised (spine : SpineRules) (nowMs : Int)
    (cache : Table SuwayomiChapter) (db : Db) (memo : ReadyMemo) : Bool × ReadyMemo :=
  match memo.poll nowMs with
  | (some answer, memo) => (answer, memo)
  | (none, memo) =>
      let ready := honestCheck spine nowMs cache db
      (ready, if ready then memo.latch.2 else memo)

/-- Nothing is left to drain, there is an event, and every seedable chapter has one. -/
theorem honestCheck_iff {spine : SpineRules} {nowMs : Int}
    {cache : Table SuwayomiChapter} {db : Db} :
    honestCheck spine nowMs cache db = true ↔
      Drained cache db ∧ (∃ e, e ∈ db.releaseEvent) ∧ Covered spine nowMs db := by
  have hevents : 0 < (Seeding.remaining spine nowMs db).1 ↔
      ∃ e, e ∈ db.releaseEvent := List.length_pos_iff_exists_mem
  unfold honestCheck
  split
  · next hbusy =>
      rw [Ne, remaining_eq_zero_iff] at hbusy
      exact iff_of_false Bool.false_ne_true fun h => hbusy h.1
  · next hidle =>
      rw [Ne, remaining_eq_zero_iff, not_not] at hidle
      rw [← remaining_snd_eq_zero_iff, ← hevents]
      simp only [Bool.and_eq_true, decide_eq_true_eq]
      exact ⟨fun h => ⟨hidle, h⟩, fun h => h.2⟩

/-- The memo latches only on an honest yes. -/
theorem ready_isCompleteMemoised {spine : SpineRules} {nowMs : Int}
    {cache : Table SuwayomiChapter} {db : Db} {memo : ReadyMemo}
    (h : (isCompleteMemoised spine nowMs cache db memo).2.ready = true) :
    memo.ready = true ∨ honestCheck spine nowMs cache db = true := by
  unfold isCompleteMemoised ReadyMemo.poll at h
  by_cases hready : memo.ready = true
  · exact .inl hready
  · refine .inr ?_
    rw [if_neg hready] at h
    split at h
    · next heq =>
        split at heq
        · cases heq
          exact absurd h hready
        · cases heq
    · next heq =>
        split at heq
        · cases heq
        · cases heq
          dsimp only at h
          split at h
          · assumption
          · exact absurd h hready

theorem ready_poll (memo : ReadyMemo) (nowMs : Int) :
    (memo.poll nowMs).2.ready = memo.ready := by
  unfold ReadyMemo.poll
  split
  · rfl
  · split <;> rfl

/-- A latched memo answers by itself, and stays as it is. -/
theorem isCompleteMemoised_of_ready {spine : SpineRules} {nowMs : Int}
    {cache : Table SuwayomiChapter} {db : Db} {memo : ReadyMemo}
    (h : memo.ready = true) :
    isCompleteMemoised spine nowMs cache db memo = (true, memo) := by
  unfold isCompleteMemoised ReadyMemo.poll
  rw [if_pos h]

/-! ## Runs -/

/-- The catalogue, the cached chapters, the memo and the clock. -/
structure LatchState where
  catalog : CatalogState
  suwayomiChapter : Table SuwayomiChapter
  memo : ReadyMemo
  nowMs : Int

/-- The empty catalogue, in a process that has just begun. -/
def LatchState.start (nowMs : Int) : LatchState := ⟨.init, .empty, .new, nowMs⟩

/-- Time, a check, a restart, or one of the writers. -/
inductive LatchEvent where
  /-- Time passes. -/
  | tick (elapsed : Nat)
  /-- A call of `is_complete`, one of whose queries may fail. -/
  | check (fails : Bool)
  /-- The latch is forgotten, or the process is restarted. -/
  | forget
  /-- A transaction of the catalogue that writes neither chapters nor events by
  itself. -/
  | catalogue (op : Op)
  | putChapters (put : Put)
  | firehosePage (page : Page)
  | fillReadable (fills : List ReadableFill)
  | drainChapterKeys
  | drainSuwayomiSeries (newId : Id → Int → Id)
  | seedLedger

/-- The chapter cache after a transaction of the catalogue: the purge empties it
of the series it deletes. -/
def LatchState.cacheAfter (s : LatchState) : Op → Table SuwayomiChapter
  | .purgeForeignLanguageSuwayomi =>
      s.suwayomiChapter.deleteWhere fun c => (nonEnglish s.catalog.db).contains c.mangaId
  | _ => s.suwayomiChapter

/-- Chapters and events are written. -/
def LatchState.write (s : LatchState) (db : Db) : LatchState :=
  { s with catalog := { s.catalog with db := db } }

/-- A step of a writer, on the catalogue and on the cache. -/
def LatchState.step (rules : WriterRules ν) (s : LatchState) : LatchEvent → LatchState
  | .tick elapsed => { s with nowMs := s.nowMs + elapsed }
  | .check fails =>
      { s with
        memo := if fails then (s.memo.poll s.nowMs).2
          else (isCompleteMemoised rules.spine s.nowMs s.suwayomiChapter s.catalog.db
            s.memo).2 }
  | .forget => { s with memo := s.memo.forget }
  | .catalogue op =>
      if writesSpine op then s
      else { s with
        catalog := s.catalog.step rules.catalogue op
        suwayomiChapter := s.cacheAfter op }
  | .putChapters put =>
      let (cache, db) := putChapters rules s.nowMs put s.suwayomiChapter s.catalog.db
      { s.write db with suwayomiChapter := cache }
  | .firehosePage page => s.write (firehosePage rules s.nowMs page s.catalog.db)
  | .fillReadable fills => s.write (fillReadable fills s.catalog.db)
  | .drainChapterKeys => s.write (drainChapterKeys rules s.catalog.db)
  | .drainSuwayomiSeries newId =>
      s.write (drainSuwayomiSeries rules newId s.suwayomiChapter s.catalog.db)
  | .seedLedger =>
      s.write (seedLedgerIfSpineComplete rules s.nowMs s.suwayomiChapter s.catalog.db).2

/-- The honest answer in a state. -/
def LatchState.honest (rules : WriterRules ν) (s : LatchState) : Bool :=
  honestCheck rules.spine s.nowMs s.suwayomiChapter s.catalog.db

/-- The latch is sound along a run: it closes only where the spine has nothing
remaining, the ledger an event, and no seedable chapter none; and while it is
closed none is pending, and the honest answer is the latched one. -/
structure LatchSound (rules : WriterRules ν) (s : LatchState)
    (events : List LatchEvent) : Prop where
  latches : Machine.EachStep (LatchState.step rules)
    (fun s e => s.memo.ready = false → (s.step rules e).memo.ready = true →
      Cache.SeriesCache.remaining s.suwayomiChapter s.catalog.db = (0, 0) ∧
        0 < (Seeding.remaining rules.spine s.nowMs s.catalog.db).1 ∧
        (Seeding.remaining rules.spine s.nowMs s.catalog.db).2 = 0) s events
  pending : Machine.Always (LatchState.step rules)
    (fun s => s.memo.ready = true →
      (Seeding.remaining rules.spine s.nowMs s.catalog.db).2 = 0) s events
  answers : Machine.Always (LatchState.step rules)
    (fun s => s.memo.ready = true →
      (isCompleteMemoised rules.spine s.nowMs s.suwayomiChapter s.catalog.db
        s.memo).1 = s.honest rules) s events

/-! ## Which steps keep an honest yes

The condition on one step, case by case, as the writers of the spine make it. -/

/-- The transaction adds no Suwayomi mapping whose series has cached chapters. -/
def AddsDrained (rules : WriterRules ν) (s : LatchState) (op : Op) : Prop :=
  ∀ ss ∈ (s.catalog.step rules.catalogue op).db.sourceSeries,
    (∀ old ∈ s.catalog.db.sourceSeries, old.id ≠ ss.id) →
      ¬Cached (s.cacheAfter op) ss

/-- Some event is of a work that the transaction does not delete. -/
def LeavesEvent (s : LatchState) (op : Op) : Prop :=
  ∃ e ∈ s.catalog.db.releaseEvent, deletesWork s.catalog.db op e.workId = false

/-- What a step has to be, in a state where the honest answer is yes, for it to
be yes after it:

* time passes the date of no chapter that has no event;
* a list that `put_chapters` stores leaves no mapping of its series without
  rows, and if recording it fails, every released chapter it writes has an event
  already;
* a released chapter that a page or the backfill writes has an event already,
  or the page records one for its key on its work;
* no mapping is added for a series with cached chapters, a split or a move takes
  the events of the chapters it moves along, and a deletion leaves an event. -/
def Keeps (rules : WriterRules ν) (s : LatchState) : LatchEvent → Prop
  | .tick elapsed =>
      ∀ r ∈ spine s.catalog.db, ∀ key ms,
        seedable rules.spine (s.nowMs + elapsed) r.2 = some (key, ms) →
          s.nowMs < ms → recorded s.catalog.db r = true
  | .putChapters put =>
      ∀ cache, put.rewritten s.suwayomiChapter s.catalog.db = some cache →
        put.Materialises rules s.catalog.db ∧
          (put.ledgerFails = true → WritesCovered rules.spine s.nowMs s.catalog.db
            (put.spine rules s.catalog.db) [])
  | .firehosePage page =>
      WritesCovered rules.spine s.nowMs s.catalog.db
        (page.written rules s.catalog.db).2 (page.flushed rules s.catalog.db)
  | .fillReadable fills =>
      WritesCovered rules.spine s.nowMs s.catalog.db (fillReadable fills s.catalog.db) []
  | .catalogue op => writesSpine op = false →
      AddsDrained rules s op ∧ OpCovered rules.catalogue s.nowMs s.catalog op ∧
        LeavesEvent s op
  | .check _ | .forget | .drainChapterKeys | .drainSuwayomiSeries _ | .seedLedger => True

/-- What holds in every state: the foreign keys of the catalogue, and that the
mappings of chapters were minted. -/
structure Consistent (s : CatalogState) : Prop where
  grounded : Grounded s
  plans : PlansKnown s
  owned : ∀ c ∈ s.db.chapter, c.sourceSeriesId ∈ s.minted

section Invariant

variable {rules : WriterRules ν} {s : LatchState}

/-- Writers of chapters and events keep it. -/
theorem consistent_write {c : CatalogState} {db : Db} (h : Consistent c)
    (hwrite : LedgerWrite c.db db) : Consistent { c with db := db } where
  grounded := by
    have hwork : ∀ id, db.hasWork id = c.db.hasWork id := by
      intro id
      rw [hwrite.frame]
      rfl
    refine ⟨fun e he => ?_, h.grounded.linked.of_grows (fun id hid => ?_)
      (fun r hr => .inl ⟨r, ?_, rfl⟩) fun e he => ?_, fun id hid => ?_⟩
    · rw [hwrite.frame] at he
      exact (hwork _).trans (h.grounded.claims_live e he)
    · exact (hwork id).trans hid
    · exact hwrite.sourceSeries ▸ hr
    · refine (hwrite.events e he).imp_right fun ⟨ss, hss, heq⟩ => ?_
      rw [hwork, ← heq]
      exact h.grounded.linked.mappings ss hss
    · exact h.grounded.live_minted id ((hwork id).symm.trans hid)
  plans := by
    refine ⟨fun r hr => ?_, h.plans.plan_minted, fun plan hplan d hd r hr => ?_⟩
    · exact h.plans.mapping_minted r (hwrite.sourceSeries ▸ hr)
    · exact h.plans.agrees plan hplan d hd r (hwrite.sourceSeries ▸ hr)
  owned ch hch := by
    rcases hwrite.owned ch hch with ⟨old, hold, heq⟩ | ⟨ss, hss, hid⟩
    · rw [← heq]
      exact h.owned old hold
    · rw [← hid]
      exact h.plans.mapping_minted ss hss

theorem consistent_catalogue {c : CatalogState} {rules : Rules} {op : Op}
    (h : Consistent c) (hop : writesSpine op = false) :
    Consistent (c.step rules op) where
  grounded := grounded_step h.grounded
  plans := plansKnown_step h.plans
  owned ch hch := by
    apply minted_subset_step
    cases hfresh : c.fresh op with
    | true =>
        rw [step_db_of_fresh hfresh] at hch
        exact h.owned ch ((write_keepsChapters hop).old ch hch)
    | false =>
        rw [step_of_not_fresh hfresh] at hch
        exact h.owned ch hch

theorem consistent_step (e : LatchEvent) (h : Consistent s.catalog) :
    Consistent (s.step rules e).catalog := by
  cases e with
  | tick | check | forget => exact h
  | catalogue op =>
      unfold LatchState.step
      dsimp only
      split
      · exact h
      · next hop => exact consistent_catalogue h (by simpa using hop)
  | putChapters put => exact consistent_write h (ledgerWrite_putChapters put _)
  | firehosePage page => exact consistent_write h (ledgerWrite_firehosePage page)
  | fillReadable fills => exact consistent_write h (ledgerWrite_fillReadable fills)
  | drainChapterKeys => exact consistent_write h ledgerWrite_drainChapterKeys
  | drainSuwayomiSeries newId => exact consistent_write h (ledgerWrite_drainSeries _ _ _)
  | seedLedger => exact consistent_write h (ledgerWrite_seedLedger _)

theorem consistent_start (nowMs : Int) : Consistent (LatchState.start nowMs).catalog where
  grounded := grounded_init
  plans := plansKnown_init
  owned c hc := absurd hc (Table.not_mem_empty c)

end Invariant

/-! ## One step

Each case is an equivalence, from a state whose honest answer is yes. -/

section Steps

variable {rules : WriterRules ν} {s : LatchState}

/-- Chapters are written to a spine at rest, and mappings recorded. -/
theorem honest_write_iff {written : Db} (ssids : List Id)
    (h : s.honest rules = true) (hrest : KeepsRest s.catalog.db written)
    (hevent : written.releaseEvent = s.catalog.db.releaseEvent) :
    (s.write (recordAll rules.spine s.nowMs ssids written)).honest rules = true ↔
      WritesCovered rules.spine s.nowMs s.catalog.db written ssids := by
  obtain ⟨hdrained, ⟨e, he⟩, hcovered⟩ := honestCheck_iff.mp h
  have hframe := @recordAll_frame rules.spine s.nowMs ssids written
  have hafter : Drained s.suwayomiChapter
      (recordAll rules.spine s.nowMs ssids written) := by
    have hwritten := hrest.drained hdrained
    rw [hframe]
    exact ⟨hwritten.keyed, hwritten.materialised⟩
  have hsome : ∃ e, e ∈ (recordAll rules.spine s.nowMs ssids written).releaseEvent :=
    ⟨e, mem_recordAll_of_mem (hevent ▸ he)⟩
  rw [← covered_write_iff _ hcovered hrest.mappings hevent]
  exact honestCheck_iff.trans ⟨fun h => h.2.2, fun h => ⟨hafter, hsome, h⟩⟩

/-- Time leaves a yes honest exactly if it reaches no date of an unrecorded chapter. -/
theorem honest_tick_iff (h : s.honest rules = true) (elapsed : Nat) :
    (s.step rules (.tick elapsed)).honest rules = true ↔ Keeps rules s (.tick elapsed) := by
  obtain ⟨hdrained, hevent, hcovered⟩ := honestCheck_iff.mp h
  refine honestCheck_iff.trans ⟨fun h => ?_, fun h => ⟨hdrained, hevent, ?_⟩⟩
  · exact (covered_later_iff hcovered).mp h.2.2
  · exact (covered_later_iff hcovered).mpr h

/-- A page does exactly if what it writes and what is released by now is recorded. -/
theorem honest_firehosePage_iff (h : s.honest rules = true) (page : Page) :
    (s.step rules (.firehosePage page)).honest rules = true ↔
      Keeps rules s (.firehosePage page) := by
  refine honest_write_iff _ h (keepsRest_written page) ?_
  exact releaseEvent_written page

/-- The backfill of release times likewise; it records nothing itself. -/
theorem honest_fillReadable_iff (h : s.honest rules = true)
    (fills : List ReadableFill) :
    (s.step rules (.fillReadable fills)).honest rules = true ↔
      Keeps rules s (.fillReadable fills) :=
  honest_write_iff [] h (keepsRest_fillReadable fills) rfl

/-- What is written to one mapping, that mapping announces. -/
theorem writesCovered_put {put : Put} {ssid : Id} {written : Db} {nowMs : Int}
    {db : Db} (hwritten : put.written rules db = some (ssid, written)) :
    WritesCovered rules.spine nowMs db written [ssid] := by
  obtain ⟨-, -, -, helsewhere, -⟩ := Put.written_some hwritten
  intro r hr hnew hseed
  obtain ⟨hss, hc, hon⟩ := mem_spine.mp hr
  have hssid : r.2.sourceSeriesId = ssid := by
    by_contra hne
    exact hnew ((helsewhere r.2 hne).mp hc)
  exact .inr ⟨ssid, List.mem_singleton_self ssid, r, hr, hon.symm.trans hssid, rfl,
    rfl, hseed⟩

/-- A replacement that leaves nothing to drain is recorded. -/
theorem step_putChapters_recorded {put : Put} {cache : Table SuwayomiChapter} {ssid : Id}
    {written : Db} (hcache : put.rewritten s.suwayomiChapter s.catalog.db = some cache)
    (hwritten : put.written rules s.catalog.db = some (ssid, written))
    (h : Drained cache written ∧ put.ledgerFails = false) :
    s.step rules (.putChapters put) =
      { s.write (recordAll rules.spine s.nowMs [ssid] written) with
        suwayomiChapter := cache } := by
  have hidle : Cache.SeriesCache.remaining cache written = (0, 0) :=
    remaining_eq_zero_iff.mpr h.1
  simp only [LatchState.step, putChapters, hcache, hwritten, hidle, h.2, decide_true,
    Bool.not_false, Bool.and_self, if_true]
  rfl

/-- Any other is only written. -/
theorem step_putChapters_skipped {put : Put} {cache : Table SuwayomiChapter} {ssid : Id}
    {written : Db} (hcache : put.rewritten s.suwayomiChapter s.catalog.db = some cache)
    (hwritten : put.written rules s.catalog.db = some (ssid, written))
    (h : ¬(Drained cache written ∧ put.ledgerFails = false)) :
    s.step rules (.putChapters put) =
      { s.write written with suwayomiChapter := cache } := by
  have hskip : (decide (Cache.SeriesCache.remaining cache written = (0, 0)) &&
      !put.ledgerFails) = false := by
    rw [← Bool.not_eq_true]
    intro hboth
    simp only [Bool.and_eq_true, decide_eq_true_eq, Bool.not_eq_true',
      remaining_eq_zero_iff] at hboth
    exact h hboth
  simp only [LatchState.step, putChapters, hcache, hwritten, hskip, Bool.false_eq_true, if_false]

/-- A list that is stored does if nothing of its series is left to drain, and what it
writes is recorded. -/
theorem honest_putChapters_iff (h : s.honest rules = true) (put : Put) :
    (s.step rules (.putChapters put)).honest rules = true ↔
      Keeps rules s (.putChapters put) := by
  obtain ⟨hdrained, ⟨e, he⟩, hcovered⟩ := honestCheck_iff.mp h
  cases hcache : put.rewritten s.suwayomiChapter s.catalog.db with
  | none =>
      have hstep : s.step rules (.putChapters put) = s := by
        simp only [LatchState.step, putChapters, hcache]
        rfl
      rw [hstep]
      exact iff_of_true h fun cache heq => by rw [hcache] at heq; contradiction
  | some cache =>
      have hrest : Drained cache (put.spine rules s.catalog.db) ↔
          put.Materialises rules s.catalog.db := drained_put_iff hcache hdrained
      have hkeeps : Keeps rules s (.putChapters put) ↔
          put.Materialises rules s.catalog.db ∧
            (put.ledgerFails = true → WritesCovered rules.spine s.nowMs s.catalog.db
              (put.spine rules s.catalog.db) []) :=
        ⟨fun h => h cache hcache, fun h _ _ => h⟩
      rw [hkeeps, ← hrest]
      cases hwritten : put.written rules s.catalog.db with
      | none =>
          have hspine : put.spine rules s.catalog.db = s.catalog.db := by
            rw [Put.spine, hwritten]
          have hstep : s.step rules (.putChapters put) =
              { s with suwayomiChapter := cache } := by
            simp only [LatchState.step, putChapters, hcache, hwritten]
            rfl
          rw [hstep, hspine]
          refine honestCheck_iff.trans ⟨fun h => ⟨h.1, fun _ r hr hnew => ?_⟩,
            fun h => ⟨h.1, ⟨e, he⟩, hcovered⟩⟩
          exact absurd (mem_spine.mp hr).2.1 hnew
      | some pair =>
          obtain ⟨ssid, written⟩ := pair
          have hspine : put.spine rules s.catalog.db = written := by
            rw [Put.spine, hwritten]
          obtain ⟨hwrite, -, hevent, -⟩ := Put.written_some hwritten
          rw [hspine]
          by_cases hrecords : Drained cache written ∧ put.ledgerFails = false
          · -- the mapping is recorded
            rw [step_putChapters_recorded hcache hwritten hrecords]
            refine iff_of_true (honestCheck_iff.mpr ⟨?_, ⟨e, ?_⟩, ?_⟩)
              ⟨hrecords.1, fun hfails => ?_⟩
            · exact ⟨hrecords.1.keyed, hrecords.1.materialised⟩
            · exact mem_recordAll_of_mem (hevent ▸ he)
            · exact (covered_write_iff _ hcovered hwrite.sourceSeries hevent).mpr
                (writesCovered_put hwritten)
            · rw [hrecords.2] at hfails
              contradiction
          · rw [step_putChapters_skipped hcache hwritten hrecords]
            have hcov : Covered rules.spine s.nowMs written ↔
                WritesCovered rules.spine s.nowMs s.catalog.db written [] :=
              covered_write_iff [] hcovered hwrite.sourceSeries hevent
            refine honestCheck_iff.trans ⟨fun h => ⟨h.1, fun _ => hcov.mp h.2.2⟩,
              fun h => ⟨h.1, ⟨e, hevent ▸ he⟩, hcov.mpr (h.2 ?_)⟩⟩
            rw [← Bool.not_eq_false]
            exact fun hfails => hrecords ⟨h.1, hfails⟩

/-- A chapter of a mapping that the transaction keeps is of a mapping that was
there, with the same series. -/
theorem drained_catalogue_iff (hc : Consistent s.catalog) {op : Op}
    (hop : writesSpine op = false)
    (h : Drained s.suwayomiChapter s.catalog.db) :
    Drained (s.cacheAfter op) (s.catalog.step rules.catalogue op).db ↔
      AddsDrained rules s op := by
  have hchapters : KeepsChapters s.catalog.db (s.catalog.step rules.catalogue op).db := by
    cases hfresh : s.catalog.fresh op with
    | true =>
        rw [step_db_of_fresh hfresh]
        exact write_keepsChapters hop
    | false =>
        rw [step_of_not_fresh hfresh]
        exact .of_eq rfl
  have hshrinks : ∀ c ∈ s.cacheAfter op, c ∈ s.suwayomiChapter := by
    intro c hcache
    unfold LatchState.cacheAfter at hcache
    split at hcache
    · exact (Table.mem_deleteWhere.mp hcache).1
    · exact hcache
  constructor
  · intro hafter ss hss hnew hcached
    obtain ⟨c, hch, hid⟩ := hafter.materialised ss hss hcached
    rcases sameMapping_step hss with ⟨old, hold, hsame⟩ | ⟨hunminted, -⟩
    · exact hnew old hold hsame.1.symm
    · exact hunminted (hid ▸ hc.owned c (hchapters.old c hch))
  · intro hadds
    refine ⟨fun c hch => h.keyed c (hchapters.old c hch), fun ss hss hcached => ?_⟩
    by_cases hold : ∃ old ∈ s.catalog.db.sourceSeries, old.id = ss.id
    · obtain ⟨old, hold, hid⟩ := hold
      have hkey : ss.key = old.key := by
        rcases sameMapping_step hss with ⟨other, hother, hsame⟩ | ⟨hunminted, -⟩
        · have heq : other = old := Table.eq_of_clash hother hold
            (decide_eq_true (.inl (hsame.1.symm.trans hid.symm)))
          exact heq ▸ hsame.2
        · exact absurd (hid ▸ hc.plans.mapping_minted old hold) hunminted
      obtain ⟨htype, hrest⟩ := Prod.mk.inj hkey
      obtain ⟨hsuwayomi, c, hcache, hmanga⟩ := hcached
      have hcachedOld : Cached s.suwayomiChapter old := by
        refine ⟨htype.symm.trans hsuwayomi, c, hshrinks c hcache, ?_⟩
        rw [hmanga, (Prod.mk.inj hrest).2]
      obtain ⟨ch, hch, hon⟩ := h.materialised old hold hcachedOld
      exact ⟨ch, hchapters.kept ch hch ss hss (hid.symm.trans hon.symm),
        hon.trans hid⟩
    · push Not at hold
      exact absurd hcached (hadds ss hss hold)

/-- A step of the catalogue does if it adds nothing to drain, leaves an event, and moves
no chapter away from its event. -/
theorem honest_catalogue_iff (hc : Consistent s.catalog) (h : s.honest rules = true)
    (op : Op) :
    (s.step rules (.catalogue op)).honest rules = true ↔ Keeps rules s (.catalogue op) := by
  cases hop : writesSpine op with
  | true =>
      have hstep : s.step rules (.catalogue op) = s := by
        simp [LatchState.step, hop]
      rw [hstep]
      exact iff_of_true h fun hfalse => by rw [hop] at hfalse; contradiction
  | false =>
      obtain ⟨hdrained, ⟨e, he⟩, hcovered⟩ := honestCheck_iff.mp h
      have hstep : s.step rules (.catalogue op) = { s with
          catalog := s.catalog.step rules.catalogue op
          suwayomiChapter := s.cacheAfter op } := by
        simp [LatchState.step, hop]
      have hkeeps : Keeps rules s (.catalogue op) ↔
          AddsDrained rules s op ∧ OpCovered rules.catalogue s.nowMs s.catalog op ∧
            LeavesEvent s op := ⟨fun h => h hop, fun h _ => h⟩
      have hcoveredIff : Covered rules.spine s.nowMs
          (s.catalog.step rules.catalogue op).db ↔
            OpCovered rules.catalogue s.nowMs s.catalog op :=
        @covered_step_iff rules.catalogue s.nowMs s.catalog op hc.grounded hc.owned
          hop hcovered
      rw [hstep, hkeeps, ← drained_catalogue_iff hc hop hdrained, ← hcoveredIff]
      refine honestCheck_iff.trans ⟨fun h => ⟨h.1, h.2.2, ?_⟩, fun h => ⟨h.1, ?_, h.2.1⟩⟩
      · exact (events_step_iff hop).mp h.2.1
      · exact (events_step_iff hop).mpr h.2.2

/-- From a state whose honest answer is yes, a step leads to another exactly if
it keeps the answer. -/
theorem honest_step_iff (hc : Consistent s.catalog) (h : s.honest rules = true)
    (e : LatchEvent) : (s.step rules e).honest rules = true ↔ Keeps rules s e := by
  have hdrained := (honestCheck_iff.mp h).1
  cases e with
  | tick elapsed => exact honest_tick_iff h elapsed
  | check fails => exact iff_of_true h trivial
  | forget => exact iff_of_true h trivial
  | catalogue op => exact honest_catalogue_iff hc h op
  | putChapters put => exact honest_putChapters_iff h put
  | firehosePage page => exact honest_firehosePage_iff h page
  | fillReadable fills => exact honest_fillReadable_iff h fills
  | drainChapterKeys =>
      refine iff_of_true ?_ trivial
      simp only [LatchState.step, drainChapterKeys_of_drained hdrained]
      exact h
  | drainSuwayomiSeries newId =>
      refine iff_of_true ?_ trivial
      simp only [LatchState.step, drainSuwayomiSeries_of_drained hdrained]
      exact h
  | seedLedger =>
      refine iff_of_true ?_ trivial
      simp only [LatchState.step,
        seedLedger_of_covered (honestCheck_iff.mp h).2.2]
      exact h

/-- Only the check latches, and only on an honest yes, which it leaves. -/
theorem honest_of_latches {e : LatchEvent} (hbefore : s.memo.ready = false)
    (hafter : (s.step rules e).memo.ready = true) :
    s.honest rules = true ∧ (s.step rules e).honest rules = true := by
  cases e with
  | check fails =>
      cases fails with
      | true =>
          have hready : (s.step rules (.check true)).memo.ready = s.memo.ready :=
            ready_poll s.memo s.nowMs
          rw [hready, hbefore] at hafter
          contradiction
      | false =>
          have hhonest : s.honest rules = true := by
            rcases ready_isCompleteMemoised hafter with hready | hhonest
            · rw [hbefore] at hready
              contradiction
            · exact hhonest
          exact ⟨hhonest, hhonest⟩
  | forget => contradiction
  | catalogue op =>
      simp only [LatchState.step] at hafter
      split at hafter <;> exact absurd hafter (by simp [hbefore])
  | _ => exact absurd (hbefore.symm.trans hafter) Bool.false_ne_true

/-- Nothing but `forget` opens the latch. -/
theorem ready_step {e : LatchEvent} (he : e ≠ .forget) (h : s.memo.ready = true) :
    (s.step rules e).memo.ready = true := by
  cases e with
  | check fails =>
      cases fails with
      | true => exact (ready_poll s.memo s.nowMs).trans h
      | false =>
          have hmemo : (s.step rules (.check false)).memo = s.memo :=
            congrArg Prod.snd (isCompleteMemoised_of_ready h)
          rw [hmemo]
          exact h
  | forget => exact absurd rfl he
  | catalogue op =>
      simp only [LatchState.step]
      split <;> exact h
  | _ => exact h

/-- A latched yes is honest after a step exactly if the step keeps it. -/
theorem latched_step_iff (hc : Consistent s.catalog)
    (h : s.memo.ready = true → s.honest rules = true) (e : LatchEvent) :
    ((s.step rules e).memo.ready = true → (s.step rules e).honest rules = true) ↔
      (s.memo.ready = true → Keeps rules s e) := by
  cases hready : s.memo.ready with
  | false =>
      refine iff_of_true (fun hafter => ?_) fun hfalse => Bool.noConfusion hfalse
      exact (honest_of_latches hready hafter).2
  | true =>
      by_cases he : e = .forget
      · subst he
        exact iff_of_true (fun hafter => Bool.noConfusion hafter) fun _ => trivial
      · rw [← honest_step_iff hc (h hready) e]
        exact ⟨fun hkept _ => hkept (ready_step he hready), fun hkept _ => hkept rfl⟩

end Steps

/-! ## Runs -/

section Runs

variable {rules : WriterRules ν} {s : LatchState} {events : List LatchEvent}

/-- The latch is sound as soon as every latched yes is honest. -/
theorem latchSound_iff_always :
    LatchSound rules s events ↔ Machine.Always (LatchState.step rules)
      (fun s => s.memo.ready = true → s.honest rules = true) s events := by
  constructor
  · intro h before hbefore hready
    have hanswer := h.answers before hbefore hready
    rw [isCompleteMemoised_of_ready hready] at hanswer
    exact hanswer.symm
  · intro h
    constructor
    · have hall : Machine.EachStep (LatchState.step rules) (fun _ _ => True) s events :=
        Machine.eachStep_of_forall fun _ _ => trivial
      refine hall.mono fun s e _ hbefore hafter => ?_
      obtain ⟨hdrained, hevent, hcovered⟩ :=
        honestCheck_iff.mp (honest_of_latches hbefore hafter).1
      exact ⟨remaining_eq_zero_iff.mpr hdrained,
        List.length_pos_iff_exists_mem.mpr hevent,
        remaining_snd_eq_zero_iff.mpr hcovered⟩
    · intro before hbefore hready
      exact remaining_snd_eq_zero_iff.mpr
        (honestCheck_iff.mp (h before hbefore hready)).2.2
    · intro before hbefore hready
      rw [isCompleteMemoised_of_ready hready]
      exact (h before hbefore hready).symm

end Runs

/-- **When the latch is sound.**  Along every run it is exactly if each step that is
taken with the latch closed keeps an honest yes.  A soundness that fails does so at one
step: a writer of the ledger or of the spine that leaves more to announce than there was
when the check was made. -/
theorem latchSound_iff (rules : WriterRules ν) (nowMs : Int)
    (events : List LatchEvent) :
    LatchSound rules (.start nowMs) events ↔
      Machine.EachStep (LatchState.step rules)
        (fun s e => s.memo.ready = true → Keeps rules s e) (.start nowMs) events := by
  have hopen : (LatchState.start nowMs).memo.ready = true →
      (LatchState.start nowMs).honest rules = true := fun h => Bool.noConfusion h
  rw [latchSound_iff_always, Machine.always_iff_eachStep
    (I := fun s => Consistent s.catalog)
    (Q := fun s e => s.memo.ready = true → Keeps rules s e)
    (fun _ e h => consistent_step e h) (fun _ e hc h => latched_step_iff hc h e)
    (consistent_start nowMs)]
  exact and_iff_right hopen

/-! ## A chapter whose date comes

The shortest run on which the latch is wrong. -/

/-- Labels and release times that the rules on plain input know. -/
def plainWriters : WriterRules String where
  text := plainRules.toTextRules
  cache :=
    { labels := integralLabels
      strftimeSeconds := plainRules.strftimeSeconds
      numberToString := fun _ => "0"
      uploadDateToIso := fun uploadDate => uploadDate }

/-- A page with one chapter of a mapping, which it records. -/
def onePage (newChapterId sourceSeriesId : Id) (ch : ChapterInput) : Page :=
  ⟨[⟨newChapterId, sourceSeriesId, ch, true, true⟩], [sourceSeriesId]⟩

/-- Chapter 2, dated a second after chapter 1. -/
def scheduled : ChapterInput :=
  { chapterOne "e2" "1970-01-01T00:00:02Z" with number := some "2" }

/-- The firehose mirrors a chapter before its date, when it is not recorded; the
latch has closed, and the date comes.  No write has failed. -/
theorem not_latchSound_scheduled :
    ¬LatchSound plainWriters (.start 1500)
      [.catalogue (.upsertWorkFromMangadex "w" "m1" "uuid-w" (titled "dawn") "t1"),
        .firehosePage (onePage "c1" "m1" (chapterOne "e1" "1970-01-01T00:00:01Z")),
        .check false, .firehosePage (onePage "c2" "m1" scheduled), .tick 1000] := by
  intro h
  have hpending := h.pending.last (by decide)
  exact absurd hpending (by decide)

end Komika.Catalog.ReadyLatch
