import Komika.Scan.Schedule

/-!
# The schedule in milliseconds

`series_scan_state` is modelled twice.  `Scan.Schema` has what the scan loops do to a row, with
`next_scan_at` as a number of milliseconds, and is what the interleavings of loops, wakes and
listings are stated over.  `Scan.Schedule` has the texts that the statements bind and the clocks
of nanoseconds they are made from.  This module makes the first a view of the second.

A `Slot` is what the two show of a row alike: when the series is next due, to the millisecond,
and how many of its scans have failed in a row.  `Shows t m` says that the tables have rows for
the same series and that the rows show the same slots.

* `parseIso_plus` — what `to_rfc3339` writes is read back as the instant it was made from, so a
  delay in whole milliseconds is the same delay in both models.
* `shows_step` — a statement about one series keeps the view: the scan's bookkeeping, the
  backoff, the park of a paused series, one statement of `trigger_due_now`, `ensure_pending`.
* `shows_run` — and so does every run of such statements.
* `isDue_of_wake` — a row at the start of 1970 is one that `is_due` finds due.

The statements that move every series of a source at once, and the reclaim, are not among them:
`Scan.Schema` has no such statement.
-/

namespace Komika.Scan.ScheduleTimes

open Komika.Lib Komika.Lib.Machine Komika.Lib.Timestamp
open Komika.Feed.PersistScan (ScanRules)
open Komika.Catalog.Schema (SourceSeries)
open Komika.Scan.Schema (ScanState backoffMinutes failuresAfter parkOffsetHours msPerMinute
  msPerHour)
open Komika.Scan.Schedule

/-! ## The view -/

/-- What both models show of a row. -/
structure Slot where
  nextScanAt : Option Int
  consecutiveFailures : Int
deriving DecidableEq

/-- The slot of a row of texts: the instant it reads as, in whole milliseconds. -/
def slot (r : ScanRow) : Slot where
  nextScanAt := (parseIso r.nextScanAt).map (· / nsPerMilli)
  consecutiveFailures := r.consecutiveFailures

/-- The slot of a row of numbers. -/
def slotOf (r : ScanState) : Slot := ⟨r.nextScanAt, r.consecutiveFailures⟩

/-- The clock in whole milliseconds. -/
def millis (now : Clock) : Int := now.ns / nsPerMilli

/-- The numbers show the schedule that the texts do. -/
def Shows (t : Table ScanRow) (m : Table ScanState) : Prop :=
  ∀ id, (m.lookup id).map slotOf = (t.lookup id).map slot

/-- The same statement, on milliseconds.  The interval of a scan is the one that the texts'
model draws. -/
def inMillis (rules : ScanRules) (s : ScheduleState) (m : Table ScanState) :
    Event → Table ScanState
  | .recordScan seriesId admin chapters comicType now draw =>
      Schema.recordScanOnce m seriesId (millis now) (Record.delayMillis rules
        ⟨s.scanStates.lookup seriesId, admin, chapters, comicType, now⟩ draw)
  | .recordFailure seriesId now => Schema.recordScanFailureOnce m seriesId (millis now)
  | .parkPaused seriesId now draw => Schema.parkPaused m seriesId (millis now) draw.toNat
  | .trigger seriesId _ => Schema.triggerDueNow m seriesId
  | .ensurePending seriesId _ => Schema.ensurePending m seriesId
  | .purge seriesId => m.deleteWhere fun r => r.seriesId = seriesId
  | .mapped _ | .other _ | .parkSource .. | .unparkSource .. | .reclaim .. => m

/-- The statement is about one series, or about none. -/
def AboutOne : Event → Prop
  | .other _ | .parkSource .. | .unparkSource .. | .reclaim .. => False
  | _ => True

/-! ## Instants -/

section Instants

variable {now : Clock} {delay : Int}

/-- What the clock writes is read back. -/
theorem parseIso_plus (hpos : 0 ≤ delay) (hshort : delay < absurdHorizonHours * nsPerHour) :
    parseIso (some (now.plus delay)) = some (now.ns + delay) := by
  have hearly := now.early
  have hinstant : ((now.ns + delay).toNat : Int) = now.ns + delay :=
    Int.toNat_of_nonneg (by omega)
  have hparse : parseRfc3339 (toRfc3339 (now.ns + delay).toNat) =
      some ((now.ns + delay).toNat : Int) :=
    parse_toRfc3339 (by omega)
  rw [parseIso, Option.bind_some, Clock.plus, hparse, hinstant]

/-- A delay of whole milliseconds is added to the clock's. -/
theorem millis_plus (n : Int) : ((now.ns : Int) + n * nsPerMilli) / nsPerMilli = millis now + n :=
  Int.add_mul_ediv_right _ _ (by decide)

/-- Where a text is made of a delay in milliseconds, the row shows the sum. -/
theorem slot_plus {r : ScanRow} {n : Int} (hnext : r.nextScanAt = some (now.plus delay))
    (hdelay : delay = n * nsPerMilli) (hpos : 0 ≤ delay)
    (hshort : delay < absurdHorizonHours * nsPerHour) :
    slot r = ⟨some (millis now + n), r.consecutiveFailures⟩ := by
  rw [slot, hnext, parseIso_plus hpos hshort, hdelay, Option.map_some, millis_plus]

theorem slot_nextScanAt (rules : ScanRules) (s : Record) (draw : UInt64) {r : ScanRow}
    (hnext : r.nextScanAt = some (s.nextScanAt rules draw)) :
    slot r = ⟨some (millis s.now + s.delayMillis rules draw), r.consecutiveFailures⟩ := by
  obtain ⟨hpos, hmax⟩ := delayMillis_bounds rules s draw
  apply slot_plus hnext rfl
  · unfold nsPerMilli
    omega
  · unfold absurdHorizonHours nsPerMilli nsPerHour nsPerSecond
    omega

theorem slot_backoffMinutes (failures : Int) {r : ScanRow}
    (hnext : r.nextScanAt = some (now.plus (backoffMinutes failures * nsPerMinute))) :
    slot r =
      ⟨some (millis now + backoffMinutes failures * msPerMinute), r.consecutiveFailures⟩ := by
  obtain ⟨hpos, hmax⟩ := backoffMinutes_bounds failures
  have hminute : (nsPerMinute : Int) = msPerMinute * nsPerMilli := by decide
  unfold Schema.errorBackoffMaxHours at hmax
  apply slot_plus hnext
  · rw [hminute, mul_assoc]
  · unfold nsPerMinute nsPerSecond
    omega
  · unfold absurdHorizonHours nsPerMinute nsPerHour nsPerSecond
    omega

/-- The park of a paused series. -/
theorem slot_parkOffsetHours (draw : Nat) {r : ScanRow}
    (hnext : r.nextScanAt = some (now.plus (parkOffsetHours draw * nsPerHour))) :
    slot r = ⟨some (millis now + parkOffsetHours draw * msPerHour), r.consecutiveFailures⟩ := by
  obtain ⟨hpos, hmax⟩ := parkOffsetHours_bounds draw
  have hhour : (nsPerHour : Int) = msPerHour * nsPerMilli := by decide
  apply slot_plus hnext
  · rw [hhour, mul_assoc]
  · unfold nsPerHour nsPerSecond
    omega
  · unfold absurdHorizonHours nsPerHour nsPerSecond
    omega

/-- The sentinel is the start of 1970. -/
theorem parseIso_dueNowSentinel : parseIso (some dueNowSentinel) = some 0 := by
  decide +kernel

theorem slot_sentinel {r : ScanRow} (hnext : r.nextScanAt = some dueNowSentinel) :
    slot r = ⟨some Schema.dueNowSentinel, r.consecutiveFailures⟩ := by
  rw [slot, hnext, parseIso_dueNowSentinel]
  rfl

end Instants

/-! ## One statement -/

section Steps

variable {t : Table ScanRow} {m : Table ScanState} {id : String}

/-- The two tables have the same series. -/
theorem Shows.isSome_lookup (h : Shows t m) :
    (m.lookup id).isSome = (t.lookup id).isSome := by
  rw [← Option.isSome_map (f := slotOf), h id, Option.isSome_map]

/-- Two upserts of one series that both take over the slot of the new row. -/
theorem Shows.upsert (h : Shows t m) {r : ScanRow} {r' : ScanState}
    {merge : ScanRow → ScanRow → ScanRow} {merge' : ScanState → ScanState → ScanState}
    {hkeep : Table.KeepsKeys (merge · r)} {hkeep' : Table.KeepsKeys (merge' · r')}
    (hseries : r'.seriesId = r.seriesId) (hslot : slotOf r' = slot r)
    (hmerge : ∀ old, slot (merge old r) = slot r)
    (hmerge' : ∀ old, slotOf (merge' old r') = slotOf r') :
    Shows (t.upsert r merge hkeep) (m.upsert r' merge' hkeep') := by
  intro id
  rw [Table.lookup_upsert, Table.lookup_upsert, key_scanRow, Schema.key_scanState, hseries]
  split
  · have htexts : slot (Table.merged merge (t.lookup id) r) = slot r := by
      cases t.lookup id with
      | none => rfl
      | some old => exact hmerge old
    have hnumbers : slotOf (Table.merged merge' (m.lookup id) r') = slotOf r' := by
      cases m.lookup id with
      | none => rfl
      | some old => exact hmerge' old
    rw [Option.map_some, Option.map_some, htexts, hnumbers, hslot]
  · exact h id

/-- The upsert that a scan's bookkeeping ends in. -/
theorem Shows.rescheduled (h : Shows t m) {r : ScanRow} {merge : ScanRow → ScanRow → ScanRow}
    {hkeep : Table.KeepsKeys (merge · r)} {next failures : Int}
    (hslot : slot r = ⟨some next, failures⟩) (hmerge : ∀ old, slot (merge old r) = slot r) :
    Shows (t.upsert r merge hkeep) (Schema.rescheduled m r.seriesId next failures) :=
  h.upsert rfl hslot.symm hmerge fun _ => rfl

theorem Shows.failures (h : Shows t m) :
    (m.lookup id).elim 0 ScanState.consecutiveFailures =
      (t.lookup id).elim 0 ScanRow.consecutiveFailures := by
  have hslots := h id
  cases hm : m.lookup id with
  | none =>
      rw [hm, Option.map_none, eq_comm, Option.map_eq_none_iff] at hslots
      rw [hslots]
      rfl
  | some r' =>
      rw [hm, Option.map_some, eq_comm, Option.map_eq_some_iff] at hslots
      obtain ⟨r, hr, hslot⟩ := hslots
      rw [hr]
      exact (congrArg Slot.consecutiveFailures hslot).symm

theorem Shows.trigger (h : Shows t m) (seriesId : String) :
    Shows (scheduleSeries t [seriesId] fun _ => some dueNowSentinel)
      (Schema.triggerDueNow m seriesId) := by
  intro id
  have hwake : ∀ r : ScanRow, slot (r.scheduleBy fun _ => some dueNowSentinel) =
      ⟨some Schema.dueNowSentinel, (slot r).consecutiveFailures⟩ := fun r => slot_sentinel rfl
  have hslots := h id
  rw [lookup_scheduleSeries, Schema.lookup_triggerDueNow]
  by_cases hid : id = seriesId
  · simp only [hid, if_true, List.mem_singleton, Option.map_map] at hslots ⊢
    have hnumbers : slotOf ∘ ScanState.wake =
        (fun x : Slot => ⟨some Schema.dueNowSentinel, x.consecutiveFailures⟩) ∘ slotOf := rfl
    have htexts : (slot ∘ fun r : ScanRow => r.scheduleBy fun _ => some dueNowSentinel) =
        (fun x : Slot => ⟨some Schema.dueNowSentinel, x.consecutiveFailures⟩) ∘ slot :=
      funext hwake
    rw [hnumbers, htexts, ← Option.map_map, ← Option.map_map, hslots]
  · simp only [hid, if_false, List.mem_singleton, Option.map_id']
    exact hslots

theorem Shows.ensurePending (h : Shows t m) (seriesId : String) :
    Shows (t.insertOrIgnore (pending seriesId dueNowSentinel 0))
      (Schema.ensurePending m seriesId) := by
  intro id
  rw [Schema.ensurePending, Table.lookup_insertOrIgnore, Table.lookup_insertOrIgnore,
    key_scanRow, Schema.key_scanState, Option.map_or, Option.map_or, h id]
  congr 1
  have hkey : (pending seriesId dueNowSentinel 0).seriesId = seriesId := rfl
  have hkey' : (Schema.pending seriesId).seriesId = seriesId := rfl
  rw [hkey, hkey']
  split
  · rw [Option.map_some, Option.map_some, slot_sentinel rfl]
    rfl
  · rfl

theorem Shows.purge (h : Shows t m) (seriesId : String) :
    Shows (t.deleteWhere fun r => r.seriesId = seriesId)
      (m.deleteWhere fun r => r.seriesId = seriesId) := by
  intro id
  have htexts : (t.deleteWhere fun r => r.seriesId = seriesId).lookup id = _ :=
    Table.lookup_deleteWhere_key
  have hnumbers : (m.deleteWhere fun r => r.seriesId = seriesId).lookup id = _ :=
    Table.lookup_deleteWhere_key
  rw [htexts, hnumbers]
  split
  · rfl
  · exact h id

/-! ## Every statement -/

variable {rules : ScanRules} {s : ScheduleState} {e : Event}

/-- A statement about one series keeps the view. -/
theorem shows_step (h : Shows s.scanStates m) (hone : AboutOne e) :
    Shows (step rules s e).scanStates (inMillis rules s m e) := by
  cases e with
  | recordScan seriesId admin chapters comicType now draw =>
      exact h.rescheduled (slot_nextScanAt rules
        ⟨s.scanStates.lookup seriesId, admin, chapters, comicType, now⟩ draw rfl) fun _ => rfl
  | recordFailure seriesId now =>
      show Shows _ (Schema.recordScanFailureOnce m seriesId (millis now))
      rw [Schema.recordScanFailureOnce, h.failures]
      exact h.rescheduled (slot_backoffMinutes _ rfl) fun _ => rfl
  | parkPaused seriesId now draw =>
      exact h.rescheduled (slot_parkOffsetHours draw.toNat rfl) fun _ => rfl
  | trigger seriesId now => exact h.trigger seriesId
  | ensurePending seriesId now => exact h.ensurePending seriesId
  | purge seriesId => exact h.purge seriesId
  | mapped mappings => exact h
  | other | parkSource | unparkSource | reclaim => exact hone.elim

end Steps

/-! ## Every run -/

/-- The table of numbers beside the run of the texts. -/
def timesAfter (rules : ScanRules) (s : ScheduleState) (m : Table ScanState) :
    List Event → Table ScanState
  | [] => m
  | e :: events => timesAfter rules (step rules s e) (inMillis rules s m e) events

/-- A run of statements about one series each keeps the view. -/
theorem shows_run (rules : ScanRules) {s : ScheduleState} {m : Table ScanState}
    (h : Shows s.scanStates m) {events : List Event} (hone : ∀ e ∈ events, AboutOne e) :
    Shows (run (step rules) s events).scanStates (timesAfter rules s m events) := by
  induction events generalizing s m with
  | nil => exact h
  | cons e events ih =>
      rw [List.forall_mem_cons] at hone
      exact ih (shows_step h hone.1) hone.2

/-- A series that has been woken, and not rescheduled since, is due: `is_due` reads its text
as the start of 1970. -/
theorem isDue_of_wake {t : Table ScanRow} {m : Table ScanState} (h : Shows t m) {id : String}
    {r' : ScanState} (hrow : m.lookup id = some r')
    (hwoken : r'.nextScanAt = some Schema.dueNowSentinel) {now : Clock} (hnow : 0 < millis now) :
    ∃ r, t.lookup id = some r ∧ isDue r.nextScanAt now = true := by
  have hslots := h id
  rw [hrow, Option.map_some, eq_comm, Option.map_eq_some_iff] at hslots
  obtain ⟨r, hr, hslot⟩ := hslots
  refine ⟨r, hr, ?_⟩
  have hnext : (parseIso r.nextScanAt).map (· / (nsPerMilli : Int)) = some 0 :=
    (congrArg Slot.nextScanAt hslot).trans hwoken
  obtain ⟨next, hparse, hzero⟩ := Option.map_eq_some_iff.mp hnext
  unfold millis nsPerMilli at hnow
  unfold nsPerMilli at hzero
  rw [isDue, hparse, Option.elim_some, decide_eq_true_eq]
  omega

end Komika.Scan.ScheduleTimes
