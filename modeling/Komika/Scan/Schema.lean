import Komika.Lib.Lookup

/-!
# Scan state

`series_scan_state`, one row a series, and the statements of `scanner.rs` that
move a series in the schedule.  Times are milliseconds since 1970.  Of a row
only the columns that the schedule reads are kept; the bookkeeping of chapters
and cadence is not.

`Schedule` has the same statements with the texts that they write, and `ScheduleTimes`
shows that this module is what they do up to the millisecond.  The interleavings of
`Wake`, `Discovery` and `Outages` are stated over this one.
-/

namespace Komika.Scan.Schema

open Komika.Lib

/-- A row of `series_scan_state`, as far as the interleavings read it. -/
structure ScanState where
  seriesId : String
  sourceId : Option String
  nextScanAt : Option Int
  consecutiveFailures : Int
deriving DecidableEq

instance : Keyed ScanState := .ofKey ScanState.seriesId

instance : ByKey ScanState String where
  key := ScanState.seriesId
  clash_iff _ _ := decide_eq_true_iff

@[simp] theorem key_scanState (r : ScanState) : key r = r.seriesId := rfl

/-- `DUE_NOW_SENTINEL`, the start of 1970. -/
def dueNowSentinel : Int := 0

/-- Milliseconds of a minute. -/
def msPerMinute : Int := 60000

/-- Milliseconds of an hour. -/
def msPerHour : Int := 3600000

/-- `ERROR_BACKOFF_BASE_MINUTES`, after the first failure; it doubles with each. -/
def errorBackoffBaseMinutes : Int := 30

/-- `ERROR_BACKOFF_MAX_HOURS`, beyond which it does not grow. -/
def errorBackoffMaxHours : Int := 24

/-- `PAUSED_PARK_HOURS`: a paused series is looked at every two weeks. -/
def pausedParkHours : Int := 24 * 14

/-- `PARK_JITTER_SPREAD_HOURS`: the parks of one day are spread over so many hours. -/
def parkJitterSpreadHours : Int := 67

/-- A series as it is first enrolled: due now, with no source and no failure. -/
def pending (seriesId : String) : ScanState where
  seriesId := seriesId
  sourceId := none
  nextScanAt := some dueNowSentinel
  consecutiveFailures := 0

/-- `ensure_pending`: a series that is there already stays as it is. -/
def ensurePending (t : Table ScanState) (seriesId : String) : Table ScanState :=
  t.insertOrIgnore (pending seriesId)

/-- The row becomes due now. -/
def ScanState.wake (r : ScanState) : ScanState :=
  { r with nextScanAt := some dueNowSentinel }

theorem keepsKeys_wake : Table.KeepsKeys ScanState.wake := .of_key fun _ => rfl

/-- One statement of `trigger_due_now`; a series without a row is not woken. -/
def triggerDueNow (t : Table ScanState) (seriesId : String) : Table ScanState :=
  t.update (fun r => r.seriesId = seriesId) ScanState.wake keepsKeys_wake

/-- `ON CONFLICT(series_id) DO UPDATE` of a scan's bookkeeping. -/
def ScanState.reschedule (old r : ScanState) : ScanState :=
  { old with nextScanAt := r.nextScanAt, consecutiveFailures := r.consecutiveFailures }

/-- The conflict clause keeps the id. -/
theorem keepsKeys_reschedule (r : ScanState) :
    Table.KeepsKeys (ScanState.reschedule · r) := .of_key fun _ => rfl

/-- The upsert that a scan's bookkeeping ends in: the next scan and the streak, for a
row that is there or a new one. -/
def rescheduled (t : Table ScanState) (seriesId : String) (next failures : Int) :
    Table ScanState :=
  t.upsert ⟨seriesId, none, some next, failures⟩ ScanState.reschedule (keepsKeys_reschedule _)

/-- `record_scan_once`, the schedule it writes.  The interval is computed in
floating point and jittered at random. -/
def recordScanOnce (t : Table ScanState) (seriesId : String) (now interval : Int) :
    Table ScanState :=
  rescheduled t seriesId (now + interval) 0

/-- The backoff after so many failures in a row: doubled each time, up to a day. -/
def backoffMinutes (failures : Int) : Int :=
  min (errorBackoffBaseMinutes * 2 ^ (max 0 (min (failures - 1) 40)).toNat)
    (errorBackoffMaxHours * 60)

/-- `prior.saturating_add(1)`; the count is an `i64`. -/
def failuresAfter (prior : Int) : Int := min (prior + 1) (2 ^ 63 - 1)

/-- `record_scan_failure_once`: one more failure, and a back-off that grows with the
streak. -/
def recordScanFailureOnce (t : Table ScanState) (seriesId : String) (now : Int) :
    Table ScanState :=
  let prior := (t.lookup seriesId).elim 0 ScanState.consecutiveFailures
  let failures := failuresAfter prior
  rescheduled t seriesId (now + backoffMinutes failures * msPerMinute) failures

/-- `park_offset_hours`, from what the generator draws. -/
def parkOffsetHours (draw : Nat) : Int :=
  pausedParkHours + ((draw : Int) % parkJitterSpreadHours - parkJitterSpreadHours / 2)

/-- `park_paused`: far off, and the streak ends. -/
def parkPaused (t : Table ScanState) (seriesId : String) (now : Int) (draw : Nat) :
    Table ScanState :=
  rescheduled t seriesId (now + parkOffsetHours draw * msPerHour) 0

/-! ## What a statement does to one row

The lookups of the tables, so that no proof about runs opens a statement. -/

variable {t : Table ScanState} {seriesId other : String}

/-- The statement wakes a series that is there. -/
@[simp] theorem lookup_triggerDueNow :
    (triggerDueNow t seriesId).lookup other =
      if other = seriesId then (t.lookup other).map ScanState.wake else t.lookup other := by
  rw [triggerDueNow, Table.lookup_update]
  cases hrow : t.lookup other with
  | none => simp
  | some r =>
      have hkey : r.seriesId = other := Table.key_of_lookup hrow
      simp only [Option.map_some, hkey, decide_eq_true_eq]
      split <;> rfl

/-- What the bookkeeping of a scan leaves of its own series. -/
theorem lookup_rescheduled {next failures : Int} :
    ((rescheduled t seriesId next failures).lookup other).map ScanState.nextScanAt =
      if other = seriesId then some (some next)
      else (t.lookup other).map ScanState.nextScanAt := by
  rw [rescheduled, Table.lookup_upsert, key_scanState]
  by_cases hother : other = seriesId
  · rw [if_pos hother.symm, if_pos hother]
    cases t.lookup other <;> rfl
  · rw [if_neg (Ne.symm hother), if_neg hother]

theorem lookup_rescheduled_of_ne {next failures : Int} (h : other ≠ seriesId) :
    (rescheduled t seriesId next failures).lookup other = t.lookup other := by
  rw [rescheduled, Table.lookup_upsert, key_scanState, if_neg (Ne.symm h)]

/-- A row that is there stays. -/
theorem lookup_ensurePending {r : ScanState} (h : t.lookup other = some r) :
    (ensurePending t seriesId).lookup other = some r := by
  rw [Table.lookup_eq_some] at h ⊢
  exact ⟨Table.mem_insertOrIgnore.mpr (Or.inl h.1), h.2⟩

end Komika.Scan.Schema
