import Komika.Catalog.Schema
import Komika.Feed.PersistScan
import Komika.Lib.Lookup
import Komika.Lib.Timestamp
import Komika.Scan.Schema

/-!
# The schedule as it is written

The eight statements of `scanner.rs` that write `next_scan_at`, with the texts
they write.  Five of them bind the timestamp that `to_rfc3339` makes of an instant,
with the digits of its second's fraction; three leave it to `strftime`, which
writes whole seconds.  `reclaim_absurd_schedules` compares the texts with the
timestamp of its horizon.

Every writer stays below the horizon, so what one of them has written last is
never reclaimed.  But a text without a fraction is earlier than the clock by the
fraction: where nothing is added to it, as `unpark_source_series` and the reclaim
do for one draw in sixty, the series is scheduled before it was written.
`schedules_well_iff` says that this is all that goes wrong.

Intervals are rational numbers here.  A clock shows an instant since 1970, so long
before the year 10000 that the horizon has a year of four digits, as RFC 3339 and
`strftime` know no other.

* `nextIntervalHours_bounds`, `delayMillis_bounds` — the interval after a scan, whatever
  the chapter list and the administrator's settings are;
* `plus_spec`, `minutesOn_spec` — the two ways of writing a time, against the clock and
  the horizon;
* `nextOf_spec` — every writer, by these;
* `traced_step`, `sparesWritten_of_traced` — what has been written last is short of any
  later horizon;
* `schedules_well_iff` — every run;
* `not_schedules_well_pulledBack` — a draw of nought half a second after noon.
-/

namespace Komika.Scan.Schedule

open Komika.Lib Komika.Lib.Machine Komika.Lib.Timestamp
open Komika.Catalog.Schema (SourceSeries)
open Komika.Feed.Schema (SuwayomiChapter)
open Komika.Feed.Types (ComicType)
open Komika.Feed.PersistScan (ScanRules scanRules normalizeEpochMillis)
open Komika.Scan.Schema (backoffMinutes failuresAfter parkOffsetHours pausedParkHours
  parkJitterSpreadHours errorBackoffBaseMinutes errorBackoffMaxHours)

/-- Nanoseconds of a millisecond. -/
def nsPerMilli : Nat := 1000000

/-- Nanoseconds of a minute. -/
def nsPerMinute : Nat := 60 * nsPerSecond

/-- Nanoseconds of an hour. -/
def nsPerHour : Nat := 3600 * nsPerSecond

/-- `ABSURD_HORIZON_HOURS`: a schedule beyond it is reclaimed, as no writer makes
one. -/
def absurdHorizonHours : Nat := 16 * 24

/-- `ABSURD_RECLAIM_PER_TICK`: how many are reclaimed at a time. -/
def absurdReclaimPerTick : Nat := 25

/-- `DUE_NOW_SENTINEL`, the start of 1970, which is due at any time. -/
def dueNowSentinel : String := "1970-01-01T00:00:00+00:00"

/-- What `Utc::now()` shows, in nanoseconds, early enough that every schedule has a year
of four digits. -/
structure Clock where
  ns : Nat
  early : ns + absurdHorizonHours * nsPerHour < endOfYears

/-- `(now + delay).to_rfc3339()`, the text that the writers in Rust store. -/
def Clock.plus (now : Clock) (delay : Int) : String := toRfc3339 (now.ns + delay).toNat

/-- `strftime('%Y-%m-%dT%H:%M:%S', 'now', '+' || n || ' minutes') || '+00:00'`. -/
def Clock.minutesOn (now : Clock) (n : Nat) : Option String :=
  (strftime (now.ns + n * nsPerMinute)).map (· ++ "+00:00")

/-! ## Intervals

The constants of the module, and the functions that choose between them. -/

/-- `f64::clamp`: the upper bound first, then the lower. -/
def clamp (lo hi x : Rat) : Rat := max lo (min hi x)

/-- `ACTIVE_MAX_INTERVAL_HOURS`: an inferred interval is never longer. -/
def activeMaxIntervalHours : Rat := 12

/-- `DEFAULT_INTERVAL_HOURS`, of a series whose cadence is unknown. -/
def defaultIntervalHours : Rat := activeMaxIntervalHours

/-- `MIN_INTERVAL_HOURS`: nor is an inferred one shorter. -/
def minIntervalHours : Rat := 6

/-- `HARD_MIN_INTERVAL_HOURS`, which binds the administrator as well. -/
def hardMinIntervalHours : Rat := 1

/-- `MAX_INTERVAL_HOURS`, the same at the other end. -/
def maxIntervalHours : Rat := pausedParkHours

/-- `TIER_FAST_ACTIVE_HOURS`: a series of a fast type that has lately had a release. -/
def tierFastActiveHours : Rat := 3

/-- `TIER_FAST_DORMANT_HOURS`: one that has not. -/
def tierFastDormantHours : Rat := 24

/-- `TIER_MANGA_HOURS`: the slow types, released lately or not. -/
def tierMangaHours : Rat := 12

/-- `DORMANT_AFTER_DAYS`: without a release for so long a series is dormant. -/
def dormantAfterDays : Int := 14

/-- `SCHEDULE_JITTER_FRACTION`: by how much of itself an interval is moved, either
way. -/
def scheduleJitterFraction : Rat := 1 / 10

/-- `DEFAULT_POLL_MINUTES`, while a late chapter is awaited. -/
def defaultPollMinutes : Rat := 30

/-- `MIN_POLL_MINUTES`: an administrator's choice is not polled more often. -/
def minPollMinutes : Rat := 15

/-- `AWAITING_MAX_HOURS`: a late chapter is polled for no longer. -/
def awaitingMaxHours : Rat := 48

/-- `AWAITING_REARM_HOURS`: after so long the wait begins anew. -/
def awaitingRearmHours : Rat := 240

/-- `LATE_FACTOR`: by so much more than its cadence a chapter has to be overdue. -/
def lateFactor : Rat := 5 / 4

/-- `LATE_BAND_MAX`: by so much it counts as late no more, but as stopped. -/
def lateBandMax : Rat := 3

/-- `MIN_TRUSTED_GAPS`: with fewer gaps the average says nothing about lateness. -/
def minTrustedGaps : Nat := 4

/-- `resolve_interval`: the override within the hard bounds, or the average within the
usual ones. -/
def resolveInterval (override : Option Rat) (inferredAvg : Rat) : Rat :=
  match override.filter (0 < ·) with
  | some o => clamp hardMinIntervalHours maxIntervalHours o
  | none =>
      clamp minIntervalHours activeMaxIntervalHours
        (if 0 < inferredAvg then inferredAvg else defaultIntervalHours)

/-- `scan_interval_hours`: the override within the hard bounds, or the tier of the
type. -/
def scanIntervalHours (comicType : ComicType) (lastRelease : Option Int) (now : Clock)
    (override : Option Rat) : Rat :=
  match override.filter (0 < ·) with
  | some o => clamp hardMinIntervalHours maxIntervalHours o
  | none =>
      match comicType with
      | .manhwa | .manhua | .webtoon =>
          if lastRelease.any fun r => (now.ns : Int) - r ≤ dormantAfterDays * nsPerDay then
            tierFastActiveHours
          else tierFastDormantHours
      | .manga | .comic => tierMangaHours

/-- `tier_jitter_fraction`: the fastest tier is moved by half as much. -/
def tierJitterFraction (intervalHours : Rat) : Rat :=
  if intervalHours ≤ tierFastActiveHours then 1 / 20 else scheduleJitterFraction

/-- `jitter_interval_hours_with`, from what the generator draws: at most the fraction up
or down, and never below zero. -/
def jitterIntervalHoursWith (hours fraction : Rat) (draw : UInt64) : Rat :=
  if hours ≤ 0 then hours
  else
    let unit : Rat := draw.toNat / (2 ^ 64 - 1) * 2 - 1
    max (hours * (1 + unit * fraction)) 0

/-- `resolve_poll_minutes`: the administrator's choice, within a floor, and no slower
than the steady interval. -/
def resolvePollMinutes (pollEveryMinutes : Option Int) (steadyIntervalHours : Rat) : Rat :=
  let requested : Rat := ((pollEveryMinutes.filter (0 < ·)).map Int.cast).getD defaultPollMinutes
  min (max requested minPollMinutes) (steadyIntervalHours * 60)

/-! ## What a chapter list tells

The gaps between upload times, and how long ago the last one was. -/

/-- `UploadCadence`: the average gap of the uploads, how many gaps it is of, and the
last upload. -/
structure UploadCadence where
  avgHours : Rat
  gaps : Nat
  latestUpload : Int

/-- The upload times, in milliseconds. -/
def uploads (rules : ScanRules) (chapters : List SuwayomiChapter) : List Int :=
  chapters.filterMap fun c => c.uploadDate.bind (normalizeEpochMillis rules)

/-- `upload_cadence`: the gaps between neighbours in time, without those of uploads at
one time; two uploads at least. -/
def uploadCadence (rules : ScanRules) (chapters : List SuwayomiChapter) :
    Option UploadCadence :=
  let ts := (uploads rules chapters).insertionSort fun a b => b ≤ a
  let gaps : List Int := ((ts.zip ts.tail).map fun pair => pair.1 - pair.2).filter (0 < ·)
  if ts.length < 2 ∨ gaps = [] then none
  else
    ts.head?.map fun latest =>
      ⟨(gaps.sum : Rat) / gaps.length / 3600000, gaps.length, latest * nsPerMilli⟩

/-- `newest_upload`, in nanoseconds. -/
def newestUpload (rules : ScanRules) (chapters : List SuwayomiChapter) : Option Int :=
  (uploads rules chapters).max?.map (· * nsPerMilli)

/-- `is_genuinely_late`: overdue by more than a factor, and not so long that it has
stopped. -/
def isGenuinelyLate (publicationHours hoursSinceLatestUpload : Rat) : Bool :=
  publicationHours * lateFactor < hoursSinceLatestUpload &&
    hoursSinceLatestUpload ≤ publicationHours * lateBandMax

/-- `(now - start).num_seconds() as f64 / 3600.0`. -/
def hoursSince (now : Clock) (start : Int) : Rat :=
  ((((now.ns : Int) - start).tdiv nsPerSecond : Int) : Rat) / 3600

/-- `parse_iso`: the instant of a text, if it is a date. -/
def parseIso (text : Option String) : Option Int := text.bind parseRfc3339

/-- `is_due`: a series without a schedule that can be read is due. -/
def isDue (nextScanAt : Option String) (now : Clock) : Bool :=
  (parseIso nextScanAt).elim true fun next => next ≤ now.ns

/-! ## A recorded scan

The variables of `record_scan_once`, under their own names. -/

/-- A row of `series_scan_state`, as far as the schedule reads it. -/
structure ScanRow where
  seriesId : String
  avgIntervalHours : Rat
  nextScanAt : Option String
  awaitingSince : Option String
  knownChapterIds : Option (Finset Int)
  consecutiveFailures : Int

instance : Keyed ScanRow := .ofKey ScanRow.seriesId

instance : ByKey ScanRow String where
  key := ScanRow.seriesId
  clash_iff _ _ := decide_eq_true_iff

@[simp] theorem key_scanRow (r : ScanRow) : key r = r.seriesId := rfl

/-- What the administrator has set for a series. -/
structure ScanAdmin where
  overrideIntervalHours : Option Rat
  pollEveryMinutes : Option Int

/-- What `record_scan_once` is called with, and the row that it finds. -/
structure Record where
  prior : Option ScanRow
  admin : ScanAdmin
  chapters : List SuwayomiChapter
  /-- `None` is the path without tiers. -/
  comicType : Option ComicType
  now : Clock

namespace Record

variable (rules : ScanRules) (s : Record)

/-- `computed_avg`: that of the list, or the stored one. -/
def computedAvg : Rat :=
  clamp 0 maxIntervalHours
    (((uploadCadence rules s.chapters).map UploadCadence.avgHours).getD
      (s.prior.elim 0 ScanRow.avgIntervalHours))

/-- The ids of the list, which become the next snapshot. -/
def chapterIds : Finset Int := (s.chapters.map SuwayomiChapter.id).toFinset

/-- The snapshot of the last scan. -/
def priorIds : Option (Finset Int) := s.prior.bind ScanRow.knownChapterIds

/-- `new_found`: the list has a chapter that the last snapshot does not have; a first
scan finds nothing new. -/
def newFound : Bool := s.priorIds.any fun prior => s.chapters.any fun c => c.id ∉ prior

/-- `steady_interval`, with or without tiers. -/
def steadyInterval : Rat :=
  match s.comicType with
  | some comicType =>
      scanIntervalHours comicType (newestUpload rules s.chapters) s.now
        s.admin.overrideIntervalHours
  | none => resolveInterval s.admin.overrideIntervalHours (s.computedAvg rules)

/-- `publication_hours`: the average where there are gaps enough to trust it. -/
def publicationHours : Option Rat :=
  (((uploadCadence rules s.chapters).filter fun c => minTrustedGaps ≤ c.gaps).map
    fun _ => s.computedAvg rules).filter (0 < ·)

/-- `genuinely_late`: the next chapter is overdue by the trusted average of the gaps. -/
def genuinelyLate : Bool :=
  match s.publicationHours rules, uploadCadence rules s.chapters with
  | some hours, some cadence => isGenuinelyLate hours (hoursSince s.now cadence.latestUpload)
  | _, _ => false

/-- `awaiting`: the path without tiers, a scan that was due, a late chapter, and nothing
new. -/
def awaiting : Bool :=
  s.comicType.isNone && isDue (s.prior.bind ScanRow.nextScanAt) s.now &&
    s.genuinelyLate rules && !s.newFound && s.priorIds.isSome

/-- `now_iso`, as the row stores it. -/
def nowIso : String := s.now.plus 0

/-- `awaiting_since`: armed again after a while. -/
def awaitingSince : Option String :=
  if s.awaiting rules then
    let prior := s.prior.bind ScanRow.awaitingSince
    match parseIso prior with
    | none => some s.nowIso
    | some start => if hoursSince s.now start < awaitingRearmHours then prior else some s.nowIso
  else none

/-- `awaiting_window_hours`: as long as the series takes for a chapter, within
bounds. -/
def awaitingWindowHours : Rat :=
  clamp minIntervalHours awaitingMaxHours ((s.publicationHours rules).getD minIntervalHours)

/-- For how long the series has been awaited. -/
def awaitedHours : Rat := (parseIso (s.awaitingSince rules)).elim 0 (hoursSince s.now)

/-- `next_interval_hours`: that of the poll while the window is open, else the steady
one. -/
def nextIntervalHours : Rat :=
  if s.awaiting rules && s.awaitedHours rules < s.awaitingWindowHours rules then
    resolvePollMinutes s.admin.pollEveryMinutes (s.steadyInterval rules) / 60
  else s.steadyInterval rules

/-- The jitter of the path that is taken. -/
def jitterFraction : Rat :=
  if s.comicType.isSome then tierJitterFraction (s.nextIntervalHours rules)
  else scheduleJitterFraction

/-- The interval that is added to the clock, `as i64`. -/
def delayMillis (draw : UInt64) : Int :=
  let ms := jitterIntervalHoursWith (s.nextIntervalHours rules) (s.jitterFraction rules) draw *
    3600000
  max (-2 ^ 63) (min (2 ^ 63 - 1) (if 0 ≤ ms then ms.floor else ms.ceil))

/-- `next_scan_at`: the clock and the jittered interval, to the millisecond. -/
def nextScanAt (draw : UInt64) : String :=
  s.now.plus (s.delayMillis rules draw * nsPerMilli)

end Record

/-! ## The writers

Each as the statement that it runs, on the texts that it binds. -/

/-- The upsert of a scan's bookkeeping. -/
def ScanRow.replace (old r : ScanRow) : ScanRow := { r with seriesId := old.seriesId }

theorem keepsKeys_replace (r : ScanRow) : Table.KeepsKeys (ScanRow.replace · r) :=
  .of_key fun _ => rfl

/-- `record_scan_once`: the average, the schedule and the snapshot of a scan; the streak
of failures ends. -/
def recordScanOnce (rules : ScanRules) (t : Table ScanRow) (seriesId : String)
    (admin : ScanAdmin) (chapters : List SuwayomiChapter) (comicType : Option ComicType)
    (now : Clock) (draw : UInt64) : Table ScanRow :=
  let s : Record := ⟨t.lookup seriesId, admin, chapters, comicType, now⟩
  t.upsert
    { seriesId := seriesId
      avgIntervalHours := s.computedAvg rules
      nextScanAt := some (s.nextScanAt rules draw)
      awaitingSince := s.awaitingSince rules
      knownChapterIds := some s.chapterIds
      consecutiveFailures := 0 }
    ScanRow.replace (keepsKeys_replace _)

/-- A row that only has a schedule. -/
def pending (seriesId next : String) (failures : Int) : ScanRow :=
  ⟨seriesId, 0, some next, none, none, failures⟩

/-- `next_scan_at = excluded.next_scan_at, consecutive_failures = …`. -/
def ScanRow.backOff (old r : ScanRow) : ScanRow :=
  { old with nextScanAt := r.nextScanAt, consecutiveFailures := r.consecutiveFailures }

theorem keepsKeys_backOff (r : ScanRow) : Table.KeepsKeys (ScanRow.backOff · r) :=
  .of_key fun _ => rfl

/-- `record_scan_failure_once`: one more failure and its back-off; the average and the
snapshot stay. -/
def recordScanFailureOnce (t : Table ScanRow) (seriesId : String) (now : Clock) :
    Table ScanRow :=
  let prior := (t.lookup seriesId).elim 0 ScanRow.consecutiveFailures
  let failures := failuresAfter prior
  t.upsert (pending seriesId (now.plus (backoffMinutes failures * nsPerMinute)) failures)
    ScanRow.backOff (keepsKeys_backOff _)

/-- `next_scan_at = excluded.next_scan_at, awaiting_since = NULL`, and no failures. -/
def ScanRow.park (old r : ScanRow) : ScanRow :=
  { old with nextScanAt := r.nextScanAt, awaitingSince := none, consecutiveFailures := 0 }

theorem keepsKeys_park (r : ScanRow) : Table.KeepsKeys (ScanRow.park · r) :=
  .of_key fun _ => rfl

/-- `park_paused`: the series is put off for about two weeks. -/
def parkPaused (t : Table ScanRow) (seriesId : String) (now : Clock) (draw : UInt64) :
    Table ScanRow :=
  t.upsert (pending seriesId (now.plus (parkOffsetHours draw.toNat * nsPerHour)) 0)
    ScanRow.park (keepsKeys_park _)

/-- `SET next_scan_at`, by series. -/
def ScanRow.scheduleBy (next : String → Option String) (r : ScanRow) : ScanRow :=
  { r with nextScanAt := next r.seriesId }

theorem keepsKeys_scheduleBy (next : String → Option String) :
    Table.KeepsKeys (ScanRow.scheduleBy next) := .of_key fun _ => rfl

/-- `UPDATE series_scan_state SET next_scan_at` of these series. -/
def scheduleSeries (t : Table ScanRow) (ids : List String) (next : String → Option String) :
    Table ScanRow :=
  t.update (fun r => r.seriesId ∈ ids) (ScanRow.scheduleBy next) (keepsKeys_scheduleBy next)

/-- The series of the source whose schedule is as asked. -/
def seriesOfSource (t : Table ScanRow) (mappings : Table SourceSeries) (source : String)
    (due : String → Bool) : List String :=
  let keys := (mappings.rows.filter fun m =>
    m.sourceType = "suwayomi" ∧ m.sourceId = source).map SourceSeries.sourceKey
  (t.rows.filter fun r => r.seriesId ∈ keys ∧ r.nextScanAt.any due).map ScanRow.seriesId

/-- `SOURCE_OUTAGE_PARK_HOURS`, in minutes, as the statement of the park binds it. -/
def outageParkMinutes : Nat := 24 * 7 * 60

/-- Over how much of its length a park is spread. -/
def outageSpreadMinutes : Nat := max (outageParkMinutes / 5) 1

/-- The series that `park_source_series` parks. -/
def parkable (t : Table ScanRow) (mappings : Table SourceSeries) (source : String)
    (calledAt : Clock) : List String :=
  let halfHorizon := calledAt.plus ((outageParkMinutes / 2 * nsPerMinute : Nat) : Int)
  seriesOfSource t mappings source (· < halfHorizon)

/-- Where `park_source_series` parks a series, from `ABS(RANDOM())`. -/
def outageParkedAt (now : Clock) (draw : Nat) : Option String :=
  now.minutesOn (outageParkMinutes - outageSpreadMinutes / 2 + draw % outageSpreadMinutes)

/-- The series that `unpark_source_series` pulls back. -/
def unparkable (t : Table ScanRow) (mappings : Table SourceSeries) (source : String)
    (calledAt : Clock) : List String :=
  let soon := calledAt.plus ((2 * nsPerHour : Nat) : Int)
  seriesOfSource t mappings source (soon < ·)

/-- Somewhere in the next hour. -/
def withinTheHour (now : Clock) (draw : Nat) : Option String := now.minutesOn (draw % 60)

/-- The timestamp that the reclaim compares with. -/
def reclaimHorizon (calledAt : Clock) : String :=
  calledAt.plus ((absurdHorizonHours * nsPerHour : Nat) : Int)

/-- The series that `reclaim_absurd_schedules` selects, the furthest first. -/
def reclaimable (t : Table ScanRow) (calledAt : Clock) : List String :=
  (((t.rows.filter fun r => r.nextScanAt.any (reclaimHorizon calledAt < ·)).insertionSort
    fun a b => b.nextScanAt.getD "" ≤ a.nextScanAt.getD "").take absurdReclaimPerTick).map
      ScanRow.seriesId

/-! ## Runs

What a step writes, and to which series. -/

/-- The two tables, and what a run is told about its writers. -/
structure ScheduleState where
  scanStates : Table ScanRow
  sourceSeries : Table SourceSeries
  /-- When one of the writers set the schedule of the series, if it did so last. -/
  writtenAt : String → Option Clock

/-- `calledAt` is the clock of the call, `now` that of its statement. -/
inductive Event where
  | recordScan (seriesId : String) (admin : ScanAdmin) (chapters : List SuwayomiChapter)
      (comicType : Option ComicType) (now : Clock) (draw : UInt64)
  | recordFailure (seriesId : String) (now : Clock)
  | parkPaused (seriesId : String) (now : Clock) (draw : UInt64)
  | parkSource (source : String) (calledAt now : Clock) (draw : String → Nat)
  | unparkSource (source : String) (calledAt now : Clock) (draw : String → Nat)
  | reclaim (calledAt now : Clock) (draw : String → Nat)
  /-- One statement of `trigger_due_now`. -/
  | trigger (seriesId : String) (now : Clock)
  | ensurePending (seriesId : String) (now : Clock)
  /-- Another writer, such as a migration. -/
  | other (row : ScanRow)
  | purge (seriesId : String)
  | mapped (mappings : Table SourceSeries)

/-- The time of a writer's statement. -/
def Event.time : Event → Option Clock
  | .recordScan _ _ _ _ now _ | .recordFailure _ now | .parkPaused _ now _
  | .parkSource _ _ now _ | .unparkSource _ _ now _ | .reclaim _ now _
  | .trigger _ now | .ensurePending _ now => some now
  | .other _ | .purge _ | .mapped _ => none

/-- The series whose schedule a writer sets. -/
def written (s : ScheduleState) : Event → List String
  | .recordScan seriesId _ _ _ _ _ | .recordFailure seriesId _ | .parkPaused seriesId _ _ =>
      [seriesId]
  | .parkSource source calledAt _ _ => parkable s.scanStates s.sourceSeries source calledAt
  | .unparkSource source calledAt _ _ => unparkable s.scanStates s.sourceSeries source calledAt
  | .reclaim calledAt _ _ => reclaimable s.scanStates calledAt
  | .trigger seriesId _ => if (s.scanStates.lookup seriesId).isSome then [seriesId] else []
  | .ensurePending seriesId _ =>
      if (s.scanStates.lookup seriesId).isSome then [] else [seriesId]
  | .other _ | .purge _ | .mapped _ => []

/-- The table after a step. -/
def stored (rules : ScanRules) (s : ScheduleState) : Event → Table ScanRow
  | .recordScan seriesId admin chapters comicType now draw =>
      recordScanOnce rules s.scanStates seriesId admin chapters comicType now draw
  | .recordFailure seriesId now => recordScanFailureOnce s.scanStates seriesId now
  | .parkPaused seriesId now draw => parkPaused s.scanStates seriesId now draw
  | .parkSource source calledAt now draw =>
      scheduleSeries s.scanStates (parkable s.scanStates s.sourceSeries source calledAt)
        fun id => outageParkedAt now (draw id)
  | .unparkSource source calledAt now draw =>
      scheduleSeries s.scanStates (unparkable s.scanStates s.sourceSeries source calledAt)
        fun id => withinTheHour now (draw id)
  | .reclaim calledAt now draw =>
      scheduleSeries s.scanStates (reclaimable s.scanStates calledAt)
        fun id => withinTheHour now (draw id)
  | .trigger seriesId _ =>
      scheduleSeries s.scanStates [seriesId] fun _ => some dueNowSentinel
  | .ensurePending seriesId _ =>
      s.scanStates.insertOrIgnore (pending seriesId dueNowSentinel 0)
  | .other row => s.scanStates.insertOrReplace row
  | .purge seriesId => s.scanStates.deleteWhere fun r => r.seriesId = seriesId
  | .mapped _ => s.scanStates

/-- A step, and who wrote which schedule last. -/
def step (rules : ScanRules) (s : ScheduleState) (e : Event) : ScheduleState where
  scanStates := stored rules s e
  sourceSeries :=
    match e with
    | .mapped mappings => mappings
    | _ => s.sourceSeries
  writtenAt :=
    match e with
    | .other row => fun id => if id = row.seriesId then none else s.writtenAt id
    | e => fun id => if id ∈ written s e then e.time else s.writtenAt id

/-- Any table, of which nothing is known. -/
def start (t : Table ScanRow) (mappings : Table SourceSeries) : ScheduleState :=
  ⟨t, mappings, fun _ => none⟩

/-! ## What a writer must write

The text is to be in the future, or the sentinel, and short of the horizon. -/

/-- The schedule can be read, is not in the past unless the series is due now, and is
short of the horizon. -/
def WellScheduled (now : Clock) (text : Option String) : Prop :=
  ∃ t next, text = some t ∧ parseRfc3339 t = some next ∧
    (t = dueNowSentinel ∨ (now.ns : Int) ≤ next) ∧
      next < now.ns + absurdHorizonHours * nsPerHour

/-- A writer leaves the series that it writes well scheduled. -/
def WritesWell (rules : ScanRules) (s : ScheduleState) (e : Event) : Prop :=
  ∀ now, e.time = some now → ∀ id ∈ written s e, ∃ r,
    (step rules s e).scanStates.lookup id = some r ∧ WellScheduled now r.nextScanAt

/-- The reclaim leaves a series alone whose schedule was written before it is called. -/
def SparesWritten (s : ScheduleState) : Event → Prop
  | .reclaim calledAt _ _ =>
      ∀ id ∈ reclaimable s.scanStates calledAt, ∀ now, s.writtenAt id = some now →
        calledAt.ns < now.ns
  | _ => True

/-- The fraction of the clock's second is made up for.  In the first second of 1970
what is written is the sentinel. -/
def Spread (now : Clock) (draw : Nat) : Prop :=
  draw % 60 ≠ 0 ∨ now.ns % nsPerSecond = 0 ∨ now.ns < nsPerSecond

instance (now : Clock) (draw : Nat) : Decidable (Spread now draw) :=
  inferInstanceAs (Decidable (_ ∨ _))

/-- No series is pulled back to the very second. -/
def SpreadsOut (s : ScheduleState) : Event → Prop
  | .unparkSource source calledAt now draw =>
      ∀ id ∈ unparkable s.scanStates s.sourceSeries source calledAt, Spread now (draw id)
  | .reclaim calledAt now draw =>
      ∀ id ∈ reclaimable s.scanStates calledAt, Spread now (draw id)
  | _ => True

/-! ## Intervals stay in their bounds

Whatever the administrator has set, an interval is at most fourteen days. -/

/-- A clamp is between its bounds. -/
theorem clamp_bounds {lo hi : Rat} (h : lo ≤ hi) (x : Rat) :
    lo ≤ clamp lo hi x ∧ clamp lo hi x ≤ hi :=
  ⟨le_max_left _ _, max_le h (min_le_left _ _)⟩

theorem maxIntervalHours_eq : maxIntervalHours = 336 := by
  norm_num [maxIntervalHours, pausedParkHours]

/-- An override is kept to between an hour and fourteen days. -/
theorem override_bounds (o : Rat) :
    0 ≤ clamp hardMinIntervalHours maxIntervalHours o ∧
      clamp hardMinIntervalHours maxIntervalHours o ≤ 336 := by
  have hle : hardMinIntervalHours ≤ maxIntervalHours := by
    rw [maxIntervalHours_eq]
    norm_num [hardMinIntervalHours]
  obtain ⟨hlow, hhigh⟩ := clamp_bounds hle o
  rw [maxIntervalHours_eq] at hlow hhigh ⊢
  norm_num [hardMinIntervalHours] at hlow hhigh ⊢
  exact ⟨by linarith, hhigh⟩

theorem resolveInterval_bounds (override : Option Rat) (avg : Rat) :
    0 ≤ resolveInterval override avg ∧ resolveInterval override avg ≤ 336 := by
  unfold resolveInterval
  split
  · exact override_bounds _
  · generalize (if 0 < avg then avg else defaultIntervalHours) = base
    obtain ⟨hlow, hhigh⟩ := clamp_bounds (by norm_num [minIntervalHours, activeMaxIntervalHours] :
      minIntervalHours ≤ activeMaxIntervalHours) base
    norm_num [minIntervalHours, activeMaxIntervalHours] at hlow hhigh ⊢
    exact ⟨by linarith, by linarith⟩

theorem scanIntervalHours_bounds (comicType : ComicType) (lastRelease : Option Int)
    (now : Clock) (override : Option Rat) :
    0 ≤ scanIntervalHours comicType lastRelease now override ∧
      scanIntervalHours comicType lastRelease now override ≤ 336 := by
  unfold scanIntervalHours
  split
  · exact override_bounds _
  · cases comicType with
    | manga | comic => norm_num [tierMangaHours]
    | manhwa | manhua | webtoon =>
        dsimp only
        split <;> norm_num [tierFastActiveHours, tierFastDormantHours]

/-- A poll is no longer than the interval that it is for. -/
theorem resolvePollMinutes_bounds (poll : Option Int) {steady : Rat} (h : 0 ≤ steady) :
    0 ≤ resolvePollMinutes poll steady / 60 ∧ resolvePollMinutes poll steady / 60 ≤ steady := by
  have hfloor : (0 : Rat) ≤ max (((poll.filter (0 < ·)).map Int.cast).getD defaultPollMinutes)
      minPollMinutes :=
    le_max_of_le_right (by norm_num [minPollMinutes])
  unfold resolvePollMinutes
  constructor
  · exact div_nonneg (le_min hfloor (by linarith)) (by norm_num)
  · rw [div_le_iff₀ (by norm_num)]
    exact min_le_right _ _

/-- The jitter adds a tenth at most. -/
theorem jitterIntervalHoursWith_bounds {hours fraction : Rat} (hhours : 0 ≤ hours)
    (hfraction : 0 ≤ fraction) (hsmall : fraction ≤ 1 / 10) (draw : UInt64) :
    0 ≤ jitterIntervalHoursWith hours fraction draw ∧
      jitterIntervalHoursWith hours fraction draw ≤ hours * (11 / 10) := by
  unfold jitterIntervalHoursWith
  split
  · next hzero => exact ⟨hhours, by linarith⟩
  · have hdraw : (draw.toNat : Rat) ≤ 2 ^ 64 - 1 := by
      have hlt : draw.toNat < 2 ^ 64 := draw.toNat_lt
      have hcast : ((draw.toNat + 1 : Nat) : Rat) ≤ ((2 ^ 64 : Nat) : Rat) := by
        exact_mod_cast hlt
      push_cast at hcast
      linarith
    have hunit : (draw.toNat : Rat) / (2 ^ 64 - 1) ≤ 1 := by
      rw [div_le_iff₀ (by norm_num), one_mul]
      exact hdraw
    have hspread : ((draw.toNat : Rat) / (2 ^ 64 - 1) * 2 - 1) * fraction ≤ 1 / 10 := by
      calc ((draw.toNat : Rat) / (2 ^ 64 - 1) * 2 - 1) * fraction ≤ 1 * fraction :=
            mul_le_mul_of_nonneg_right (by linarith) hfraction
        _ ≤ 1 / 10 := by linarith
    refine ⟨le_max_right _ _, max_le ?_ (mul_nonneg hhours (by norm_num))⟩
    exact mul_le_mul_of_nonneg_left (by linarith) hhours

section Recorded

variable (rules : ScanRules) (s : Record)

theorem steadyInterval_bounds : 0 ≤ s.steadyInterval rules ∧ s.steadyInterval rules ≤ 336 := by
  unfold Record.steadyInterval
  split
  · exact scanIntervalHours_bounds _ _ _ _
  · exact resolveInterval_bounds _ _

theorem nextIntervalHours_bounds :
    0 ≤ s.nextIntervalHours rules ∧ s.nextIntervalHours rules ≤ 336 := by
  obtain ⟨hpos, hmax⟩ := steadyInterval_bounds rules s
  unfold Record.nextIntervalHours
  split
  · obtain ⟨hpoll, hsteady⟩ := resolvePollMinutes_bounds s.admin.pollEveryMinutes hpos
    exact ⟨hpoll, hsteady.trans hmax⟩
  · exact ⟨hpos, hmax⟩

theorem jitterFraction_bounds : 0 ≤ s.jitterFraction rules ∧ s.jitterFraction rules ≤ 1 / 10 := by
  unfold Record.jitterFraction tierJitterFraction scheduleJitterFraction
  split
  · split <;> norm_num
  · norm_num

/-- At most fourteen days and a tenth. -/
theorem delayMillis_bounds (draw : UInt64) :
    0 ≤ s.delayMillis rules draw ∧ s.delayMillis rules draw ≤ 1330560000 := by
  obtain ⟨hpos, hmax⟩ := nextIntervalHours_bounds rules s
  obtain ⟨hfraction, hsmall⟩ := jitterFraction_bounds rules s
  obtain ⟨hlow, hhigh⟩ := jitterIntervalHoursWith_bounds hpos hfraction hsmall draw
  unfold Record.delayMillis
  generalize jitterIntervalHoursWith _ _ draw = hours at *
  have hms : (0 : Rat) ≤ hours * 3600000 := by linarith
  have hfloor : 0 ≤ (hours * 3600000).floor := Rat.le_floor_iff.mpr (by exact_mod_cast hms)
  have hceiling : (hours * 3600000).floor ≤ 1330560000 := by
    have hle : (((hours * 3600000).floor : Int) : Rat) ≤ 1330560000 :=
      (Rat.floor_le _).trans (by linarith)
    exact_mod_cast hle
  dsimp only
  rw [if_pos hms]
  omega

end Recorded

/-! ## What is written

Each of the writers binds one of three kinds of text. -/

section Written

variable {now : Clock} {text : Option String}

/-- The sentinel is the timestamp of the start of 1970. -/
theorem dueNowSentinel_eq : dueNowSentinel = toRfc3339 0 := by decide +kernel

/-- The timestamp of an instant short of the horizon. -/
def BelowHorizon (now : Clock) (text : Option String) : Prop :=
  ∃ next : Nat, text = some (toRfc3339 next) ∧ next < now.ns + absurdHorizonHours * nsPerHour

/-- A timestamp short of the horizon is well scheduled unless it lies in the past. -/
theorem wellScheduled_toRfc3339 {next : Nat}
    (h : next < now.ns + absurdHorizonHours * nsPerHour) :
    WellScheduled now (some (toRfc3339 next)) ↔ next = 0 ∨ now.ns ≤ next := by
  have hearly := now.early
  have hparse : parseRfc3339 (toRfc3339 next) = some (next : Int) :=
    parse_toRfc3339 (h.trans hearly)
  have hsentinel : toRfc3339 next = dueNowSentinel ↔ next = 0 := by
    rw [dueNowSentinel_eq]
    constructor
    · intro heq
      have hzero : parseRfc3339 (toRfc3339 0) = some ((0 : Nat) : Int) :=
        parse_toRfc3339 (by decide)
      rw [← heq, hparse, Option.some.injEq] at hzero
      exact_mod_cast hzero
    · rintro rfl
      rfl
  constructor
  · rintro ⟨t, instant, htext, hreads, hnot_past, -⟩
    rw [Option.some.injEq] at htext
    rw [← htext, hparse, Option.some.injEq] at hreads
    rw [← htext, ← hreads, hsentinel, Nat.cast_le] at hnot_past
    exact hnot_past
  · intro hnext
    refine ⟨_, _, rfl, hparse, ?_, by exact_mod_cast h⟩
    rw [hsentinel, Nat.cast_le]
    exact hnext

/-- A delay that is not negative, written with its fraction. -/
theorem plus_spec {delay : Int} (hpos : 0 ≤ delay)
    (hshort : delay < absurdHorizonHours * nsPerHour) :
    BelowHorizon now (some (now.plus delay)) ∧ WellScheduled now (some (now.plus delay)) := by
  have hnext : (now.ns + delay).toNat < now.ns + absurdHorizonHours * nsPerHour := by omega
  refine ⟨⟨_, rfl, hnext⟩, (wellScheduled_toRfc3339 hnext).mpr (Or.inr ?_)⟩
  omega

/-- The sentinel is due now, and short of any horizon. -/
theorem sentinel_spec :
    BelowHorizon now (some dueNowSentinel) ∧ WellScheduled now (some dueNowSentinel) := by
  have hnext : 0 < now.ns + absurdHorizonHours * nsPerHour := by
    unfold absurdHorizonHours nsPerHour nsPerSecond
    omega
  rw [dueNowSentinel_eq]
  exact ⟨⟨0, rfl, hnext⟩, (wellScheduled_toRfc3339 hnext).mpr (Or.inl rfl)⟩

/-- A text without a fraction is behind the clock by the fraction. -/
theorem minutesOn_spec {n : Nat} (hshort : n * nsPerMinute < absurdHorizonHours * nsPerHour) :
    BelowHorizon now (now.minutesOn n) ∧ (WellScheduled now (now.minutesOn n) ↔
      n ≠ 0 ∨ now.ns % nsPerSecond = 0 ∨ now.ns < nsPerSecond) := by
  have hearly := now.early
  have htext : now.minutesOn n =
      some (toRfc3339 ((now.ns + n * nsPerMinute) / nsPerSecond * nsPerSecond)) :=
    strftime_eq (by omega)
  have hnext : (now.ns + n * nsPerMinute) / nsPerSecond * nsPerSecond <
      now.ns + absurdHorizonHours * nsPerHour := by
    have hfloor := Nat.div_mul_le_self (now.ns + n * nsPerMinute) nsPerSecond
    omega
  rw [htext]
  refine ⟨⟨_, rfl, hnext⟩, (wellScheduled_toRfc3339 hnext).trans ?_⟩
  unfold nsPerMinute nsPerSecond
  omega

theorem backoffMinutes_bounds (failures : Int) :
    0 ≤ backoffMinutes failures ∧ backoffMinutes failures ≤ errorBackoffMaxHours * 60 := by
  have hpow : (0 : Int) ≤ 2 ^ (max 0 (min (failures - 1) 40)).toNat := by positivity
  unfold backoffMinutes errorBackoffBaseMinutes errorBackoffMaxHours
  omega

/-- It does not shrink as failures go on. -/
theorem backoffMinutes_mono {f g : Int} (h : f ≤ g) : backoffMinutes f ≤ backoffMinutes g := by
  have hexp : (max 0 (min (f - 1) 40)).toNat ≤ (max 0 (min (g - 1) 40)).toNat := by omega
  have hpow : (2 : Int) ^ (max 0 (min (f - 1) 40)).toNat ≤
      2 ^ (max 0 (min (g - 1) 40)).toNat := pow_le_pow_right₀ (by decide) hexp
  unfold backoffMinutes errorBackoffBaseMinutes
  omega

/-- A paused series comes back before the horizon. -/
theorem parkOffsetHours_bounds (draw : Nat) :
    0 ≤ parkOffsetHours draw ∧ parkOffsetHours draw < 16 * 24 := by
  unfold parkOffsetHours pausedParkHours parkJitterSpreadHours
  omega

theorem nextScanAt_spec (rules : ScanRules) (r : Record) (draw : UInt64) :
    BelowHorizon r.now (some (r.nextScanAt rules draw)) ∧
      WellScheduled r.now (some (r.nextScanAt rules draw)) := by
  obtain ⟨hpos, hmax⟩ := delayMillis_bounds rules r draw
  apply plus_spec
  · unfold nsPerMilli
    omega
  · unfold absurdHorizonHours nsPerMilli nsPerHour nsPerSecond
    omega

theorem backoffMinutes_spec (failures : Int) :
    BelowHorizon now (some (now.plus (backoffMinutes failures * nsPerMinute))) ∧
      WellScheduled now (some (now.plus (backoffMinutes failures * nsPerMinute))) := by
  obtain ⟨hpos, hmax⟩ := backoffMinutes_bounds failures
  unfold errorBackoffMaxHours at hmax
  apply plus_spec
  · unfold nsPerMinute nsPerSecond
    omega
  · unfold absurdHorizonHours nsPerMinute nsPerHour nsPerSecond
    omega

/-- What the park of a paused series writes. -/
theorem parkOffsetHours_spec (draw : Nat) :
    BelowHorizon now (some (now.plus (parkOffsetHours draw * nsPerHour))) ∧
      WellScheduled now (some (now.plus (parkOffsetHours draw * nsPerHour))) := by
  obtain ⟨hpos, hmax⟩ := parkOffsetHours_bounds draw
  apply plus_spec
  · unfold nsPerHour nsPerSecond
    omega
  · unfold absurdHorizonHours nsPerHour nsPerSecond
    omega

/-- The park of an outage is at least six days. -/
theorem outageParkedAt_spec (draw : Nat) :
    BelowHorizon now (outageParkedAt now draw) ∧ WellScheduled now (outageParkedAt now draw) := by
  have hmod : draw % outageSpreadMinutes < outageSpreadMinutes := Nat.mod_lt _ (by decide)
  have hspread : outageSpreadMinutes = 2016 := by decide
  have hpark : outageParkMinutes = 10080 := by decide
  have hminutes : BelowHorizon now (outageParkedAt now draw) ∧
      (WellScheduled now (outageParkedAt now draw) ↔ _) :=
    minutesOn_spec (by
      unfold absurdHorizonHours nsPerMinute nsPerHour nsPerSecond
      omega)
  exact ⟨hminutes.1, hminutes.2.mpr (Or.inl (by omega))⟩

/-- A draw of nought adds nothing to the text. -/
theorem withinTheHour_spec (draw : Nat) :
    BelowHorizon now (withinTheHour now draw) ∧
      (WellScheduled now (withinTheHour now draw) ↔ Spread now draw) := by
  have hmod : draw % 60 < 60 := Nat.mod_lt _ (by decide)
  apply minutesOn_spec
  unfold absurdHorizonHours nsPerMinute nsPerHour nsPerSecond
  omega

end Written

/-! ## Steps

The rows that a step writes, and those that it leaves. -/

section Steps

variable {rules : ScanRules} {s : ScheduleState} {e : Event} {id : String}

/-- What a writer writes. -/
def nextOf (rules : ScanRules) (s : ScheduleState) (e : Event) (id : String) : Option String :=
  match e with
  | .recordScan seriesId admin chapters comicType now draw =>
      some (Record.nextScanAt rules
        ⟨s.scanStates.lookup seriesId, admin, chapters, comicType, now⟩ draw)
  | .recordFailure seriesId now =>
      some (now.plus (backoffMinutes (failuresAfter ((s.scanStates.lookup seriesId).elim 0
        ScanRow.consecutiveFailures)) * nsPerMinute))
  | .parkPaused _ now draw => some (now.plus (parkOffsetHours draw.toNat * nsPerHour))
  | .parkSource _ _ now draw => outageParkedAt now (draw id)
  | .unparkSource _ _ now draw | .reclaim _ now draw => withinTheHour now (draw id)
  | .trigger _ _ | .ensurePending _ _ => some dueNowSentinel
  | .other _ | .purge _ | .mapped _ => none

/-- A series that is selected has a row. -/
theorem mem_seriesOfSource {t : Table ScanRow} {mappings : Table SourceSeries}
    {source : String} {due : String → Bool} (h : id ∈ seriesOfSource t mappings source due) :
    ∃ r, t.lookup id = some r := by
  obtain ⟨r, hr, rfl⟩ := List.mem_map.mp h
  exact ⟨r, Table.lookup_of_mem (Table.mem_rows.mp (List.mem_filter.mp hr).1)⟩

/-- A series that is reclaimed has a text behind the horizon. -/
theorem mem_reclaimable {t : Table ScanRow} {calledAt : Clock}
    (h : id ∈ reclaimable t calledAt) :
    ∃ r, t.lookup id = some r ∧ r.nextScanAt.any (reclaimHorizon calledAt < ·) = true := by
  obtain ⟨r, hr, rfl⟩ := List.mem_map.mp h
  have hselected := (List.mem_insertionSort _).mp (List.mem_of_mem_take hr)
  obtain ⟨hrow, hfar⟩ := List.mem_filter.mp hselected
  exact ⟨r, Table.lookup_of_mem (Table.mem_rows.mp hrow), hfar⟩

theorem lookup_scheduleSeries {t : Table ScanRow} {ids : List String}
    {next : String → Option String} :
    (scheduleSeries t ids next).lookup id =
      (t.lookup id).map fun r => if id ∈ ids then r.scheduleBy next else r := by
  rw [scheduleSeries, Table.lookup_update]
  cases hrow : t.lookup id with
  | none => rfl
  | some r =>
      have hkey : r.seriesId = id := Table.key_of_lookup hrow
      simp only [Option.map_some, hkey, decide_eq_true_eq]

/-- A series that is scheduled has what was written. -/
theorem lookup_scheduled {t : Table ScanRow} {ids : List String}
    {next : String → Option String} {r : ScanRow} (hrow : t.lookup id = some r)
    (hid : id ∈ ids) :
    ∃ r', (scheduleSeries t ids next).lookup id = some r' ∧ r'.nextScanAt = next id := by
  have hkey : r.seriesId = id := Table.key_of_lookup hrow
  refine ⟨r.scheduleBy next, ?_, by rw [ScanRow.scheduleBy, hkey]⟩
  rw [lookup_scheduleSeries, hrow, Option.map_some, if_pos hid]

/-- An upsert that takes over the schedule writes it. -/
theorem lookup_upserted {t : Table ScanRow} {r : ScanRow} {merge : ScanRow → ScanRow → ScanRow}
    {h : Table.KeepsKeys (merge · r)} (hmerge : ∀ old, (merge old r).nextScanAt = r.nextScanAt) :
    ∃ r', (t.upsert r merge h).lookup r.seriesId = some r' ∧ r'.nextScanAt = r.nextScanAt := by
  refine ⟨Table.merged merge (t.lookup r.seriesId) r, ?_, ?_⟩
  · rw [Table.lookup_upsert, key_scanRow, if_pos rfl]
  · cases t.lookup r.seriesId with
    | none => rfl
    | some old => exact hmerge old

/-- The series that a writer writes have the schedule that it writes. -/
theorem lookup_written (rules : ScanRules) (h : id ∈ written s e) :
    ∃ r, (stored rules s e).lookup id = some r ∧ r.nextScanAt = nextOf rules s e id := by
  cases e with
  | recordScan seriesId | recordFailure seriesId | parkPaused seriesId =>
      rw [List.mem_singleton.mp h]
      exact lookup_upserted fun _ => rfl
  | parkSource source calledAt now draw =>
      obtain ⟨r, hrow⟩ := mem_seriesOfSource h
      exact lookup_scheduled hrow h
  | unparkSource source calledAt now draw =>
      obtain ⟨r, hrow⟩ := mem_seriesOfSource h
      exact lookup_scheduled hrow h
  | reclaim calledAt now draw =>
      obtain ⟨r, hrow, -⟩ := mem_reclaimable h
      exact lookup_scheduled hrow h
  | trigger seriesId now =>
      simp only [written] at h
      split at h
      · next hsome =>
          obtain ⟨r, hrow⟩ := Option.isSome_iff_exists.mp hsome
          rw [List.mem_singleton.mp h]
          exact lookup_scheduled hrow List.mem_cons_self
      · contradiction
  | ensurePending seriesId now =>
      simp only [written] at h
      split at h
      · contradiction
      · next hnone =>
          rw [List.mem_singleton.mp h]
          refine ⟨pending seriesId dueNowSentinel 0, ?_, rfl⟩
          rw [Option.not_isSome_iff_eq_none, Table.lookup_eq_none] at hnone
          rw [stored, Table.lookup_eq_some]
          refine ⟨Table.mem_insertOrIgnore.mpr (Or.inr ⟨rfl, ?_⟩), rfl⟩
          intro r hr
          exact decide_eq_false fun hclash => hnone r hr hclash.symm
  | other | purge | mapped => contradiction

/-- An update of other series leaves the row. -/
theorem lookup_unscheduled {t : Table ScanRow} {ids : List String}
    {next : String → Option String} {r : ScanRow} (hid : id ∉ ids)
    (hrow : (scheduleSeries t ids next).lookup id = some r) : t.lookup id = some r := by
  simpa only [lookup_scheduleSeries, if_neg hid, Option.map_id'] using hrow

theorem lookup_not_upserted {t : Table ScanRow} {r r' : ScanRow}
    {merge : ScanRow → ScanRow → ScanRow} {h : Table.KeepsKeys (merge · r)}
    (hid : id ≠ r.seriesId) (hrow : (t.upsert r merge h).lookup id = some r') :
    t.lookup id = some r' := by
  rwa [Table.lookup_upsert, key_scanRow, if_neg hid.symm] at hrow

/-- The schedules of the others stay. -/
theorem lookup_unwritten {r : ScanRow} (h : id ∉ written s e)
    (hother : ∀ row, e = .other row → id ≠ row.seriesId)
    (hrow : (stored rules s e).lookup id = some r) :
    s.scanStates.lookup id = some r := by
  cases e with
  | recordScan seriesId | recordFailure seriesId | parkPaused seriesId =>
      exact lookup_not_upserted (fun heq => h (List.mem_singleton.mpr heq)) hrow
  | parkSource | unparkSource | reclaim => exact lookup_unscheduled h hrow
  | trigger seriesId now =>
      by_cases heq : id = seriesId
      · -- the series is not enrolled, as it would be written else
        subst heq
        rw [stored, lookup_scheduleSeries] at hrow
        simp only [written] at h
        cases hold : s.scanStates.lookup id with
        | none => simp [hold] at hrow
        | some old => simp [hold] at h
      · exact lookup_unscheduled (by simpa using heq) hrow
  | ensurePending seriesId now =>
      rw [stored, Table.lookup_eq_some, Table.mem_insertOrIgnore] at hrow
      rw [Table.lookup_eq_some]
      obtain ⟨hmem | ⟨rfl, hfree⟩, hkey⟩ := hrow
      · exact ⟨hmem, hkey⟩
      · refine absurd ?_ h
        have hnone : s.scanStates.lookup seriesId = none := by
          rw [Table.lookup_eq_none]
          intro old hold heq
          have hclash := hfree old hold
          rw [← Bool.not_eq_true, ByKey.clash_iff] at hclash
          exact hclash heq.symm
        rw [written, hnone]
        exact List.mem_singleton.mpr hkey.symm
  | other row =>
      rw [stored, Table.lookup_eq_some, Table.mem_insertOrReplace] at hrow
      rw [Table.lookup_eq_some]
      obtain ⟨⟨hmem, -⟩ | rfl, hkey⟩ := hrow
      · exact ⟨hmem, hkey⟩
      · exact absurd hkey.symm (hother r rfl)
  | purge seriesId =>
      rw [stored, Table.lookup_deleteWhere, Option.filter_eq_some_iff] at hrow
      exact hrow.1
  | mapped => exact hrow

/-- What the pull back to the next hour leaves to chance. -/
def SpreadsOutAt (e : Event) (id : String) : Prop :=
  match e with
  | .unparkSource _ _ now draw | .reclaim _ now draw => Spread now (draw id)
  | _ => True

/-- Whatever a writer writes is below the horizon, and not in the past but for a draw
of nought. -/
theorem nextOf_spec {now : Clock} (h : e.time = some now) :
    BelowHorizon now (nextOf rules s e id) ∧
      (WellScheduled now (nextOf rules s e id) ↔ SpreadsOutAt e id) := by
  have hsure {text : Option String} (hspec : BelowHorizon now text ∧ WellScheduled now text) :
      BelowHorizon now text ∧ (WellScheduled now text ↔ True) :=
    ⟨hspec.1, iff_true_intro hspec.2⟩
  cases e with
  | recordScan seriesId admin chapters comicType now' draw =>
      obtain rfl : now' = now := Option.some.inj h
      exact hsure (nextScanAt_spec rules
        ⟨s.scanStates.lookup seriesId, admin, chapters, comicType, now'⟩ draw)
  | recordFailure seriesId now' =>
      obtain rfl : now' = now := Option.some.inj h
      exact hsure (backoffMinutes_spec _)
  | parkPaused seriesId now' draw =>
      obtain rfl : now' = now := Option.some.inj h
      exact hsure (parkOffsetHours_spec _)
  | parkSource source calledAt now' draw =>
      obtain rfl : now' = now := Option.some.inj h
      exact hsure (outageParkedAt_spec _)
  | unparkSource source calledAt now' draw | reclaim calledAt now' draw =>
      obtain rfl : now' = now := Option.some.inj h
      exact withinTheHour_spec _
  | trigger | ensurePending => exact hsure sentinel_spec
  | other | purge | mapped => contradiction

theorem spreadsOut_iff : SpreadsOut s e ↔ ∀ id ∈ written s e, SpreadsOutAt e id := by
  cases e <;> simp [SpreadsOut, SpreadsOutAt, written]

/-- A writer writes well exactly if it spreads out. -/
theorem writesWell_iff : WritesWell rules s e ↔ SpreadsOut s e := by
  rw [spreadsOut_iff]
  constructor
  · intro hwell id hid
    cases htime : e.time with
    | none => cases e <;> simp_all [Event.time, written]
    | some now =>
        obtain ⟨r, hrow, hnext⟩ := hwell now htime id hid
        obtain ⟨r', hrow', hnext'⟩ := lookup_written rules hid
        obtain rfl : r = r' := Option.some.inj (hrow.symm.trans hrow')
        rw [hnext'] at hnext
        exact (nextOf_spec htime).2.mp hnext
  · intro hspread now htime id hid
    obtain ⟨r, hrow, hnext⟩ := lookup_written rules hid
    refine ⟨r, hrow, ?_⟩
    rw [hnext]
    exact (nextOf_spec htime).2.mpr (hspread id hid)

/-- The schedules of the writers are below the horizon of the time they were written. -/
def Traced (s : ScheduleState) : Prop :=
  ∀ id now r, s.writtenAt id = some now → s.scanStates.lookup id = some r →
    BelowHorizon now r.nextScanAt

theorem traced_start (t : Table ScanRow) (mappings : Table SourceSeries) :
    Traced (start t mappings) := by
  intro id now r hwritten
  contradiction

theorem writtenAt_step (h : ∀ row, e ≠ .other row) :
    (step rules s e).writtenAt id = if id ∈ written s e then e.time else s.writtenAt id := by
  cases e with
  | other row => exact absurd rfl (h row)
  | _ => rfl

theorem writtenAt_written (h : id ∈ written s e) :
    (step rules s e).writtenAt id = e.time := by
  rw [writtenAt_step, if_pos h]
  rintro row rfl
  contradiction

theorem writtenAt_unwritten {now : Clock} (h : id ∉ written s e)
    (hwritten : (step rules s e).writtenAt id = some now) :
    s.writtenAt id = some now ∧ ∀ row, e = .other row → id ≠ row.seriesId := by
  by_cases hother : ∃ row, e = .other row
  · obtain ⟨row, rfl⟩ := hother
    change (if id = row.seriesId then none else s.writtenAt id) = some now at hwritten
    split at hwritten
    · contradiction
    · next hne =>
        refine ⟨hwritten, fun row' heq => ?_⟩
        rwa [← Event.other.inj heq]
  · have hnot : ∀ row, e ≠ .other row := fun row heq => hother ⟨row, heq⟩
    rw [writtenAt_step hnot, if_neg h] at hwritten
    exact ⟨hwritten, fun row heq => absurd heq (hnot row)⟩

theorem traced_step (h : Traced s) : Traced (step rules s e) := by
  intro id now r hwritten hrow
  by_cases hid : id ∈ written s e
  · rw [writtenAt_written hid] at hwritten
    obtain ⟨r', hrow', hnext⟩ := lookup_written rules hid
    obtain rfl : r = r' := Option.some.inj (hrow.symm.trans hrow')
    rw [hnext]
    exact (nextOf_spec hwritten).1
  · obtain ⟨hbefore, hother⟩ := writtenAt_unwritten hid hwritten
    exact h id now r hbefore (lookup_unwritten hid hother hrow)

/-- What is below the horizon of its time is below every later one. -/
theorem sparesWritten_of_traced (h : Traced s) : SparesWritten s e := by
  cases e with
  | reclaim calledAt now' draw =>
      intro id hid now hwritten
      obtain ⟨r, hrow, hfar⟩ := mem_reclaimable hid
      obtain ⟨next, htext, hnext⟩ := h id now r hwritten hrow
      rw [htext, Option.any_some, decide_eq_true_eq] at hfar
      have hearly := now.early
      have hlt := (toRfc3339_lt_iff calledAt.early (hnext.trans hearly)).mp hfar
      omega
  | _ => trivial

end Steps

/-! ## The schedule of a run

A reclaim looks for texts behind its horizon, which no writer has written. -/

/-- Every schedule is written well, none of them is reclaimed, and the failures of a
series never make it wait less, nor for more than a day. -/
def SchedulesWell (rules : ScanRules) (t : Table ScanRow) (mappings : Table SourceSeries)
    (events : List Event) : Prop :=
  EachStep (step rules) (WritesWell rules) (start t mappings) events ∧
    EachStep (step rules) SparesWritten (start t mappings) events ∧
    (∀ f g, f ≤ g → backoffMinutes f ≤ backoffMinutes g) ∧
    ∀ failures, backoffMinutes failures ≤ errorBackoffMaxHours * 60

section Run

variable {rules : ScanRules} {t : Table ScanRow} {mappings : Table SourceSeries}
  {events : List Event}

theorem eachStep_writesWell_iff :
    EachStep (step rules) (WritesWell rules) (start t mappings) events ↔
      EachStep (step rules) SpreadsOut (start t mappings) events :=
  ⟨EachStep.mono fun _ _ => writesWell_iff.mp, EachStep.mono fun _ _ => writesWell_iff.mpr⟩

/-- No reclaim selects a series that a writer has scheduled last, wherever it runs. -/
theorem eachStep_sparesWritten :
    EachStep (step rules) SparesWritten (start t mappings) events :=
  EachStep.of_invariant (fun _ _ h _ => traced_step h) (fun _ _ h _ => sparesWritten_of_traced h)
    (traced_start t mappings) (eachStep_of_forall (P := fun _ => True) fun _ _ => trivial)

end Run

/-- **When every writer schedules well.**  Along every run, whatever the writers and the
settings, what they write is a time after the write, within its bound, and no reclaim
undoes it, exactly if no series is pulled back to the very second of the write; all but
the two writers that spread over the coming hour always do. -/
theorem schedules_well_iff (rules : ScanRules) (t : Table ScanRow)
    (mappings : Table SourceSeries) (events : List Event) :
    SchedulesWell rules t mappings events ↔
      EachStep (step rules) SpreadsOut (start t mappings) events := by
  constructor
  · intro h
    exact eachStep_writesWell_iff.mp h.1
  · intro hspread
    exact ⟨eachStep_writesWell_iff.mpr hspread, eachStep_sparesWritten,
      fun _ _ => backoffMinutes_mono, fun failures => (backoffMinutes_bounds failures).2⟩

/-- The second half of a second after noon, on the first day of 2026. -/
def halfPastNoon : Clock := ⟨1767268800500000000, by decide⟩

/-- The one series of a source. -/
def oneMapping : Table SourceSeries :=
  ⟨[⟨"s", "w", "suwayomi", "9", "1", none, false, none⟩], by simp⟩

/-- A parked series is pulled back as its source recovers, and the draw is a multiple of
sixty. -/
def pulledBack : List Event :=
  [.parkPaused "1" halfPastNoon 0, .unparkSource "9" halfPastNoon halfPastNoon fun _ => 0]

/-- The series is pulled back half a second after noon, and is due at noon. -/
theorem not_schedules_well_pulledBack :
    ¬SchedulesWell scanRules .empty oneMapping pulledBack ∧
      halfPastNoon.plus 0 = "2026-01-01T12:00:00.500+00:00" ∧
      ((run (step scanRules) (start .empty oneMapping) pulledBack).scanStates.lookup "1").bind
        ScanRow.nextScanAt = some "2026-01-01T12:00:00+00:00" := by
  have hdraw : ¬EachStep (step scanRules) SpreadsOut (start .empty oneMapping) pulledBack := by
    rintro ⟨-, hpull, -⟩
    have hspread : Spread halfPastNoon 0 := hpull "1" (by decide +kernel)
    revert hspread
    decide
  refine ⟨fun h => hdraw (eachStep_writesWell_iff.mp h.1), ?_, ?_⟩
  · decide +kernel
  · decide +kernel

end Komika.Scan.Schedule
