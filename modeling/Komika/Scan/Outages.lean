import Komika.Catalog.Schema
import Komika.Lib.Binary64
import Komika.Lib.Machine
import Komika.Scan.Schema
import Komika.Sync.Breaker
import Mathlib.Data.List.Dedup
import Mathlib.Data.List.Sort

/-!
# Source outages

`check_source_health` of `scanner.rs`: it aggregates `series_scan_state` by
source, opens an outage for a source that is out of service and parks its
series, and closes the outage of one that is not and pulls its series back.

The pass only comes to the sources that the aggregate lists, and that lists a
source as long as one of its series has a scan state.  An outage whose source
has lost its last series stays open: `openIff_iff`.

A pass is one event of a run, as are a scan's bookkeeping, an enrolment and a
purge; what the clock shows when the pass comes to a source, what the generator
draws and which statements fail is data of the pass.

* `sameStrikes_judge`, `healthOf_checkSourceHealth` — a turn changes no count, so the
  whole pass works on the counts it started with;
* `outages_judge`, `outages_checkSourceHealth` — the outage of one source after its
  turn, and after the pass;
* `openIff_iff` — when a pass leaves the outages right;
* `pulledBack_checkSourceHealth` — the series of a source that is cleared;
* `outages_kept_run` — every run;
* `not_outagesKept_vanishedSource` — the outage of a source that the aggregate has lost.
-/

namespace Komika.Scan.Outages

open Komika.Lib Komika.Lib.Machine
open Komika.Catalog.Schema
open Komika.Scan.Schema (ScanState pending dueNowSentinel backoffMinutes failuresAfter
  parkOffsetHours msPerMinute msPerHour)
open Komika.Sync.Breaker (Subscription tripSubscriptionBreaker)

/-- `FailureKind`: the fetch failed, it was answered from the local database, or
the result could not be stored. -/
inductive FailureKind where
  | fetchError
  | cachedFallback
  | persistError
deriving DecidableEq

/-- `as_str`, the spelling that is stored. -/
def FailureKind.asStr : FailureKind → String
  | .fetchError => "fetch_error"
  | .cachedFallback => "cached_fallback"
  | .persistError => "persist_error"

/-- A row of `series_scan_state` with the reason of its last failure, which decides
whether the failure is a strike against the source. -/
structure StrikeRow extends ScanState where
  lastFailureKind : Option FailureKind
deriving DecidableEq

instance : Keyed StrikeRow := .ofKey fun r => r.seriesId

instance : ByKey StrikeRow String where
  key r := r.seriesId
  clash_iff _ _ := decide_eq_true_iff

@[simp] theorem key_strikeRow (r : StrikeRow) : key r = r.seriesId := rfl

/-- A row of `source_scan_outage`. -/
structure SourceScanOutage where
  sourceId : String
  pkgName : Option String
  detectedAt : Int
  lastAlertAt : Int
  series : Nat
  failing : Nat
  kind : String
  parkedUntil : Option Int
deriving DecidableEq

instance : Keyed SourceScanOutage := .ofKey SourceScanOutage.sourceId

instance : ByKey SourceScanOutage String where
  key := SourceScanOutage.sourceId
  clash_iff _ _ := decide_eq_true_iff

@[simp] theorem key_sourceScanOutage (r : SourceScanOutage) : key r = r.sourceId := rfl

/-- The tables that the pass reads and writes. -/
structure OutageState where
  scanStates : Table StrikeRow
  sourceSeries : Table SourceSeries
  /-- `source_extension.pkg_name`, by source. -/
  pkgNames : String → Option String
  outages : Table SourceScanOutage
  subscriptions : Table Subscription

/-! ## The bookkeeping of a scan

The statements that count strikes and that end a streak. -/

/-- `ON CONFLICT(series_id) DO UPDATE`. -/
def StrikeRow.reschedule (old r : StrikeRow) : StrikeRow where
  toScanState := old.toScanState.reschedule r.toScanState
  lastFailureKind := r.lastFailureKind

/-- The upsert that a scan's bookkeeping ends in. -/
def rescheduled (t : Table StrikeRow) (seriesId : String) (next failures : Int)
    (kind : Option FailureKind) : Table StrikeRow :=
  t.upsert ⟨⟨seriesId, none, some next, failures⟩, kind⟩ StrikeRow.reschedule
    (.of_key fun _ => rfl)

/-- `record_scan_once`: a scan that went through ends the streak and clears its kind. -/
def recordScanOnce (t : Table StrikeRow) (seriesId : String) (now interval : Int) :
    Table StrikeRow :=
  rescheduled t seriesId (now + interval) 0 none

/-- `record_scan_failure_once`: one more failure of the streak, its kind, and a back-off
that grows with it. -/
def recordScanFailureOnce (t : Table StrikeRow) (seriesId : String) (now : Int)
    (kind : FailureKind) : Table StrikeRow :=
  let prior := (t.lookup seriesId).elim 0 fun r => r.consecutiveFailures
  let failures := failuresAfter prior
  rescheduled t seriesId (now + backoffMinutes failures * msPerMinute) failures (some kind)

/-- `park_paused`: a paused series is put off for about two weeks, and its streak
ends. -/
def parkPaused (t : Table StrikeRow) (seriesId : String) (now : Int) (draw : Nat) :
    Table StrikeRow :=
  rescheduled t seriesId (now + parkOffsetHours draw * msPerHour) 0 none

/-- `ensure_pending`: a new series is due at once; one that is there stays as it is. -/
def ensurePending (t : Table StrikeRow) (seriesId : String) : Table StrikeRow :=
  t.insertOrIgnore ⟨pending seriesId, none⟩

/-- `next_scan_at` becomes what a function of the series says. -/
def StrikeRow.scheduleBy (next : String → Int) (r : StrikeRow) : StrikeRow where
  toScanState := { r.toScanState with nextScanAt := some (next r.seriesId) }
  lastFailureKind := r.lastFailureKind

theorem keepsKeys_scheduleBy (next : String → Int) :
    Table.KeepsKeys (StrikeRow.scheduleBy next) := .of_key fun _ => rfl

/-- One statement of `trigger_due_now`. -/
def triggerDueNow (t : Table StrikeRow) (seriesId : String) : Table StrikeRow :=
  t.update (fun r => r.seriesId = seriesId) (StrikeRow.scheduleBy fun _ => dueNowSentinel)
    (keepsKeys_scheduleBy _)

/-! ## The aggregate

One query, which groups the scan states by the source of their mappings, and the verdict
on a group. -/

/-- `SOURCE_OUTAGE_MIN_STREAK`: from so many failures in a row a series counts as
failing. -/
def sourceOutageMinStreak : Int := 3

/-- `SOURCE_OUTAGE_MIN_SERIES`: with fewer series that are confirmed to fail, a source
is in service. -/
def sourceOutageMinSeries : Nat := 5

/-- `SOURCE_OUTAGE_FAILING_RATIO`, the binary64 number nearest to 0.8. -/
def sourceOutageFailingRatio : Binary64 := .finite false (3602879701896397 * 2 ^ 1022)

/-- `as f64` of a count, which rounds from `2^53` on. -/
def asF64 (n : Nat) : Nat := Binary64.roundUnits n

/-- `is_source_out_of_service`, in the arithmetic of `f64`. -/
def isSourceOutOfService (series confirmedFailing : Nat) : Bool :=
  sourceOutageMinSeries ≤ confirmedFailing &&
    (sourceOutageFailingRatio.timesNat (asF64 series)).le (.ofNat (asF64 confirmedFailing))

/-- A source without a confirmed failure is in service. -/
theorem isSourceOutOfService_zero (series : Nat) : isSourceOutOfService series 0 = false := rfl

/-- `SELECT source_key FROM source_series` of a source. -/
def keysOf (s : OutageState) (source : String) : List String :=
  (s.sourceSeries.rows.filter fun m => m.sourceType = "suwayomi" ∧ m.sourceId = source).map
    SourceSeries.sourceKey

/-- The rows of the join that one source has. -/
def cohort (s : OutageState) (source : String) : List StrikeRow :=
  (keysOf s source).filterMap s.scanStates.lookup

/-- The sources of the join. -/
def sourceIds (s : OutageState) : List String :=
  (s.sourceSeries.rows.filterMap fun m =>
    if m.sourceType = "suwayomi" ∧ (s.scanStates.lookup m.sourceKey).isSome then
      some m.sourceId
    else none).dedup

/-- `SourceScanHealth`: the group of a source in the aggregate. -/
structure SourceScanHealth where
  sourceId : String
  pkgName : Option String
  series : Nat
  failing : Nat
  confirmedFailing : Nat
  cachedFallback : Nat
  fetchError : Nat

/-- What the counts read of a row. -/
def StrikeRow.strikes (r : StrikeRow) : Int × Option FailureKind :=
  (r.consecutiveFailures, r.lastFailureKind)

/-- A streak that is long enough, for a reason that is the source's. -/
def confirms (strikes : Int × Option FailureKind) : Bool :=
  sourceOutageMinStreak ≤ strikes.1 &&
    (strikes.2 = some .cachedFallback || strikes.2 = some .fetchError)

/-- The group of a source. -/
def healthOf (s : OutageState) (source : String) : SourceScanHealth where
  sourceId := source
  pkgName := s.pkgNames source
  series := (cohort s source).length
  failing := (cohort s source).countP fun r => 0 < r.strikes.1
  confirmedFailing := (cohort s source).countP fun r => confirms r.strikes
  cachedFallback := (cohort s source).countP fun r => r.strikes.2 = some .cachedFallback
  fetchError := (cohort s source).countP fun r => r.strikes.2 = some .fetchError

/-- The verdict on a group. -/
def SourceScanHealth.outOfService (h : SourceScanHealth) : Bool :=
  isSourceOutOfService h.series h.confirmedFailing

/-- The order `GROUP BY` hands the groups over in. -/
structure GroupOrder where
  order : List String → List String
  perm : ∀ ids, (order ids).Perm ids

/-- `ORDER BY confirmed_failing DESC, failing DESC, series DESC`. -/
def Worse (a b : SourceScanHealth) : Prop :=
  b.confirmedFailing < a.confirmedFailing ∨
    b.confirmedFailing = a.confirmedFailing ∧
      (b.failing < a.failing ∨ b.failing = a.failing ∧ b.series ≤ a.series)

instance : DecidableRel Worse := fun _ _ => inferInstanceAs (Decidable (_ ∨ _))

/-- `source_scan_health`: one row for each source, the worst first. -/
def sourceScanHealth (s : OutageState) (groups : GroupOrder) : List SourceScanHealth :=
  ((groups.order (sourceIds s)).map (healthOf s)).insertionSort Worse

/-! ## The pass

A loop over the groups, worst first; each source is condemned or recovers. -/

/-- `SOURCE_OUTAGE_PARK_HOURS`: for how long the series of a source in outage are put
off. -/
def sourceOutageParkHours : Int := 24 * 7

/-- `SOURCE_OUTAGE_REALERT_HOURS`: how long an open outage is quiet after an alert. -/
def sourceOutageRealertHours : Int := 24

/-- What meets the pass at a source: the clock, what the generator draws for a
series, and which statements succeed. -/
structure Turn where
  now : Int
  draw : String → Nat
  clears : Bool
  unparks : Bool
  parks : Bool
  records : Bool
  trips : Bool

/-- Every statement of the turn succeeds; none of the five is retried if it fails. -/
def Turn.Succeeds (turn : Turn) : Prop :=
  turn.clears ∧ turn.unparks ∧ turn.parks ∧ turn.records ∧ turn.trips

/-- One call of `check_source_health`, with what it meets. -/
structure Pass where
  /-- The aggregate can be read. -/
  aggregates : Bool
  groups : GroupOrder
  turn : String → Turn
  endsAt : Int
  turn_le : ∀ source, (turn source).now ≤ endsAt

/-- The aggregate is read, and every statement succeeds. -/
def Pass.Succeeds (pass : Pass) : Prop :=
  pass.aggregates ∧ ∀ source, (pass.turn source).Succeeds

/-- `strftime('%Y-%m-%dT%H:%M:%S', 'now')`, which cuts the milliseconds off. -/
def toSecond (now : Int) : Int := now / 1000 * 1000

/-- `UPDATE series_scan_state SET next_scan_at` of the series of a source. -/
def scheduleSeries (s : OutageState) (source : String) (due : StrikeRow → Bool)
    (next : String → Int) : OutageState :=
  { s with
    scanStates := s.scanStates.update (fun r => r.seriesId ∈ keysOf s source ∧ due r)
      (StrikeRow.scheduleBy next) (keepsKeys_scheduleBy _) }

/-- `park_source_series`, and the horizon it returns. -/
def parkSourceSeries (s : OutageState) (source : String) (turn : Turn) :
    OutageState × Option Int :=
  let baseMinutes := sourceOutageParkHours * 60
  let spreadMinutes := max (baseMinutes / 5) 1
  let horizon := turn.now + baseMinutes * msPerMinute
  let halfHorizon := turn.now + baseMinutes / 2 * msPerMinute
  if turn.parks then
    (scheduleSeries s source (fun r => r.nextScanAt.any fun next => next < halfHorizon)
        fun seriesId =>
          toSecond turn.now +
            (baseMinutes - spreadMinutes / 2 + turn.draw seriesId % spreadMinutes) * msPerMinute,
      some horizon)
  else (s, none)

/-- `unpark_source_series`: what the source has scheduled beyond the next two hours is
spread over the coming one. -/
def unparkSourceSeries (s : OutageState) (source : String) (turn : Turn) : OutageState :=
  let soon := turn.now + 2 * msPerHour
  if turn.unparks then
    scheduleSeries s source (fun r => r.nextScanAt.any fun next => soon < next)
      fun seriesId => toSecond turn.now + turn.draw seriesId % 60 * msPerMinute
  else s

/-- Whether a recorded outage alerts. -/
def alerts (prior : Option SourceScanOutage) (now : Int) : Bool :=
  prior.elim true fun r => r.lastAlertAt ≤ now - sourceOutageRealertHours * msPerHour

/-- `ON CONFLICT(source_id) DO UPDATE`. -/
def SourceScanOutage.refresh (alert : Bool) (old r : SourceScanOutage) : SourceScanOutage :=
  { old with
    pkgName := r.pkgName
    series := r.series
    failing := r.failing
    kind := r.kind
    parkedUntil := r.parkedUntil
    lastAlertAt := if alert then r.lastAlertAt else old.lastAlertAt }

/-- `record_source_outage`: opens an outage or refreshes the one that is open, which
keeps the time it was detected. -/
def recordSourceOutage (t : Table SourceScanOutage) (sourceId : String)
    (pkgName : Option String) (series failing : Nat) (kind : String)
    (parkedUntil : Option Int) (now : Int) : Table SourceScanOutage :=
  let prior := t.lookup sourceId
  let alert := alerts prior now
  let detectedAt := prior.elim now SourceScanOutage.detectedAt
  let lastAlertAt := if alert then now else detectedAt
  t.upsert ⟨sourceId, pkgName, detectedAt, lastAlertAt, series, failing, kind, parkedUntil⟩
    (SourceScanOutage.refresh alert) (.of_key fun _ => rfl)

/-- `clear_source_outage`, and whether there was a row. -/
def clearSourceOutage (t : Table SourceScanOutage) (sourceId : String) :
    Table SourceScanOutage × Bool :=
  (t.deleteWhere fun r => r.sourceId = sourceId, (t.lookup sourceId).isSome)

/-- The source is not out of service. -/
def recover (pass : Pass) (s : OutageState) (h : SourceScanHealth) : OutageState :=
  let turn := pass.turn h.sourceId
  if turn.clears then
    let (outages, removed) := clearSourceOutage s.outages h.sourceId
    let s := { s with outages := outages }
    if removed then unparkSourceSeries s h.sourceId turn else s
  else s

/-- The kind of failure that dominates. -/
def SourceScanHealth.kind (h : SourceScanHealth) : FailureKind :=
  if h.fetchError ≤ h.cachedFallback then .cachedFallback else .fetchError

/-- The reason the breaker is tripped with. -/
def SourceScanHealth.reason (h : SourceScanHealth) : String :=
  "scanner: whole-source outage — " ++ toString h.confirmedFailing ++ "/" ++
    toString h.series ++ " series failing (" ++ h.kind.asStr ++ ")"

/-- The source is out of service. -/
def condemn (pass : Pass) (s : OutageState) (h : SourceScanHealth) : OutageState :=
  let turn := pass.turn h.sourceId
  let (s, parkedUntil) := parkSourceSeries s h.sourceId turn
  let s := if turn.records then
      { s with
        outages := recordSourceOutage s.outages h.sourceId h.pkgName h.series
          h.confirmedFailing h.kind.asStr parkedUntil turn.now }
    else s
  match h.pkgName with
  | some pkg =>
      if turn.trips then
        { s with subscriptions := tripSubscriptionBreaker s.subscriptions pkg turn.now h.reason }
      else s
  | none => s

/-- One turn of the loop. -/
def judge (pass : Pass) (s : OutageState) (h : SourceScanHealth) : OutageState :=
  if h.outOfService then condemn pass s h else recover pass s h

/-- `check_source_health`: judges each source in turn, unless the aggregate query fails,
and then none. -/
def checkSourceHealth (pass : Pass) (s : OutageState) : OutageState :=
  if pass.aggregates then (sourceScanHealth s pass.groups).foldl (judge pass) s else s

/-! ## Runs

The events, and the empty database they start from. -/

/-- What writes to the tables; a pass is one event. -/
inductive Event where
  /-- `ensure_source_series`, as far as the aggregate reads it. -/
  | enrol (mapping : SourceSeries)
  | pending (seriesId : String)
  | scanned (seriesId : String) (now interval : Int)
  | failed (seriesId : String) (now : Int) (kind : FailureKind)
  | paused (seriesId : String) (now : Int) (draw : Nat)
  | wake (seriesId : String)
  /-- `purge_foreign_language_suwayomi`, with the ids of the series. -/
  | purge (foreign : List String)
  /-- `DELETE FROM source_series WHERE work_id = ?` of a deleted work. -/
  | deleteWork (workId : Id)
  /-- The coordinates of an extension are stored. -/
  | catalogued (source : String) (pkg : Option String)
  | check (pass : Pass)

/-- The tables after an event. -/
def step (s : OutageState) : Event → OutageState
  | .enrol mapping => { s with sourceSeries := s.sourceSeries.insertOrIgnore mapping }
  | .pending seriesId => { s with scanStates := ensurePending s.scanStates seriesId }
  | .scanned seriesId now interval =>
      { s with scanStates := recordScanOnce s.scanStates seriesId now interval }
  | .failed seriesId now kind =>
      { s with scanStates := recordScanFailureOnce s.scanStates seriesId now kind }
  | .paused seriesId now draw =>
      { s with scanStates := parkPaused s.scanStates seriesId now draw }
  | .wake seriesId => { s with scanStates := triggerDueNow s.scanStates seriesId }
  | .purge foreign =>
      { s with
        scanStates := s.scanStates.deleteWhere fun r => r.seriesId ∈ foreign
        sourceSeries := s.sourceSeries.deleteWhere fun m =>
          m.sourceType = "suwayomi" ∧ m.sourceKey ∈ foreign }
  | .deleteWork workId =>
      { s with sourceSeries := s.sourceSeries.deleteWhere fun m => m.workId = workId }
  | .catalogued source pkg => { s with pkgNames := Function.update s.pkgNames source pkg }
  | .check pass => checkSourceHealth pass s

/-- The empty database: no series, no mapping, no outage and nobody to alert. -/
def start : OutageState where
  scanStates := .empty
  sourceSeries := .empty
  pkgNames _ := none
  outages := .empty
  subscriptions := .empty

/-! ## What a pass is to bring about

Three promises, and the condition under which the pass can keep them. -/

/-- There is an outage of the source. -/
def isOpen (s : OutageState) (source : String) : Bool := (s.outages.lookup source).isSome

/-- The open outages are those of the sources that are out of service now. -/
def OpenIff (s : OutageState) : Prop :=
  ∀ source, isOpen s source = (healthOf s source).outOfService

/-- The series is scheduled, at `limit` at the latest. -/
def StrikeRow.DueBy (limit : Int) (r : StrikeRow) : Prop := ∃ n, r.nextScanAt = some n ∧ n ≤ limit

/-- The series of every source that was cleared are due within two hours. -/
def PulledBack (s s' : OutageState) (limit : Int) : Prop :=
  ∀ source, isOpen s source = true → isOpen s' source = false →
    ∀ r ∈ cohort s' source, r.DueBy (limit + 2 * msPerHour)

/-- An outage that stays open keeps its `detected_at`. -/
def DetectedKept (s s' : OutageState) : Prop :=
  ∀ r ∈ s.outages, ∀ r' ∈ s'.outages, r'.sourceId = r.sourceId → r'.detectedAt = r.detectedAt

/-- What every step is to keep, and a pass whose statements all succeed to bring
about. -/
structure OutagesKept (s : OutageState) (e : Event) : Prop where
  verdicts : ∀ pass, e = .check pass → pass.Succeeds →
    OpenIff (step s e) ∧ PulledBack s (step s e) pass.endsAt
  detected : DetectedKept s (step s e)

/-- The source of every open outage still has a tracked series, and no series of
a source that the pass clears is also one of a source it parks later. -/
structure Covered (s : OutageState) (pass : Pass) : Prop where
  tracked : ∀ row ∈ s.outages, row.sourceId ∈ sourceIds s
  apart : ∀ a b, [a, b].Sublist (sourceScanHealth s pass.groups) →
    isOpen s a.sourceId = true → a.outOfService = false → b.outOfService = true →
      ∀ r ∈ cohort s a.sourceId, r ∉ cohort s b.sourceId

/-- No pass meets an outage it cannot close. -/
def Closable (s : OutageState) : Event → Prop
  | .check pass => pass.Succeeds → Covered s pass
  | _ => True

/-! ## What a turn leaves alone

The counts are read once, before the loop; they are the counts after it too. -/

section Frame

variable {s s' s'' : OutageState} {source : String} {h : SourceScanHealth} {pass : Pass}

/-- The rows of a source are the scan states under the keys of its mappings. -/
theorem mem_cohort {r : StrikeRow} :
    r ∈ cohort s source ↔
      r.seriesId ∈ keysOf s source ∧ s.scanStates.lookup r.seriesId = some r := by
  rw [cohort, List.mem_filterMap]
  constructor
  · rintro ⟨k, hk, hrow⟩
    have hkey : r.seriesId = k := Table.key_of_lookup hrow
    exact ⟨hkey ▸ hk, hkey ▸ hrow⟩
  · rintro ⟨hk, hrow⟩
    exact ⟨r.seriesId, hk, hrow⟩

/-- A source is listed as long as one of its series has a scan state. -/
theorem mem_sourceIds : source ∈ sourceIds s ↔ ∃ r, r ∈ cohort s source := by
  have hjoin : source ∈ sourceIds s ↔ ∃ m ∈ s.sourceSeries.rows,
      (m.sourceType = "suwayomi" ∧ m.sourceId = source) ∧
        ∃ r, s.scanStates.lookup m.sourceKey = some r := by
    simp only [sourceIds, List.mem_dedup, List.mem_filterMap, Option.ite_none_right_eq_some,
      Option.some.injEq, Option.isSome_iff_exists]
    constructor
    · rintro ⟨m, hm, ⟨htype, hrow⟩, hid⟩
      exact ⟨m, hm, ⟨htype, hid⟩, hrow⟩
    · rintro ⟨m, hm, ⟨htype, hid⟩, hrow⟩
      exact ⟨m, hm, ⟨htype, hrow⟩, hid⟩
  rw [hjoin]
  simp only [cohort, keysOf, List.mem_filterMap, List.mem_map, List.mem_filter,
    decide_eq_true_eq]
  constructor
  · rintro ⟨m, hm, hsource, r, hr⟩
    exact ⟨r, m.sourceKey, ⟨m, ⟨hm, hsource⟩, rfl⟩, hr⟩
  · rintro ⟨r, k, ⟨m, ⟨hm, hsource⟩, rfl⟩, hr⟩
    exact ⟨m, hm, hsource, r, hr⟩

theorem nodup_sourceIds : (sourceIds s).Nodup := List.nodup_dedup _

/-- The two states have the same mappings and the same strikes. -/
structure SameStrikes (s s' : OutageState) : Prop where
  mappings : s'.sourceSeries = s.sourceSeries
  pkgNames : s'.pkgNames = s.pkgNames
  strikes : ∀ k, (s'.scanStates.lookup k).map StrikeRow.strikes =
    (s.scanStates.lookup k).map StrikeRow.strikes

theorem SameStrikes.refl (s : OutageState) : SameStrikes s s := ⟨rfl, rfl, fun _ => rfl⟩

theorem SameStrikes.trans (h : SameStrikes s s') (h' : SameStrikes s' s'') :
    SameStrikes s s'' where
  mappings := h'.mappings.trans h.mappings
  pkgNames := h'.pkgNames.trans h.pkgNames
  strikes k := (h'.strikes k).trans (h.strikes k)

/-- The keys of a source are read off the mappings. -/
theorem SameStrikes.keysOf (h : SameStrikes s s') (source : String) :
    keysOf s' source = keysOf s source := by
  unfold Outages.keysOf
  rw [h.mappings]

/-- The groups only read the mappings and the strikes. -/
theorem SameStrikes.healthOf (h : SameStrikes s s') (source : String) :
    healthOf s' source = healthOf s source := by
  have hcohort : (cohort s' source).map StrikeRow.strikes =
      (cohort s source).map StrikeRow.strikes := by
    rw [cohort, cohort, List.map_filterMap, List.map_filterMap, h.keysOf]
    exact congrArg (List.filterMap · _) (funext h.strikes)
  have hcount : ∀ p : Int × Option FailureKind → Bool,
      (cohort s' source).countP (fun r => p r.strikes) =
        (cohort s source).countP fun r => p r.strikes := by
    intro p
    have hmap := congrArg (List.countP p) hcohort
    rwa [List.countP_map, List.countP_map] at hmap
  have hlength : (cohort s' source).length = (cohort s source).length := by
    have hmap := congrArg List.length hcohort
    rwa [List.length_map, List.length_map] at hmap
  unfold Outages.healthOf
  rw [hlength, hcount fun k => 0 < k.1, hcount confirms,
    hcount fun k => k.2 = some .cachedFallback, hcount fun k => k.2 = some .fetchError,
    h.pkgNames]

/-- The row of one series after a statement that schedules those of a source. -/
theorem lookup_scheduleSeries {due : StrikeRow → Bool} {next : String → Int} (k : String) :
    (scheduleSeries s source due next).scanStates.lookup k =
      (s.scanStates.lookup k).map fun r =>
        if k ∈ keysOf s source ∧ due r then r.scheduleBy next else r := by
  unfold scheduleSeries
  rw [Table.lookup_update]
  cases hrow : s.scanStates.lookup k with
  | none => rfl
  | some r =>
      have hkey : r.seriesId = k := Table.key_of_lookup hrow
      simp only [Option.map_some, hkey, decide_eq_true_eq, Bool.decide_and, Bool.and_eq_true]

/-- A schedule is not a strike. -/
theorem sameStrikes_scheduleSeries {due : StrikeRow → Bool} {next : String → Int} :
    SameStrikes s (scheduleSeries s source due next) where
  mappings := rfl
  pkgNames := rfl
  strikes k := by
    rw [lookup_scheduleSeries, Option.map_map]
    cases s.scanStates.lookup k with
    | none => rfl
    | some r =>
        show some (StrikeRow.strikes (if _ then _ else _)) = _
        split <;> rfl

theorem sameStrikes_parkSourceSeries {turn : Turn} :
    SameStrikes s (parkSourceSeries s source turn).1 := by
  unfold parkSourceSeries
  split
  · exact sameStrikes_scheduleSeries
  · exact .refl s

theorem sameStrikes_unparkSourceSeries {turn : Turn} :
    SameStrikes s (unparkSourceSeries s source turn) := by
  unfold unparkSourceSeries
  split
  · exact sameStrikes_scheduleSeries
  · exact .refl s

/-- A source that is out of service: the scan states are those of its park. -/
theorem scanStates_condemn (pass : Pass) (s : OutageState) (h : SourceScanHealth) :
    (condemn pass s h).scanStates =
        (parkSourceSeries s h.sourceId (pass.turn h.sourceId)).1.scanStates ∧
      (condemn pass s h).sourceSeries = s.sourceSeries ∧
      (condemn pass s h).pkgNames = s.pkgNames := by
  have hpark : SameStrikes s (parkSourceSeries s h.sourceId (pass.turn h.sourceId)).1 :=
    sameStrikes_parkSourceSeries
  have hmappings := hpark.mappings
  have hnames := hpark.pkgNames
  unfold condemn
  dsimp only
  repeat' split
  all_goals exact ⟨rfl, hmappings, hnames⟩

theorem sameStrikes_recover : SameStrikes s (recover pass s h) := by
  have hclear : ∀ outages, SameStrikes s { s with outages := outages } :=
    fun _ => ⟨rfl, rfl, fun _ => rfl⟩
  unfold recover clearSourceOutage
  dsimp only
  split
  · split
    · exact (hclear _).trans sameStrikes_unparkSourceSeries
    · exact hclear _
  · exact .refl s

theorem sameStrikes_judge : SameStrikes s (judge pass s h) := by
  unfold judge
  split
  · obtain ⟨hscan, hmappings, hnames⟩ := scanStates_condemn pass s h
    exact ⟨hmappings, hnames, fun k => by
      rw [hscan]
      exact sameStrikes_parkSourceSeries.strikes k⟩
  · exact sameStrikes_recover

theorem sameStrikes_foldl (pass : Pass) (hs : List SourceScanHealth) (s : OutageState) :
    SameStrikes s (hs.foldl (judge pass) s) := by
  induction hs generalizing s with
  | nil => exact .refl s
  | cons h hs ih => exact sameStrikes_judge.trans (ih _)

end Frame

/-! ## The outage of one source

A turn is about one source, so the outages after the loop are known source by source. -/

section Verdicts

variable {s s' : OutageState} {source : String} {h : SourceScanHealth} {pass : Pass}
variable {hs : List SourceScanHealth}

/-- The row a turn leaves of the source it is about. -/
def judged (pass : Pass) (h : SourceScanHealth) (prior : Option SourceScanOutage) :
    Option SourceScanOutage :=
  let turn := pass.turn h.sourceId
  if h.outOfService then
    if turn.records then
      some ⟨h.sourceId, h.pkgName, prior.elim turn.now SourceScanOutage.detectedAt,
        if alerts prior turn.now then turn.now
          else prior.elim turn.now SourceScanOutage.lastAlertAt,
        h.series, h.confirmedFailing, h.kind.asStr,
        if turn.parks then some (turn.now + sourceOutageParkHours * 60 * msPerMinute)
          else none⟩
    else prior
  else if turn.clears then none
  else prior

/-- The upsert writes the outage of one source. -/
theorem lookup_recordSourceOutage {t : Table SourceScanOutage} {sourceId : String}
    {pkgName : Option String} {series failing : Nat} {kind : String}
    {parkedUntil : Option Int} {now : Int} :
    (recordSourceOutage t sourceId pkgName series failing kind parkedUntil now).lookup source =
      if source = sourceId then
        some ⟨sourceId, pkgName, (t.lookup source).elim now SourceScanOutage.detectedAt,
          if alerts (t.lookup source) now then now
            else (t.lookup source).elim now SourceScanOutage.lastAlertAt,
          series, failing, kind, parkedUntil⟩
      else t.lookup source := by
  unfold recordSourceOutage
  dsimp only
  rw [Table.lookup_upsert, key_sourceScanOutage]
  by_cases hsource : source = sourceId
  · subst hsource
    rw [if_pos rfl, if_pos rfl]
    cases hprior : t.lookup source with
    | none => rfl
    | some r =>
        have hid : r.sourceId = source := Table.key_of_lookup hprior
        simp only [Table.merged_some, SourceScanOutage.refresh, Option.elim_some, hid]
        split <;> rfl
  · rw [if_neg (Ne.symm hsource), if_neg hsource]

/-- The outages after the turn of a source that is out of service. -/
theorem outages_condemn :
    (condemn pass s h).outages.lookup source =
      if source = h.sourceId then
        if (pass.turn h.sourceId).records then
          ((recordSourceOutage s.outages h.sourceId h.pkgName h.series h.confirmedFailing
            h.kind.asStr (parkSourceSeries s h.sourceId (pass.turn h.sourceId)).2
            (pass.turn h.sourceId).now).lookup source)
        else s.outages.lookup source
      else s.outages.lookup source := by
  have hpark : (parkSourceSeries s h.sourceId (pass.turn h.sourceId)).1.outages =
      s.outages := by
    unfold parkSourceSeries
    split <;> rfl
  have houtages : (condemn pass s h).outages =
      if (pass.turn h.sourceId).records then
        recordSourceOutage s.outages h.sourceId h.pkgName h.series h.confirmedFailing
          h.kind.asStr (parkSourceSeries s h.sourceId (pass.turn h.sourceId)).2
          (pass.turn h.sourceId).now
      else s.outages := by
    unfold condemn
    dsimp only
    rw [hpark]
    repeat' split
    all_goals first | rfl | exact hpark
  rw [houtages]
  by_cases hrecords : (pass.turn h.sourceId).records = true
  · rw [if_pos hrecords, if_pos hrecords]
    by_cases hsource : source = h.sourceId
    · rw [if_pos hsource]
    · rw [if_neg hsource, lookup_recordSourceOutage, if_neg hsource]
  · rw [if_neg hrecords, if_neg hrecords]
    split <;> rfl

theorem outages_recover :
    (recover pass s h).outages.lookup source =
      if source = h.sourceId ∧ (pass.turn h.sourceId).clears then none
      else s.outages.lookup source := by
  have hunpark : ∀ s : OutageState,
      (unparkSourceSeries s h.sourceId (pass.turn h.sourceId)).outages = s.outages := by
    intro s
    unfold unparkSourceSeries
    split <;> rfl
  have hclear : ((s.outages.deleteWhere fun r => r.sourceId = h.sourceId).lookup source) =
      if source = h.sourceId then none else s.outages.lookup source := by
    rw [Table.lookup_deleteWhere]
    cases hrow : s.outages.lookup source with
    | none => simp
    | some r =>
        have hid : r.sourceId = source := Table.key_of_lookup hrow
        by_cases hsource : source = h.sourceId <;> simp [Option.filter, hid, hsource]
  unfold recover clearSourceOutage
  dsimp only
  by_cases hclears : (pass.turn h.sourceId).clears = true
  · rw [if_pos hclears]
    simp only [hclears, and_true]
    rw [← hclear]
    split
    · rw [hunpark]
    · rfl
  · rw [if_neg hclears, if_neg fun hboth => hclears hboth.2]

/-- A turn writes the outage of its own source. -/
theorem outages_judge :
    (judge pass s h).outages.lookup source =
      if source = h.sourceId then judged pass h (s.outages.lookup source)
      else s.outages.lookup source := by
  unfold judge judged
  dsimp only
  split
  · next hout =>
      rw [outages_condemn, lookup_recordSourceOutage]
      have hpark : (parkSourceSeries s h.sourceId (pass.turn h.sourceId)).2 =
          if (pass.turn h.sourceId).parks then
            some ((pass.turn h.sourceId).now + sourceOutageParkHours * 60 * msPerMinute)
          else none := by
        unfold parkSourceSeries
        split <;> rfl
      rw [hpark]
      split
      · rfl
      · rfl
  · rw [outages_recover]
    by_cases hsource : source = h.sourceId
    · simp [hsource]
    · simp [hsource]

/-- The aggregate is a group for each source, in some order. -/
theorem perm_sourceScanHealth (s : OutageState) (groups : GroupOrder) :
    (sourceScanHealth s groups).Perm ((sourceIds s).map (healthOf s)) :=
  (List.perm_insertionSort _ _).trans ((groups.perm _).map _)

/-- A group is that of a source that is listed. -/
theorem mem_sourceScanHealth {groups : GroupOrder} :
    h ∈ sourceScanHealth s groups ↔ h.sourceId ∈ sourceIds s ∧ h = healthOf s h.sourceId := by
  rw [(perm_sourceScanHealth s groups).mem_iff, List.mem_map]
  constructor
  · rintro ⟨source, hsource, rfl⟩
    exact ⟨hsource, rfl⟩
  · intro hboth
    exact ⟨h.sourceId, hboth.1, hboth.2.symm⟩

/-- A source has one group. -/
theorem nodup_sourceScanHealth (s : OutageState) (groups : GroupOrder) :
    ((sourceScanHealth s groups).map SourceScanHealth.sourceId).Nodup := by
  have hperm := (perm_sourceScanHealth s groups).map SourceScanHealth.sourceId
  rw [hperm.nodup_iff, List.map_map]
  have hid : SourceScanHealth.sourceId ∘ healthOf s = id := rfl
  rw [hid, List.map_id]
  exact nodup_sourceIds

/-- The loop leaves the outages of sources that it does not come to. -/
theorem outages_foldl_of_not_mem (hsource : source ∉ hs.map SourceScanHealth.sourceId)
    (s : OutageState) :
    (hs.foldl (judge pass) s).outages.lookup source = s.outages.lookup source := by
  induction hs generalizing s with
  | nil => rfl
  | cons h hs ih =>
      rw [List.map_cons, List.mem_cons, not_or] at hsource
      rw [List.foldl_cons, ih hsource.2, outages_judge, if_neg hsource.1]

/-- The loop comes to a source once. -/
theorem outages_foldl (hnodup : (hs.map SourceScanHealth.sourceId).Nodup) (hmem : h ∈ hs)
    (s : OutageState) :
    (hs.foldl (judge pass) s).outages.lookup h.sourceId =
      judged pass h (s.outages.lookup h.sourceId) := by
  induction hs generalizing s with
  | nil => contradiction
  | cons g hs ih =>
      rw [List.map_cons, List.nodup_cons] at hnodup
      rw [List.foldl_cons]
      rcases List.mem_cons.mp hmem with rfl | hlater
      · rw [outages_foldl_of_not_mem hnodup.1, outages_judge, if_pos rfl]
      · have hne : h.sourceId ≠ g.sourceId := by
          intro heq
          exact hnodup.1 (heq ▸ List.mem_map_of_mem hlater)
        rw [ih hnodup.2 hlater, outages_judge, if_neg hne]

/-- The outage of a source after a pass. -/
theorem outages_checkSourceHealth (hread : pass.aggregates = true) :
    (checkSourceHealth pass s).outages.lookup source =
      if source ∈ sourceIds s then
        judged pass (healthOf s source) (s.outages.lookup source)
      else s.outages.lookup source := by
  unfold checkSourceHealth
  rw [if_pos hread]
  split
  · next hsource =>
      have hmem : healthOf s source ∈ sourceScanHealth s pass.groups :=
        mem_sourceScanHealth.mpr ⟨hsource, rfl⟩
      exact outages_foldl (nodup_sourceScanHealth s _) hmem s
  · next hsource =>
      refine outages_foldl_of_not_mem (fun hmem => hsource ?_) s
      obtain ⟨h, hh, rfl⟩ := List.mem_map.mp hmem
      exact (mem_sourceScanHealth.mp hh).1

/-- A pass changes no count. -/
theorem healthOf_checkSourceHealth (pass : Pass) (s : OutageState) (source : String) :
    healthOf (checkSourceHealth pass s) source = healthOf s source := by
  unfold checkSourceHealth
  split
  · exact (sameStrikes_foldl _ _ s).healthOf source
  · rfl

/-- A source without a tracked series is not out of service. -/
theorem outOfService_of_not_mem (hsource : source ∉ sourceIds s) :
    (healthOf s source).outOfService = false := by
  have hnil : cohort s source = [] := by
    apply List.eq_nil_iff_forall_not_mem.mpr
    intro r hr
    exact hsource (mem_sourceIds.mpr ⟨r, hr⟩)
  have hzero : (healthOf s source).confirmedFailing = 0 := by
    show List.countP _ (cohort s source) = 0
    rw [hnil]
    rfl
  unfold SourceScanHealth.outOfService
  rw [hzero]
  exact isSourceOutOfService_zero _

/-- A pass whose statements all succeed leaves the outages right exactly if the
source of every open outage still has a tracked series. -/
theorem openIff_iff (hpass : pass.Succeeds) :
    OpenIff (checkSourceHealth pass s) ↔ ∀ row ∈ s.outages, row.sourceId ∈ sourceIds s := by
  have hopen : ∀ source, isOpen (checkSourceHealth pass s) source =
      if source ∈ sourceIds s then (healthOf s source).outOfService else isOpen s source := by
    intro source
    obtain ⟨hclears, -, -, hrecords, -⟩ := hpass.2 source
    unfold isOpen
    rw [outages_checkSourceHealth hpass.1]
    split
    · unfold judged
      dsimp only
      rw [show (healthOf s source).sourceId = source from rfl, if_pos hrecords, if_pos hclears]
      cases (healthOf s source).outOfService <;> rfl
    · rfl
  constructor
  · intro hright row hrow
    by_contra hgone
    have hverdict := hright row.sourceId
    rw [hopen, if_neg hgone, healthOf_checkSourceHealth, outOfService_of_not_mem hgone] at hverdict
    have hisOpen : isOpen s row.sourceId = true := Table.isSome_lookup.mpr ⟨row, hrow, rfl⟩
    rw [hisOpen] at hverdict
    contradiction
  · intro htracked source
    rw [hopen, healthOf_checkSourceHealth]
    split
    · rfl
    · next hgone =>
        rw [outOfService_of_not_mem hgone]
        refine Bool.eq_false_iff.mpr fun hisOpen => ?_
        obtain ⟨row, hrow, hid⟩ := Table.isSome_lookup.mp hisOpen
        rw [key_sourceScanOutage] at hid
        exact hgone (hid ▸ htracked row hrow)

end Verdicts

/-! ## The schedule of one series

A series may be mapped to several sources, of which one is cleared and another is
parked. -/

section Schedule

variable {s s' : OutageState} {source k : String} {h : SourceScanHealth} {pass : Pass}
variable {hs : List SourceScanHealth} {turn : Turn} {limit : Int}

/-- Every series has a next scan. -/
def Scheduled (s : OutageState) : Prop :=
  ∀ k r, s.scanStates.lookup k = some r → r.nextScanAt.isSome = true

/-- The series is due by then, as far as it has a scan state. -/
def DueAt (s : OutageState) (limit : Int) (k : String) : Prop :=
  ∀ r, s.scanStates.lookup k = some r → r.DueBy limit

/-- The text of `strftime` is not ahead of the clock. -/
theorem toSecond_le (now : Int) : toSecond now ≤ now := by
  unfold toSecond
  omega

/-- A statement that schedules leaves no series without a schedule. -/
theorem scheduled_scheduleSeries {due : StrikeRow → Bool} {next : String → Int}
    (hs : Scheduled s) : Scheduled (scheduleSeries s source due next) := by
  intro k r hr
  rw [lookup_scheduleSeries] at hr
  obtain ⟨old, hold, rfl⟩ := Option.map_eq_some_iff.mp hr
  split
  · rfl
  · exact hs k old hold

theorem scheduled_judge (hs : Scheduled s) : Scheduled (judge pass s h) := by
  unfold judge
  split
  · obtain ⟨hscan, -, -⟩ := scanStates_condemn pass s h
    unfold Scheduled
    rw [hscan]
    unfold parkSourceSeries
    split
    · exact scheduled_scheduleSeries hs
    · exact hs
  · unfold recover clearSourceOutage
    dsimp only
    split
    · split
      · unfold unparkSourceSeries
        split
        · exact scheduled_scheduleSeries (s := { s with outages := _ }) hs
        · exact hs
      · exact hs
    · exact hs

theorem scheduled_foldl (hs : List SourceScanHealth) (hscheduled : Scheduled s) :
    Scheduled (hs.foldl (judge pass) s) := by
  induction hs generalizing s with
  | nil => exact hscheduled
  | cons h hs ih => exact ih (scheduled_judge hscheduled)

/-- A pulled back series is due within the hour. -/
theorem dueAt_unparkSourceSeries (hturn : turn.now + 2 * msPerHour ≤ limit)
    (hdue : (k ∈ keysOf s source ∧ turn.unparks = true ∧ Scheduled s) ∨ DueAt s limit k) :
    DueAt (unparkSourceSeries s source turn) limit k := by
  intro r hr
  have hfloor := toSecond_le turn.now
  unfold unparkSourceSeries at hr
  dsimp only at hr
  split at hr
  · rw [lookup_scheduleSeries] at hr
    obtain ⟨old, hold, rfl⟩ := Option.map_eq_some_iff.mp hr
    split
    · refine ⟨_, rfl, ?_⟩
      show toSecond turn.now + turn.draw old.seriesId % 60 * msPerMinute ≤ limit
      unfold msPerHour at hturn
      unfold msPerMinute
      omega
    · next hleft =>
        rcases hdue with ⟨hk, -, hscheduled⟩ | hdue
        · obtain ⟨n, hn⟩ := Option.isSome_iff_exists.mp (hscheduled k old hold)
          refine ⟨n, hn, ?_⟩
          have hnot : ¬ turn.now + 2 * msPerHour < n := by
            intro hlate
            refine hleft ⟨hk, ?_⟩
            rw [hn]
            exact decide_eq_true hlate
          omega
        · exact hdue old hold
  · next hunparks =>
      rcases hdue with ⟨-, hyes, -⟩ | hdue
      · contradiction
      · exact hdue r hr

theorem dueAt_parkSourceSeries (hk : k ∉ keysOf s source) (hdue : DueAt s limit k) :
    DueAt (parkSourceSeries s source turn).1 limit k := by
  intro r hr
  unfold parkSourceSeries at hr
  dsimp only at hr
  split at hr
  · rw [lookup_scheduleSeries] at hr
    obtain ⟨old, hold, rfl⟩ := Option.map_eq_some_iff.mp hr
    rw [if_neg fun hboth => hk hboth.1]
    exact hdue old hold
  · exact hdue r hr

/-- A series that is due stays due unless its source is parked. -/
theorem dueAt_judge (hends : pass.endsAt + 2 * msPerHour = limit) (hdue : DueAt s limit k)
    (hk : h.outOfService = true → k ∉ keysOf s h.sourceId) :
    DueAt (judge pass s h) limit k := by
  have hturn : (pass.turn h.sourceId).now + 2 * msPerHour ≤ limit := by
    have hle := pass.turn_le h.sourceId
    omega
  unfold judge
  split
  · next hout =>
      obtain ⟨hscan, -, -⟩ := scanStates_condemn pass s h
      unfold DueAt
      rw [hscan]
      exact dueAt_parkSourceSeries (hk hout) hdue
  · unfold recover clearSourceOutage
    dsimp only
    split
    · split
      · exact dueAt_unparkSourceSeries hturn (Or.inr hdue)
      · exact hdue
    · exact hdue

/-- The turns that follow, unless one of them parks the series. -/
theorem dueAt_foldl (hends : pass.endsAt + 2 * msPerHour = limit) (hdue : DueAt s limit k)
    (hk : ∀ h ∈ hs, h.outOfService = true → k ∉ keysOf s h.sourceId) :
    DueAt (hs.foldl (judge pass) s) limit k := by
  induction hs generalizing s with
  | nil => exact hdue
  | cons h hs ih =>
      rw [List.foldl_cons]
      refine ih (dueAt_judge hends hdue (hk h List.mem_cons_self)) fun g hg hout => ?_
      rw [sameStrikes_judge.keysOf]
      exact hk g (List.mem_cons_of_mem _ hg) hout

/-- The turn of a source that is cleared makes its series due. -/
theorem dueAt_judge_of_mem (hends : pass.endsAt + 2 * msPerHour = limit)
    (hscheduled : Scheduled s) (hturn : (pass.turn h.sourceId).Succeeds)
    (hout : h.outOfService = false) (hopen : isOpen s h.sourceId = true)
    (hk : k ∈ keysOf s h.sourceId) : DueAt (judge pass s h) limit k := by
  obtain ⟨hclears, hunparks, -⟩ := hturn
  have hle := pass.turn_le h.sourceId
  unfold isOpen at hopen
  unfold judge recover clearSourceOutage
  rw [hout]
  dsimp only
  rw [if_neg Bool.false_ne_true, if_pos hclears, if_pos hopen]
  exact dueAt_unparkSourceSeries (by omega) (Or.inl ⟨hk, hunparks, hscheduled⟩)

/-- The loop comes to each cleared source, and no later turn parks its series. -/
theorem pulledBack_checkSourceHealth (hpass : pass.Succeeds) (hscheduled : Scheduled s)
    (hcovered : Covered s pass) :
    PulledBack s (checkSourceHealth pass s) pass.endsAt := by
  intro source hopen hclosed r hr
  obtain ⟨row, hrow, hid⟩ := Table.isSome_lookup.mp hopen
  have hsource : source ∈ sourceIds s := by
    rw [key_sourceScanOutage] at hid
    exact hid ▸ hcovered.tracked row hrow
  have hout : (healthOf s source).outOfService = false := by
    have hright := (openIff_iff hpass).mpr hcovered.tracked source
    rw [hclosed, healthOf_checkSourceHealth] at hright
    exact hright.symm
  have hmem : healthOf s source ∈ sourceScanHealth s pass.groups :=
    mem_sourceScanHealth.mpr ⟨hsource, rfl⟩
  obtain ⟨pre, post, hsplit⟩ := List.append_of_mem hmem
  have hsame := sameStrikes_foldl pass pre s
  have hcheck : checkSourceHealth pass s =
      post.foldl (judge pass) (judge pass (pre.foldl (judge pass) s) (healthOf s source)) := by
    unfold checkSourceHealth
    rw [if_pos hpass.1, hsplit, List.foldl_append, List.foldl_cons]
  -- the series in the state that the pass began in
  have hstrikes : SameStrikes s (checkSourceHealth pass s) := by
    rw [hcheck]
    exact (hsame.trans sameStrikes_judge).trans (sameStrikes_foldl _ _ _)
  obtain ⟨hk, hlookup⟩ := mem_cohort.mp hr
  rw [hstrikes.keysOf] at hk
  obtain ⟨old, hold⟩ : ∃ old, s.scanStates.lookup r.seriesId = some old := by
    have hmap := hstrikes.strikes r.seriesId
    rw [hlookup] at hmap
    obtain ⟨old, hold, -⟩ := Option.map_eq_some_iff.mp hmap.symm
    exact ⟨old, hold⟩
  have hseries : old.seriesId = r.seriesId := Table.key_of_lookup hold
  have hcohort : ∀ b, r.seriesId ∈ keysOf s b → old ∈ cohort s b := fun b hb =>
    mem_cohort.mpr ⟨hseries ▸ hb, hseries ▸ hold⟩
  -- its turn, and the turns after it
  have hstill : isOpen (pre.foldl (judge pass) s) source = true := by
    unfold isOpen
    rw [outages_foldl_of_not_mem ?_ s]
    · exact hopen
    · have hnodup := nodup_sourceScanHealth s pass.groups
      rw [hsplit, List.map_append, List.map_cons] at hnodup
      intro hbefore
      exact (List.nodup_append.mp hnodup).2.2 source hbefore source List.mem_cons_self rfl
  have hdue := dueAt_judge_of_mem (h := healthOf s source) rfl
    (scheduled_foldl pre hscheduled) (hpass.2 source) hout hstill
    (k := r.seriesId) (by rw [hsame.keysOf]; exact hk)
  rw [hcheck] at hlookup
  refine dueAt_foldl rfl hdue (fun b hb hbad hkb => ?_) r hlookup
  rw [sameStrikes_judge.keysOf, hsame.keysOf] at hkb
  have hpair : [healthOf s source, b].Sublist (sourceScanHealth s pass.groups) := by
    rw [hsplit]
    exact List.sublist_append_of_sublist_right
      ((List.singleton_sublist.mpr hb).cons_cons _)
  exact hcovered.apart _ b hpair hopen hout hbad old (hcohort source hk)
    (hcohort b.sourceId hkb)

end Schedule

/-! ## Every run

What holds of any step of a run, and of every run. -/

section Runs

variable {s : OutageState} {pass : Pass}

theorem scheduled_of_scanStates {t : Table StrikeRow}
    (h : ∀ k r, t.lookup k = some r → r.nextScanAt.isSome = true) :
    Scheduled { s with scanStates := t } := h

/-- The bookkeeping of a scan writes a schedule. -/
theorem scheduled_rescheduled {seriesId : String} {next failures : Int}
    {kind : Option FailureKind} (h : Scheduled s) :
    Scheduled { s with scanStates := rescheduled s.scanStates seriesId next failures kind } := by
  apply scheduled_of_scanStates
  intro k r hr
  rw [rescheduled, Table.lookup_upsert] at hr
  split at hr
  · obtain rfl := Option.some.inj hr
    cases s.scanStates.lookup k <;> rfl
  · exact h k r hr

/-- Every row of a run has a schedule. -/
theorem scheduled_step (s : OutageState) (e : Event) (h : Scheduled s) :
    Scheduled (step s e) := by
  cases e with
  | enrol mapping => exact h
  | pending seriesId =>
      apply scheduled_of_scanStates
      intro k r hr
      rcases Table.mem_insertOrIgnore.mp (Table.mem_of_lookup hr) with hold | ⟨rfl, -⟩
      · exact h _ r (Table.lookup_of_mem hold)
      · rfl
  | scanned seriesId now interval => exact scheduled_rescheduled h
  | failed seriesId now kind => exact scheduled_rescheduled h
  | paused seriesId now draw => exact scheduled_rescheduled h
  | wake seriesId =>
      apply scheduled_of_scanStates
      intro k r hr
      rw [triggerDueNow, Table.lookup_update] at hr
      obtain ⟨old, hold, rfl⟩ := Option.map_eq_some_iff.mp hr
      split
      · rfl
      · exact h k old hold
  | purge foreign =>
      intro k r hr
      change (s.scanStates.deleteWhere _).lookup k = some r at hr
      rw [Table.lookup_deleteWhere, Option.filter_eq_some_iff] at hr
      exact h k r hr.1
  | deleteWork workId => exact h
  | catalogued source pkg => exact h
  | check pass =>
      show Scheduled (checkSourceHealth pass s)
      unfold checkSourceHealth
      split
      · exact scheduled_foldl _ h
      · exact h

/-- An event that writes no outage. -/
theorem detectedKept_refl (s : OutageState) : DetectedKept s s := by
  intro r hr r' hr' hid
  have hlookup := Table.lookup_of_mem hr
  have hlookup' := Table.lookup_of_mem hr'
  rw [key_sourceScanOutage] at hlookup hlookup'
  rw [hid, hlookup] at hlookup'
  rw [Option.some.inj hlookup']

/-- The row of a turn keeps the `detected_at` it finds. -/
theorem detectedAt_judged {h : SourceScanHealth} {r r' : SourceScanOutage}
    (hrow : judged pass h (some r) = some r') : r'.detectedAt = r.detectedAt := by
  unfold judged at hrow
  dsimp only at hrow
  split at hrow
  · split at hrow
    · rw [← Option.some.inj hrow]
      rfl
    · rw [Option.some.inj hrow]
  · split at hrow
    · contradiction
    · rw [Option.some.inj hrow]

theorem detectedKept_step (s : OutageState) (e : Event) : DetectedKept s (step s e) := by
  cases e with
  | check pass =>
      intro r hr r' hr' hid
      change r' ∈ (checkSourceHealth pass s).outages at hr'
      by_cases hread : pass.aggregates = true
      · have hlookup : s.outages.lookup r.sourceId = some r := Table.lookup_of_mem hr
        have hlookup' : (checkSourceHealth pass s).outages.lookup r'.sourceId = some r' :=
          Table.lookup_of_mem hr'
        rw [hid, outages_checkSourceHealth hread, hlookup] at hlookup'
        split at hlookup'
        · exact detectedAt_judged hlookup'
        · rw [Option.some.inj hlookup']
      · unfold checkSourceHealth at hr'
        rw [if_neg hread] at hr'
        exact detectedKept_refl s r hr r' hr' hid
  | _ => exact detectedKept_refl s

theorem outagesKept_step (e : Event) (h : Scheduled s) (hclosable : Closable s e) :
    OutagesKept s e where
  verdicts pass he hpass := by
    subst he
    have hcovered : Covered s pass := hclosable hpass
    exact ⟨(openIff_iff hpass).mpr hcovered.tracked,
      pulledBack_checkSourceHealth hpass h hcovered⟩
  detected := detectedKept_step s e

/-- **The open outages are the current verdicts.**  Along every run from a database in
which every series has a next scan, this is so after every pass, as long as no pass
meets an outage whose source has lost its last series.  A pass judges the sources that
have series, so it closes no other outage; what it judges is a function of the rows
(`judged`). -/
theorem outages_kept_run (s : OutageState) (h : Scheduled s) (events : List Event)
    (hclosable : EachStep step Closable s events) :
    EachStep step OutagesKept s events :=
  EachStep.of_invariant (fun s e hs _ => scheduled_step s e hs)
    (fun _ e hs he => outagesKept_step e hs he) h hclosable

end Runs

/-- A turn at a source in which nothing fails. -/
def quietTurn (now : Int) : Turn := ⟨now, fun _ => 0, true, true, true, true, true⟩

/-- A pass at one instant, of which every statement succeeds. -/
def quietPass (now : Int) : Pass where
  aggregates := true
  groups := ⟨id, fun _ => .refl _⟩
  turn _ := quietTurn now
  endsAt := now
  turn_le _ := Int.le_refl _

/-- As many series as an outage takes. -/
def fiveSeries : List String := ["1", "2", "3", "4", "5"]

/-- The source has five series, and each has failed three times in a row. -/
def brokenSource : List Event :=
  fiveSeries.map (fun k => .enrol ⟨k, "w", "suwayomi", "src", k, none, false, none⟩) ++
    fiveSeries.map .pending ++
    fiveSeries.flatMap fun k => List.replicate 3 (.failed k 0 .cachedFallback)

/-- The outage is opened, the series are purged, and the next pass finds no
series of the source. -/
def vanishedSource : List Event :=
  brokenSource ++ [.check (quietPass 0), .purge fiveSeries]

/-- The source loses its series while its outage is open, and the next pass does not
come to it. -/
theorem not_outagesKept_vanishedSource :
    ¬EachStep step OutagesKept start (vanishedSource ++ [.check (quietPass 0)]) := by
  intro h
  have hlast := (eachStep_cons.mp (eachStep_append.mp h).2).1
  have hopenIff := (hlast.verdicts _ rfl ⟨rfl, fun _ => ⟨rfl, rfl, rfl, rfl, rfl⟩⟩).1 "src"
  have hverdict :
      isOpen (step (run step start vanishedSource) (.check (quietPass 0))) "src" = true ∧
      (healthOf (step (run step start vanishedSource)
        (.check (quietPass 0))) "src").outOfService = false := by
    decide +kernel
  rw [hverdict.1, hverdict.2] at hopenIff
  contradiction

/-- The outage is opened, and scans of two series succeed before the next pass. -/
def recoveredSource : List Event :=
  [.check (quietPass 0), .scanned "1" 0 0, .scanned "2" 0 0, .check (quietPass 0)]

/-- With one source, which has a tracked series, no later turn parks what an earlier one
pulls back. -/
theorem covered_of_one_source {s : OutageState} {pass : Pass}
    (htracked : ∀ row ∈ s.outages.rows, row.sourceId ∈ sourceIds s)
    (hone : (sourceIds s).length ≤ 1) : Covered s pass where
  tracked := htracked
  apart a b hpair := by
    have htwo := hpair.length_le
    rw [(perm_sourceScanHealth s pass.groups).length_eq, List.length_map] at htwo
    have hlength : [a, b].length = 2 := rfl
    omega

/-- A source breaks and recovers, and loses no series. -/
theorem outages_kept_run_recoveredSource :
    EachStep step OutagesKept start (brokenSource ++ recoveredSource) := by
  refine outages_kept_run start (fun k r hr => ?_) _ (eachStep_append.mpr ⟨?_, ?_⟩)
  · contradiction
  · have hbroken : ∀ e ∈ brokenSource, ∀ s, Closable s e := by
      intro e he s
      simp only [brokenSource, List.mem_append, List.mem_map, List.mem_flatMap,
        List.mem_replicate] at he
      rcases he with (⟨k, -, rfl⟩ | ⟨k, -, rfl⟩) | ⟨k, -, -, rfl⟩ <;> trivial
    exact (eachStep_of_forall hbroken).mono fun s e he => he s
  · refine ⟨fun _ => covered_of_one_source ?_ ?_, trivial, trivial,
      fun _ => covered_of_one_source ?_ ?_, trivial⟩
    all_goals decide +kernel

end Komika.Scan.Outages
