import Komika.Lib.Machine
import Komika.Scan.Schema
import Mathlib.Logic.Function.Basic

/-!
# Wakes and scans

`trigger_due_now` sets a series due now, and a scan ends by writing when the
series is next due.  `scan_due` takes seconds between the two ends of a scan, and
its bookkeeping does not look at what it overwrites: `record_scan_once`,
`record_scan_failure_once` and `park_paused` set `next_scan_at` whatever it is.

A wake that commits while a scan of the series is under way is therefore lost:
the scan fetched before the wake, and writes after it.  Any other wake is kept
until a scan that began after it.  The tests run the two one after the other.

Next to the rows the state says what no code reads: whether a scan under way was
overtaken by a wake, and whether a wake is still unanswered.

* `answered_step` — the step lemma, for wakes that commit at rest;
* `exists_lost` — a wake during a scan, whatever came before;
* `wake_kept` — every run;
* `not_wake_kept_during_scan`, `wake_kept_after_scan` — the two orders of a wake and a
  scan.
-/

namespace Komika.Scan.Wake

open Komika.Lib Komika.Lib.Machine Komika.Scan.Schema

/-- How far a scan has come: it has begun its fetch, or has recorded a paused
series that it is about to park. -/
inductive Stage where
  | fetching
  | parking
deriving DecidableEq

/-- A scan under way.  `startedAt` is the `now` that it was called with. -/
structure InFlight where
  seriesId : String
  startedAt : Int
  stage : Stage
  /-- The series was woken since the fetch began. -/
  overtaken : Bool
deriving DecidableEq

/-- The rows, and the scans that are under way. -/
structure ScanLoops where
  scanStates : Table ScanState
  scans : Nat → Option InFlight
  /-- The series was woken and no scan of it has begun since. -/
  unanswered : String → Bool

/-- No scan is under way. -/
def start (scanStates : Table ScanState) : ScanLoops where
  scanStates := scanStates
  scans _ := none
  unanswered _ := false

/-- The series has a row. -/
def enrolled (s : ScanLoops) (seriesId : String) : Bool :=
  (s.scanStates.lookup seriesId).isSome

/-- A wake, or a step of a scan. -/
inductive Event where
  /-- One statement of `trigger_due_now`. -/
  | wake (seriesId : String) (ok : Bool)
  | enrol (seriesId : String)
  /-- `scan_due` begins its fetch. -/
  | begin (scan : Nat) (seriesId : String) (now : Int)
  /-- The fetch failed, or was answered from the cache, or the result could not
  be kept; the backoff is recorded if the database lets it. -/
  | fail (scan : Nat) (recorded : Bool)
  /-- The result lost the race for the write lock, or the scan was dropped. -/
  | abandon (scan : Nat)
  /-- `record_scan_once` commits; a paused series is parked next. -/
  | record (scan : Nat) (interval : Int) (paused : Bool)
  /-- `park_paused`. -/
  | park (scan : Nat) (draw : Nat) (ok : Bool)
deriving DecidableEq

/-- The scan has come so far; `none` if it is over. -/
def setScan (s : ScanLoops) (scan : Nat) (now : Option InFlight) : ScanLoops :=
  { s with scans := Function.update s.scans scan now }

/-- The scan is over. -/
def ended (s : ScanLoops) (scan : Nat) : ScanLoops := setScan s scan none

@[simp] theorem scans_setScan (s : ScanLoops) (scan : Nat) (now : Option InFlight) :
    (setScan s scan now).scans = Function.update s.scans scan now := rfl

/-- A wake of the series while the scan is under way. -/
def overtake (seriesId : String) (scan : InFlight) : InFlight :=
  { scan with overtaken := scan.overtaken || scan.seriesId == seriesId }

/-- `trigger_due_now`, which reaches the rows that are there. -/
def wake (s : ScanLoops) (seriesId : String) (ok : Bool) : ScanLoops :=
  if ok && enrolled s seriesId then
    { scanStates := triggerDueNow s.scanStates seriesId
      scans := fun i => (s.scans i).map (overtake seriesId)
      unanswered := Function.update s.unanswered seriesId true }
  else s

/-- The fetch begins, with the clock of the call. -/
def begin (s : ScanLoops) (scan : Nat) (seriesId : String) (now : Int) : ScanLoops :=
  match s.scans scan with
  | some _ => s
  | none =>
      { setScan s scan (some ⟨seriesId, now, .fetching, false⟩) with
        unanswered := Function.update s.unanswered seriesId false }

/-- The scan ends in a backoff, or in nothing. -/
def fail (s : ScanLoops) (scan : Nat) (recorded : Bool) : ScanLoops :=
  match s.scans scan with
  | some ⟨seriesId, now, .fetching, _⟩ =>
      ended { s with
        scanStates := if recorded then recordScanFailureOnce s.scanStates seriesId now
          else s.scanStates } scan
  | _ => s

/-- The result is recorded; a paused series goes on to its park. -/
def record (s : ScanLoops) (scan : Nat) (interval : Int) (paused : Bool) : ScanLoops :=
  match s.scans scan with
  | some ⟨seriesId, now, .fetching, overtaken⟩ =>
      let s := { s with scanStates := recordScanOnce s.scanStates seriesId now interval }
      if paused then setScan s scan (some ⟨seriesId, now, .parking, overtaken⟩)
      else ended s scan
  | _ => s

/-- And ends there: the park is its last write, whether it succeeds or not. -/
def park (s : ScanLoops) (scan : Nat) (draw : Nat) (ok : Bool) : ScanLoops :=
  match s.scans scan with
  | some ⟨seriesId, now, .parking, _⟩ =>
      ended { s with
        scanStates := if ok then parkPaused s.scanStates seriesId now draw
          else s.scanStates } scan
  | _ => s

/-- The loops after an event. -/
def step (s : ScanLoops) : Event → ScanLoops
  | .wake seriesId ok => wake s seriesId ok
  | .enrol seriesId => { s with scanStates := ensurePending s.scanStates seriesId }
  | .begin scan seriesId now => begin s scan seriesId now
  | .fail scan recorded => fail s scan recorded
  | .abandon scan => ended s scan
  | .record scan interval paused => record s scan interval paused
  | .park scan draw ok => park s scan draw ok

/-! ## What it is to keep a wake

The promise, and the condition on when a wake commits. -/

/-- A series that was woken, and of which no scan has begun since, is due now. -/
def WakeKept (s : ScanLoops) : Prop :=
  ∀ seriesId, s.unanswered seriesId = true →
    ∃ r, s.scanStates.lookup seriesId = some r ∧ r.nextScanAt = some dueNowSentinel

/-- The bookkeeping writes of a scan. -/
def Event.writes : Event → Option Nat
  | .fail scan true => some scan
  | .record scan _ _ => some scan
  | .park scan _ true => some scan
  | _ => none

/-- No scan writes whose fetch began before a wake of its series. -/
def NoStaleWrite (s : ScanLoops) (e : Event) : Prop :=
  ∀ i scan, e.writes = some i → s.scans i = some scan → scan.overtaken = false

/-- No scan of the series is under way. -/
def NoScanOf (s : ScanLoops) (seriesId : String) : Prop :=
  ∀ i scan, s.scans i = some scan → scan.seriesId ≠ seriesId

/-- A wake commits only while no scan of its series is under way. -/
def WakeAtRest (s : ScanLoops) (e : Event) : Prop :=
  ∀ seriesId, e = .wake seriesId true → enrolled s seriesId → NoScanOf s seriesId

/-! ## Wakes at rest are kept

The invariant: an unanswered wake has its row at the sentinel, and no scan that could
write over it. -/

/-- What wakes at rest keep: no scan under way has been overtaken, or has an
unanswered wake of its series behind it. -/
structure Answered (s : ScanLoops) : Prop where
  kept : WakeKept s
  current : ∀ i scan, s.scans i = some scan →
    scan.overtaken = false ∧ s.unanswered scan.seriesId = false

theorem answered_start (scanStates : Table ScanState) : Answered (start scanStates) := by
  constructor
  · intro seriesId h
    exact absurd h Bool.false_ne_true
  · intro i scan h
    contradiction

/-- A scan that ends takes nothing with it. -/
theorem Answered.ended {s : ScanLoops} (h : Answered s) (i : Nat) : Answered (ended s i) := by
  refine ⟨h.kept, ?_⟩
  intro j scan hj
  by_cases hji : j = i
  · subst hji
    simp [Wake.ended] at hj
  · exact h.current j scan (by simpa [Wake.ended, hji] using hj)

/-- The bookkeeping of a scan touches the row of a series with no unanswered
wake. -/
theorem Answered.rescheduled {s : ScanLoops} (h : Answered s) {seriesId : String}
    (hnone : s.unanswered seriesId = false) (next failures : Int) :
    Answered { s with
      scanStates := Schema.rescheduled s.scanStates seriesId next failures } := by
  refine ⟨?_, h.current⟩
  intro other hother
  have hne : other ≠ seriesId := by
    rintro rfl
    exact Bool.false_ne_true (hnone.symm.trans hother)
  obtain ⟨r, hr, hdue⟩ := h.kept other hother
  exact ⟨r, (lookup_rescheduled_of_ne hne).trans hr, hdue⟩

/-- A wake at rest has no scan to lose it to. -/
theorem answered_wake {s : ScanLoops} (h : Answered s) {seriesId : String} {ok : Bool}
    (hrest : ok = true → enrolled s seriesId → NoScanOf s seriesId) :
    Answered (wake s seriesId ok) := by
  unfold wake
  split
  · next hlands =>
      obtain ⟨hok, hrow⟩ := Bool.and_eq_true_iff.mp hlands
      have hnone := hrest hok hrow
      constructor
      · intro other hother
        rw [lookup_triggerDueNow]
        by_cases heq : other = seriesId
        · obtain ⟨r, hr⟩ := Option.isSome_iff_exists.mp hrow
          refine ⟨r.wake, ?_, rfl⟩
          rw [if_pos heq, heq, hr, Option.map_some]
        · rw [if_neg heq]
          exact h.kept other (by simpa [heq] using hother)
      · intro i scan hscan
        obtain ⟨before, hbefore, rfl⟩ := Option.map_eq_some_iff.mp hscan
        have hother : before.seriesId ≠ seriesId := hnone i before hbefore
        obtain ⟨hcurrent, hanswered⟩ := h.current i before hbefore
        have hkeep : (overtake seriesId before).seriesId = before.seriesId := rfl
        constructor
        · simp [overtake, hcurrent, hother]
        · rw [hkeep]
          simpa [hother] using hanswered
  · exact h

/-- A scan that begins answers the wake. -/
theorem answered_begin {s : ScanLoops} (h : Answered s) (i : Nat) (seriesId : String)
    (now : Int) : Answered (begin s i seriesId now) := by
  unfold begin
  split
  · exact h
  · constructor
    · intro other hother
      have hne : other ≠ seriesId := by
        rintro rfl
        simp at hother
      exact h.kept other (by simpa [hne] using hother)
    · intro j scan hj
      by_cases hji : j = i
      · subst hji
        obtain rfl : scan = ⟨seriesId, now, .fetching, false⟩ := by
          simpa [setScan] using hj.symm
        exact ⟨rfl, by simp⟩
      · have hscan := h.current j scan (by simpa [setScan, hji] using hj)
        refine ⟨hscan.1, ?_⟩
        show Function.update s.unanswered seriesId false scan.seriesId = false
        by_cases heq : scan.seriesId = seriesId
        · simp [heq]
        · simp [heq, hscan.2]

/-- The backoff of a scan that was not overtaken. -/
theorem answered_fail {s : ScanLoops} (h : Answered s) (i : Nat) (recorded : Bool) :
    Answered (fail s i recorded) := by
  unfold fail
  split
  · next seriesId now overtaken hscan =>
      apply Answered.ended
      cases recorded with
      | false => exact h
      | true => exact h.rescheduled (h.current i _ hscan).2 _ _
  · exact h

/-- The bookkeeping of a scan that was not overtaken. -/
theorem answered_record {s : ScanLoops} (h : Answered s) (i : Nat) (interval : Int)
    (paused : Bool) : Answered (record s i interval paused) := by
  unfold record
  split
  · next seriesId now overtaken hscan =>
      have hwritten := h.rescheduled (h.current i _ hscan).2 (now + interval) 0
      cases paused with
      | false => exact hwritten.ended i
      | true =>
          refine ⟨hwritten.kept, ?_⟩
          intro j scan hj
          by_cases hji : j = i
          · subst hji
            obtain rfl : scan = ⟨seriesId, now, .parking, overtaken⟩ := by
              simpa [setScan] using hj.symm
            exact ⟨(h.current j _ hscan).1, (h.current j _ hscan).2⟩
          · exact h.current j scan (by simpa [setScan, hji] using hj)
  · exact h

/-- The park of a scan that was not overtaken. -/
theorem answered_park {s : ScanLoops} (h : Answered s) (i : Nat) (draw : Nat) (ok : Bool) :
    Answered (park s i draw ok) := by
  unfold park
  split
  · next seriesId now overtaken hscan =>
      apply Answered.ended
      cases ok with
      | false => exact h
      | true => exact h.rescheduled (h.current i _ hscan).2 _ _
  · exact h

/-- A new row has no wake. -/
theorem answered_enrol {s : ScanLoops} (h : Answered s) (seriesId : String) :
    Answered { s with scanStates := ensurePending s.scanStates seriesId } := by
  refine ⟨?_, h.current⟩
  intro other hother
  obtain ⟨r, hr, hdue⟩ := h.kept other hother
  exact ⟨r, lookup_ensurePending hr, hdue⟩

/-- Every step, so every state of a run. -/
theorem answered_step (s : ScanLoops) (e : Event) (h : Answered s) (hrest : WakeAtRest s e) :
    Answered (step s e) := by
  cases e with
  | wake seriesId ok =>
      apply answered_wake h
      rintro rfl hrow
      exact hrest seriesId rfl hrow
  | enrol seriesId => exact answered_enrol h seriesId
  | begin i seriesId now => exact answered_begin h i seriesId now
  | fail i recorded => exact answered_fail h i recorded
  | abandon i => exact h.ended i
  | record i interval paused => exact answered_record h i interval paused
  | park i draw ok => exact answered_park h i draw ok

/-! ## A wake during a scan is lost

The scan need not fail for that. -/

/-- Of two park offsets at most one meets the sentinel. -/
theorem exists_draw (now : Int) :
    ∃ draw : Nat, now + parkOffsetHours draw * msPerHour ≠ dueNowSentinel := by
  by_contra hall
  simp only [not_exists, ne_eq, not_not] at hall
  have hzero := hall 0
  have hone := hall 1
  simp only [parkOffsetHours, pausedParkHours, parkJitterSpreadHours, msPerHour,
    dueNowSentinel] at hzero hone
  omega

/-- A series rescheduled off the sentinel with its wake unanswered. -/
theorem not_wakeKept_of_rescheduled {s : ScanLoops} (seriesId : String) {next : Int}
    (hunanswered : s.unanswered seriesId = true)
    (hrow : (s.scanStates.lookup seriesId).map ScanState.nextScanAt = some (some next))
    (hnext : next ≠ dueNowSentinel) : ¬WakeKept s := by
  intro hkept
  obtain ⟨r, hr, hdue⟩ := hkept seriesId hunanswered
  rw [hr, Option.map_some, hdue] at hrow
  exact hnext (Option.some.inj (Option.some.inj hrow)).symm

/-- The scan that was under way writes over the wake. -/
theorem exists_lost {s : ScanLoops} {seriesId : String} (hrow : enrolled s seriesId)
    {i : Nat} {scan : InFlight} (hscan : s.scans i = some scan)
    (hseries : scan.seriesId = seriesId) :
    ∃ e, WakeAtRest (step s (.wake seriesId true)) e ∧
      ¬WakeKept (step (step s (.wake seriesId true)) e) := by
  obtain ⟨other, now, stage, overtaken⟩ := scan
  obtain rfl : other = seriesId := hseries
  have hwake : step s (.wake other true) =
      { scanStates := triggerDueNow s.scanStates other
        scans := fun j => (s.scans j).map (overtake other)
        unanswered := Function.update s.unanswered other true } := by
    rw [step, wake, if_pos (by simp [hrow])]
  have hunder : (step s (.wake other true)).scans i = some ⟨other, now, stage, true⟩ := by
    rw [hwake]
    simp [hscan, overtake]
  have hunanswered : (step s (.wake other true)).unanswered other = true := by
    rw [hwake]
    simp
  generalize step s (.wake other true) = woken at hunder hunanswered
  cases stage with
  | fetching =>
      -- an interval of an hour, from a clock that shows no time before 1970
      refine ⟨.record i (max 0 (-now) + msPerHour) false, by simp [WakeAtRest], ?_⟩
      have hnext : now + (max 0 (-now) + msPerHour) ≠ dueNowSentinel := by
        simp only [dueNowSentinel, msPerHour]
        omega
      apply not_wakeKept_of_rescheduled other _ _ hnext
      · simpa [step, record, hunder, ended, setScan] using hunanswered
      · simp [step, record, hunder, ended, setScan, recordScanOnce, lookup_rescheduled]
  | parking =>
      obtain ⟨draw, hdraw⟩ := exists_draw now
      refine ⟨.park i draw true, by simp [WakeAtRest], ?_⟩
      apply not_wakeKept_of_rescheduled other _ _ hdraw
      · simpa [step, park, hunder, ended, setScan] using hunanswered
      · simp [step, park, hunder, ended, setScan, parkPaused, lookup_rescheduled]

/-! ## Every run

Both directions, at a state that a run reaches. -/

/-- Where wakes commit at rest, each is kept until a scan that began after it,
and no scan writes whose fetch began before a wake.  And this is all that can be
asked of a wake: after any such run, a wake that commits now is kept in every
continuation with wakes at rest exactly if no scan of its series is under way. -/
theorem wake_kept (scanStates : Table ScanState) (events : List Event)
    (hrest : EachStep step WakeAtRest (start scanStates) events) :
    Always step WakeKept (start scanStates) events ∧
      EachStep step NoStaleWrite (start scanStates) events ∧
      ∀ seriesId, enrolled (run step (start scanStates) events) seriesId →
        ((∀ later, EachStep step WakeAtRest
            (step (run step (start scanStates) events) (.wake seriesId true)) later →
          Always step WakeKept
            (step (run step (start scanStates) events) (.wake seriesId true)) later) ↔
        NoScanOf (run step (start scanStates) events) seriesId) := by
  refine ⟨?_, ?_, ?_⟩
  · exact always_of_invariant answered_step (fun _ h => h.kept)
      (answered_start scanStates) hrest
  · exact EachStep.of_invariant answered_step
      (fun s e h _ i scan _ hscan => (h.current i scan hscan).1)
      (answered_start scanStates) hrest
  · intro seriesId hrow
    have hnow := run_invariant_of_each answered_step (answered_start scanStates) hrest
    generalize run step (start scanStates) events = s at hrow hnow ⊢
    constructor
    · intro hkept i scan hscan hseries
      obtain ⟨e, hquiet, hlost⟩ := exists_lost hrow hscan hseries
      exact hlost ((hkept [e] ⟨hquiet, trivial⟩).last)
    · intro hnone later hlater
      have hwoken : Answered (step s (.wake seriesId true)) :=
        answered_wake hnow fun _ _ => hnone
      exact always_of_invariant answered_step (fun _ h => h.kept) hwoken hlater

/-- One series, parked far out. -/
def parked : Table ScanState :=
  ⟨[⟨"7", none, some 1000, 0⟩], List.pairwise_singleton _ _⟩

/-- The series is woken while it is fetched, and the scan writes over it. -/
theorem not_wake_kept_during_scan :
    ¬(Always step WakeKept (start parked)
        [.begin 0 "7" 2000, .wake "7" true, .record 0 3600000 false] ∧
      EachStep step NoStaleWrite (start parked)
        [.begin 0 "7" 2000, .wake "7" true, .record 0 3600000 false]) := by
  rintro ⟨hkept, -⟩
  obtain ⟨r, hr, hdue⟩ := hkept.last "7" rfl
  obtain rfl : r = ⟨"7", none, some 3602000, 0⟩ := (Option.some.inj hr).symm
  contradiction

/-- The wake commits after the scan, and the next scan answers it. -/
theorem wake_kept_after_scan :
    Always step WakeKept (start parked)
        [.begin 0 "7" 2000, .record 0 3600000 false, .wake "7" true] ∧
      EachStep step NoStaleWrite (start parked)
        [.begin 0 "7" 2000, .record 0 3600000 false, .wake "7" true] :=
  have hrest : EachStep step WakeAtRest (start parked)
      [.begin 0 "7" 2000, .record 0 3600000 false, .wake "7" true] := by
    refine ⟨by simp [WakeAtRest], by simp [WakeAtRest], ?_, trivial⟩
    intro seriesId _ _ i scan hscan
    by_cases hi : i = 0
    · subst hi
      simp [step, begin, record, ended, setScan, start] at hscan
    · simp [step, begin, record, ended, setScan, start] at hscan
  ⟨(wake_kept parked _ hrest).1, (wake_kept parked _ hrest).2.1⟩

end Komika.Scan.Wake
