import Komika.Lib.Bytes
import Komika.Lib.SortBy
import Komika.Scan.Schedule
import Komika.Scan.Supervisor

/-!
# The order of the schedule

The queries of `scanner.rs` compare `next_scan_at` with a cut-off as text, while `is_due` reads
both as instants.  The module writes its texts in three ways: `to_rfc3339` with as many digits of
the fraction as it needs, `strftime` to the whole second with the offset behind it, and the
sentinel.  Each of them is the timestamp of the instant that it writes, so the order of the texts
is the order of the instants and every query selects by time.

* `Spells.lt_iff`, `Spells.asBytes_lt_iff` — texts compare as instants, also byte by
  byte;
* `dueQuery_eq`, `reclaimQuery_eq`, `seriesOfSource_eq` — each query as one by time;
* `allWritten_step` — writers write such texts;
* `orderedByTime_run` — every state of a run is ordered by time.
-/

namespace Komika.Scan.ScheduleOrder

open Komika.Lib Komika.Lib.Bytes Komika.Lib.Machine Komika.Lib.Timestamp
open Komika.Catalog.Schema (SourceSeries)
open Komika.Feed.PersistScan (ScanRules)
open Komika.Scan.Schedule
open Komika.Scan.Supervisor (SourceSel)

/-! ## Spellings

RFC 3339 with and without a fraction, and the sentinel. -/

/-- `Spells text t`: the module writes `text` for the instant `t`, to the precision written. -/
inductive Spells : String → Nat → Prop
  | toRfc3339 {t : Nat} (h : t < endOfYears) : Spells (toRfc3339 t) t
  | seconds {t : Nat} {text : String} (h : t < endOfYears) (htext : strftime t = some text) :
      Spells (text ++ "+00:00") (t / nsPerSecond * nsPerSecond)
  | sentinel : Spells dueNowSentinel 0

/-- A schedule that the module writes. -/
def Written (nextScanAt : Option String) : Prop :=
  ∃ text t, nextScanAt = some text ∧ Spells text t

section Spellings

variable {x y : String} {s t : Nat}

/-- All three are the timestamp of the instant. -/
theorem Spells.eq (h : Spells x t) : x = Timestamp.toRfc3339 t ∧ t < endOfYears := by
  cases h with
  | toRfc3339 ht => exact ⟨rfl, ht⟩
  | @seconds u text hu htext =>
    have heq := strftime_eq hu
    rw [htext, Option.map_some] at heq
    exact ⟨Option.some.inj heq, (Nat.div_mul_le_self u nsPerSecond).trans_lt hu⟩
  | sentinel => exact ⟨dueNowSentinel_eq, by decide⟩

/-- Texts compare as the instants that they spell. -/
theorem Spells.lt_iff (hx : Spells x s) (hy : Spells y t) : x < y ↔ s < t := by
  obtain ⟨rfl, hs⟩ := hx.eq
  obtain ⟨rfl, ht⟩ := hy.eq
  exact toRfc3339_lt_iff hs ht

/-- `BINARY` compares the bytes. -/
theorem Spells.asBytes_lt_iff (hx : Spells x s) (hy : Spells y t) :
    asBytes x < asBytes y ↔ s < t := by
  rw [← hx.lt_iff hy]
  obtain ⟨rfl, hs⟩ := hx.eq
  obtain ⟨rfl, ht⟩ := hy.eq
  exact Bytes.asBytes_lt_iff (ascii_toRfc3339 hs) (ascii_toRfc3339 ht)

theorem Spells.inj (hx : Spells x s) (hy : Spells y t) : x = y ↔ s = t := by
  constructor
  · rintro rfl
    have hle : ¬s < t ∧ ¬t < s := by
      rw [← hx.lt_iff hy, ← hy.lt_iff hx]
      exact ⟨lt_irrefl x, lt_irrefl x⟩
    omega
  · rintro rfl
    rw [hx.eq.1, hy.eq.1]

/-- A text of any spelling is the timestamp. -/
theorem written_iff {text : Option String} :
    Written text ↔ ∃ t < endOfYears, text = some (toRfc3339 t) := by
  constructor
  · rintro ⟨x, t, rfl, hspells⟩
    obtain ⟨rfl, ht⟩ := hspells.eq
    exact ⟨t, ht, rfl⟩
  · rintro ⟨t, ht, rfl⟩
    exact ⟨_, t, rfl, .toRfc3339 ht⟩

end Spellings

/-! ## The queries

Five of them compare a text with a timestamp that is bound. -/

/-- `WHERE slice AND next_scan_at <= ? ORDER BY next_scan_at ASC LIMIT ?`. -/
def dueQuery (t : Table ScanRow) (slice : ScanRow → Bool) (nowIso : String) (limit : Nat) :
    List String :=
  (((t.rows.filter fun r => slice r && r.nextScanAt.any (· ≤ nowIso)).insertionSort fun a b =>
    a.nextScanAt.getD "" ≤ b.nextScanAt.getD "").take limit).map ScanRow.seriesId

/-- `due_series_ids`: the due series, of every source. -/
def dueSeriesIds (t : Table ScanRow) (nowIso : String) (limit : Nat) : List String :=
  dueQuery t (fun _ => true) nowIso limit

/-- `due_series_ids_for_source`; `sourceId` is the column of that name. -/
def dueSeriesIdsForSource (t : Table ScanRow) (sourceId : String → Option String)
    (sel : SourceSel) (nowIso : String) (limit : Nat) : List String :=
  dueQuery t (fun r => sel.owns (sourceId r.seriesId)) nowIso limit

/-- `WHERE next_scan_at > ? ORDER BY next_scan_at DESC LIMIT ?`. -/
def reclaimQuery (t : Table ScanRow) (horizon : String) : List String :=
  (((t.rows.filter fun r => r.nextScanAt.any (horizon < ·)).insertionSort fun a b =>
    b.nextScanAt.getD "" ≤ a.nextScanAt.getD "").take absurdReclaimPerTick).map ScanRow.seriesId

/-- The reclaim asks for what lies behind its horizon. -/
theorem reclaimable_eq (t : Table ScanRow) (calledAt : Clock) :
    reclaimable t calledAt =
      reclaimQuery t (toRfc3339 (calledAt.ns + absurdHorizonHours * nsPerHour)) := rfl

/-- The park asks for what lies before half of it. -/
theorem parkable_eq (t : Table ScanRow) (mappings : Table SourceSeries) (source : String)
    (calledAt : Clock) :
    parkable t mappings source calledAt = seriesOfSource t mappings source
      (· < toRfc3339 (calledAt.ns + outageParkMinutes / 2 * nsPerMinute)) := rfl

/-- The return asks for what lies more than two hours ahead. -/
theorem unparkable_eq (t : Table ScanRow) (mappings : Table SourceSeries) (source : String)
    (calledAt : Clock) :
    unparkable t mappings source calledAt = seriesOfSource t mappings source
      (toRfc3339 (calledAt.ns + 2 * nsPerHour) < ·) := rfl

/-! ## The same queries by time

What they would be, if the column held instants. -/

/-- `is_due` at any instant. -/
def isDueAt (nextScanAt : Option String) (now : Nat) : Bool :=
  (parseIso nextScanAt).elim true fun next => next ≤ now

theorem isDue_eq (nextScanAt : Option String) (now : Clock) :
    isDue nextScanAt now = isDueAt nextScanAt now.ns := rfl

/-- The instant that `parse_iso` reads. -/
def instant (r : ScanRow) : Int := (parseIso r.nextScanAt).getD 0

/-- The rows that are due, the one scheduled first at the head. -/
def dueByTime (t : Table ScanRow) (slice : ScanRow → Bool) (now limit : Nat) : List String :=
  (((t.rows.filter fun r => slice r && isDueAt r.nextScanAt now).insertionSort fun a b =>
    instant a ≤ instant b).take limit).map ScanRow.seriesId

/-- The rows behind the horizon, the furthest at the head. -/
def reclaimByTime (t : Table ScanRow) (horizon : Nat) : List String :=
  (((t.rows.filter fun r => decide ((horizon : Int) < instant r)).insertionSort fun a b =>
    instant b ≤ instant a).take absurdReclaimPerTick).map ScanRow.seriesId

/-- The series of the source whose instant is as asked. -/
def sourceByTime (t : Table ScanRow) (mappings : Table SourceSeries) (source : String)
    (test : Int → Bool) : List String :=
  let keys := (mappings.rows.filter fun m =>
    m.sourceType = "suwayomi" ∧ m.sourceId = source).map SourceSeries.sourceKey
  (t.rows.filter fun r => r.seriesId ∈ keys ∧ test (instant r)).map ScanRow.seriesId

/-- The texts of the module sort as their instants, byte by byte, and the queries over the table
select by time: the due rows are those that `is_due` finds, and the tests of the reclaim, the
park and the return ask for what lies behind or before their cut-off. -/
structure OrderedByTime (s : ScheduleState) : Prop where
  texts : ∀ x a y b, Spells x a → Spells y b →
    (asBytes x < asBytes y ↔ a < b) ∧ (x < y ↔ a < b) ∧ (x = y ↔ a = b)
  selects : ∀ r ∈ s.scanStates.rows, ∀ now < endOfYears,
    r.nextScanAt.any (· ≤ toRfc3339 now) = isDueAt r.nextScanAt now
  due : ∀ now < endOfYears, ∀ limit,
    dueSeriesIds s.scanStates (toRfc3339 now) limit =
      dueByTime s.scanStates (fun _ => true) now limit
  dueForSource : ∀ sourceId sel, ∀ now < endOfYears, ∀ limit,
    dueSeriesIdsForSource s.scanStates sourceId sel (toRfc3339 now) limit =
      dueByTime s.scanStates (fun r => sel.owns (sourceId r.seriesId)) now limit
  reclaim : ∀ horizon < endOfYears,
    reclaimQuery s.scanStates (toRfc3339 horizon) = reclaimByTime s.scanStates horizon
  park : ∀ source, ∀ cutoff < endOfYears,
    seriesOfSource s.scanStates s.sourceSeries source (· < toRfc3339 cutoff) =
      sourceByTime s.scanStates s.sourceSeries source (· < cutoff)
  unpark : ∀ source, ∀ cutoff < endOfYears,
    seriesOfSource s.scanStates s.sourceSeries source (toRfc3339 cutoff < ·) =
      sourceByTime s.scanStates s.sourceSeries source (cutoff < ·)

/-! ## Text order is time order

On rows that one of the writers has written. -/

/-- The schedules of the table are ones that the module writes. -/
def AllWritten (t : Table ScanRow) : Prop := ∀ r ∈ t.rows, Written r.nextScanAt

section Queries

variable {t : Table ScanRow} {r r' : ScanRow} {u : Nat}

/-- What a row with a written schedule says, as text and as an instant. -/
theorem row_of_written (h : Written r.nextScanAt) :
    ∃ n < endOfYears, r.nextScanAt = some (toRfc3339 n) ∧ instant r = n ∧
      ∀ now, isDueAt r.nextScanAt now = decide (n ≤ now) := by
  obtain ⟨n, hn, htext⟩ := written_iff.mp h
  have hparse : parseIso r.nextScanAt = some (n : Int) := by
    rw [htext, parseIso, Option.bind_some, parse_toRfc3339 hn]
  have hinstant : instant r = n := by
    rw [instant, hparse, Option.getD_some]
  refine ⟨n, hn, htext, hinstant, fun now => ?_⟩
  rw [isDueAt, hparse, Option.elim_some]
  exact decide_eq_decide.mpr Int.ofNat_le

/-- A text that is at most a timestamp. -/
theorem any_le_iff (h : Written r.nextScanAt) (hu : u < endOfYears) :
    r.nextScanAt.any (· ≤ toRfc3339 u) = isDueAt r.nextScanAt u := by
  obtain ⟨n, hn, htext, -, hdue⟩ := row_of_written h
  rw [hdue, htext, Option.any_some]
  exact decide_eq_decide.mpr (toRfc3339_le_iff hn hu)

/-- A text that is past a timestamp. -/
theorem any_gt_iff (h : Written r.nextScanAt) (hu : u < endOfYears) :
    r.nextScanAt.any (toRfc3339 u < ·) = decide ((u : Int) < instant r) := by
  obtain ⟨n, hn, htext, hinstant, -⟩ := row_of_written h
  rw [hinstant, htext, Option.any_some]
  exact decide_eq_decide.mpr ((toRfc3339_lt_iff hu hn).trans Int.ofNat_lt.symm)

/-- A text that is before a timestamp. -/
theorem any_lt_iff (h : Written r.nextScanAt) (hu : u < endOfYears) :
    r.nextScanAt.any (· < toRfc3339 u) = decide (instant r < u) := by
  obtain ⟨n, hn, htext, hinstant, -⟩ := row_of_written h
  rw [hinstant, htext, Option.any_some]
  exact decide_eq_decide.mpr ((toRfc3339_lt_iff hn hu).trans Int.ofNat_lt.symm)

/-- Rows sort by their texts as they do by their instants. -/
theorem getD_le_iff (h : Written r.nextScanAt) (h' : Written r'.nextScanAt) :
    r.nextScanAt.getD "" ≤ r'.nextScanAt.getD "" ↔ instant r ≤ instant r' := by
  obtain ⟨n, hn, htext, hinstant, -⟩ := row_of_written h
  obtain ⟨m, hm, htext', hinstant', -⟩ := row_of_written h'
  rw [hinstant, hinstant', htext, htext', Option.getD_some, Option.getD_some,
    toRfc3339_le_iff hn hm]
  exact Int.ofNat_le.symm

/-- The query for what is due, with its order and its limit. -/
theorem dueQuery_eq (ht : AllWritten t) (slice : ScanRow → Bool) (hu : u < endOfYears)
    (limit : Nat) : dueQuery t slice (toRfc3339 u) limit = dueByTime t slice u limit := by
  have hsorted := SortBy.insertionSort_filter_congr (l := t.rows)
    (fun r hr => congrArg (slice r && ·) (any_le_iff (ht r hr) hu))
    (fun a ha b hb => getD_le_iff (ht a ha) (ht b hb))
  exact congrArg (fun l => (l.take limit).map ScanRow.seriesId) hsorted

/-- The query for what is absurd. -/
theorem reclaimQuery_eq (ht : AllWritten t) (hu : u < endOfYears) :
    reclaimQuery t (toRfc3339 u) = reclaimByTime t u := by
  have hsorted := SortBy.insertionSort_filter_congr (l := t.rows)
    (fun r hr => any_gt_iff (ht r hr) hu)
    (fun a ha b hb => getD_le_iff (ht b hb) (ht a ha))
  exact congrArg (fun l => (l.take absurdReclaimPerTick).map ScanRow.seriesId) hsorted

/-- A text test that is a time test selects the same series of a source. -/
theorem seriesOfSource_eq (mappings : Table SourceSeries) (source : String)
    {due : String → Bool} {test : Int → Bool}
    (h : ∀ r ∈ t.rows, r.nextScanAt.any due = test (instant r)) :
    seriesOfSource t mappings source due = sourceByTime t mappings source test := by
  rw [seriesOfSource, sourceByTime]
  refine congrArg (List.map ScanRow.seriesId) (List.filter_congr fun r hr => ?_)
  rw [h r hr]

/-- A table of written schedules is ordered by time. -/
theorem orderedByTime {s : ScheduleState} (h : AllWritten s.scanStates) : OrderedByTime s where
  texts _ _ _ _ hx hy := ⟨hx.asBytes_lt_iff hy, hx.lt_iff hy, hx.inj hy⟩
  selects r hr _ hnow := any_le_iff (h r hr) hnow
  due _ hnow limit := dueQuery_eq h _ hnow limit
  dueForSource _ _ _ hnow limit := dueQuery_eq h _ hnow limit
  reclaim _ hhorizon := reclaimQuery_eq h hhorizon
  park source _ hcutoff :=
    seriesOfSource_eq _ source fun r hr => any_lt_iff (h r hr) hcutoff
  unpark source _ hcutoff :=
    seriesOfSource_eq _ source fun r hr => any_gt_iff (h r hr) hcutoff

end Queries

/-! ## Runs

Every row of a run has been written. -/

section Runs

variable {rules : ScanRules} {s : ScheduleState}

/-- A step keeps the schedules written, if another writer writes as the module does. -/
theorem allWritten_step (h : AllWritten s.scanStates) (e : Event)
    (hother : ∀ row, e = .other row → Written row.nextScanAt) :
    AllWritten (step rules s e).scanStates := by
  intro r hr
  have hrow : (stored rules s e).lookup r.seriesId = some r :=
    Table.lookup_of_mem (Table.mem_rows.mp hr)
  by_cases hwritten : r.seriesId ∈ written s e
  · obtain ⟨r', hrow', hnext⟩ := lookup_written rules hwritten
    obtain rfl : r = r' := Option.some.inj (hrow.symm.trans hrow')
    cases htime : e.time with
    | none => cases e <;> simp_all [Event.time, Schedule.written]
    | some now =>
      have hnextOf : BelowHorizon now (nextOf rules s e r.seriesId) := (nextOf_spec htime).1
      obtain ⟨next, htext, hbelow⟩ := hnextOf
      rw [hnext, htext]
      exact written_iff.mpr ⟨next, hbelow.trans now.early, rfl⟩
  · by_cases hset : ∃ row, e = .other row ∧ r.seriesId = row.seriesId
    · obtain ⟨row, rfl, hkey⟩ := hset
      rcases Table.mem_insertOrReplace.mp (Table.mem_rows.mp hr) with ⟨hmem, hclash⟩ | rfl
      · rw [← Bool.not_eq_true, ByKey.clash_iff] at hclash
        exact absurd hkey.symm hclash
      · exact hother r rfl
    · have hold : s.scanStates.lookup r.seriesId = some r :=
        lookup_unwritten hwritten (fun row he hid => hset ⟨row, he, hid⟩) hrow
      exact h r (Table.mem_rows.mpr (Table.lookup_eq_some.mp hold).1)

/-- **Text order is time order** in every run of the writers, over a table that they
wrote, and beside others that write the same spellings: the five queries that compare
texts select the rows, in the order, that a comparison of instants would. -/
theorem orderedByTime_run (rules : ScanRules) (t : Table ScanRow)
    (mappings : Table SourceSeries) (events : List Event) (ht : AllWritten t)
    (hother : ∀ row, Event.other row ∈ events → Written row.nextScanAt) :
    OrderedByTime (run (step rules) (start t mappings) events) := by
  have heach : EachStep (step rules) (fun _ e => ∀ row, e = .other row → Written row.nextScanAt)
      (start t mappings) events :=
    eachStep_of_forall fun e he row heq => hother row (heq ▸ he)
  exact orderedByTime (run_invariant_of_each (I := fun s => AllWritten s.scanStates)
    (fun s e hs hrow => allWritten_step hs e hrow) ht heach)

end Runs

/-- One series due at once, and one that was parked to the whole second. -/
def twoRows : Table ScanRow :=
  ⟨[pending "1" dueNowSentinel 0, pending "2" "2026-01-01T12:00:00+00:00" 0], by decide⟩

/-- Two rows, of which one was written by `strftime`. -/
theorem orderedByTime_run_twoRows :
    OrderedByTime (run (step Feed.PersistScan.scanRules) (start twoRows oneMapping)
      [.recordFailure "3" halfPastNoon]) := by
  refine orderedByTime_run Feed.PersistScan.scanRules twoRows oneMapping
    [.recordFailure "3" halfPastNoon] ?_ ?_
  · intro r hr
    rcases List.mem_pair.mp hr with rfl | rfl
    · exact ⟨_, 0, rfl, .sentinel⟩
    · exact written_iff.mpr ⟨1767268800000000000, by decide, by decide +kernel⟩
  · intro row hrow
    cases List.mem_singleton.mp hrow

end Komika.Scan.ScheduleOrder
