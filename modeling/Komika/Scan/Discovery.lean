import Komika.Lib.Machine
import Komika.Scan.Positions
import Komika.Scan.Schema

/-!
# The LATEST poll

`poll_source` of `discovery.rs`, statement by statement, for one source.  A poll
fetches a page, reads the stored snapshot, wakes the movers one `UPDATE` at a
time, and stores the new order.  It can be dropped between any two of these, and
each statement can fail; a failed `UPDATE` is logged and passed over.

So the snapshot advances past a mover that nobody woke, exactly if the `UPDATE`
of the mover is one that was passed over.

* `accounted_step` — the step lemma: each mover of the poll in flight is still to be
  woken, woken, or missed;
* `snapshotKept`, `wokenDue` — the two parts of "at least once" that hold of any step;
* `atLeastOnce_iff` — every run;
* `not_atLeastOnce_failed` — an `UPDATE` that fails, and the order that is stored behind
  it.
-/

namespace Komika.Scan.Discovery

open Komika.Lib Komika.Lib.Machine
open Komika.Scan.Schema Komika.Scan.Positions

/-- Where a poll is; `waking` holds the ids that are still to be woken. -/
inductive Poll where
  | idle
  | reading (curr : List Int)
  | waking (curr : List Int) (left : List String)
deriving DecidableEq

/-- The scan states, the stored order and the poll in flight. -/
structure PollState where
  scanStates : Table ScanState
  /-- The stored order.  A row that does not parse reads as none. -/
  snapshot : Option (List Int)
  poll : Poll
  /-- The series that polls have set due-now since the snapshot was stored. -/
  woken : List String
  /-- The series whose `UPDATE` in the last poll failed, or found no row. -/
  missed : List String

/-- Between two polls, with the order that was stored last. -/
def start (scanStates : Table ScanState) (snapshot : Option (List Int)) : PollState where
  scanStates := scanStates
  snapshot := snapshot
  poll := .idle
  woken := []
  missed := []

/-- The series has a scan-state row. -/
def enrolled (s : PollState) (seriesId : String) : Bool :=
  (s.scanStates.lookup seriesId).isSome

/-- What may happen between two steps of a poll, and the steps themselves. -/
inductive Event where
  /-- The page that `browse_source` answers with, or its failure. -/
  | fetched (page : Option (List Int))
  /-- The next statement of the poll runs, or fails. -/
  | statement (ok : Bool)
  /-- The poll is dropped where it is. -/
  | dropped
  /-- `ensure_pending`, from elsewhere. -/
  | enrol (seriesId : String)
  /-- A scan reschedules the series. -/
  | reschedule (seriesId : String) (next failures : Int)
deriving DecidableEq

/-- The ids that a poll wakes.  A first sighting wakes nobody. -/
def toWake (snapshot : Option (List Int)) (curr : List Int) : List String :=
  snapshot.elim [] fun prev => (movedUpOrEntered prev curr).map toString

/-- One `UPDATE` of `trigger_due_now`; its error is swallowed. -/
def wakeOne (s : PollState) (seriesId : String) (ok : Bool) : PollState :=
  if ok && enrolled s seriesId then
    { s with
      scanStates := triggerDueNow s.scanStates seriesId
      woken := seriesId :: s.woken }
  else { s with missed := seriesId :: s.missed }

/-- The next statement of the poll in flight. -/
def statement (s : PollState) (ok : Bool) : PollState :=
  match s.poll with
  | .idle => s
  | .reading curr =>
      if ok then { s with poll := .waking curr (toWake s.snapshot curr) }
      else { s with poll := .idle }
  | .waking curr (seriesId :: left) =>
      wakeOne { s with poll := .waking curr left } seriesId ok
  | .waking curr [] =>
      if ok then { s with snapshot := some curr, poll := .idle, woken := [] }
      else { s with poll := .idle }

/-- An answer to the fetch.  An empty page ends the poll. -/
def fetched (s : PollState) : Option (List Int) → PollState
  | none | some [] => s
  | some page =>
      if s.poll = .idle then
        { s with poll := .reading (snapshotOf page), missed := [] }
      else s

/-- One step.  Other writers change the scan states under the poll. -/
def step (s : PollState) : Event → PollState
  | .fetched page => fetched s page
  | .statement ok => statement s ok
  | .dropped => { s with poll := .idle }
  | .enrol seriesId => { s with scanStates := ensurePending s.scanStates seriesId }
  | .reschedule seriesId next failures =>
      { s with scanStates := rescheduled s.scanStates seriesId next failures }

/-! ## At least once

The stored order is what the next poll is compared with, so whatever it advances past is
not seen again. -/

/-- The step stores `curr` as the new order. -/
def Stores (s : PollState) (e : Event) (curr : List Int) : Prop :=
  s.poll = .waking curr [] ∧ e = .statement true

/-- What "at least once" asks of a step. -/
structure AtLeastOnce (s : PollState) (e : Event) : Prop where
  /-- When the order advances, every mover with a row has been woken. -/
  moversWoken : ∀ prev curr, s.snapshot = some prev → Stores s e curr →
    ∀ id ∈ movedUpOrEntered prev curr, enrolled s (toString id) →
      toString id ∈ s.woken
  /-- A series counts as woken once its row is due now. -/
  wokenDue : ∀ seriesId ∈ (step s e).woken, seriesId ∉ s.woken →
    ∃ r, (step s e).scanStates.lookup seriesId = some r ∧
      r.nextScanAt = some dueNowSentinel
  /-- Only the last statement of a poll touches the order. -/
  snapshotKept : (step s e).snapshot ≠ s.snapshot →
    ∃ curr, Stores s e curr ∧ (step s e).snapshot = some curr ∧ (step s e).poll = .idle

/-- When the order advances, every series with a row that this poll failed to
wake had been woken by an earlier poll since the order was stored. -/
def MissedWereWoken (s : PollState) (e : Event) : Prop :=
  ∀ prev curr, s.snapshot = some prev → Stores s e curr →
    ∀ seriesId ∈ s.missed, enrolled s seriesId → seriesId ∈ s.woken

/-! ## What a poll has seen to

The invariant of a poll that is under way. -/

/-- Each mover is still to be woken, has been woken, or has been missed. -/
structure Accounted (s : PollState) : Prop where
  reading : ∀ curr, s.poll = .reading curr → s.missed = []
  movers : ∀ prev curr left, s.snapshot = some prev → s.poll = .waking curr left →
    ∀ seriesId ∈ (movedUpOrEntered prev curr).map toString,
      seriesId ∈ left ∨ seriesId ∈ s.woken ∨ seriesId ∈ s.missed
  left : ∀ prev curr left, s.snapshot = some prev → s.poll = .waking curr left →
    ∀ seriesId ∈ left, seriesId ∈ (movedUpOrEntered prev curr).map toString
  missed : ∀ prev curr left, s.snapshot = some prev → s.poll = .waking curr left →
    ∀ seriesId ∈ s.missed, seriesId ∈ (movedUpOrEntered prev curr).map toString

/-- Between two polls there is nothing to account for. -/
theorem accounted_of_idle {s : PollState} (h : s.poll = .idle) : Accounted s := by
  constructor <;> simp [h]

theorem accounted_start (scanStates : Table ScanState) (snapshot : Option (List Int)) :
    Accounted (start scanStates snapshot) :=
  accounted_of_idle rfl

/-- Other writers of scan states do not change what a poll has seen to. -/
theorem Accounted.scanStates {s : PollState} (h : Accounted s) (t : Table ScanState) :
    Accounted { s with scanStates := t } :=
  ⟨h.reading, h.movers, h.left, h.missed⟩

/-- One `UPDATE`, which wakes its series or misses it. -/
theorem accounted_wakeOne {s : PollState} {curr : List Int} {seriesId : String}
    {left : List String} (h : Accounted s) (hpoll : s.poll = .waking curr (seriesId :: left))
    (ok : Bool) : Accounted (wakeOne { s with poll := .waking curr left } seriesId ok) := by
  unfold wakeOne
  split
  · constructor
    · simp
    · rintro prev _ _ hprev ⟨rfl, rfl⟩ id hid
      rcases h.movers prev curr _ hprev hpoll id hid with hleft | hwoken | hmissed
      · rcases List.mem_cons.mp hleft with rfl | hleft
        · exact Or.inr (Or.inl List.mem_cons_self)
        · exact Or.inl hleft
      · exact Or.inr (Or.inl (List.mem_cons_of_mem _ hwoken))
      · exact Or.inr (Or.inr hmissed)
    · rintro prev _ _ hprev ⟨rfl, rfl⟩ id hid
      exact h.left prev curr _ hprev hpoll id (List.mem_cons_of_mem _ hid)
    · rintro prev _ _ hprev ⟨rfl, rfl⟩ id hid
      exact h.missed prev curr _ hprev hpoll id hid
  · constructor
    · simp
    · rintro prev _ _ hprev ⟨rfl, rfl⟩ id hid
      rcases h.movers prev curr _ hprev hpoll id hid with hleft | hwoken | hmissed
      · rcases List.mem_cons.mp hleft with rfl | hleft
        · exact Or.inr (Or.inr List.mem_cons_self)
        · exact Or.inl hleft
      · exact Or.inr (Or.inl hwoken)
      · exact Or.inr (Or.inr (List.mem_cons_of_mem _ hmissed))
    · rintro prev _ _ hprev ⟨rfl, rfl⟩ id hid
      exact h.left prev curr _ hprev hpoll id (List.mem_cons_of_mem _ hid)
    · rintro prev _ _ hprev ⟨rfl, rfl⟩ id hid
      rcases List.mem_cons.mp hid with rfl | hid
      · exact h.left prev curr _ hprev hpoll id List.mem_cons_self
      · exact h.missed prev curr _ hprev hpoll id hid

/-- A poll that has just read the snapshot has all its movers before it. -/
theorem accounted_read {s : PollState} {curr : List Int} (h : Accounted s)
    (hpoll : s.poll = .reading curr) :
    Accounted { s with poll := .waking curr (toWake s.snapshot curr) } := by
  have hmissed := h.reading curr hpoll
  constructor
  · simp
  · rintro prev _ _ hprev ⟨rfl, rfl⟩ id hid
    exact Or.inl (by simpa [toWake, show s.snapshot = some prev from hprev] using hid)
  · rintro prev _ _ hprev ⟨rfl, rfl⟩ id hid
    simpa [toWake, show s.snapshot = some prev from hprev] using hid
  · rintro prev _ _ _ _ id hid
    exact absurd hid (by simp [hmissed])

theorem accounted_statement {s : PollState} (h : Accounted s) (ok : Bool) :
    Accounted (statement s ok) := by
  unfold statement
  split
  · exact h
  · next curr hpoll =>
      split
      · exact accounted_read h hpoll
      · exact accounted_of_idle rfl
  · next curr seriesId left hpoll => exact accounted_wakeOne h hpoll ok
  · split <;> exact accounted_of_idle rfl

/-- An answer to the fetch begins a poll. -/
theorem accounted_fetched {s : PollState} (h : Accounted s) (page : Option (List Int)) :
    Accounted (fetched s page) := by
  unfold fetched
  split
  · exact h
  · exact h
  · split
    · constructor <;> simp
    · exact h

/-- Every step, so every state of a run. -/
theorem accounted_step {s : PollState} (h : Accounted s) (e : Event) :
    Accounted (step s e) := by
  cases e with
  | fetched page => exact accounted_fetched h page
  | statement ok => exact accounted_statement h ok
  | dropped => exact accounted_of_idle rfl
  | enrol seriesId => exact h.scanStates _
  | reschedule seriesId next failures => exact h.scanStates _

/-! ## The two parts that always hold

Neither depends on what the poll has seen to. -/

/-- An answer changes nothing, or begins a poll with an order that is not empty. -/
theorem fetched_eq_or (s : PollState) (page : Option (List Int)) :
    fetched s page = s ∨
      ∃ curr, fetched s page = { s with poll := .reading curr, missed := [] } := by
  unfold fetched
  split
  · exact Or.inl rfl
  · exact Or.inl rfl
  · split
    · exact Or.inr ⟨_, rfl⟩
    · exact Or.inl rfl

/-- Only the last statement of a poll stores an order, and it is the order of that
poll. -/
theorem snapshotKept (s : PollState) (e : Event) (h : (step s e).snapshot ≠ s.snapshot) :
    ∃ curr, Stores s e curr ∧ (step s e).snapshot = some curr ∧ (step s e).poll = .idle := by
  cases e with
  | fetched page =>
      rcases fetched_eq_or s page with hsame | ⟨curr, hreads⟩
      · exact absurd (by rw [step, hsame]) h
      · exact absurd (by rw [step, hreads]) h
  | statement ok =>
      rw [step, statement] at h ⊢
      split at h
      · exact absurd rfl h
      · split at h <;> exact absurd rfl h
      · rw [wakeOne] at h
        split at h <;> exact absurd rfl h
      · next curr hpoll =>
          cases ok with
          | false => exact absurd rfl h
          | true => exact ⟨curr, ⟨hpoll, rfl⟩, by simp, by simp⟩
  | dropped => exact absurd rfl h
  | enrol seriesId => exact absurd rfl h
  | reschedule seriesId next failures => exact absurd rfl h

/-- Who is woken is due at once. -/
theorem wokenDue (s : PollState) (e : Event) {seriesId : String}
    (hwoken : seriesId ∈ (step s e).woken) (hnew : seriesId ∉ s.woken) :
    ∃ r, (step s e).scanStates.lookup seriesId = some r ∧
      r.nextScanAt = some dueNowSentinel := by
  cases e with
  | fetched page =>
      rcases fetched_eq_or s page with hsame | ⟨curr, hreads⟩
      · rw [step, hsame] at hwoken
        exact absurd hwoken hnew
      · rw [step, hreads] at hwoken
        exact absurd hwoken hnew
  | statement ok =>
      rw [step, statement] at hwoken ⊢
      split at hwoken
      · exact absurd hwoken hnew
      · split at hwoken <;> exact absurd hwoken hnew
      · next curr id left hpoll =>
          simp only [wakeOne] at hwoken ⊢
          split at hwoken
          · next hok =>
              rcases List.mem_cons.mp hwoken with rfl | hwoken
              · rw [if_pos hok]
                obtain ⟨r, hr⟩ := Option.isSome_iff_exists.mp (Bool.and_eq_true_iff.mp hok).2
                refine ⟨r.wake, ?_, rfl⟩
                simp [show s.scanStates.lookup seriesId = some r from hr]
              · exact absurd hwoken hnew
          · exact absurd hwoken hnew
      · split at hwoken
        · exact absurd hwoken List.not_mem_nil
        · exact absurd hwoken hnew
  | dropped => exact absurd hwoken hnew
  | enrol id => exact absurd hwoken hnew
  | reschedule id next failures => exact absurd hwoken hnew

/-! ## Every run of polls

The third part, as a condition on the state that an order is stored in. -/

/-- A step of a run is "at least once" exactly if no series that its poll missed
goes unwoken. -/
theorem atLeastOnce_step_iff {s : PollState} (h : Accounted s) (e : Event) :
    AtLeastOnce s e ↔ MissedWereWoken s e := by
  constructor
  · intro honce prev curr hprev hstores seriesId hmissed hrow
    have hmover := h.missed prev curr [] hprev hstores.1 seriesId hmissed
    obtain ⟨id, hid, rfl⟩ := List.mem_map.mp hmover
    exact honce.moversWoken prev curr hprev hstores id hid hrow
  · intro hmissed
    refine ⟨?_, fun _ hwoken hnew => wokenDue s e hwoken hnew, snapshotKept s e⟩
    intro prev curr hprev hstores id hid hrow
    have hmover := List.mem_map_of_mem (f := toString) hid
    rcases h.movers prev curr [] hprev hstores.1 _ hmover with hleft | hwoken | hmiss
    · exact absurd hleft List.not_mem_nil
    · exact hwoken
    · exact hmissed prev curr hprev hstores _ hmiss hrow

/-- **When polling is at least once.**  A run of polls is exactly if the order never
advances past a series with a row whose `UPDATE` in that poll was passed over, unless an
earlier poll since the order was stored had woken it.  The order is stored after the
wakes, whatever became of them, and the next diff starts from it. -/
theorem atLeastOnce_iff (scanStates : Table ScanState) (snapshot : Option (List Int))
    (events : List Event) :
    EachStep step AtLeastOnce (start scanStates snapshot) events ↔
      EachStep step MissedWereWoken (start scanStates snapshot) events := by
  apply eachStep_congr_of_invariant (I := Accounted)
  · exact fun s e h _ => accounted_step h e
  · exact fun s e h => atLeastOnce_step_iff h e
  · exact accounted_start scanStates snapshot

/-- One series, parked far out, second on the page. -/
def parked : Table ScanState :=
  ⟨[⟨"20", none, some 1000, 0⟩], List.pairwise_singleton _ _⟩

/-- The series takes the head, its `UPDATE` fails, and the order is stored. -/
theorem not_atLeastOnce_failed :
    ¬EachStep step AtLeastOnce (start parked (some [10, 20]))
      [.fetched (some [20, 10]), .statement true, .statement false, .statement true] := by
  rintro ⟨-, -, -, hstores, -⟩
  have hwoken := hstores.moversWoken [10, 20] [20, 10] rfl ⟨rfl, rfl⟩ 20 (by decide) rfl
  exact absurd hwoken List.not_mem_nil

end Komika.Scan.Discovery
