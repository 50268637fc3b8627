import Komika.Catalog.Candidates

/-!
# Resolving a candidate, statement by statement

`resolve_merge_candidate` reads its row, claims it in one transaction, looks up
the work of its series, and folds that work into the candidate in another.  If
the fold fails, the claim is taken back.  Calls run between each other's
statements, and between merges and splits, and any statement can fail.

A failed lookup does not take the claim back, and neither does a failed attempt
to; and a split can move the series off its work between the lookup and the
fold.  `allOrNothing_run` says that nothing else keeps a call from being all or
nothing.

A call is a state machine over its phases, and any number of calls run over one
catalogue.  `CallStep` says what one step of a call does to the row and to the rest,
`Consistent` what holds between steps: taken rows are not pending, and no two calls have
taken one row.

* `carries_traffic` — merges and splits keep the rows and the series;
* `step_read`, `step_claimed`, `step_lookedUp`, `step_undoing` — the statements of a
  call, one by one;
* `consistent_step` — a step that is undisturbed is all or nothing;
* `allOrNothing_run` — over every interleaving;
* `not_allOrNothing_lookupFails` — the lookup that fails after the claim.
-/

namespace Komika.Catalog.Resolutions

open Komika.Lib
open Komika.Catalog.Schema Komika.Catalog.Database Komika.Catalog.Ingest
open Komika.Catalog.Merge Komika.Catalog.Split Komika.Catalog.Runs
open Komika.Catalog.Effects
open Komika.Catalog.Candidates (threeWorks claim claimable reopen withStatus mem_claim mem_reopen
  followed followed_id followed_status followed_sourceSeriesId mem_mergeCandidate_merged
  confirmed_merged)

/-! ## The calls

The statements of one call, and what another caller may do in between. -/

/-- The arguments of a call. -/
structure Request where
  id : Id
  accept : Bool
deriving DecidableEq, Repr

/-- How far a call has come; the row is as it was read. -/
inductive Phase where
  | reading
  | read (row : MergeCandidate)
  /-- The claim of an accepting call is committed. -/
  | claimed (row : MergeCandidate)
  | lookedUp (row : MergeCandidate) (old : Id)
  /-- The fold has failed. -/
  | undoing (row : MergeCandidate)
  /-- `Ok(true)`, or an error. -/
  | returned (ok : Bool)
deriving DecidableEq, Repr

/-- The catalogue, the column `resolved_at`, and the phase of each call. -/
structure ResolveState where
  catalog : CatalogState
  /-- The column `resolved_at`. -/
  resolvedAt : Id → Option String
  phase : Nat → Phase

/-- The call has come so far. -/
def ResolveState.setPhase (s : ResolveState) (i : Nat) (phase : Phase) : ResolveState :=
  { s with phase := fun j => if j = i then phase else s.phase j }

/-- The queue after a statement on a row, with its `resolved_at`. -/
def ResolveState.setQueue (s : ResolveState) (t : Table MergeCandidate) (id : Id)
    (resolvedAt : Option String) : ResolveState :=
  { s with
    catalog := { s.catalog with db := { s.catalog.db with mergeCandidate := t } }
    resolvedAt := fun k => if k = id then resolvedAt else s.resolvedAt k }

/-- The catalogue after a statement. -/
def ResolveState.setDb (s : ResolveState) (db : Db) : ResolveState :=
  { s with catalog := { s.catalog with db := db } }

/-- The first statement, and the fast path. -/
def readRow (req : Request) (db : Db) : Phase :=
  match db.mergeCandidate.rows.find? fun m => m.id = req.id with
  | none => .returned false
  | some row => if row.status = .pending then .read row else .returned false

/-- The lookup of the work of the series. -/
def lookUp (row : MergeCandidate) (db : Db) : Phase :=
  match db.sourceSeries.rows.find? fun ss => ss.id = row.sourceSeriesId with
  | none => .returned true
  | some ss =>
      if ss.workId = row.candidateWorkId then .returned true
      else .lookedUp row ss.workId

/-- The next statement of the `i`-th call. -/
def ResolveState.advance (rules : Rules) (req : Request) (now : String)
    (s : ResolveState) (i : Nat) : ResolveState :=
  match s.phase i with
  | .reading => s.setPhase i (readRow req s.catalog.db)
  | .read row =>
      if s.catalog.db.mergeCandidate.rows.any (claimable req.id) then
        (s.setQueue (claim (if req.accept then .confirmed else .rejected) req.id
          s.catalog.db.mergeCandidate) req.id (some now)).setPhase i
            (if req.accept then .claimed row else .returned true)
      else s.setPhase i (.returned false)
  | .claimed row => s.setPhase i (lookUp row s.catalog.db)
  | .lookedUp row old =>
      match mergeWorksChecked rules.toTextRules old row.candidateWorkId none
          s.catalog.db with
      | .ok (_, db) => (s.setDb db).setPhase i (.returned true)
      | .error _ => s.setPhase i (.undoing row)
  | .undoing _ =>
      (s.setQueue (reopen req.id s.catalog.db.mergeCandidate) req.id none).setPhase i
        (.returned false)
  | .returned _ => s

/-- The phase after the next statement has failed. -/
def Phase.failed : Phase → Phase
  | .lookedUp row _ => .undoing row
  | .returned ok => .returned ok
  | _ => .returned false

/-- The merges and the splits of other callers. -/
inductive Traffic where
  | merge (source target : Id) (expected : Option (WorkIdentity × WorkIdentity))
  | planSplit (workId : Id) (sourceSeriesIds : List Id)
  | commitSplit (i : Nat) (newWorkId : Id) (actor : Option Id)

/-- The step of the catalogue. -/
def Traffic.op : Traffic → Op
  | .merge source target expected => .mergeWorks source target expected
  | .planSplit workId sourceSeriesIds => .planSplit workId sourceSeriesIds
  | .commitSplit i newWorkId actor => .commitSplit i newWorkId actor

/-- A statement of a call, one that fails, or a step of another caller. -/
inductive ResolveEvent where
  | traffic (t : Traffic)
  /-- The next statement of the `i`-th call, at `now`. -/
  | call (i : Nat) (now : String)
  /-- It fails. -/
  | fail (i : Nat)

/-- The next statement of the call, on the catalogue as it is by then. -/
def ResolveState.step (rules : Rules) (requests : List Request) (s : ResolveState) :
    ResolveEvent → ResolveState
  | .traffic t => { s with catalog := s.catalog.step rules t.op }
  | .call i now =>
      match requests[i]? with
      | none => s
      | some req => s.advance rules req now i
  | .fail i => s.setPhase i (s.phase i).failed

/-- No call has begun. -/
def ResolveState.start (catalog : CatalogState) (resolvedAt : Id → Option String) :
    ResolveState :=
  ⟨catalog, resolvedAt, fun _ => .reading⟩

/-! ## All or nothing

A call that returns success has folded its row, one that returns an error has left it
pending, and no two calls resolve one row. -/

/-- The call has claimed its row, and not returned. -/
def Phase.Holds : Phase → Prop
  | .claimed _ => True
  | .lookedUp _ _ => True
  | .undoing _ => True
  | _ => False

/-- The call is under way. -/
def Phase.Active (p : Phase) : Prop := ∀ ok, p ≠ .returned ok

/-- The row a call that may still fold has read. -/
def Phase.folds (p : Phase) : Option MergeCandidate :=
  match p with
  | .claimed row => some row
  | .lookedUp row _ => some row
  | _ => none

/-- A row and what has become of it, if only its status may change and only if
it has the id `id`. -/
def SameRow (id : Id) (m m' : MergeCandidate) : Prop :=
  m' = m ∨ (m.id = id ∧ m' = withStatus m'.status m)

/-- Nothing has changed but the status and the `resolved_at` of one row. -/
structure OnlyStatus (id : Id) (s s' : ResolveState) : Prop where
  rest : s'.catalog = { s.catalog with
    db := { s.catalog.db with mergeCandidate := s'.catalog.db.mergeCandidate } }
  kept : ∀ m ∈ s.catalog.db.mergeCandidate,
    ∃ m' ∈ s'.catalog.db.mergeCandidate, SameRow id m m'
  noneNew : ∀ m' ∈ s'.catalog.db.mergeCandidate,
    ∃ m ∈ s.catalog.db.mergeCandidate, SameRow id m m'
  resolvedAt : ∀ k, k ≠ id → s'.resolvedAt k = s.resolvedAt k

/-- The row is pending. -/
def Pending (id : Id) (db : Db) : Prop :=
  ∃ m ∈ db.mergeCandidate, m.id = id ∧ m.status = .pending

/-- `redirect_work_id`, or the id itself. -/
def follow (db : Db) (workId : Id) : Id := (redirectWorkId db workId).getD workId

/-- The series is on the work, both followed. -/
def SeriesOn (db : Db) (sourceSeriesId workId : Id) : Prop :=
  ∃ ss ∈ db.sourceSeries, ss.id = sourceSeriesId ∧
    follow db ss.workId = follow db workId

/-- A step of the `i`-th call, from `s` to `s'`. -/
structure CallStep (req : Request) (i : Nat) (s s' : ResolveState) : Prop where
  /-- A step that does not return `Ok(true)`, and every step of a rejecting call,
  changes nothing but the status of the row. -/
  quiet : s'.phase i ≠ .returned true ∨ req.accept = false → OnlyStatus req.id s s'
  /-- A call that returns an error leaves its row pending if it has claimed it. -/
  failed : (s.phase i).Active → s'.phase i = .returned false → (s.phase i).Holds →
    Pending req.id s'.catalog.db
  /-- And nothing changed if it has not. -/
  refused : s'.phase i = .returned false → ¬(s.phase i).Holds →
    s'.catalog = s.catalog ∧ s'.resolvedAt = s.resolvedAt
  /-- A call that accepts and returns true leaves the series on the work. -/
  accepted : (s.phase i).Active → s'.phase i = .returned true → req.accept = true →
    ∃ row, (s.phase i).folds = some row ∧
      SeriesOn s'.catalog.db row.sourceSeriesId row.candidateWorkId

/-- No two calls have resolved one row. -/
def ResolvedOnce (requests : List Request) (s : ResolveState) : Prop :=
  ∀ i j req req', i ≠ j → requests[i]? = some req → requests[j]? = some req' →
    s.phase i = .returned true → s.phase j = .returned true → req.id ≠ req'.id

/-- The property of a step. -/
structure AllOrNothing (rules : Rules) (requests : List Request) (s : ResolveState)
    (e : ResolveEvent) : Prop where
  once : ResolvedOnce requests (s.step rules requests e)
  call : ∀ i req, (e = .fail i ∨ ∃ now, e = .call i now) → requests[i]? = some req →
    CallStep req i s (s.step rules requests e)

/-- The step is not a failed lookup or a failed attempt to take a claim back, nor
a fold of a work that the series has left for a third one. -/
def Undisturbed (s : ResolveState) : ResolveEvent → Prop
  | .traffic _ => True
  | .fail i => (∀ row, s.phase i ≠ .claimed row) ∧ ∀ row, s.phase i ≠ .undoing row
  | .call i _ => ∀ row old, s.phase i = .lookedUp row old →
      s.catalog.db.hasWork old = true → s.catalog.db.hasWork row.candidateWorkId = true →
      ∀ ss ∈ s.catalog.db.sourceSeries, ss.id = row.sourceSeriesId →
        ss.workId = old ∨ ss.workId = row.candidateWorkId

/-! ## Small facts

What the updates of the state leave alone. -/

/-- The call has resolved its row, or is about to. -/
def Phase.Taken (p : Phase) : Prop := p.Holds ∨ p = .returned true

/-- The row the call goes on with. -/
def Phase.row (p : Phase) : Option MergeCandidate :=
  match p with
  | .read row => some row
  | .claimed row => some row
  | .lookedUp row _ => some row
  | _ => none

section Small

variable {s : ResolveState} {i j : Nat} {p : Phase} {id : Id}

@[simp] theorem setPhase_phase_self : (s.setPhase i p).phase i = p := if_pos rfl

/-- The other calls are where they were. -/
theorem setPhase_phase_ne (h : j ≠ i) : (s.setPhase i p).phase j = s.phase j := if_neg h

@[simp] theorem setPhase_catalog : (s.setPhase i p).catalog = s.catalog := rfl

@[simp] theorem setPhase_resolvedAt : (s.setPhase i p).resolvedAt = s.resolvedAt := rfl

@[simp] theorem setQueue_phase {t : Table MergeCandidate} {at' : Option String} :
    (s.setQueue t id at').phase = s.phase := rfl

@[simp] theorem setQueue_mergeCandidate {t : Table MergeCandidate}
    {at' : Option String} :
    (s.setQueue t id at').catalog.db.mergeCandidate = t := rfl

@[simp] theorem setDb_phase {db : Db} : (s.setDb db).phase = s.phase := rfl

@[simp] theorem setDb_db {db : Db} : (s.setDb db).catalog.db = db := rfl

theorem OnlyStatus.refl {s' : ResolveState} (hcatalog : s'.catalog = s.catalog)
    (hresolved : s'.resolvedAt = s.resolvedAt) : OnlyStatus id s s' where
  rest := by rw [hcatalog]
  kept m hm := ⟨m, hcatalog ▸ hm, .inl rfl⟩
  noneNew m hm := ⟨m, hcatalog ▸ hm, .inl rfl⟩
  resolvedAt _ _ := by rw [hresolved]

/-- A statement that sets the status of the row. -/
theorem onlyStatus_setQueue {q : MergeCandidate → Bool} {status : CandidateStatus}
    {at' : Option String} {t : Table MergeCandidate}
    (ht : ∀ m, m ∈ t ↔ ∃ old ∈ s.catalog.db.mergeCandidate,
      m = if q old then withStatus status old else old)
    (hq : ∀ m, q m = true → m.id = id) : OnlyStatus id s (s.setQueue t id at') := by
  have hsame : ∀ old : MergeCandidate,
      SameRow id old (if q old then withStatus status old else old) := by
    intro old
    split
    · next hold => exact .inr ⟨hq old hold, rfl⟩
    · exact .inl rfl
  constructor
  · rfl
  · intro m hm
    exact ⟨_, (ht _).mpr ⟨m, hm, rfl⟩, hsame m⟩
  · intro m' hm'
    obtain ⟨m, hm, rfl⟩ := (ht m').mp hm'
    exact ⟨m, hm, hsame m⟩
  · intro k hk
    exact if_neg hk

/-- The phase of a call is no change of a row. -/
theorem OnlyStatus.setPhase {s' : ResolveState} (h : OnlyStatus id s s') :
    OnlyStatus id s (s'.setPhase i p) := ⟨h.rest, h.kept, h.noneNew, h.resolvedAt⟩

end Small

/-! ## What merges and splits keep

They move rows and mappings, and delete pending rows; a confirmed row and its series
stay. -/

/-- The series are there, the confirmed rows are there, and every row is one
that was there, with its status. -/
structure Carries (db db' : Db) : Prop where
  series : ∀ ss ∈ db.sourceSeries, ∃ ss' ∈ db'.sourceSeries, ss'.id = ss.id
  confirmed : ∀ m ∈ db.mergeCandidate, m.status = .confirmed →
    ∃ m' ∈ db'.mergeCandidate, m'.id = m.id ∧ m'.status = .confirmed
  origin : ∀ m' ∈ db'.mergeCandidate, ∃ m ∈ db.mergeCandidate,
    m'.id = m.id ∧ m'.status = m.status ∧ m'.sourceSeriesId = m.sourceSeriesId

theorem Carries.refl (db : Db) : Carries db db where
  series ss hss := ⟨ss, hss, rfl⟩
  confirmed m hm hconfirmed := ⟨m, hm, rfl, hconfirmed⟩
  origin m hm := ⟨m, hm, rfl, rfl, rfl⟩

/-- A merge deletes pending rows and moves the rest. -/
theorem carries_merged (rules : TextRules) {source target : Id} (hne : source ≠ target)
    (db : Db) : Carries db (merged rules source target db) where
  series ss hss := by
    refine ⟨_, (mem_sourceSeries_merged hne).mpr ⟨ss, hss, rfl⟩, ?_⟩
    split <;> rfl
  confirmed m hm hconfirmed := confirmed_merged rules hne hm hconfirmed
  origin m' hm' := by
    obtain ⟨⟨m, hm, rfl⟩, -⟩ := (mem_mergeCandidate_merged hne).mp hm'
    exact ⟨m, hm, followed_id m, followed_status m, followed_sourceSeriesId m⟩

/-- A split touches no row of the queue. -/
theorem carries_commitSplit {rules : TextRules} {plan : SplitPlan} {newWorkId : Id}
    {actor : Option Id} {outcome : SplitOutcome} {db db' : Db}
    (h : commitSplit rules plan newWorkId actor db = .ok (outcome, db')) :
    Carries db db' where
  series ss hss := by
    refine ⟨_, (mem_sourceSeries_commitSplit h).mpr ⟨ss, hss, rfl⟩, ?_⟩
    split <;> rfl
  confirmed m hm hconfirmed := by
    obtain ⟨-, row, work, lang, -, -, -, rfl⟩ := commitSplit_ok h
    exact ⟨m, hm, rfl, hconfirmed⟩
  origin m hm := by
    obtain ⟨-, row, work, lang, -, -, -, rfl⟩ := commitSplit_ok h
    exact ⟨m, hm, rfl, rfl, rfl⟩

/-- The steps of other callers keep what a call relies on. -/
theorem carries_traffic (rules : Rules) (s : CatalogState) (t : Traffic) :
    Carries s.db (s.step rules t.op).db := by
  unfold CatalogState.step
  split
  · cases t with
    | merge source target expected =>
        refine commit_cases (P := Carries s.db) (.refl s.db) fun outcome db' hok => ?_
        obtain ⟨hne, -, -, -, rfl⟩ := merge_ok hok
        exact carries_merged _ hne s.db
    | planSplit => exact .refl s.db
    | commitSplit i newWorkId actor =>
        exact write_commitSplit_cases (P := Carries s.db) (.refl s.db)
          fun plan outcome db' _ hok => carries_commitSplit hok
  · exact .refl s.db

/-! ## The invariant -/

/-- What holds between the statements of the calls. -/
structure Consistent (requests : List Request) (s : ResolveState) : Prop where
  /-- `source_series_id REFERENCES source_series`. -/
  series : ∀ m ∈ s.catalog.db.mergeCandidate,
    ∃ ss ∈ s.catalog.db.sourceSeries, ss.id = m.sourceSeriesId
  read : ∀ i row, (s.phase i).row = some row →
    ∃ ss ∈ s.catalog.db.sourceSeries, ss.id = row.sourceSeriesId
  /-- A row that a call has taken is not pending. -/
  taken : ∀ i req, requests[i]? = some req → (s.phase i).Taken →
    ∀ m ∈ s.catalog.db.mergeCandidate, m.id = req.id → m.status ≠ .pending
  held : ∀ i req, requests[i]? = some req → (s.phase i).Holds → req.accept = true ∧
    ∃ m ∈ s.catalog.db.mergeCandidate, m.id = req.id ∧ m.status = .confirmed
  /-- No two calls have taken one row. -/
  apart : ∀ i j req req', i ≠ j → requests[i]? = some req → requests[j]? = some req' →
    (s.phase i).Taken → (s.phase j).Taken → req.id ≠ req'.id

section Invariant

variable {rules : Rules} {requests : List Request} {s : ResolveState} {i : Nat}
  {req : Request}

theorem Consistent.resolvedOnce (h : Consistent requests s) :
    ResolvedOnce requests s :=
  fun i j req req' hne hreq hreq' hi hj =>
    h.apart i j req req' hne hreq hreq' (.inr hi) (.inr hj)

/-- The catalogue changes, and no call. -/
theorem Consistent.carries (h : Consistent requests s) {s' : ResolveState}
    (hphase : s'.phase = s.phase) (hc : Carries s.catalog.db s'.catalog.db) :
    Consistent requests s' := by
  have hthere : ∀ id, (∃ ss ∈ s.catalog.db.sourceSeries, ss.id = id) →
      ∃ ss ∈ s'.catalog.db.sourceSeries, ss.id = id := by
    rintro id ⟨ss, hss, rfl⟩
    exact hc.series ss hss
  constructor
  · intro m' hm'
    obtain ⟨m, hm, -, -, hseries⟩ := hc.origin m' hm'
    exact hseries ▸ hthere _ (h.series m hm)
  · intro i row hrow
    exact hthere _ (h.read i row (hphase ▸ hrow))
  · intro i req hreq htaken m' hm' hid
    obtain ⟨m, hm, hmid, hstatus, -⟩ := hc.origin m' hm'
    rw [hstatus]
    exact h.taken i req hreq (hphase ▸ htaken) m hm (hmid.symm.trans hid)
  · intro i req hreq hholds
    obtain ⟨haccept, m, hm, hid, hconfirmed⟩ := h.held i req hreq (hphase ▸ hholds)
    obtain ⟨m', hm', hid', hconfirmed'⟩ := hc.confirmed m hm hconfirmed
    exact ⟨haccept, m', hm', hid'.trans hid, hconfirmed'⟩
  · intro i j req req' hne hreq hreq' hi hj
    exact h.apart i j req req' hne hreq hreq' (hphase ▸ hi) (hphase ▸ hj)

/-- A call goes on, and the catalogue does not change. -/
theorem Consistent.setPhase (h : Consistent requests s) (i : Nat) {p : Phase}
    (hrow : ∀ row, p.row = some row →
      ∃ ss ∈ s.catalog.db.sourceSeries, ss.id = row.sourceSeriesId)
    (htaken : p.Taken → (s.phase i).Taken) (hholds : p.Holds → (s.phase i).Holds) :
    Consistent requests (s.setPhase i p) := by
  have hcase : ∀ (P : Phase → Prop), (P p → P (s.phase i)) →
      ∀ j, P ((s.setPhase i p).phase j) → P (s.phase j) := by
    intro P hP j hj
    by_cases hji : j = i
    · subst hji
      rw [setPhase_phase_self] at hj
      exact hP hj
    · rwa [setPhase_phase_ne hji] at hj
  constructor
  · exact h.series
  · intro j row hj
    by_cases hji : j = i
    · subst hji
      rw [setPhase_phase_self] at hj
      exact hrow row hj
    · rw [setPhase_phase_ne hji] at hj
      exact h.read j row hj
  · intro j req hreq hj
    exact h.taken j req hreq (hcase Phase.Taken htaken j hj)
  · intro j req hreq hj
    exact h.held j req hreq (hcase Phase.Holds hholds j hj)
  · intro j k req req' hne hreq hreq' hj hk
    exact h.apart j k req req' hne hreq hreq' (hcase _ htaken j hj) (hcase _ htaken k hk)

/-- A row that the call does not set is as before. -/
theorem mem_withStatus_of_ne {q : MergeCandidate → Bool} {status : CandidateStatus}
    {t t' : Table MergeCandidate} {id : Id} {m : MergeCandidate}
    (ht : ∀ m, m ∈ t' ↔ ∃ old ∈ t, m = if q old then withStatus status old else old)
    (hq : ∀ m, q m = true → m.id = id) (hne : m.id ≠ id) : m ∈ t' ↔ m ∈ t := by
  rw [ht]
  constructor
  · rintro ⟨old, hold, rfl⟩
    split at hne
    · next hqold => exact absurd (hq old hqold) hne
    · next hqold =>
        rw [if_neg hqold]
        exact hold
  · intro hm
    exact ⟨m, hm, (if_neg fun hqm => hne (hq m hqm)).symm⟩

/-- A call sets the status of its row, which no other call has taken. -/
theorem Consistent.setStatus (h : Consistent requests s)
    (hreq : requests[i]? = some req) {q : MergeCandidate → Bool}
    {status : CandidateStatus} {at' : Option String} {t : Table MergeCandidate} {p : Phase}
    (ht : ∀ m, m ∈ t ↔ ∃ old ∈ s.catalog.db.mergeCandidate,
      m = if q old then withStatus status old else old)
    (hq : ∀ m, q m = true → m.id = req.id)
    (hfree : ∀ j req', j ≠ i → requests[j]? = some req' → (s.phase j).Taken →
      req'.id ≠ req.id)
    (hrow : ∀ row, p.row = some row →
      ∃ ss ∈ s.catalog.db.sourceSeries, ss.id = row.sourceSeriesId)
    (htaken : p.Taken → ∀ m ∈ t, m.id = req.id → m.status ≠ .pending)
    (hheld : p.Holds → req.accept = true ∧
      ∃ m ∈ t, m.id = req.id ∧ m.status = .confirmed) :
    Consistent requests ((s.setQueue t req.id at').setPhase i p) := by
  have hother : ∀ {id}, id ≠ req.id → ∀ m, m.id = id →
      (m ∈ t ↔ m ∈ s.catalog.db.mergeCandidate) :=
    fun hne m hid => mem_withStatus_of_ne ht hq (hid ▸ hne)
  constructor
  · intro m hm
    obtain ⟨old, hold, rfl⟩ := (ht m).mp hm
    have hsame : (if q old then withStatus status old else old).sourceSeriesId =
        old.sourceSeriesId := by
      split <;> rfl
    rw [hsame]
    exact h.series old hold
  · intro j row hj
    by_cases hji : j = i
    · subst hji
      rw [setPhase_phase_self] at hj
      exact hrow row hj
    · rw [setPhase_phase_ne hji] at hj
      exact h.read j row hj
  · intro j req' hreq' hj m hm hid
    by_cases hji : j = i
    · subst hji
      rw [setPhase_phase_self] at hj
      rw [hreq, Option.some.injEq] at hreq'
      exact htaken hj m hm (hreq' ▸ hid)
    · rw [setPhase_phase_ne hji] at hj
      have hne := hfree j req' hji hreq' hj
      exact h.taken j req' hreq' hj m ((hother hne m hid).mp hm) hid
  · intro j req' hreq' hj
    by_cases hji : j = i
    · subst hji
      rw [setPhase_phase_self] at hj
      rw [hreq, Option.some.injEq] at hreq'
      exact hreq' ▸ hheld hj
    · rw [setPhase_phase_ne hji] at hj
      have hne := hfree j req' hji hreq' (.inl hj)
      obtain ⟨haccept, m, hm, hid, hconfirmed⟩ := h.held j req' hreq' hj
      exact ⟨haccept, m, (hother hne m hid).mpr hm, hid, hconfirmed⟩
  · intro j k req₁ req₂ hne hreq₁ hreq₂ hj hk
    by_cases hji : j = i
    · subst hji
      rw [hreq, Option.some.injEq] at hreq₁
      rw [setPhase_phase_ne hne.symm] at hk
      exact hreq₁ ▸ (hfree k req₂ hne.symm hreq₂ hk).symm
    · rw [setPhase_phase_ne hji] at hj
      by_cases hki : k = i
      · subst hki
        rw [hreq, Option.some.injEq] at hreq₂
        exact hreq₂ ▸ hfree j req₁ hji hreq₁ hj
      · rw [setPhase_phase_ne hki] at hk
        exact h.apart j k req₁ req₂ hne hreq₁ hreq₂ hj hk

end Invariant

/-! ## One step

The statements of a call in their order. -/

section Steps

variable {rules : Rules} {requests : List Request} {s : ResolveState} {i : Nat}
  {req : Request}

/-- A step that changes no row. -/
theorem callStep_setPhase {p : Phase} (hfailed : p = .returned false → ¬(s.phase i).Holds)
    (haccepted : (s.phase i).Active → p = .returned true → req.accept = true →
      ∃ row, (s.phase i).folds = some row ∧
        SeriesOn s.catalog.db row.sourceSeriesId row.candidateWorkId) :
    CallStep req i s (s.setPhase i p) where
  quiet _ := .refl rfl rfl
  failed _ hp hholds := by
    rw [setPhase_phase_self] at hp
    exact absurd hholds (hfailed hp)
  refused _ _ := ⟨rfl, rfl⟩
  accepted hactive hp haccept := by
    rw [setPhase_phase_self] at hp
    exact haccepted hactive hp haccept

/-- A call that returned an error has taken nothing. -/
theorem not_taken_returned_false : ¬(Phase.returned false).Taken := by
  rintro (h | h)
  · exact h
  · contradiction

/-- The row has been read. -/
theorem readRow_cases (req : Request) (db : Db) : readRow req db = .returned false ∨
    ∃ row ∈ db.mergeCandidate, readRow req db = .read row := by
  unfold readRow
  split
  · exact .inl rfl
  · next row hrow =>
      split
      · exact .inr ⟨row, List.mem_of_find?_eq_some hrow, rfl⟩
      · exact .inl rfl

/-- The first statement reads the row, and returns if it is closed. -/
theorem step_reading (h : Consistent requests s) (hphase : s.phase i = .reading) :
    Consistent requests (s.setPhase i (readRow req s.catalog.db)) ∧
      CallStep req i s (s.setPhase i (readRow req s.catalog.db)) := by
  have hholds : ¬(s.phase i).Holds := by
    rw [hphase]
    exact id
  rcases readRow_cases req s.catalog.db with hread | ⟨row, hrow, hread⟩
  · rw [hread]
    constructor
    · exact h.setPhase i (fun _ hrow => by cases hrow)
        (fun ht => absurd ht not_taken_returned_false) fun hh => hh.elim
    · exact callStep_setPhase (fun _ => hholds) fun _ hp => by cases hp
  · rw [hread]
    constructor
    · refine h.setPhase i (fun row' hrow' => ?_) (fun ht => ?_) fun hh => hh.elim
      · cases hrow'
        exact h.series row hrow
      · rcases ht with hh | hh
        · exact hh.elim
        · contradiction
    · exact callStep_setPhase (fun hp => by cases hp) fun _ hp => by cases hp

/-- The claim. -/
theorem step_read (h : Consistent requests s) (hreq : requests[i]? = some req)
    {row : MergeCandidate} (hphase : s.phase i = .read row) (now : String)
    (hany : s.catalog.db.mergeCandidate.rows.any (claimable req.id) = true) :
    let s' := (s.setQueue (claim (if req.accept then .confirmed else .rejected) req.id
      s.catalog.db.mergeCandidate) req.id (some now)).setPhase i
        (if req.accept then .claimed row else .returned true)
    Consistent requests s' ∧ CallStep req i s s' := by
  intro s'
  obtain ⟨m₀, hm₀, hclaimable⟩ := List.any_eq_true.mp hany
  have hkey : m₀.id = req.id ∧ m₀.status = .pending := by
    simpa [claimable] using hclaimable
  have hfree : ∀ j req', j ≠ i → requests[j]? = some req' → (s.phase j).Taken →
      req'.id ≠ req.id := by
    intro j req' _ hreq' htaken hid
    exact h.taken j req' hreq' htaken m₀ hm₀ (hkey.1.trans hid.symm) hkey.2
  have hclaim : ∀ m, m ∈ claim (if req.accept then .confirmed else .rejected) req.id
      s.catalog.db.mergeCandidate ↔ ∃ old ∈ s.catalog.db.mergeCandidate,
        m = if claimable req.id old then
          withStatus (if req.accept then .confirmed else .rejected) old else old :=
    fun m => mem_claim
  have hid : ∀ m, claimable req.id m = true → m.id = req.id := by
    intro m hm
    simp only [claimable, Bool.and_eq_true, decide_eq_true_eq] at hm
    exact hm.1
  have hholds : ¬(s.phase i).Holds := by
    rw [hphase]
    exact id
  constructor
  · refine h.setStatus hreq hclaim hid hfree (fun row' hrow' => ?_) ?_ ?_
    · apply h.read i row'
      rw [hphase]
      split at hrow'
      · exact hrow'
      · cases hrow'
    · intro _ m hm hmid
      obtain ⟨old, hold, rfl⟩ := (hclaim m).mp hm
      split
      · show (if req.accept then CandidateStatus.confirmed else .rejected) ≠ .pending
        split <;> exact fun heq => by cases heq
      · next hnot =>
          intro hpending
          rw [if_neg hnot] at hmid
          exact hnot (by simp [claimable, hmid, hpending])
    · intro hp
      by_cases haccept : req.accept = true
      · refine ⟨haccept, _, (hclaim _).mpr ⟨m₀, hm₀, rfl⟩, ?_⟩
        rw [if_pos hclaimable, if_pos haccept]
        exact ⟨hkey.1, rfl⟩
      · rw [if_neg haccept] at hp
        exact hp.elim
  · constructor
    · intro _
      exact (onlyStatus_setQueue hclaim hid).setPhase
    · exact fun _ _ hh => absurd hh hholds
    · intro hp _
      rw [setPhase_phase_self] at hp
      split at hp <;> cases hp
    · intro _ hp haccept
      rw [setPhase_phase_self, if_pos haccept] at hp
      cases hp

/-- One work leads to one work. -/
theorem follow_congr {db : Db} {v w : Id} (h : v = w) : follow db v = follow db w := by
  rw [h]

/-- The lookup. -/
theorem step_claimed (h : Consistent requests s) {row : MergeCandidate}
    (hphase : s.phase i = .claimed row) :
    Consistent requests (s.setPhase i (lookUp row s.catalog.db)) ∧
      CallStep req i s (s.setPhase i (lookUp row s.catalog.db)) := by
  have hread : ∃ ss ∈ s.catalog.db.sourceSeries, ss.id = row.sourceSeriesId := by
    apply h.read i row
    rw [hphase]
    rfl
  have hholds : (s.phase i).Holds := by
    rw [hphase]
    trivial
  unfold lookUp
  split
  · next hnone =>
      obtain ⟨ss, hss, hid⟩ := hread
      exact absurd (decide_eq_true hid) (List.find?_eq_none.mp hnone ss hss)
  · next ss hfind =>
      have hss := List.mem_of_find?_eq_some hfind
      have hid : ss.id = row.sourceSeriesId := by
        simpa using List.find?_some hfind
      split
      · next hwork =>
          constructor
          · exact h.setPhase i (fun _ hrow => by cases hrow) (fun _ => .inl hholds)
              fun hh => hh.elim
          · refine callStep_setPhase (fun hp => by cases hp) fun _ _ _ => ?_
            exact ⟨row, by rw [hphase]; rfl, ss, hss, hid, follow_congr hwork⟩
      · constructor
        · refine h.setPhase i (fun row' hrow' => ?_) (fun _ => .inl hholds) fun _ => hholds
          cases hrow'
          exact hread
        · exact callStep_setPhase (fun hp => by cases hp) fun _ hp => by cases hp

/-- The fold, when it succeeds. -/
theorem step_lookedUp (h : Consistent requests s) (hreq : requests[i]? = some req)
    {row : MergeCandidate} {old : Id} (hphase : s.phase i = .lookedUp row old)
    {outcome : MergeOutcome} {db : Db}
    (hok : mergeWorksChecked rules.toTextRules old row.candidateWorkId none
      s.catalog.db = .ok (outcome, db))
    (hstill : ∀ ss ∈ s.catalog.db.sourceSeries, ss.id = row.sourceSeriesId →
      ss.workId = old ∨ ss.workId = row.candidateWorkId) :
    Consistent requests ((s.setDb db).setPhase i (.returned true)) ∧
      CallStep req i s ((s.setDb db).setPhase i (.returned true)) := by
  obtain ⟨hne, -, -, -, rfl⟩ := merge_ok hok
  have hholds : (s.phase i).Holds := by
    rw [hphase]
    trivial
  have hrow : (s.phase i).row = some row := by
    rw [hphase]
    rfl
  constructor
  · have hcarries : Consistent requests (s.setDb (merged rules.toTextRules old
        row.candidateWorkId s.catalog.db)) := h.carries rfl (carries_merged _ hne _)
    exact hcarries.setPhase i (fun _ hrow => by cases hrow) (fun _ => .inl hholds)
      fun hh => hh.elim
  · constructor
    · rintro (hp | haccept)
      · exact absurd setPhase_phase_self hp
      · rw [(h.held i req hreq hholds).1] at haccept
        contradiction
    · intro _ hp
      rw [setPhase_phase_self] at hp
      cases hp
    · exact fun _ hnot => absurd hholds hnot
    · intro _ _ _
      refine ⟨row, by rw [hphase]; rfl, ?_⟩
      obtain ⟨ss, hss, hid⟩ := h.read i row hrow
      refine ⟨if onWork old ss then move row.candidateWorkId ss else ss,
        (mem_sourceSeries_merged hne).mpr ⟨ss, hss, rfl⟩, ?_, follow_congr ?_⟩
      · split <;> exact hid
      · rw [workId_moved]
        rcases hstill ss hss hid with hwork | hwork
        · exact if_pos hwork
        · rw [if_neg fun heq => hne (heq.symm.trans hwork)]
          exact hwork

/-- The claim is taken back. -/
theorem step_undoing (h : Consistent requests s) (hreq : requests[i]? = some req)
    {row : MergeCandidate} (hphase : s.phase i = .undoing row) :
    let s' := (s.setQueue (reopen req.id s.catalog.db.mergeCandidate) req.id none).setPhase
      i (.returned false)
    Consistent requests s' ∧ CallStep req i s s' := by
  intro s'
  have hholds : (s.phase i).Holds := by
    rw [hphase]
    trivial
  have hreopen : ∀ m, m ∈ reopen req.id s.catalog.db.mergeCandidate ↔
      ∃ old ∈ s.catalog.db.mergeCandidate,
        m = if decide (old.id = req.id) then withStatus .pending old else old := by
    intro m
    rw [mem_reopen]
    simp only [decide_eq_true_eq]
  have hfree : ∀ j req', j ≠ i → requests[j]? = some req' → (s.phase j).Taken →
      req'.id ≠ req.id := fun j req' hne hreq' htaken =>
    h.apart j i req' req hne hreq' hreq htaken (.inl hholds)
  constructor
  · exact h.setStatus hreq hreopen (fun m hm => of_decide_eq_true hm) hfree
      (fun _ hrow => by cases hrow) (fun ht => absurd ht not_taken_returned_false)
      fun hh => hh.elim
  · constructor
    · intro _
      exact (onlyStatus_setQueue hreopen fun m hm => of_decide_eq_true hm).setPhase
    · intro _ _ _
      obtain ⟨-, m, hm, hid, -⟩ := h.held i req hreq hholds
      refine ⟨withStatus .pending m, (hreopen _).mpr ⟨m, hm, ?_⟩, hid, rfl⟩
      rw [if_pos (decide_eq_true hid)]
    · exact fun _ hnot => absurd hholds hnot
    · intro _ hp
      rw [setPhase_phase_self] at hp
      cases hp

/-- A step of a call that returned before. -/
theorem callStep_returned {ok : Bool} (hphase : s.phase i = .returned ok) :
    CallStep req i s s where
  quiet _ := .refl rfl rfl
  failed hactive := absurd hphase (hactive ok)
  refused _ _ := ⟨rfl, rfl⟩
  accepted hactive := absurd hphase (hactive ok)

/-- A statement of a call that does not fail. -/
theorem step_advance (rules : Rules) (h : Consistent requests s)
    (hreq : requests[i]? = some req) (now : String)
    (hstill : ∀ row old, s.phase i = .lookedUp row old →
      s.catalog.db.hasWork old = true → s.catalog.db.hasWork row.candidateWorkId = true →
      ∀ ss ∈ s.catalog.db.sourceSeries, ss.id = row.sourceSeriesId →
        ss.workId = old ∨ ss.workId = row.candidateWorkId) :
    Consistent requests (s.advance rules req now i) ∧
      CallStep req i s (s.advance rules req now i) := by
  unfold ResolveState.advance
  split
  · next hphase => exact step_reading h hphase
  · next row hphase =>
      split
      · next hany => exact step_read h hreq hphase now hany
      · constructor
        · exact h.setPhase i (fun _ hrow => by cases hrow)
            (fun ht => absurd ht not_taken_returned_false) fun hh => hh.elim
        · refine callStep_setPhase (fun _ hh => ?_) fun _ hp => by cases hp
          rw [hphase] at hh
          exact hh
  · next row hphase => exact step_claimed h hphase
  · next row old hphase =>
      split
      · next outcome db hok =>
          obtain ⟨-, hold, hcandidate, -, -⟩ := merge_ok hok
          exact step_lookedUp h hreq hphase hok (hstill row old hphase hold hcandidate)
      · have hholds : (s.phase i).Holds := by
          rw [hphase]
          trivial
        constructor
        · exact h.setPhase i (fun _ hrow => by cases hrow) (fun _ => .inl hholds)
            fun _ => hholds
        · exact callStep_setPhase (fun hp => by cases hp) fun _ hp => by cases hp
  · next row hphase => exact step_undoing h hreq hphase
  · next ok hphase => exact ⟨h, callStep_returned hphase⟩

/-- A statement that fails, neither a lookup nor an attempt to take back. -/
theorem callStep_fail (hclaimed : ∀ row, s.phase i ≠ .claimed row)
    (hundoing : ∀ row, s.phase i ≠ .undoing row) :
    CallStep req i s (s.setPhase i (s.phase i).failed) := by
  have hreturns : ∀ {p}, s.phase i = p → p.failed = .returned false → ¬p.Holds →
      CallStep req i s (s.setPhase i p.failed) := by
    intro p hphase hfailed hholds
    rw [hfailed]
    refine callStep_setPhase (fun _ hh => ?_) fun _ hp => by cases hp
    rw [hphase] at hh
    exact hholds hh
  cases hphase : s.phase i with
  | reading => exact hreturns hphase rfl id
  | read row => exact hreturns hphase rfl id
  | claimed row => exact absurd hphase (hclaimed row)
  | lookedUp row old => exact callStep_setPhase (fun hp => by cases hp) fun _ hp => by cases hp
  | undoing row => exact absurd hphase (hundoing row)
  | returned ok =>
      refine callStep_setPhase (fun _ hh => ?_) fun hactive => ?_
      · rw [hphase] at hh
        exact hh
      · exact absurd hphase (hactive ok)

end Steps

/-! ## Runs -/

section Runs

variable {rules : Rules} {requests : List Request} {s : ResolveState}

/-- The invariant holds whatever fails. -/
theorem consistent_fail (h : Consistent requests s) (i : Nat) :
    Consistent requests (s.setPhase i (s.phase i).failed) := by
  cases hphase : s.phase i with
  | lookedUp row old =>
      have hholds : (s.phase i).Holds := by
        rw [hphase]
        trivial
      exact h.setPhase i (fun _ hrow => by cases hrow) (fun _ => .inl hholds)
        fun _ => hholds
  | returned ok =>
      refine h.setPhase i (fun _ hrow => by cases hrow) (fun ht => ?_) fun hh => hh.elim
      rwa [hphase]
  | reading | read | claimed | undoing =>
      exact h.setPhase i (fun _ hrow => by cases hrow)
        (fun ht => absurd ht not_taken_returned_false) fun hh => hh.elim

/-- A step that is undisturbed keeps the invariant, and is all or nothing. -/
theorem consistent_step (rules : Rules) (h : Consistent requests s)
    {e : ResolveEvent} (hquiet : Undisturbed s e) :
    Consistent requests (s.step rules requests e) ∧
      ∀ i req, (e = .fail i ∨ ∃ now, e = .call i now) → requests[i]? = some req →
        CallStep req i s (s.step rules requests e) := by
  cases e with
  | traffic t =>
      refine ⟨h.carries rfl (carries_traffic rules s.catalog t), ?_⟩
      rintro i req (he | ⟨now, he⟩) <;> cases he
  | call i now =>
      cases hreq : requests[i]? with
      | none =>
          have hstep : s.step rules requests (.call i now) = s := by
            simp only [ResolveState.step, hreq]
          rw [hstep]
          refine ⟨h, ?_⟩
          rintro j req (he | ⟨now', he⟩) hreq'
          · cases he
          · cases he
            rw [hreq] at hreq'
            contradiction
      | some req =>
          have hstep : s.step rules requests (.call i now) =
              s.advance rules req now i := by
            simp only [ResolveState.step, hreq]
          rw [hstep]
          obtain ⟨hconsistent, hcall⟩ := step_advance rules h hreq now hquiet
          refine ⟨hconsistent, ?_⟩
          rintro j req' (he | ⟨now', he⟩) hreq'
          · cases he
          · cases he
            rw [hreq, Option.some.injEq] at hreq'
            exact hreq' ▸ hcall
  | fail i =>
      refine ⟨consistent_fail h i, ?_⟩
      rintro j req (he | ⟨now, he⟩) hreq
      · cases he
        exact callStep_fail hquiet.1 hquiet.2
      · cases he

/-- Before any call, the foreign key is all that is needed. -/
theorem consistent_start {catalog : CatalogState} {resolvedAt : Id → Option String}
    (hseries : ∀ m ∈ catalog.db.mergeCandidate,
      ∃ ss ∈ catalog.db.sourceSeries, ss.id = m.sourceSeriesId) :
    Consistent requests (.start catalog resolvedAt) where
  series := hseries
  read _ _ hrow := by cases hrow
  taken _ _ _ ht := by
    rcases ht with hh | hh
    · exact hh.elim
    · cases hh
  held _ _ _ hh := hh.elim
  apart _ _ _ _ _ _ _ ht := by
    rcases ht with hh | hh
    · exact hh.elim
    · cases hh

/-- **All or nothing.**  Over any interleaving of calls with merges and splits,
and whatever fails: if no lookup of a claimed row fails, no attempt to take a
claim back fails, and no series leaves the work that was looked up before it is
folded, then every step is all or nothing. -/
theorem allOrNothing_run (rules : Rules) (requests : List Request)
    (catalog : CatalogState) (resolvedAt : Id → Option String)
    (hseries : ∀ m ∈ catalog.db.mergeCandidate,
      ∃ ss ∈ catalog.db.sourceSeries, ss.id = m.sourceSeriesId)
    (events : List ResolveEvent)
    (hquiet : Machine.EachStep (ResolveState.step rules requests) Undisturbed
      (.start catalog resolvedAt) events) :
    Machine.EachStep (ResolveState.step rules requests) (AllOrNothing rules requests)
      (.start catalog resolvedAt) events := by
  refine Machine.EachStep.of_invariant (I := Consistent requests)
    (fun s e h hq => (consistent_step rules h hq).1) (fun s e h hq => ?_)
    (consistent_start hseries) hquiet
  obtain ⟨hconsistent, hcall⟩ := consistent_step rules h hq
  exact ⟨hconsistent.resolvedOnce, hcall⟩

/-! ## A lookup that fails

The error is passed on after the claim has been committed. -/

/-- The work `c`, with the series `s`, is proposed for `a`. -/
def proposed : CatalogState :=
  ⟨{ threeWorks with
      mergeCandidate := ⟨[⟨"mc1", "s", "a", .pending⟩], List.pairwise_singleton _ _⟩ },
    [], []⟩

/-- The admin accepts, the claim is committed, and the lookup fails. -/
def lookupFails : List ResolveEvent := [.call 0 "t", .call 0 "t", .fail 0]

/-- The call returns an error, and its row stays confirmed. -/
theorem not_allOrNothing_lookupFails :
    ¬Machine.EachStep (ResolveState.step plainRules [⟨"mc1", true⟩])
      (AllOrNothing plainRules [⟨"mc1", true⟩]) (.start proposed fun _ => none)
      lookupFails := by
  intro h
  simp only [lookupFails, Machine.eachStep_cons] at h
  obtain ⟨-, -, hlast, -⟩ := h
  have hstep := hlast.call 0 ⟨"mc1", true⟩ (.inl rfl) rfl
  obtain ⟨m, hm, -, hpending⟩ := hstep.failed (fun ok hok => by cases hok) rfl trivial
  have hall : ∀ m ∈ (Machine.run (ResolveState.step plainRules [⟨"mc1", true⟩])
      (.start proposed fun _ => none) lookupFails).catalog.db.mergeCandidate.rows,
      m.status ≠ .pending := by decide
  exact hall m (Table.mem_rows.mpr hm) hpending

/-- The admin accepts, and nothing else happens. -/
def plainAccept : List ResolveEvent :=
  [.call 0 "t", .call 0 "t", .call 0 "t", .call 0 "t"]

/-- One call by itself is all or nothing. -/
theorem allOrNothing_run_plainAccept :
    Machine.EachStep (ResolveState.step plainRules [⟨"mc1", true⟩])
      (AllOrNothing plainRules [⟨"mc1", true⟩]) (.start proposed fun _ => none)
      plainAccept := by
  refine allOrNothing_run plainRules [⟨"mc1", true⟩] proposed (fun _ => none) ?_
    plainAccept ?_
  · intro m hm
    exact (show ∀ m ∈ proposed.db.mergeCandidate.rows,
      ∃ ss ∈ proposed.db.sourceSeries.rows, ss.id = m.sourceSeriesId by decide) m
        (Table.mem_rows.mpr hm)
  · simp only [plainAccept, Machine.eachStep_cons, Machine.eachStep_nil, and_true]
    refine ⟨?_, ?_, ?_, ?_⟩
    iterate 3 exact fun _ _ h => by cases h
    intro row old h _ _ ss hss _
    have hold : old = "c" := by
      have heq : Phase.lookedUp ⟨"mc1", "s", "a", .pending⟩ "c" = .lookedUp row old := h
      injection heq with _ hold
      exact hold.symm
    have hall : ∀ ss ∈ proposed.db.sourceSeries.rows, ss.workId = "c" := by decide
    exact .inl (hold ▸ hall ss (Table.mem_rows.mpr hss))

end Runs

end Komika.Catalog.Resolutions
