import Komika.Mangadex.Pages
import Komika.Lib.Machine

/-!
# The gap backfill

`run_backfill_pass` and `backfill_missing_catalogue` (`mangadex.rs`) walk the
whole catalogue by `createdAt`, pass after pass, and write the records that
have no row.  The cursor is stored after every page and survives the process;
the counters of what was lost live as long as the pass.  A pass that reaches
the end without a loss sets the completion flag.

As long as the stored cursor is never ahead of a record without a row when
the counters are forgotten, the flag is set over the whole upstream only
(`flag_only_over_whole_upstream`).  A pass that has lost a record rewinds the
cursor when it is over, but not when it fails or the process stops, and a
window that steps over a second early counts nothing.

The invariant speaks of the rows that are there: how far the listing has landed up to
the stored cursor, and up to the window of the pass that is running.

* `Running.processed`, `Running.completed` — a page, and the end of the listing;
* `Invariant.page`, `Invariant.slide`, `Invariant.pageError`, `Invariant.finish` — the
  steps of a pass;
* `invariant_step` — any step that leaves nothing behind the cursor;
* `flag_only_over_whole_upstream` — every run;
* `not_flag_only_over_whole_upstream` — a loss that a restart forgets.
-/

namespace Komika.Mangadex.Backfill

open Komika.Lib Komika.Mangadex.Pages

/-- `PAGE_ERROR_RETRIES`, of a page that fails, before the run ends. -/
def pageErrorRetries : Nat := 2

/-! ## Records

What becomes of a record, and which of it is a loss. -/

/-- What becomes of a record of a page. -/
inductive RecordFate where
  /-- It does not parse. -/
  | dropped
  /-- The presence check fails. -/
  | checkFailed
  /-- It has a row, and upstream sent no tags. -/
  | kept
  | tagged
  /-- It has a row, and `refresh_source_tags` fails. -/
  | tagFailed
  | ingested
  /-- `upsert_work_from_mangadex` fails. -/
  | writeFailed
deriving DecidableEq, Repr

/-- What fails on a page, record by record. -/
structure PageFailures (ρ : Type) where
  parses : ρ → Bool
  checks : ρ → Bool
  hasTags : ρ → Bool
  refreshes : ρ → Bool
  writes : ρ → Bool

/-- The body of the record loop of `backfill_missing_catalogue`. -/
def recordFate {ρ : Type} [DecidableEq ρ] (present : List ρ)
    (failures : PageFailures ρ) (r : ρ) : RecordFate :=
  if !failures.parses r then .dropped
  else if !failures.checks r then .checkFailed
  else if r ∈ present then
    if !failures.hasTags r then .kept
    else if failures.refreshes r then .tagged
    else .tagFailed
  else if failures.writes r then .ingested
  else .writeFailed

/-- `BackfillOutcome`: what a run has counted, and whether it came to the end. -/
structure BackfillOutcome where
  scanned : Nat
  ingested : Nat
  tagged : Nat
  failed : Nat
  complete : Bool
  truncated : Nat
  dropped : Nat
deriving DecidableEq, Repr

/-- The counters of a pass that begins. -/
def BackfillOutcome.default : BackfillOutcome := ⟨0, 0, 0, 0, false, 0, 0⟩

/-- `is_clean_completion`: to the end, with nothing failed, cut off or dropped. -/
def BackfillOutcome.isCleanCompletion (out : BackfillOutcome) : Bool :=
  out.complete && out.failed == 0 && out.truncated == 0 && out.dropped == 0

/-- `is_dirty`: something has failed, was cut off or dropped. -/
def BackfillOutcome.isDirty (out : BackfillOutcome) : Bool :=
  decide (0 < out.failed) || decide (0 < out.truncated) || decide (0 < out.dropped)

/-- One record more, under what became of it. -/
def BackfillOutcome.count (out : BackfillOutcome) : RecordFate → BackfillOutcome
  | .dropped => { out with dropped := out.dropped + 1 }
  | .checkFailed => { out with scanned := out.scanned + 1, failed := out.failed + 1 }
  | .kept => { out with scanned := out.scanned + 1 }
  | .tagged => { out with scanned := out.scanned + 1, tagged := out.tagged + 1 }
  | .tagFailed => { out with scanned := out.scanned + 1, failed := out.failed + 1 }
  | .ingested => { out with scanned := out.scanned + 1, ingested := out.ingested + 1 }
  | .writeFailed => { out with scanned := out.scanned + 1, failed := out.failed + 1 }

/-- The fates that leave a record as it is found, or write it. -/
def RecordFate.lands (fate : RecordFate) : Bool :=
  fate = .kept || fate = .tagged || fate = .ingested

theorem isDirty_eq_false {out : BackfillOutcome} :
    out.isDirty = false ↔ out.failed = 0 ∧ out.truncated = 0 ∧ out.dropped = 0 := by
  unfold BackfillOutcome.isDirty
  rw [Bool.or_eq_false_iff, Bool.or_eq_false_iff]
  simp only [decide_eq_false_iff_not]
  omega

theorem isCleanCompletion_iff {out : BackfillOutcome} :
    out.isCleanCompletion = true ↔ out.complete = true ∧ out.isDirty = false := by
  rw [isDirty_eq_false]
  simp only [BackfillOutcome.isCleanCompletion, Bool.and_eq_true, beq_iff_eq,
    and_assoc]

/-- A record that lands is no loss. -/
theorem isDirty_count (out : BackfillOutcome) (fate : RecordFate) :
    (out.count fate).isDirty = false ↔ out.isDirty = false ∧ fate.lands = true := by
  rw [isDirty_eq_false, isDirty_eq_false]
  cases fate <;> simp [BackfillOutcome.count, RecordFate.lands]

/-- A clean page has landed all of its records. -/
theorem isDirty_foldl_count {ρ : Type} (fate : ρ → RecordFate) (page : List ρ)
    (out : BackfillOutcome) :
    (page.foldl (fun out r => out.count (fate r)) out).isDirty = false ↔
      out.isDirty = false ∧ ∀ r ∈ page, (fate r).lands = true := by
  induction page generalizing out with
  | nil => simp
  | cons r page ih => rw [List.foldl_cons, ih, isDirty_count, List.forall_mem_cons, and_assoc]

theorem complete_foldl_count {ρ : Type} (fate : ρ → RecordFate) (page : List ρ)
    (out : BackfillOutcome) :
    (page.foldl (fun out r => out.count (fate r)) out).complete = out.complete := by
  induction page generalizing out with
  | nil => rfl
  | cons r page ih =>
      rw [List.foldl_cons, ih]
      cases fate r <;> rfl

/-- A record that lands has a row after its page. -/
theorem mem_of_lands {ρ : Type} [DecidableEq ρ] {present : List ρ}
    {failures : PageFailures ρ} {r : ρ}
    (h : (recordFate present failures r).lands = true) :
    r ∈ present ∨ recordFate present failures r = .ingested := by
  unfold recordFate at h ⊢
  by_cases hpresent : r ∈ present
  · exact .inl hpresent
  · right
    simp only [if_neg hpresent] at h ⊢
    split at h
    · contradiction
    · split at h
      · contradiction
      · split at h
        · simp_all
        · contradiction

/-! ## Passes

A pass as a state machine, from its start to its end. -/

/-- Where a pass is. -/
inductive Phase where
  | fetching
  /-- The window is over and the next one is to start. -/
  | sliding
  /-- `Ok(out)`. -/
  | ended
deriving DecidableEq, Repr

/-- A pass of `backfill_missing_catalogue`. -/
structure Pass where
  since : Option Int
  offset : Nat
  lastCreated : Option Int
  emptyRetries : Nat
  pageErrors : Nat
  /-- The budget was found to be spent. -/
  spent : Bool
  out : BackfillOutcome
  phase : Phase

/-- The rows, the stored cursor, the flag, and the pass that is running. -/
structure BackfillState (ρ : Type) where
  /-- The row `BACKFILL_JOB` of `catalogue_sync_state`. -/
  row : Option SyncState
  /-- The row `BACKFILL_FLAG` of `maintenance_flag`. -/
  flag : Bool
  /-- The records that have a `mangadex` row in `source_series`. -/
  present : List ρ
  pass : Option Pass

/-- Nothing is stored, whatever rows there are. -/
def BackfillState.initial {ρ : Type} (present : List ρ) : BackfillState ρ :=
  ⟨none, false, present, none⟩

/-- What happens to a pass; the process may stop at any time. -/
inductive BackfillEvent (ρ : Type) where
  /-- A pass begins; `readOk` if the stored cursor can be read. -/
  | start (readOk : Bool)
  /-- The API serves the first `len` records of what is left of the window. -/
  | page (len : Nat) (len_le : len ≤ pageLimit) (failures : PageFailures ρ)
      (saved budgetSpent : Bool)
  | pageError (tolerable : Bool)
  | slide (saved budgetSpent : Bool)
  /-- `run_backfill_pass` has the outcome; `stored` if its write succeeds. -/
  | finish (stored : Bool)
  /-- The process stops and starts again. -/
  | restart
  /-- Another writer adds a row. -/
  | ingest (r : ρ)

section Steps

variable {ρ : Type} [Stamped ρ] [DecidableEq ρ] (u : Upstream ρ)

/-- A pass resumes from the stored cursor, if it can read it. -/
def BackfillState.start (s : BackfillState ρ) (readOk : Bool) : BackfillState ρ :=
  let since := if readOk then s.row.map SyncState.cursor else none
  { s with pass := some ⟨since, 0, none, 0, 0, false, .default, .fetching⟩ }

/-- A checkpoint of the cursor, if it is written. -/
def checkpoint (saved : Bool) (last : Option Int) (row : Option SyncState) :
    Option SyncState :=
  match last with
  | some t => if saved then setSeedProgress t row else row
  | none => row

/-- A page with records. -/
def BackfillState.process (s : BackfillState ρ) (p : Pass) (page : List ρ)
    (total : Nat) (failures : PageFailures ρ) (saved budgetSpent : Bool) :
    BackfillState ρ :=
  let fate := recordFate s.present failures
  let last := lastMoved .created failures.parses page p.lastCreated
  let offset := nextOffset p.offset page.length
  let out := page.foldl (fun out r => out.count (fate r)) p.out
  let p := { p with
    offset := offset
    lastCreated := last
    emptyRetries := 0
    pageErrors := 0 }
  { s with
    row := checkpoint saved last s.row
    present := s.present ++ page.filter fun r => fate r = .ingested
    pass := some (
      if total ≤ offset then
        { p with out := { out with complete := true }, phase := .ended }
      else if windowOffsetCap ≤ offset then { p with out := out, phase := .sliding }
      else if budgetSpent then
        { p with out := out, phase := .sliding, spent := true }
      else { p with out := out }) }

/-- A page is processed, and its cursor stored. -/
def BackfillState.page (s : BackfillState ρ) (p : Pass) (len : Nat)
    (failures : PageFailures ρ) (saved budgetSpent : Bool) : BackfillState ρ :=
  let page := u.page .created p.since p.offset len
  let total := u.total .created p.since
  match classifyPage page.length p.offset total with
  | .endWindow =>
      { s with pass := some { p with
          pageErrors := 0, out := { p.out with complete := true }, phase := .ended } }
  | .retryEmpty =>
      if p.emptyRetries < emptyPageRetries then
        { s with pass := some { p with
            pageErrors := 0, emptyRetries := p.emptyRetries + 1 } }
      else
        { s with pass := some { p with
            pageErrors := 0
            out := { p.out with truncated := p.out.truncated + 1 }
            phase := .sliding } }
  | .process => s.process p page total failures saved budgetSpent

/-- A page that cannot be had. -/
def BackfillState.pageError (s : BackfillState ρ) (p : Pass) (tolerable : Bool) :
    BackfillState ρ :=
  if tolerable then
    if p.pageErrors < pageErrorRetries then
      { s with pass := some { p with pageErrors := p.pageErrors + 1 } }
    else { s with pass := some { p with phase := .sliding } }
  else { s with pass := none }

/-- The window moves on, or the pass is over. -/
def BackfillState.slide (s : BackfillState ρ) (p : Pass) (saved budgetSpent : Bool) :
    BackfillState ρ :=
  match nextSince p.since p.lastCreated with
  | none => { s with pass := some { p with phase := .ended } }
  | some t =>
      { s with
        row := checkpoint saved (some t) s.row
        pass := some { p with
          since := some t
          offset := 0
          lastCreated := none
          emptyRetries := 0
          pageErrors := 0
          phase := if p.spent || budgetSpent then .ended else .fetching } }

/-- `run_backfill_pass` after its pass. -/
def BackfillState.finish (s : BackfillState ρ) (p : Pass) (stored : Bool) :
    BackfillState ρ :=
  if p.out.isCleanCompletion then { s with flag := s.flag || stored, pass := none }
  else if p.out.isDirty && stored then { s with row := none, pass := none }
  else { s with pass := none }

/-- The pass that is running and in a phase. -/
def BackfillState.inPhase (s : BackfillState ρ) (phase : Phase) : Option Pass :=
  s.pass.filter fun p => p.phase = phase

/-- The state after an event. -/
def BackfillState.step (s : BackfillState ρ) : BackfillEvent ρ → BackfillState ρ
  | .start readOk => if s.pass.isNone && !s.flag then s.start readOk else s
  | .page len _ failures saved budgetSpent =>
      match s.inPhase .fetching with
      | some p => s.page u p len failures saved budgetSpent
      | none => s
  | .pageError tolerable =>
      match s.inPhase .fetching with
      | some p => s.pageError p tolerable
      | none => s
  | .slide saved budgetSpent =>
      match s.inPhase .sliding with
      | some p => s.slide p saved budgetSpent
      | none => s
  | .finish stored =>
      match s.inPhase .ended with
      | some p => s.finish p stored
      | none => s
  | .restart => { s with pass := none }
  | .ingest r => { s with present := r :: s.present }

end Steps

/-! ## What is past without a row

What a step must not leave in front of the cursor. -/

section Conditions

variable {ρ : Type} [Stamped ρ] [DecidableEq ρ] (u : BoundedUpstream ρ)
  (s : BackfillState ρ)

/-- If the pass has lost a record, every record before the stored cursor has
its row all the same. -/
def CursorKept : Prop :=
  ∀ p state, s.pass = some p → p.out.isDirty = true → s.row = some state →
    ∀ r ∈ u.listing .created, windowTs .created r < state.cursor → r ∈ s.present

/-- If a clean pass steps over the second that its window began at before the
offset cap, every record of the second has its row. -/
def SecondKept : Prop :=
  ∀ p t, s.inPhase .sliding = some p → p.out.isDirty = false →
    p.since = some t → p.lastCreated = some t → p.offset < windowOffsetCap →
    ∀ r ∈ u.listing .created, windowTs .created r = t → r ∈ s.present

/-- No step leaves a record without a row behind the cursor uncounted. -/
def LeavesNothing : BackfillEvent ρ → Prop
  | .restart => CursorKept u s
  | .pageError tolerable =>
      tolerable = false → (s.inPhase .fetching).isSome → CursorKept u s
  | .finish stored => stored = false → (s.inPhase .ended).isSome → CursorKept u s
  | .slide _ _ => SecondKept u s
  | _ => True

end Conditions

/-! ## How far the rows go

As positions in the listing by `createdAt`. -/

section Rows

variable {ρ : Type} [Stamped ρ] {u : BoundedUpstream ρ} {present : List ρ}
  {row : Option SyncState}

/-- The first `n` records of the listing have their rows. -/
def Landed (u : BoundedUpstream ρ) (present : List ρ) (n : Nat) : Prop :=
  ∀ r ∈ (u.listing .created).take n, r ∈ present

/-- So have the records that a pass from the stored cursor does not see. -/
def Resumable (u : BoundedUpstream ρ) (present : List ρ) (row : Option SyncState) :
    Prop :=
  Landed u present (u.before .created (row.map SyncState.cursor))

theorem Landed.of_le {m n : Nat} (h : Landed u present n) (hle : m ≤ n) :
    Landed u present m :=
  fun r hr => h r (List.take_subset_take_left _ hle hr)

theorem Landed.of_subset {present' : List ρ} {n : Nat} (h : Landed u present n)
    (hsub : ∀ r ∈ present, r ∈ present') : Landed u present' n :=
  fun r hr => hsub r (h r hr)

/-- The listing in front of a window. -/
theorem landed_before_iff {since : Option Int} :
    Landed u present (u.before .created since) ↔
      ∀ r ∈ u.listing .created,
        Windows.admits (windowTs .created) since r = false → r ∈ present := by
  constructor
  · intro h r hr hbefore
    exact h r ((Windows.mem_take_before (u.sorted .created)).mpr ⟨hr, hbefore⟩)
  · intro h r hr
    obtain ⟨hin, hbefore⟩ := (Windows.mem_take_before (u.sorted .created)).mp hr
    exact h r hin hbefore

/-- Nothing is stored, so the pass begins at the beginning. -/
theorem resumable_none : Resumable u present none := by
  intro r hr
  rw [Option.map_none, u.before_none, List.take_zero] at hr
  contradiction

/-- A cursor with no record without a row in front of it. -/
theorem resumable_of_kept (h : ∀ state, row = some state →
    ∀ r ∈ u.listing .created, windowTs .created r < state.cursor → r ∈ present) :
    Resumable u present row := by
  cases row with
  | none => exact resumable_none
  | some state =>
      apply landed_before_iff.mpr
      intro r hr hbefore
      exact h state rfl r hr (Windows.admits_some_eq_false.mp hbefore)

/-- Past a second all of whose records have their rows. -/
theorem landed_next_second {t : Int}
    (h : Landed u present (u.before .created (some t)))
    (hsecond : ∀ r ∈ u.listing .created, windowTs .created r = t → r ∈ present) :
    Landed u present (u.before .created (some (t + 1))) := by
  rw [landed_before_iff] at h ⊢
  intro r hr hbefore
  have hlt := Windows.admits_some_eq_false.mp hbefore
  rcases Int.lt_or_eq_of_le (Int.lt_add_one_iff.mp hlt) with hearlier | hsame
  · exact h r hr (Windows.admits_some_eq_false.mpr hearlier)
  · exact hsecond r hr hsame

/-- A checkpoint is as far as the rows go if its cursor is. -/
theorem resumable_checkpoint {saved : Bool} {last : Option Int}
    (hrow : Resumable u present row)
    (hlast : ∀ t, last = some t → Landed u present (u.before .created (some t))) :
    Resumable u present (checkpoint saved last row) := by
  unfold checkpoint
  split
  · next t =>
      split
      · exact hlast t rfl
      · exact hrow
  · exact hrow

end Rows

/-! ## A running pass

What it knows as long as it has lost nothing. -/

/-- A pass that has lost nothing has the rows of all that it has seen, the
stored cursor is not past them, and its own cursor is not either. -/
structure Running {ρ : Type} [Stamped ρ] (u : BoundedUpstream ρ) (present : List ρ)
    (row : Option SyncState) (p : Pass) : Prop where
  seen : p.out.isDirty = false →
    Landed u present (u.before .created p.since + p.offset)
  resumable : p.out.isDirty = false → Resumable u present row
  last : ∀ t, p.lastCreated = some t →
    u.before .created (some t) ≤ u.before .created p.since + p.offset
  complete : p.out.isDirty = false → p.out.complete = true →
    Landed u present (u.listing .created).length

/-- The rows go as far as whatever will be read next. -/
structure Invariant {ρ : Type} [Stamped ρ] (u : BoundedUpstream ρ)
    (s : BackfillState ρ) : Prop where
  flag : s.flag = true → Landed u s.present (u.listing .created).length
  idle : s.pass = none → Resumable u s.present s.row
  running : ∀ p, s.pass = some p → Running u s.present s.row p

/-- A pass that is in the phase. -/
theorem inPhase_eq_some {ρ : Type} {s : BackfillState ρ} {phase : Phase} {p : Pass}
    (h : s.inPhase phase = some p) : s.pass = some p ∧ p.phase = phase := by
  unfold BackfillState.inPhase at h
  obtain ⟨hpass, hphase⟩ := Option.filter_eq_some_iff.mp h
  exact ⟨hpass, of_decide_eq_true hphase⟩

section Passes

variable {ρ : Type} [Stamped ρ] {u : BoundedUpstream ρ} {s : BackfillState ρ}
  {p : Pass}

/-- More rows take nothing from a pass. -/
theorem Running.of_subset {present present' : List ρ} {row : Option SyncState}
    (h : Running u present row p) (hsub : ∀ r ∈ present, r ∈ present') :
    Running u present' row p where
  seen hclean := (h.seen hclean).of_subset hsub
  resumable hclean := (h.resumable hclean).of_subset hsub
  last := h.last
  complete hclean hcomplete := (h.complete hclean hcomplete).of_subset hsub

theorem invariant_initial (present : List ρ) : Invariant u (.initial present) where
  flag hflag := nomatch hflag
  idle _ := resumable_none
  running _ hp := nomatch hp

theorem Invariant.withPass (h : Invariant u s) (hrunning : Running u s.present s.row p) :
    Invariant u { s with pass := some p } where
  flag := h.flag
  idle hnone := nomatch hnone
  running _ hp' := Option.some.inj hp' ▸ hrunning

/-- The counters go, the cursor stays. -/
theorem Invariant.forget (h : Invariant u s)
    (hrow : Resumable u s.present s.row) : Invariant u { s with pass := none } where
  flag := h.flag
  idle _ := hrow
  running _ hp' := nomatch hp'

theorem Invariant.start (h : Invariant u s) (hidle : s.pass = none) (readOk : Bool) :
    Invariant u (s.start readOk) where
  flag := h.flag
  idle hnone := nomatch hnone
  running p hp := by
    rw [← Option.some.inj hp]
    refine ⟨fun _ => ?_, fun _ => h.idle hidle, (fun t ht => nomatch ht),
      fun _ hcomplete => nomatch hcomplete⟩
    cases readOk with
    | false => exact resumable_none
    | true => exact h.idle hidle

/-- What a pass knows does not depend on its phase and its retries. -/
theorem Running.congr {present : List ρ} {row : Option SyncState} {p' : Pass}
    (h : Running u present row p) (hsince : p'.since = p.since)
    (hoffset : p'.offset = p.offset) (hlast : p'.lastCreated = p.lastCreated)
    (hdirty : p'.out.isDirty = false → p.out.isDirty = false)
    (hcomplete : p'.out.complete = p.out.complete) : Running u present row p' where
  seen hclean := by
    rw [hsince, hoffset]
    exact h.seen (hdirty hclean)
  resumable hclean := h.resumable (hdirty hclean)
  last t ht := by
    rw [hsince, hoffset]
    exact h.last t (hlast ▸ ht)
  complete hclean hc := h.complete (hdirty hclean) (hcomplete ▸ hc)

/-- At the total of its window a pass has seen the whole listing. -/
theorem Running.completed {present : List ρ} {row : Option SyncState} {p' : Pass}
    (h : Running u present row p) (htotal : u.total .created p.since ≤ p.offset)
    (hsince : p'.since = p.since) (hoffset : p'.offset = p.offset)
    (hlast : p'.lastCreated = p.lastCreated)
    (hout : p'.out = { p.out with complete := true }) : Running u present row p' := by
  have hdirty : p'.out.isDirty = p.out.isDirty := by
    rw [hout]
    rfl
  have hlength := u.before_add_total .created p.since
  refine ⟨fun hclean => ?_, fun hclean => ?_, fun t ht => ?_, fun hclean _ => ?_⟩
  · rw [hsince, hoffset]
    exact h.seen (hdirty ▸ hclean)
  · exact h.resumable (hdirty ▸ hclean)
  · rw [hsince, hoffset]
    exact h.last t (hlast ▸ ht)
  · exact (h.seen (hdirty ▸ hclean)).of_le (by omega)

section Page

variable [DecidableEq ρ]

/-- A page with records: if none of them is lost, they all have their rows. -/
theorem Running.processed (h : Running u s.present s.row p) (len : Nat)
    (failures : PageFailures ρ) (saved : Bool) {page : List ρ}
    (hpage : u.page .created p.since p.offset len = page) {p' : Pass}
    (hsince : p'.since = p.since) (hoffset : p'.offset = p.offset + page.length)
    (hlast : p'.lastCreated =
      lastMoved .created failures.parses page p.lastCreated)
    (hout : p'.out = page.foldl
      (fun out r => out.count (recordFate s.present failures r)) p.out) :
    Running u
      (s.present ++ page.filter fun r => recordFate s.present failures r = .ingested)
      (checkpoint saved p'.lastCreated s.row) p' := by
  have hlastle : ∀ t, p'.lastCreated = some t →
      u.before .created (some t) ≤ u.before .created p.since + p'.offset := by
    intro t ht
    rw [hlast] at ht
    rw [hoffset]
    rcases lastMoved_eq_some ht with hold | ⟨r, hr, -, rfl⟩
    · have hle := h.last t hold
      omega
    · rw [← hpage] at hr ⊢
      exact u.before_le_of_mem_page .created hr
  have hseen : p'.out.isDirty = false →
      Landed u (s.present ++ page.filter fun r =>
          recordFate s.present failures r = .ingested)
        (u.before .created p.since + p'.offset) := by
    intro hclean
    rw [hout, isDirty_foldl_count] at hclean
    obtain ⟨hbefore, hlands⟩ := hclean
    intro r hr
    have hstretch := u.page_eq_stretch .created p.since p.offset len
    rw [hpage] at hstretch
    rw [hoffset, ← Nat.add_assoc, List.take_add, List.mem_append, ← hstretch] at hr
    rcases hr with hold | hnew
    · exact List.mem_append_left _ (h.seen hbefore r hold)
    · rcases mem_of_lands (hlands r hnew) with hpresent | hingested
      · exact List.mem_append_left _ hpresent
      · apply List.mem_append_right
        exact List.mem_filter.mpr ⟨hnew, decide_eq_true hingested⟩
  have hsub : ∀ r ∈ s.present, r ∈ s.present ++ page.filter fun r =>
      recordFate s.present failures r = .ingested :=
    fun r hr => List.mem_append_left _ hr
  have hbefore : p'.out.isDirty = false → p.out.isDirty = false := by
    intro hclean
    rw [hout, isDirty_foldl_count] at hclean
    exact hclean.1
  constructor
  · rw [hsince]
    exact hseen
  · intro hclean
    apply resumable_checkpoint
    · exact (h.resumable (hbefore hclean)).of_subset hsub
    · intro t ht
      exact (hseen hclean).of_le (hlastle t ht)
  · rw [hsince]
    exact hlastle
  · intro hclean hcomplete
    rw [hout, complete_foldl_count] at hcomplete
    exact (h.complete (hbefore hclean) hcomplete).of_subset hsub

theorem Invariant.page (h : Invariant u s) (hpass : s.pass = some p) (len : Nat)
    (failures : PageFailures ρ) (saved budgetSpent : Bool) :
    Invariant u (s.page u.toUpstream p len failures saved budgetSpent) := by
  have hrunning := h.running p hpass
  unfold BackfillState.page
  dsimp only
  generalize hpage : u.page .created p.since p.offset len = page
  split
  · next hstep =>
      apply h.withPass
      refine hrunning.completed ?_ rfl rfl rfl rfl
      unfold classifyPage at hstep
      split at hstep
      · contradiction
      · split at hstep
        · omega
        · contradiction
  · split
    · exact h.withPass (hrunning.congr rfl rfl rfl id rfl)
    · -- The window is cut short, and counted.
      apply h.withPass
      refine hrunning.congr rfl rfl rfl (fun hclean => ?_) rfl
      rw [isDirty_eq_false] at hclean ⊢
      exact absurd hclean.2.1 (Nat.succ_ne_zero _)
  · unfold BackfillState.process
    refine ⟨fun hflag => ?_, (fun hnone => nomatch hnone), fun p' hp' => ?_⟩
    · exact (h.flag hflag).of_subset fun r hr => List.mem_append_left _ hr
    · -- What the records leave behind, whichever way the page ends.
      let core : Pass := { p with
        offset := nextOffset p.offset page.length
        lastCreated := lastMoved .created failures.parses page p.lastCreated
        out := page.foldl
          (fun out r => out.count (recordFate s.present failures r)) p.out }
      have hcore : Running u
          (s.present ++ page.filter fun r =>
            recordFate s.present failures r = .ingested)
          (checkpoint saved core.lastCreated s.row) core :=
        hrunning.processed len failures saved hpage rfl rfl rfl rfl
      rw [← Option.some.inj hp']
      by_cases htotal : u.total .created p.since ≤ nextOffset p.offset page.length
      · rw [if_pos htotal]
        exact hcore.completed htotal rfl rfl rfl rfl
      · rw [if_neg htotal]
        by_cases hcap : windowOffsetCap ≤ nextOffset p.offset page.length
        · rw [if_pos hcap]
          exact hcore.congr rfl rfl rfl id rfl
        · rw [if_neg hcap]
          cases budgetSpent with
          | true => exact hcore.congr rfl rfl rfl id rfl
          | false => exact hcore.congr rfl rfl rfl id rfl

end Page

/-- The cursor that a pass leaves behind can be resumed from, if it is kept
with care where the pass has lost a record. -/
theorem Invariant.resumable (h : Invariant u s) (hpass : s.pass = some p)
    (hkept : p.out.isDirty = true → CursorKept u s) :
    Resumable u s.present s.row := by
  cases hdirty : p.out.isDirty with
  | false => exact (h.running p hpass).resumable hdirty
  | true =>
      apply resumable_of_kept
      intro state hrow
      exact hkept hdirty p state hpass hdirty hrow

/-- A pass that goes on behind an error, or fails. -/
theorem Invariant.pageError (h : Invariant u s) (hpass : s.pass = some p)
    {tolerable : Bool} (hkept : tolerable = false → CursorKept u s) :
    Invariant u (s.pageError p tolerable) := by
  have hrunning := h.running p hpass
  unfold BackfillState.pageError
  cases tolerable with
  | true =>
      rw [if_pos rfl]
      split
      · exact h.withPass (hrunning.congr rfl rfl rfl id rfl)
      · exact h.withPass (hrunning.congr rfl rfl rfl id rfl)
  | false => exact h.forget (h.resumable hpass fun _ => hkept rfl)

/-- The next window starts no further than the rows go. -/
theorem Running.seen_next (hrunning : Running u s.present s.row p)
    (hphase : s.inPhase .sliding = some p) (hkept : SecondKept u s) {last : Int}
    (hlast : p.lastCreated = some last) (hclean : p.out.isDirty = false) :
    Landed u s.present (u.before .created
      (some (if p.since = some last then last + 1 else last))) := by
  have hseen := hrunning.seen hclean
  by_cases hstuck : p.since = some last
  · rw [if_pos hstuck]
    rw [hstuck] at hseen
    rcases Nat.lt_or_ge p.offset windowOffsetCap with hearly | hcap
    · apply landed_next_second (hseen.of_le (Nat.le_add_right _ _))
      exact hkept p last hphase hclean hstuck hlast hearly
    · exact hseen.of_le (u.before_next_second hcap)
  · rw [if_neg hstuck]
    exact hseen.of_le (hrunning.last last hlast)

theorem Invariant.slide (h : Invariant u s) (hphase : s.inPhase .sliding = some p)
    (hkept : SecondKept u s) (saved budgetSpent : Bool) :
    Invariant u (s.slide p saved budgetSpent) := by
  have hrunning := h.running p (inPhase_eq_some hphase).1
  unfold BackfillState.slide
  cases hlast : p.lastCreated with
  | none =>
      rw [nextSince_none]
      exact h.withPass (hrunning.congr rfl rfl hlast.symm id rfl)
  | some last =>
      rw [nextSince_some]
      have hseen := hrunning.seen_next hphase hkept hlast
      refine ⟨h.flag, (fun hnone => nomatch hnone), fun p' hp' => ?_⟩
      rw [← Option.some.inj hp']
      refine ⟨hseen, fun hclean => ?_, (fun t ht => nomatch ht), hrunning.complete⟩
      show Resumable u s.present (checkpoint saved (some _) s.row)
      apply resumable_checkpoint (hrunning.resumable hclean)
      intro t ht
      rw [← Option.some.inj ht]
      exact hseen hclean

/-- A pass is over, and rewinds the cursor if it has lost a record. -/
theorem Invariant.finish (h : Invariant u s) (hpass : s.pass = some p)
    {stored : Bool} (hkept : stored = false → CursorKept u s) :
    Invariant u (s.finish p stored) := by
  have hrunning := h.running p hpass
  unfold BackfillState.finish
  by_cases hcomplete : p.out.isCleanCompletion = true
  · rw [if_pos hcomplete]
    obtain ⟨hend, hclean⟩ := isCleanCompletion_iff.mp hcomplete
    exact ⟨fun _ => hrunning.complete hclean hend,
      fun _ => hrunning.resumable hclean, fun p' hp' => nomatch hp'⟩
  · rw [if_neg hcomplete]
    by_cases hrewinds : (p.out.isDirty && stored) = true
    · rw [if_pos hrewinds]
      exact ⟨h.flag, fun _ => resumable_none, fun p' hp' => nomatch hp'⟩
    · rw [if_neg hrewinds]
      apply h.forget
      apply h.resumable hpass
      intro hdirty
      apply hkept
      rw [hdirty, Bool.true_and, Bool.not_eq_true] at hrewinds
      exact hrewinds

end Passes

/-! ## Runs

The step lemma and the run. -/

section Runs

variable {ρ : Type} [Stamped ρ] [DecidableEq ρ] {u : BoundedUpstream ρ}
  {s : BackfillState ρ}

theorem invariant_step (h : Invariant u s) {e : BackfillEvent ρ}
    (hleaves : LeavesNothing u s e) : Invariant u (s.step u.toUpstream e) := by
  cases e with
  | start readOk =>
      simp only [BackfillState.step]
      split
      · next hguard =>
          rw [Bool.and_eq_true, Option.isNone_iff_eq_none] at hguard
          exact h.start hguard.1 readOk
      · exact h
  | page len len_le failures saved budgetSpent =>
      simp only [BackfillState.step]
      split
      · next p hphase =>
          exact h.page (inPhase_eq_some hphase).1 len failures saved budgetSpent
      · exact h
  | pageError tolerable =>
      simp only [BackfillState.step]
      split
      · next p hphase =>
          apply h.pageError (inPhase_eq_some hphase).1
          intro hfails
          exact hleaves hfails (by rw [hphase]; rfl)
      · exact h
  | slide saved budgetSpent =>
      simp only [BackfillState.step]
      split
      · next p hphase => exact h.slide hphase hleaves saved budgetSpent
      · exact h
  | finish stored =>
      simp only [BackfillState.step]
      split
      · next p hphase =>
          apply h.finish (inPhase_eq_some hphase).1
          intro hlost
          exact hleaves hlost (by rw [hphase]; rfl)
      · exact h
  | restart =>
      apply h.forget
      cases hpass : s.pass with
      | none => exact h.idle hpass
      | some p => exact h.resumable hpass fun _ => hleaves
  | ingest r =>
      have hsub : ∀ x ∈ s.present, x ∈ r :: s.present :=
        fun x hx => List.mem_cons_of_mem _ hx
      exact ⟨fun hflag => (h.flag hflag).of_subset hsub,
        fun hnone => (h.idle hnone).of_subset hsub,
        fun p hp => (h.running p hp).of_subset hsub⟩

/-- **The flag is set over the whole upstream.**  In every state of a run none
of whose steps leaves a record without a row behind the cursor uncounted, the
completion flag means that every record of the upstream has its row. -/
theorem flag_only_over_whole_upstream (u : BoundedUpstream ρ) (present : List ρ)
    (events : List (BackfillEvent ρ))
    (hleaves : Machine.EachStep (BackfillState.step u.toUpstream) (LeavesNothing u)
      (.initial present) events) :
    Machine.Always (BackfillState.step u.toUpstream)
      (fun s => s.flag = true → ∀ r ∈ u.listing .created, r ∈ s.present)
      (.initial present) events := by
  refine Machine.always_of_invariant (I := Invariant u)
    (fun s e hs he => invariant_step hs he) ?_ (invariant_initial present) hleaves
  intro s hs hflag r hr
  apply hs.flag hflag
  rw [List.take_length]
  exact hr

end Runs

/-- Three records in three seconds. -/
def threeManga : BoundedUpstream MdManga where
  listing _ := [⟨1, 10, 10⟩, ⟨2, 11, 11⟩, ⟨3, 12, 12⟩]
  sorted _ := by cases ‹SyncWindow› <;> decide
  nodup _ := by decide
  same _ := Iff.rfl
  bounded _ := Nat.le_trans List.countP_le_length
    (show 3 ≤ windowOffsetCap by decide)

/-- The page fails for the records with these ids. -/
def writesFailFor (ids : List Nat) : PageFailures MdManga :=
  ⟨fun _ => true, fun _ => true, fun _ => false, fun _ => true, fun m => m.id ∉ ids⟩

/-- A pass that fails to write a record and reaches the end, and a second one
that the first has sent back. -/
def rewoundRun : List (BackfillEvent MdManga) :=
  [.start true, .page 3 (by decide) (writesFailFor [2]) true false, .finish true,
    .start true, .page 3 (by decide) (writesFailFor []) true false, .finish true]

/-- A loss, a cursor that is rewound, and a second pass that is clean. -/
theorem flag_only_over_whole_upstream_rewoundRun :
    (Machine.run (BackfillState.step threeManga.toUpstream) (.initial [])
        rewoundRun).flag = true ∧
      ∀ r ∈ threeManga.listing .created,
        r ∈ (Machine.run (BackfillState.step threeManga.toUpstream) (.initial [])
          rewoundRun).present := by
  have hflag : (Machine.run (BackfillState.step threeManga.toUpstream) (.initial [])
      rewoundRun).flag = true := by decide
  have hleaves : Machine.EachStep (BackfillState.step threeManga.toUpstream)
      (LeavesNothing threeManga) (.initial []) rewoundRun :=
    ⟨trivial, trivial, (fun h => nomatch h), trivial, trivial,
      (fun h => nomatch h), trivial⟩
  exact ⟨hflag,
    (flag_only_over_whole_upstream threeManga [] rewoundRun hleaves).last hflag⟩

/-- The same pass, but the process stops after its first page.  The cursor is
past the record, and nothing remembers it. -/
def forgottenRun : List (BackfillEvent MdManga) :=
  [.start true, .page 2 (by decide) (writesFailFor [1]) true false, .restart,
    .start true, .page 2 (by decide) (writesFailFor []) true false, .finish true]

/-- A loss, a process that stops, and a second pass that is clean from where the first
had come. -/
theorem not_flag_only_over_whole_upstream :
    ¬((Machine.run (BackfillState.step threeManga.toUpstream) (.initial [])
        forgottenRun).flag = true →
      ∀ r ∈ threeManga.listing .created,
        r ∈ (Machine.run (BackfillState.step threeManga.toUpstream) (.initial [])
          forgottenRun).present) := by
  intro h
  have hmem := h (by decide) ⟨1, 10, 10⟩ (by decide)
  revert hmem
  decide

end Komika.Mangadex.Backfill
