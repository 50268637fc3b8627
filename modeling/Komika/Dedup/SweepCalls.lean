import Mathlib.Data.Prod.Lex
import Komika.Lib.Rotation
import Komika.Catalog.Conservation
import Komika.Dedup.Consolidate

/-!
# Call after call of the exact-alias sweep

`consolidate_exact_duplicates` examines at most `limit` groups a call.  The
next call goes on behind the last group of this one, and starts over when this
one came back short.  Where a call goes on is stored when it returns `Ok`, and
only then: a statement that fails ends the call, and leaves the cursor where it
was before the call.  So the next call reads the same groups, and comes to the
same one that failed.

A call that completes brings the cursor closer to every group it has not
examined (`Lib.Rotation`), whatever it merged, refused or skipped.  After one
call more than there are groups, each has had its turn.

A call runs over a finite set of groups that only shrinks, so the argument is one about
a rotation: a call that completes brings the cursor nearer to every group that it has
not examined.

* `moves_advance`, `moves_fail` — one statement of the sweep;
* `groups_step` — no step makes a group;
* `Awaits`, `Awaits.next` — waiting for one group, over one step;
* `examined_of_completed` — after as many calls as there are groups;
* `returns_of_carries`, `call_ends` — a call without an error comes back, and comes back
  `Ok`;
* `starves_no_group` — every run;
* `not_starves_no_group_twoPairs` — a group that always fails.
-/

namespace Komika.Dedup.SweepCalls

open Komika.Lib Komika.Lib.Machine Komika.Lib.Rotation
open Komika.Catalog.Schema Komika.Catalog.Database Komika.Catalog.Ingest
open Komika.Catalog.Merge Komika.Catalog.Runs Komika.Catalog.Conservation
open Komika.Dedup.Consolidate
open Komika.Catalog.Candidates (insertMergeCandidate SamePair)

/-! ## The mutation

`consolidate_exact_duplicates` with its stored cursor, around the sweep of
`Consolidate`. -/

/-- The sweep, and the cursor that is stored. -/
structure CallState where
  sweep : SweepState
  /-- `CONSOLIDATE_CURSOR`. -/
  cursor : String
  /-- The limit of the last call. -/
  limit : Int
  /-- Another merge loop holds `RECONCILE_RUNNING`. -/
  busy : Bool

/-- A call, a statement of the one in progress, its failure, or another writer. -/
inductive Event where
  /-- `consolidate_exact_duplicates`. -/
  | call (limit : Int)
  | statement (newCandidateId : Id)
  | fails
  /-- The other writers. -/
  | traffic (op : Op)
  | edit (row : Work)
  /-- Another merge loop takes the flag, or gives it back. -/
  | occupy
  | vacate

/-- The database of the sweep. -/
abbrev CallState.db (s : CallState) : Db := s.sweep.catalog.db

/-- No call is in progress. -/
def CallState.idle (s : CallState) : Bool :=
  match s.sweep.phase with
  | .returned _ => true
  | _ => false

/-- Where the next call goes on. -/
def nextCursor (limit : Int) (outcome : ConsolidateOutcome) : String :=
  if outcome.groupsSeen < limit then "" else outcome.cursor

/-- The sweep has taken a step; if it is through, its cursor is stored. -/
def CallState.settle (s : CallState) (sweep : SweepState) : CallState :=
  { s with
    sweep := sweep
    cursor :=
      match sweep.phase with
      | .returned true => nextCursor s.limit sweep.outcome
      | _ => s.cursor }

/-- There is a statement here that can fail.  After the last group there is none. -/
def Phase.fallible : Phase → Bool
  | .grouping [] | .returned _ => false
  | _ => true

/-- The state after an event. -/
def step (rules : SweepRules) (s : CallState) : Event → CallState
  | .call limit =>
      if s.idle && !s.busy then
        { s with
          sweep := Consolidate.step rules s.sweep (.start (max limit 1) s.cursor)
          limit := max limit 1 }
      else s
  | .statement newCandidateId =>
      if s.idle then s
      else s.settle (Consolidate.step rules s.sweep (.sweep newCandidateId))
  | .fails =>
      if s.idle then s
      else if Phase.fallible s.sweep.phase then
        s.settle (Consolidate.step rules s.sweep .sweepFails)
      else s.settle (s.sweep.goto (.returned true))
  | .traffic op => { s with sweep := Consolidate.step rules s.sweep (.traffic op) }
  | .edit row => { s with sweep := Consolidate.step rules s.sweep (.edit row) }
  | .occupy => if s.idle then { s with busy := true } else s
  | .vacate => { s with busy := false }

/-! ## What a run shows

Which groups have been examined, and how calls have ended. -/

/-- The group whose works are read next. -/
def examining (s : SweepState) : Option String :=
  match s.phase with
  | .grouping (norm :: _) => some norm
  | _ => none

/-- The group that a step examines. -/
def examines (s : CallState) : Event → Option String
  | .statement _ => examining s.sweep
  | _ => none

/-- How the call that a step ends has ended. -/
def returns (rules : SweepRules) (s : CallState) (e : Event) : Option Bool :=
  if s.idle then none
  else
    match (step rules s e).sweep.phase with
    | .returned ok => some ok
    | _ => none

/-- The groups that a run examines. -/
def examined (rules : SweepRules) (s : CallState) (events : List Event) : List String :=
  observations (step rules) examines s events

/-- The calls that end in a run, and whether they did with `Ok`. -/
def calls (rules : SweepRules) (s : CallState) (events : List Event) : List Bool :=
  observations (step rules) (returns rules) s events

/-- The alias groups: the non-empty titles that several works share. -/
def groups (db : Db) : Finset String :=
  ((db.workAlias.rows.map WorkAlias.normalizedTitle).filter fun t =>
    decide (t ≠ "") && decide (1 < (aliasWorks db t).length)).toFinset

/-- The other writers add no group. -/
def AddsNoGroup (rules : SweepRules) (s : CallState) : Event → Prop
  | .traffic op =>
      groups (step rules s (.traffic op)).db ⊆ groups s.db
  | _ => True

/-- No call ends with an error.  A lookup of a split that fails does not end one,
and neither does a work that was changed under the gate. -/
def Carries (s : CallState) : Event → Prop
  | .fails =>
      match s.sweep.phase with
      | .looking _ | .grouping [] | .returned _ => True
      | _ => False
  | .statement newCandidateId =>
      match s.sweep.phase with
      | .merging _ r =>
          r.other.id ≠ r.survivor.id ∧ s.db.hasWork r.other.id = true ∧
            s.db.hasWork r.survivor.id = true ∧
              (changedUnderGate r.other.id r.survivor.id
                  (some (r.other.identity, r.survivor.identity)) s.db = none →
                loops r.other.id r.survivor.id s.db = false)
      | .inserting r sourceSeriesId =>
          (∃ m ∈ s.db.mergeCandidate.rows, m.sourceSeriesId = sourceSeriesId ∧
              m.candidateWorkId = r.survivor.id) ∨
            ((∃ ss ∈ s.db.sourceSeries.rows, ss.id = sourceSeriesId) ∧
              s.db.hasWork r.survivor.id = true ∧
                ∀ m ∈ s.db.mergeCandidate.rows, m.id ≠ newCandidateId)
      | _ => True
  | _ => True

instance (rules : SweepRules) (s : CallState) (e : Event) :
    Decidable (AddsNoGroup rules s e) := by
  unfold AddsNoGroup
  split <;> infer_instance

instance (s : CallState) (e : Event) : Decidable (Carries s e) := by
  unfold Carries
  split
  · split <;> infer_instance
  · split <;> infer_instance
  · infer_instance

/-! ## The groups

Titles in an order, of which a call takes the next few. -/

section Groups

variable {db : Db} {t g : String}

/-- The works that share a title. -/
theorem mem_aliasWorks {w : Id} :
    w ∈ aliasWorks db t ↔ ∃ a ∈ db.workAlias, a.normalizedTitle = t ∧ a.workId = w := by
  simp only [aliasWorks, List.mem_dedup, List.mem_map, List.mem_filter, Table.mem_rows,
    decide_eq_true_eq, and_assoc]

/-- A group is a title of more than one work. -/
theorem mem_groups : t ∈ groups db ↔ t ≠ "" ∧ 1 < (aliasWorks db t).length := by
  simp only [groups, List.mem_toFinset, List.mem_filter, Bool.and_eq_true, decide_eq_true_eq,
    and_iff_right_iff_imp, and_imp]
  intro _ hmany
  obtain ⟨w, hw⟩ := List.exists_mem_of_length_pos (Nat.zero_lt_of_lt hmany)
  obtain ⟨a, ha, rfl, -⟩ := mem_aliasWorks.mp hw
  exact List.mem_map_of_mem (Table.mem_rows.mpr ha)

/-- Groups are read off the aliases. -/
theorem groups_congr {db' : Db} (h : db'.workAlias = db.workAlias) :
    groups db' = groups db := by
  unfold groups aliasWorks
  rw [h]

/-- The empty text is before all others. -/
theorem empty_lt_iff : "" < t ↔ t ≠ "" := by
  rw [String.lt_iff_toList_lt, ne_eq, ← String.toList_inj]
  cases t.toList <;> simp

/-- The groups after the cursor, in order. -/
def groupsAfter (db : Db) (cursor : String) : List String :=
  ((db.workAlias.rows.map WorkAlias.normalizedTitle).dedup.filter fun t =>
    decide (cursor < t) && decide (1 < (aliasWorks db t).length)).insertionSort
      fun a b => a ≤ b

/-- The query: the groups behind the cursor, as many as the limit allows. -/
theorem aliasGroups_eq (db : Db) (limit : Int) (cursor : String) :
    aliasGroups db limit cursor = (groupsAfter db cursor).take (max limit 1).toNat := rfl

theorem sorted_groupsAfter (db : Db) (cursor : String) :
    (groupsAfter db cursor).Pairwise (· ≤ ·) := List.pairwise_insertionSort _ _

theorem mem_groupsAfter {cursor : String} :
    t ∈ groupsAfter db cursor ↔ cursor < t ∧ t ∈ groups db := by
  have hne : cursor < t → t ≠ "" := by
    intro hlt
    have hpos : "" < t := by
      by_cases hcursor : cursor = ""
      · rwa [← hcursor]
      · exact (empty_lt_iff.mpr hcursor).trans hlt
    exact empty_lt_iff.mp hpos
  have hmem : t ∈ groups db ↔ t ≠ "" ∧ 1 < (aliasWorks db t).length := mem_groups
  simp only [groups, List.mem_toFinset, List.mem_filter, Bool.and_eq_true,
    decide_eq_true_eq] at hmem
  simp only [groupsAfter, List.mem_insertionSort, List.mem_filter, List.mem_dedup,
    Bool.and_eq_true, decide_eq_true_eq, mem_groups]
  grind

end Groups

/-! ## What a statement does

To the groups that are left, and to the aliases. -/

/-- The groups that a phase has yet to come to. -/
def Phase.remaining : Phase → Option (List String)
  | .grouping gs => some gs
  | .looking r | .merging _ r | .queueing r | .inserting r _ => some r.groups
  | .listing _ _ | .returned _ => none

/-- A statement of a sweep that is not through, and the group it examines. -/
inductive Moves (s : SweepState) : Option String → SweepState → Prop where
  | list {limit : Int} {cursor : String} (h : s.phase = .listing limit cursor) :
      Moves s none (s.goto (.grouping (aliasGroups s.catalog.db limit cursor)))
  | done (h : s.phase = .grouping []) : Moves s none (s.goto (.returned true))
  | examine {norm : String} {gs : List String} {s' : SweepState}
      (h : s.phase = .grouping (norm :: gs)) (hgroups : groups s'.catalog.db ⊆ groups s.catalog.db)
      (hremaining : Phase.remaining s'.phase = some gs)
      (hseen : s'.outcome.groupsSeen = s.outcome.groupsSeen + 1)
      (hcursor : s'.outcome.cursor = norm) : Moves s (some norm) s'
  | work {gs : List String} {s' : SweepState} (h : Phase.remaining s.phase = some gs)
      (hgroups : groups s'.catalog.db ⊆ groups s.catalog.db)
      (hremaining : Phase.remaining s'.phase = some gs)
      (hseen : s'.outcome.groupsSeen = s.outcome.groupsSeen)
      (hcursor : s'.outcome.cursor = s.outcome.cursor) : Moves s none s'
  | abort : Moves s none (s.goto (.returned false))

section Moves

variable {rules : SweepRules} {s : SweepState} {r : Round}

/-- The next pair belongs to the same groups. -/
@[simp] theorem remaining_next : Phase.remaining r.next = some r.groups := by
  unfold Round.next
  split <;> rfl

@[simp] theorem remaining_judged {answered : Bool} :
    Phase.remaining (r.judged rules answered) = some r.groups := by
  unfold Round.judged
  split <;> rfl

@[simp] theorem remaining_readGroup {db : Db} {norm : String} {gs : List String} :
    Phase.remaining (readGroup db norm gs) = some gs := by
  unfold readGroup
  split <;> rfl

/-- A fold leaves no title to more works than had it. -/
theorem groups_merged {source target : Id} (hne : source ≠ target) {db : Db} :
    groups (merged rules.toTextRules source target db) ⊆ groups db := by
  intro t ht
  obtain ⟨hne', hmany⟩ := mem_groups.mp ht
  have hcame : aliasWorks (merged rules.toTextRules source target db) t ⊆
      (aliasWorks db t).map fun w => if w = source then target else w := by
    intro w hw
    obtain ⟨a, ha, htitle, rfl⟩ := mem_aliasWorks.mp hw
    rw [List.mem_map]
    rcases ((moved_workAlias hne).rows a).mp ha with ⟨hold, hoff⟩ | ⟨b, hb, hon, -, rfl⟩
    · have hother : a.workId ≠ source := by simpa [onWork, on?] using hoff
      exact ⟨a.workId, mem_aliasWorks.mpr ⟨a, hold, htitle, rfl⟩, if_neg hother⟩
    · have hsource : b.workId = source := by simpa [onWork, on?] using hon
      exact ⟨source, mem_aliasWorks.mpr ⟨b, hb, htitle, hsource⟩, if_pos rfl⟩
  have hnodup : (aliasWorks (merged rules.toTextRules source target db) t).Nodup :=
    List.nodup_dedup _
  have hle := (hnodup.subperm hcame).length_le
  rw [List.length_map] at hle
  exact mem_groups.mpr ⟨hne', by omega⟩

/-- Queueing a pair touches no alias. -/
theorem groups_insertMergeCandidate {newId sourceSeriesId workId : Id} {out : Option Id}
    {db db' : Db}
    (h : insertMergeCandidate newId sourceSeriesId workId db = .ok (out, db')) :
    groups db' = groups db := by
  apply groups_congr
  unfold insertMergeCandidate at h
  dsimp only at h
  split at h
  · cases h
    rfl
  · split at h
    · contradiction
    · split at h
      · contradiction
      · cases h
        rfl

/-- A statement examines the group that it comes to. -/
theorem moves_advance (rules : SweepRules) (newCandidateId : Id)
    (hopen : ∀ ok, s.phase ≠ .returned ok) :
    Moves s (examining s) (s.advance rules newCandidateId) := by
  have hsame : groups s.catalog.db ⊆ groups s.catalog.db := Finset.Subset.refl _
  unfold SweepState.advance
  split
  · next h =>
      rw [show examining s = none by rw [examining, h]]
      exact .list h
  · next h =>
      rw [show examining s = none by rw [examining, h]]
      exact .done h
  · next norm gs h =>
      rw [show examining s = some norm by rw [examining, h]]
      exact .examine h hsame remaining_readGroup rfl rfl
  · next r h =>
      have hremaining : Phase.remaining s.phase = some r.groups := by rw [h]; rfl
      rw [show examining s = none by rw [examining, h]]
      split
      · exact .work hremaining hsame remaining_next rfl rfl
      · exact .work hremaining hsame remaining_judged rfl rfl
  · next answered r h =>
      have hremaining : Phase.remaining s.phase = some r.groups := by rw [h]; rfl
      rw [show examining s = none by rw [examining, h]]
      split
      · next outcome db hok =>
          obtain ⟨hne, -, -, -, rfl⟩ := merge_ok hok
          exact .work hremaining (groups_merged hne) remaining_next rfl rfl
      · exact .work hremaining hsame remaining_next rfl rfl
      · exact .abort
  · next r h =>
      have hremaining : Phase.remaining s.phase = some r.groups := by rw [h]; rfl
      rw [show examining s = none by rw [examining, h]]
      split
      · exact .work hremaining hsame remaining_next rfl rfl
      · exact .work hremaining hsame rfl rfl rfl
  · next r ssid h =>
      have hremaining : Phase.remaining s.phase = some r.groups := by rw [h]; rfl
      rw [show examining s = none by rw [examining, h]]
      split
      · next out db hok =>
          exact .work hremaining (groups_insertMergeCandidate hok).subset remaining_next
            rfl rfl
      · exact .abort
  · next ok h => exact absurd h (hopen ok)

theorem moves_fail (rules : SweepRules) (hfallible : Phase.fallible s.phase = true) :
    Moves s none (s.fail rules) := by
  unfold SweepState.fail
  split
  · next r h =>
      have hremaining : Phase.remaining s.phase = some r.groups := by rw [h]; rfl
      exact .work hremaining (Finset.Subset.refl _) remaining_judged rfl rfl
  · next h =>
      rw [h] at hfallible
      contradiction
  · exact .abort

/-- The two works of a merge are there, and it is refused under the gate or not at
all. -/
theorem mergeWorksChecked_carries (rules : SweepRules) {source target : Id}
    {expected : Option (WorkIdentity × WorkIdentity)} {db : Db} (hne : source ≠ target)
    (hsource : db.hasWork source = true) (htarget : db.hasWork target = true)
    (hloops : changedUnderGate source target expected db = none →
      loops source target db = false) :
    (∃ out, mergeWorksChecked rules.toTextRules source target expected db = .ok out) ∨
      ∃ id, mergeWorksChecked rules.toTextRules source target expected db =
        .error (.preconditionFailed id) := by
  unfold mergeWorksChecked
  rw [if_neg hne, hsource, htarget]
  cases hgate : changedUnderGate source target expected db with
  | none =>
      rw [hloops hgate]
      exact Or.inl ⟨_, rfl⟩
  | some id => exact Or.inr ⟨id, rfl⟩

/-- A pair is queued already, or a row can be written for it. -/
theorem insertMergeCandidate_carries {newId sourceSeriesId workId : Id} {db : Db}
    (h : (∃ m ∈ db.mergeCandidate.rows, m.sourceSeriesId = sourceSeriesId ∧
        m.candidateWorkId = workId) ∨
      ((∃ ss ∈ db.sourceSeries.rows, ss.id = sourceSeriesId) ∧ db.hasWork workId = true ∧
        ∀ m ∈ db.mergeCandidate.rows, m.id ≠ newId)) :
    ∃ out, insertMergeCandidate newId sourceSeriesId workId db = .ok out := by
  unfold insertMergeCandidate
  dsimp only
  split
  · exact ⟨_, rfl⟩
  · next hqueued =>
      rcases h with ⟨m, hm, hseries, hwork⟩ | ⟨⟨ss, hss, hid⟩, hwork, hfresh⟩
      · refine absurd ?_ hqueued
        rw [List.any_eq_true]
        exact ⟨m, hm, decide_eq_true ⟨hseries, hwork⟩⟩
      · have hfound : (db.sourceSeries.rows.any fun ss => ss.id = sourceSeriesId) = true := by
          rw [List.any_eq_true]
          exact ⟨ss, hss, decide_eq_true hid⟩
        have hfree : db.mergeCandidate.taken
            ⟨newId, sourceSeriesId, workId, .pending⟩ = false := by
          rw [Table.taken_eq_false]
          intro m hm
          exact decide_eq_false fun hclash => hfresh m (Table.mem_rows.mp hm) hclash.symm
        rw [hfound, hwork, Table.insert, dif_pos hfree]
        exact ⟨_, rfl⟩

end Moves

/-! ## A step of the mutation

The events of a run, as steps of the sweep or of its surroundings. -/

section Steps

variable {rules : SweepRules} {s : CallState} {e : Event}

theorem idle_eq_true : s.idle = true ↔ ∃ ok, s.sweep.phase = .returned ok := by
  unfold CallState.idle
  split
  · next ok h => simp [h]
  · next h => simpa using fun ok => h ok

theorem idle_eq_false : s.idle = false ↔ ∀ ok, s.sweep.phase ≠ .returned ok := by
  rw [← Bool.not_eq_true, idle_eq_true, not_exists]

/-- What cannot fail is the end of a call. -/
theorem eq_of_not_fallible (hopen : s.idle = false)
    (h : ¬Phase.fallible s.sweep.phase = true) : s.sweep.phase = .grouping [] := by
  cases hphase : s.sweep.phase with
  | returned ok => exact absurd hphase (idle_eq_false.mp hopen ok)
  | grouping gs =>
      cases gs with
      | nil => rfl
      | cons norm gs => simp [hphase, Phase.fallible] at h
  | _ => simp [hphase, Phase.fallible] at h

/-- A call has begun, and has seen no group. -/
def CallState.begun (s : CallState) (limit : Int) (phase : Phase) : CallState :=
  { s with
    sweep := ⟨s.sweep.catalog, phase, ⟨[], 0, 0, 0, 0, s.cursor⟩⟩
    limit := max limit 1 }

/-- A call begins at the stored cursor. -/
theorem step_call (hidle : s.idle = true) (hfree : s.busy = false) (limit : Int) :
    step rules s (.call limit) = s.begun limit (.listing (max limit 1) s.cursor) := by
  obtain ⟨ok, hphase⟩ := idle_eq_true.mp hidle
  simp [step, hidle, hfree, Consolidate.step, hphase, CallState.begun]

/-- What a step can be: a statement of the call in progress, the start of a call,
or nothing to the sweep. -/
inductive Steps (rules : SweepRules) (s : CallState) (e : Event) : Prop where
  | moves (hopen : s.idle = false) (sweep : SweepState)
      (hmoves : Moves s.sweep (examines s e) sweep)
      (heq : step rules s e = s.settle sweep)
  | starts (limit : Int) (hidle : s.idle = true)
      (heq : step rules s e = s.begun limit (.listing (max limit 1) s.cursor))
  | rests (hphase : (step rules s e).sweep.phase = s.sweep.phase)
      (houtcome : (step rules s e).sweep.outcome = s.sweep.outcome)
      (hcursor : (step rules s e).cursor = s.cursor)
      (hlimit : (step rules s e).limit = s.limit)
      (hgroups : groups (step rules s e).db ⊆ groups s.db)

/-- A step is one of the sweep, or a write that adds no group. -/
theorem steps (h : AddsNoGroup rules s e) : Steps rules s e := by
  have hstays : step rules s e = s → Steps rules s e := fun heq =>
    .rests (by rw [heq]) (by rw [heq]) (by rw [heq]) (by rw [heq])
      (by rw [heq])
  cases e with
  | call limit =>
      by_cases hfree : (s.idle && !s.busy) = true
      · obtain ⟨hidle, hfree⟩ := Bool.and_eq_true_iff.mp hfree
        exact .starts limit hidle (step_call hidle (by simpa using hfree) limit)
      · exact hstays (if_neg hfree)
  | statement newCandidateId =>
      cases hidle : s.idle with
      | true => exact hstays (if_pos hidle)
      | false =>
          have hmoves := moves_advance rules newCandidateId (idle_eq_false.mp hidle)
          refine .moves hidle _ hmoves ?_
          simp only [step, hidle, Bool.false_eq_true, if_false, Consolidate.step]
  | fails =>
      cases hidle : s.idle with
      | true => exact hstays (if_pos hidle)
      | false =>
          by_cases hfallible : Phase.fallible s.sweep.phase = true
          · refine .moves hidle _ (moves_fail rules hfallible) ?_
            simp only [step, hidle, Bool.false_eq_true, if_false, if_pos hfallible,
              Consolidate.step]
          · refine .moves hidle _ (.done (eq_of_not_fallible hidle hfallible)) ?_
            simp only [step, hidle, Bool.false_eq_true, if_false, if_neg hfallible]
  | traffic op => exact .rests rfl rfl rfl rfl h
  | edit row => exact .rests rfl rfl rfl rfl (groups_congr rfl).subset
  | occupy =>
      cases hidle : s.idle with
      | true =>
          have heq : step rules s .occupy = { s with busy := true } := if_pos hidle
          refine .rests ?_ ?_ ?_ ?_ ?_ <;> rw [heq]
      | false => exact hstays (by simp [step, hidle])
  | vacate => exact .rests rfl rfl rfl rfl (Finset.Subset.refl _)

theorem groups_moves {s s' : SweepState} {norm : Option String} (h : Moves s norm s') :
    groups s'.catalog.db ⊆ groups s.catalog.db := by
  cases h with
  | list | done | abort => exact Finset.Subset.refl _
  | examine h hgroups | work h hgroups => exact hgroups

/-- Nothing makes a group. -/
theorem groups_step (h : AddsNoGroup rules s e) :
    groups (step rules s e).db ⊆ groups s.db := by
  cases steps h with
  | moves hopen sweep hmoves heq =>
      rw [heq]
      exact groups_moves hmoves
  | starts limit hidle heq =>
      rw [heq]
      exact Finset.Subset.refl _
  | rests hphase houtcome hcursor hlimit hgroups => exact hgroups

end Steps

/-! ## Waiting for a group

The invariant of a group that has not been examined. -/

/-- Where the call in progress will leave the cursor, with these groups to come. -/
def CallState.ahead (s : CallState) (gs : List String) : String :=
  if s.sweep.outcome.groupsSeen + gs.length < s.limit then ""
  else gs.getLast?.getD s.sweep.outcome.cursor

/-- The call in progress comes to `g`, or it brings the cursor closer to it. -/
structure Awaits (G : Finset String) (g : String) (s : CallState) : Prop where
  listing : ∀ limit cursor, s.sweep.phase = .listing limit cursor →
    limit = s.limit ∧ 1 ≤ s.limit ∧ cursor = s.cursor ∧
      s.sweep.outcome.groupsSeen = 0 ∧ s.sweep.outcome.cursor = s.cursor
  remaining : ∀ gs, Phase.remaining s.sweep.phase = some gs →
    g ∈ gs ∨ distance G g (s.ahead gs) < distance G g s.cursor

section Awaits

variable {rules : SweepRules} {s : CallState} {e : Event} {G : Finset String} {g : String}

theorem Awaits.of_idle (h : s.idle = true) : Awaits G g s := by
  obtain ⟨ok, hphase⟩ := idle_eq_true.mp h
  constructor
  · intro limit cursor hlisting
    rw [hphase] at hlisting
    contradiction
  · intro gs hremaining
    rw [hphase] at hremaining
    contradiction

/-- A listing has `g` in it, or will bring the cursor closer. -/
theorem Awaits.listed (h : Awaits G g s) {limit : Int} {cursor : String}
    (hphase : s.sweep.phase = .listing limit cursor) (hsub : groups s.db ⊆ G)
    (hg : g ∈ groups s.db) :
    g ∈ aliasGroups s.db limit cursor ∨
      distance G g (s.ahead (aliasGroups s.db limit cursor)) < distance G g s.cursor := by
  obtain ⟨rfl, hpos, rfl, hseen, hcursor⟩ := h.listing limit cursor hphase
  by_cases hin : g ∈ aliasGroups s.db s.limit s.cursor
  · exact Or.inl hin
  · right
    have hmax : max s.limit 1 = s.limit := max_eq_left hpos
    rw [aliasGroups_eq, hmax] at hin ⊢
    have hall : ∀ t ∈ (groupsAfter s.db s.cursor).take s.limit.toNat,
        s.cursor < t ∧ t ∈ groups s.db := fun t ht =>
      mem_groupsAfter.mp (List.mem_of_mem_take ht)
    have hstart : "" < g := empty_lt_iff.mpr (mem_groups.mp hg).1
    -- a batch that leaves `g` out, behind the cursor, is full and stops short of it
    have hshort : s.cursor < g →
        ((groupsAfter s.db s.cursor).take s.limit.toNat).length = s.limit.toNat ∧
          ∀ t ∈ (groupsAfter s.db s.cursor).take s.limit.toNat, t < g := fun hbefore =>
      lt_of_notMem_take (sorted_groupsAfter s.db s.cursor)
        (mem_groupsAfter.mpr ⟨hbefore, hg⟩) hin
    unfold CallState.ahead
    rw [hseen, hcursor]
    by_cases hfew : ((0 : Nat) : Int) +
        ((groupsAfter s.db s.cursor).take s.limit.toNat).length < s.limit
    · rw [if_pos hfew]
      apply distance_wrap hstart
      by_contra hbefore
      have hlen := (hshort (not_le.mp hbefore)).1
      omega
    · rw [if_neg hfew]
      cases hlast : ((groupsAfter s.db s.cursor).take s.limit.toNat).getLast? with
      | none =>
          rw [List.getLast?_eq_none_iff] at hlast
          rw [hlast, List.length_nil] at hfew
          omega
      | some last =>
          have hmem := List.mem_of_getLast? hlast
          apply distance_advance (hall last hmem).1 (hsub (hall last hmem).2)
          rintro ⟨hbefore, hle⟩
          exact absurd ((hshort hbefore).2 last hmem) (not_lt.mpr hle)

/-- The same phase, outcome and cursor. -/
theorem Awaits.congr {s' : CallState} (h : Awaits G g s)
    (hphase : s'.sweep.phase = s.sweep.phase) (houtcome : s'.sweep.outcome = s.sweep.outcome)
    (hcursor : s'.cursor = s.cursor) (hlimit : s'.limit = s.limit) : Awaits G g s' := by
  constructor
  · intro limit cursor hlisting
    rw [hlimit, hcursor, houtcome]
    exact h.listing limit cursor (hphase ▸ hlisting)
  · intro gs hremaining
    unfold CallState.ahead
    rw [hlimit, hcursor, houtcome]
    exact h.remaining gs (hphase ▸ hremaining)

/-- The groups that are left have not changed, and neither has what comes of them. -/
theorem Awaits.of_remaining {s' : CallState} {gs : List String}
    (hremaining : Phase.remaining s'.sweep.phase = some gs)
    (h : g ∈ gs ∨ distance G g (s'.ahead gs) < distance G g s'.cursor) : Awaits G g s' := by
  constructor
  · intro limit cursor hlisting
    rw [hlisting] at hremaining
    contradiction
  · intro gs' hgs'
    rw [hremaining, Option.some.injEq] at hgs'
    exact hgs' ▸ h

/-- At the end of a call. -/
theorem ahead_nil (s : CallState) : s.ahead [] = nextCursor s.limit s.sweep.outcome := by
  simp [CallState.ahead, nextCursor]

/-- Examining a group does not change where the cursor will be. -/
theorem ahead_examined {s' : CallState} {norm : String} {gs : List String}
    (hlimit : s'.limit = s.limit)
    (hseen : s'.sweep.outcome.groupsSeen = s.sweep.outcome.groupsSeen + 1)
    (hcursor : s'.sweep.outcome.cursor = norm) : s'.ahead gs = s.ahead (norm :: gs) := by
  have hcount : ((s.sweep.outcome.groupsSeen + 1 : Nat) : Int) + gs.length =
      s.sweep.outcome.groupsSeen + (norm :: gs).length := by
    rw [List.length_cons]
    omega
  unfold CallState.ahead
  rw [hlimit, hseen, hcursor, hcount, List.getLast?_cons, Option.getD_some]

/-- Only a call that returns `Ok` stores a cursor. -/
theorem settle_cursor {sweep : SweepState} (h : sweep.phase ≠ .returned true) :
    (s.settle sweep).cursor = s.cursor := by
  unfold CallState.settle
  dsimp only
  split
  · next hphase => exact absurd hphase h
  · rfl

/-- A phase with groups left is not the last. -/
theorem remaining_ne_returned {phase : Phase} {gs : List String} {ok : Bool}
    (h : Phase.remaining phase = some gs) : phase ≠ .returned ok := by
  rintro rfl
  contradiction

/-- How a call ends, told by where its statement leads. -/
theorem returns_settle {sweep : SweepState} (hopen : s.idle = false)
    (heq : step rules s e = s.settle sweep) {ok : Bool} :
    returns rules s e = some ok ↔ sweep.phase = .returned ok := by
  simp only [returns, hopen, heq, CallState.settle]
  cases sweep.phase <;> simp

/-- A call ends only with a statement of its own. -/
theorem returns_of_phase_eq (hphase : (step rules s e).sweep.phase = s.sweep.phase) :
    returns rules s e = none := by
  unfold returns
  rw [hphase]
  cases hidle : s.idle with
  | true => simp
  | false =>
      cases hcase : s.sweep.phase with
      | returned ok => exact absurd hcase (idle_eq_false.mp hidle ok)
      | _ => simp

/-- The cursor is closer to `g` by the calls that completed. -/
def Nears (rules : SweepRules) (G : Finset String) (g : String) (s : CallState) (e : Event) :
    Prop :=
  distance G g (step rules s e).cursor + (returns rules s e).toList.count true ≤
    distance G g s.cursor

/-- A step that ends no call. -/
theorem nears_of_same (hcursor : (step rules s e).cursor = s.cursor)
    (hreturns : returns rules s e ≠ some true) : Nears rules G g s e := by
  unfold Nears
  rw [hcursor]
  cases hcase : returns rules s e with
  | none => simp
  | some ok =>
      cases ok with
      | true => exact absurd hcase hreturns
      | false => simp

/-- A statement of the call in progress that does not examine `g`. -/
theorem Awaits.moves (h : Awaits G g s) (hsub : groups s.db ⊆ G) (hg : g ∈ groups s.db)
    (hnot : examines s e ≠ some g) (hopen : s.idle = false) {sweep : SweepState}
    (hmoves : Moves s.sweep (examines s e) sweep) (heq : step rules s e = s.settle sweep) :
    Awaits G g (step rules s e) ∧ Nears rules G g s e := by
  have hreturns : ∀ ok, returns rules s e = some ok ↔ sweep.phase = .returned ok :=
    fun ok => returns_settle hopen heq
  have hstays : sweep.phase ≠ .returned true → Nears rules G g s e := fun hphase =>
    nears_of_same (heq ▸ settle_cursor hphase) fun hret => hphase ((hreturns true).mp hret)
  generalize examines s e = norm at hmoves hnot
  cases hmoves with
  | @list limit cursor hphase =>
      have hlisted := h.listed hphase hsub hg
      exact ⟨heq ▸ .of_remaining rfl hlisted, hstays (remaining_ne_returned rfl)⟩
  | done hphase =>
      have hcloser : distance G g (s.ahead []) < distance G g s.cursor := by
        have hcase := h.remaining [] (by rw [hphase]; rfl)
        simpa using hcase
      refine ⟨heq ▸ .of_idle rfl, ?_⟩
      unfold Nears
      rw [(hreturns true).mpr rfl, heq]
      rw [ahead_nil] at hcloser
      exact hcloser
  | @examine norm gs sweep hphase hgroups hremaining hseen hcursor =>
      have hnext : g ∈ gs ∨ distance G g (s.ahead (norm :: gs)) < distance G g s.cursor := by
        rcases h.remaining (norm :: gs) (by rw [hphase]; rfl) with hin | hcloser
        · rcases List.mem_cons.mp hin with rfl | hin
          · exact absurd rfl hnot
          · exact Or.inl hin
        · exact Or.inr hcloser
      have hkept : (s.settle sweep).cursor = s.cursor :=
        settle_cursor (remaining_ne_returned hremaining)
      have hahead : (s.settle sweep).ahead gs = s.ahead (norm :: gs) :=
        ahead_examined rfl hseen hcursor
      refine ⟨heq ▸ .of_remaining hremaining ?_, hstays (remaining_ne_returned hremaining)⟩
      rw [hkept, hahead]
      exact hnext
  | @work gs sweep hphase hgroups hremaining hseen hcursor =>
      have hkept : (s.settle sweep).cursor = s.cursor :=
        settle_cursor (remaining_ne_returned hremaining)
      have hahead : (s.settle sweep).ahead gs = s.ahead gs := by
        unfold CallState.ahead
        rw [show (s.settle sweep).sweep = sweep from rfl, hseen, hcursor]
        rfl
      refine ⟨heq ▸ .of_remaining hremaining ?_, hstays (remaining_ne_returned hremaining)⟩
      rw [hkept, hahead]
      exact h.remaining gs hphase
  | abort =>
      exact ⟨heq ▸ .of_idle rfl, hstays (by simp [SweepState.goto])⟩

/-- A step that does not examine `g` keeps waiting for it, and every call that
completes brings the cursor closer. -/
theorem Awaits.next (h : Awaits G g s) (hadds : AddsNoGroup rules s e)
    (hsub : groups s.db ⊆ G) (hg : g ∈ groups s.db) (hnot : examines s e ≠ some g) :
    Awaits G g (step rules s e) ∧ Nears rules G g s e := by
  cases steps hadds with
  | moves hopen sweep hmoves heq => exact h.moves hsub hg hnot hopen hmoves heq
  | starts limit hidle heq =>
      refine ⟨?_, nears_of_same (heq ▸ rfl) (by simp [returns, hidle])⟩
      rw [heq]
      constructor
      · intro limit' cursor hlisting
        cases hlisting
        exact ⟨rfl, le_max_right _ _, rfl, rfl, rfl⟩
      · intro gs hremaining
        contradiction
  | rests hphase houtcome hcursor hlimit hgroups =>
      have hnone := returns_of_phase_eq hphase
      exact ⟨h.congr hphase houtcome hcursor hlimit, nears_of_same hcursor (by simp [hnone])⟩

end Awaits

/-! ## Runs

Each completed call comes nearer; after enough of them the group has been reached. -/

section Runs

variable {rules : SweepRules} {s : CallState} {events : List Event} {g : String}

/-- So far `g` has been waited for, and the calls that completed have brought the
cursor closer to it. -/
structure Nearing (rules : SweepRules) (s : CallState) (g : String) (before : List Event)
    (s' : CallState) : Prop where
  groups : groups s'.db ⊆ groups s.db
  awaits : Awaits (SweepCalls.groups s.db) g s'
  le : distance (SweepCalls.groups s.db) g s'.cursor + (calls rules s before).count true ≤
    distance (SweepCalls.groups s.db) g s.cursor

/-- `g` has been examined, or it is no group any more, or it is getting closer. -/
def Approached (rules : SweepRules) (s : CallState) (g : String) (before : List Event)
    (s' : CallState) : Prop :=
  g ∈ examined rules s before ∨ g ∉ groups s'.db ∨ Nearing rules s g before s'

theorem approached_step {before : List Event} {e : Event}
    (h : Approached rules s g before (run (step rules) s before))
    (hadds : AddsNoGroup rules (run (step rules) s before) e) :
    Approached rules s g (before ++ [e]) (step rules (run (step rules) s before) e) := by
  have hshrinks := groups_step hadds
  have hexamined : examined rules s (before ++ [e]) = examined rules s before ++
      (examines (run (step rules) s before) e).toList := observations_concat _ _ _ _ _
  have hcalls : calls rules s (before ++ [e]) = calls rules s before ++
      (returns rules (run (step rules) s before) e).toList := observations_concat _ _ _ _ _
  unfold Approached
  rw [hexamined, List.mem_append]
  by_cases hnow : examines (run (step rules) s before) e = some g
  · exact Or.inl (Or.inr (by simp [hnow]))
  · rcases h with hseen | hgone | hnearing
    · exact Or.inl (Or.inl hseen)
    · exact Or.inr (Or.inl fun hback => hgone (hshrinks hback))
    · by_cases hstill : g ∈ groups (run (step rules) s before).db
      · obtain ⟨hawaits, hnears⟩ := hnearing.awaits.next hadds hnearing.groups hstill hnow
        have hle := hnearing.le
        unfold Nears at hnears
        refine Or.inr (Or.inr ⟨hshrinks.trans hnearing.groups, hawaits, ?_⟩)
        rw [hcalls, List.count_append]
        omega
      · exact Or.inr (Or.inl fun hback => hstill (hshrinks hback))

/-- After one call more than there are groups, `g` has been examined, or it is no
group any more.  Only the calls that completed count, whatever becomes of others. -/
theorem examined_of_completed (hidle : s.idle = true)
    (hadds : EachStep (step rules) (AddsNoGroup rules) s events) (hg : g ∈ groups s.db)
    (hmany : (groups s.db).card < (calls rules s events).count true) :
    g ∈ examined rules s events ∨ g ∉ groups (run (step rules) s events).db := by
  have hstart : Approached rules s g [] s :=
    Or.inr (Or.inr ⟨Finset.Subset.refl _, .of_idle hidle, le_rfl⟩)
  have hinv : Approached rules s g events (run (step rules) s events) :=
    run_history_invariant (I := Approached rules s g) hstart
      (fun before e hbefore hstep => approached_step hbefore hstep) hadds
  rcases hinv with hseen | hgone | hnearing
  · exact Or.inl hseen
  · exact Or.inr hgone
  · have hpos := distance_pos (groups s.db) g (run (step rules) s events).cursor
    have hfar := distance_le hg s.cursor
    have hle := hnearing.le
    omega

/-! ## Calls that come back without an error

What the sweep carries on from, and what it does not. -/

/-- A statement that carries on does not end the call with an error. -/
theorem advance_of_carries {newCandidateId : Id} (hopen : s.idle = false)
    (hcarries : Carries s (.statement newCandidateId)) :
    (s.sweep.advance rules newCandidateId).phase ≠ .returned false := by
  have hnext : ∀ r : Round, r.next ≠ .returned false := fun r =>
    remaining_ne_returned remaining_next
  unfold Carries at hcarries
  unfold SweepState.advance
  split
  · simp [SweepState.goto]
  · simp [SweepState.goto]
  · exact remaining_ne_returned remaining_readGroup
  · split
    · exact hnext _
    · exact remaining_ne_returned remaining_judged
  · next answered r hphase =>
      simp only [hphase] at hcarries
      obtain ⟨hne, hsource, htarget, hloops⟩ := hcarries
      rcases mergeWorksChecked_carries rules hne hsource htarget hloops with
        ⟨out, hok⟩ | ⟨id, hrefused⟩
      · rw [hok]
        exact hnext _
      · rw [hrefused]
        exact hnext _
  · split
    · exact hnext _
    · simp [SweepState.goto]
  · next r ssid hphase =>
      simp only [hphase] at hcarries
      obtain ⟨out, hok⟩ := insertMergeCandidate_carries hcarries
      rw [hok]
      exact hnext _
  · next ok hphase => exact absurd hphase (idle_eq_false.mp hopen ok)

theorem fail_of_carries (hfallible : Phase.fallible s.sweep.phase = true)
    (hcarries : Carries s .fails) : (s.sweep.fail rules).phase ≠ .returned false := by
  unfold SweepState.fail
  cases hphase : s.sweep.phase with
  | looking r => exact remaining_ne_returned remaining_judged
  | returned ok => simp [hphase, Phase.fallible] at hfallible
  | grouping gs =>
      cases gs with
      | nil => simp [hphase, Phase.fallible] at hfallible
      | cons norm gs => simp [Carries, hphase] at hcarries
  | _ => simp [Carries, hphase] at hcarries

/-- No call that carries on ends with an error. -/
theorem returns_of_carries {e : Event} (hcarries : Carries s e) :
    returns rules s e ≠ some false := by
  cases hidle : s.idle with
  | true => simp [returns, hidle]
  | false =>
      have hrests : (step rules s e).sweep.phase = s.sweep.phase →
          returns rules s e ≠ some false := fun hphase => by
        simp [returns_of_phase_eq hphase]
      cases e with
      | statement newCandidateId =>
          have heq : step rules s (.statement newCandidateId) =
              s.settle (s.sweep.advance rules newCandidateId) := by
            simp only [step, hidle, Bool.false_eq_true, if_false, Consolidate.step]
          rw [ne_eq, returns_settle hidle heq]
          exact advance_of_carries hidle hcarries
      | fails =>
          by_cases hfallible : Phase.fallible s.sweep.phase = true
          · have heq : step rules s .fails = s.settle (s.sweep.fail rules) := by
              simp only [step, hidle, Bool.false_eq_true, if_false, if_pos hfallible,
                Consolidate.step]
            rw [ne_eq, returns_settle hidle heq]
            exact fail_of_carries hfallible hcarries
          · have heq : step rules s .fails = s.settle (s.sweep.goto (.returned true)) := by
              simp only [step, hidle, Bool.false_eq_true, if_false, if_neg hfallible]
            rw [ne_eq, returns_settle hidle heq]
            simp [SweepState.goto]
      | call limit => exact hrests (by simp [step, hidle])
      | occupy => exact hrests (by simp [step, hidle])
      | traffic | edit | vacate => exact hrests rfl

theorem ok_of_carries (h : EachStep (step rules) (fun s e => Carries s e) s events) :
    ∀ ok ∈ calls rules s events, ok = true := by
  induction events generalizing s with
  | nil => simp [calls]
  | cons e events ih =>
      intro ok hok
      rcases List.mem_append.mp hok with hnow | hlater
      · cases ok with
        | true => rfl
        | false =>
            have hreturns : returns rules s e = some false := by simpa using hnow
            exact absurd hreturns (returns_of_carries h.1)
      · exact ih h.2 ok hlater

end Runs

/-! ## Every call ends

A measure that each statement makes smaller. -/

/-- How much a sweep has yet to do: the groups to come, and in a group the
statements for its pairs. -/
def Phase.rank : Phase → Nat ×ₗ Nat
  | .returned _ => toLex (0, 0)
  | .grouping gs => toLex (2 * gs.length + 1, 0)
  | .looking r => toLex (2 * r.groups.length + 2, 3 * r.others.length + 3)
  | .queueing r => toLex (2 * r.groups.length + 2, 3 * r.others.length + 2)
  | .merging _ r | .inserting r _ =>
      toLex (2 * r.groups.length + 2, 3 * r.others.length + 1)
  | .listing limit _ => toLex (2 * (max limit 1).toNat + 2, 0)

/-- The call in progress takes its next step. -/
def Event.IsStatement : Event → Prop
  | .statement _ | .fails => True
  | _ => False

section Ends

variable {rules : SweepRules} {s : SweepState} {r : Round}

theorem rank_next_lt {k : Nat} (hk : 1 ≤ k) :
    Phase.rank r.next < toLex (2 * r.groups.length + 2, 3 * r.others.length + k) := by
  unfold Round.next
  cases hothers : r.others with
  | nil =>
      rw [Phase.rank, Prod.Lex.toLex_lt_toLex]
      exact Or.inl (by omega)
  | cons other others =>
      rw [Phase.rank, Prod.Lex.toLex_lt_toLex]
      exact Or.inr ⟨rfl, by simp only [List.length_cons]; omega⟩

theorem rank_judged_lt {answered : Bool} :
    Phase.rank (r.judged rules answered) <
      toLex (2 * r.groups.length + 2, 3 * r.others.length + 3) := by
  unfold Round.judged
  split <;> rw [Phase.rank, Prod.Lex.toLex_lt_toLex] <;> exact Or.inr ⟨rfl, by omega⟩

theorem rank_readGroup_lt {db : Db} {norm : String} {gs : List String} :
    Phase.rank (readGroup db norm gs) < Phase.rank (.grouping (norm :: gs)) := by
  unfold readGroup
  split <;> rw [Phase.rank, Phase.rank, Prod.Lex.toLex_lt_toLex] <;>
    exact Or.inl (by simp only [List.length_cons]; omega)

theorem rank_returned_lt {phase : Phase} (h : ∀ ok, phase ≠ .returned ok) (ok : Bool) :
    Phase.rank (.returned ok) < Phase.rank phase := by
  cases phase with
  | returned ok' => exact absurd rfl (h ok')
  | _ =>
      rw [Phase.rank, Phase.rank, Prod.Lex.toLex_lt_toLex]
      exact Or.inl (by simp)

/-- Each statement leaves less to do. -/
theorem rank_advance_lt (newCandidateId : Id) (hopen : ∀ ok, s.phase ≠ .returned ok) :
    Phase.rank (s.advance rules newCandidateId).phase < Phase.rank s.phase := by
  have hends := rank_returned_lt hopen false
  unfold SweepState.advance
  split
  · next limit cursor h =>
      rw [h, aliasGroups_eq]
      simp only [SweepState.goto, Phase.rank, Prod.Lex.toLex_lt_toLex, List.length_take]
      exact Or.inl (by omega)
  · exact rank_returned_lt hopen _
  · next norm gs h =>
      rw [h]
      exact rank_readGroup_lt
  · next r h =>
      rw [h]
      split
      · exact rank_next_lt (by omega)
      · exact rank_judged_lt
  · next answered r h =>
      split
      · rw [h]
        exact rank_next_lt le_rfl
      · rw [h]
        exact rank_next_lt le_rfl
      · exact hends
  · next r h =>
      rw [h]
      split
      · exact rank_next_lt (by omega)
      · show Phase.rank (.inserting r _) < Phase.rank (.queueing r)
        rw [Phase.rank, Phase.rank, Prod.Lex.toLex_lt_toLex]
        exact Or.inr ⟨rfl, by omega⟩
  · next r ssid h =>
      split
      · rw [h]
        exact rank_next_lt le_rfl
      · exact hends
  · next ok h => exact absurd h (hopen ok)

/-- A failure ends the call, or leaves less of it. -/
theorem rank_fail_lt (hopen : ∀ ok, s.phase ≠ .returned ok) :
    Phase.rank (s.fail rules).phase < Phase.rank s.phase := by
  unfold SweepState.fail
  split
  · next r h =>
      rw [h]
      exact rank_judged_lt
  · next ok h => exact absurd h (hopen ok)
  · exact rank_returned_lt hopen _

/-- A step of others leaves as much to do. -/
theorem rank_step (rules : SweepRules) (s : CallState) (e : Event) (hopen : ¬s.idle = true) :
    Phase.rank (step rules s e).sweep.phase ≤ Phase.rank s.sweep.phase ∧
      (e.IsStatement →
        Phase.rank (step rules s e).sweep.phase < Phase.rank s.sweep.phase) := by
  have hphase := idle_eq_false.mp (Bool.not_eq_true _ ▸ hopen)
  have hless : Phase.rank (step rules s e).sweep.phase < Phase.rank s.sweep.phase →
      _ := fun h => And.intro h.le fun _ : e.IsStatement => h
  cases e with
  | statement newCandidateId =>
      apply hless
      rw [step, if_neg hopen]
      exact rank_advance_lt newCandidateId hphase
  | fails =>
      apply hless
      rw [step, if_neg hopen]
      split
      · exact rank_fail_lt hphase
      · exact rank_returned_lt hphase true
  | call limit => exact ⟨by simp [step, hopen], False.elim⟩
  | occupy => exact ⟨by simp [step, hopen], False.elim⟩
  | traffic | edit | vacate => exact ⟨le_rfl, False.elim⟩

/-- A call that goes on taking its steps comes to its end, whatever others do. -/
theorem call_ends (rules : SweepRules) (s : CallState) (later : Nat → Event)
    (hoften : ∀ n, ∃ m, n ≤ m ∧ (later m).IsStatement) :
    ∃ n, (run (step rules) s ((List.range n).map later)).idle = true :=
  exists_done_of_decreasing (fun s : CallState => Phase.rank s.sweep.phase)
    (fun s e hopen => Or.inr (rank_step rules s e hopen).1)
    (fun s e hopen hworks => Or.inr ((rank_step rules s e hopen).2 hworks))
    later hoften s

end Ends

/-- **A sweep without errors starves no group.**  Over any interleaving with writers
that add no group, from any cursor and whatever limits: if no call ends with an
error, then after one call more than there are groups each of them has been
examined, or is no group any more.  And every call ends. -/
theorem starves_no_group (rules : SweepRules) (s : CallState) (hidle : s.idle = true)
    (events : List Event) (hadds : EachStep (step rules) (AddsNoGroup rules) s events)
    (hcarries : EachStep (step rules) (fun s e => Carries s e) s events) :
    (∀ g ∈ groups s.db, (groups s.db).card < (calls rules s events).length →
      g ∈ examined rules s events ∨ g ∉ groups (run (step rules) s events).db) ∧
    ∀ later : Nat → Event, (∀ n, ∃ m, n ≤ m ∧ (later m).IsStatement) →
      ∃ n, (run (step rules) (run (step rules) s events)
        ((List.range n).map later)).idle = true := by
  constructor
  · intro g hg hmany
    have hall : (calls rules s events).count true = (calls rules s events).length :=
      List.count_eq_length.mpr fun ok hok => (ok_of_carries hcarries ok hok).symm
    exact examined_of_completed hidle hadds hg (hall ▸ hmany)
  · exact call_ends rules _

/-- The same pair twice: it is merged, and the second call finds nothing. -/
def twoCalls : List Event :=
  [.call 10, .statement "", .statement "", .statement "", .statement "", .statement "",
    .call 10, .statement "", .statement ""]

/-- A catalogue that no call has looked at. -/
def plainState (catalog : CatalogState) : CallState :=
  ⟨⟨catalog, .returned true, ⟨[], 0, 0, 0, 0, ""⟩⟩, "", 1, false⟩

theorem starves_no_group_twoCalls :
    (∀ g ∈ groups (twins .empty).db,
      (groups (twins .empty).db).card <
          (calls plainSweepRules (plainState (twins .empty)) twoCalls).length →
        g ∈ examined plainSweepRules (plainState (twins .empty)) twoCalls ∨
          g ∉ groups (run (step plainSweepRules) (plainState (twins .empty)) twoCalls).db) ∧
    ∀ later : Nat → Event, (∀ n, ∃ m, n ≤ m ∧ (later m).IsStatement) →
      ∃ n, (run (step plainSweepRules)
        (run (step plainSweepRules) (plainState (twins .empty)) twoCalls)
          ((List.range n).map later)).idle = true :=
  starves_no_group plainSweepRules (plainState (twins .empty)) rfl twoCalls
    (by decide +kernel) (by decide +kernel)

/-! ## A group that always fails

The cursor is where it was before. -/

/-- A call whose first group fails: the works of the group cannot be read. -/
def failingCall (limit : Int) : List Event := [.call limit, .statement "", .fails]

/-- The same call, again and again. -/
def failingCalls (limit : Int) (n : Nat) : List Event :=
  (List.replicate n (failingCall limit)).flatten

/-- Only the statements of this group fail. -/
def FailsOnlyAt (norm : String) (s : CallState) (e : Event) : Prop :=
  e = .fails → examining s.sweep = some norm

section Failing

variable {rules : SweepRules} {s : CallState} {limit : Int} {norm : String}
variable {gs : List String}

/-- A call whose first group fails, from its beginning to its end. -/
theorem failingCall_spec (rules : SweepRules) (hidle : s.idle = true)
    (hfree : s.busy = false)
    (hfirst : aliasGroups s.db (max limit 1) s.cursor = norm :: gs) :
    run (step rules) s (failingCall limit) = s.begun limit (.returned false) ∧
      examined rules s (failingCall limit) = [] ∧
        calls rules s (failingCall limit) = [false] ∧
          EachStep (step rules) (FailsOnlyAt norm) s (failingCall limit) := by
  have hcall : step rules s (.call limit) = s.begun limit (.listing (max limit 1) s.cursor) :=
    step_call hidle hfree limit
  have hlist : step rules (s.begun limit (.listing (max limit 1) s.cursor)) (.statement "") =
      s.begun limit (.grouping (norm :: gs)) := by
    rw [← hfirst]
    rfl
  have hfail : step rules (s.begun limit (.grouping (norm :: gs))) .fails =
      s.begun limit (.returned false) := rfl
  have hfirstCall : returns rules s (.call limit) = none := by simp [returns, hidle]
  refine ⟨?_, ?_, ?_, ?_⟩
  · rw [failingCall, run_cons, hcall, run_cons, hlist, run_cons, hfail, run_nil]
  · rw [examined, failingCall, observations, hcall, observations, hlist, observations]
    rfl
  · rw [calls, failingCall, observations, hcall, observations, hlist, observations, hfirstCall]
    rfl
  · rw [failingCall, eachStep_cons, hcall, eachStep_cons, hlist, eachStep_cons]
    refine ⟨?_, ?_, fun _ => rfl, trivial⟩ <;> intro hfails <;> contradiction

/-- However often it is called, the sweep fails at its first group and examines
nothing. -/
theorem failingCalls_spec (rules : SweepRules) (n : Nat) (hidle : s.idle = true)
    (hfree : s.busy = false)
    (hfirst : aliasGroups s.db (max limit 1) s.cursor = norm :: gs) :
    examined rules s (failingCalls limit n) = [] ∧
      calls rules s (failingCalls limit n) = List.replicate n false ∧
        (run (step rules) s (failingCalls limit n)).db = s.db ∧
          EachStep (step rules) (FailsOnlyAt norm) s (failingCalls limit n) := by
  induction n generalizing s with
  | zero => exact ⟨rfl, rfl, rfl, trivial⟩
  | succ n ih =>
      obtain ⟨hrun, hexamined, hcalls, hfails⟩ := failingCall_spec rules hidle hfree hfirst
      have hsplit : failingCalls limit (n + 1) = failingCall limit ++ failingCalls limit n := by
        simp [failingCalls, List.replicate_succ]
      -- the next call finds what this one found
      obtain ⟨hexamined', hcalls', hdb, hfails'⟩ :=
        ih (s := s.begun limit (.returned false)) rfl hfree hfirst
      unfold examined calls at *
      rw [hsplit, observations_append, observations_append, run_append, eachStep_append, hrun,
        hexamined, hexamined', hcalls, hcalls', hdb]
      exact ⟨rfl, rfl, rfl, hfails, hfails'⟩

end Failing

/-- Two pairs of works with a title each. -/
def twoPairs : CatalogState :=
  ⟨{ Db.empty with
      work := ⟨[(titled "abcde").row "a", (titled "abcde").row "b",
        (titled "fghij").row "c", (titled "fghij").row "d"], by decide⟩
      workAlias := ⟨[⟨"a", "abcde", "abcde", none⟩, ⟨"b", "abcde", "abcde", none⟩,
        ⟨"c", "fghij", "fghij", none⟩, ⟨"d", "fghij", "fghij", none⟩], by decide⟩ },
    ["a", "b", "c", "d"], []⟩

/-- The first of two groups always fails: the second is never examined. -/
theorem not_starves_no_group_twoPairs :
    "fghij" ∈ groups (plainState twoPairs).db ∧
      ∀ n, EachStep (step plainSweepRules) (FailsOnlyAt "abcde") (plainState twoPairs)
          (failingCalls 100 n) ∧
        (calls plainSweepRules (plainState twoPairs) (failingCalls 100 n)).length = n ∧
        "fghij" ∉ examined plainSweepRules (plainState twoPairs) (failingCalls 100 n) ∧
        "fghij" ∈ groups (run (step plainSweepRules) (plainState twoPairs)
          (failingCalls 100 n)).db := by
  have hgroup : "fghij" ∈ groups (plainState twoPairs).db := by decide +kernel
  have hfirst : aliasGroups (plainState twoPairs).db (max 100 1) (plainState twoPairs).cursor =
      ["abcde", "fghij"] := by decide +kernel
  refine ⟨hgroup, fun n => ?_⟩
  obtain ⟨hexamined, hcalls, hdb, hfails⟩ :=
    failingCalls_spec plainSweepRules n (s := plainState twoPairs) rfl rfl hfirst
  rw [hexamined, hcalls, hdb]
  exact ⟨hfails, List.length_replicate, List.not_mem_nil, hgroup⟩

end Komika.Dedup.SweepCalls
