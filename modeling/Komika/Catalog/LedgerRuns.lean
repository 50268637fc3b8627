import Komika.Catalog.Integrity

/-!
# The ledger along runs

`release_event.first_seen_at` says when a chapter of a work was first seen, and
what is new to a reader is decided by it: an event whose time moves forward is
announced again.

`eventHome` is the work an event is on after a step: a merge takes the events of
its source along, and the two moves those that follow a mapping.  A step keeps
the ledger (`KeepsLedger`) when for each work and key the earliest of the
events that come together there is the one it leaves, as a whole row.

Every writer does so but one.  `split_mismatched` inserts or ignores, so an
event that moves onto a work with a later event for its key is lost
(`ledgerMonotone_iff`).

* `keepsEvents_merged`, `keepsEvents_detachEvents` — merges and splits keep the earliest
  event;
* `keepsEvents_moveEvents_iff` — the one move that may not;
* `keepsLedger_iff` — one step, `ledgerMonotone_iff` — a run, followed event by event
  through merges and moves;
* `not_ledgerMonotone_split_mismatched` — the event that is lost.
-/

namespace Komika.Catalog.LedgerRuns

open Komika.Lib
open Komika.Catalog.Schema Komika.Catalog.Database Komika.Catalog.Ingest
open Komika.Catalog.Ledger Komika.Catalog.Merge Komika.Catalog.Split
open Komika.Catalog.Runs Komika.Catalog.Effects Komika.Catalog.Events
open Komika.Catalog.Integrity

/-! ## Moving events between works

What it is to keep the earliest, for the two tables before and after any such
statement. -/

/-- Of the events of `before` that come together on one work with one key, the
earliest is in `after`. -/
def KeepsEvents (home : ReleaseEvent → Id) (before after : Table ReleaseEvent) :
    Prop :=
  ∀ e ∈ before, ∃ first ∈ before,
    home first = home e ∧ first.chapterKey = e.chapterKey ∧
      (∀ other ∈ before, home other = home e →
        other.chapterKey = e.chapterKey → first.firstSeenAt ≤ other.firstSeenAt) ∧
      move (home e) first ∈ after

section Tables

variable {home : ReleaseEvent → Id} {before after : Table ReleaseEvent}

/-- Where no two events come together, each has to be there. -/
theorem KeepsEvents.of_apart
    (hmoved : ∀ e ∈ before, move (home e) e ∈ after)
    (hapart : ∀ e ∈ before, ∀ other ∈ before, home other = home e →
      other.chapterKey = e.chapterKey → other = e) :
    KeepsEvents home before after := by
  intro e he
  refine ⟨e, he, rfl, rfl, fun other hother hwork hkey => ?_, hmoved e he⟩
  rw [hapart e he other hother hwork hkey]

/-- Where every event stays on its work, none has to go. -/
theorem KeepsEvents.of_stays (hhome : ∀ e ∈ before, home e = e.workId)
    (hsub : ∀ e ∈ before, e ∈ after) : KeepsEvents home before after := by
  refine .of_apart (fun e he => ?_) fun e he other hother hwork hkey => ?_
  · rw [hhome e he, move_event_self]
    exact hsub e he
  · rw [hhome e he, hhome other hother] at hwork
    exact event_eq hother he hwork hkey

/-- A merge keeps the earliest. -/
theorem keepsEvents_merged {rules : TextRules} {source target : Id} {db : Db}
    (hne : source ≠ target) :
    KeepsEvents (fun e => if e.workId = source then target else e.workId)
      db.releaseEvent (merged rules source target db).releaseEvent := by
  intro e he
  obtain ⟨x, hx, hwork, hkey, -⟩ := exists_le_releaseEvent_merged rules hne he
  obtain ⟨-, first, hfirst, hxfirst⟩ := of_mem_releaseEvent_merged hx
  have hhome : (if first.workId = source then target else first.workId) =
      x.workId := by
    rw [hxfirst]
    split <;> rfl
  have hmove : move x.workId first = x := by
    rw [← hhome, hxfirst]
    split
    · rfl
    · exact move_event_self first
  have hfirstKey : first.chapterKey = x.chapterKey := by
    rw [← hmove, move_event_chapterKey]
  have hseen : first.firstSeenAt = x.firstSeenAt := by
    rw [← hmove, move_event_firstSeenAt]
  refine ⟨first, hfirst, hhome.trans hwork, hfirstKey.trans hkey,
    fun other hother hotherHome hotherKey => ?_, ?_⟩
  · -- what the merge leaves for `other` is the same row
    obtain ⟨y, hy, hyWork, hyKey, hle⟩ := exists_le_releaseEvent_merged rules
      hne hother
    have heq : y = x := event_eq hy hx
      (hyWork.trans (hotherHome.trans hwork.symm))
      (hyKey.trans (hotherKey.trans hkey.symm))
    rw [hseen, ← heq]
    exact hle
  · have hrow : move (if e.workId = source then target else e.workId) first = x := by
      rw [← hwork, hmove]
    exact hrow ▸ hx

/-- The events that follow the detached mappings move to a work that has
none. -/
theorem keepsEvents_detachEvents {oldWork newWork : Id} {detached : List Id}
    {db : Db} (hne : oldWork ≠ newWork)
    (hnone : ∀ e ∈ before, e.workId ≠ newWork) :
    KeepsEvents (fun e =>
        if detached.any fun s => follows db oldWork s e then newWork else e.workId)
      before (detachEvents oldWork newWork detached db before) := by
  have hfree : NoRival before oldWork newWork :=
    fun x hx hwork => absurd hwork (hnone x hx)
  have hold : ∀ e : ReleaseEvent,
      (detached.any fun s => follows db oldWork s e) = true →
        e.workId = oldWork := by
    intro e hany
    obtain ⟨s, -, hfollows⟩ := List.any_eq_true.mp hany
    exact (follows_iff.mp hfollows).1
  refine .of_apart (fun e he => ?_) fun e he other hother hwork hkey => ?_
  · refine (mem_detachEvents hne hfree).mpr ⟨e, he, ?_⟩
    split
    · rfl
    · exact move_event_self e
  · refine event_eq hother he ?_ hkey
    by_cases hany : (detached.any fun s => follows db oldWork s e) = true
    · by_cases hany' : (detached.any fun s => follows db oldWork s other) = true
      · rw [hold e hany, hold other hany']
      · rw [if_pos hany, if_neg hany'] at hwork
        exact absurd hwork (hnone other hother)
    · by_cases hany' : (detached.any fun s => follows db oldWork s other) = true
      · rw [if_neg hany, if_pos hany'] at hwork
        exact absurd hwork.symm (hnone e he)
      · rwa [if_neg hany, if_neg hany'] at hwork

/-- The move of one mapping's events keeps the earliest exactly when no event
it moves meets a later one. -/
theorem keepsEvents_moveEvents_iff {oldWork newWork sourceSeriesId : Id}
    {db : Db} (hne : oldWork ≠ newWork) :
    KeepsEvents (fun e =>
        if follows db oldWork sourceSeriesId e then newWork else e.workId)
      before (moveEvents oldWork newWork sourceSeriesId db before) ↔
      ∀ e ∈ before, follows db oldWork sourceSeriesId e = true →
        ∀ rival ∈ before, rival.workId = newWork →
          rival.chapterKey = e.chapterKey → rival.firstSeenAt ≤ e.firstSeenAt := by
  have hstays : ∀ x ∈ before, x.workId = newWork →
      follows db oldWork sourceSeriesId x = false := by
    intro x _ hwork
    exact follows_of_ne fun h => hne (h.symm.trans hwork)
  constructor
  · intro h e he hfollows rival hrival hwork hkey
    obtain ⟨first, -, -, hfirstKey, hleast, hmem⟩ := h e he
    simp only [hfollows, if_true] at hmem hleast
    have hrivalAfter : rival ∈ moveEvents oldWork newWork sourceSeriesId db before :=
      (mem_moveEvents hne).mpr (.inl ⟨hrival, hstays rival hrival hwork⟩)
    have heq : rival = move newWork first := event_eq hrivalAfter hmem hwork
      (hkey.trans hfirstKey.symm)
    rw [heq, move_event_firstSeenAt]
    exact hleast e he (by rw [if_pos hfollows]) rfl
  · intro h e he
    by_cases hfollows : follows db oldWork sourceSeriesId e = true
    · have heold := (follows_iff.mp hfollows).1
      -- an event that comes together with `e` is `e` or the target's own
      have hmeet : ∀ other ∈ before,
          (if follows db oldWork sourceSeriesId other then newWork
            else other.workId) = newWork →
          other.chapterKey = e.chapterKey → other = e ∨ other.workId = newWork := by
        intro other hother hwork hkey
        by_cases hfollows' : follows db oldWork sourceSeriesId other = true
        · exact .inl (event_eq hother he
            ((follows_iff.mp hfollows').1.trans heold.symm) hkey)
        · rw [if_neg hfollows'] at hwork
          exact .inr hwork
      simp only [hfollows, if_true]
      by_cases hrival : ∃ rival ∈ before, rival.workId = newWork ∧
          rival.chapterKey = e.chapterKey
      · obtain ⟨rival, hrival, hwork, hkey⟩ := hrival
        have hstay := hstays rival hrival hwork
        refine ⟨rival, hrival, by simp [hstay, hwork], hkey, ?_, ?_⟩
        · intro other hother hotherWork hotherKey
          rcases hmeet other hother hotherWork hotherKey with rfl | hother'
          · exact h other he hfollows rival hrival hwork hkey
          · rw [event_eq hother hrival (hother'.trans hwork.symm)
              (hotherKey.trans hkey.symm)]
        · have hrow : move newWork rival = rival := by
            rw [← hwork, move_event_self]
          rw [hrow]
          exact (mem_moveEvents hne).mpr (.inl ⟨hrival, hstay⟩)
      · refine ⟨e, he, by simp [hfollows], rfl, ?_, ?_⟩
        · intro other hother hotherWork hotherKey
          rcases hmeet other hother hotherWork hotherKey with rfl | hother'
          · exact Int.le_refl _
          · exact absurd ⟨other, hother, hother', hotherKey⟩ hrival
        · refine (mem_moveEvents hne).mpr
            (.inr ⟨e, he, hfollows, rfl, fun y hy => ?_⟩)
          rw [← Bool.not_eq_true, clash_event]
          rintro ⟨hwork, hkey⟩
          exact hrival ⟨y, hy, hwork.symm, hkey.symm⟩
    · simp only [hfollows]
      refine ⟨e, he, by simp [hfollows], rfl, ?_, ?_⟩
      · intro other hother hotherWork hotherKey
        by_cases hfollows' : follows db oldWork sourceSeriesId other = true
        · rw [if_pos hfollows'] at hotherWork
          exact h other hother hfollows' e he hotherWork.symm hotherKey.symm
        · rw [if_neg hfollows'] at hotherWork
          rw [event_eq hother he hotherWork hotherKey]
      · simp only [Bool.false_eq_true, if_false, move_event_self]
        exact (mem_moveEvents hne).mpr (.inl ⟨he, by simpa using hfollows⟩)

end Tables

/-! ## Steps

Which step can lose an event: none of those that add, merge or split. -/

/-- The work an event is on after a step. -/
def eventHome (rules : Rules) (s : CatalogState) (op : Op) (e : ReleaseEvent) :
    Id :=
  match op with
  | .mergeWorks source target expected =>
      match mergeWorksChecked rules.toTextRules source target expected s.db with
      | .ok _ => if e.workId = source then target else e.workId
      | .error _ => e.workId
  | .commitSplit i newWorkId actor =>
      match s.fresh op, s.plans[i]? with
      | true, some plan =>
          match commitSplit rules.toTextRules plan newWorkId actor s.db with
          | .ok (_, db') =>
              if (plan.detached.map SourceSeriesRow.id).any fun ssId =>
                  follows db' plan.workId ssId e
              then newWorkId else e.workId
          | .error _ => e.workId
      | _, _ => e.workId
  | .splitMismatchedRow row =>
      match row.destination, splitMismatchedRow row s.db with
      | some target, .ok (_, db') =>
          if follows db' row.workId row.sourceSeriesId e then target else e.workId
      | _, _ => e.workId
  | _ => e.workId

/-- The step leaves, of the events that come together, the earliest. -/
def KeepsLedger (rules : Rules) (s : CatalogState) (op : Op) : Prop :=
  KeepsEvents (eventHome rules s op) s.db.releaseEvent
    (s.step rules op).db.releaseEvent

/-- The event is credited to the mapping, and no other mapping of the work
carries its key. -/
def leaves (db : Db) (workId sourceSeriesId : Id) (e : ReleaseEvent) : Bool :=
  e.workId = workId && e.firstSourceSeriesId = some sourceSeriesId &&
    !db.chapter.rows.any fun c =>
      c.chapterKey = some e.chapterKey && db.sourceSeries.rows.any fun s =>
        s.id = c.sourceSeriesId && s.workId = workId && s.id ≠ sourceSeriesId

/-- A mapping that `split_mismatched` moves takes no event onto a work that
has a later one for its key. -/
def NoLaterRival (s : CatalogState) (op : Op) : Prop :=
  ∀ row, op = .splitMismatchedRow row → ∀ target, row.destination = some target →
    ∀ e ∈ s.db.releaseEvent, leaves s.db row.workId row.sourceSeriesId e = true →
      ∀ rival ∈ s.db.releaseEvent, rival.workId = target →
        rival.chapterKey = e.chapterKey → rival.firstSeenAt ≤ e.firstSeenAt

/-- The step deletes no work outright. -/
def keepsWorks : Op → Bool
  | .deleteWorkCascade _ | .purgeForeignLanguageSuwayomi => false
  | _ => true

/-- A mapping is moved to another work. -/
theorem destination_ne {row : ClassifiedRow} {target : Id}
    (h : row.destination = some target) : row.workId ≠ target := by
  unfold ClassifiedRow.destination at h
  split at h
  · obtain ⟨owner, -, h⟩ := Option.bind_eq_some_iff.mp h
    split at h
    · contradiction
    · next hne =>
        cases h
        exact Ne.symm hne
  · contradiction

/-- The mapping is gone from its old work when its events are asked to
follow. -/
theorem follows_moved {row : ClassifiedRow} {target : Id} {db : Db}
    (hne : row.workId ≠ target) (e : ReleaseEvent) :
    follows { db with
        sourceSeries := db.sourceSeries.update
          (fun s => s.id = row.sourceSeriesId) (move target)
          (moveSourceSeries_keepsKeys target) }
      row.workId row.sourceSeriesId e = leaves db row.workId row.sourceSeriesId e := by
  have hcarries : ∀ c : Chapter,
      (∃ s ∈ db.sourceSeries.update (fun s => s.id = row.sourceSeriesId)
          (move target) (moveSourceSeries_keepsKeys target),
        s.id = c.sourceSeriesId ∧ s.workId = row.workId) ↔
      ∃ s ∈ db.sourceSeries, (s.id = c.sourceSeriesId ∧ s.workId = row.workId) ∧
        s.id ≠ row.sourceSeriesId := by
    intro c
    constructor
    · rintro ⟨s, hs, hid, hwork⟩
      obtain ⟨old, hold, rfl⟩ := Table.mem_update.mp hs
      by_cases hmoved : old.id = row.sourceSeriesId
      · rw [if_pos (decide_eq_true hmoved)] at hwork
        exact absurd hwork.symm hne
      · rw [if_neg (by simpa using hmoved)] at hid hwork
        exact ⟨old, hold, ⟨hid, hwork⟩, hmoved⟩
    · rintro ⟨s, hs, ⟨hid, hwork⟩, hother⟩
      refine ⟨s, Table.mem_update.mpr ⟨s, hs, ?_⟩, hid, hwork⟩
      rw [if_neg (by simpa using hother)]
  rw [Bool.eq_iff_iff, follows_iff]
  simp only [leaves, Bool.and_eq_true, decide_eq_true_eq, Bool.not_eq_true',
    and_assoc]
  refine and_congr_right fun _ => and_congr_right fun _ => ?_
  rw [← Bool.not_eq_true, ← Bool.not_eq_true, carries_iff]
  refine not_congr ?_
  simp only [List.any_eq_true, Table.mem_rows, Bool.and_eq_true,
    decide_eq_true_eq, ne_eq]
  exact exists_congr fun c => and_congr_right fun _ => and_congr_right fun _ =>
    hcarries c

section Steps

variable {rules : Rules} {s : CatalogState} {op : Op}

/-- A step that only adds events. -/
theorem keepsLedger_of_adds (hhome : ∀ e, eventHome rules s op e = e.workId)
    (hsub : ∀ e ∈ s.db.releaseEvent, e ∈ (s.step rules op).db.releaseEvent) :
    KeepsLedger rules s op :=
  .of_stays (fun e _ => hhome e) hsub

/-- A merge keeps the ledger, and so does one that fails. -/
theorem keepsLedger_mergeWorks {source target : Id}
    {expected : Option (WorkIdentity × WorkIdentity)} :
    KeepsLedger rules s (.mergeWorks source target expected) := by
  have hstep : (s.step rules (.mergeWorks source target expected)).db =
      s.db.commit (mergeWorksChecked rules.toTextRules source target expected
        s.db) := step_db_of_fresh rfl
  cases hresult : mergeWorksChecked rules.toTextRules source target expected s.db with
  | error e =>
      refine keepsLedger_of_adds (fun e => by simp [eventHome, hresult])
        fun e he => ?_
      rwa [hstep, hresult]
  | ok result =>
      obtain ⟨outcome, db'⟩ := result
      obtain ⟨hne, -, -, -, rfl⟩ := merge_ok hresult
      have hhome : eventHome rules s (.mergeWorks source target expected) =
          fun e => if e.workId = source then target else e.workId := by
        funext e
        simp [eventHome, hresult]
      unfold KeepsLedger
      rw [hhome, hstep, hresult]
      exact keepsEvents_merged hne

/-- A split keeps it, since the new work has no events yet. -/
theorem keepsLedger_commitSplit (h : Grounded s) {i : Nat} {newWorkId : Id}
    {actor : Option Id} :
    KeepsLedger rules s (.commitSplit i newWorkId actor) := by
  cases hfresh : s.fresh (.commitSplit i newWorkId actor) with
  | false =>
      refine keepsLedger_of_adds (fun e => by simp [eventHome, hfresh])
        fun e he => ?_
      rwa [step_of_not_fresh hfresh]
  | true =>
      have hstep : (s.step rules (.commitSplit i newWorkId actor)).db =
          s.write rules (.commitSplit i newWorkId actor) :=
        step_db_of_fresh hfresh
      unfold CatalogState.write at hstep
      cases hplan : s.plans[i]? with
      | none =>
          refine keepsLedger_of_adds (fun e => by simp [eventHome, hfresh, hplan])
            fun e he => ?_
          simpa [hstep, hplan] using he
      | some plan =>
          simp only [hplan] at hstep
          cases hresult : commitSplit rules.toTextRules plan newWorkId actor s.db with
          | error e =>
              refine keepsLedger_of_adds
                (fun e => by simp [eventHome, hfresh, hplan, hresult])
                fun e he => ?_
              rwa [hstep, hresult]
          | ok result =>
              obtain ⟨outcome, db'⟩ := result
              obtain ⟨hfree, hne, -⟩ := commitSplit_found hresult
              have hhome : eventHome rules s (.commitSplit i newWorkId actor) =
                  fun e => if (plan.detached.map SourceSeriesRow.id).any fun ssId =>
                      follows db' plan.workId ssId e
                    then newWorkId else e.workId := by
                funext e
                simp only [eventHome, hfresh, hplan, hresult]
              unfold KeepsLedger
              rw [hhome, hstep, hresult, commit_ok,
                (releaseEvent_commitSplit hresult).1]
              refine keepsEvents_detachEvents hne fun e he hwork => ?_
              have hlive := h.linked.events e he
              rw [hwork, hfree] at hlive
              contradiction

/-- Every writer but one keeps the ledger. -/
theorem keepsLedger_of_ne (h : Grounded s) (hworks : keepsWorks op = true)
    (hop : ∀ row, op ≠ .splitMismatchedRow row) : KeepsLedger rules s op := by
  by_cases hevents : keepsEvents op = true
  · refine keepsLedger_of_adds (fun e => by cases op <;> first | rfl | contradiction)
      fun e he => ?_
    cases hfresh : s.fresh op with
    | true => rwa [step_db_of_fresh hfresh, write_releaseEvent hevents]
    | false => rwa [step_of_not_fresh hfresh]
  cases op with
  | mergeWorks source target expected => exact keepsLedger_mergeWorks
  | commitSplit i newWorkId actor => exact keepsLedger_commitSplit h
  | seedWork workId nowMs =>
      exact keepsLedger_of_adds (fun _ => rfl) fun e he =>
        Table.mem_insertAllOrIgnore_of_mem he
  | recordSourceSeries sourceSeriesId nowMs =>
      exact keepsLedger_of_adds (fun _ => rfl) fun e he =>
        Table.mem_insertAllOrIgnore_of_mem he
  | splitMismatchedRow row => exact absurd rfl (hop row)
  | deleteWorkCascade | purgeForeignLanguageSuwayomi => contradiction
  | createWork | upsertWorkFromMangadex | upsertSourceSeries | addWorkAlias
  | removeWorkAlias | planSplit | cacheSeries | upsertChapter
  | replaceSourceChapters => exact absurd rfl hevents

/-- The move of a mapping keeps it exactly if no event that it takes meets a later
one. -/
theorem keepsLedger_splitMismatchedRow_iff (h : Grounded s) {row : ClassifiedRow} :
    KeepsLedger rules s (.splitMismatchedRow row) ↔
      NoLaterRival s (.splitMismatchedRow row) := by
  have hstep : (s.step rules (.splitMismatchedRow row)).db =
      s.db.commit (splitMismatchedRow row s.db) := step_db_of_fresh rfl
  have hrow : NoLaterRival s (.splitMismatchedRow row) ↔
      ∀ target, row.destination = some target → ∀ e ∈ s.db.releaseEvent,
        leaves s.db row.workId row.sourceSeriesId e = true →
        ∀ rival ∈ s.db.releaseEvent, rival.workId = target →
          rival.chapterKey = e.chapterKey → rival.firstSeenAt ≤ e.firstSeenAt :=
    ⟨fun h => h row rfl, fun h row' heq => by cases heq; exact h⟩
  rw [hrow]
  cases hresult : splitMismatchedRow row s.db with
  | error err =>
      -- nothing moves, and no event is on the missing target
      refine iff_of_true (keepsLedger_of_adds
        (fun e => by cases hd : row.destination <;> simp [eventHome, hd, hresult])
        fun e he => by rwa [hstep, hresult]) ?_
      intro target htarget e _ _ rival hrival hwork
      have hlive := h.linked.events rival hrival
      simp [splitMismatchedRow, htarget, ← hwork, hlive] at hresult
  | ok result =>
      obtain ⟨u, db'⟩ := result
      rcases splitMismatchedRow_ok hresult with
        ⟨hnone, rfl⟩ | ⟨target, htarget, -, moved, hmoved, rfl⟩
      · refine iff_of_true (keepsLedger_of_adds
          (fun e => by simp [eventHome, hnone]) fun e he => ?_) ?_
        · rwa [hstep, hresult]
        · intro target htarget
          rw [hnone] at htarget
          contradiction
      · have hne := destination_ne htarget
        have hhome : eventHome rules s (.splitMismatchedRow row) = fun e =>
            if follows moved row.workId row.sourceSeriesId e then target
            else e.workId := by
          funext e
          simp only [eventHome, htarget, hresult]
          rfl
        have hfollows : ∀ e, follows moved row.workId row.sourceSeriesId e =
            leaves s.db row.workId row.sourceSeriesId e := by
          intro e
          rw [hmoved]
          exact follows_moved hne e
        unfold KeepsLedger
        rw [hhome, hstep, hresult, commit_ok, keepsEvents_moveEvents_iff hne]
        simp only [hfollows, htarget, Option.some.injEq, forall_eq']

/-- One step of `ledgerMonotone_iff`. -/
theorem keepsLedger_iff (h : Grounded s) (hworks : keepsWorks op = true) :
    KeepsLedger rules s op ↔ NoLaterRival s op := by
  by_cases hop : ∃ row, op = .splitMismatchedRow row
  · obtain ⟨row, rfl⟩ := hop
    exact keepsLedger_splitMismatchedRow_iff h
  · push Not at hop
    exact iff_of_true (keepsLedger_of_ne h hworks hop)
      fun row heq => absurd heq (hop row)

end Steps

/-! ## Runs -/

/-- The work the event for `chapterKey` is on after a run, if it was on
`workId` before. -/
def homeAlong (rules : Rules) (s : CatalogState) :
    List Op → Id → String → Id
  | [], workId, _ => workId
  | op :: ops, workId, chapterKey =>
      let home := match s.db.releaseEvent.rows.find? fun e =>
          e.workId = workId && e.chapterKey = chapterKey with
        | some e => eventHome rules s op e
        | none => workId
      homeAlong rules (s.step rules op) ops home chapterKey

/-- Each step of the run keeps the earliest of the events that come together,
and no event is lost or made later by the run as a whole. -/
structure LedgerMonotone (rules : Rules) (s : CatalogState) (ops : List Op) :
    Prop where
  each : Machine.EachStep (CatalogState.step rules) (KeepsLedger rules) s ops
  along : ∀ e ∈ s.db.releaseEvent,
    ∃ later ∈ (Machine.run (CatalogState.step rules) s ops).db.releaseEvent,
      later.workId = homeAlong rules s ops e.workId e.chapterKey ∧
        later.chapterKey = e.chapterKey ∧ later.firstSeenAt ≤ e.firstSeenAt

/-- An event is found by its work and key. -/
theorem find_event {t : Table ReleaseEvent} {e : ReleaseEvent} (he : e ∈ t) :
    (t.rows.find? fun x => x.workId = e.workId && x.chapterKey = e.chapterKey) =
      some e := by
  refine (Table.find?_eq_some_iff ?_).mpr ⟨he, by simp⟩
  intro a b ha hb
  simp only [Bool.and_eq_true, decide_eq_true_eq] at ha hb
  exact clash_event.mpr ⟨ha.1.trans hb.1.symm, ha.2.trans hb.2.symm⟩

/-- What each step keeps, the run keeps. -/
theorem LedgerMonotone.of_each {rules : Rules} {s : CatalogState} {ops : List Op}
    (h : Machine.EachStep (CatalogState.step rules) (KeepsLedger rules) s ops) :
    LedgerMonotone rules s ops := by
  refine ⟨h, ?_⟩
  induction ops generalizing s with
  | nil => exact fun e he => ⟨e, he, rfl, rfl, Int.le_refl _⟩
  | cons op ops ih =>
      intro e he
      obtain ⟨hstep, hrest⟩ := Machine.eachStep_cons.mp h
      obtain ⟨first, -, -, hkey, hleast, hmem⟩ := hstep e he
      obtain ⟨later, hlater, hwork, hlaterKey, hle⟩ := ih hrest _ hmem
      refine ⟨later, hlater, ?_, hlaterKey.trans hkey,
        Int.le_trans hle (hleast e he rfl rfl)⟩
      rw [hwork]
      simp only [homeAlong, find_event he, move_event_workId,
        move_event_chapterKey, hkey]

/-- **When the ledger is monotone.**  From any reachable state, along any run
that deletes no work outright, events keep their earliest time, and the row it
came with, exactly when no mapping that `split_mismatched` moves takes an event
onto a work with a later one. -/
theorem ledgerMonotone_iff (rules : Rules) (before ops : List Op)
    (hworks : ∀ op ∈ ops, keepsWorks op = true) :
    LedgerMonotone rules (reach rules before) ops ↔
      Machine.EachStep (CatalogState.step rules) NoLaterRival
        (reach rules before) ops := by
  have hiff : Machine.EachStep (CatalogState.step rules)
      (fun s op => KeepsLedger rules s op ↔ NoLaterRival s op)
      (reach rules before) ops :=
    Machine.EachStep.of_invariant (fun s op h _ => grounded_step h)
      (fun s op h hop => keepsLedger_iff h hop) (grounded_reach rules before)
      (Machine.eachStep_of_forall hworks)
  constructor
  · intro h
    exact (h.each.and hiff).mono fun s op hboth => hboth.2.mp hboth.1
  · intro h
    exact .of_each ((h.and hiff).mono fun s op hboth => hboth.2.mpr hboth.1)

/-! ## The move that loses the earlier event

The target's event stays, even if it is the later one. -/

/-- Chapter 1 of a source, released at `publishedAt`. -/
def chapterOne (externalId publishedAt : String) : ChapterInput :=
  { externalId := externalId, number := some "1", volume := none
    lang := some "en", title := none, publishedAt := some publishedAt
    readableAt := none, externalUrl := none, scanlator := none }

/-- Two works with MangaDex anchors; `w` saw chapter 1 a second before `x`
did, from the mapping `s1`. -/
def twoWorks : List Op :=
  [.upsertWorkFromMangadex "w" "m1" "uuid-w" (titled "dawn") "t1",
    .upsertWorkFromMangadex "x" "m2" "uuid-x" (titled "dusk") "t1",
    .upsertSourceSeries "s1" "w" "suwayomi" "mangasee" "7" none false "t1",
    .upsertChapter "c1" "s1" (chapterOne "7/1" "1970-01-01T00:00:01Z"),
    .upsertChapter "c2" "m2" (chapterOne "uuid-c" "1970-01-01T00:00:02Z"),
    .recordSourceSeries "s1" 5000, .recordSourceSeries "m2" 5000]

/-- A move onto a work whose event is the earlier one is fine. -/
theorem ledgerMonotone_iff_earlier_rival :
    LedgerMonotone plainRules (reach plainRules twoWorks)
      [.splitMismatchedRow ⟨"m2", "x", some "uuid-w", 1, false, some "w"⟩] := by
  refine (ledgerMonotone_iff plainRules twoWorks _ (by decide)).mpr ⟨?_, trivial⟩
  have hearlier : ∀ e ∈ (reach plainRules twoWorks).db.releaseEvent.rows,
      ∀ rival ∈ (reach plainRules twoWorks).db.releaseEvent.rows,
        rival.workId = "w" → rival.firstSeenAt ≤ e.firstSeenAt := by decide
  intro row heq target htarget e he _ rival hrival hwork _
  cases heq
  cases htarget
  exact hearlier e he rival hrival hwork

/-- A move onto a work whose event is the later one: the earlier is gone, and
the chapter is new again. -/
theorem not_ledgerMonotone_split_mismatched :
    ¬LedgerMonotone plainRules (reach plainRules twoWorks)
      [.splitMismatchedRow ⟨"s1", "w", some "uuid-x", 1, false, some "x"⟩] := by
  intro h
  have hbefore : (⟨"w", "100", 1000, some "s1", "1"⟩ : ReleaseEvent) ∈
      (reach plainRules twoWorks).db.releaseEvent.rows := by decide
  obtain ⟨later, hlater, -, hkey, hle⟩ := h.along _ hbefore
  have hlate : ∀ e ∈ (reach plainRules (twoWorks ++
        [.splitMismatchedRow ⟨"s1", "w", some "uuid-x", 1, false, some "x"⟩])
      ).db.releaseEvent.rows, e.chapterKey = "100" → ¬e.firstSeenAt ≤ 1000 := by
    decide
  exact hlate later hlater hkey hle

end Komika.Catalog.LedgerRuns
