import Komika.Catalog.Effects

/-!
# What the writers leave of the ledger

The rows of `release_event` after the writers that move or fold events.  A
merge keeps, for each chapter key, the earliest event of the two works.  The
move that follows a mapping inserts or ignores: where the new work has an
event for the key already, that one stays and the moved one is gone.

* `mem_moveEvents`, `mem_detachEvents` — where the events of a mapping go, row by row;
  where the new work has no event for the keys that move (`NoRival`), none is dropped;
* `releaseEvent_commitSplit` — the ledger after a split, whose work is new and has no
  rivals;
* `of_mem_releaseEvent_merged`, `exists_le_releaseEvent_merged` — the ledger after a
  merge: no event from nowhere, and none later than before.
-/

namespace Komika.Catalog.Events

open Komika.Lib
open Komika.Catalog.Schema Komika.Catalog.Database Komika.Catalog.Ingest
open Komika.Catalog.Ledger Komika.Catalog.Merge Komika.Catalog.Split
open Komika.Catalog.Effects

/-- Two events are one if they are for one work and one chapter. -/
theorem clash_event {a b : ReleaseEvent} :
    clash a b = true ↔ a.workId = b.workId ∧ a.chapterKey = b.chapterKey := by
  simp [clash]

/-- The ledger has that one key. -/
theorem oneKey_event : Table.OneKey ReleaseEvent :=
  .ofKey (fun r => (r.workId, r.chapterKey)) fun a b => by simp [clash_event]

/-- So an event is known by its work and its chapter. -/
theorem event_eq {t : Table ReleaseEvent} {a b : ReleaseEvent} (ha : a ∈ t)
    (hb : b ∈ t) (hwork : a.workId = b.workId)
    (hkey : a.chapterKey = b.chapterKey) : a = b :=
  Table.eq_of_clash ha hb (clash_event.mpr ⟨hwork, hkey⟩)

@[simp] theorem move_event_workId (w : Id) (e : ReleaseEvent) :
    (move w e).workId = w := rfl

@[simp] theorem move_event_chapterKey (w : Id) (e : ReleaseEvent) :
    (move w e).chapterKey = e.chapterKey := rfl

@[simp] theorem move_event_firstSeenAt (w : Id) (e : ReleaseEvent) :
    (move w e).firstSeenAt = e.firstSeenAt := rfl

theorem move_event_self (e : ReleaseEvent) : move e.workId e = e := rfl

/-- An event is on the work of its column. -/
theorem onWork_event {w : Id} {e : ReleaseEvent} :
    on? e = some w ↔ e.workId = w := by
  simp [on?]

/-- An event follows a mapping that is credited with it, if nothing left on the work
carries its key. -/
theorem follows_iff {db : Db} {oldWork sourceSeriesId : Id} {e : ReleaseEvent} :
    follows db oldWork sourceSeriesId e = true ↔
      e.workId = oldWork ∧ e.firstSourceSeriesId = some sourceSeriesId ∧
        carries db oldWork e.chapterKey = false := by
  simp [follows, and_assoc]

/-- An event on another work stays. -/
theorem follows_of_ne {db : Db} {oldWork sourceSeriesId : Id} {e : ReleaseEvent}
    (h : e.workId ≠ oldWork) : follows db oldWork sourceSeriesId e = false := by
  simp [follows, h]

/-- `earliest` is a choice between two events for one key. -/
theorem earliest_of_clash {old new : ReleaseEvent} (h : clash new old = true) :
    earliest old new = if new.firstSeenAt < old.firstSeenAt then new else old := by
  obtain ⟨hwork, hkey⟩ := clash_event.mp h
  unfold earliest
  split
  · cases new
    simp_all
  · rfl

/-- The earlier of two events of one key is no later than either. -/
theorem earliest_le (old new : ReleaseEvent) (h : clash new old = true) :
    (earliest old new).firstSeenAt ≤ old.firstSeenAt ∧
      (earliest old new).firstSeenAt ≤ new.firstSeenAt := by
  rw [earliest_of_clash h]
  split <;> omega

/-- It is one of the two. -/
theorem earliest_choice (old new : ReleaseEvent) (h : clash new old = true) :
    earliest old new = old ∨ earliest old new = new := by
  rw [earliest_of_clash h]
  split
  · exact .inr rfl
  · exact .inl rfl

/-! ## Events that chapters announce -/

/-- Seeding adds events of works that have mappings, and drops none. -/
theorem workId_of_mem_seeded {rules : SpineRules} {nowMs : Int}
    {p : SourceSeries → Bool} {db : Db} {t : Table ReleaseEvent}
    {x : ReleaseEvent}
    (hx : x ∈ t.insertAllOrIgnore (firstPerKey (announcements rules nowMs p db))) :
    x ∈ t ∨ ∃ ss ∈ db.sourceSeries, ss.workId = x.workId := by
  rcases Table.mem_of_mem_insertAllOrIgnore hx with hx | ⟨hx, -⟩
  · exact .inl hx
  · rcases Table.mem_of_mem_upsertAll earliest_choice hx with hx | hx
    · exact absurd hx (Table.not_mem_empty x)
    · obtain ⟨ss, hss, hx⟩ := List.mem_flatMap.mp hx
      obtain ⟨c, -, hc⟩ := List.mem_filterMap.mp hx
      obtain ⟨seed, -, rfl⟩ := Option.map_eq_some_iff.mp hc
      exact .inr ⟨ss, (List.mem_filter.mp hss).1, rfl⟩

/-! ## Events that follow a mapping -/

section Follow

variable {db : Db} {oldWork newWork : Id} {t : Table ReleaseEvent}
  {e x : ReleaseEvent}

/-- The events after one mapping has moved. -/
theorem mem_moveEvents {sourceSeriesId : Id} (hne : oldWork ≠ newWork) :
    x ∈ moveEvents oldWork newWork sourceSeriesId db t ↔
      (x ∈ t ∧ follows db oldWork sourceSeriesId x = false) ∨
        ∃ e ∈ t, follows db oldWork sourceSeriesId e = true ∧
          x = move newWork e ∧ ∀ y ∈ t, clash x y = false := by
  have hapart : ((t.rows.filter (follows db oldWork sourceSeriesId)).map
      (move newWork)).Pairwise fun a b => clash a b = false := by
    refine List.pairwise_map.mpr ?_
    refine (t.unique.sublist List.filter_sublist).imp_of_mem ?_
    intro a b ha hb hab
    have ha := (follows_iff.mp (List.mem_filter.mp ha).2).1
    have hb := (follows_iff.mp (List.mem_filter.mp hb).2).1
    rw [← Bool.not_eq_true, clash_event] at hab ⊢
    exact fun h => hab ⟨ha.trans hb.symm, h.2⟩
  unfold moveEvents
  rw [Table.mem_deleteWhere, Table.mem_insertAllOrIgnore_iff hapart]
  constructor
  · rintro ⟨hx | ⟨hx, hfree⟩, hstays⟩
    · exact .inl ⟨hx, hstays⟩
    · obtain ⟨e, he, rfl⟩ := List.mem_map.mp hx
      obtain ⟨hmem, hfollows⟩ := List.mem_filter.mp he
      exact .inr ⟨e, hmem, hfollows, rfl, hfree⟩
  · rintro (⟨hx, hstays⟩ | ⟨e, he, hfollows, rfl, hfree⟩)
    · exact ⟨.inl hx, hstays⟩
    · refine ⟨.inr ⟨List.mem_map.mpr ⟨e, List.mem_filter.mpr ⟨he, hfollows⟩,
        rfl⟩, hfree⟩, follows_of_ne ?_⟩
      exact Ne.symm hne

/-- The work has no event for a key that an event of the old work has. -/
def NoRival (t : Table ReleaseEvent) (oldWork newWork : Id) : Prop :=
  ∀ x ∈ t, x.workId = newWork → ∀ e ∈ t, e.workId = oldWork →
    x.chapterKey ≠ e.chapterKey

/-- Where there is no rival every event that follows arrives. -/
theorem mem_moveEvents_of_noRival {sourceSeriesId : Id}
    (hne : oldWork ≠ newWork) (hfree : NoRival t oldWork newWork) :
    x ∈ moveEvents oldWork newWork sourceSeriesId db t ↔
      ∃ e ∈ t, x = if follows db oldWork sourceSeriesId e then move newWork e
        else e := by
  rw [mem_moveEvents hne]
  constructor
  · rintro (⟨hx, hstays⟩ | ⟨e, he, hfollows, rfl, -⟩)
    · exact ⟨x, hx, by simp [hstays]⟩
    · exact ⟨e, he, by simp [hfollows]⟩
  · rintro ⟨e, he, rfl⟩
    cases hfollows : follows db oldWork sourceSeriesId e with
    | false => exact .inl (by simpa using ⟨he, hfollows⟩)
    | true =>
        refine .inr ⟨e, he, hfollows, by simp, fun y hy => ?_⟩
        rw [← Bool.not_eq_true, clash_event]
        rintro ⟨hwork, hkey⟩
        exact hfree y hy hwork.symm e he (follows_iff.mp hfollows).1 hkey.symm

/-- What a move leaves for the moves after it. -/
theorem noRival_moveEvents {sourceSeriesId : Id} (hne : oldWork ≠ newWork)
    (hfree : NoRival t oldWork newWork) :
    NoRival (moveEvents oldWork newWork sourceSeriesId db t) oldWork newWork := by
  intro x hx hxnew e he heold hkey
  obtain ⟨f, hf, rfl⟩ := (mem_moveEvents_of_noRival hne hfree).mp hx
  obtain ⟨g, hg, rfl⟩ := (mem_moveEvents_of_noRival hne hfree).mp he
  by_cases hgfollows : follows db oldWork sourceSeriesId g = true
  · rw [if_pos hgfollows] at heold
    exact hne heold.symm
  · rw [if_neg hgfollows] at heold hkey
    by_cases hffollows : follows db oldWork sourceSeriesId f = true
    · rw [if_pos hffollows] at hkey
      -- two events of the old work with one key are one event
      have heq : f = g := event_eq hf hg
        ((follows_iff.mp hffollows).1.trans heold.symm) hkey
      exact hgfollows (heq ▸ hffollows)
    · rw [if_neg hffollows] at hxnew hkey
      exact hfree f hf hxnew g hg heold hkey

/-- The events after all detached mappings have moved. -/
theorem mem_detachEvents {detached : List Id} (hne : oldWork ≠ newWork)
    (hfree : NoRival t oldWork newWork) :
    x ∈ detachEvents oldWork newWork detached db t ↔
      ∃ e ∈ t, x = if detached.any fun s => follows db oldWork s e
        then move newWork e else e := by
  induction detached generalizing t with
  | nil => simp [detachEvents]
  | cons s detached ih =>
      have hrest : NoRival (moveEvents oldWork newWork s db t) oldWork newWork :=
        noRival_moveEvents hne hfree
      have hmoved : ∀ e : ReleaseEvent,
          (detached.any fun s => follows db oldWork s (move newWork e)) = false := by
        intro e
        refine List.any_eq_false.mpr fun s _ => ?_
        rw [follows_of_ne (Ne.symm hne)]
        simp
      refine (ih hrest).trans ?_
      constructor
      · rintro ⟨f, hf, rfl⟩
        obtain ⟨e, he, rfl⟩ := (mem_moveEvents_of_noRival hne hfree).mp hf
        refine ⟨e, he, ?_⟩
        cases hfollows : follows db oldWork s e <;> simp [hfollows, hmoved]
      · rintro ⟨e, he, rfl⟩
        refine ⟨_, (mem_moveEvents_of_noRival hne hfree).mpr ⟨e, he, rfl⟩, ?_⟩
        cases hfollows : follows db oldWork s e <;> simp [hfollows, hmoved]

/-- The works of the events do not grow beyond the new work. -/
theorem workId_of_mem_moveEvents {sourceSeriesId : Id}
    (hx : x ∈ moveEvents oldWork newWork sourceSeriesId db t) :
    x ∈ t ∨ (x.workId = newWork ∧
      ∃ e ∈ t, follows db oldWork sourceSeriesId e = true) := by
  unfold moveEvents at hx
  rcases Table.mem_of_mem_insertAllOrIgnore (Table.mem_deleteWhere.mp hx).1 with
    hx | ⟨hx, -⟩
  · exact .inl hx
  · obtain ⟨e, he, rfl⟩ := List.mem_map.mp hx
    obtain ⟨hmem, hfollows⟩ := List.mem_filter.mp he
    exact .inr ⟨rfl, e, hmem, hfollows⟩

/-- Events change their work to the new one, or not at all. -/
theorem workId_of_mem_detachEvents {detached : List Id}
    (hx : x ∈ detachEvents oldWork newWork detached db t) :
    x ∈ t ∨ x.workId = newWork := by
  induction detached generalizing t with
  | nil => exact .inl hx
  | cons s detached ih =>
      rcases ih hx with hx | hx
      · exact (workId_of_mem_moveEvents hx).imp_right And.left
      · exact .inr hx

/-- Which events a split moves is read off the mappings it leaves. -/
theorem releaseEvent_commitSplit {rules : TextRules} {plan : SplitPlan}
    {actor : Option Id} {db' : Db} {outcome : SplitOutcome}
    (h : commitSplit rules plan newWork actor db = .ok (outcome, db')) :
    db'.releaseEvent = detachEvents plan.workId newWork
        (plan.detached.map SourceSeriesRow.id) db' db.releaseEvent ∧
      db'.chapter = db.chapter := by
  obtain ⟨-, row, work, lang, -, -, -, rfl⟩ := commitSplit_ok h
  exact ⟨rfl, rfl⟩

end Follow

/-! ## Events of two works that merge -/

section Fold

variable {rules : TextRules} {db : Db} {source target : Id}
  {e x : ReleaseEvent}

/-- A merge offers the source's events to the target and deletes them from the
source. -/
theorem releaseEvent_merged :
    (merged rules source target db).releaseEvent =
      (db.releaseEvent.upsertAll (copiesTo source target db.releaseEvent)
        earliest earliest_keepsKeys).deleteWhere fun r => r.workId = source :=
  rfl

/-- An event after a merge is an event of before, on the work it is on now. -/
theorem of_mem_releaseEvent_merged
    (hx : x ∈ (merged rules source target db).releaseEvent) :
    x.workId ≠ source ∧ ∃ e ∈ db.releaseEvent,
      x = if e.workId = source then move target e else e := by
  rw [releaseEvent_merged, Table.mem_deleteWhere] at hx
  obtain ⟨hx, hoff⟩ := hx
  have hoff : x.workId ≠ source := by simpa using hoff
  refine ⟨hoff, ?_⟩
  rcases Table.mem_of_mem_upsertAll earliest_choice hx with hx | hx
  · exact ⟨x, hx, by rw [if_neg hoff]⟩
  · obtain ⟨old, hold, hon, rfl⟩ := mem_copiesTo.mp hx
    exact ⟨old, hold, by rw [if_pos (onWork_event.mp hon)]⟩

/-- No event of either work is later after the merge. -/
theorem exists_le_releaseEvent_merged (rules : TextRules) (hne : source ≠ target)
    (he : e ∈ db.releaseEvent) :
    ∃ x ∈ (merged rules source target db).releaseEvent,
      x.workId = (if e.workId = source then target else e.workId) ∧
        x.chapterKey = e.chapterKey ∧ x.firstSeenAt ≤ e.firstSeenAt := by
  -- the event as it is offered to the table
  obtain ⟨y, hy, hwork, hkey, hseen⟩ : ∃ y,
      (y ∈ db.releaseEvent ∨ y ∈ copiesTo source target db.releaseEvent) ∧
        y.workId = (if e.workId = source then target else e.workId) ∧
        y.chapterKey = e.chapterKey ∧ y.firstSeenAt = e.firstSeenAt := by
    by_cases hsource : e.workId = source
    · refine ⟨move target e, .inr (mem_copiesTo.mpr
        ⟨e, he, onWork_event.mpr hsource, rfl⟩), ?_, rfl, rfl⟩
      rw [if_pos hsource]
      rfl
    · exact ⟨e, .inl he, by rw [if_neg hsource], rfl, rfl⟩
  obtain ⟨x, hx, hclash, hle⟩ := Table.exists_le_upsertAll
    (h := earliest_keepsKeys) ReleaseEvent.firstSeenAt oneKey_event earliest_le hy
  obtain ⟨hxwork, hxkey⟩ := clash_event.mp hclash
  refine ⟨x, ?_, by rw [← hxwork, hwork], by rw [← hxkey, hkey], by omega⟩
  rw [releaseEvent_merged, Table.mem_deleteWhere]
  refine ⟨hx, ?_⟩
  rw [← hxwork, hwork]
  by_cases hsource : e.workId = source
  · simpa [hsource] using Ne.symm hne
  · simp [hsource]

end Fold

end Komika.Catalog.Events
