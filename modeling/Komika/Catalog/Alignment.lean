import Komika.Catalog.LedgerRuns

/-!
# The ledger and the spine across a split

A release event is aligned when some mapping of its work carries a chapter
with its key.  A split takes mappings away from the old work, and with them the
events that nothing on the old work carries any more; but it takes an event
only if the event is *credited* to a mapping that leaves.

A mapping can lose a chapter that it was the first to announce, while another
keeps carrying it.  If the other leaves, the event stays behind
(`splitAligned_iff`).

The ledger credits an event to the mapping that announced it first, and the split moves
events by that credit, not by which mappings carry the key now.  The equivalence is
between the two: `CreditedToDetached` is what the split looks at, `SplitAligned` what it
should do.

* `mem_releaseEvent_commitSplit` — the events after a split;
* `carriedBy_old`, `carriedBy_new` — what the two works carry then;
* `splitAligned_iff` — when the two agree.
-/

namespace Komika.Catalog.Alignment

open Komika.Lib
open Komika.Catalog.Schema Komika.Catalog.Database Komika.Catalog.Ingest
open Komika.Catalog.Ledger Komika.Catalog.Split Komika.Catalog.Runs
open Komika.Catalog.Effects Komika.Catalog.Events Komika.Catalog.Integrity
open Komika.Catalog.LedgerRuns

/-- Every event's key is carried by a mapping of its work. -/
def Aligned (db : Db) : Prop :=
  ∀ e ∈ db.releaseEvent, carries db e.workId e.chapterKey = true

instance (db : Db) : Decidable (Aligned db) :=
  inferInstanceAs (Decidable
    (∀ e ∈ db.releaseEvent.rows, carries db e.workId e.chapterKey = true))

/-- A mapping of `workId` that is in `ids`, or is not, carries the key. -/
def CarriedBy (db : Db) (workId : Id) (p : Id → Prop) (chapterKey : String) :
    Prop :=
  ∃ c ∈ db.chapter, c.chapterKey = some chapterKey ∧
    ∃ s ∈ db.sourceSeries, s.id = c.sourceSeriesId ∧ s.workId = workId ∧ p s.id

/-- What a split of the mappings `ids` of `workId` off to `newWorkId` should
leave of the ledger of `db`. -/
structure SplitAligned (workId newWorkId : Id) (ids : List Id) (db db' : Db) :
    Prop where
  /-- What stays is carried by what stays. -/
  old : ∀ e ∈ db'.releaseEvent, e.workId = workId →
    CarriedBy db' workId (· ∉ ids) e.chapterKey
  /-- What is on the new work is carried by what left. -/
  new : ∀ e ∈ db'.releaseEvent, e.workId = newWorkId →
    CarriedBy db' newWorkId (· ∈ ids) e.chapterKey
  /-- What the old work no longer carries has moved, with its time. -/
  moved : ∀ e ∈ db.releaseEvent, e.workId = workId →
    carries db' workId e.chapterKey = false →
      ∃ e' ∈ db'.releaseEvent, e'.workId = newWorkId ∧
        e'.chapterKey = e.chapterKey ∧ e'.firstSeenAt = e.firstSeenAt

/-- An event whose key no mapping that stays carries is credited to a mapping
that leaves. -/
def CreditedToDetached (workId : Id) (ids : List Id) (db : Db) : Prop :=
  ∀ e ∈ db.releaseEvent, e.workId = workId →
    ¬CarriedBy db workId (· ∉ ids) e.chapterKey →
      ∃ id ∈ ids, e.firstSourceSeriesId = some id

section Split

variable {rules : TextRules} {seen db db' : Db} {workId newWorkId : Id}
  {ids : List Id} {plan : SplitPlan} {actor : Option Id} {outcome : SplitOutcome}

/-- The rows a split moves are the mappings it was asked for. -/
theorem takesSource_iff (hplan : planSplit rules seen workId ids = .ok plan)
    (s : SourceSeries) :
    takesSource plan.workId plan.detached s = true ↔
      s.workId = workId ∧ s.id ∈ ids := by
  rw [← mem_detached_iff hplan, (planSplit_ok hplan).1]
  simp only [takesSource, List.any_eq_true, Bool.and_eq_true, decide_eq_true_eq,
    List.mem_map]
  constructor
  · rintro ⟨r, hr, hid, hwork⟩
    exact ⟨hwork, r, hr, hid.symm⟩
  · rintro ⟨hwork, r, hr, hid⟩
    exact ⟨r, hr, hid.symm, hwork⟩

/-- On the old work, what is left carries what it carried. -/
theorem carries_old_iff (hplan : planSplit rules seen workId ids = .ok plan)
    (h : commitSplit rules plan newWorkId actor db = .ok (outcome, db'))
    (key : String) :
    carries db' workId key = true ↔ CarriedBy db workId (· ∉ ids) key := by
  have hne : workId ≠ newWorkId := by
    rw [← (planSplit_ok hplan).1]
    exact (commitSplit_found h).2.1
  rw [carries_iff, CarriedBy, (releaseEvent_commitSplit h).2]
  refine exists_congr fun c => and_congr_right fun _ => and_congr_right fun _ => ?_
  simp only [mem_sourceSeries_commitSplit h]
  constructor
  · rintro ⟨s, ⟨old, hold, rfl⟩, hid, hwork⟩
    by_cases htakes : takesSource plan.workId plan.detached old = true
    · rw [if_pos htakes] at hwork
      exact absurd hwork.symm hne
    · rw [if_neg htakes] at hid hwork
      rw [takesSource_iff hplan, not_and] at htakes
      exact ⟨old, hold, hid, hwork, htakes hwork⟩
  · rintro ⟨s, hs, hid, hwork, hstays⟩
    refine ⟨s, ⟨s, hs, ?_⟩, hid, hwork⟩
    rw [if_neg]
    rw [takesSource_iff hplan]
    exact fun htakes => hstays htakes.2

/-- The mappings of the old work after a split are those that stay. -/
theorem carriedBy_old (hplan : planSplit rules seen workId ids = .ok plan)
    (h : commitSplit rules plan newWorkId actor db = .ok (outcome, db'))
    {key : String} (hkept : CarriedBy db workId (· ∉ ids) key) :
    CarriedBy db' workId (· ∉ ids) key := by
  obtain ⟨c, hc, hkey, s, hs, hid, hwork, hstays⟩ := hkept
  refine ⟨c, (releaseEvent_commitSplit h).2 ▸ hc, hkey, s, ?_, hid, hwork, hstays⟩
  refine (mem_sourceSeries_commitSplit h).mpr ⟨s, hs, ?_⟩
  rw [if_neg]
  rw [takesSource_iff hplan]
  exact fun htakes => hstays htakes.2

/-- The mappings of the new work are those that left. -/
theorem carriedBy_new (hplan : planSplit rules seen workId ids = .ok plan)
    (h : commitSplit rules plan newWorkId actor db = .ok (outcome, db'))
    {key : String} (hleft : CarriedBy db workId (· ∈ ids) key) :
    CarriedBy db' newWorkId (· ∈ ids) key := by
  obtain ⟨c, hc, hkey, s, hs, hid, hwork, hleaves⟩ := hleft
  refine ⟨c, (releaseEvent_commitSplit h).2 ▸ hc, hkey, move newWorkId s, ?_, hid,
    rfl, hleaves⟩
  refine (mem_sourceSeries_commitSplit h).mpr ⟨s, hs, ?_⟩
  rw [if_pos ((takesSource_iff hplan s).mpr ⟨hwork, hleaves⟩)]

/-- The split takes this event along. -/
theorem takesEvent_iff (hplan : planSplit rules seen workId ids = .ok plan)
    (h : commitSplit rules plan newWorkId actor db = .ok (outcome, db'))
    (e : ReleaseEvent) :
    ((plan.detached.map SourceSeriesRow.id).any fun id =>
        follows db' plan.workId id e) = true ↔
      e.workId = workId ∧ (∃ id ∈ ids, e.firstSourceSeriesId = some id) ∧
        ¬CarriedBy db workId (· ∉ ids) e.chapterKey := by
  rw [List.any_eq_true, ← carries_old_iff hplan h, Bool.not_eq_true,
    (planSplit_ok hplan).1]
  simp only [mem_detached_iff hplan, follows_iff]
  constructor
  · rintro ⟨id, hid, hwork, hcredit, hcarries⟩
    exact ⟨hwork, ⟨id, hid, hcredit⟩, hcarries⟩
  · rintro ⟨hwork, ⟨id, hid, hcredit⟩, hcarries⟩
    exact ⟨id, hid, hwork, hcredit, hcarries⟩

/-- The events after a split: those it takes have moved, the others stay. -/
theorem mem_releaseEvent_commitSplit (hlinked : Linked db)
    (h : commitSplit rules plan newWorkId actor db = .ok (outcome, db'))
    {x : ReleaseEvent} :
    x ∈ db'.releaseEvent ↔ ∃ e ∈ db.releaseEvent,
      x = if (plan.detached.map SourceSeriesRow.id).any fun id =>
          follows db' plan.workId id e
        then move newWorkId e else e := by
  obtain ⟨hfree, hne, -⟩ := commitSplit_found h
  rw [(releaseEvent_commitSplit h).1]
  refine mem_detachEvents hne fun e he hwork => ?_
  have hlive := hlinked.events e he
  rw [hwork, hfree] at hlive
  contradiction

/-- An aligned event that nothing left behind carries is carried by a mapping
that leaves. -/
theorem carriedBy_detached (haligned : Aligned db) {e : ReleaseEvent}
    (he : e ∈ db.releaseEvent) (hwork : e.workId = workId)
    (hkept : ¬CarriedBy db workId (· ∉ ids) e.chapterKey) :
    CarriedBy db workId (· ∈ ids) e.chapterKey := by
  obtain ⟨c, hc, hkey, s, hs, hid, hswork⟩ := carries_iff.mp (haligned e he)
  refine ⟨c, hc, hkey, s, hs, hid, hswork.trans hwork, ?_⟩
  by_contra hstays
  exact hkept ⟨c, hc, hkey, s, hs, hid, hswork.trans hwork, hstays⟩

/-- **When a split keeps the ledger aligned.**  For every aligned state, every
split that succeeds, whatever state its checks were made in: exactly when the
events that nothing left behind carries are credited to mappings that leave. -/
theorem splitAligned_iff (hlinked : Linked db) (haligned : Aligned db)
    (hplan : planSplit rules seen workId ids = .ok plan)
    (h : commitSplit rules plan newWorkId actor db = .ok (outcome, db')) :
    SplitAligned workId newWorkId ids db db' ↔
      CreditedToDetached workId ids db := by
  have hevents := @mem_releaseEvent_commitSplit rules db db' newWorkId plan actor
    outcome hlinked h
  have htakes := takesEvent_iff hplan h
  have hne : workId ≠ newWorkId := by
    rw [← (planSplit_ok hplan).1]
    exact (commitSplit_found h).2.1
  have hnew : ∀ e ∈ db.releaseEvent, e.workId ≠ newWorkId := by
    intro e he hwork
    have hlive := hlinked.events e he
    rw [hwork, (commitSplit_found h).1] at hlive
    contradiction
  constructor
  · intro hsplit e he hwork hkept
    by_contra hcredit
    -- the event stays, and nothing on the old work carries it
    have hstays : e ∈ db'.releaseEvent := by
      refine hevents.mpr ⟨e, he, ?_⟩
      rw [if_neg]
      rw [htakes]
      exact fun htaken => hcredit htaken.2.1
    obtain ⟨c, hc, hkey, s, hs, hid, hswork, -⟩ := hsplit.old e hstays hwork
    have hcarries := carries_iff.mpr ⟨c, hc, hkey, s, hs, hid, hswork⟩
    exact hkept ((carries_old_iff hplan h _).mp hcarries)
  · intro hcredited
    refine { old := ?_, new := ?_, moved := ?_ }
    · intro x hx hxwork
      obtain ⟨e, he, rfl⟩ := hevents.mp hx
      split at hxwork
      · exact absurd hxwork.symm hne
      · next hstays =>
          rw [if_neg hstays]
          refine carriedBy_old hplan h ?_
          by_contra hkept
          exact hstays ((htakes e).mpr
            ⟨hxwork, hcredited e he hxwork hkept, hkept⟩)
    · intro x hx hxwork
      obtain ⟨e, he, rfl⟩ := hevents.mp hx
      split at hxwork
      · next htaken =>
          rw [if_pos htaken, move_event_chapterKey]
          obtain ⟨hwork, -, hkept⟩ := (htakes e).mp htaken
          exact carriedBy_new hplan h (carriedBy_detached haligned he hwork hkept)
      · exact absurd hxwork (hnew e he)
    · intro e he hwork hcarries
      have hkept : ¬CarriedBy db workId (· ∉ ids) e.chapterKey := by
        rw [← carries_old_iff hplan h, hcarries]
        exact Bool.false_ne_true
      have htaken := (htakes e).mpr ⟨hwork, hcredited e he hwork hkept, hkept⟩
      refine ⟨move newWorkId e, hevents.mpr ⟨e, he, ?_⟩, rfl, rfl, rfl⟩
      rw [if_pos htaken]

end Split

/-! ## A credit that outlives the chapter

The smallest catalogue in which they do not. -/

/-- Mapping `s1` announced chapter 1 of `w`, and `s2` carries it too. -/
def announcedTwice : List Op :=
  [.createWork "w" (titled "dawn"),
    .upsertSourceSeries "s1" "w" "suwayomi" "mangasee" "7" none false "t1",
    .upsertSourceSeries "s2" "w" "suwayomi" "mangafox" "8" none false "t1",
    .upsertChapter "c1" "s1" (chapterOne "7/1" "1970-01-01T00:00:01Z"),
    .upsertChapter "c2" "s2" (chapterOne "8/1" "1970-01-01T00:00:02Z"),
    .seedWork "w" 5000]

/-- The credited mapping leaves with the event it alone still carries. -/
theorem splitAligned_iff_credited_leaves :
    ∃ plan outcome db',
      planSplit plainRules.toTextRules
          (reach plainRules (announcedTwice ++ [.replaceSourceChapters "s2" []])).db
          "w" ["s1"] = .ok plan ∧
        commitSplit plainRules.toTextRules plan "n" none
          (reach plainRules (announcedTwice ++ [.replaceSourceChapters "s2" []])).db =
            .ok (outcome, db') ∧
        SplitAligned "w" "n" ["s1"]
          (reach plainRules (announcedTwice ++ [.replaceSourceChapters "s2" []])).db
          db' := by
  have hplan : planSplit plainRules.toTextRules
      (reach plainRules (announcedTwice ++ [.replaceSourceChapters "s2" []])).db
      "w" ["s1"] = .ok ⟨"w", [⟨"s1", "suwayomi", "7", false, "dawn"⟩], "dawn"⟩ := by
    decide
  have hok : (commitSplit plainRules.toTextRules
      ⟨"w", [⟨"s1", "suwayomi", "7", false, "dawn"⟩], "dawn"⟩ "n" none
      (reach plainRules (announcedTwice ++
        [.replaceSourceChapters "s2" []])).db).isOk = true := by decide
  have hcredit : ∀ e ∈ (reach plainRules (announcedTwice ++
      [.replaceSourceChapters "s2" []])).db.releaseEvent.rows,
      ∃ id ∈ ["s1"], e.firstSourceSeriesId = some id := by decide
  cases hresult : commitSplit plainRules.toTextRules
      ⟨"w", [⟨"s1", "suwayomi", "7", false, "dawn"⟩], "dawn"⟩ "n" none
      (reach plainRules (announcedTwice ++ [.replaceSourceChapters "s2" []])).db with
  | error e =>
      rw [hresult] at hok
      contradiction
  | ok result =>
      refine ⟨_, result.1, result.2, hplan, hresult, ?_⟩
      exact (splitAligned_iff (grounded_reach _ _).linked (by decide) hplan
        hresult).mpr fun e he _ _ => hcredit e he

/-- The credited mapping lost the chapter and stays; the one that carries it
leaves, and the event is left on a work that carries nothing for it. -/
theorem not_splitAligned_credited_stays :
    Aligned (reach plainRules
        (announcedTwice ++ [.replaceSourceChapters "s1" []])).db ∧
      ∃ outcome db',
        splitSourceSeries plainRules.toTextRules "w" ["s2"] "n" none
          (reach plainRules (announcedTwice ++ [.replaceSourceChapters "s1" []])).db =
            .ok (outcome, db') ∧
        ¬SplitAligned "w" "n" ["s2"]
          (reach plainRules (announcedTwice ++ [.replaceSourceChapters "s1" []])).db
          db' := by
  refine ⟨by decide, ?_⟩
  have hleft : ((splitSourceSeries plainRules.toTextRules "w" ["s2"] "n" none
      (reach plainRules (announcedTwice ++
        [.replaceSourceChapters "s1" []])).db).toOption.any fun result =>
          result.2.releaseEvent.rows.any fun e =>
            e.workId = "w" && !carries result.2 "w" e.chapterKey) = true := by
    decide
  cases hresult : splitSourceSeries plainRules.toTextRules "w" ["s2"] "n" none
      (reach plainRules (announcedTwice ++ [.replaceSourceChapters "s1" []])).db with
  | error e =>
      rw [hresult] at hleft
      contradiction
  | ok result =>
      rw [hresult] at hleft
      obtain ⟨e, he, hstays⟩ := List.any_eq_true.mp hleft
      simp only [Bool.and_eq_true, decide_eq_true_eq, Bool.not_eq_true'] at hstays
      refine ⟨result.1, result.2, rfl, fun hsplit => ?_⟩
      obtain ⟨c, hc, hkey, s, hs, hid, hwork, -⟩ := hsplit.old e he hstays.1
      have hcarries := carries_iff.mpr ⟨c, hc, hkey, s, hs, hid, hwork⟩
      rw [hstays.2] at hcarries
      contradiction

end Komika.Catalog.Alignment
