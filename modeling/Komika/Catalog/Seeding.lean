import Komika.Catalog.Conservation

/-!
# The seed of the ledger

`seed_batch` of `catalog/ledger.rs` is called until it returns 0.  There is no
cursor: the work-list, the insert and the progress count each ask the database
which seedable chapters have no event, so the seed terminates because the
insert leaves none of them for a work of the list.

`INSERT OR IGNORE` never rewrites an event, so one that is later than the
clock when the seed starts stays; finding it is up to
`assert_no_future_events`.

The measure that falls is the length of the work-list: a seeded work leaves the list and
none comes to it.  What the calls leave behind is followed by `Grown`, which one
statement keeps and the run therefore keeps.

* `mem_pendingWorks_seedWork` — what seeding one work does to the work-list;
* `length_pendingWorks_seedBatch` — a batch that seeds something shortens it;
* `of_mem_seedWork` — an event that is new is the earliest of its key;
* `seed_completes` — from every state the seed ends, and the ledger then covers the
  spine.
-/

namespace Komika.Catalog.Seeding

open Komika.Lib
open Komika.Catalog.Schema Komika.Catalog.Database Komika.Catalog.Ledger
open Komika.Catalog.Events

/-! ## The statements

Three statements ask which chapters have no event: the work-list, the insert and the
count.  They agree because they share one subquery. -/

/-- `SEED_BATCH`: how many works one call seeds. -/
def seedBatchSize : Nat := 100

/-- `source_series ss JOIN chapter c ON c.source_series_id = ss.id`. -/
def spine (db : Db) : List (SourceSeries × Chapter) :=
  db.sourceSeries.rows.flatMap fun ss =>
    (db.chapter.rows.filter fun c => c.sourceSeriesId = ss.id).map fun c => (ss, c)

/-- The ledger has an event for the chapter. -/
def recorded (db : Db) (r : SourceSeries × Chapter) : Bool :=
  db.releaseEvent.rows.any fun e =>
    e.workId = r.1.workId && r.2.chapterKey = some e.chapterKey

/-- The seedable chapters that have no event: `WHERE` of the work-list and of
the count. -/
def pendingRows (rules : SpineRules) (nowMs : Int) (db : Db) :
    List (SourceSeries × Chapter) :=
  (spine db).filter fun r =>
    (seedable rules nowMs r.2).isSome && !recorded db r

/-- `SELECT DISTINCT ss.work_id`: the works with a chapter that no event has. -/
def pendingWorks (rules : SpineRules) (nowMs : Int) (db : Db) : List Id :=
  ((pendingRows rules nowMs db).map fun r => r.1.workId).dedup

/-- `seed_work` for each work of the list. -/
def seedWorks (rules : SpineRules) (nowMs : Int) (works : List Id) (db : Db) :
    Db :=
  works.foldl (fun db workId => seedWork rules workId nowMs db) db

/-- `seed_batch`: how many works it seeded. -/
def seedBatch (rules : SpineRules) (nowMs : Int) (db : Db) : Nat × Db :=
  let works := (pendingWorks rules nowMs db).take seedBatchSize
  if works = [] then (0, db)
  else (works.length, seedWorks rules nowMs works db)

/-- The database after `n` calls of `seed_batch`. -/
def afterBatches (rules : SpineRules) (nowMs : Int) : Nat → Db → Db
  | 0, db => db
  | n + 1, db => afterBatches rules nowMs n (seedBatch rules nowMs db).2

/-- `ledger::remaining`: the events, and the pending chapters. -/
def remaining (rules : SpineRules) (nowMs : Int) (db : Db) : Nat × Nat :=
  (db.releaseEvent.rows.length, (pendingRows rules nowMs db).length)

variable {rules : SpineRules} {nowMs : Int} {db : Db}

/-- What the join of the spine lists. -/
theorem mem_spine {r : SourceSeries × Chapter} :
    r ∈ spine db ↔ r.1 ∈ db.sourceSeries ∧ r.2 ∈ db.chapter ∧
      r.2.sourceSeriesId = r.1.id := by
  cases r
  simp only [spine, List.mem_flatMap, List.mem_map, List.mem_filter,
    Table.mem_rows, decide_eq_true_eq, Prod.mk.injEq]
  grind

/-- What it is for a chapter to have its event. -/
theorem recorded_iff {r : SourceSeries × Chapter} :
    recorded db r = true ↔ ∃ e ∈ db.releaseEvent,
      e.workId = r.1.workId ∧ r.2.chapterKey = some e.chapterKey := by
  simp [recorded, Table.mem_rows]

/-- A work is pending for a chapter that can be announced and has not been. -/
theorem mem_pendingWorks {w : Id} :
    w ∈ pendingWorks rules nowMs db ↔ ∃ r ∈ spine db, r.1.workId = w ∧
      (seedable rules nowMs r.2).isSome = true ∧ recorded db r = false := by
  simp only [pendingWorks, List.mem_dedup, List.mem_map, pendingRows,
    List.mem_filter, Bool.and_eq_true, Bool.not_eq_true']
  grind

/-- A seedable chapter has a key, and was released by now. -/
theorem seedable_some {c : Chapter} {key : String} {ms : Int}
    (h : seedable rules nowMs c = some (key, ms)) :
    c.chapterKey = some key ∧ ms ≤ nowMs := by
  simp only [seedable, Option.bind_eq_bind, Option.bind_eq_some_iff] at h
  obtain ⟨key', hkey, releasedAt, -, seconds, -, h⟩ := h
  split at h
  · next hpast =>
      simp only [Option.some.injEq, Prod.mk.injEq] at h
      exact ⟨h.1 ▸ hkey, h.2 ▸ hpast⟩
  · contradiction

/-! ## The event of a chapter

The ledger has one event for a work and a key, so of several chapters with one key only
the earliest release counts. -/

/-- The event is the one that a seedable chapter of its work announces. -/
def Announced (rules : SpineRules) (nowMs : Int) (db : Db) (e : ReleaseEvent) :
    Prop :=
  ∃ r ∈ spine db, r.1.workId = e.workId ∧
    seedable rules nowMs r.2 = some (e.chapterKey, e.firstSeenAt) ∧
    e.firstSourceSeriesId = some r.1.id ∧
    e.label = (r.2.label.or r.2.number).getD "Oneshot"

/-- It carries the least release time of the seedable chapters of its work with
its key, and the source and the label of a chapter released then. -/
structure First (rules : SpineRules) (nowMs : Int) (db : Db) (e : ReleaseEvent) :
    Prop where
  announced : Announced rules nowMs db e
  least : ∀ r ∈ spine db, r.1.workId = e.workId → ∀ ms,
    seedable rules nowMs r.2 = some (e.chapterKey, ms) → e.firstSeenAt ≤ ms

/-- The announcements of a work are what its seedable chapters announce. -/
theorem mem_announcements {w : Id} {e : ReleaseEvent} :
    e ∈ announcements rules nowMs (fun ss => ss.workId = w) db ↔
      e.workId = w ∧ Announced rules nowMs db e := by
  simp only [announcements, List.mem_flatMap, List.mem_filterMap,
    List.mem_filter, Table.mem_rows, Option.map_eq_some_iff, decide_eq_true_eq,
    Announced, mem_spine]
  constructor
  · rintro ⟨ss, ⟨hss, hwork⟩, c, ⟨hc, hon⟩, seed, hseed, rfl⟩
    exact ⟨hwork, (ss, c), ⟨hss, hc, hon⟩, rfl, hseed, rfl, rfl⟩
  · rintro ⟨hwork, r, ⟨hss, hc, hon⟩, hrwork, hseed, hsource, hlabel⟩
    refine ⟨r.1, ⟨hss, hrwork.trans hwork⟩, r.2, ⟨hc, hon⟩,
      (e.chapterKey, e.firstSeenAt), hseed, ?_⟩
    cases e
    simp_all

/-- What a chapter announces. -/
theorem announced_of_seedable {r : SourceSeries × Chapter} {key : String}
    {ms : Int} (hr : r ∈ spine db)
    (hseed : seedable rules nowMs r.2 = some (key, ms)) :
    Announced rules nowMs db ⟨r.1.workId, key, ms, some r.1.id,
      (r.2.label.or r.2.number).getD "Oneshot"⟩ :=
  ⟨r, hr, rfl, hseed, rfl, rfl⟩

section FirstPerKey

variable {events : List ReleaseEvent} {x : ReleaseEvent}

/-- Every key has its earliest event. -/
theorem exists_le_firstPerKey (hx : x ∈ events) :
    ∃ y ∈ firstPerKey events, clash x y = true ∧ y.firstSeenAt ≤ x.firstSeenAt := by
  exact Table.exists_le_upsertAll (h := earliest_keepsKeys)
    ReleaseEvent.firstSeenAt oneKey_event earliest_le (.inr hx)

/-- An event that is kept has no earlier one of its key. -/
theorem of_mem_firstPerKey (hx : x ∈ firstPerKey events) :
    x ∈ events ∧ ∀ y ∈ events, clash y x = true →
      x.firstSeenAt ≤ y.firstSeenAt := by
  constructor
  · rcases Table.mem_of_mem_upsertAll earliest_choice hx with hx | hx
    · exact absurd hx (Table.not_mem_empty x)
    · exact hx
  · intro y hy hclash
    obtain ⟨z, hz, hyz, hle⟩ := exists_le_firstPerKey hy
    have hxz : clash x z = true :=
      oneKey_event.trans _ _ _ (by rwa [clash_symm]) hyz
    rwa [Table.eq_of_clash hx hz hxz]

end FirstPerKey

/-! ## One work

What the insert of one work leaves of its own list, and of the lists of others. -/

/-- A seeded work gets the first event of each key that has none. -/
theorem of_mem_seedWork {w : Id} {e : ReleaseEvent}
    (he : e ∈ (seedWork rules w nowMs db).releaseEvent) :
    e ∈ db.releaseEvent ∨ First rules nowMs db e := by
  rcases Table.mem_of_mem_insertAllOrIgnore he with he | ⟨he, -⟩
  · exact .inl he
  · obtain ⟨he, hleast⟩ := of_mem_firstPerKey he
    obtain ⟨hwork, hannounced⟩ := mem_announcements.mp he
    refine .inr ⟨hannounced, fun r hr hrwork ms hseed => ?_⟩
    have hother := announced_of_seedable hr hseed
    exact hleast _ (mem_announcements.mpr ⟨hrwork.trans hwork, hother⟩)
      (clash_event.mpr ⟨hrwork, rfl⟩)

/-- The insert ignores what is there, and removes nothing. -/
theorem mem_seedWork_of_mem {w : Id} {e : ReleaseEvent}
    (he : e ∈ db.releaseEvent) : e ∈ (seedWork rules w nowMs db).releaseEvent :=
  Table.mem_insertAllOrIgnore_of_mem he

/-- None of the work's seedable chapters is left without an event. -/
theorem recorded_seedWork {r : SourceSeries × Chapter} (hr : r ∈ spine db)
    (hseed : (seedable rules nowMs r.2).isSome = true) :
    recorded (seedWork rules r.1.workId nowMs db) r = true := by
  obtain ⟨⟨key, ms⟩, hseed⟩ := Option.isSome_iff_exists.mp hseed
  have hkey := (seedable_some hseed).1
  have hannounced := mem_announcements.mpr ⟨rfl, announced_of_seedable hr hseed⟩
  obtain ⟨x, hx, hclash, -⟩ := exists_le_firstPerKey hannounced
  obtain ⟨hxwork, hxkey⟩ := clash_event.mp hclash
  rw [recorded_iff]
  -- it is inserted, or an event for its key was there
  rcases Table.insertAllOrIgnore_covers (t := db.releaseEvent) hx with
    hin | ⟨y, hy, hxy⟩
  · exact ⟨x, hin, hxwork.symm, by rw [hkey, ← hxkey]⟩
  · obtain ⟨hywork, hykey⟩ := clash_event.mp hxy
    exact ⟨y, hy, (hxwork.trans hywork).symm, by rw [hkey, ← hykey, ← hxkey]⟩

/-- Seeding a work takes it off the list and puts no work on it. -/
theorem mem_pendingWorks_seedWork {w v : Id}
    (h : v ∈ pendingWorks rules nowMs (seedWork rules w nowMs db)) :
    v ∈ pendingWorks rules nowMs db ∧ v ≠ w := by
  obtain ⟨r, hr, rfl, hseed, hnone⟩ := mem_pendingWorks.mp h
  have hrow : r ∈ spine db := hr
  constructor
  · refine mem_pendingWorks.mpr ⟨r, hrow, rfl, hseed, ?_⟩
    by_contra hrec
    rw [Bool.not_eq_false, recorded_iff] at hrec
    obtain ⟨e, he, hon⟩ := hrec
    have hrec' : recorded (seedWork rules w nowMs db) r = true :=
      recorded_iff.mpr ⟨e, mem_seedWork_of_mem he, hon⟩
    rw [hrec'] at hnone
    contradiction
  · intro hw
    subst hw
    rw [recorded_seedWork hrow hseed] at hnone
    contradiction

/-! ## A batch

A batch takes at most `seedBatchSize` works off the list, and returns how many. -/

/-- A loop takes all of its works off the list. -/
theorem mem_pendingWorks_seedWorks {works : List Id} {v : Id}
    (h : v ∈ pendingWorks rules nowMs (seedWorks rules nowMs works db)) :
    v ∈ pendingWorks rules nowMs db ∧ v ∉ works := by
  induction works generalizing db with
  | nil => exact ⟨h, List.not_mem_nil⟩
  | cons w works ih =>
      obtain ⟨hv, hrest⟩ := ih h
      obtain ⟨hv, hne⟩ := mem_pendingWorks_seedWork hv
      exact ⟨hv, List.not_mem_cons_of_ne_of_not_mem hne hrest⟩

/-- The batch is empty only when the list is. -/
theorem seedBatch_eq_zero_iff :
    (seedBatch rules nowMs db).1 = 0 ↔ pendingWorks rules nowMs db = [] := by
  have htake : (pendingWorks rules nowMs db).take seedBatchSize = [] ↔
      pendingWorks rules nowMs db = [] := by
    simp [seedBatchSize]
  unfold seedBatch
  dsimp only
  split
  · next hnil => exact iff_of_true rfl (htake.mp hnil)
  · next hsome =>
      exact iff_of_false (mt List.length_eq_zero_iff.mp hsome) (mt htake.mpr hsome)

/-- A batch that seeds something shortens the list. -/
theorem length_pendingWorks_seedBatch (h : (seedBatch rules nowMs db).1 ≠ 0) :
    (pendingWorks rules nowMs (seedBatch rules nowMs db).2).length <
      (pendingWorks rules nowMs db).length := by
  rw [Ne, seedBatch_eq_zero_iff] at h
  obtain ⟨w, rest, hlist⟩ := List.exists_cons_of_ne_nil h
  have hbatch : (seedBatch rules nowMs db).2 = seedWorks rules nowMs
      ((pendingWorks rules nowMs db).take seedBatchSize) db := by
    simp [seedBatch, hlist, seedBatchSize]
  have hsub : pendingWorks rules nowMs (seedBatch rules nowMs db).2 ⊆ rest := by
    intro v hv
    rw [hbatch] at hv
    obtain ⟨hv, hnot⟩ := mem_pendingWorks_seedWorks hv
    rw [hlist] at hv hnot
    have hne : v ≠ w := by
      rintro rfl
      exact hnot (List.mem_cons_self : v ∈ v :: rest.take 99)
    exact (List.mem_cons.mp hv).resolve_left hne
  have hnodup : (pendingWorks rules nowMs (seedBatch rules nowMs db).2).Nodup :=
    List.nodup_dedup _
  have hle := hnodup.length_le_of_subset hsub
  rw [hlist, List.length_cons]
  omega

/-- The seed comes to an end. -/
theorem exists_seedBatch_eq_zero (rules : SpineRules) (nowMs : Int) (db : Db) :
    ∃ n ≤ (pendingWorks rules nowMs db).length,
      (seedBatch rules nowMs (afterBatches rules nowMs n db)).1 = 0 := by
  induction hlength : (pendingWorks rules nowMs db).length using Nat.strong_induction_on
    generalizing db with
  | _ length ih =>
      by_cases hzero : (seedBatch rules nowMs db).1 = 0
      · exact ⟨0, Nat.zero_le _, hzero⟩
      · have hless := length_pendingWorks_seedBatch hzero
        rw [hlength] at hless
        obtain ⟨n, hn, hend⟩ := ih _ hless _ rfl
        exact ⟨n + 1, by omega, hend⟩

/-! ## What the seed leaves

The conclusion is about the whole ledger, so it is carried through the calls as a
relation between the database before and the database now. -/

/-- Only the ledger has changed, and only by first events. -/
structure Grown (rules : SpineRules) (nowMs : Int) (before after : Db) : Prop where
  frame : after = { before with releaseEvent := after.releaseEvent }
  kept : ∀ e ∈ before.releaseEvent, e ∈ after.releaseEvent
  created : ∀ e ∈ after.releaseEvent,
    e ∈ before.releaseEvent ∨ First rules nowMs before e

theorem Grown.refl (db : Db) : Grown rules nowMs db db :=
  ⟨rfl, fun _ => id, fun _ => .inl⟩

/-- One work of the list, in the middle of a run. -/
theorem Grown.seedWork {before after : Db} (h : Grown rules nowMs before after)
    (w : Id) : Grown rules nowMs before (seedWork rules w nowMs after) where
  frame := by
    rw [h.frame]
    rfl
  kept e he := mem_seedWork_of_mem (h.kept e he)
  created e he := by
    rcases of_mem_seedWork he with he | hfirst
    · exact h.created e he
    · rw [h.frame] at hfirst
      exact .inr ⟨hfirst.announced, hfirst.least⟩

theorem Grown.seedWorks {before after : Db} (h : Grown rules nowMs before after)
    (works : List Id) :
    Grown rules nowMs before (seedWorks rules nowMs works after) := by
  induction works generalizing after with
  | nil => exact h
  | cons w works ih => exact ih (h.seedWork w)

theorem Grown.seedBatch {before after : Db} (h : Grown rules nowMs before after) :
    Grown rules nowMs before (seedBatch rules nowMs after).2 := by
  unfold Seeding.seedBatch
  dsimp only
  split
  · exact h
  · exact h.seedWorks _

theorem Grown.afterBatches {before after : Db} (h : Grown rules nowMs before after)
    (n : Nat) : Grown rules nowMs before (afterBatches rules nowMs n after) := by
  induction n generalizing after with
  | zero => exact h
  | succ n ih => exact ih h.seedBatch

/-- The ledger has caught up with the spine. -/
structure Complete (rules : SpineRules) (nowMs : Int) (before after : Db) :
    Prop where
  grown : Grown rules nowMs before after
  none_remaining :
    remaining rules nowMs after = (after.releaseEvent.rows.length, 0)
  one_event : ∀ r ∈ spine after, ∀ key ms,
    seedable rules nowMs r.2 = some (key, ms) →
      ∃! e, e ∈ after.releaseEvent ∧ e.workId = r.1.workId ∧ e.chapterKey = key
  none_future : ∀ e ∈ after.releaseEvent,
    e ∈ before.releaseEvent ∨ e.firstSeenAt ≤ nowMs

/-- The count of the status line and the work-list run out together. -/
theorem pendingRows_eq_nil_iff :
    pendingRows rules nowMs db = [] ↔ pendingWorks rules nowMs db = [] := by
  simp [pendingWorks, List.dedup_eq_nil]

/-- A run that ends in an empty batch has left nothing behind. -/
theorem Grown.complete {before after : Db} (h : Grown rules nowMs before after)
    (hend : (Seeding.seedBatch rules nowMs after).1 = 0) :
    Complete rules nowMs before after where
  grown := h
  none_remaining := by
    rw [seedBatch_eq_zero_iff, ← pendingRows_eq_nil_iff] at hend
    rw [remaining, hend, List.length_nil]
  one_event r hr key ms hseed := by
    have hrecorded : recorded after r = true := by
      by_contra hnone
      rw [Bool.not_eq_true] at hnone
      have hpending := mem_pendingWorks.mpr
        ⟨r, hr, rfl, Option.isSome_of_eq_some hseed, hnone⟩
      rw [seedBatch_eq_zero_iff.mp hend] at hpending
      contradiction
    obtain ⟨e, he, hwork, hkey⟩ := recorded_iff.mp hrecorded
    rw [(seedable_some hseed).1, Option.some.injEq] at hkey
    refine ⟨e, ⟨he, hwork, hkey.symm⟩, fun other hother => ?_⟩
    exact event_eq hother.1 he (hother.2.1.trans hwork.symm)
      (hother.2.2.trans hkey)
  none_future e he := by
    refine (h.created e he).imp_right fun hfirst => ?_
    obtain ⟨r, -, -, hseed, -⟩ := hfirst.announced
    exact (seedable_some hseed).2

/-- **The seed terminates and completes.**  From every state the calls come to return 0,
and then the ledger has caught up with the spine.  Each call takes works off the list of
those with a chapter that no event has, and no call adds one; when none is left, the
ledger is complete. -/
theorem seed_completes (rules : SpineRules) (nowMs : Int) (db : Db) :
    (∃ n, (seedBatch rules nowMs (afterBatches rules nowMs n db)).1 = 0) ∧
    ∀ n, (seedBatch rules nowMs (afterBatches rules nowMs n db)).1 = 0 →
      Complete rules nowMs db (afterBatches rules nowMs n db) := by
  constructor
  · obtain ⟨n, -, hend⟩ := exists_seedBatch_eq_zero rules nowMs db
    exact ⟨n, hend⟩
  · intro n hend
    exact ((Grown.refl db).afterBatches n).complete hend

/-- A ledger with an event of the year 2037. -/
def futureEvent : Db :=
  { Db.empty with
    work := ⟨[Conservation.untitledWork "w"], by decide⟩
    releaseEvent := ⟨[⟨"w", "100", 2145830400000, none, "1"⟩], by decide⟩ }

/-- The seed has nothing to do and leaves it. -/
theorem not_seed_corrects_future_event :
    ¬∀ (rules : SpineRules) (nowMs : Int) (db : Db) (n : Nat),
      (seedBatch rules nowMs (afterBatches rules nowMs n db)).1 = 0 →
        ∀ e ∈ (afterBatches rules nowMs n db).releaseEvent,
          e.firstSeenAt ≤ nowMs := by
  intro h
  have hpast := h ⟨fun _ => ("", ""), fun _ => none⟩ 1767225600000 futureEvent 0
    (by decide) _ List.mem_cons_self
  exact absurd hpast (by decide)

end Komika.Catalog.Seeding
