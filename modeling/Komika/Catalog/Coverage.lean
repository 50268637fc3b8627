import Komika.Catalog.Seeding
import Komika.Catalog.LedgerRuns
import Komika.Catalog.Anchors

/-!
# Which writers leave the ledger complete

The ledger covers the spine when no seedable chapter lacks an event: when
`ledger::remaining` counts none pending.  For each writer of the spine, of the
ledger and of the mappings between them this module says exactly when it keeps
the ledger covering: what the state before it, and what it is given, have to
be.

A chapter is covered by the event for its key on the work of its mapping.  So
coverage breaks in three ways: a chapter is written, or its date is reached,
and nobody records it; or a mapping moves to a work that has no event for one
of its chapters.

Each writer has its own equivalence, and the last part puts them together over the steps
of the catalogue:

* `covered_write_iff` — chapters are written and some mappings recorded;
* `covered_merged` — a merge, which loses nothing;
* `covered_commitSplit_iff`, `covered_splitMismatchedRow_iff` — mappings that move;
* `covered_later_iff` — the clock;
* `covered_step_iff` — any step of the catalogue that writes no chapter and records
  nothing;
* `events_step_iff` — whether such a step leaves the ledger any event at all, which the
  latch of `ReadyLatch` also asks.
-/

namespace Komika.Catalog.Coverage

open Komika.Lib
open Komika.Catalog.Schema Komika.Catalog.Database Komika.Catalog.Ingest
open Komika.Catalog.Ledger Komika.Catalog.Merge Komika.Catalog.Split
open Komika.Catalog.Runs Komika.Catalog.Effects Komika.Catalog.Events
open Komika.Catalog.Integrity Komika.Catalog.Anchors Komika.Catalog.LedgerRuns
open Komika.Catalog.Seeding

/-- No seedable chapter lacks an event. -/
def Covered (rules : SpineRules) (nowMs : Int) (db : Db) : Prop :=
  pendingRows rules nowMs db = []

section Clock

variable {rules : SpineRules} {nowMs later : Int} {db after : Db}

/-- Every chapter that announces anything has its event. -/
theorem covered_iff :
    Covered rules nowMs db ↔ ∀ r ∈ spine db,
      (seedable rules nowMs r.2).isSome = true → recorded db r = true := by
  unfold Covered pendingRows
  rw [List.filter_eq_nil_iff]
  apply forall_congr'
  intro r
  apply imp_congr_right
  intro _
  simp only [Bool.and_eq_true, Bool.not_eq_true', not_and, Bool.not_eq_false]

/-- `ledger::remaining` counts none pending exactly if the ledger covers the spine. -/
theorem remaining_snd_eq_zero_iff :
    (remaining rules nowMs db).2 = 0 ↔ Covered rules nowMs db :=
  List.length_eq_zero_iff

/-- Covering chapter by chapter. -/
theorem Covered.of_rows (h : Covered rules nowMs db)
    (hrows : ∀ r' ∈ spine after, ∃ r ∈ spine db, r.2 = r'.2 ∧
      (recorded db r = true → recorded after r' = true)) :
    Covered rules nowMs after := by
  rw [covered_iff] at h ⊢
  intro r' hr' hseed
  obtain ⟨r, hr, hsame, hkeeps⟩ := hrows r' hr'
  exact hkeeps (h r hr (by rw [hsame]; exact hseed))

/-- What a chapter announces it has announced ever since. -/
theorem seedable_of_le {c : Chapter} {key : String} {ms : Int}
    (h : seedable rules later c = some (key, ms)) (hms : ms ≤ nowMs) :
    seedable rules nowMs c = some (key, ms) := by
  simp only [seedable, Option.bind_eq_bind, Option.bind_eq_some_iff] at h ⊢
  obtain ⟨key', hkey, releasedAt, hat, seconds, hseconds, h⟩ := h
  refine ⟨key', hkey, releasedAt, hat, seconds, hseconds, ?_⟩
  split at h
  · simp only [Option.some.injEq, Prod.mk.injEq] at h
    rw [if_pos (by omega), h.1, h.2]
  · contradiction

/-- The clock moves: each chapter whose date it reaches must have its event. -/
theorem covered_later_iff (h : Covered rules nowMs db) :
    Covered rules later db ↔ ∀ r ∈ spine db, ∀ key ms,
      seedable rules later r.2 = some (key, ms) → nowMs < ms →
        recorded db r = true := by
  rw [covered_iff] at h ⊢
  constructor
  · intro hlater r hr key ms hseed _
    exact hlater r hr (Option.isSome_of_eq_some hseed)
  · intro hreached r hr hseed
    obtain ⟨⟨key, ms⟩, hseed⟩ := Option.isSome_iff_exists.mp hseed
    by_cases hms : ms ≤ nowMs
    · exact h r hr (Option.isSome_of_eq_some (seedable_of_le hseed hms))
    · exact hreached r hr key ms hseed (by omega)

end Clock

/-! ## Chapters that are written

The writers of chapters record the mappings they have touched; what they do not record
must have its event already. -/

section Writes

variable {rules : SpineRules} {nowMs : Int} {db written : Db}

/-- `record_source_series`, for one mapping after another. -/
def recordAll (rules : SpineRules) (nowMs : Int) (ssids : List Id) (db : Db) : Db :=
  ssids.foldl (fun db ssid => recordSourceSeries rules ssid nowMs db) db

/-- A chapter of the mapping announces this one's event. -/
def AnnouncedOn (rules : SpineRules) (nowMs : Int) (db : Db) (ssid : Id)
    (r : SourceSeries × Chapter) : Prop :=
  ∃ other ∈ spine db, other.1.id = ssid ∧ other.1.workId = r.1.workId ∧
    other.2.chapterKey = r.2.chapterKey ∧
      (seedable rules nowMs other.2).isSome = true

/-- Recording a mapping gives an event to what its chapters announce. -/
theorem recorded_recordSourceSeries_iff {ssid : Id} {r : SourceSeries × Chapter} :
    recorded (recordSourceSeries rules ssid nowMs db) r = true ↔
      recorded db r = true ∨ AnnouncedOn rules nowMs db ssid r := by
  constructor
  · intro h
    obtain ⟨e, he, hwork, hkey⟩ := recorded_iff.mp h
    rcases Table.mem_of_mem_insertAllOrIgnore he with he | ⟨he, -⟩
    · exact .inl (recorded_iff.mpr ⟨e, he, hwork, hkey⟩)
    · have hmem := (of_mem_firstPerKey he).1
      simp only [announcements, List.mem_flatMap, List.mem_filterMap,
        List.mem_filter, Table.mem_rows, Option.map_eq_some_iff,
        decide_eq_true_eq] at hmem
      obtain ⟨ss, ⟨hss, hid⟩, c, ⟨hc, hon⟩, seed, hseed, rfl⟩ := hmem
      refine .inr ⟨(ss, c), mem_spine.mpr ⟨hss, hc, hon⟩, hid, hwork, ?_,
        Option.isSome_of_eq_some hseed⟩
      rw [hkey]
      exact (seedable_some hseed).1
  · rintro (h | ⟨other, hother, hid, hwork, hkey, hseed⟩)
    · obtain ⟨e, he, hon⟩ := recorded_iff.mp h
      exact recorded_iff.mpr ⟨e, Table.mem_insertAllOrIgnore_of_mem he, hon⟩
    · obtain ⟨⟨key, ms⟩, hseed⟩ := Option.isSome_iff_exists.mp hseed
      obtain ⟨hss, hc, hon⟩ := mem_spine.mp hother
      have hannounced : (⟨other.1.workId, key, ms, some other.1.id,
          (other.2.label.or other.2.number).getD "Oneshot"⟩ : ReleaseEvent) ∈
          announcements rules nowMs (fun ss => ss.id = ssid) db := by
        simp only [announcements, List.mem_flatMap, List.mem_filterMap,
          List.mem_filter, Table.mem_rows, Option.map_eq_some_iff,
          decide_eq_true_eq]
        exact ⟨other.1, ⟨hss, hid⟩, other.2, ⟨hc, hon⟩, (key, ms), hseed, rfl⟩
      obtain ⟨x, hx, hclash, -⟩ := exists_le_firstPerKey hannounced
      obtain ⟨hxwork, hxkey⟩ := clash_event.mp hclash
      have hrkey : r.2.chapterKey = some x.chapterKey := by
        rw [← hkey, (seedable_some hseed).1, ← hxkey]
      rw [recorded_iff]
      -- the event is inserted, or one for its key was there
      rcases Table.insertAllOrIgnore_covers (t := db.releaseEvent) hx with
        hin | ⟨y, hy, hxy⟩
      · exact ⟨x, hin, hxwork.symm.trans hwork, hrkey⟩
      · obtain ⟨hywork, hykey⟩ := clash_event.mp hxy
        exact ⟨y, hy, (hywork.symm.trans hxwork.symm).trans hwork, hykey ▸ hrkey⟩

/-- Recording several mappings gives events to what the chapters of any of them
announce. -/
theorem recorded_recordAll_iff {ssids : List Id} {r : SourceSeries × Chapter} :
    recorded (recordAll rules nowMs ssids db) r = true ↔
      recorded db r = true ∨ ∃ ssid ∈ ssids, AnnouncedOn rules nowMs db ssid r := by
  induction ssids generalizing db with
  | nil => simp [recordAll]
  | cons ssid ssids ih =>
      have hframe : ∀ id, AnnouncedOn rules nowMs
          (recordSourceSeries rules ssid nowMs db) id r ↔
            AnnouncedOn rules nowMs db id r := fun _ => Iff.rfl
      have hcons : recordAll rules nowMs (ssid :: ssids) db =
          recordAll rules nowMs ssids (recordSourceSeries rules ssid nowMs db) := rfl
      rw [hcons, ih, recorded_recordSourceSeries_iff, or_assoc]
      simp only [hframe, List.mem_cons, exists_eq_or_imp]

/-- Recording writes the ledger and nothing else. -/
theorem recordAll_frame (ssids : List Id) (db : Db) :
    recordAll rules nowMs ssids db =
      { db with releaseEvent := (recordAll rules nowMs ssids db).releaseEvent } := by
  induction ssids generalizing db with
  | nil => rfl
  | cons ssid ssids ih => exact ih (recordSourceSeries rules ssid nowMs db)

theorem mem_recordAll_of_mem {ssids : List Id} {e : ReleaseEvent}
    (he : e ∈ db.releaseEvent) :
    e ∈ (recordAll rules nowMs ssids db).releaseEvent := by
  induction ssids generalizing db with
  | nil => exact he
  | cons ssid ssids ih => exact ih (Table.mem_insertAllOrIgnore_of_mem he)

/-- The spine is as it was. -/
theorem spine_recordAll (ssids : List Id) (db : Db) :
    spine (recordAll rules nowMs ssids db) = spine db := by
  rw [recordAll_frame]
  rfl

/-- Of the chapters that are new in `written`, each seedable one has an event,
or is announced on one of the mappings. -/
def WritesCovered (rules : SpineRules) (nowMs : Int) (db written : Db)
    (ssids : List Id) : Prop :=
  ∀ r ∈ spine written, r.2 ∉ db.chapter →
    (seedable rules nowMs r.2).isSome = true →
      recorded db r = true ∨
        ∃ ssid ∈ ssids, AnnouncedOn rules nowMs written ssid r

/-- Chapters are written and mappings recorded: each seedable chapter that is
new must have its event already, or get it. -/
theorem covered_write_iff (ssids : List Id) (h : Covered rules nowMs db)
    (hmapping : written.sourceSeries = db.sourceSeries)
    (hevent : written.releaseEvent = db.releaseEvent) :
    Covered rules nowMs (recordAll rules nowMs ssids written) ↔
      WritesCovered rules nowMs db written ssids := by
  have hrecorded : ∀ r, recorded written r = recorded db r := by
    intro r
    unfold recorded
    rw [hevent]
  rw [covered_iff] at h ⊢
  unfold WritesCovered
  rw [spine_recordAll]
  apply forall₂_congr
  intro r hr
  rw [recorded_recordAll_iff, hrecorded]
  constructor
  · intro hcovered _
    exact hcovered
  · intro hnew hseed
    by_cases hold : r.2 ∈ db.chapter
    · obtain ⟨hss, -, hon⟩ := mem_spine.mp hr
      rw [hmapping] at hss
      exact .inl (h r (mem_spine.mpr ⟨hss, hold, hon⟩) hseed)
    · exact hnew hold hseed

end Writes

/-! ## Mappings that move

A chapter that moves needs an event where it arrives. -/

section Moves

variable {rules : SpineRules} {nowMs : Int} {db db' : Db}

/-- A merge takes the events along with the mappings. -/
theorem covered_merged {text : TextRules} {source target : Id}
    (hne : source ≠ target) (h : Covered rules nowMs db) :
    Covered rules nowMs (merged text source target db) := by
  apply h.of_rows
  intro r' hr'
  obtain ⟨hss, hc, hon⟩ := mem_spine.mp hr'
  obtain ⟨old, hold, hmoved⟩ := (mem_sourceSeries_merged hne).mp hss
  have hid : old.id = r'.1.id := by
    rw [hmoved]
    split <;> rfl
  have hwork : r'.1.workId = if old.workId = source then target else old.workId := by
    rw [hmoved]
    exact workId_moved old
  have hchapter : r'.2 ∈ db.chapter :=
    (Table.mem_deleteWhere.mp (Table.mem_deleteWhere.mp hc).1).1
  refine ⟨(old, r'.2), mem_spine.mpr ⟨hold, hchapter, hon.trans hid.symm⟩, rfl, ?_⟩
  intro hrecorded
  obtain ⟨e, he, hework, hkey⟩ := recorded_iff.mp hrecorded
  obtain ⟨x, hx, hxwork, hxkey, -⟩ := exists_le_releaseEvent_merged text hne he
  refine recorded_iff.mpr ⟨x, hx, ?_, by rw [hxkey]; exact hkey⟩
  rw [hxwork, hwork, hework]

/-- Some mappings move to another work, and the chapters of the others keep their
events: what is left to ask for is an event for each chapter that moves, where it
arrives. -/
theorem covered_moved_iff {moves : SourceSeries → Bool} {target : Id}
    (hstays : ∀ r ∈ spine db, moves r.1 = false → recorded db r = true →
      recorded db' r = true)
    (hmapping : ∀ s, s ∈ db'.sourceSeries ↔ ∃ old ∈ db.sourceSeries,
      s = if moves old = true then move target old else old)
    (hchapter : db'.chapter = db.chapter)
    (h : Covered rules nowMs db) :
    Covered rules nowMs db' ↔ ∀ r ∈ spine db, moves r.1 = true →
      (seedable rules nowMs r.2).isSome = true →
        recorded db' (move target r.1, r.2) = true := by
  constructor
  · intro hafter r hr hmove hseed
    obtain ⟨hss, hc, hon⟩ := mem_spine.mp hr
    have hmoved : (move target r.1, r.2) ∈ spine db' := by
      refine mem_spine.mpr ⟨(hmapping _).mpr ⟨r.1, hss, ?_⟩, hchapter ▸ hc, hon⟩
      rw [if_pos hmove]
    exact covered_iff.mp hafter _ hmoved hseed
  · intro hmoved
    rw [covered_iff]
    rintro ⟨ss, c⟩ hr' hseed
    obtain ⟨hss, hc, hon⟩ := mem_spine.mp hr'
    obtain ⟨old, hold, rfl⟩ := (hmapping _).mp hss
    rw [hchapter] at hc
    cases hmove : moves old with
    | true =>
        rw [if_pos hmove] at hon
        rw [if_pos rfl]
        exact hmoved (old, c) (mem_spine.mpr ⟨hold, hc, hon⟩) hmove hseed
    | false =>
        rw [if_neg (ne_true_of_eq_false hmove)] at hon
        rw [if_neg Bool.false_ne_true]
        have hr : (old, c) ∈ spine db := mem_spine.mpr ⟨hold, hc, hon⟩
        exact hstays _ hr hmove (covered_iff.mp h _ hr hseed)

/-- Another mapping of the work than those that `gone` says carries the key. -/
def carriesBeside (db : Db) (workId : Id) (gone : SourceSeries → Bool)
    (chapterKey : String) : Bool :=
  db.chapter.rows.any fun c =>
    c.chapterKey = some chapterKey && db.sourceSeries.rows.any fun s =>
      s.id = c.sourceSeriesId && s.workId = workId && !gone s

/-- The event goes with the mappings that the split detaches: one of them is
credited with it, and no mapping that stays carries its key. -/
def goesWith (db : Db) (plan : SplitPlan) (e : ReleaseEvent) : Bool :=
  e.workId = plan.workId &&
    ((plan.detached.any fun d => e.firstSourceSeriesId = some d.id) &&
      !carriesBeside db plan.workId (takesSource plan.workId plan.detached)
        e.chapterKey)

/-- Each seedable chapter of a mapping that the split detaches has an event
that goes with it. -/
def SplitCovered (rules : SpineRules) (nowMs : Int) (db : Db) (plan : SplitPlan) :
    Prop :=
  ∀ r ∈ spine db, takesSource plan.workId plan.detached r.1 = true →
    (seedable rules nowMs r.2).isSome = true →
      ∃ e ∈ db.releaseEvent, goesWith db plan e = true ∧
        r.2.chapterKey = some e.chapterKey

section Split

variable {text : TextRules} {plan : SplitPlan} {newWorkId : Id} {actor : Option Id}
  {outcome : SplitOutcome}

/-- After a split the old work carries what the mappings that stay carry. -/
theorem carries_commitSplit
    (hok : commitSplit text plan newWorkId actor db = .ok (outcome, db'))
    (key : String) :
    carries db' plan.workId key = carriesBeside db plan.workId
      (takesSource plan.workId plan.detached) key := by
  have hne := (commitSplit_found hok).2.1
  rw [Bool.eq_iff_iff, carries_iff, (releaseEvent_commitSplit hok).2]
  simp only [carriesBeside, List.any_eq_true, Table.mem_rows, Bool.and_eq_true,
    decide_eq_true_eq, Bool.not_eq_true']
  apply exists_congr
  intro c
  refine and_congr_right fun _ => and_congr_right fun _ => ?_
  constructor
  · rintro ⟨s, hs, hid, hwork⟩
    obtain ⟨old, hold, rfl⟩ := (mem_sourceSeries_commitSplit hok).mp hs
    cases htakes : takesSource plan.workId plan.detached old with
    | true =>
        rw [if_pos htakes] at hwork
        exact absurd hwork.symm hne
    | false =>
        rw [if_neg (by simp [htakes])] at hid hwork
        exact ⟨old, hold, ⟨hid, hwork⟩, htakes⟩
  · rintro ⟨s, hs, ⟨hid, hwork⟩, hstays⟩
    refine ⟨s, (mem_sourceSeries_commitSplit hok).mpr ⟨s, hs, ?_⟩, hid, hwork⟩
    rw [if_neg (by simp [hstays])]

/-- An event follows some detached mapping if it goes with the split. -/
theorem any_follows_commitSplit
    (hok : commitSplit text plan newWorkId actor db = .ok (outcome, db'))
    (e : ReleaseEvent) :
    ((plan.detached.map SourceSeriesRow.id).any fun s =>
      follows db' plan.workId s e) = goesWith db plan e := by
  rw [Bool.eq_iff_iff]
  simp only [List.any_map, List.any_eq_true, Function.comp_apply, follows,
    carries_commitSplit hok, goesWith, Bool.and_eq_true, decide_eq_true_eq,
    Bool.not_eq_true']
  grind

/-- A split keeps the ledger covering exactly if every seedable chapter that it
detaches takes its event along. -/
theorem covered_commitSplit_iff
    (hok : commitSplit text plan newWorkId actor db = .ok (outcome, db'))
    (hnone : ∀ e ∈ db.releaseEvent, e.workId ≠ newWorkId)
    (h : Covered rules nowMs db) :
    Covered rules nowMs db' ↔ SplitCovered rules nowMs db plan := by
  have hne := (commitSplit_found hok).2.1
  have hfree : NoRival db.releaseEvent plan.workId newWorkId :=
    fun x hx hwork => absurd hwork (hnone x hx)
  have hevent : ∀ x, x ∈ db'.releaseEvent ↔ ∃ e ∈ db.releaseEvent,
      x = if goesWith db plan e = true then move newWorkId e else e := by
    intro x
    rw [(releaseEvent_commitSplit hok).1, mem_detachEvents hne hfree]
    simp only [any_follows_commitSplit hok]
  have hstays : ∀ r ∈ spine db, takesSource plan.workId plan.detached r.1 = false →
      recorded db r = true → recorded db' r = true := by
    intro r hr hkept hrecorded
    obtain ⟨hss, hc, hon⟩ := mem_spine.mp hr
    obtain ⟨e, he, hwork, hkey⟩ := recorded_iff.mp hrecorded
    -- the mapping stays and carries the key, so the event does not go
    have hstay : ¬goesWith db plan e = true := by
      intro hgoes
      simp only [goesWith, Bool.and_eq_true, decide_eq_true_eq,
        Bool.not_eq_true'] at hgoes
      have hcarries : carriesBeside db plan.workId
          (takesSource plan.workId plan.detached) e.chapterKey = true := by
        simp only [carriesBeside, List.any_eq_true, Table.mem_rows,
          Bool.and_eq_true, decide_eq_true_eq, Bool.not_eq_true']
        exact ⟨r.2, hc, hkey, r.1, hss, ⟨hon.symm, hwork.symm.trans hgoes.1⟩, hkept⟩
      rw [hcarries] at hgoes
      exact Bool.noConfusion hgoes.2.2
    exact recorded_iff.mpr ⟨e, (hevent _).mpr ⟨e, he, by rw [if_neg hstay]⟩, hwork, hkey⟩
  have harrives : ∀ r : SourceSeries × Chapter,
      recorded db' (move newWorkId r.1, r.2) = true ↔
        ∃ e ∈ db.releaseEvent, goesWith db plan e = true ∧
          r.2.chapterKey = some e.chapterKey := by
    intro r
    rw [recorded_iff]
    constructor
    · rintro ⟨x, hx, hwork, hkey⟩
      obtain ⟨e, he, rfl⟩ := (hevent x).mp hx
      by_cases hgoes : goesWith db plan e = true
      · rw [if_pos hgoes] at hkey
        exact ⟨e, he, hgoes, hkey⟩
      · rw [if_neg hgoes] at hwork
        exact absurd hwork (hnone e he)
    · rintro ⟨e, he, hgoes, hkey⟩
      exact ⟨move newWorkId e, (hevent _).mpr ⟨e, he, by rw [if_pos hgoes]⟩, rfl, hkey⟩
  rw [covered_moved_iff hstays (fun s => mem_sourceSeries_commitSplit hok)
    (releaseEvent_commitSplit hok).2 h]
  simp only [harrives]
  rfl

end Split

/-- Events that move leave the ledger empty only if it was. -/
theorem exists_mem_moveEvents {oldWork newWork ssid : Id} {t : Table ReleaseEvent}
    (hne : oldWork ≠ newWork) :
    (∃ x, x ∈ moveEvents oldWork newWork ssid db t) ↔ ∃ e, e ∈ t := by
  constructor
  · rintro ⟨x, hx⟩
    rcases (mem_moveEvents hne).mp hx with ⟨hx, -⟩ | ⟨e, he, -⟩
    · exact ⟨x, hx⟩
    · exact ⟨e, he⟩
  · rintro ⟨e, he⟩
    cases hfollows : follows db oldWork ssid e with
    | false => exact ⟨e, (mem_moveEvents hne).mpr (.inl ⟨he, hfollows⟩)⟩
    | true =>
        by_cases hrival : ∃ y ∈ t, clash (move newWork e) y = true
        · obtain ⟨y, hy, hclash⟩ := hrival
          have hwork : newWork = y.workId := (clash_event.mp hclash).1
          exact ⟨y, (mem_moveEvents hne).mpr (.inl ⟨hy,
            follows_of_ne fun hold => hne (hold.symm.trans hwork.symm)⟩)⟩
        · refine ⟨move newWork e, (mem_moveEvents hne).mpr
            (.inr ⟨e, he, hfollows, rfl, fun y hy => ?_⟩)⟩
          rw [← Bool.not_eq_true]
          exact fun hclash => hrival ⟨y, hy, hclash⟩

/-- Detaching events leaves the ledger empty only if it was. -/
theorem exists_mem_detachEvents {oldWork newWork : Id} {detached : List Id}
    {t : Table ReleaseEvent} (hne : oldWork ≠ newWork) :
    (∃ x, x ∈ detachEvents oldWork newWork detached db t) ↔ ∃ e, e ∈ t := by
  induction detached generalizing t with
  | nil => exact Iff.rfl
  | cons ssid detached ih => exact ih.trans (exists_mem_moveEvents hne)

/-- The target has an event of a key once the move is over if it had one, or if one that
follows the mapping has the key. -/
theorem exists_onTarget_moveEvents {oldWork newWork ssid : Id} {t : Table ReleaseEvent}
    {key : Option String} (hne : oldWork ≠ newWork) :
    (∃ x ∈ moveEvents oldWork newWork ssid db t, x.workId = newWork ∧
        key = some x.chapterKey) ↔
      ∃ e ∈ t, key = some e.chapterKey ∧
        (e.workId = newWork ∨ follows db oldWork ssid e = true) := by
  constructor
  · rintro ⟨x, hx, hwork, hkey⟩
    rcases (mem_moveEvents hne).mp hx with ⟨hx, -⟩ | ⟨e, he, hgoes, rfl, -⟩
    · exact ⟨x, hx, hkey, .inl hwork⟩
    · exact ⟨e, he, hkey, .inr hgoes⟩
  · rintro ⟨e, he, hkey, hplace⟩
    by_cases hrival : ∃ y ∈ t, y.workId = newWork ∧ y.chapterKey = e.chapterKey
    · -- the target's own event stays
      obtain ⟨y, hy, hywork, hykey⟩ := hrival
      refine ⟨y, (mem_moveEvents hne).mpr (.inl ⟨hy, ?_⟩), hywork, by rw [hykey]; exact hkey⟩
      exact follows_of_ne fun hyold => hne (hyold.symm.trans hywork)
    · rcases hplace with hwork | hgoes
      · exact absurd ⟨e, he, hwork, rfl⟩ hrival
      · refine ⟨move newWork e, (mem_moveEvents hne).mpr (.inr ⟨e, he, hgoes, rfl, ?_⟩),
          rfl, hkey⟩
        intro y hy
        rw [← Bool.not_eq_true, clash_event]
        rintro ⟨hywork, hykey⟩
        exact hrival ⟨y, hy, hywork.symm, hykey.symm⟩

/-- Each seedable chapter of the mapping that `split_mismatched` moves has an
event on the target, or one that moves there with it. -/
def MoveCovered (rules : SpineRules) (nowMs : Int) (db : Db) (row : ClassifiedRow)
    (target : Id) : Prop :=
  ∀ r ∈ spine db, r.1.id = row.sourceSeriesId →
    (seedable rules nowMs r.2).isSome = true →
      ∃ e ∈ db.releaseEvent, r.2.chapterKey = some e.chapterKey ∧
        (e.workId = target ∨ leaves db row.workId row.sourceSeriesId e = true)

/-- The move of a mismatched mapping keeps the ledger covering exactly if every chapter
of it finds an event where it arrives. -/
theorem covered_splitMismatchedRow_iff {row : ClassifiedRow} {target : Id}
    {u : Unit} (htarget : row.destination = some target)
    (hok : splitMismatchedRow row db = .ok (u, db')) (h : Covered rules nowMs db) :
    Covered rules nowMs db' ↔ MoveCovered rules nowMs db row target := by
  have hne := destination_ne htarget
  rcases splitMismatchedRow_ok hok with ⟨hnone, -⟩ | ⟨t, ht, -, moved, hmoved, rfl⟩
  · rw [htarget] at hnone
    contradiction
  rw [htarget, Option.some.injEq] at ht
  subst ht
  have hfollows : ∀ e, follows moved row.workId row.sourceSeriesId e =
      leaves db row.workId row.sourceSeriesId e := by
    intro e
    rw [hmoved]
    exact follows_moved hne e
  have hmapping : ∀ s, s ∈ moved.sourceSeries ↔ ∃ old ∈ db.sourceSeries,
      s = if decide (old.id = row.sourceSeriesId) = true then move target old else old := by
    intro s
    rw [hmoved]
    exact Table.mem_update (h := moveSourceSeries_keepsKeys target)
  have hchapter : moved.chapter = db.chapter := by rw [hmoved]
  have hstays : ∀ r ∈ spine db, decide (r.1.id = row.sourceSeriesId) = false →
      recorded db r = true → recorded { moved with
        releaseEvent := moveEvents row.workId target row.sourceSeriesId moved
          db.releaseEvent } r = true := by
    intro r hr hkept hrecorded
    obtain ⟨hss, hc, hon⟩ := mem_spine.mp hr
    obtain ⟨e, he, hwork, hkey⟩ := recorded_iff.mp hrecorded
    -- the mapping stays and carries the key, so the event does not follow
    have hstay : follows moved row.workId row.sourceSeriesId e = false := by
      rw [← Bool.not_eq_true]
      intro hgoes
      obtain ⟨heold, -, hnone⟩ := follows_iff.mp hgoes
      have hcarries : carries moved row.workId e.chapterKey = true :=
        carries_iff.mpr ⟨r.2, hchapter ▸ hc, hkey, r.1,
          (hmapping _).mpr ⟨r.1, hss, by rw [if_neg (ne_true_of_eq_false hkept)]⟩,
          hon.symm, hwork.symm.trans heold⟩
      rw [hcarries] at hnone
      contradiction
    exact recorded_iff.mpr ⟨e, (mem_moveEvents hne).mpr (.inl ⟨he, hstay⟩), hwork, hkey⟩
  have hcovered : Covered rules nowMs { moved with
      releaseEvent := moveEvents row.workId target row.sourceSeriesId moved
        db.releaseEvent } ↔ _ := covered_moved_iff hstays hmapping hchapter h
  rw [hcovered]
  apply forall₂_congr
  intro r hr
  rw [decide_eq_true_eq]
  apply imp_congr_right
  intro hid
  apply imp_congr_right
  intro hseed
  rw [recorded_iff]
  refine (exists_onTarget_moveEvents hne).trans (exists_congr fun e => ?_)
  rw [hfollows]

end Moves

/-! ## Mappings that come and go

New mappings have no chapters, and deleted ones take theirs along. -/

section Mappings

variable {rules : SpineRules} {nowMs : Int} {db db' : Db}

/-- Works are deleted with their mappings and their events. -/
theorem covered_of_deleted {p : Id → Bool} (h : Covered rules nowMs db)
    (hmapping : ∀ r ∈ db'.sourceSeries,
      r ∈ db.sourceSeries ∧ p r.workId = false)
    (hchapter : ∀ c ∈ db'.chapter, c ∈ db.chapter)
    (hevent : ∀ e ∈ db.releaseEvent, p e.workId = false → e ∈ db'.releaseEvent) :
    Covered rules nowMs db' := by
  apply h.of_rows
  intro r' hr'
  obtain ⟨hss, hc, hon⟩ := mem_spine.mp hr'
  obtain ⟨hold, hp⟩ := hmapping _ hss
  refine ⟨r', mem_spine.mpr ⟨hold, hchapter _ hc, hon⟩, rfl, fun hrecorded => ?_⟩
  obtain ⟨e, he, hwork, hkey⟩ := recorded_iff.mp hrecorded
  exact recorded_iff.mpr ⟨e, hevent e he (hwork.symm ▸ hp), hwork, hkey⟩

/-- A mapping that is new has no chapters yet. -/
theorem covered_ensureSourceSeries {row : SourceSeries} {now : String} {id : Id}
    (hok : ensureSourceSeries row now db = .ok (id, db'))
    (hnew : ∀ c ∈ db.chapter, c.sourceSeriesId ≠ row.id)
    (h : Covered rules nowMs db) : Covered rules nowMs db' := by
  obtain ⟨t, rfl, ⟨-, ht⟩ | ⟨-, -, ht⟩⟩ := ensureSourceSeries_ok hok
  · apply h.of_rows
    intro r' hr'
    obtain ⟨hss, hc, hon⟩ := mem_spine.mp hr'
    obtain ⟨old, hold, htouch⟩ := (ht _).mp hss
    have hid : old.id = r'.1.id ∧ old.workId = r'.1.workId := by
      rw [htouch]
      split <;> exact ⟨rfl, rfl⟩
    refine ⟨(old, r'.2), mem_spine.mpr ⟨hold, hc, hon.trans hid.1.symm⟩, rfl, ?_⟩
    intro hrecorded
    obtain ⟨e, he, hwork, hkey⟩ := recorded_iff.mp hrecorded
    exact recorded_iff.mpr ⟨e, he, hwork.trans hid.2, hkey⟩
  · apply h.of_rows
    intro r' hr'
    obtain ⟨hss, hc, hon⟩ := mem_spine.mp hr'
    rcases (ht _).mp hss with hold | hrow
    · exact ⟨r', mem_spine.mpr ⟨hold, hc, hon⟩, rfl, fun h => h⟩
    · rw [hrow] at hon
      exact absurd hon (hnew _ hc)

/-- A mapping that stays keeps its chapters: a deleted one with its id would be
the same mapping. -/
theorem mem_chapter_deleteSourceSeries {p : SourceSeries → Bool} {c : Chapter}
    {r : SourceSeries} (hc : c ∈ db.chapter) (hr : r ∈ db.sourceSeries)
    (hkept : p r = false) (hid : r.id = c.sourceSeriesId) :
    c ∈ (db.deleteSourceSeries p).chapter := by
  refine Table.mem_deleteWhere.mpr ⟨hc, ?_⟩
  rw [← Bool.not_eq_true]
  intro hgone
  obtain ⟨other, hother, hgone⟩ := List.any_eq_true.mp hgone
  simp only [Bool.and_eq_true, decide_eq_true_eq] at hgone
  have hsame : other = r := Table.eq_of_clash hother hr
    (decide_eq_true (.inl (hgone.2.trans hid.symm)))
  rw [hsame, hkept] at hgone
  exact Bool.noConfusion hgone.1

/-- The purge, with the keys it purges. -/
theorem mem_of_purge {ids : List Int}
    (hok : purgeForeignLanguageSuwayomi db = .ok (ids, db')) :
    (∀ r, r ∈ db'.sourceSeries ↔
      (r ∈ db.sourceSeries ∧ purges ((nonEnglish db).map toString) r = false) ∧
        orphanedBy db ((nonEnglish db).map toString) r.workId = false) ∧
    (∀ e, e ∈ db'.releaseEvent ↔ e ∈ db.releaseEvent ∧
      orphanedBy db ((nonEnglish db).map toString) e.workId = false) ∧
    (∀ c ∈ db'.chapter, c ∈ db.chapter) ∧
    ∀ c ∈ db.chapter, ∀ r ∈ db'.sourceSeries, r.id = c.sourceSeriesId →
      c ∈ db'.chapter := by
  unfold purgeForeignLanguageSuwayomi at hok
  dsimp only at hok
  split at hok
  · next hnone =>
      cases hok
      have hkeeps : ∀ w, orphanedBy db ((nonEnglish db).map toString) w = false := by
        intro w
        rw [hnone]
        simp only [orphanedBy, purges, List.map_nil, List.contains_nil,
          Bool.and_false, Bool.or_false]
        grind
      have hstays : ∀ r, purges ((nonEnglish db).map toString) r = false := by
        intro r
        rw [hnone]
        simp [purges]
      exact ⟨fun r => by simp [hkeeps, hstays], fun e => by simp [hkeeps],
        fun c hc => hc, fun c hc _ _ _ => hc⟩
  · cases hok
    have hmapping : ∀ r, r ∈ ((db.sourceSeries.deleteWhere
        (purges ((nonEnglish db).map toString))).deleteWhere fun r =>
          orphanedBy db ((nonEnglish db).map toString) r.workId) ↔
        (r ∈ db.sourceSeries ∧ purges ((nonEnglish db).map toString) r = false) ∧
          orphanedBy db ((nonEnglish db).map toString) r.workId = false := by
      intro r
      rw [Table.mem_deleteWhere, Table.mem_deleteWhere]
    refine ⟨hmapping, fun e => Table.mem_deleteWhere, fun c hc => ?_,
      fun c hc r hr hid => ?_⟩
    · exact (Table.mem_deleteWhere.mp (Table.mem_deleteWhere.mp hc).1).1
    · obtain ⟨⟨hold, hkept⟩, hlive⟩ := (hmapping r).mp hr
      have hstays := mem_chapter_deleteSourceSeries hc hold hkept hid
      exact mem_chapter_deleteSourceSeries hstays
        (Table.mem_deleteWhere.mpr ⟨hold, hkept⟩) hlive hid

end Mappings

/-! ## Steps of the catalogue

One equivalence for each kind of step. -/

/-- The transaction writes chapters or records events. -/
def writesSpine : Op → Bool
  | .upsertChapter .. | .replaceSourceChapters .. | .seedWork ..
  | .recordSourceSeries .. => true
  | _ => false

/-- The step deletes the work outright. -/
def deletesWork (db : Db) : Op → Id → Bool
  | .deleteWorkCascade workId, id => id = workId
  | .purgeForeignLanguageSuwayomi, id =>
      orphanedBy db ((nonEnglish db).map toString) id
  | _, _ => false

/-- A split, or the move of a mismatched mapping, takes along the events of the
chapters it moves. -/
def OpCovered (rules : Rules) (nowMs : Int) (s : CatalogState) (op : Op) : Prop :=
  match op with
  | .commitSplit i newWorkId actor => s.fresh op = true →
      ∀ plan outcome db', s.plans[i]? = some plan →
        commitSplit rules.toTextRules plan newWorkId actor s.db = .ok (outcome, db') →
          SplitCovered rules.toSpineRules nowMs s.db plan
  | .splitMismatchedRow row =>
      ∀ target u db', row.destination = some target →
        splitMismatchedRow row s.db = .ok (u, db') →
          MoveCovered rules.toSpineRules nowMs s.db row target
  | _ => True

/-- A step that only writes around the spine: it leaves the chapters of the
mappings it keeps. -/
structure KeepsChapters (before after : Db) : Prop where
  old : ∀ c ∈ after.chapter, c ∈ before.chapter
  kept : ∀ c ∈ before.chapter, ∀ r ∈ after.sourceSeries, r.id = c.sourceSeriesId →
    c ∈ after.chapter

/-- A step that leaves the table of chapters as it is. -/
theorem KeepsChapters.of_eq {before after : Db}
    (h : after.chapter = before.chapter) : KeepsChapters before after where
  old _ hc := h ▸ hc
  kept _ hc _ _ _ := h ▸ hc

section Steps

variable {rules : Rules} {nowMs : Int} {s : CatalogState} {op : Op}

/-- A merge moves mappings and leaves their chapters. -/
theorem keepsChapters_merged {text : TextRules} {source target : Id} {db : Db}
    (hne : source ≠ target) : KeepsChapters db (merged text source target db) where
  old c hc := (Table.mem_deleteWhere.mp (Table.mem_deleteWhere.mp hc).1).1
  kept c hc r hr hid := by
    obtain ⟨old, hold, hmoved⟩ := (mem_sourceSeries_merged hne).mp hr
    have hrow : r ∈ repoint source target db.sourceSeries :=
      (mem_repoint_of_keepsKeys moveSourceSeries_keepsKeys).mpr ⟨old, hold, hmoved⟩
    have hoff : onWork source r = false := by
      rw [hmoved]
      exact not_onWork_moved hne old
    have hwork : decide (r.workId = source) = false := by
      simpa [onWork, on?, OnWork.ofColumn] using hoff
    let moved : Db := { db with sourceSeries := repoint source target db.sourceSeries }
    have hstays : c ∈ (moved.deleteSourceSeries (onWork source)).chapter :=
      @mem_chapter_deleteSourceSeries moved _ _ _ hc hrow hoff hid
    exact @mem_chapter_deleteSourceSeries
      (moved.deleteSourceSeries (onWork source)) _ _ _ hstays
      (Table.mem_deleteWhere.mpr ⟨hrow, hoff⟩) hwork hid

/-- The mappings that are left keep their chapters. -/
theorem keepsChapters_deleteWorksExplicitly {p : Id → Bool} {db : Db} :
    KeepsChapters db (deleteWorksExplicitly p db) where
  old c hc := (Table.mem_deleteWhere.mp hc).1
  kept c hc r hr hid := by
    obtain ⟨hold, hlive⟩ := mem_sourceSeries_deleteWorksExplicitly.mp hr
    exact mem_chapter_deleteSourceSeries hc hold hlive hid

/-- A step that writes no chapter is such a step. -/
theorem write_keepsChapters (hop : writesSpine op = false) :
    KeepsChapters s.db (s.write rules op) := by
  have hrefl : KeepsChapters s.db s.db := .of_eq rfl
  cases op with
  | createWork =>
      refine commit_cases hrefl fun a db' h => ?_
      obtain ⟨work, -, rfl⟩ := createWork_ok h
      exact .of_eq rfl
  | upsertWorkFromMangadex =>
      refine commit_cases hrefl fun a db' h => ?_
      obtain ⟨-, sid, h⟩ := upsertWorkFromMangadex_ok h
      obtain ⟨t, rfl, -⟩ := ensureSourceSeries_ok h
      exact .of_eq rfl
  | upsertSourceSeries =>
      refine commit_cases hrefl fun a db' h => ?_
      obtain ⟨t, rfl, -⟩ := ensureSourceSeries_ok h
      exact .of_eq rfl
  | addWorkAlias =>
      refine commit_cases hrefl fun a db' h => ?_
      rcases addWorkAlias_ok h with rfl | rfl <;> exact .of_eq rfl
  | mergeWorks source target expected =>
      refine commit_cases hrefl fun outcome db' hok => ?_
      obtain ⟨hne, -, -, -, rfl⟩ := merge_ok hok
      exact keepsChapters_merged hne
  | commitSplit i newWorkId actor =>
      refine write_commitSplit_cases hrefl fun plan outcome db' _ hok => ?_
      exact .of_eq (releaseEvent_commitSplit hok).2
  | deleteWorkCascade workId => exact keepsChapters_deleteWorksExplicitly
  | purgeForeignLanguageSuwayomi =>
      refine commit_cases hrefl fun ids db' hok => ?_
      obtain ⟨-, -, hold, hkept⟩ := mem_of_purge hok
      exact ⟨hold, hkept⟩
  | splitMismatchedRow row =>
      refine commit_cases hrefl fun u db' hok => ?_
      rcases splitMismatchedRow_ok hok with ⟨-, rfl⟩ | ⟨_, -, -, _, rfl, rfl⟩ <;>
        exact .of_eq rfl
  | removeWorkAlias => exact .of_eq rfl
  | planSplit => exact .of_eq rfl
  | cacheSeries => exact .of_eq rfl
  | upsertChapter | replaceSourceChapters | seedWork | recordSourceSeries =>
      contradiction

/-! ### Coverage -/

/-- A step that writes neither mappings, nor chapters, nor events. -/
theorem covered_congr {before after : Db} {rules : SpineRules}
    (hmapping : after.sourceSeries = before.sourceSeries)
    (hchapter : after.chapter = before.chapter)
    (hevent : after.releaseEvent = before.releaseEvent)
    (h : Covered rules nowMs before) : Covered rules nowMs after := by
  apply h.of_rows
  intro r hr
  obtain ⟨hss, hc, hon⟩ := mem_spine.mp hr
  rw [hmapping] at hss
  rw [hchapter] at hc
  refine ⟨r, mem_spine.mpr ⟨hss, hc, hon⟩, rfl, fun hrecorded => ?_⟩
  unfold recorded at hrecorded ⊢
  rwa [hevent]

/-- What a transaction that succeeds does, a commit does. -/
theorem covered_commit_iff {α : Type} {db : Db} {rules : SpineRules}
    {result : Except CatalogError (α × Db)} {P : Prop} (h : Covered rules nowMs db)
    (herror : ∀ e, result = .error e → P)
    (hok : ∀ a db', result = .ok (a, db') → (Covered rules nowMs db' ↔ P)) :
    Covered rules nowMs (db.commit result) ↔ P := by
  cases hresult : result with
  | error e => exact iff_of_true h (herror e hresult)
  | ok pair => exact hok pair.1 pair.2 hresult

/-- A split from a plan, onto a work that has no events yet. -/
theorem covered_write_commitSplit_iff {i : Nat} {newWorkId : Id} {actor : Option Id}
    (hground : Grounded s) (hfresh : s.fresh (.commitSplit i newWorkId actor) = true)
    (h : Covered rules.toSpineRules nowMs s.db) :
    Covered rules.toSpineRules nowMs (s.write rules (.commitSplit i newWorkId actor)) ↔
      OpCovered rules nowMs s (.commitSplit i newWorkId actor) := by
  have hnone : ∀ e ∈ s.db.releaseEvent, e.workId ≠ newWorkId := by
    intro e he heq
    have hminted := hground.live_minted _ (hground.linked.events e he)
    have hunminted := List.all_eq_true.mp hfresh newWorkId List.mem_cons_self
    rw [← heq] at hunminted
    simp [hminted] at hunminted
  unfold CatalogState.write OpCovered
  simp only [hfresh, forall_const]
  cases hplan : s.plans[i]? with
  | none => exact iff_of_true h (by simp)
  | some plan =>
      dsimp only
      apply covered_commit_iff h
      · intro e he plan' outcome db' hplan' hok
        cases hplan'
        rw [he] at hok
        contradiction
      · intro outcome db' hok
        rw [covered_commitSplit_iff hok hnone h]
        constructor
        · intro hcovered plan' outcome' db'' hplan' _
          cases hplan'
          exact hcovered
        · intro hcovered
          exact hcovered plan outcome db' rfl hok

/-- The same for the step, which may also fail. -/
theorem covered_write_splitMismatchedRow_iff {row : ClassifiedRow}
    (h : Covered rules.toSpineRules nowMs s.db) :
    Covered rules.toSpineRules nowMs (s.write rules (.splitMismatchedRow row)) ↔
      OpCovered rules nowMs s (.splitMismatchedRow row) := by
  unfold CatalogState.write OpCovered
  dsimp only
  apply covered_commit_iff h
  · intro e he target u db' _ hok
    rw [he] at hok
    contradiction
  · intro u db' hok
    cases htarget : row.destination with
    | none =>
        rcases splitMismatchedRow_ok hok with ⟨-, rfl⟩ | ⟨t, ht, -⟩
        · exact iff_of_true h (by simp)
        · rw [htarget] at ht
          contradiction
    | some target =>
        rw [covered_splitMismatchedRow_iff htarget hok h]
        constructor
        · intro hcovered target' u' db'' htarget' _
          cases htarget'
          exact hcovered
        · intro hcovered
          exact hcovered target u db' rfl hok

/-- One step of the catalogue, on a ledger that covers the spine. -/
theorem covered_write_op_iff (hground : Grounded s)
    (howned : ∀ c ∈ s.db.chapter, c.sourceSeriesId ∈ s.minted)
    (hfresh : s.fresh op = true) (hop : writesSpine op = false)
    (h : Covered rules.toSpineRules nowMs s.db) :
    Covered rules.toSpineRules nowMs (s.write rules op) ↔
      OpCovered rules nowMs s op := by
  have hnew : ∀ id ∈ op.mints, ∀ c ∈ s.db.chapter, c.sourceSeriesId ≠ id := by
    intro id hid c hc heq
    have hunminted := List.all_eq_true.mp hfresh id hid
    rw [← heq] at hunminted
    simp [howned c hc] at hunminted
  cases op with
  | commitSplit => exact covered_write_commitSplit_iff hground hfresh h
  | splitMismatchedRow => exact covered_write_splitMismatchedRow_iff h
  | createWork newWorkId input =>
      refine iff_of_true (commit_cases h fun id db' hok => ?_) trivial
      obtain ⟨work, -, rfl⟩ := createWork_ok hok
      exact covered_congr rfl rfl rfl h
  | upsertWorkFromMangadex newWorkId newSourceSeriesId mangadexId input now =>
      refine iff_of_true (commit_cases h fun id db' hok => ?_) trivial
      obtain ⟨-, sid, hss⟩ := upsertWorkFromMangadex_ok hok
      apply covered_ensureSourceSeries hss
      · exact hnew newSourceSeriesId (List.mem_cons_of_mem _ List.mem_cons_self)
      · exact covered_congr rfl rfl rfl h
  | upsertSourceSeries newSourceSeriesId =>
      refine iff_of_true (commit_cases h fun id db' hok => ?_) trivial
      exact covered_ensureSourceSeries hok
        (hnew newSourceSeriesId List.mem_cons_self) h
  | addWorkAlias =>
      refine iff_of_true (commit_cases h fun id db' hok => ?_) trivial
      rcases addWorkAlias_ok hok with rfl | rfl <;> exact covered_congr rfl rfl rfl h
  | mergeWorks source target expected =>
      refine iff_of_true (commit_cases h fun outcome db' hok => ?_) trivial
      obtain ⟨hne, -, -, -, rfl⟩ := merge_ok hok
      exact covered_merged hne h
  | deleteWorkCascade workId =>
      refine iff_of_true (covered_of_deleted (p := fun id => id = workId) h ?_ ?_ ?_)
        trivial
      · exact fun r hr => mem_sourceSeries_deleteWorksExplicitly.mp hr
      · exact keepsChapters_deleteWorksExplicitly.old
      · exact fun e he hlive => Table.mem_deleteWhere.mpr ⟨he, hlive⟩
  | purgeForeignLanguageSuwayomi =>
      refine iff_of_true (commit_cases h fun ids db' hok => ?_) trivial
      obtain ⟨hmapping, hevent, hold, -⟩ := mem_of_purge hok
      refine covered_of_deleted (p := orphanedBy s.db ((nonEnglish s.db).map toString))
        h (fun r hr => ?_) hold fun e he hlive => ?_
      · obtain ⟨⟨hr, -⟩, hlive⟩ := (hmapping r).mp hr
        exact ⟨hr, hlive⟩
      · exact (hevent e).mpr ⟨he, hlive⟩
  | removeWorkAlias => exact iff_of_true (covered_congr rfl rfl rfl h) trivial
  | planSplit => exact iff_of_true h trivial
  | cacheSeries => exact iff_of_true (covered_congr rfl rfl rfl h) trivial
  | upsertChapter | replaceSourceChapters | seedWork | recordSourceSeries =>
      contradiction

/-- A step keeps the ledger covering exactly if what it moves takes its events along. -/
theorem covered_step_iff (hground : Grounded s)
    (howned : ∀ c ∈ s.db.chapter, c.sourceSeriesId ∈ s.minted)
    (hop : writesSpine op = false) (h : Covered rules.toSpineRules nowMs s.db) :
    Covered rules.toSpineRules nowMs (s.step rules op).db ↔
      OpCovered rules nowMs s op := by
  cases hfresh : s.fresh op with
  | true =>
      rw [step_db_of_fresh hfresh]
      exact covered_write_op_iff hground howned hfresh hop h
  | false =>
      rw [step_of_not_fresh hfresh]
      refine iff_of_true h ?_
      cases op with
      | commitSplit i newWorkId actor =>
          intro hminted
          rw [hfresh] at hminted
          contradiction
      | splitMismatchedRow => contradiction
      | _ => trivial

/-! ### Events -/

/-- Some event of a work that the step does not delete is left. -/
theorem events_write_iff (hop : writesSpine op = false) :
    (∃ e, e ∈ (s.write rules op).releaseEvent) ↔
      ∃ e ∈ s.db.releaseEvent, deletesWork s.db op e.workId = false := by
  have hsame : ∀ {db' : Db}, db'.releaseEvent = s.db.releaseEvent →
      (∀ id, deletesWork s.db op id = false) →
        ((∃ e, e ∈ db'.releaseEvent) ↔
          ∃ e ∈ s.db.releaseEvent, deletesWork s.db op e.workId = false) := by
    intro db' hevent hlive
    rw [hevent]
    exact exists_congr fun e => ⟨fun he => ⟨he, hlive e.workId⟩, fun h => h.1⟩
  by_cases hevents : keepsEvents op = true
  · refine hsame (write_releaseEvent hevents) fun id => ?_
    cases op <;> first | rfl | contradiction
  cases op with
  | mergeWorks source target expected =>
      refine commit_cases (P := fun db' : Db => (∃ e, e ∈ db'.releaseEvent) ↔ _)
        (hsame rfl fun _ => rfl) fun outcome db' hok => ?_
      obtain ⟨hne, -, -, -, rfl⟩ := merge_ok hok
      constructor
      · rintro ⟨x, hx⟩
        obtain ⟨-, e, he, -⟩ := of_mem_releaseEvent_merged hx
        exact ⟨e, he, rfl⟩
      · rintro ⟨e, he, -⟩
        obtain ⟨x, hx, -⟩ := exists_le_releaseEvent_merged rules.toTextRules hne he
        exact ⟨x, hx⟩
  | commitSplit i newWorkId actor =>
      refine write_commitSplit_cases
        (P := fun db' : Db => (∃ e, e ∈ db'.releaseEvent) ↔ _)
        (hsame rfl fun _ => rfl) fun plan outcome db' _ hok => ?_
      rw [(releaseEvent_commitSplit hok).1]
      exact (exists_mem_detachEvents (commitSplit_found hok).2.1).trans
        (exists_congr fun e => ⟨fun he => ⟨he, rfl⟩, fun h => h.1⟩)
  | splitMismatchedRow row =>
      refine commit_cases (P := fun db' : Db => (∃ e, e ∈ db'.releaseEvent) ↔ _)
        (hsame rfl fun _ => rfl) fun u db' hok => ?_
      rcases splitMismatchedRow_ok hok with
        ⟨-, rfl⟩ | ⟨target, htarget, -, moved, -, rfl⟩
      · exact hsame rfl fun _ => rfl
      · exact (exists_mem_moveEvents (destination_ne htarget)).trans
          (exists_congr fun e => ⟨fun he => ⟨he, rfl⟩, fun h => h.1⟩)
  | deleteWorkCascade workId => exact exists_congr fun e => Table.mem_deleteWhere
  | purgeForeignLanguageSuwayomi =>
      have hpurge : ∃ ids db', purgeForeignLanguageSuwayomi s.db = .ok (ids, db') := by
        unfold purgeForeignLanguageSuwayomi
        dsimp only
        split <;> exact ⟨_, _, rfl⟩
      obtain ⟨ids, db', hok⟩ := hpurge
      have hwrite : s.write rules .purgeForeignLanguageSuwayomi = db' := by
        show s.db.commit (purgeForeignLanguageSuwayomi s.db) = db'
        rw [hok, commit_ok]
      rw [hwrite]
      exact exists_congr (mem_of_purge hok).2.1
  | seedWork | recordSourceSeries => contradiction
  | createWork | upsertWorkFromMangadex | upsertSourceSeries | addWorkAlias
  | removeWorkAlias | planSplit | cacheSeries | upsertChapter
  | replaceSourceChapters => exact absurd rfl hevents

/-- After a step there is an event if there was one of a work that the step does not
delete. -/
theorem events_step_iff (hop : writesSpine op = false) :
    (∃ e, e ∈ (s.step rules op).db.releaseEvent) ↔
      ∃ e ∈ s.db.releaseEvent, deletesWork s.db op e.workId = false := by
  cases hfresh : s.fresh op with
  | true =>
      rw [step_db_of_fresh hfresh]
      exact events_write_iff hop
  | false =>
      rw [step_of_not_fresh hfresh]
      have hlive : ∀ id, deletesWork s.db op id = false := by
        intro id
        cases op with
        | deleteWorkCascade | purgeForeignLanguageSuwayomi => contradiction
        | _ => rfl
      exact exists_congr fun e => ⟨fun he => ⟨he, hlive e.workId⟩, fun h => h.1⟩

end Steps

end Komika.Catalog.Coverage
