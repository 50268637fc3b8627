import Komika.Catalog.Events
import Komika.Catalog.Runs

/-!
# Live works, claims and minted ids

What every reachable state keeps and the arguments about runs start from: the
foreign keys of `work_external_id`, `source_series` and `release_event` point
at live works, and the id of a live work was minted.  Together with the
freshness of minted ids this says that no step brings a retired id back.

* `write_worksWithin` — a step adds no live work but those it mints, and leaves no claim
  of a dead one;
* `write_linked` — a step leaves every mapping and every event on a live work;
* `grounded_step`, `grounded_reach` — the invariant, and that every reachable state has
  it;
* `hasWork_of_step` — the form in which it is mostly used.
-/

namespace Komika.Catalog.Integrity

open Komika.Lib
open Komika.Catalog.Schema Komika.Catalog.Database Komika.Catalog.Ingest
open Komika.Catalog.Ledger Komika.Catalog.Merge Komika.Catalog.Split
open Komika.Catalog.Runs Komika.Catalog.Effects Komika.Catalog.Events

/-! ## Steps that leave tables alone -/

/-- The tables that say which works there are and what they stand for. -/
def anchors (db : Db) :
    Table Work × Table WorkExternalId × Table SourceSeries :=
  (db.work, db.workExternalId, db.sourceSeries)

/-- The step writes none of them. -/
def keepsAnchors : Op → Bool
  | .addWorkAlias .. | .removeWorkAlias .. | .planSplit .. | .cacheSeries ..
  | .upsertChapter .. | .replaceSourceChapters .. | .seedWork ..
  | .recordSourceSeries .. => true
  | _ => false

variable {rules : Rules} {s : CatalogState} {op : Op}

/-- Such a step leaves the tables as they are. -/
theorem write_anchors (h : keepsAnchors op = true) :
    anchors (s.write rules op) = anchors s.db := by
  cases op with
  | addWorkAlias =>
      refine commit_congr anchors fun a db' h => ?_
      rcases addWorkAlias_ok h with rfl | rfl <;> rfl
  | upsertChapter =>
      refine commit_congr anchors fun a db' h => ?_
      obtain ⟨c, rfl⟩ := upsertChapter_ok h
      rfl
  | replaceSourceChapters =>
      refine commit_congr anchors fun a db' h => ?_
      obtain ⟨c, rfl⟩ := replaceSourceChapters_ok h
      rfl
  | removeWorkAlias => rfl
  | planSplit => rfl
  | cacheSeries => rfl
  | seedWork => rfl
  | recordSourceSeries => rfl
  | createWork => contradiction
  | upsertWorkFromMangadex => contradiction
  | upsertSourceSeries => contradiction
  | mergeWorks => contradiction
  | commitSplit => contradiction
  | deleteWorkCascade => contradiction
  | purgeForeignLanguageSuwayomi => contradiction
  | splitMismatchedRow => contradiction

/-- The step writes no release event. -/
def keepsEvents : Op → Bool
  | .createWork .. | .upsertWorkFromMangadex .. | .upsertSourceSeries ..
  | .addWorkAlias .. | .removeWorkAlias .. | .planSplit .. | .cacheSeries ..
  | .upsertChapter .. | .replaceSourceChapters .. => true
  | _ => false

/-- Such a step leaves the ledger as it is. -/
theorem write_releaseEvent (h : keepsEvents op = true) :
    (s.write rules op).releaseEvent = s.db.releaseEvent := by
  cases op with
  | createWork =>
      refine commit_congr Db.releaseEvent fun a db' h => ?_
      obtain ⟨work, -, rfl⟩ := createWork_ok h
      rfl
  | upsertWorkFromMangadex =>
      refine commit_congr Db.releaseEvent fun a db' h => ?_
      obtain ⟨-, sid, h⟩ := upsertWorkFromMangadex_ok h
      obtain ⟨t, rfl, -⟩ := ensureSourceSeries_ok h
      rfl
  | upsertSourceSeries =>
      refine commit_congr Db.releaseEvent fun a db' h => ?_
      obtain ⟨t, rfl, -⟩ := ensureSourceSeries_ok h
      rfl
  | addWorkAlias =>
      refine commit_congr Db.releaseEvent fun a db' h => ?_
      rcases addWorkAlias_ok h with rfl | rfl <;> rfl
  | upsertChapter =>
      refine commit_congr Db.releaseEvent fun a db' h => ?_
      obtain ⟨c, rfl⟩ := upsertChapter_ok h
      rfl
  | replaceSourceChapters =>
      refine commit_congr Db.releaseEvent fun a db' h => ?_
      obtain ⟨c, rfl⟩ := replaceSourceChapters_ok h
      rfl
  | removeWorkAlias => rfl
  | planSplit => rfl
  | cacheSeries => rfl
  | seedWork => contradiction
  | recordSourceSeries => contradiction
  | mergeWorks => contradiction
  | commitSplit => contradiction
  | deleteWorkCascade => contradiction
  | purgeForeignLanguageSuwayomi => contradiction
  | splitMismatchedRow => contradiction

/-! ## Live works and claims

Steps add works that they have minted, and delete works together with their claims. -/

/-- Every external id is claimed by a live work. -/
def ClaimsLive (db : Db) : Prop :=
  ∀ e ∈ db.workExternalId, db.hasWork e.workId = true

/-- No work is live after `op` that was not before, but for those it mints; and
the claims are of live works. -/
structure WorksWithin (before : Db) (op : Op) (after : Db) : Prop where
  minted : ∀ id, after.hasWork id = true →
    before.hasWork id = true ∨ id ∈ op.mints
  claims : ClaimsLive after

theorem WorksWithin.refl {db : Db} (h : ClaimsLive db) : WorksWithin db op db :=
  ⟨fun _ => .inl, h⟩

/-- A step whose tables of works and claims are as before. -/
theorem WorksWithin.of_anchors {before after : Db} (h : ClaimsLive before)
    (hwork : after.work = before.work)
    (hclaim : after.workExternalId = before.workExternalId) :
    WorksWithin before op after := by
  have hlive : ∀ id, after.hasWork id = before.hasWork id := by
    intro id
    unfold Db.hasWork
    rw [hwork]
  refine ⟨fun id hid => .inl (hlive id ▸ hid), fun e he => ?_⟩
  rw [hlive]
  exact h e (hclaim ▸ he)

/-- A step that adds the work `w`, and claims of `w` only. -/
theorem WorksWithin.of_new {before after : Db} {w : Id} (h : ClaimsLive before)
    (hminted : before.hasWork w = true ∨ w ∈ op.mints)
    (hwork : ∀ id, after.hasWork id = true ↔ before.hasWork id = true ∨ id = w)
    (hclaim : ∀ e ∈ after.workExternalId,
      (∃ old ∈ before.workExternalId, old.workId = e.workId) ∨ e.workId = w) :
    WorksWithin before op after := by
  refine ⟨fun id hid => ?_, fun e he => ?_⟩
  · rcases (hwork id).mp hid with hid | rfl
    · exact .inl hid
    · exact hminted
  · rw [hwork]
    rcases hclaim e he with ⟨old, hold, heq⟩ | heq
    · exact .inl (heq ▸ h old hold)
    · exact .inr heq

/-- A step that deletes the works `p` with their claims. -/
theorem WorksWithin.of_deleted {before after : Db} {p : Id → Bool}
    (h : ClaimsLive before)
    (hwork : ∀ id, after.hasWork id = true ↔
      before.hasWork id = true ∧ p id = false)
    (hclaim : ∀ e, e ∈ after.workExternalId ↔
      e ∈ before.workExternalId ∧ p e.workId = false) :
    WorksWithin before op after := by
  refine ⟨fun id hid => .inl ((hwork id).mp hid).1, fun e he => ?_⟩
  obtain ⟨hmem, hp⟩ := (hclaim e).mp he
  exact (hwork _).mpr ⟨h e hmem, hp⟩

/-- Every step, by the three cases above. -/
theorem write_worksWithin (h : ClaimsLive s.db) :
    WorksWithin s.db op (s.write rules op) := by
  by_cases hkeep : keepsAnchors op = true
  · have hsame : anchors (s.write rules op) = anchors s.db := write_anchors hkeep
    obtain ⟨hwork, hrest⟩ := Prod.mk.inj hsame
    exact .of_anchors h hwork (Prod.mk.inj hrest).1
  cases op with
  | createWork newWorkId input =>
      refine commit_cases (.refl h) fun id db' hok => ?_
      refine .of_new h (.inr (List.mem_singleton_self _))
        (fun id => hasWork_createWork hok) fun e he => ?_
      exact ((mem_workExternalId_createWork hok).1 he).imp_left
        fun he => ⟨e, he, rfl⟩
  | upsertWorkFromMangadex newWorkId newSourceSeriesId mangadexId input now =>
      refine commit_cases (.refl h) fun id db' hok => ?_
      refine .of_new h ?_ (fun id => hasWork_upsertWorkFromMangadex hok)
        fun e he => ?_
      · -- the id is that of a claim, so of a live work, or the one minted
        rw [(upsertWorkFromMangadex_ok hok).1]
        cases hclaim : externalWork s.db "mangadex" mangadexId with
        | none => exact .inr List.mem_cons_self
        | some w => exact .inl (h _ (externalWork_eq_some.mp hclaim))
      · exact ((mem_workExternalId_upsertWorkFromMangadex hok).1 he).imp_left
          fun he => ⟨e, he, rfl⟩
  | upsertSourceSeries =>
      refine commit_cases (.refl h) fun id db' hok => ?_
      obtain ⟨t, rfl, -⟩ := ensureSourceSeries_ok hok
      exact .of_anchors h rfl rfl
  | mergeWorks source target expected =>
      refine commit_cases (.refl h) fun outcome db' hok => ?_
      obtain ⟨hne, -, htarget, -, rfl⟩ := merge_ok hok
      refine ⟨fun id hid => .inl (hasWork_merged.mp hid).1, fun e he => ?_⟩
      obtain ⟨old, hold, rfl⟩ := (mem_workExternalId_merged hne).mp he
      rw [hasWork_merged]
      by_cases hold' : old.workId = source
      · simpa [onWork, on?, OnWork.ofColumn, move, hold', Ne.symm hne]
          using htarget
      · simpa [onWork, on?, OnWork.ofColumn, hold'] using h old hold
  | commitSplit i newWorkId actor =>
      refine write_commitSplit_cases (.refl h) fun plan outcome db' _ hok => ?_
      refine .of_new h (.inr (List.mem_singleton_self _))
        (fun id => hasWork_commitSplit hok) fun e he => ?_
      obtain ⟨old, hold, rfl⟩ := (mem_workExternalId_commitSplit hok).mp he
      split
      · exact .inr rfl
      · exact .inl ⟨old, hold, rfl⟩
  | deleteWorkCascade workId =>
      exact .of_deleted h (fun id => hasWork_deleteWorksExplicitly)
        fun e => mem_workExternalId_deleteWorksExplicitly
  | purgeForeignLanguageSuwayomi =>
      refine commit_cases (.refl h) fun ids db' hok => ?_
      rcases purge_ok hok with rfl | ⟨keys, hwork, hclaim, -, -⟩
      · exact .refl h
      · exact .of_deleted h hwork hclaim
  | splitMismatchedRow row =>
      refine commit_cases (.refl h) fun u db' hok => ?_
      rcases splitMismatchedRow_ok hok with ⟨-, rfl⟩ | ⟨_, -, -, _, rfl, rfl⟩
      · exact .refl h
      · exact .of_anchors h rfl rfl
  | addWorkAlias | removeWorkAlias | planSplit | cacheSeries | upsertChapter
  | replaceSourceChapters | seedWork | recordSourceSeries =>
      exact absurd rfl hkeep

/-! ## Mappings and events of live works

The foreign keys hold after every step because deletes cascade and moves end on live
works. -/

/-- The foreign keys of `source_series` and `release_event`. -/
structure Linked (db : Db) : Prop where
  mappings : ∀ r ∈ db.sourceSeries, db.hasWork r.workId = true
  events : ∀ e ∈ db.releaseEvent, db.hasWork e.workId = true

/-- A step that keeps the live works, and whose mappings and events are on
works that had some, or are live. -/
theorem Linked.of_grows {before after : Db} (h : Linked before)
    (hwork : ∀ id, before.hasWork id = true → after.hasWork id = true)
    (hmapping : ∀ r ∈ after.sourceSeries,
      (∃ old ∈ before.sourceSeries, old.workId = r.workId) ∨
        after.hasWork r.workId = true)
    (hevent : ∀ e ∈ after.releaseEvent,
      (∃ old ∈ before.releaseEvent, old.workId = e.workId) ∨
        after.hasWork e.workId = true) :
    Linked after where
  mappings r hr := by
    rcases hmapping r hr with ⟨old, hold, heq⟩ | hlive
    · exact hwork _ (heq ▸ h.mappings old hold)
    · exact hlive
  events e he := by
    rcases hevent e he with ⟨old, hold, heq⟩ | hlive
    · exact hwork _ (heq ▸ h.events old hold)
    · exact hlive

/-- A step that deletes the works `p`, with their mappings and events. -/
theorem Linked.of_deleted {before after : Db} {p : Id → Bool}
    (h : Linked before)
    (hwork : ∀ id, after.hasWork id = true ↔
      before.hasWork id = true ∧ p id = false)
    (hmapping : ∀ r ∈ after.sourceSeries,
      r ∈ before.sourceSeries ∧ p r.workId = false)
    (hevent : ∀ e ∈ after.releaseEvent,
      e ∈ before.releaseEvent ∧ p e.workId = false) :
    Linked after where
  mappings r hr := (hwork _).mpr
    ⟨h.mappings r (hmapping r hr).1, (hmapping r hr).2⟩
  events e he := (hwork _).mpr ⟨h.events e (hevent e he).1, (hevent e he).2⟩

/-- A mapping is added to a live work, or keeps its own. -/
theorem workId_of_ensureSourceSeries {row : SourceSeries} {now : String}
    {id : Id} {db db' : Db} (h : ensureSourceSeries row now db = .ok (id, db')) :
    ∀ r ∈ db'.sourceSeries,
      (∃ old ∈ db.sourceSeries, old.workId = r.workId) ∨
        db.hasWork r.workId = true := by
  obtain ⟨t, rfl, ⟨-, ht⟩ | ⟨-, hlive, ht⟩⟩ := ensureSourceSeries_ok h
  · intro r hr
    obtain ⟨old, hold, rfl⟩ := (ht r).mp hr
    refine .inl ⟨old, hold, ?_⟩
    split <;> rfl
  · intro r hr
    rcases (ht r).mp hr with hr | rfl
    · exact .inl ⟨r, hr, rfl⟩
    · exact .inr hlive

/-- A merge moves mappings and events to a live work. -/
theorem linked_merged {rules : TextRules} {source target : Id} {db : Db}
    (h : Linked db) (hne : source ≠ target)
    (htarget : db.hasWork target = true) :
    Linked (merged rules source target db) where
  mappings r hr := by
    obtain ⟨old, hold, rfl⟩ := (mem_sourceSeries_merged hne).mp hr
    rw [hasWork_merged, workId_moved]
    split
    · exact ⟨htarget, Ne.symm hne⟩
    · next hoff => exact ⟨h.mappings old hold, hoff⟩
  events e he := by
    obtain ⟨hoff, old, hold, rfl⟩ := of_mem_releaseEvent_merged he
    rw [hasWork_merged]
    refine ⟨?_, hoff⟩
    split
    · exact htarget
    · exact h.events old hold

/-- A split moves them to the work it adds. -/
theorem linked_commitSplit {rules : TextRules} {plan : SplitPlan}
    {newWorkId : Id} {actor : Option Id} {db db' : Db} {outcome : SplitOutcome}
    (h : Linked db)
    (hok : commitSplit rules plan newWorkId actor db = .ok (outcome, db')) :
    Linked db' := by
  have hnew : db'.hasWork newWorkId = true :=
    (hasWork_commitSplit hok).mpr (.inr rfl)
  refine h.of_grows (fun id hid => (hasWork_commitSplit hok).mpr (.inl hid))
    (fun r hr => ?_) fun e he => ?_
  · obtain ⟨old, hold, rfl⟩ := (mem_sourceSeries_commitSplit hok).mp hr
    split
    · exact .inr hnew
    · exact .inl ⟨old, hold, rfl⟩
  · rw [(releaseEvent_commitSplit hok).1] at he
    rcases workId_of_mem_detachEvents he with he | hwork
    · exact .inl ⟨e, he, rfl⟩
    · exact .inr (hwork ▸ hnew)

/-- The move of a mismatched mapping is to a live work. -/
theorem linked_splitMismatchedRow {row : ClassifiedRow} {u : Unit} {db db' : Db}
    (h : Linked db) (hok : splitMismatchedRow row db = .ok (u, db')) :
    Linked db' := by
  rcases splitMismatchedRow_ok hok with
    ⟨-, rfl⟩ | ⟨target, -, hfk, moved, hmoved, rfl⟩
  · exact h
  subst hmoved
  refine h.of_grows (fun id hid => hid) (fun r hr => ?_) fun e he => ?_
  · obtain ⟨old, hold, rfl⟩ := (Table.mem_update
      (h := moveSourceSeries_keepsKeys target)).mp hr
    by_cases hid : old.id = row.sourceSeriesId
    · simp only [hid, decide_true, if_true]
      refine .inr ?_
      rcases hfk with hlive | ⟨hnone, -⟩
      · exact hlive
      · exact absurd hid (hnone old hold)
    · simp only [hid, decide_false, Bool.false_eq_true, if_false]
      exact .inl ⟨old, hold, rfl⟩
  · rcases workId_of_mem_moveEvents he with he | ⟨hwork, old, hold, hfollows⟩
    · exact .inl ⟨e, he, rfl⟩
    · refine .inr ?_
      rcases hfk with hlive | ⟨hmapping, hevent⟩
      · exact hwork ▸ hlive
      · -- with no such mapping the move changes none, and no event follows
        rw [Table.update_of_forall_eq_false fun r hr =>
          decide_eq_false (hmapping r hr)] at hfollows
        exact absurd hfollows (by simpa using hevent old hold)

/-- Seeding the ledger adds events of works that have mappings. -/
theorem linked_seeded {db : Db} {nowMs : Int} (h : Linked db) (p : SourceSeries → Bool) :
    Linked { db with
      releaseEvent := db.releaseEvent.insertAllOrIgnore
        (firstPerKey (announcements rules.toSpineRules nowMs p db)) } := by
  refine h.of_grows (fun id hid => hid) (fun r hr => .inl ⟨r, hr, rfl⟩) fun e he => ?_
  rcases workId_of_mem_seeded he with he | ⟨ss, hss, heq⟩
  · exact .inl ⟨e, he, rfl⟩
  · exact .inr (heq ▸ h.mappings ss hss)

/-- Every step keeps the foreign keys. -/
theorem write_linked (h : Linked s.db) : Linked (s.write rules op) := by
  by_cases hkeep : keepsAnchors op = true ∧ keepsEvents op = true
  · have hsame : anchors (s.write rules op) = anchors s.db :=
      write_anchors hkeep.1
    have hevents : (s.write rules op).releaseEvent = s.db.releaseEvent :=
      write_releaseEvent hkeep.2
    obtain ⟨hwork, hrest⟩ := Prod.mk.inj hsame
    have hmappings := (Prod.mk.inj hrest).2
    refine h.of_grows (fun id hid => ?_) (fun r hr => .inl ⟨r, ?_, rfl⟩)
      fun e he => .inl ⟨e, ?_, rfl⟩
    · unfold Db.hasWork
      rwa [hwork]
    · rwa [hmappings] at hr
    · rwa [hevents] at he
  cases op with
  | createWork newWorkId input =>
      refine commit_cases h fun id db' hok => ?_
      obtain ⟨t, ht, hdb⟩ := createWork_ok hok
      refine h.of_grows (fun id hid => (hasWork_createWork hok).mpr (.inl hid))
        (fun r hr => .inl ⟨r, ?_, rfl⟩) fun e he => .inl ⟨e, ?_, rfl⟩
      · rwa [hdb] at hr
      · rwa [hdb] at he
  | upsertWorkFromMangadex newWorkId newSourceSeriesId mangadexId input now =>
      refine commit_cases h fun id db' hok => ?_
      obtain ⟨-, sid, hss⟩ := upsertWorkFromMangadex_ok hok
      have hwork : ∀ w, db'.hasWork w = true ↔ s.db.hasWork w = true ∨ w = id :=
        fun w => hasWork_upsertWorkFromMangadex hok
      refine h.of_grows (fun w hw => (hwork w).mpr (.inl hw)) (fun r hr => ?_)
        fun e he => .inl ⟨e, ?_, rfl⟩
      · refine (workId_of_ensureSourceSeries hss r hr).imp_right fun hlive => ?_
        exact (hwork _).mpr (hasWork_refreshWorkRows.mp hlive)
      · obtain ⟨t, hdb, -⟩ := ensureSourceSeries_ok hss
        rwa [hdb] at he
  | upsertSourceSeries =>
      refine commit_cases h fun id db' hok => ?_
      have hmapping := workId_of_ensureSourceSeries hok
      obtain ⟨t, rfl, -⟩ := ensureSourceSeries_ok hok
      exact h.of_grows (fun id hid => hid) hmapping fun e he => .inl ⟨e, he, rfl⟩
  | mergeWorks source target expected =>
      refine commit_cases h fun outcome db' hok => ?_
      obtain ⟨hne, -, htarget, -, rfl⟩ := merge_ok hok
      exact linked_merged h hne htarget
  | commitSplit i newWorkId actor =>
      exact write_commitSplit_cases h fun plan outcome db' _ hok =>
        linked_commitSplit h hok
  | deleteWorkCascade workId =>
      exact h.of_deleted (fun id => hasWork_deleteWorksExplicitly)
        (fun r hr => mem_sourceSeries_deleteWorksExplicitly.mp hr)
        fun e he => Table.mem_deleteWhere.mp he
  | purgeForeignLanguageSuwayomi =>
      refine commit_cases h fun ids db' hok => ?_
      rcases purge_ok hok with rfl | ⟨keys, hwork, -, hmapping, hevent⟩
      · exact h
      · exact h.of_deleted hwork
          (fun r hr => ⟨((hmapping r).mp hr).1.1, ((hmapping r).mp hr).2⟩)
          fun e he => (hevent e).mp he
  | splitMismatchedRow row =>
      exact commit_cases h fun u db' hok => linked_splitMismatchedRow h hok
  | seedWork workId nowMs => exact linked_seeded h _
  | recordSourceSeries sourceSeriesId nowMs => exact linked_seeded h _
  | addWorkAlias | removeWorkAlias | planSplit | cacheSeries | upsertChapter
  | replaceSourceChapters =>
      exact absurd ⟨rfl, rfl⟩ hkeep

/-! ## The invariant -/

/-- What every reachable state knows of its ids. -/
structure Grounded (s : CatalogState) : Prop where
  claims_live : ClaimsLive s.db
  linked : Linked s.db
  live_minted : ∀ id, s.db.hasWork id = true → id ∈ s.minted

theorem grounded_init : Grounded .init where
  claims_live e he := absurd he (Table.not_mem_empty e)
  linked := ⟨fun r hr => absurd hr (Table.not_mem_empty r),
    fun e he => absurd he (Table.not_mem_empty e)⟩
  live_minted id hid := by
    obtain ⟨w, hw, -⟩ := hasWork_iff.mp hid
    exact absurd hw (Table.not_mem_empty w)

theorem grounded_step (h : Grounded s) : Grounded (s.step rules op) := by
  unfold CatalogState.step
  split
  · have hwithin : WorksWithin s.db op (s.write rules op) :=
      write_worksWithin h.claims_live
    refine ⟨hwithin.claims, write_linked h.linked, fun id hid => ?_⟩
    rcases hwithin.minted id hid with hid | hid
    · exact List.mem_append_right _ (h.live_minted id hid)
    · exact List.mem_append_left _ hid
  · exact h

theorem grounded_reach (rules : Rules) (ops : List Op) :
    Grounded (reach rules ops) :=
  Machine.run_invariant (fun _ _ => grounded_step) grounded_init ops

/-- A write that keeps the works, their mappings, claims and events. -/
theorem grounded_of_same {catalog : CatalogState} {db : Db} (h : Grounded catalog)
    (hwork : ∀ id, db.hasWork id = catalog.db.hasWork id)
    (hclaims : db.workExternalId = catalog.db.workExternalId)
    (hmappings : db.sourceSeries = catalog.db.sourceSeries)
    (hevents : db.releaseEvent = catalog.db.releaseEvent) :
    Grounded { catalog with db := db } where
  claims_live e he := by
    rw [hwork]
    exact h.claims_live e (hclaims ▸ he)
  linked := by
    constructor
    · intro ss hss
      rw [hwork]
      exact h.linked.mappings ss (hmappings ▸ hss)
    · intro e he
      rw [hwork]
      exact h.linked.events e (hevents ▸ he)
  live_minted id hid := h.live_minted id ((hwork id).symm.trans hid)

/-- The works after a step were there before it, or it minted them. -/
theorem hasWork_of_step (h : Grounded s) {id : Id}
    (hid : (s.step rules op).db.hasWork id = true) :
    s.db.hasWork id = true ∨ id ∉ s.minted := by
  unfold CatalogState.step at hid
  split at hid
  · next hfresh =>
      refine ((write_worksWithin h.claims_live).minted id hid).imp_right ?_
      intro hnew
      simpa using List.all_eq_true.mp hfresh id hnew
  · exact .inl hid

end Komika.Catalog.Integrity
