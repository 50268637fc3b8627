import Komika.Lib.Machine
import Komika.Catalog.Merge
import Komika.Catalog.Split

/-!
# Runs of the catalogue

The catalogue under any sequence of its writers.  SQLite serialises write
transactions, so a run is a list of transactions; the one writer whose reads
happen before its transaction, `split_source_series`, is two steps with
anything in between: `planSplit` leaves a pending plan, `commitSplit` runs the
transaction of one.

`new_id` mints uuids: an id that was handed out once is never handed out
again.  Each step that mints ids carries them, and happens only if they are
new.

* `CatalogState.step`, `reach` — one transaction, and the states that can be reached;
* `step_of_merges`, `step_of_splits` — what a step that merges or splits has done;
* `step_lineage` — all other steps leave the tables of what became of a work alone;
* `mem_plans_step` — a pending split made its checks in some earlier state, which is
  where a check and its transaction come apart.
-/

namespace Komika.Catalog.Runs

open Komika.Lib
open Komika.Catalog.Schema Komika.Catalog.Database Komika.Catalog.Ingest
open Komika.Catalog.Ledger Komika.Catalog.Merge Komika.Catalog.Split

/-- The pure functions all writers call. -/
structure Rules extends TextRules, SpineRules

/-- The database, the ids handed out so far, and the splits that have made their
checks. -/
structure CatalogState where
  db : Db
  /-- The ids handed out so far. -/
  minted : List Id
  /-- The splits that have made their checks and not begun their transaction. -/
  plans : List SplitPlan

/-- The rules on plain input: titles that are one lower-case word, integral
chapter numbers other than 0, sane and without blanks, and release times in the
first seconds of 1970. -/
def plainRules : Rules where
  normalizeTitle := id
  aliasWordTokens t := if 2 ≤ t.length then [t] else []
  trim := id
  castInteger t := if t = "7" then 7 else if t = "8" then 8 else 0
  spineKeyAndLabel ch :=
    match ch.number with
    | some n => (n ++ "00", n)
    | none => ("x:" ++ ch.externalId, "Oneshot")
  strftimeSeconds t :=
    if t = "1970-01-01T00:00:01Z" then some 1
    else if t = "1970-01-01T00:00:02Z" then some 2
    else none

/-- A work that is known by one title. -/
def titled (title : String) : WorkInput :=
  { primaryTitle := some title, primaryLang := none, description := none
    year := none, originalLanguage := none, status := none
    demographic := none, contentRating := none, isNsfw := false
    author := none, artist := none, coverPhash := none, coverFileName := none
    aliases := [⟨title, none⟩], externalIds := [], descriptions := []
    credits := [], tags := [], covers := [] }

/-- The empty catalogue, before any operation. -/
def CatalogState.init : CatalogState := ⟨.empty, [], []⟩

/-- The writers of the catalogue, each with the ids that it mints. -/
inductive Op where
  | createWork (newWorkId : Id) (input : WorkInput)
  | upsertWorkFromMangadex (newWorkId newSourceSeriesId : Id)
      (mangadexId : String) (input : WorkInput) (now : String)
  | upsertSourceSeries (newSourceSeriesId workId : Id)
      (sourceType sourceId sourceKey : String) (sourceUrl : Option String)
      (isNsfw : Bool) (now : String)
  | addWorkAlias (workId : Id) (rawTitle : String)
  | removeWorkAlias (workId : Id) (rawTitle : String)
  | mergeWorks (source target : Id)
      (expected : Option (WorkIdentity × WorkIdentity))
  | planSplit (workId : Id) (sourceSeriesIds : List Id)
  /-- The `i`-th pending split runs its transaction. -/
  | commitSplit (i : Nat) (newWorkId : Id) (actor : Option Id)
  | deleteWorkCascade (workId : Id)
  | purgeForeignLanguageSuwayomi
  /-- The series cache stores a row. -/
  | cacheSeries (row : SuwayomiSeries)
  | upsertChapter (newChapterId sourceSeriesId : Id) (ch : ChapterInput)
  | replaceSourceChapters (sourceSeriesId : Id)
      (chapters : List (Id × ChapterInput))
  | seedWork (workId : Id) (nowMs : Int)
  | recordSourceSeries (sourceSeriesId : Id) (nowMs : Int)
  | splitMismatchedRow (row : ClassifiedRow)

/-- The ids of works and mappings that a step mints. -/
def Op.mints : Op → List Id
  | .createWork newWorkId _ => [newWorkId]
  | .upsertWorkFromMangadex newWorkId newSourceSeriesId _ _ _ =>
      [newWorkId, newSourceSeriesId]
  | .upsertSourceSeries newSourceSeriesId _ _ _ _ _ _ _ => [newSourceSeriesId]
  | .commitSplit _ newWorkId _ => [newWorkId]
  | _ => []

/-- The ids a step mints are new. -/
def CatalogState.fresh (s : CatalogState) (op : Op) : Bool :=
  op.mints.all fun id => !s.minted.contains id

/-- A row of `suwayomi_series`, as the cache's writers leave it. -/
def cacheSeries (row : SuwayomiSeries) (db : Db) : Db :=
  { db with suwayomiSeries := db.suwayomiSeries.insertOrReplace row }

/-- The transaction of a step, on the database. -/
def CatalogState.write (rules : Rules) (s : CatalogState) : Op → Db
  | .createWork newWorkId input =>
      s.db.commit (createWork rules.toTextRules newWorkId input s.db)
  | .upsertWorkFromMangadex newWorkId newSourceSeriesId mangadexId input now =>
      s.db.commit (upsertWorkFromMangadex rules.toTextRules newWorkId
        newSourceSeriesId mangadexId input now s.db)
  | .upsertSourceSeries newSourceSeriesId workId sourceType sourceId sourceKey
      sourceUrl isNsfw now =>
      s.db.commit (upsertSourceSeries newSourceSeriesId workId sourceType
        sourceId sourceKey sourceUrl isNsfw now s.db)
  | .addWorkAlias workId rawTitle =>
      s.db.commit (addWorkAlias rules.toTextRules workId rawTitle s.db)
  | .removeWorkAlias workId rawTitle =>
      s.db.commit (removeWorkAlias rules.toTextRules workId rawTitle s.db)
  | .mergeWorks source target expected =>
      s.db.commit
        (mergeWorksChecked rules.toTextRules source target expected s.db)
  | .planSplit _ _ => s.db
  | .commitSplit i newWorkId actor =>
      match s.plans[i]? with
      | none => s.db
      | some plan =>
          s.db.commit (commitSplit rules.toTextRules plan newWorkId actor s.db)
  | .deleteWorkCascade workId => s.db.commit (deleteWorkCascade workId s.db)
  | .purgeForeignLanguageSuwayomi =>
      s.db.commit (purgeForeignLanguageSuwayomi s.db)
  | .cacheSeries row => cacheSeries row s.db
  | .upsertChapter newChapterId sourceSeriesId ch =>
      s.db.commit
        (upsertChapter rules.toSpineRules newChapterId sourceSeriesId ch s.db)
  | .replaceSourceChapters sourceSeriesId chapters =>
      s.db.commit
        (replaceSourceChapters rules.toSpineRules sourceSeriesId chapters s.db)
  | .seedWork workId nowMs => seedWork rules.toSpineRules workId nowMs s.db
  | .recordSourceSeries sourceSeriesId nowMs =>
      recordSourceSeries rules.toSpineRules sourceSeriesId nowMs s.db
  | .splitMismatchedRow row => s.db.commit (splitMismatchedRow row s.db)

/-- The pending splits after a step. -/
def CatalogState.nextPlans (rules : Rules) (s : CatalogState) : Op → List SplitPlan
  | .planSplit workId sourceSeriesIds =>
      match planSplit rules.toTextRules s.db workId sourceSeriesIds with
      | .ok plan => s.plans ++ [plan]
      | .error _ => s.plans
  | .commitSplit i _ _ => s.plans.eraseIdx i
  | _ => s.plans

/-- One transaction, if the ids that it mints are new. -/
def CatalogState.step (rules : Rules) (s : CatalogState) (op : Op) : CatalogState :=
  if s.fresh op then
    ⟨s.write rules op, op.mints ++ s.minted, s.nextPlans rules op⟩
  else s

/-- The state after a run from the empty catalogue. -/
def reach (rules : Rules) (ops : List Op) : CatalogState :=
  Machine.run (CatalogState.step rules) .init ops

/-! ## Merges and splits of a run -/

/-- The merge a step makes, if it succeeds. -/
def CatalogState.merges (rules : Rules) (s : CatalogState) : Op → Option (Id × Id)
  | .mergeWorks source target expected =>
      match mergeWorksChecked rules.toTextRules source target expected s.db with
      | .ok _ => some (source, target)
      | .error _ => none
  | _ => none

/-- The split a step makes, if it succeeds: the old work and the new. -/
def CatalogState.splits (rules : Rules) (s : CatalogState) (op : Op) :
    Option (Id × Id) :=
  match op with
  | .commitSplit i newWorkId actor =>
      if s.fresh op then
        s.plans[i]?.bind fun plan =>
          match commitSplit rules.toTextRules plan newWorkId actor s.db with
          | .ok _ => some (plan.workId, newWorkId)
          | .error _ => none
      else none
  | _ => none

/-! ## What a step leaves alone -/

/-- The tables that record what became of a work. -/
def lineage (db : Db) : Table WorkRedirect × Table WorkSplit :=
  (db.workRedirect, db.workSplit)

section Frame

variable {rules : Rules} {s : CatalogState} {op : Op}

/-- What a split that is pending commits, if it does. -/
theorem write_commitSplit_cases {P : Db → Prop} {i : Nat} {newWorkId : Id}
    {actor : Option Id} (hdb : P s.db)
    (hcommit : ∀ plan outcome db', s.plans[i]? = some plan →
      commitSplit rules.toTextRules plan newWorkId actor s.db =
        .ok (outcome, db') → P db') :
    P (s.write rules (.commitSplit i newWorkId actor)) := by
  cases hplan : s.plans[i]? with
  | none =>
      have hwrite : s.write rules (.commitSplit i newWorkId actor) = s.db := by
        simp [CatalogState.write, hplan]
      rw [hwrite]
      exact hdb
  | some plan =>
      have hwrite : s.write rules (.commitSplit i newWorkId actor) =
          s.db.commit (commitSplit rules.toTextRules plan newWorkId actor s.db) := by
        simp [CatalogState.write, hplan]
      rw [hwrite]
      exact commit_cases hdb fun outcome db' hok =>
        hcommit plan outcome db' hplan hok

/-- Only a merge writes `work_redirect`, and only a split writes
`work_split`. -/
theorem write_lineage
    (hmerge : ∀ source target expected, op ≠ .mergeWorks source target expected)
    (hsplit : ∀ i newWorkId actor, op ≠ .commitSplit i newWorkId actor) :
    lineage (s.write rules op) = lineage s.db := by
  cases op with
  | createWork newWorkId input =>
      refine commit_congr lineage fun a db' h => ?_
      obtain ⟨work, -, rfl⟩ := createWork_ok h
      rfl
  | upsertWorkFromMangadex newWorkId newSourceSeriesId mangadexId input now =>
      refine commit_congr lineage fun a db' h => ?_
      obtain ⟨-, sid, h⟩ := upsertWorkFromMangadex_ok h
      obtain ⟨t, rfl, -⟩ := ensureSourceSeries_ok h
      rfl
  | upsertSourceSeries =>
      refine commit_congr lineage fun a db' h => ?_
      obtain ⟨t, rfl, -⟩ := ensureSourceSeries_ok h
      rfl
  | addWorkAlias =>
      refine commit_congr lineage fun a db' h => ?_
      rcases addWorkAlias_ok h with rfl | rfl <;> rfl
  | mergeWorks source target expected => exact absurd rfl (hmerge _ _ _)
  | commitSplit i newWorkId actor => exact absurd rfl (hsplit _ _ _)
  | purgeForeignLanguageSuwayomi =>
      refine commit_congr lineage fun a db' h => ?_
      unfold purgeForeignLanguageSuwayomi at h
      dsimp only at h
      split at h <;> cases h <;> rfl
  | upsertChapter =>
      refine commit_congr lineage fun a db' h => ?_
      obtain ⟨c, rfl⟩ := upsertChapter_ok h
      rfl
  | replaceSourceChapters =>
      refine commit_congr lineage fun a db' h => ?_
      obtain ⟨c, rfl⟩ := replaceSourceChapters_ok h
      rfl
  | splitMismatchedRow =>
      refine commit_congr lineage fun a db' h => ?_
      rcases splitMismatchedRow_ok h with ⟨-, rfl⟩ | ⟨_, -, -, _, rfl, rfl⟩ <;>
        rfl
  | removeWorkAlias => rfl
  | planSplit => rfl
  | deleteWorkCascade => rfl
  | cacheSeries => rfl
  | seedWork => rfl
  | recordSourceSeries => rfl

end Frame

/-! ## Merges, splits and everything else

The three kinds of step that the invariants distinguish. -/

section Steps

variable {rules : Rules} {s : CatalogState} {op : Op}

/-- A step with new ids runs its transaction. -/
theorem step_db_of_fresh (h : s.fresh op = true) :
    (s.step rules op).db = s.write rules op := by
  simp [CatalogState.step, h]

/-- One with an id that is not new does not happen. -/
theorem step_of_not_fresh (h : s.fresh op = false) : s.step rules op = s := by
  simp [CatalogState.step, h]

/-- Minted ids are never forgotten. -/
theorem minted_subset_step : s.minted ⊆ (s.step rules op).minted := by
  unfold CatalogState.step
  split
  · exact List.subset_append_right _ _
  · exact List.Subset.refl _

/-- A pending split made its checks in the state it became pending in. -/
theorem mem_plans_step {plan : SplitPlan}
    (h : plan ∈ (s.step rules op).plans) :
    plan ∈ s.plans ∨ ∃ workId sourceSeriesIds,
      op = .planSplit workId sourceSeriesIds ∧
        planSplit rules.toTextRules s.db workId sourceSeriesIds = .ok plan := by
  unfold CatalogState.step at h
  split at h
  · cases op with
    | planSplit workId sourceSeriesIds =>
        unfold CatalogState.nextPlans at h
        dsimp only at h
        split at h
        · next plan' hplan =>
            rcases List.mem_append.mp h with h | h
            · exact .inl h
            · rw [List.mem_singleton.mp h]
              exact .inr ⟨workId, sourceSeriesIds, rfl, hplan⟩
        · exact .inl h
    | commitSplit i newWorkId actor => exact .inl (List.mem_of_mem_eraseIdx h)
    | _ => exact .inl h
  · exact .inl h

/-- A merge that goes through is of two live works. -/
theorem step_of_merges {source target : Id}
    (h : s.merges rules op = some (source, target)) :
    source ≠ target ∧ s.db.hasWork source = true ∧ s.db.hasWork target = true ∧
      (s.step rules op).db = merged rules.toTextRules source target s.db := by
  cases op with
  | mergeWorks source' target' expected =>
      unfold CatalogState.merges at h
      dsimp only at h
      split at h
      · next result hresult =>
          cases h
          obtain ⟨outcome, db'⟩ := result
          obtain ⟨hne, hsource, htarget, -, rfl⟩ := merge_ok hresult
          refine ⟨hne, hsource, htarget, ?_⟩
          simp [CatalogState.step, CatalogState.fresh, Op.mints,
            CatalogState.write, hresult]
      · contradiction
  | _ => contradiction

/-- A split that goes through was pending, and its new work is new. -/
theorem step_of_splits {old new : Id}
    (h : s.splits rules op = some (old, new)) :
    new ∉ s.minted ∧ new ∈ (s.step rules op).minted ∧
      ∃ plan ∈ s.plans, plan.workId = old ∧ ∃ actor outcome,
        commitSplit rules.toTextRules plan new actor s.db =
          .ok (outcome, (s.step rules op).db) := by
  cases op with
  | commitSplit i newWorkId actor =>
      unfold CatalogState.splits at h
      dsimp only at h
      split at h
      · next hfresh =>
          obtain ⟨plan, hplan, h⟩ := Option.bind_eq_some_iff.mp h
          split at h
          · next result hresult =>
              cases h
              obtain ⟨outcome, db'⟩ := result
              refine ⟨by simpa [CatalogState.fresh, Op.mints] using hfresh,
                by simp [CatalogState.step, hfresh, Op.mints], plan,
                List.mem_of_getElem? hplan, rfl, actor, outcome, ?_⟩
              simp [CatalogState.step, hfresh, CatalogState.write, hplan, hresult]
          · contradiction
      · contradiction
  | _ => contradiction

/-- A step that neither merges nor splits leaves the lineage alone. -/
theorem step_lineage (hmerge : s.merges rules op = none)
    (hsplit : s.splits rules op = none) :
    lineage (s.step rules op).db = lineage s.db := by
  by_cases hfresh : s.fresh op = true
  · have hstep : (s.step rules op).db = s.write rules op := by
      simp [CatalogState.step, hfresh]
    rw [hstep]
    cases op with
    | mergeWorks source target expected =>
        unfold CatalogState.merges at hmerge
        refine commit_congr lineage fun outcome db' hok => ?_
        simp [hok] at hmerge
    | commitSplit i newWorkId actor =>
        unfold CatalogState.splits at hsplit
        unfold CatalogState.write
        simp only [hfresh, if_true] at hsplit
        dsimp only
        cases hplan : s.plans[i]? with
        | none => rfl
        | some plan =>
            refine commit_congr lineage fun outcome db' hok => ?_
            simp [hplan, hok] at hsplit
    | _ => exact write_lineage (by intros; simp) (by intros; simp)
  · simp [CatalogState.step, hfresh]

/-- A split writes no redirect. -/
theorem step_workRedirect (hmerge : s.merges rules op = none) :
    (s.step rules op).db.workRedirect = s.db.workRedirect := by
  cases hsplit : s.splits rules op with
  | none => exact (Prod.mk.inj (step_lineage hmerge hsplit)).1
  | some pair =>
      obtain ⟨-, -, plan, -, -, actor, outcome, hok⟩ :=
        step_of_splits (hsplit : _ = some (pair.1, pair.2))
      obtain ⟨-, row, work, lang, -, -, -, hdb⟩ := commitSplit_ok hok
      rw [hdb]
      rfl

/-- A merge writes no split pair. -/
theorem step_workSplit (hsplit : s.splits rules op = none) :
    (s.step rules op).db.workSplit = s.db.workSplit := by
  cases hmerge : s.merges rules op with
  | none => exact (Prod.mk.inj (step_lineage hmerge hsplit)).2
  | some pair =>
      obtain ⟨-, -, -, hdb⟩ :=
        step_of_merges (hmerge : _ = some (pair.1, pair.2))
      rw [hdb]
      rfl

end Steps

end Komika.Catalog.Runs
