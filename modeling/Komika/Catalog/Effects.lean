import Komika.Catalog.Merge
import Komika.Catalog.Split
import Mathlib.Data.List.Dedup

/-!
# What the writers leave

The rows of `work`, `work_external_id` and `source_series` after each writer,
in terms of the rows before it.  A reader who wants to know what a
transaction did to works and their mappings finds it here; later modules cite
these lemmas and unfold no writer.

* `hasWork_createWork`, `hasWork_merged`, `hasWork_commitSplit` and the rest of that
  section — which works are live afterwards;
* `mem_workExternalId_merged`, `mem_workExternalId_commitSplit` — which work claims an
  external id;
* `mem_sourceSeries_merged`, `mem_sourceSeries_commitSplit` — which work a mapping is
  on;
* `commitSplit_found`, `exists_commitSplit_ok` — when a split commits, and what it then
  has found;
* `mem_detached_iff`, `purge_ok` — what a plan detaches, and what a purge deletes.
-/

namespace Komika.Catalog.Effects

open Komika.Lib
open Komika.Catalog.Schema Komika.Catalog.Database Komika.Catalog.Ingest
open Komika.Catalog.Ledger Komika.Catalog.Merge Komika.Catalog.Split

/-! ## Rows that change hands -/

section Moved

variable {ρ : Type} [OnWork ρ] {source target : Id}

/-- `repoint`, where the work is outside every key. -/
theorem mem_repoint_of_keepsKeys [Keyed ρ] {t : Table ρ}
    (h : ∀ w, Table.KeepsKeys (move w : ρ → ρ)) {r : ρ} :
    r ∈ repoint source target t ↔
      ∃ old ∈ t, r = if onWork source old then move target old else old := by
  unfold repoint
  rw [Table.mem_updateOrIgnore ((h target).repoints (onWork source))]
  refine exists_congr fun old => and_congr_right fun hold => ?_
  rw [(h target).movable hold]

/-- A row moved off `source` is off it, if the target is another work. -/
theorem not_onWork_moved (hne : source ≠ target) (r : ρ) :
    onWork source (if onWork source r then move target r else r) = false := by
  cases h : onWork source r with
  | true =>
      rw [if_pos rfl]
      exact onWork_ne (onWork_iff.mpr (onWork_move h)) (Ne.symm hne)
  | false => simpa using h

end Moved

/-! ## Works

Which works are live after each writer. -/

section Works

variable {rules : TextRules} {db db' : Db} {id : Id}

/-- A work that is inserted is live. -/
theorem hasWork_insert {row : Work} {t : Table Work}
    (h : db.work.insert row = some t) :
    { db with work := t }.hasWork id = true ↔
      db.hasWork id = true ∨ id = row.id := by
  simp only [hasWork_iff, Table.mem_of_insert h]
  constructor
  · rintro ⟨w, hw | rfl, rfl⟩
    · exact .inl ⟨w, hw, rfl⟩
    · exact .inr rfl
  · rintro (⟨w, hw, rfl⟩ | rfl)
    · exact ⟨w, .inl hw, rfl⟩
    · exact ⟨row, .inr rfl, rfl⟩

theorem hasWork_createWork {newWorkId outId : Id} {input : WorkInput}
    (h : createWork rules newWorkId input db = .ok (outId, db')) :
    db'.hasWork id = true ↔ db.hasWork id = true ∨ id = newWorkId := by
  obtain ⟨t, ht, rfl⟩ := createWork_ok h
  exact hasWork_insert ht

/-- The upsert of the row adds the work, or it was there. -/
theorem hasWork_refreshWorkRows {workId : Id} {mangadexId : String}
    {input : WorkInput} :
    (refreshWorkRows rules workId mangadexId input db).hasWork id = true ↔
      db.hasWork id = true ∨ id = workId := by
  have hwrite : (refreshWorkRows rules workId mangadexId input db).work =
      db.work.upsert (input.row workId) refreshWork
        (refreshWork_keepsKeys (input.row workId)) := rfl
  simp only [hasWork_iff, hwrite, Table.mem_upsert]
  constructor
  · rintro ⟨w, ⟨hw, -⟩ | ⟨rfl, -⟩ | ⟨old, hold, -, rfl⟩, rfl⟩
    · exact .inl ⟨w, hw, rfl⟩
    · exact .inr rfl
    · exact .inl ⟨old, hold, rfl⟩
  · have hnew : ∃ w, ((w ∈ db.work ∧ clash (input.row workId) w = false) ∨
        (w = input.row workId ∧ ∀ y ∈ db.work, clash (input.row workId) y = false) ∨
        ∃ old ∈ db.work, clash (input.row workId) old = true ∧
          w = refreshWork old (input.row workId)) ∧ w.id = workId := by
      by_cases hfree : db.work.taken (input.row workId) = false
      · exact ⟨_, .inr (.inl ⟨rfl, Table.taken_eq_false.mp hfree⟩), rfl⟩
      · obtain ⟨old, hold, hclash⟩ :=
          Table.taken_eq_true.mp (Bool.not_eq_false _ ▸ hfree)
        refine ⟨_, .inr (.inr ⟨old, hold, hclash, rfl⟩), ?_⟩
        exact (of_decide_eq_true hclash : workId = old.id).symm
    rintro (⟨w, hw, rfl⟩ | rfl)
    · by_cases hid : w.id = workId
      · rw [hid]
        exact hnew
      · exact ⟨w, .inl ⟨hw, decide_eq_false (Ne.symm hid)⟩, rfl⟩
    · exact hnew

/-- What a sync does to the rows of `work`. -/
theorem work_upsertWorkFromMangadex {newWorkId newSourceSeriesId outId : Id}
    {mangadexId : String} {input : WorkInput}
    {now : String}
    (h : upsertWorkFromMangadex rules newWorkId newSourceSeriesId mangadexId input now
      db = .ok (outId, db')) :
    db'.work = db.work.upsert (input.row outId) refreshWork
      (refreshWork_keepsKeys (input.row outId)) := by
  obtain ⟨-, sid, hss⟩ := upsertWorkFromMangadex_ok h
  obtain ⟨t, hdb, -⟩ := ensureSourceSeries_ok hss
  rw [hdb]
  rfl

/-- So afterwards the work returned is live, and all others as before. -/
theorem hasWork_upsertWorkFromMangadex {newWorkId newSourceSeriesId outId : Id}
    {mangadexId : String} {input : WorkInput} {now : String}
    (h : upsertWorkFromMangadex rules newWorkId newSourceSeriesId mangadexId
      input now db = .ok (outId, db')) :
    db'.hasWork id = true ↔ db.hasWork id = true ∨ id = outId := by
  obtain ⟨-, sid, hss⟩ := upsertWorkFromMangadex_ok h
  obtain ⟨t, hdb, -⟩ := ensureSourceSeries_ok hss
  have hwork : db'.hasWork id =
      (refreshWorkRows rules outId mangadexId input db).hasWork id := by
    rw [hdb]
    rfl
  rw [hwork, hasWork_refreshWorkRows]

/-- A split adds the new work. -/
theorem hasWork_commitSplit {plan : SplitPlan} {newWorkId : Id}
    {actor : Option Id} {outcome : SplitOutcome}
    (h : commitSplit rules plan newWorkId actor db = .ok (outcome, db')) :
    db'.hasWork id = true ↔ db.hasWork id = true ∨ id = newWorkId := by
  obtain ⟨-, row, t, lang, rfl, ht, -, rfl⟩ := commitSplit_ok h
  exact hasWork_insert ht

/-- A merge takes the source away. -/
theorem hasWork_merged {source target : Id} :
    (merged rules source target db).hasWork id = true ↔
      db.hasWork id = true ∧ id ≠ source := by
  have htable : (merged rules source target db).work =
      ((foldWorkRow source target db).work.deleteWhere fun w => w.id = source) :=
    rfl
  have hfold : (∃ w ∈ (foldWorkRow source target db).work, w.id = id) ↔
      ∃ w ∈ db.work, w.id = id := by
    rw [← hasWork_iff, ← hasWork_iff]
    unfold foldWorkRow
    split
    · rfl
    · exact Bool.eq_iff_iff.mp hasWork_update
  rw [hasWork_iff, hasWork_iff, htable, ← hfold]
  constructor
  · rintro ⟨w, hw, rfl⟩
    obtain ⟨hw, hne⟩ := Table.mem_deleteWhere.mp hw
    exact ⟨⟨w, hw, rfl⟩, by simpa using hne⟩
  · rintro ⟨⟨w, hw, rfl⟩, hne⟩
    exact ⟨w, Table.mem_deleteWhere.mpr ⟨hw, by simpa using hne⟩, rfl⟩

/-- Deleted works are gone and no others. -/
theorem hasWork_deleteWorksExplicitly {p : Id → Bool} :
    (deleteWorksExplicitly p db).hasWork id = true ↔
      db.hasWork id = true ∧ p id = false :=
  hasWork_deleteWorks

end Works

/-! ## External ids

Which work claims an external id after each writer. -/

section ExternalIds

variable {rules : TextRules} {db db' : Db} {e : WorkExternalId}

/-- The lookup of `upsert_work_from_mangadex` finds the claim, if there is
one. -/
theorem externalWork_eq_some {provider externalId : String} {workId : Id} :
    externalWork db provider externalId = some workId ↔
      (⟨workId, provider, externalId⟩ : WorkExternalId) ∈ db.workExternalId := by
  unfold externalWork
  rw [Option.map_eq_some_iff]
  constructor
  · rintro ⟨claim, hfind, rfl⟩
    have hmem : claim ∈ db.workExternalId := List.mem_of_find?_eq_some hfind
    have hkey : claim.provider = provider ∧ claim.externalId = externalId := by
      simpa using List.find?_some hfind
    obtain ⟨rfl, rfl⟩ := hkey
    exact hmem
  · intro hmem
    refine ⟨_, (Table.find?_eq_some_iff ?_).mpr ⟨hmem, by simp⟩, rfl⟩
    intro a b ha hb
    simp only [Bool.and_eq_true, decide_eq_true_eq] at ha hb
    simp [clash, ha, hb]

/-- It finds none if no work claims the id. -/
theorem externalWork_eq_none {provider externalId : String} :
    externalWork db provider externalId = none ↔
      ∀ e ∈ db.workExternalId, e.provider = provider → e.externalId ≠ externalId := by
  simp [externalWork, Table.mem_rows]

/-- What is offered is for the work. -/
theorem mem_externalIdRows {workId : Id} {externalIds : List (String × String)}
    (h : e ∈ externalIdRows workId externalIds) : e.workId = workId := by
  obtain ⟨p, -, rfl⟩ := List.mem_map.mp (List.mem_filter.mp h).1
  rfl

/-- New claims are claims of the new work, and old claims stay. -/
theorem mem_workExternalId_createWork {newWorkId outId : Id} {input : WorkInput}
    (h : createWork rules newWorkId input db = .ok (outId, db')) :
    (e ∈ db'.workExternalId → e ∈ db.workExternalId ∨ e.workId = newWorkId) ∧
      (e ∈ db.workExternalId → e ∈ db'.workExternalId) := by
  obtain ⟨t, ht, rfl⟩ := createWork_ok h
  refine ⟨fun he => ?_, fun he => Table.mem_insertAllOrIgnore_of_mem he⟩
  rcases Table.mem_of_mem_insertAllOrIgnore he with he | ⟨he, -⟩
  · exact .inl he
  · exact .inr (mem_externalIdRows he)

/-- A sync adds claims of its own work and drops none. -/
theorem mem_workExternalId_refreshWorkRows {workId : Id} {mangadexId : String}
    {input : WorkInput} :
    (e ∈ (refreshWorkRows rules workId mangadexId input db).workExternalId →
        e ∈ db.workExternalId ∨ e.workId = workId) ∧
      (e ∈ db.workExternalId →
        e ∈ (refreshWorkRows rules workId mangadexId input db).workExternalId) := by
  have hwrite :
      (refreshWorkRows rules workId mangadexId input db).workExternalId =
        (db.workExternalId.insertOrIgnore
          ⟨workId, "mangadex", mangadexId⟩).insertAllOrIgnore
            (externalIdRows workId input.externalIds) := rfl
  rw [hwrite]
  constructor
  · intro he
    rcases Table.mem_of_mem_insertAllOrIgnore he with he | ⟨he, -⟩
    · rcases Table.mem_insertOrIgnore.mp he with he | ⟨rfl, -⟩
      · exact .inl he
      · exact .inr rfl
    · exact .inr (mem_externalIdRows he)
  · intro he
    exact Table.mem_insertAllOrIgnore_of_mem (Table.mem_insertOrIgnore.mpr (.inl he))

/-- A merge moves the claims of the source, all of them. -/
theorem mem_workExternalId_merged {source target : Id} (hne : source ≠ target) :
    e ∈ (merged rules source target db).workExternalId ↔
      ∃ old ∈ db.workExternalId,
        e = if onWork source old then move target old else old := by
  have hwrite : (merged rules source target db).workExternalId =
      ((repoint source target db.workExternalId).deleteWhere
        fun r => r.workId = source).deleteWhere fun r => r.workId = source := rfl
  rw [hwrite, Table.mem_deleteWhere, Table.mem_deleteWhere,
    mem_repoint_of_keepsKeys moveExternalId_keepsKeys]
  refine ⟨fun h => h.1.1, ?_⟩
  rintro ⟨old, hold, rfl⟩
  have hoff := not_onWork_moved hne old
  refine ⟨⟨⟨old, hold, rfl⟩, ?_⟩, ?_⟩ <;>
    simpa [onWork, on?, OnWork.ofColumn] using hoff

/-- The same for the whole upsert. -/
theorem mem_workExternalId_upsertWorkFromMangadex
    {newWorkId newSourceSeriesId outId : Id} {mangadexId : String}
    {input : WorkInput} {now : String}
    (h : upsertWorkFromMangadex rules newWorkId newSourceSeriesId mangadexId
      input now db = .ok (outId, db')) :
    (e ∈ db'.workExternalId → e ∈ db.workExternalId ∨ e.workId = outId) ∧
      (e ∈ db.workExternalId → e ∈ db'.workExternalId) := by
  obtain ⟨-, sid, hss⟩ := upsertWorkFromMangadex_ok h
  obtain ⟨t, hdb, -⟩ := ensureSourceSeries_ok hss
  have hwrite : db'.workExternalId =
      (refreshWorkRows rules outId mangadexId input db).workExternalId := by
    rw [hdb]
  rw [hwrite]
  exact mem_workExternalId_refreshWorkRows

/-- Afterwards the work returned has the claim. -/
theorem claim_mem_upsertWorkFromMangadex
    {newWorkId newSourceSeriesId outId : Id} {mangadexId : String}
    {input : WorkInput} {now : String}
    (h : upsertWorkFromMangadex rules newWorkId newSourceSeriesId mangadexId
      input now db = .ok (outId, db')) :
    (⟨outId, "mangadex", mangadexId⟩ : WorkExternalId) ∈ db'.workExternalId := by
  obtain ⟨hout, sid, hss⟩ := upsertWorkFromMangadex_ok h
  cases hclaim : externalWork db "mangadex" mangadexId with
  | some w =>
      rw [hclaim, Option.getD_some] at hout
      rw [hout]
      exact (mem_workExternalId_upsertWorkFromMangadex h).2
        (externalWork_eq_some.mp hclaim)
  | none =>
      obtain ⟨t, hdb, -⟩ := ensureSourceSeries_ok hss
      have hwrite : db'.workExternalId = (db.workExternalId.insertOrIgnore
          ⟨outId, "mangadex", mangadexId⟩).insertAllOrIgnore
            (externalIdRows outId input.externalIds) := by
        rw [hdb]
        rfl
      rw [hwrite]
      refine Table.mem_insertAllOrIgnore_of_mem
        (Table.mem_insertOrIgnore.mpr (.inr ⟨rfl, fun y hy => ?_⟩))
      refine decide_eq_false fun heq => ?_
      obtain ⟨hprovider, hexternal⟩ := Prod.mk.inj heq
      exact externalWork_eq_none.mp hclaim y hy hprovider.symm hexternal.symm

/-- The split takes this claim along: it is the anchor of a detached row. -/
def takesAnchor (plan : SplitPlan) (e : WorkExternalId) : Bool :=
  plan.detached.any fun r => r.sourceType = "mangadex" &&
    (e.provider = "mangadex" && e.externalId = r.sourceKey &&
      e.workId = plan.workId)

/-- A split moves the claims that are the anchors of what it detaches. -/
theorem mem_workExternalId_commitSplit {plan : SplitPlan} {newWorkId : Id}
    {actor : Option Id} {outcome : SplitOutcome}
    (h : commitSplit rules plan newWorkId actor db = .ok (outcome, db')) :
    e ∈ db'.workExternalId ↔ ∃ old ∈ db.workExternalId,
      e = if takesAnchor plan old then move newWorkId old else old := by
  obtain ⟨-, row, t, lang, -, -, -, hdb⟩ := commitSplit_ok h
  have hwrite : db'.workExternalId =
      moveAnchors plan.workId newWorkId plan.detached db.workExternalId := by
    rw [hdb]
    rfl
  have hidem : ∀ e : WorkExternalId,
      move newWorkId (move newWorkId e) = move newWorkId e := fun _ => rfl
  unfold moveAnchors moveAnchor at hwrite
  rw [hwrite, Table.mem_foldl_update hidem]
  simp only [List.any_filter]
  rfl

/-- Deleted works take their claims along. -/
theorem mem_workExternalId_deleteWorksExplicitly {p : Id → Bool} :
    e ∈ (deleteWorksExplicitly p db).workExternalId ↔
      e ∈ db.workExternalId ∧ p e.workId = false := by
  have hwrite : (deleteWorksExplicitly p db).workExternalId =
      ((db.workExternalId.deleteWhere fun r => p r.workId).deleteWhere
        fun r => p r.workId) := rfl
  rw [hwrite, Table.mem_deleteWhere, Table.mem_deleteWhere]
  exact ⟨fun h => h.1, fun h => ⟨h, h.2⟩⟩

end ExternalIds

/-! ## Mappings

Which work a mapping is on after each writer. -/

section Mappings

variable {rules : TextRules} {db db' : Db} {r : SourceSeries}

/-- The work of a mapping after a merge. -/
theorem workId_moved {source target : Id} (r : SourceSeries) :
    (if onWork source r then move target r else r).workId =
      if r.workId = source then target else r.workId := by
  by_cases hon : r.workId = source
  · rw [if_pos (onWork_iff.mpr (congrArg some hon)), if_pos hon]
    rfl
  · rw [if_neg hon, if_neg]
    intro hmoved
    exact hon (Option.some.inj (onWork_iff.mp hmoved))

/-- A merge moves the mappings of the source, all of them. -/
theorem mem_sourceSeries_merged {source target : Id} (hne : source ≠ target) :
    r ∈ (merged rules source target db).sourceSeries ↔
      ∃ old ∈ db.sourceSeries,
        r = if onWork source old then move target old else old := by
  have hwrite : (merged rules source target db).sourceSeries =
      ((repoint source target db.sourceSeries).deleteWhere
        (onWork source)).deleteWhere fun r => r.workId = source := rfl
  rw [hwrite, Table.mem_deleteWhere, Table.mem_deleteWhere,
    mem_repoint_of_keepsKeys moveSourceSeries_keepsKeys]
  refine ⟨fun h => h.1.1, ?_⟩
  rintro ⟨old, hold, rfl⟩
  have hoff := not_onWork_moved hne old
  refine ⟨⟨⟨old, hold, rfl⟩, hoff⟩, ?_⟩
  simpa [onWork, on?, OnWork.ofColumn] using hoff

/-- The split moves this mapping. -/
def takesSource (oldWork : Id) (detached : List SourceSeriesRow)
    (s : SourceSeries) : Bool :=
  detached.any fun r => s.id = r.id && s.workId = oldWork

/-- One mapping after another, adding up what was found. -/
theorem moveSources_cons {oldWork newWork : Id} {d : SourceSeriesRow}
    {detached : List SourceSeriesRow} {t : Table SourceSeries} :
    moveSources oldWork newWork (d :: detached) t =
      ((moveSources oldWork newWork detached
          (moveSource oldWork newWork d t).1).1,
        (moveSource oldWork newWork d t).2 +
          (moveSources oldWork newWork detached
            (moveSource oldWork newWork d t).1).2) := rfl

/-- The mappings that the split was asked for have moved. -/
theorem mem_moveSources {oldWork newWork : Id} {detached : List SourceSeriesRow}
    {t : Table SourceSeries} :
    r ∈ (moveSources oldWork newWork detached t).1 ↔
      ∃ old ∈ t, r = if takesSource oldWork detached old then move newWork old
        else old := by
  have hfold : ∀ t, (moveSources oldWork newWork detached t).1 =
      detached.foldl (fun t d => t.update
        (fun s => s.id = d.id && s.workId = oldWork) (move newWork)
        (moveSourceSeries_keepsKeys newWork)) t := by
    induction detached with
    | nil => intro t; rfl
    | cons d detached ih =>
        intro t
        rw [moveSources_cons, List.foldl_cons]
        exact ih _
  have hidem : ∀ s : SourceSeries,
      move newWork (move newWork s) = move newWork s := fun _ => rfl
  rw [hfold, Table.mem_foldl_update hidem]
  rfl

/-- One of them moves if it is still on the old work. -/
theorem mem_moveSource {oldWork newWork : Id} {d : SourceSeriesRow}
    {t : Table SourceSeries} :
    r ∈ (moveSource oldWork newWork d t).1 ↔ ∃ old ∈ t,
      r = if old.id = d.id && old.workId = oldWork then move newWork old else old :=
  Table.mem_update (h := moveSourceSeries_keepsKeys newWork)

/-- One row is found at most. -/
theorem moveSource_snd_le {oldWork newWork : Id} {d : SourceSeriesRow}
    {t : Table SourceSeries} : (moveSource oldWork newWork d t).2 ≤ 1 := by
  refine Table.countP_le_one fun a b ha hb => ?_
  simp only [Bool.and_eq_true, decide_eq_true_eq] at ha hb
  exact decide_eq_true (.inl (ha.1.trans hb.1.symm))

/-- So no more rows are found than there are to move. -/
theorem moveSources_snd_le {oldWork newWork : Id}
    {detached : List SourceSeriesRow} {t : Table SourceSeries} :
    (moveSources oldWork newWork detached t).2 ≤ detached.length := by
  induction detached generalizing t with
  | nil => exact Nat.le_refl 0
  | cons d detached ih =>
      rw [moveSources_cons, List.length_cons]
      have hhead : (moveSource oldWork newWork d t).2 ≤ 1 := moveSource_snd_le
      have htail : (moveSources oldWork newWork detached
          (moveSource oldWork newWork d t).1).2 ≤ detached.length := ih
      dsimp only
      omega

/-- A split that moved as many rows as it meant to found each of them on the
old work. -/
theorem exists_of_moveSources {oldWork newWork : Id} (hne : oldWork ≠ newWork)
    {detached : List SourceSeriesRow} {t : Table SourceSeries}
    (h : (moveSources oldWork newWork detached t).2 = detached.length) :
    ∀ d ∈ detached, ∃ s ∈ t, s.id = d.id ∧ s.workId = oldWork := by
  induction detached generalizing t with
  | nil => simp
  | cons d detached ih =>
      rw [moveSources_cons, List.length_cons] at h
      have hhead : (moveSource oldWork newWork d t).2 ≤ 1 := moveSource_snd_le
      have htail : (moveSources oldWork newWork detached
          (moveSource oldWork newWork d t).1).2 ≤ detached.length :=
        moveSources_snd_le
      dsimp only at h
      intro x hx
      rcases List.mem_cons.mp hx with rfl | hx
      · have hpos : 0 < (moveSource oldWork newWork x t).2 := by omega
        obtain ⟨s, hs, hp⟩ := List.countP_pos_iff.mp hpos
        simp only [Bool.and_eq_true, decide_eq_true_eq] at hp
        exact ⟨s, hs, hp⟩
      · have hall : (moveSources oldWork newWork detached
            (moveSource oldWork newWork d t).1).2 = detached.length := by
          omega
        obtain ⟨s, hs, hid, hwork⟩ := ih hall x hx
        obtain ⟨old, hold, rfl⟩ := mem_moveSource.mp hs
        -- a row still on the old work is one the first move left alone
        by_cases hp : (decide (old.id = d.id) && decide (old.workId = oldWork)) = true
        · rw [if_pos hp] at hwork
          exact absurd hwork.symm hne
        · rw [if_neg hp] at hid hwork
          exact ⟨old, hold, hid, hwork⟩

theorem mem_sourceSeries_commitSplit {plan : SplitPlan} {newWorkId : Id}
    {actor : Option Id} {outcome : SplitOutcome}
    (h : commitSplit rules plan newWorkId actor db = .ok (outcome, db')) :
    r ∈ db'.sourceSeries ↔ ∃ old ∈ db.sourceSeries,
      r = if takesSource plan.workId plan.detached old then move newWorkId old
        else old := by
  obtain ⟨-, row, t, lang, -, -, -, hdb⟩ := commitSplit_ok h
  have hwrite : db'.sourceSeries = (moveSources plan.workId newWorkId
      plan.detached db.sourceSeries).1 := by
    rw [hdb]
    rfl
  rw [hwrite]
  exact mem_moveSources

/-- The new work's id was free, and each detached row was still there. -/
theorem commitSplit_found {plan : SplitPlan} {newWorkId : Id}
    {actor : Option Id} {outcome : SplitOutcome}
    (h : commitSplit rules plan newWorkId actor db = .ok (outcome, db')) :
    db.hasWork newWorkId = false ∧ plan.workId ≠ newWorkId ∧
      ∀ d ∈ plan.detached, ∃ s ∈ db.sourceSeries,
        s.id = d.id ∧ s.workId = plan.workId := by
  obtain ⟨hlive, row, t, lang, rfl, hinsert, hmoved, -⟩ := commitSplit_ok h
  have hfree : db.hasWork row.id = false := by
    rw [← Bool.not_eq_true, hasWork_iff]
    rintro ⟨w, hw, hid⟩
    exact of_decide_eq_false (Table.free_of_insert hinsert w hw) hid.symm
  have hne : plan.workId ≠ row.id := by
    intro heq
    rw [heq, hfree] at hlive
    contradiction
  exact ⟨hfree, hne, exists_of_moveSources hne hmoved⟩

/-- A split finds as many rows as it means to move if each is there. -/
theorem moveSources_snd_eq {oldWork newWork : Id}
    {detached : List SourceSeriesRow} {t : Table SourceSeries}
    (hnodup : (detached.map SourceSeriesRow.id).Nodup)
    (hfound : ∀ d ∈ detached, ∃ s ∈ t, s.id = d.id ∧ s.workId = oldWork) :
    (moveSources oldWork newWork detached t).2 = detached.length := by
  induction detached generalizing t with
  | nil => rfl
  | cons d detached ih =>
      obtain ⟨hother, hnodup⟩ := List.nodup_cons.mp hnodup
      have hhead : (moveSource oldWork newWork d t).2 = 1 := by
        obtain ⟨s, hs, hid, hwork⟩ := hfound d List.mem_cons_self
        have hpos : 0 < (moveSource oldWork newWork d t).2 :=
          List.countP_pos_iff.mpr ⟨s, hs, by simp [hid, hwork]⟩
        have hle : (moveSource oldWork newWork d t).2 ≤ 1 := moveSource_snd_le
        omega
      have htail : (moveSources oldWork newWork detached
          (moveSource oldWork newWork d t).1).2 = detached.length := by
        refine ih hnodup fun x hx => ?_
        obtain ⟨s, hs, hid, hwork⟩ := hfound x (List.mem_cons_of_mem d hx)
        refine ⟨s, mem_moveSource.mpr ⟨s, hs, ?_⟩, hid, hwork⟩
        have hne : s.id ≠ d.id := by
          intro heq
          exact hother (List.mem_map.mpr ⟨x, hx, hid.symm.trans heq⟩)
        simp [hne]
      rw [moveSources_cons, List.length_cons]
      dsimp only
      omega

/-- A split goes through if its new id is free and its rows are all still on
its work. -/
theorem exists_commitSplit_ok (rules : TextRules) {plan : SplitPlan}
    {newWorkId : Id} (actor : Option Id) (hlive : db.hasWork plan.workId = true)
    (hfree : db.hasWork newWorkId = false)
    (hnodup : (plan.detached.map SourceSeriesRow.id).Nodup)
    (hfound : ∀ d ∈ plan.detached, ∃ s ∈ db.sourceSeries,
      s.id = d.id ∧ s.workId = plan.workId) :
    ∃ outcome db', commitSplit rules plan newWorkId actor db =
      .ok (outcome, db') := by
  obtain ⟨parent, hparent⟩ :=
    Option.isSome_iff_exists.mp (hasWork_iff_work?.mp hlive)
  have hinsert : ∀ row : Work, row.id = newWorkId → db.work.insert row ≠ none := by
    intro row hid
    have htaken : db.work.taken row = false := by
      refine Table.taken_eq_false.mpr fun w hw => decide_eq_false fun heq => ?_
      rw [← Bool.not_eq_true, hasWork_iff] at hfree
      exact hfree ⟨w, hw, heq.symm.trans hid⟩
    unfold Table.insert
    rw [dif_pos htaken]
    exact Option.some_ne_none _
  have hmoved : (moveSources plan.workId newWorkId plan.detached
      db.sourceSeries).2 = plan.detached.length :=
    moveSources_snd_eq hnodup hfound
  unfold commitSplit
  rw [hparent]
  dsimp only
  split
  · next hnone => exact absurd hnone (hinsert _ rfl)
  · rw [if_neg (by simp [hmoved])]
    exact ⟨_, _, rfl⟩

/-- Deleted works take their mappings along. -/
theorem mem_sourceSeries_deleteWorksExplicitly {p : Id → Bool} :
    r ∈ (deleteWorksExplicitly p db).sourceSeries ↔
      r ∈ db.sourceSeries ∧ p r.workId = false :=
  Table.mem_deleteWhere

end Mappings

/-! ## Plans -/

section Plans

variable {rules : TextRules} {db : Db} {workId : Id}

/-- The picker lists a live work's mappings. -/
theorem mem_workSourceSeriesRows {r : SourceSeriesRow}
    (h : r ∈ workSourceSeriesRows rules db workId) :
    ∃ s ∈ db.sourceSeries, s.workId = workId ∧ r.id = s.id ∧
      r.sourceType = s.sourceType ∧ r.sourceKey = s.sourceKey := by
  unfold workSourceSeriesRows at h
  split at h
  · contradiction
  · obtain ⟨s, hs, rfl⟩ := List.mem_map.mp h
    obtain ⟨hs, hwork⟩ := List.mem_filter.mp ((List.mem_insertionSort _).mp hs)
    exact ⟨s, hs, by simpa using hwork, rfl, rfl, rfl⟩

/-- It lists each of them once. -/
theorem nodup_workSourceSeriesRows :
    ((workSourceSeriesRows rules db workId).map SourceSeriesRow.id).Nodup := by
  unfold workSourceSeriesRows
  split
  · exact List.nodup_nil
  · rw [List.map_map]
    have hids : (db.sourceSeries.rows.map SourceSeries.id).Nodup := by
      refine List.pairwise_map.mpr (db.sourceSeries.unique.imp ?_)
      intro a b hab heq
      rw [show clash a b = true from decide_eq_true (.inl heq)] at hab
      contradiction
    have hfilter := hids.sublist (List.Sublist.map SourceSeries.id
      (List.filter_sublist (p := fun ss => decide (ss.workId = workId))))
    exact (List.Perm.map SourceSeries.id
      (List.perm_insertionSort pickerOrder _)).nodup_iff.mpr hfilter

/-- What a plan holds: the work, and the mappings of it that were asked for, of which
there are some and not all. -/
theorem planSplit_ok {sourceSeriesIds : List Id} {plan : SplitPlan}
    (h : planSplit rules db workId sourceSeriesIds = .ok plan) :
    plan.workId = workId ∧ sourceSeriesIds ≠ [] ∧
      plan.detached = (workSourceSeriesRows rules db workId).filter
        (fun r => sourceSeriesIds.contains r.id) ∧
      plan.detached.length = sourceSeriesIds.dedup.length ∧
      ∃ kept ∈ workSourceSeriesRows rules db workId,
        kept.id ∉ sourceSeriesIds := by
  unfold planSplit at h
  dsimp only at h
  split at h
  · contradiction
  · next hids =>
      split at h
      · contradiction
      · split at h
        · contradiction
        · next hlength =>
            split at h
            · contradiction
            · next hkept =>
                split at h
                · contradiction
                · cases h
                  obtain ⟨kept, hmem⟩ := List.exists_mem_of_ne_nil _ hkept
                  obtain ⟨hall, hother⟩ := List.mem_filter.mp hmem
                  exact ⟨rfl, hids, rfl, by simpa using hlength, kept, hall,
                    by simpa using hother⟩

/-- A plan lists each mapping once. -/
theorem nodup_detached {sourceSeriesIds : List Id} {plan : SplitPlan}
    (h : planSplit rules db workId sourceSeriesIds = .ok plan) :
    (plan.detached.map SourceSeriesRow.id).Nodup := by
  rw [(planSplit_ok h).2.2.1]
  exact nodup_workSourceSeriesRows.sublist
    (List.Sublist.map _ List.filter_sublist)

/-- A plan detaches the mappings it was asked for, all of them. -/
theorem mem_detached_iff {sourceSeriesIds : List Id} {plan : SplitPlan}
    (h : planSplit rules db workId sourceSeriesIds = .ok plan) {id : Id} :
    id ∈ plan.detached.map SourceSeriesRow.id ↔ id ∈ sourceSeriesIds := by
  obtain ⟨-, -, hdetached, hlength, -⟩ := planSplit_ok h
  have hsub : plan.detached.map SourceSeriesRow.id ⊆ sourceSeriesIds.dedup := by
    intro x hx
    obtain ⟨r, hr, rfl⟩ := List.mem_map.mp hx
    rw [hdetached] at hr
    simpa using (List.mem_filter.mp hr).2
  have hperm := (List.subperm_of_subset (nodup_detached h) hsub).perm_of_length_le
    (by rw [List.length_map, hlength])
  rw [hperm.mem_iff, List.mem_dedup]

end Plans

/-! ## The purge -/

/-- A purge deletes the mappings of the foreign series and the works that have
no others. -/
theorem purge_ok {db db' : Db} {ids : List Int}
    (h : purgeForeignLanguageSuwayomi db = .ok (ids, db')) :
    db' = db ∨ ∃ keys : List String,
      (∀ id, db'.hasWork id = true ↔
        db.hasWork id = true ∧ orphanedBy db keys id = false) ∧
      (∀ e, e ∈ db'.workExternalId ↔
        e ∈ db.workExternalId ∧ orphanedBy db keys e.workId = false) ∧
      (∀ r, r ∈ db'.sourceSeries ↔
        (r ∈ db.sourceSeries ∧ purges keys r = false) ∧
          orphanedBy db keys r.workId = false) ∧
      ∀ e, e ∈ db'.releaseEvent ↔
        e ∈ db.releaseEvent ∧ orphanedBy db keys e.workId = false := by
  unfold purgeForeignLanguageSuwayomi at h
  dsimp only at h
  split at h
  · cases h
    exact .inl rfl
  · cases h
    refine .inr ⟨_, fun id => hasWork_deleteWorksExplicitly,
      fun e => mem_workExternalId_deleteWorksExplicitly, fun r => ?_,
      fun e => Table.mem_deleteWhere⟩
    refine mem_sourceSeries_deleteWorksExplicitly.trans ?_
    exact and_congr_left fun _ => Table.mem_deleteWhere

end Komika.Catalog.Effects
