import Komika.Catalog.Integrity

/-!
# MangaDex anchors

A MangaDex uuid is in two tables.  `work_external_id('mangadex', u)` is where
`upsert_work_from_mangadex` looks the work up, and the mapping
`('mangadex', 'mangadex', u)` is where its chapters hang.  If the two name
different works, the next sync writes to one and shows the other.

The invariant is `Claimed`: a MangaDex mapping is on the work that claims its
uuid.  Every writer keeps it, but for `upsert_source_series`, which inserts
whatever mapping it is asked for; its callers pass Suwayomi mappings, and
`Anchored` is what they promise.

* `write_mappingsWithin` — no step changes the key of a mapping, so what a split planned
  is what it finds;
* `write_claimed` — every step that is anchored keeps the claims;
* `upsertWorkFromMangadex_of_anchored` — where the claims hold, an upsert finds its work
  by the uuid;
* `anchorsAgree_of_anchored` — the two tables agree after every anchored run;
* `not_anchorsAgree_unclaimed_mapping` — and do not after a run that is not.
-/

namespace Komika.Catalog.Anchors

open Komika.Lib
open Komika.Catalog.Schema Komika.Catalog.Database Komika.Catalog.Ingest
open Komika.Catalog.Ledger Komika.Catalog.Merge Komika.Catalog.Split
open Komika.Catalog.Runs Komika.Catalog.Effects Komika.Catalog.Integrity

variable {rules : Rules} {s : CatalogState} {op : Op}

/-- Where both rows exist for a uuid, they name one work. -/
def AnchorsAgree (db : Db) : Prop :=
  ∀ e ∈ db.workExternalId, e.provider = "mangadex" → ∀ r ∈ db.sourceSeries,
    r.key = ("mangadex", "mangadex", e.externalId) → r.workId = e.workId

/-- A MangaDex mapping is on the work that claims its uuid. -/
def Claimed (db : Db) : Prop :=
  ∀ r ∈ db.sourceSeries, r.sourceType = "mangadex" → r.sourceId = "mangadex" ∧
    (⟨r.workId, "mangadex", r.sourceKey⟩ : WorkExternalId) ∈ db.workExternalId

/-- A mapping of type `mangadex` is added only for a work that claims the
uuid, and phase F does not run. -/
def Anchored (s : CatalogState) : Op → Prop
  | .upsertSourceSeries _ workId sourceType sourceId sourceKey _ _ _ =>
      sourceType = "mangadex" →
        (∃ r ∈ s.db.sourceSeries, r.key = (sourceType, sourceId, sourceKey)) ∨
          (sourceId = "mangadex" ∧
            (⟨workId, "mangadex", sourceKey⟩ : WorkExternalId) ∈
              s.db.workExternalId)
  | .splitMismatchedRow _ => False
  | _ => True

/-- Where every mapping is on the work that claims its uuid, the two rows of a uuid
cannot name two works. -/
theorem anchorsAgree_of_claimed {db : Db} (h : Claimed db) : AnchorsAgree db := by
  rintro ⟨workId, provider, externalId⟩ he hprovider r hr hkey
  obtain ⟨htype, hrest⟩ := Prod.mk.inj hkey
  obtain ⟨-, hsourceKey⟩ := Prod.mk.inj hrest
  obtain ⟨-, hclaim⟩ := h r hr htype
  have heq := Table.eq_of_clash hclaim he
    (decide_eq_true (Prod.ext hprovider.symm hsourceKey))
  exact congrArg WorkExternalId.workId heq

/-! ## Mappings keep their identity -/

/-- Two rows for one mapping. -/
def SameMapping (r old : SourceSeries) : Prop := r.id = old.id ∧ r.key = old.key

/-- A mapping is found by its key or inserted under its id. -/
theorem sameMapping_ensureSourceSeries {row : SourceSeries} {now : String}
    {id : Id} {db db' : Db} (h : ensureSourceSeries row now db = .ok (id, db')) :
    ∀ r ∈ db'.sourceSeries,
      (∃ old ∈ db.sourceSeries, SameMapping r old) ∨ r.id = row.id := by
  obtain ⟨t, rfl, ⟨-, ht⟩ | ⟨-, -, ht⟩⟩ := ensureSourceSeries_ok h
  · intro r hr
    obtain ⟨old, hold, rfl⟩ := (ht r).mp hr
    refine .inl ⟨old, hold, ?_⟩
    split <;> exact ⟨rfl, rfl⟩
  · intro r hr
    rcases (ht r).mp hr with hr | rfl
    · exact .inl ⟨r, hr, rfl, rfl⟩
    · exact .inr rfl

/-- A mapping of `after` is one of `before`, or `op` minted its id. -/
def MappingsWithin (before : Db) (op : Op) (after : Db) : Prop :=
  ∀ r ∈ after.sourceSeries,
    (∃ old ∈ before.sourceSeries, SameMapping r old) ∨ r.id ∈ op.mints

/-- A step that leaves the mappings alone. -/
theorem MappingsWithin.refl (db : Db) : MappingsWithin db op db :=
  fun r hr => .inl ⟨r, hr, rfl, rfl⟩

/-- No step changes the id or the key of a mapping. -/
theorem write_mappingsWithin : MappingsWithin s.db op (s.write rules op) := by
  by_cases hkeep : keepsAnchors op = true
  · have hsame : anchors (s.write rules op) = anchors s.db := write_anchors hkeep
    unfold MappingsWithin
    rw [(Prod.mk.inj (Prod.mk.inj hsame).2).2]
    exact MappingsWithin.refl s.db
  cases op with
  | createWork newWorkId input =>
      refine commit_cases (.refl s.db) fun id db' hok => ?_
      obtain ⟨t, -, rfl⟩ := createWork_ok hok
      exact .refl s.db
  | upsertWorkFromMangadex newWorkId newSourceSeriesId mangadexId input now =>
      refine commit_cases (.refl s.db) fun id db' hok r hr => ?_
      obtain ⟨-, sid, hss⟩ := upsertWorkFromMangadex_ok hok
      refine (sameMapping_ensureSourceSeries hss r hr).imp_right fun hid => ?_
      rw [hid]
      exact List.mem_cons_of_mem _ List.mem_cons_self
  | upsertSourceSeries newSourceSeriesId =>
      refine commit_cases (.refl s.db) fun id db' hok r hr => ?_
      refine (sameMapping_ensureSourceSeries hok r hr).imp_right fun hid => ?_
      rw [hid]
      exact List.mem_cons_self
  | mergeWorks source target expected =>
      refine commit_cases (.refl s.db) fun outcome db' hok r hr => ?_
      obtain ⟨hne, -, -, -, rfl⟩ := merge_ok hok
      obtain ⟨old, hold, rfl⟩ := (mem_sourceSeries_merged hne).mp hr
      refine .inl ⟨old, hold, ?_⟩
      split <;> exact ⟨rfl, rfl⟩
  | commitSplit i newWorkId actor =>
      refine write_commitSplit_cases (.refl s.db)
        fun plan outcome db' _ hok r hr => ?_
      obtain ⟨old, hold, rfl⟩ := (mem_sourceSeries_commitSplit hok).mp hr
      refine .inl ⟨old, hold, ?_⟩
      split <;> exact ⟨rfl, rfl⟩
  | deleteWorkCascade workId =>
      exact fun r hr => MappingsWithin.refl s.db r
        (mem_sourceSeries_deleteWorksExplicitly.mp hr).1
  | purgeForeignLanguageSuwayomi =>
      refine commit_cases (.refl s.db) fun ids db' hok => ?_
      rcases purge_ok hok with rfl | ⟨keys, -, -, hmapping, -⟩
      · exact .refl _
      · exact fun r hr => MappingsWithin.refl s.db r ((hmapping r).mp hr).1.1
  | splitMismatchedRow row =>
      refine commit_cases (.refl s.db) fun u db' hok => ?_
      rcases splitMismatchedRow_ok hok with
        ⟨-, rfl⟩ | ⟨target, -, -, moved, hmoved, rfl⟩
      · exact .refl _
      · intro r hr
        rw [hmoved] at hr
        obtain ⟨old, hold, rfl⟩ := (Table.mem_update
          (h := moveSourceSeries_keepsKeys target)).mp hr
        refine .inl ⟨old, hold, ?_⟩
        split <;> exact ⟨rfl, rfl⟩
  | addWorkAlias | removeWorkAlias | planSplit | cacheSeries | upsertChapter
  | replaceSourceChapters | seedWork | recordSourceSeries =>
      exact absurd rfl hkeep

/-! ## Pending splits know their rows

A split is planned from one state and committed in another.  What it plans are rows of
mappings, and their keys do not change in between. -/

/-- The ids of mappings, present or planned, were minted; and a planned row is
the mapping with its id. -/
structure PlansKnown (s : CatalogState) : Prop where
  mapping_minted : ∀ r ∈ s.db.sourceSeries, r.id ∈ s.minted
  plan_minted : ∀ plan ∈ s.plans, ∀ d ∈ plan.detached, d.id ∈ s.minted
  agrees : ∀ plan ∈ s.plans, ∀ d ∈ plan.detached, ∀ r ∈ s.db.sourceSeries,
    r.id = d.id → r.sourceType = d.sourceType ∧ r.sourceKey = d.sourceKey

/-- At first there are no mappings and no plans. -/
theorem plansKnown_init : PlansKnown .init where
  mapping_minted r hr := absurd hr (Table.not_mem_empty r)
  plan_minted _ hplan := by cases hplan
  agrees _ hplan := by cases hplan

/-- The mappings after a step were there before it, or have a new id. -/
theorem sameMapping_step {r : SourceSeries}
    (hr : r ∈ (s.step rules op).db.sourceSeries) :
    (∃ old ∈ s.db.sourceSeries, SameMapping r old) ∨
      (r.id ∉ s.minted ∧ r.id ∈ (s.step rules op).minted) := by
  unfold CatalogState.step at hr ⊢
  split at hr
  · next hfresh =>
      rw [if_pos hfresh]
      refine (write_mappingsWithin r hr).imp_right fun hnew => ⟨?_, ?_⟩
      · simpa using List.all_eq_true.mp hfresh r.id hnew
      · exact List.mem_append_left _ hnew
  · exact .inl ⟨r, hr, rfl, rfl⟩

/-- Every step keeps the plans known. -/
theorem plansKnown_step (h : PlansKnown s) : PlansKnown (s.step rules op) := by
  -- a planned row, old or just planned, with what it says of the mappings before
  have hplanned : ∀ plan ∈ (s.step rules op).plans, ∀ d ∈ plan.detached,
      d.id ∈ s.minted ∧ ∀ r ∈ s.db.sourceSeries, r.id = d.id →
        r.sourceType = d.sourceType ∧ r.sourceKey = d.sourceKey := by
    intro plan hplan d hd
    rcases mem_plans_step hplan with hplan | ⟨workId, ids, -, hok⟩
    · exact ⟨h.plan_minted plan hplan d hd, h.agrees plan hplan d hd⟩
    · rw [(planSplit_ok hok).2.2.1] at hd
      obtain ⟨m, hm, -, hid, htype, hkey⟩ :=
        mem_workSourceSeriesRows (List.mem_filter.mp hd).1
      refine ⟨hid ▸ h.mapping_minted m hm, fun r hr hrid => ?_⟩
      rw [Table.eq_of_clash hr hm (decide_eq_true (.inl (hrid.trans hid)))]
      exact ⟨htype.symm, hkey.symm⟩
  refine {
    mapping_minted := fun r hr => ?_
    plan_minted := fun plan hplan d hd =>
      minted_subset_step (hplanned plan hplan d hd).1
    agrees := fun plan hplan d hd r hr hid => ?_ }
  · rcases sameMapping_step hr with ⟨old, hold, hsame⟩ | ⟨-, hnew⟩
    · rw [hsame.1]
      exact minted_subset_step (h.mapping_minted old hold)
    · exact hnew
  · obtain ⟨hminted, hagrees⟩ := hplanned plan hplan d hd
    rcases sameMapping_step hr with ⟨old, hold, hsame⟩ | ⟨hnew, -⟩
    · obtain ⟨htype, hrest⟩ := Prod.mk.inj hsame.2
      rw [htype, (Prod.mk.inj hrest).2]
      exact hagrees old hold (hsame.1.symm.trans hid)
    · rw [hid] at hnew
      exact absurd hminted hnew

/-! ## Each writer keeps the claims

`Claimed` is about mappings of type `mangadex`; a writer that adds none has to keep the
claims and no more. -/

theorem Claimed.of_grows {before after : Db} (h : Claimed before)
    (hmapping : after.sourceSeries = before.sourceSeries)
    (hclaim : ∀ e ∈ before.workExternalId, e ∈ after.workExternalId) :
    Claimed after := by
  intro r hr htype
  rw [hmapping] at hr
  exact (h r hr htype).imp_right (hclaim _)

/-- A mapping that is added needs its claim; one that is there keeps it. -/
theorem claimed_ensureSourceSeries {row : SourceSeries} {now : String} {id : Id}
    {db db' : Db} (h : Claimed db)
    (hok : ensureSourceSeries row now db = .ok (id, db'))
    (hrow : row.sourceType = "mangadex" →
      (∃ r ∈ db.sourceSeries, r.key = row.key) ∨ (row.sourceId = "mangadex" ∧
        (⟨row.workId, "mangadex", row.sourceKey⟩ : WorkExternalId) ∈
          db.workExternalId)) :
    Claimed db' := by
  obtain ⟨t, rfl, ⟨-, ht⟩ | ⟨hfree, -, ht⟩⟩ := ensureSourceSeries_ok hok
  · intro r hr htype
    obtain ⟨old, hold, rfl⟩ := (ht r).mp hr
    by_cases hkey : old.key = row.key
    · rw [if_pos hkey] at htype ⊢
      exact h old hold htype
    · rw [if_neg hkey] at htype ⊢
      exact h old hold htype
  · intro r hr htype
    rcases (ht r).mp hr with hr | rfl
    · exact h r hr htype
    · rcases hrow htype with ⟨old, hold, hkey⟩ | hclaim
      · exact absurd hkey (hfree old hold)
      · exact hclaim

/-- An upsert writes the claim before the mapping. -/
theorem claimed_upsertWorkFromMangadex {newWorkId newSourceSeriesId outId : Id}
    {mangadexId : String} {input : WorkInput} {now : String} {db db' : Db}
    (h : Claimed db)
    (hok : upsertWorkFromMangadex rules.toTextRules newWorkId newSourceSeriesId
      mangadexId input now db = .ok (outId, db')) :
    Claimed db' := by
  obtain ⟨-, sid, hss⟩ := upsertWorkFromMangadex_ok hok
  have hrefreshed : Claimed
      (refreshWorkRows rules.toTextRules outId mangadexId input db) :=
    h.of_grows rfl fun e he => mem_workExternalId_refreshWorkRows.2 he
  refine claimed_ensureSourceSeries hrefreshed hss fun _ => .inr ⟨rfl, ?_⟩
  -- the mapping's insert leaves the claims alone
  have hclaim := claim_mem_upsertWorkFromMangadex hok
  obtain ⟨t, hdb, -⟩ := ensureSourceSeries_ok hss
  rwa [hdb] at hclaim

/-- A merge moves both to the target. -/
theorem claimed_merged {rules : TextRules} {source target : Id} {db : Db}
    (h : Claimed db) (hne : source ≠ target) :
    Claimed (merged rules source target db) := by
  intro r hr htype
  obtain ⟨old, hold, rfl⟩ := (mem_sourceSeries_merged hne).mp hr
  by_cases hon : old.workId = source
  · have hmoved : onWork source old = true := onWork_iff.mpr (congrArg some hon)
    rw [if_pos hmoved] at htype ⊢
    obtain ⟨hid, hclaim⟩ := h old hold htype
    refine ⟨hid, (mem_workExternalId_merged hne).mpr ⟨_, hclaim, ?_⟩⟩
    rw [if_pos (onWork_iff.mpr (congrArg some hon))]
    rfl
  · have hstays : ¬onWork source old = true := fun hmoved =>
      hon (Option.some.inj (onWork_iff.mp hmoved))
    rw [if_neg hstays] at htype ⊢
    obtain ⟨hid, hclaim⟩ := h old hold htype
    refine ⟨hid, (mem_workExternalId_merged hne).mpr ⟨_, hclaim, ?_⟩⟩
    rw [if_neg fun hmoved => hon (Option.some.inj (onWork_iff.mp hmoved))]

/-- A MangaDex mapping and its claim leave together, or stay together. -/
theorem takesSource_iff_takesAnchor {plan : SplitPlan} {db : Db}
    (h : Claimed db)
    (hfound : ∀ d ∈ plan.detached, ∃ r ∈ db.sourceSeries,
      r.id = d.id ∧ r.workId = plan.workId)
    (hagrees : ∀ d ∈ plan.detached, ∀ r ∈ db.sourceSeries, r.id = d.id →
      r.sourceType = d.sourceType ∧ r.sourceKey = d.sourceKey)
    {r : SourceSeries} (hr : r ∈ db.sourceSeries)
    (htype : r.sourceType = "mangadex") :
    takesSource plan.workId plan.detached r = true ↔
      takesAnchor plan ⟨r.workId, "mangadex", r.sourceKey⟩ = true := by
  simp only [takesSource, takesAnchor, List.any_eq_true, Bool.and_eq_true,
    decide_eq_true_eq, true_and]
  constructor
  · rintro ⟨d, hd, hid, hwork⟩
    obtain ⟨hdtype, hdkey⟩ := hagrees d hd r hr hid
    exact ⟨d, hd, hdtype.symm.trans htype, hdkey, hwork⟩
  · rintro ⟨d, hd, hdtype, hdkey, hwork⟩
    -- the planned row is the mapping with this key, so it is `r`
    obtain ⟨m, hm, hmid, -⟩ := hfound d hd
    obtain ⟨hmtype, hmkey⟩ := hagrees d hd m hm hmid
    have hmtype := hmtype.trans hdtype
    have hkey : m.key = r.key := by
      unfold SourceSeries.key
      rw [hmtype, htype, (h m hm hmtype).1, (h r hr htype).1, hmkey, hdkey]
    have heq : m = r := Table.eq_of_clash hm hr (decide_eq_true (.inr hkey))
    exact ⟨d, hd, heq ▸ hmid, hwork⟩

/-- A split moves both, or neither, as long as the plan's rows are the rows. -/
theorem claimed_commitSplit {plan : SplitPlan} {newWorkId : Id}
    {actor : Option Id} {db db' : Db} {outcome : SplitOutcome} (h : Claimed db)
    (hok : commitSplit rules.toTextRules plan newWorkId actor db =
      .ok (outcome, db'))
    (hagrees : ∀ d ∈ plan.detached, ∀ r ∈ db.sourceSeries, r.id = d.id →
      r.sourceType = d.sourceType ∧ r.sourceKey = d.sourceKey) :
    Claimed db' := by
  intro r hr htype
  obtain ⟨old, hold, rfl⟩ := (mem_sourceSeries_commitSplit hok).mp hr
  have holdType : old.sourceType = "mangadex" := by
    split at htype <;> exact htype
  have hiff := takesSource_iff_takesAnchor h (commitSplit_found hok).2.2 hagrees
    hold holdType
  obtain ⟨hid, hclaim⟩ := h old hold holdType
  by_cases htaken : takesSource plan.workId plan.detached old = true
  · rw [if_pos htaken]
    refine ⟨hid, (mem_workExternalId_commitSplit hok).mpr ⟨_, hclaim, ?_⟩⟩
    rw [if_pos (hiff.mp htaken)]
    rfl
  · rw [if_neg htaken]
    refine ⟨hid, (mem_workExternalId_commitSplit hok).mpr ⟨_, hclaim, ?_⟩⟩
    rw [if_neg fun htakes => htaken (hiff.mpr htakes)]

/-- Deleted works take their mappings and their claims along. -/
theorem Claimed.of_deleted {before after : Db} {p : Id → Bool}
    (h : Claimed before)
    (hmapping : ∀ r ∈ after.sourceSeries,
      r ∈ before.sourceSeries ∧ p r.workId = false)
    (hclaim : ∀ e, e ∈ after.workExternalId ↔
      e ∈ before.workExternalId ∧ p e.workId = false) :
    Claimed after := by
  intro r hr htype
  obtain ⟨hr, hkept⟩ := hmapping r hr
  obtain ⟨hid, hmem⟩ := h r hr htype
  exact ⟨hid, (hclaim _).mpr ⟨hmem, hkept⟩⟩

/-- Every anchored step keeps the claims. -/
theorem write_claimed (h : Claimed s.db) (hplans : PlansKnown s)
    (hop : Anchored s op) : Claimed (s.write rules op) := by
  by_cases hkeep : keepsAnchors op = true
  · have hsame : anchors (s.write rules op) = anchors s.db := write_anchors hkeep
    obtain ⟨hclaims, hmappings⟩ := Prod.mk.inj (Prod.mk.inj hsame).2
    exact h.of_grows hmappings fun e he => hclaims ▸ he
  cases op with
  | createWork newWorkId input =>
      refine commit_cases h fun id db' hok => ?_
      obtain ⟨t, -, hdb⟩ := createWork_ok hok
      refine h.of_grows ?_ fun e he => (mem_workExternalId_createWork hok).2 he
      rw [hdb]
      rfl
  | upsertWorkFromMangadex newWorkId newSourceSeriesId mangadexId input now =>
      exact commit_cases h fun id db' hok => claimed_upsertWorkFromMangadex h hok
  | upsertSourceSeries =>
      exact commit_cases h fun id db' hok => claimed_ensureSourceSeries h hok hop
  | mergeWorks source target expected =>
      refine commit_cases h fun outcome db' hok => ?_
      obtain ⟨hne, -, -, -, rfl⟩ := merge_ok hok
      exact claimed_merged h hne
  | commitSplit i newWorkId actor =>
      exact write_commitSplit_cases h fun plan outcome db' hplan hok =>
        claimed_commitSplit h hok
          (hplans.agrees plan (List.mem_of_getElem? hplan))
  | deleteWorkCascade workId =>
      exact h.of_deleted
        (fun r hr => mem_sourceSeries_deleteWorksExplicitly.mp hr)
        fun e => mem_workExternalId_deleteWorksExplicitly
  | purgeForeignLanguageSuwayomi =>
      refine commit_cases h fun ids db' hok => ?_
      rcases purge_ok hok with rfl | ⟨keys, -, hclaim, hmapping, -⟩
      · exact h
      · exact h.of_deleted
          (fun r hr => ⟨((hmapping r).mp hr).1.1, ((hmapping r).mp hr).2⟩) hclaim
  | splitMismatchedRow row => exact hop.elim
  | addWorkAlias | removeWorkAlias | planSplit | cacheSeries | upsertChapter
  | replaceSourceChapters | seedWork | recordSourceSeries =>
      exact absurd rfl hkeep

/-! ## Runs -/

/-- What an anchored run keeps. -/
structure Coherent (s : CatalogState) : Prop where
  grounded : Grounded s
  plans : PlansKnown s
  claimed : Claimed s.db

/-- Every anchored step keeps what the run needs. -/
theorem coherent_step (h : Coherent s) (hop : Anchored s op) :
    Coherent (s.step rules op) := by
  refine ⟨grounded_step h.grounded, plansKnown_step h.plans, ?_⟩
  cases hfresh : s.fresh op with
  | true =>
      rw [step_db_of_fresh hfresh]
      exact write_claimed h.claimed h.plans hop
  | false =>
      rw [step_of_not_fresh hfresh]
      exact h.claimed

theorem coherent_reach (rules : Rules) {ops : List Op}
    (hops : Machine.EachStep (CatalogState.step rules) Anchored .init ops) :
    Coherent (reach rules ops) :=
  Machine.run_invariant_of_each (fun _ _ => coherent_step)
    { grounded := grounded_init
      plans := plansKnown_init
      claimed := fun r hr => absurd hr (Table.not_mem_empty r) } hops

/-- An upsert of an anchored uuid succeeds and returns the work that claims
it. -/
theorem upsertWorkFromMangadex_of_anchored (rules : TextRules) {db : Db}
    {e : WorkExternalId} (he : e ∈ db.workExternalId)
    (hprovider : e.provider = "mangadex") {r : SourceSeries}
    (hr : r ∈ db.sourceSeries)
    (hkey : r.key = ("mangadex", "mangadex", e.externalId))
    (newWorkId newSourceSeriesId : Id) (input : WorkInput) (now : String) :
    ∃ db', upsertWorkFromMangadex rules newWorkId newSourceSeriesId e.externalId
      input now db = .ok (e.workId, db') := by
  have hclaim : externalWork db "mangadex" e.externalId = some e.workId := by
    rw [externalWork_eq_some, ← hprovider]
    exact he
  have hmapping : r ∈ (refreshWorkRows rules e.workId e.externalId input
      db).sourceSeries := hr
  obtain ⟨id, db', hok⟩ := exists_ensureSourceSeries_ok
    ⟨newSourceSeriesId, e.workId, "mangadex", "mangadex", e.externalId, none,
      input.isNsfw, some now⟩ now hmapping hkey
  refine ⟨db', ?_⟩
  unfold upsertWorkFromMangadex upsertSourceSeries
  dsimp only
  rw [hclaim, Option.getD_some, hok]

/-- It refreshes that work's row. -/
theorem refreshWork_mem_upsertWorkFromMangadex {rules : TextRules}
    {newWorkId newSourceSeriesId outId : Id} {mangadexId : String}
    {input : WorkInput} {now : String} {db db' : Db}
    (h : upsertWorkFromMangadex rules newWorkId newSourceSeriesId mangadexId
      input now db = .ok (outId, db'))
    {old : Work} (hold : old ∈ db.work) (hid : old.id = outId) :
    refreshWork old (input.row outId) ∈ db'.work := by
  rw [work_upsertWorkFromMangadex h]
  exact Table.mem_upsert.mpr
    (.inr (.inr ⟨old, hold, decide_eq_true hid.symm, rfl⟩))

/-- **Anchor coherence.**  In every state that an anchored run reaches from the
empty catalogue, the claim and the mapping of a uuid name one work; and an
upsert of the uuid there refreshes that work and adds none. -/
theorem anchorsAgree_of_anchored (rules : Rules) (ops : List Op)
    (hops : Machine.EachStep (CatalogState.step rules) Anchored .init ops) :
    AnchorsAgree (reach rules ops).db ∧
      ∀ e ∈ (reach rules ops).db.workExternalId, e.provider = "mangadex" →
        ∀ r ∈ (reach rules ops).db.sourceSeries,
          r.key = ("mangadex", "mangadex", e.externalId) →
          ∀ newWorkId newSourceSeriesId input now,
            ∃ db', upsertWorkFromMangadex rules.toTextRules newWorkId
                newSourceSeriesId e.externalId input now (reach rules ops).db =
                  .ok (e.workId, db') ∧
              (∀ id, db'.hasWork id = true ↔
                (reach rules ops).db.hasWork id = true) ∧
              ∃ old ∈ (reach rules ops).db.work, old.id = e.workId ∧
                refreshWork old (input.row e.workId) ∈ db'.work := by
  have h := coherent_reach rules hops
  refine ⟨anchorsAgree_of_claimed h.claimed, ?_⟩
  intro e he hprovider r hr hkey newWorkId newSourceSeriesId input now
  obtain ⟨db', hok⟩ := upsertWorkFromMangadex_of_anchored rules.toTextRules he
    hprovider hr hkey newWorkId newSourceSeriesId input now
  have hlive := h.grounded.claims_live e he
  obtain ⟨old, hold, hid⟩ := hasWork_iff.mp hlive
  refine ⟨db', hok, fun id => ?_, old, hold, hid,
    refreshWork_mem_upsertWorkFromMangadex hok hold hid⟩
  rw [hasWork_upsertWorkFromMangadex hok]
  refine ⟨?_, .inl⟩
  rintro (hbefore | rfl)
  · exact hbefore
  · exact hlive

/-- A split takes an anchored mapping away, and a merge brings it back. -/
def splitAndMerged : List Op :=
  [.upsertWorkFromMangadex "w" "m" "uuid-w" (titled "dawn") "t1",
    .upsertSourceSeries "s" "w" "suwayomi" "mangasee" "7" none false "t1",
    .planSplit "w" ["m"], .commitSplit 0 "n" none, .mergeWorks "n" "w" none]

/-- The claim leaves and returns with the mapping. -/
theorem anchorsAgree_of_anchored_split_and_merged :
    AnchorsAgree (reach plainRules splitAndMerged).db :=
  (anchorsAgree_of_anchored plainRules splitAndMerged
    ⟨trivial, fun htype => absurd htype (by decide), trivial, trivial, trivial,
      trivial⟩).1

/-- A MangaDex mapping is added for a work that does not claim the uuid, and
the next sync mints a second work for it. -/
def unclaimedMapping : List Op :=
  [.createWork "w" (titled "dawn"),
    .upsertSourceSeries "s" "w" "mangadex" "mangadex" "uuid-w" none false "t1",
    .upsertWorkFromMangadex "x" "m" "uuid-w" (titled "dawn") "t2"]

/-- Without the promise of the callers the two tables come to name two works. -/
theorem not_anchorsAgree_unclaimed_mapping :
    ¬AnchorsAgree (reach plainRules unclaimedMapping).db := by
  intro h
  have hclaim : (⟨"x", "mangadex", "uuid-w"⟩ : WorkExternalId) ∈
      (reach plainRules unclaimedMapping).db.workExternalId.rows := by decide
  have hmapping : (⟨"s", "w", "mangadex", "mangadex", "uuid-w", none, false,
      some "t2"⟩ : SourceSeries) ∈
      (reach plainRules unclaimedMapping).db.sourceSeries.rows := by decide
  have hsame : "w" = "x" := h _ hclaim rfl _ hmapping rfl
  exact absurd hsame (by decide)

end Komika.Catalog.Anchors
