import Komika.Catalog.Integrity

/-!
# The last source of a work

A work without a mapping disappears from Browse and search, so a split may not
detach the last one.  The check counts the mappings that stay, in the state in
which it reads them; the transaction only looks at the rows it moves.  Between
the two another split can take the mappings that were to stay.

`lastSourceKept_iff` says what the transaction would have to check: that the
work has, there and then, a mapping that is not among the detached.

* `plansProper_reach` — a pending split detaches distinct mappings, and some;
* `keepsSources_iff` — a step of the two takes no surviving work's last mapping exactly
  under the condition;
* `lastSourceKept_iff` — the same for a run;
* `not_lastSourceKept_concurrent_splits` — two splits, each of which leaves what the
  other takes.
-/

namespace Komika.Catalog.LastSource

open Komika.Lib
open Komika.Catalog.Schema Komika.Catalog.Database Komika.Catalog.Ingest
open Komika.Catalog.Ledger Komika.Catalog.Merge Komika.Catalog.Split
open Komika.Catalog.Runs Komika.Catalog.Effects Komika.Catalog.Integrity

variable {rules : Rules} {s : CatalogState} {op : Op}

/-- The work has a mapping. -/
def HasSource (db : Db) (workId : Id) : Prop :=
  ∃ r ∈ db.sourceSeries, r.workId = workId

/-- No work that had a mapping and survives the step is without one. -/
def KeepsSources (rules : Rules) (s : CatalogState) (op : Op) : Prop :=
  ∀ w, HasSource s.db w → (s.step rules op).db.hasWork w = true →
    HasSource (s.step rules op).db w

/-- A split whose rows are all still on its work finds one more. -/
def OneStays (s : CatalogState) (op : Op) : Prop :=
  ∀ i newWorkId actor plan, op = .commitSplit i newWorkId actor →
    s.fresh op = true → s.plans[i]? = some plan →
      (∀ d ∈ plan.detached, ∃ r ∈ s.db.sourceSeries,
        r.id = d.id ∧ r.workId = plan.workId) →
      ∃ r ∈ s.db.sourceSeries, r.workId = plan.workId ∧
        r.id ∉ plan.detached.map SourceSeriesRow.id

/-- The step is one of the two calls that may run concurrently. -/
def splitsOrMerges : Op → Bool
  | .planSplit .. | .commitSplit .. | .mergeWorks .. => true
  | _ => false

/-! ## Pending splits

What a plan looks like from the time it is made to the time it is committed. -/

/-- A pending split detaches something, and nothing twice. -/
def PlansProper (s : CatalogState) : Prop :=
  ∀ plan ∈ s.plans, plan.detached ≠ [] ∧
    (plan.detached.map SourceSeriesRow.id).Nodup

/-- A plan is made of distinct mappings and never changes. -/
theorem plansProper_step (h : PlansProper s) : PlansProper (s.step rules op) := by
  intro plan hplan
  rcases mem_plans_step hplan with hplan | ⟨workId, ids, -, hok⟩
  · exact h plan hplan
  · refine ⟨fun hnil => ?_, nodup_detached hok⟩
    obtain ⟨-, hids, -, -, -⟩ := planSplit_ok hok
    obtain ⟨id, hid⟩ := List.exists_mem_of_ne_nil ids hids
    have hmem := (mem_detached_iff hok).mpr hid
    rw [hnil] at hmem
    contradiction

theorem plansProper_reach (rules : Rules) (ops : List Op) :
    PlansProper (reach rules ops) :=
  Machine.run_invariant (fun _ _ => plansProper_step)
    (fun _ hplan => by cases hplan) ops

/-! ## Steps -/

/-- On a work other than the one split, a mapping stays. -/
theorem hasSource_commitSplit_of_ne {plan : SplitPlan} {newWorkId : Id}
    {actor : Option Id} {db db' : Db} {outcome : SplitOutcome}
    (h : commitSplit rules.toTextRules plan newWorkId actor db = .ok (outcome, db'))
    {w : Id} (hw : HasSource db w) (hne : w ≠ plan.workId) : HasSource db' w := by
  obtain ⟨r, hr, rfl⟩ := hw
  refine ⟨r, (mem_sourceSeries_commitSplit h).mpr ⟨r, hr, ?_⟩, rfl⟩
  rw [if_neg]
  simp [takesSource, hne]

/-- On the work split, the mappings that stay are those not detached. -/
theorem hasSource_commitSplit_iff {plan : SplitPlan} {newWorkId : Id}
    {actor : Option Id} {db db' : Db} {outcome : SplitOutcome}
    (h : commitSplit rules.toTextRules plan newWorkId actor db = .ok (outcome, db')) :
    HasSource db' plan.workId ↔ ∃ r ∈ db.sourceSeries, r.workId = plan.workId ∧
      r.id ∉ plan.detached.map SourceSeriesRow.id := by
  have hne := (commitSplit_found h).2.1
  have htakes : ∀ r : SourceSeries, r.workId = plan.workId →
      (takesSource plan.workId plan.detached r = true ↔
        r.id ∈ plan.detached.map SourceSeriesRow.id) := by
    intro r hwork
    simp only [takesSource, hwork, decide_true, Bool.and_true, List.any_eq_true,
      decide_eq_true_eq, List.mem_map]
    exact exists_congr fun d => and_congr_right fun _ => eq_comm
  constructor
  · rintro ⟨r, hr, hwork⟩
    obtain ⟨old, hold, rfl⟩ := (mem_sourceSeries_commitSplit h).mp hr
    split at hwork
    · exact absurd hwork.symm hne
    · next hstays => exact ⟨old, hold, hwork, fun hid =>
        hstays ((htakes old hwork).mpr hid)⟩
  · rintro ⟨r, hr, hwork, hid⟩
    refine ⟨r, (mem_sourceSeries_commitSplit h).mpr ⟨r, hr, ?_⟩, hwork⟩
    rw [if_neg fun htaken => hid ((htakes r hwork).mp htaken)]

/-- A merge takes its source's mappings, and the source with them. -/
theorem keepsSources_merged {source target : Id} {db : Db}
    (hne : source ≠ target) {w : Id} (hw : HasSource db w)
    (hlive : (merged rules.toTextRules source target db).hasWork w = true) :
    HasSource (merged rules.toTextRules source target db) w := by
  obtain ⟨r, hr, rfl⟩ := hw
  obtain ⟨-, hother⟩ := hasWork_merged.mp hlive
  refine ⟨r, (mem_sourceSeries_merged hne).mpr ⟨r, hr, ?_⟩, rfl⟩
  have hoff : onWork source r = false := by
    rw [← Bool.not_eq_true, onWork_iff]
    exact fun h => hother (Option.some.inj h)
  rw [hoff]
  rfl

/-- A split that commits leaves the old work a mapping exactly if there is one that is
not detached. -/
theorem keepsSources_commitSplit_iff (hgrounded : Grounded s)
    (hplans : PlansProper s) {i : Nat} {newWorkId : Id} {actor : Option Id} :
    KeepsSources rules s (.commitSplit i newWorkId actor) ↔
      OneStays s (.commitSplit i newWorkId actor) := by
  have hstep : s.fresh (.commitSplit i newWorkId actor) = true →
      ∀ plan, s.plans[i]? = some plan →
        (s.step rules (.commitSplit i newWorkId actor)).db =
          s.db.commit (commitSplit rules.toTextRules plan newWorkId actor s.db) := by
    intro hfresh plan hplan
    rw [step_db_of_fresh hfresh]
    simp only [CatalogState.write, hplan]
  constructor
  · rintro hkeeps _ _ _ plan ⟨⟩ hfresh hplan hfound
    obtain ⟨hnonempty, hnodup⟩ := hplans plan (List.mem_of_getElem? hplan)
    obtain ⟨d, hd⟩ := List.exists_mem_of_ne_nil _ hnonempty
    obtain ⟨r, hr, -, hwork⟩ := hfound d hd
    have hlive : s.db.hasWork plan.workId = true := by
      rw [← hwork]
      exact hgrounded.linked.mappings r hr
    have hfree : s.db.hasWork newWorkId = false := by
      rw [← Bool.not_eq_true]
      intro hnew
      have hminted := hgrounded.live_minted newWorkId hnew
      simp [CatalogState.fresh, Op.mints, hminted] at hfresh
    obtain ⟨outcome, db', hok⟩ :=
      exists_commitSplit_ok rules.toTextRules actor hlive hfree hnodup hfound
    have hafter := hkeeps plan.workId ⟨r, hr, hwork⟩
    rw [hstep hfresh plan hplan, hok, commit_ok] at hafter
    refine (hasSource_commitSplit_iff hok).mp (hafter ?_)
    exact (hasWork_commitSplit hok).mpr (.inl hlive)
  · intro hstays w hw _
    cases hfresh : s.fresh (.commitSplit i newWorkId actor) with
    | false => rwa [step_of_not_fresh hfresh]
    | true =>
        cases hplan : s.plans[i]? with
        | none =>
            rw [step_db_of_fresh hfresh]
            simpa only [CatalogState.write, hplan] using hw
        | some plan =>
            rw [hstep hfresh plan hplan]
            refine commit_cases (P := fun db => HasSource db w) hw
              fun outcome db' hok => ?_
            by_cases hwork : w = plan.workId
            · subst hwork
              exact (hasSource_commitSplit_iff hok).mpr
                (hstays i newWorkId actor plan rfl hfresh hplan
                  (commitSplit_found hok).2.2)
            · exact hasSource_commitSplit_of_ne hok hw hwork

/-- The same for either of the two calls; a merge takes nothing from a work that
survives it. -/
theorem keepsSources_iff (hgrounded : Grounded s) (hplans : PlansProper s)
    (hop : splitsOrMerges op = true) :
    KeepsSources rules s op ↔ OneStays s op := by
  cases op with
  | commitSplit i newWorkId actor =>
      exact keepsSources_commitSplit_iff hgrounded hplans
  | planSplit workId ids =>
      exact iff_of_true (fun w hw _ => hw) fun _ _ _ _ h => by cases h
  | mergeWorks source target expected =>
      refine iff_of_true (fun w hw => ?_) fun _ _ _ _ h => by cases h
      refine commit_cases (P := fun db => db.hasWork w = true → HasSource db w)
        (fun _ => hw) fun outcome db' hok => ?_
      obtain ⟨hne, -, -, -, rfl⟩ := merge_ok hok
      exact keepsSources_merged hne hw
  | _ => contradiction

/-! ## Runs -/

/-- No step of the run takes a surviving work's last mapping, nor does the run
as a whole. -/
structure LastSourceKept (rules : Rules) (s : CatalogState) (ops : List Op) :
    Prop where
  each : Machine.EachStep (CatalogState.step rules) (KeepsSources rules) s ops
  along : ∀ w, HasSource s.db w →
    (Machine.run (CatalogState.step rules) s ops).db.hasWork w = true →
      HasSource (Machine.run (CatalogState.step rules) s ops).db w

/-- A work of a state that is live at the end of a run was live all along. -/
theorem hasWork_step_of_run (h : Grounded s) {w : Id} (hw : w ∈ s.minted)
    {ops : List Op}
    (hlive : (Machine.run (CatalogState.step rules) s ops).db.hasWork w = true) :
    s.db.hasWork w = true := by
  induction ops generalizing s with
  | nil => exact hlive
  | cons op ops ih =>
      have hstep := ih (grounded_step h) (minted_subset_step hw) hlive
      exact (hasWork_of_step h hstep).resolve_right (not_not_intro hw)

/-- What no step takes is there at the end. -/
theorem LastSourceKept.of_each (hgrounded : Grounded s) {ops : List Op}
    (h : Machine.EachStep (CatalogState.step rules) (KeepsSources rules) s ops) :
    LastSourceKept rules s ops := by
  refine ⟨h, ?_⟩
  induction ops generalizing s with
  | nil => exact fun w hw _ => hw
  | cons op ops ih =>
      intro w hw hlive
      obtain ⟨hstep, hrest⟩ := Machine.eachStep_cons.mp h
      obtain ⟨r, hr, hwork⟩ := hw
      have hminted : w ∈ s.minted := by
        rw [← hwork]
        exact hgrounded.live_minted _ (hgrounded.linked.mappings r hr)
      have hgrounded' : Grounded (s.step rules op) := grounded_step hgrounded
      have hlive' : (s.step rules op).db.hasWork w = true :=
        hasWork_step_of_run hgrounded' (minted_subset_step hminted) hlive
      exact ih hgrounded' hrest w (hstep w ⟨r, hr, hwork⟩ hlive') hlive

/-- **When no work loses its last mapping.**  From any reachable state, over any
interleaving of splits and merges: exactly when every split that finds its rows still on
its work finds one more there.  The check of the last source is made on a read before
the transaction, and another split may take the rest away in between. -/
theorem lastSourceKept_iff (rules : Rules) (before ops : List Op)
    (hops : ∀ op ∈ ops, splitsOrMerges op = true) :
    LastSourceKept rules (reach rules before) ops ↔
      Machine.EachStep (CatalogState.step rules) OneStays (reach rules before)
        ops := by
  have hgrounded := grounded_reach rules before
  have hiff : Machine.EachStep (CatalogState.step rules)
      (fun s op => KeepsSources rules s op ↔ OneStays s op)
      (reach rules before) ops :=
    Machine.EachStep.of_invariant
      (I := fun s => Grounded s ∧ PlansProper s)
      (fun s op h _ => ⟨grounded_step h.1, plansProper_step h.2⟩)
      (fun s op h hop => keepsSources_iff h.1 h.2 hop)
      ⟨hgrounded, plansProper_reach rules before⟩
      (Machine.eachStep_of_forall hops)
  constructor
  · intro h
    exact (h.each.and hiff).mono fun s op hboth => hboth.2.mp hboth.1
  · intro h
    exact .of_each hgrounded
      ((h.and hiff).mono fun s op hboth => hboth.2.mpr hboth.1)

/-! ## Two splits of one work

Three mappings are enough for two splits, and two are not. -/

/-- A work with two mappings. -/
def twoSources : List Op :=
  [.createWork "w" (titled "dawn"),
    .upsertSourceSeries "s1" "w" "suwayomi" "mangasee" "7" none false "t1",
    .upsertSourceSeries "s2" "w" "suwayomi" "mangafox" "8" none false "t1"]

/-- With a third mapping, two splits at once leave one. -/
theorem lastSourceKept_iff_third_source :
    LastSourceKept plainRules
      (reach plainRules (twoSources ++
        [.upsertSourceSeries "s3" "w" "suwayomi" "comick" "9" none false "t1"]))
      [.planSplit "w" ["s1"], .planSplit "w" ["s2"],
        .commitSplit 0 "n1" none, .commitSplit 0 "n2" none] := by
  refine (lastSourceKept_iff plainRules _ _ (by decide)).mpr ?_
  have hstays : ∀ ops ∈
      ([[.planSplit "w" ["s1"], .planSplit "w" ["s2"]],
        [.planSplit "w" ["s1"], .planSplit "w" ["s2"],
          .commitSplit 0 "n1" none]] : List (List Op)),
      ∀ plan ∈ (reach plainRules (twoSources ++
          [.upsertSourceSeries "s3" "w" "suwayomi" "comick" "9" none false "t1"] ++
          ops)).plans,
        ∃ r ∈ (reach plainRules (twoSources ++
            [.upsertSourceSeries "s3" "w" "suwayomi" "comick" "9" none false "t1"] ++
            ops)).db.sourceSeries.rows,
          r.workId = plan.workId ∧
            r.id ∉ plan.detached.map SourceSeriesRow.id := by decide
  refine ⟨?_, ?_, ?_, ?_, trivial⟩
  · rintro _ _ _ _ ⟨⟩
  · rintro _ _ _ _ ⟨⟩
  · rintro _ _ _ plan ⟨⟩ - hplan -
    exact hstays _ List.mem_cons_self plan (List.mem_of_getElem? hplan)
  · rintro _ _ _ plan ⟨⟩ - hplan -
    exact hstays _ (List.mem_cons_of_mem _ List.mem_cons_self) plan
      (List.mem_of_getElem? hplan)

/-- With two, each split leaves the mapping that the other takes. -/
theorem not_lastSourceKept_concurrent_splits :
    ¬LastSourceKept plainRules (reach plainRules twoSources)
      [.planSplit "w" ["s1"], .planSplit "w" ["s2"],
        .commitSplit 0 "n1" none, .commitSplit 0 "n2" none] := by
  intro h
  have hbefore : ∃ r ∈ (reach plainRules twoSources).db.sourceSeries.rows,
      r.workId = "w" := by decide
  obtain ⟨r, hr, hwork⟩ := h.along "w" hbefore (by decide)
  have hnone : ∀ r ∈ (reach plainRules (twoSources ++
      [.planSplit "w" ["s1"], .planSplit "w" ["s2"],
        .commitSplit 0 "n1" none, .commitSplit 0 "n2" none])).db.sourceSeries.rows,
      r.workId ≠ "w" := by decide
  exact hnone r hr hwork

end Komika.Catalog.LastSource
