import Komika.Catalog.Redirects
import Komika.Catalog.LastSource
import Komika.Catalog.PhaseF

/-!
# What Phase F deletes

The transactions of `delete_redundant` do not look at the verdict again.
Between the gate and a delete a merge keeps the verdict, because a mapping and
its anchor move together; a split can take one without the other.

`proven_step_iff` says what a step beside the pass does to one mapping, `Sound`
is the invariant of the pass, and `safePass_of_undivided` is the statement
about runs.

* `proven_of_clean` — a clean gate proves every mapping through the extension;
* `proven_step_iff` — a merge or split leaves a mapping proven exactly if it stays on
  the work of an anchor;
* `sound_step` — the invariant, for every step that separates no target from its
  anchors;
* `proven_of_deletes`, `hasSource_step`, `claimsKey_step` — what is deleted is a proven
  duplicate, and its work keeps its anchor;
* `deletesNothing_of_failure` — a gate with failures deletes nothing;
* `safePass_of_undivided` — the whole pass, from any state;
* `not_safePass_dividedPass` — a split that comes between.
-/

namespace Komika.Catalog.PhaseF

open Komika.Lib
open Komika.Catalog.Schema Komika.Catalog.Database Komika.Catalog.Ingest
open Komika.Catalog.Ledger Komika.Catalog.Merge Komika.Catalog.Split
open Komika.Catalog.Runs Komika.Catalog.Effects Komika.Catalog.Integrity
open Komika.Catalog.Redirects Komika.Catalog.LastSource
open Komika.Scan.Schema (ScanState)

/-! ## Where mappings go

The steps beside the pass move mappings, and do nothing else to them. -/

/-- The work a mapping is on after a merge or a split. -/
def landing (rules : Rules) (s : CatalogState) (op : Op) (m : SourceSeries) : Id :=
  match op with
  | .mergeWorks source target _ =>
      if (s.merges rules op).isSome && m.workId = source then target else m.workId
  | .commitSplit i newWorkId _ =>
      if (s.splits rules op).isSome &&
          (s.plans[i]?.any fun plan => takesSource plan.workId plan.detached m) then
        newWorkId
      else m.workId
  | .splitMismatchedRow row =>
      if m.id = row.sourceSeriesId then
        (row.destination.filter s.db.hasWork).getD m.workId
      else m.workId
  | _ => m.workId

section Landing

variable {rules : Rules} {s : CatalogState} {r : SourceSeries}

/-- A merge moves each mapping to where it lands. -/
theorem mem_sourceSeries_mergeWorks {source target : Id}
    {expected : Option (WorkIdentity × WorkIdentity)} :
    r ∈ (s.step rules (.mergeWorks source target expected)).db.sourceSeries ↔
      ∃ old ∈ s.db.sourceSeries,
        r = move (landing rules s (.mergeWorks source target expected) old) old := by
  cases hresult : mergeWorksChecked rules.toTextRules source target expected s.db with
  | error e =>
      have hdb : (s.step rules (.mergeWorks source target expected)).db = s.db := by
        rw [step_db_of_fresh rfl, CatalogState.write, hresult]
        rfl
      have hland : ∀ old : SourceSeries, move (landing rules s
          (.mergeWorks source target expected) old) old = old := by
        intro old
        simp only [landing, CatalogState.merges, hresult, Option.isSome_none,
          Bool.false_and, Bool.false_eq_true, if_false]
        rfl
      simp only [hdb, hland, exists_eq_right']
  | ok result =>
      obtain ⟨outcome, db'⟩ := result
      obtain ⟨hne, -, -, -, rfl⟩ := merge_ok hresult
      have hdb : (s.step rules (.mergeWorks source target expected)).db =
          merged rules.toTextRules source target s.db := by
        rw [step_db_of_fresh rfl, CatalogState.write, hresult]
        rfl
      have hland : ∀ old : SourceSeries, move (landing rules s
          (.mergeWorks source target expected) old) old =
            if onWork source old then move target old else old := by
        intro old
        by_cases hon : old.workId = source
        · rw [if_pos (onWork_iff.mpr (congrArg some hon))]
          simp [landing, CatalogState.merges, hresult, hon]
        · rw [if_neg fun h => hon (Option.some.inj (onWork_iff.mp h))]
          simp only [landing, CatalogState.merges, hresult, Option.isSome_some,
            Bool.true_and, decide_eq_true_eq, if_neg hon]
          rfl
      simp only [hdb, hland]
      exact mem_sourceSeries_merged hne

theorem mem_sourceSeries_commitSplit_step {i : Nat} {newWorkId : Id}
    {actor : Option Id} :
    r ∈ (s.step rules (.commitSplit i newWorkId actor)).db.sourceSeries ↔
      ∃ old ∈ s.db.sourceSeries,
        r = move (landing rules s (.commitSplit i newWorkId actor) old) old := by
  cases hsplit : s.splits rules (.commitSplit i newWorkId actor) with
  | none =>
      have hdb : (s.step rules (.commitSplit i newWorkId actor)).db = s.db := by
        cases hfresh : s.fresh (.commitSplit i newWorkId actor) with
        | false => rw [step_of_not_fresh hfresh]
        | true =>
            rw [step_db_of_fresh hfresh]
            refine write_commitSplit_cases (P := fun db => db = s.db) rfl
              fun plan outcome db' hplan hok => ?_
            simp [CatalogState.splits, hfresh, hplan, hok] at hsplit
      have hland : ∀ old : SourceSeries, move (landing rules s
          (.commitSplit i newWorkId actor) old) old = old := by
        intro old
        simp only [landing, hsplit, Option.isSome_none, Bool.false_and,
          Bool.false_eq_true, if_false]
        rfl
      simp only [hdb, hland, exists_eq_right']
  | some pair =>
      have hsplit' := hsplit
      simp only [CatalogState.splits] at hsplit'
      split at hsplit'
      · next hfresh =>
          obtain ⟨plan, hplan, hcommit⟩ := Option.bind_eq_some_iff.mp hsplit'
          split at hcommit
          · next result hok =>
              obtain ⟨outcome, db'⟩ := result
              have hdb : (s.step rules (.commitSplit i newWorkId actor)).db = db' := by
                rw [step_db_of_fresh hfresh]
                simp only [CatalogState.write, hplan, hok, commit_ok]
              have hland : ∀ old : SourceSeries, move (landing rules s
                  (.commitSplit i newWorkId actor) old) old =
                    if takesSource plan.workId plan.detached old then
                      move newWorkId old else old := by
                intro old
                simp only [landing, hsplit, hplan, Option.isSome_some, Bool.true_and,
                  Option.any_some]
                split <;> rfl
              simp only [hdb, hland]
              exact mem_sourceSeries_commitSplit hok
          · contradiction
      · contradiction

/-- The foreign key of `work_id` is what stops such a move. -/
theorem hasWork_of_splitMismatchedRow_error {row : Ledger.ClassifiedRow} {db : Db}
    {e : CatalogError} (h : splitMismatchedRow row db = .error e) :
    ∃ target, row.destination = some target ∧ db.hasWork target = false := by
  unfold splitMismatchedRow at h
  split at h
  · contradiction
  · next target htarget =>
      refine ⟨target, htarget, ?_⟩
      split at h
      · next hfk =>
          have hdead := (Bool.and_eq_true_iff.mp hfk).1
          simpa using hdead
      · contradiction

theorem mem_sourceSeries_splitMismatchedRow {row : Ledger.ClassifiedRow} :
    r ∈ (s.step rules (.splitMismatchedRow row)).db.sourceSeries ↔
      ∃ old ∈ s.db.sourceSeries,
        r = move (landing rules s (.splitMismatchedRow row) old) old := by
  have hdb : (s.step rules (.splitMismatchedRow row)).db =
      s.db.commit (splitMismatchedRow row s.db) := step_db_of_fresh rfl
  -- whatever keeps the filtered destination from being a work keeps the mapping
  have hstays : row.destination.filter s.db.hasWork = none → ∀ old : SourceSeries,
      move (landing rules s (.splitMismatchedRow row) old) old = old := by
    intro hnone old
    simp only [landing, hnone, Option.getD_none, ite_self]
    rfl
  rw [hdb]
  cases hresult : splitMismatchedRow row s.db with
  | error e =>
      obtain ⟨target, htarget, hdead⟩ := hasWork_of_splitMismatchedRow_error hresult
      simp only [hstays (by simp [htarget, Option.filter, hdead]), exists_eq_right']
      exact Iff.rfl
  | ok result =>
      obtain ⟨u, db'⟩ := result
      rw [commit_ok]
      rcases splitMismatchedRow_ok hresult with
        ⟨hnone, rfl⟩ | ⟨target, htarget, hlive, moved, rfl, rfl⟩
      · simp only [hstays (by rw [hnone]; rfl), exists_eq_right']
      · rw [Table.mem_update (h := moveSourceSeries_keepsKeys target)]
        refine exists_congr fun old => and_congr_right fun hold => ?_
        by_cases hid : old.id = row.sourceSeriesId
        · have hwork : s.db.hasWork target = true :=
            hlive.resolve_right fun h => h.1 old hold hid
          simp [landing, hid, htarget, Option.filter, hwork]
        · simp only [landing, hid, decide_false, Bool.false_eq_true, if_false]
          exact Iff.rfl

/-- A merge or a split moves mappings, and does nothing else to them. -/
theorem mem_sourceSeries_step {op : Op} (hop : mergesOrSplits op = true) :
    r ∈ (s.step rules op).db.sourceSeries ↔
      ∃ old ∈ s.db.sourceSeries, r = move (landing rules s op old) old := by
  cases op with
  | mergeWorks source target expected => exact mem_sourceSeries_mergeWorks
  | commitSplit i newWorkId actor => exact mem_sourceSeries_commitSplit_step
  | splitMismatchedRow row => exact mem_sourceSeries_splitMismatchedRow
  | planSplit workId ids =>
      have hland : ∀ old : SourceSeries,
          move (landing rules s (.planSplit workId ids) old) old = old := fun _ => rfl
      simp only [hland, exists_eq_right']
      exact Iff.rfl
  | _ => contradiction

end Landing

/-! ## What a pass may delete

A mapping through the extension may go if its work has the MangaDex mapping of the same
uuid. -/

/-- `a` is a MangaDex mapping with the UUID recorded for `m`. -/
def PhaseState.Anchors (s : PhaseState) (m a : SourceSeries) : Prop :=
  a.sourceType = "mangadex" ∧
    ∃ u ∈ s.allMangadexUuid.rows, u.sourceSeriesId = m.id ∧ u.mangadexUuid = a.sourceKey

instance (s : PhaseState) (m a : SourceSeries) : Decidable (s.Anchors m a) :=
  inferInstanceAs (Decidable (_ ∧ _))

/-- The mapping is a duplicate: such a mapping is on its work. -/
def PhaseState.Proven (s : PhaseState) (m : SourceSeries) : Prop :=
  ∃ a ∈ s.catalog.db.sourceSeries.rows, s.Anchors m a ∧
    resolved s.catalog.db a.workId = resolved s.catalog.db m.workId

/-- The step is one of `delete_redundant`. -/
def Act.ofPass : Act → Bool
  | .beside .. => false
  | _ => true

/-- The pass deletes the mapping in this step. -/
def PhaseState.Deletes (rules : Rules) (request : Request) (s : PhaseState)
    (act : Act) (m : SourceSeries) : Prop :=
  act.ofPass = true ∧ m ∈ s.catalog.db.sourceSeries ∧
    m ∉ (s.step rules request act).catalog.db.sourceSeries

/-- A run in which Phase F deletes only proven duplicates. -/
structure SafePass (rules : Rules) (request : Request) (s : PhaseState)
    (acts : List Act) : Prop where
  /-- What is deleted is proven there and then. -/
  proven : Machine.EachStep (PhaseState.step rules request)
    (fun s act => ∀ m, s.Deletes rules request act m → s.Proven m) s acts
  /-- No delete leaves a work without a source. -/
  sourceStays : Machine.EachStep (PhaseState.step rules request)
    (fun s act => act.ofPass = true → ∀ w, HasSource s.catalog.db w →
      HasSource (s.step rules request act).catalog.db w) s acts
  /-- Where the gate finds a row that is not proven, nothing is deleted. -/
  gated : ∀ before after, acts = before ++ .gate :: after →
    (∃ rows, (Machine.run (PhaseState.step rules request) s before).pass =
      .classified rows) →
    (∃ r ∈ (Machine.run (PhaseState.step rules request) s before).classified,
      r.verdict ≠ .redundant) →
    Machine.EachStep (PhaseState.step rules request)
      (fun s act => ∀ m, ¬s.Deletes rules request act m) s acts
  /-- A scan state goes only with the last mapping that has its key. -/
  scanStates : Machine.EachStep (PhaseState.step rules request)
    (fun s act => ∀ r ∈ s.seriesScanState.rows,
      r ∉ (s.step rules request act).seriesScanState.rows →
        claimsKey (s.step rules request act).catalog.db r.seriesId = false) s acts

/-! ## The exact condition

What a step beside the pass must not do to a target that is still to come. -/

/-- The targets whose transactions are still to come. -/
def PhaseState.pending (request : Request) (s : PhaseState) : List ClassifiedRow :=
  match s.pass with
  | .gated rows gate =>
      if request.confirmed && gate.isClean then (picked request.includeSplit rows gate).2
      else []
  | .deleting _ targets _ => targets
  | _ => []

/-- The step leaves the mapping on another work than each of its anchors is
on. -/
def PhaseState.Separates (rules : Rules) (s : PhaseState) (op : Op)
    (m : SourceSeries) : Prop :=
  ∀ a ∈ s.catalog.db.sourceSeries.rows, s.Anchors m a →
    landing rules s.catalog op a ≠ landing rules s.catalog op m

instance (rules : Rules) (s : PhaseState) (op : Op) (m : SourceSeries) :
    Decidable (s.Separates rules op m) :=
  inferInstanceAs (Decidable (∀ a ∈ s.catalog.db.sourceSeries.rows, s.Anchors m a →
    landing rules s.catalog op a ≠ landing rules s.catalog op m))

/-- No mapping that is still to be deleted is separated from its anchors. -/
def PhaseState.Undivided (rules : Rules) (request : Request) (s : PhaseState) :
    Act → Prop
  | .beside op _ =>
      ∀ t ∈ s.pending request, ∀ m ∈ s.catalog.db.sourceSeries.rows,
        m.id = t.sourceSeriesId → ¬s.Separates rules op m
  | _ => True

instance (rules : Rules) (request : Request) (s : PhaseState) (act : Act) :
    Decidable (s.Undivided rules request act) :=
  match act with
  | .beside op _ =>
      inferInstanceAs (Decidable (∀ t ∈ s.pending request,
        ∀ m ∈ s.catalog.db.sourceSeries.rows,
          m.id = t.sourceSeriesId → ¬s.Separates rules op m))
  | .classify | .gate | .schedule _ | .delete => .isTrue trivial

/-! ## The invariant

What is known of the selected rows at each stage of the pass. -/

/-- The rows a pass still refers to. -/
def PhaseState.selected (s : PhaseState) : List ClassifiedRow :=
  match s.pass with
  | .classified rows | .gated rows _ => rows
  | .deleting _ targets _ => targets
  | _ => []

/-- A target that is pending was selected. -/
theorem mem_selected_of_mem_pending {request : Request} {s : PhaseState}
    {t : ClassifiedRow} (h : t ∈ s.pending request) : t ∈ s.selected := by
  unfold PhaseState.pending at h
  unfold PhaseState.selected
  split at h
  · next rows gate hpass =>
      rw [hpass]
      split at h
      · exact mem_of_mem_picked h
      · contradiction
  · next now targets report hpass =>
      rw [hpass]
      exact h
  · contradiction

/-- What holds between the steps of a pass. -/
structure Sound (request : Request) (s : PhaseState) : Prop where
  forwarded : ∃ log, Forwarded log s.catalog
  /-- A row stands for a mapping through the extension. -/
  identified : ∀ t ∈ s.selected, ∀ m ∈ s.catalog.db.sourceSeries,
    m.id = t.sourceSeriesId → mirrored s.sourceExtension m = true
  proven : ∀ t ∈ s.pending request, ∀ m ∈ s.catalog.db.sourceSeries,
    m.id = t.sourceSeriesId → s.Proven m

section Steps

variable {rules : Rules} {request : Request} {s : PhaseState}

/-- A mapping is on a work that leads nowhere else. -/
theorem resolved_of_mem {log : List (Id × Id)} {catalog : CatalogState}
    (h : Forwarded log catalog) {m : SourceSeries}
    (hm : m ∈ catalog.db.sourceSeries) : resolved catalog.db m.workId = m.workId :=
  Forwarding.home_of_none
    (h.redirect_of_hasWork (h.grounded.linked.mappings m hm))

/-- Deleting a mapping retires no id and breaks no key. -/
theorem forwarded_deleteMapping {log : List (Id × Id)} {catalog : CatalogState}
    (h : Forwarded log catalog) (id : Id) : Forwarded log (deleteMapping id catalog) where
  grounded :=
    { claims_live := h.grounded.claims_live
      linked :=
        { mappings := fun m hm =>
            h.grounded.linked.mappings m (Table.mem_deleteWhere.mp hm).1
          events := h.grounded.linked.events }
      live_minted := h.grounded.live_minted }
  oneHop := h.oneHop
  agrees := h.agrees
  retired := h.retired
  home_minted := h.home_minted

/-- What `classify` calls the same work is. -/
theorem resolved_of_sameWork {log : List (Id × Id)} {catalog : CatalogState}
    (h : Forwarded log catalog) {rw : Id} {a : SourceSeries}
    (ha : a ∈ catalog.db.sourceSeries) (hsame : sameWork catalog.db rw a = true) :
    resolved catalog.db a.workId = rw := by
  unfold sameWork at hsame
  rw [Bool.or_eq_true, decide_eq_true_eq, List.any_eq_true] at hsame
  rcases hsame with hwork | ⟨r, hr, hhop⟩
  · rw [resolved_of_mem h ha, hwork]
  · simp only [Bool.and_eq_true, decide_eq_true_eq] at hhop
    have hlookup : redirectWorkId catalog.db r.oldId = some r.newId :=
      redirectWorkId_eq_some.mpr hr
    rw [hhop.1, hhop.2] at hlookup
    simp [resolved, Forwarding.home, hlookup]

/-- A row that is classified as redundant stands for a duplicate. -/
theorem proven_of_redundant {log : List (Id × Id)} (h : Forwarded log s.catalog)
    {m : SourceSeries}
    (hverdict : (classifyRow s.catalog.db s.allMangadexUuid m).verdict = .redundant) :
    s.Proven m := by
  have hmatches :
      (classifyRow s.catalog.db s.allMangadexUuid m).uuidMatchesAnchor = true := by
    unfold ClassifiedRow.verdict verdictOf at hverdict
    split at hverdict
    · contradiction
    · split at hverdict
      · assumption
      · split at hverdict <;> contradiction
  obtain ⟨a, hanchor, huuid⟩ := List.any_eq_true.mp hmatches
  obtain ⟨ha, hkind⟩ := List.mem_filter.mp hanchor
  obtain ⟨hdirect, hsame⟩ := Bool.and_eq_true_iff.mp hkind
  obtain ⟨u, hu, hkey⟩ := Option.map_eq_some_iff.mp (of_decide_eq_true huuid)
  refine ⟨a, ha, ⟨of_decide_eq_true hdirect, u, ?_, ?_, hkey⟩,
    resolved_of_sameWork h ha hsame⟩
  · exact List.mem_of_find?_eq_some hu
  · simpa using List.find?_some hu

/-- Mappings of one id are one mapping. -/
theorem eq_of_id {t : Table SourceSeries} {a b : SourceSeries} (ha : a ∈ t)
    (hb : b ∈ t) (hid : a.id = b.id) : a = b :=
  Table.eq_of_clash ha hb (decide_eq_true (.inl hid))

/-- The rows are those of the mappings through the extension. -/
theorem mem_classify {db : Db} {extensions : Table SourceExtension}
    {uuids : Table AllMangadexUuid} {r : ClassifiedRow} :
    r ∈ classify db extensions uuids ↔
      ∃ m ∈ db.sourceSeries, mirrored extensions m = true ∧
        classifyRow db uuids m = r := by
  simp only [classify, List.mem_map, List.mem_insertionSort, List.mem_filter, and_assoc,
    Table.mem_rows]

/-- A clean gate proves every mapping through the extension. -/
theorem proven_of_clean {log : List (Id × Id)} (h : Forwarded log s.catalog)
    (hclean : (gate s.classified).isClean = true) {m : SourceSeries}
    (hm : m ∈ s.catalog.db.sourceSeries) (hmirrored : mirrored s.sourceExtension m = true) :
    s.Proven m :=
  proven_of_redundant h
    ((isClean_gate_iff s.classified).mp hclean _ (mem_classify.mpr ⟨m, hm, hmirrored, rfl⟩))

/-- What a merge or split has to do for a mapping to be proven after it. -/
theorem proven_step_iff {log : List (Id × Id)} (h : Forwarded log s.catalog) {op : Op}
    (hop : mergesOrSplits op = true) {m : SourceSeries}
    (hm : m ∈ s.catalog.db.sourceSeries) :
    (s.step rules request (.beside op hop)).Proven
        (move (landing rules s.catalog op m) m) ↔ ¬s.Separates rules op m := by
  have h' : Forwarded (log ++ (s.catalog.merges rules op).toList)
      (s.catalog.step rules op) := forwarded_step h
  have hlands : ∀ r ∈ s.catalog.db.sourceSeries,
      move (landing rules s.catalog op r) r ∈ (s.catalog.step rules op).db.sourceSeries ∧
        resolved (s.catalog.step rules op).db
          (move (landing rules s.catalog op r) r).workId = landing rules s.catalog op r := by
    intro r hr
    have hmem : move (landing rules s.catalog op r) r ∈
        (s.catalog.step rules op).db.sourceSeries :=
      (mem_sourceSeries_step hop).mpr ⟨r, hr, rfl⟩
    exact ⟨hmem, resolved_of_mem h' hmem⟩
  constructor
  · rintro ⟨a', ha', hanchors, hsame⟩ hseparates
    obtain ⟨a, ha, rfl⟩ := (mem_sourceSeries_step hop).mp ha'
    refine hseparates a ha hanchors ?_
    rw [← (hlands a ha).2, ← (hlands m hm).2]
    exact hsame
  · intro hstays
    have hkept : ∃ a ∈ s.catalog.db.sourceSeries, s.Anchors m a ∧
        landing rules s.catalog op a = landing rules s.catalog op m := by
      by_contra hnone
      refine hstays fun a ha hanchors hland => ?_
      exact hnone ⟨a, ha, hanchors, hland⟩
    obtain ⟨a, ha, hanchors, hland⟩ := hkept
    refine ⟨_, (hlands a ha).1, hanchors, ?_⟩
    exact (hlands a ha).2.trans (hland.trans (hlands m hm).2.symm)

/-- A merge or split that separates no target keeps the invariant. -/
theorem sound_beside (h : Sound request s) {op : Op} {hop : mergesOrSplits op = true}
    (hundivided : s.Undivided rules request (.beside op hop)) :
    Sound request (s.step rules request (.beside op hop)) := by
  obtain ⟨log, hlog⟩ := h.forwarded
  refine ⟨⟨_, forwarded_step hlog⟩, ?_, ?_⟩
  · intro t ht m hm hid
    obtain ⟨old, hold, rfl⟩ := (mem_sourceSeries_step hop).mp hm
    exact h.identified t ht old hold hid
  · intro t ht m hm hid
    obtain ⟨old, hold, rfl⟩ := (mem_sourceSeries_step hop).mp hm
    exact (proven_step_iff hlog hop hold).mpr (hundivided t ht old hold hid)

/-- What is read is what the tables hold. -/
theorem sound_classify (h : Sound request s) :
    Sound request (s.step rules request .classify) := by
  cases hpass : s.pass with
  | start =>
      have hstep : s.step rules request .classify =
          { s with pass := .classified s.classified } := by
        simp only [PhaseState.step, hpass]
      rw [hstep]
      refine ⟨h.forwarded, ?_, fun t ht => absurd ht List.not_mem_nil⟩
      intro t ht m hm hid
      obtain ⟨m', hm', hmirrored, rfl⟩ := mem_classify.mp ht
      rw [eq_of_id hm hm' hid]
      exact hmirrored
  | _ => simpa only [PhaseState.step, hpass] using h

/-- The gate reads the tables once more. -/
theorem sound_gate (h : Sound request s) : Sound request (s.step rules request .gate) := by
  cases hpass : s.pass with
  | classified rows =>
      have hstep : s.step rules request .gate =
          { s with pass := .gated rows (gate s.classified) } := by
        simp only [PhaseState.step, hpass]
      have hselected : s.selected = rows := by rw [PhaseState.selected, hpass]
      obtain ⟨log, hlog⟩ := h.forwarded
      rw [hstep]
      refine ⟨⟨log, hlog⟩, ?_, ?_⟩
      · intro t ht
        exact h.identified t (hselected ▸ ht)
      · intro t ht m hm hid
        have hrow : t ∈ s.selected := by
          rw [hselected]
          exact mem_selected_of_mem_pending ht
        have hclean : (gate s.classified).isClean = true := by
          by_contra hdirty
          simp [PhaseState.pending, hdirty] at ht
        exact proven_of_clean hlog hclean hm (h.identified t hrow m hm hid)
  | _ => simpa only [PhaseState.step, hpass] using h

/-- A pass that refers to less keeps the invariant. -/
theorem Sound.of_pass (h : Sound request s) {pass : Pass}
    (hselected : ∀ t ∈ ({ s with pass := pass } : PhaseState).selected, t ∈ s.selected)
    (hpending : ∀ t ∈ ({ s with pass := pass } : PhaseState).pending request,
      t ∈ s.pending request) :
    Sound request { s with pass := pass } where
  forwarded := h.forwarded
  identified t ht := h.identified t (hselected t ht)
  proven t ht := h.proven t (hpending t ht)

theorem sound_schedule (h : Sound request s) {now : String} :
    Sound request (s.step rules request (.schedule now)) := by
  cases hpass : s.pass with
  | gated rows gate =>
      have hstep : s.step rules request (.schedule now) =
          { s with pass := afterGate request now s.seriesScanState rows gate } := by
        simp only [PhaseState.step, hpass]
      rw [hstep]
      unfold afterGate
      dsimp only
      split
      · exact h.of_pass (fun t ht => absurd ht List.not_mem_nil)
          fun t ht => absurd ht List.not_mem_nil
      · next hconfirmed =>
          split
          · exact h.of_pass (fun t ht => absurd ht List.not_mem_nil)
              fun t ht => absurd ht List.not_mem_nil
          · next hclean =>
              refine h.of_pass (fun t ht => ?_) fun t ht => ?_
              · rw [PhaseState.selected, hpass]
                exact mem_of_mem_picked ht
              · simp only [Bool.not_eq_true', Bool.not_eq_false] at hconfirmed hclean
                simpa [PhaseState.pending, hpass, hconfirmed, hclean] using ht
  | _ => simpa only [PhaseState.step, hpass] using h

/-- The transaction of a target takes its mapping, and no anchor. -/
theorem sound_deleteRow {now : String} {t : ClassifiedRow} {targets : List ClassifiedRow}
    {report : DeleteReport} (h : Sound request s)
    (hpass : s.pass = .deleting now (t :: targets) report) :
    Sound request (deleteRow now t targets report s) := by
  obtain ⟨log, hlog⟩ := h.forwarded
  have hselected : s.selected = t :: targets := by rw [PhaseState.selected, hpass]
  have hpending : s.pending request = t :: targets := by rw [PhaseState.pending, hpass]
  have hstays : ∀ {m}, m ∈ (deleteRow now t targets report s).catalog.db.sourceSeries ↔
      m ∈ s.catalog.db.sourceSeries ∧ decide (m.id = t.sourceSeriesId) = false :=
    Table.mem_deleteWhere
  refine ⟨⟨log, forwarded_deleteMapping hlog t.sourceSeriesId⟩, ?_, ?_⟩
  · intro t' ht' m hm hid
    have hrow : t' ∈ s.selected := hselected ▸ List.mem_cons_of_mem t ht'
    exact h.identified t' hrow m (hstays.mp hm).1 hid
  · intro t' ht' m hm hid
    have hrow : t' ∈ s.pending request := hpending ▸ List.mem_cons_of_mem t ht'
    obtain ⟨a, ha, ⟨hdirect, u, hu, huid, huuid⟩, hsame⟩ :=
      h.proven t' hrow m (hstays.mp hm).1 hid
    have hother : a.id ≠ t.sourceSeriesId := by
      intro hid
      have hmirrored := h.identified t (hselected ▸ List.mem_cons_self) a ha hid
      simp [mirrored, hdirect] at hmirrored
    refine ⟨a, hstays.mpr ⟨ha, decide_eq_false hother⟩, ⟨hdirect, ?_⟩, hsame⟩
    refine ⟨_, (Table.mem_update (h := dispose_keepsKeys now)).mpr ⟨u, hu, rfl⟩, ?_, ?_⟩
    · split
      · exact huid
      · exact huid
    · split
      · exact huuid
      · exact huuid

/-- What a step of the pass does to the tables: nothing, or the transaction of
its next target. -/
theorem step_cases (rules : Rules) (request : Request) (s : PhaseState) {act : Act}
    (hact : act.ofPass = true) :
    ((s.step rules request act).catalog = s.catalog ∧
        (s.step rules request act).seriesScanState = s.seriesScanState) ∨
      ∃ now t targets report, act = .delete ∧
        s.pass = .deleting now (t :: targets) report ∧
          s.step rules request act = deleteRow now t targets report s := by
  cases act with
  | beside op hop => contradiction
  | delete =>
      cases hpass : s.pass with
      | deleting now targets report =>
          cases targets with
          | nil => exact .inl (by simp only [PhaseState.step, hpass, and_self])
          | cons t targets =>
              exact .inr ⟨now, t, targets, report, rfl, rfl, by
                simp only [PhaseState.step, hpass]⟩
      | _ => exact .inl (by simp only [PhaseState.step, hpass, and_self])
  | _ => cases hpass : s.pass <;> exact .inl (by simp only [PhaseState.step, hpass, and_self])

/-- A delete takes its target and keeps the rest. -/
theorem sound_delete (h : Sound request s) : Sound request (s.step rules request .delete) := by
  cases hpass : s.pass with
  | deleting now targets report =>
      cases targets with
      | nil =>
          have hstep : s.step rules request .delete = { s with pass := .returned report } := by
            simp only [PhaseState.step, hpass]
          rw [hstep]
          exact h.of_pass (fun t ht => absurd ht List.not_mem_nil)
            fun t ht => absurd ht List.not_mem_nil
      | cons t targets =>
          have hstep : s.step rules request .delete = deleteRow now t targets report s := by
            simp only [PhaseState.step, hpass]
          rw [hstep]
          exact sound_deleteRow h hpass
  | _ => simpa only [PhaseState.step, hpass] using h

/-- Every step keeps the invariant if it separates no target from its anchors. -/
theorem sound_step (h : Sound request s) {act : Act}
    (hundivided : s.Undivided rules request act) :
    Sound request (s.step rules request act) := by
  cases act with
  | beside op hop => exact sound_beside h hundivided
  | classify => exact sound_classify h
  | gate => exact sound_gate h
  | schedule now => exact sound_schedule h
  | delete => exact sound_delete h

/-! ## What a step deletes -/

/-- A mapping that the pass deletes is that of its next target. -/
theorem of_deletes {act : Act} {m : SourceSeries} (h : s.Deletes rules request act m) :
    ∃ now t targets report, s.pass = .deleting now (t :: targets) report ∧
      m ∈ s.catalog.db.sourceSeries ∧ m.id = t.sourceSeriesId := by
  obtain ⟨hact, hm, hgone⟩ := h
  rcases step_cases rules request s hact with
    ⟨hcatalog, -⟩ | ⟨now, t, targets, report, -, hpass, hstep⟩
  · rw [hcatalog] at hgone
    contradiction
  · refine ⟨now, t, targets, report, hpass, hm, ?_⟩
    by_contra hother
    rw [hstep] at hgone
    exact hgone (Table.mem_deleteWhere.mpr ⟨hm, decide_eq_false hother⟩)

/-- What is deleted is a duplicate. -/
theorem proven_of_deletes (h : Sound request s) {act : Act} {m : SourceSeries}
    (hdeletes : s.Deletes rules request act m) : s.Proven m := by
  obtain ⟨now, t, targets, report, hpass, hm, hid⟩ := of_deletes hdeletes
  have hpending : t ∈ s.pending request := by
    rw [PhaseState.pending, hpass]
    exact List.mem_cons_self
  exact h.proven t hpending m hm hid

/-- The anchor of what is deleted stays, on the same work. -/
theorem hasSource_step (h : Sound request s) {act : Act} (hact : act.ofPass = true)
    {w : Id} (hw : HasSource s.catalog.db w) :
    HasSource (s.step rules request act).catalog.db w := by
  obtain ⟨m, hm, rfl⟩ := hw
  by_cases hstays : m ∈ (s.step rules request act).catalog.db.sourceSeries
  · exact ⟨m, hstays, rfl⟩
  · have hdeletes : s.Deletes rules request act m := ⟨hact, hm, hstays⟩
    obtain ⟨now, t, targets, report, hpass, -, hid⟩ := of_deletes hdeletes
    obtain ⟨a, ha, ⟨hdirect, -⟩, hsame⟩ := proven_of_deletes h hdeletes
    obtain ⟨log, hlog⟩ := h.forwarded
    have hwork : a.workId = m.workId := by
      rw [← resolved_of_mem hlog ha, hsame, resolved_of_mem hlog hm]
    refine ⟨a, ?_, hwork⟩
    by_contra hgone
    obtain ⟨_, t', _, _, hpass', -, haid⟩ := of_deletes (⟨hact, ha, hgone⟩ :
      s.Deletes rules request act a)
    rw [hpass] at hpass'
    cases hpass'
    have hselected : t ∈ s.selected := by
      rw [PhaseState.selected, hpass]
      exact List.mem_cons_self
    have hmirrored := h.identified t hselected a ha haid
    simp [mirrored, hdirect] at hmirrored

/-- The statement looks for mappings with the key after the delete of one. -/
theorem claimsKey_step {act : Act} {r : ScanState} (hr : r ∈ s.seriesScanState)
    (hgone : r ∉ (s.step rules request act).seriesScanState) :
    claimsKey (s.step rules request act).catalog.db r.seriesId = false := by
  cases hact : act.ofPass with
  | false =>
      cases act with
      | beside op hop => exact absurd hr hgone
      | _ => contradiction
  | true =>
      rcases step_cases rules request s hact with
        ⟨-, hscan⟩ | ⟨now, t, targets, report, -, -, hstep⟩
      · rw [hscan] at hgone
        contradiction
      · rw [hstep] at hgone ⊢
        simp only [deleteRow, unschedule] at hgone ⊢
        split at hgone
        · contradiction
        · next hfree =>
            rw [Table.mem_deleteWhere, not_and, Bool.not_eq_false, decide_eq_true_eq]
              at hgone
            rw [hgone hr]
            simpa using hfree

end Steps

/-! ## A gate that fails

No row is deleted unless every row is proven. -/

/-- The pass has not read its gate. -/
def Pass.reading : Pass → Bool
  | .start | .classified _ => true
  | _ => false

/-- The pass will not delete any more: its gate has failures, or it is over. -/
def Pass.stopped : Pass → Bool
  | .gated _ gate => !gate.isClean
  | .returned _ | .refused .. => true
  | _ => false

/-- The step deletes nothing. -/
def PhaseState.DeletesNothing (rules : Rules) (request : Request) (s : PhaseState)
    (act : Act) : Prop :=
  ∀ m, ¬s.Deletes rules request act m

section Gate

variable {rules : Rules} {request : Request} {s : PhaseState} {act : Act}

/-- Before its gate the pass deletes nothing. -/
theorem deletesNothing_of_reading (h : s.pass.reading = true) :
    s.DeletesNothing rules request act := by
  intro m hdeletes
  obtain ⟨now, t, targets, report, hpass, -, -⟩ := of_deletes hdeletes
  rw [hpass] at h
  contradiction

theorem deletesNothing_of_stopped (h : s.pass.stopped = true) :
    s.DeletesNothing rules request act := by
  intro m hdeletes
  obtain ⟨now, t, targets, report, hpass, -, -⟩ := of_deletes hdeletes
  rw [hpass] at h
  contradiction

/-- The gate is read once. -/
theorem reading_of_step (h : (s.step rules request act).pass.reading = true) :
    s.pass.reading = true := by
  cases act with
  | beside op hop => exact h
  | classify =>
      cases hpass : s.pass with
      | start => rfl
      | _ => simpa only [PhaseState.step, hpass] using h
  | gate =>
      cases hpass : s.pass with
      | classified rows => rfl
      | _ => simpa only [PhaseState.step, hpass] using h
  | schedule now =>
      cases hpass : s.pass with
      | gated rows gate =>
          simp only [PhaseState.step, hpass, afterGate] at h
          split at h
          · contradiction
          · split at h <;> contradiction
      | _ => simpa only [PhaseState.step, hpass] using h
  | delete =>
      cases hpass : s.pass with
      | deleting now targets report =>
          cases targets <;> simp only [PhaseState.step, hpass] at h <;> contradiction
      | _ => simpa only [PhaseState.step, hpass] using h

/-- A pass that is stopped stays so. -/
theorem stopped_step (h : s.pass.stopped = true) :
    (s.step rules request act).pass.stopped = true := by
  cases act with
  | beside op hop => exact h
  | classify =>
      cases hpass : s.pass with
      | start =>
          rw [hpass] at h
          contradiction
      | _ => simpa only [PhaseState.step, hpass] using h
  | gate =>
      cases hpass : s.pass with
      | classified rows =>
          rw [hpass] at h
          contradiction
      | _ => simpa only [PhaseState.step, hpass] using h
  | schedule now =>
      cases hpass : s.pass with
      | gated rows gate =>
          have hdirty : (!gate.isClean) = true := by
            rw [hpass] at h
            exact h
          simp only [PhaseState.step, hpass, afterGate, hdirty, if_true]
          split <;> rfl
      | _ => simpa only [PhaseState.step, hpass] using h
  | delete =>
      cases hpass : s.pass with
      | deleting now targets report =>
          rw [hpass] at h
          contradiction
      | _ => simpa only [PhaseState.step, hpass] using h

/-- Up to its gate a pass deletes nothing. -/
theorem eachStep_of_reading {acts : List Act}
    (h : (Machine.run (PhaseState.step rules request) s acts).pass.reading = true) :
    s.pass.reading = true ∧ Machine.EachStep (PhaseState.step rules request)
      (PhaseState.DeletesNothing rules request) s acts := by
  induction acts generalizing s with
  | nil => exact ⟨h, trivial⟩
  | cons act acts ih =>
      obtain ⟨hnext, hrest⟩ := ih h
      have hnow : s.pass.reading = true := reading_of_step hnext
      exact ⟨hnow, deletesNothing_of_reading hnow, hrest⟩

theorem eachStep_of_stopped (h : s.pass.stopped = true) (acts : List Act) :
    Machine.EachStep (PhaseState.step rules request)
      (PhaseState.DeletesNothing rules request) s acts :=
  Machine.EachStep.of_invariant (I := fun s => s.pass.stopped = true)
    (fun _ _ h _ => stopped_step h) (fun _ _ h _ => deletesNothing_of_stopped h) h
    (Machine.eachStep_of_forall (P := fun _ => True) fun _ _ => trivial)

/-- A run whose gate finds a row that is not proven deletes nothing. -/
theorem deletesNothing_of_failure {before after : List Act} {rows : List ClassifiedRow}
    (hpass : (Machine.run (PhaseState.step rules request) s before).pass =
      .classified rows)
    (hfail : ∃ r ∈ (Machine.run (PhaseState.step rules request) s before).classified,
      r.verdict ≠ .redundant) :
    Machine.EachStep (PhaseState.step rules request)
      (PhaseState.DeletesNothing rules request) s (before ++ .gate :: after) := by
  have hreading :
      (Machine.run (PhaseState.step rules request) s before).pass.reading = true := by
    rw [hpass]
    rfl
  refine Machine.eachStep_append.mpr ⟨(eachStep_of_reading hreading).2, ?_⟩
  refine ⟨deletesNothing_of_reading hreading, eachStep_of_stopped ?_ after⟩
  generalize Machine.run (PhaseState.step rules request) s before = s' at hpass hfail
  obtain ⟨r, hr, hverdict⟩ := hfail
  simp only [PhaseState.step, hpass, Pass.stopped, Bool.not_eq_true']
  rw [← Bool.not_eq_true, isClean_gate_iff]
  exact fun hclean => hverdict (hclean r hr)

end Gate

/-! ## Runs -/

/-- What may have happened to the catalogue before: any of its steps, and the
deletes of earlier passes. -/
inductive Earlier where
  | step (op : Op)
  | deleted (sourceSeriesId : Id)

/-- One step of that past. -/
def Earlier.apply (rules : Rules) (catalog : CatalogState) : Earlier → CatalogState
  | .step op => catalog.step rules op
  | .deleted id => deleteMapping id catalog

/-- The catalogue after all that. -/
def past (rules : Rules) (earlier : List Earlier) : CatalogState :=
  Machine.run (Earlier.apply rules) .init earlier

/-- Whatever happened before, redirects are one hop. -/
theorem forwarded_past (rules : Rules) (earlier : List Earlier) :
    ∃ log, Forwarded log (past rules earlier) := by
  refine Machine.run_invariant (I := fun catalog => ∃ log, Forwarded log catalog)
    ?_ ⟨[], forwarded_init⟩ earlier
  rintro catalog event ⟨log, hlog⟩
  cases event with
  | step op => exact ⟨_, forwarded_step hlog⟩
  | deleted id => exact ⟨log, forwarded_deleteMapping hlog id⟩

/-- The tables a pass starts with. -/
def PhaseState.before (catalog : CatalogState) (uuids : Table AllMangadexUuid)
    (extensions : Table SourceExtension) (scanStates : Table ScanState) : PhaseState :=
  ⟨catalog, uuids, extensions, scanStates, .start⟩

/-- A pass that has not begun refers to nothing. -/
theorem sound_before {request : Request} {catalog : CatalogState} {log : List (Id × Id)}
    (h : Forwarded log catalog) (uuids : Table AllMangadexUuid)
    (extensions : Table SourceExtension) (scanStates : Table ScanState) :
    Sound request (.before catalog uuids extensions scanStates) where
  forwarded := ⟨log, h⟩
  identified _ ht := absurd ht List.not_mem_nil
  proven _ ht := absurd ht List.not_mem_nil

/-- **Phase F deletes only proven duplicates**, from any state and beside any
merges and splits, in every run in which no split comes between the gate and
the delete of a mapping and leaves it on another work than its anchors. -/
theorem safePass_of_undivided (rules : Rules) (request : Request)
    (earlier : List Earlier) (uuids : Table AllMangadexUuid)
    (extensions : Table SourceExtension) (scanStates : Table ScanState)
    (acts : List Act)
    (hundivided : Machine.EachStep (PhaseState.step rules request)
      (PhaseState.Undivided rules request)
      (.before (past rules earlier) uuids extensions scanStates) acts) :
    SafePass rules request
      (.before (past rules earlier) uuids extensions scanStates) acts := by
  obtain ⟨log, hlog⟩ := forwarded_past rules earlier
  have hsound : Sound request
      (.before (past rules earlier) uuids extensions scanStates) :=
    sound_before hlog uuids extensions scanStates
  have hstep : ∀ s act, Sound request s → s.Undivided rules request act →
      Sound request (s.step rules request act) := fun _ _ h hact => sound_step h hact
  refine {
    proven := ?_
    sourceStays := ?_
    gated := ?_
    scanStates := ?_ }
  · exact Machine.EachStep.of_invariant hstep
      (fun _ _ h _ _ hdeletes => proven_of_deletes h hdeletes) hsound hundivided
  · exact Machine.EachStep.of_invariant hstep
      (fun _ _ h _ hact _ hw => hasSource_step h hact hw) hsound hundivided
  · rintro before after rfl ⟨rows, hpass⟩ hfail
    exact deletesNothing_of_failure hpass hfail
  · exact hundivided.mono fun _ _ _ _ hr hgone => claimsKey_step hr hgone

/-! ## A mapping and its anchor -/

/-- Two works; the first has its MangaDex entry, and the same through the
extension. -/
def mirroredWork : List Earlier :=
  [.step (.createWork "w" (titled "dawn")), .step (.createWork "v" (titled "dusk")),
    .step (.upsertSourceSeries "s1" "w" "mangadex" "mangadex" "uuid" none false "t1"),
    .step (.upsertSourceSeries "s2" "w" "suwayomi" "249" "7" none false "t1")]

/-- The UUID of the second mapping. -/
def recordedUuids : Table AllMangadexUuid :=
  Table.empty.insertOrIgnore ⟨"s2", "uuid", none, none⟩

/-- The extension, with its one source. -/
def installed : Table SourceExtension :=
  Table.empty.insertOrIgnore ⟨"249", allMangadexPkg⟩

/-- The series of the mapping has a schedule. -/
def scanned : Table ScanState :=
  Table.empty.insertOrIgnore (Scan.Schema.pending "7")

/-- A request that is meant to delete. -/
def confirmedRequest : Request := ⟨.yes, some deleteConfirmToken, false⟩

/-- A merge in the middle of the pass takes both mappings. -/
def mergedPass : List Act :=
  [.classify, .gate, .beside (.mergeWorks "w" "v" none) rfl, .schedule "t2", .delete]

/-- The mapping and its anchor arrive on the same work. -/
theorem safePass_mergedPass :
    SafePass plainRules confirmedRequest
      (.before (past plainRules mirroredWork) recordedUuids installed scanned) mergedPass :=
  safePass_of_undivided plainRules confirmedRequest mirroredWork recordedUuids installed
    scanned mergedPass (by decide +kernel)

/-- A split that was pending when the gate was read takes the mapping alone. -/
def dividedPass : List Act :=
  [.beside (.planSplit "w" ["s2"]) rfl, .classify, .gate, .schedule "t2",
    .beside (.commitSplit 0 "n" none) rfl]

/-- Then the delete takes the only source of the new work. -/
theorem not_safePass_dividedPass :
    ¬SafePass plainRules confirmedRequest
      (.before (past plainRules mirroredWork) recordedUuids installed scanned)
      (dividedPass ++ [.delete]) := by
  intro h
  have hlast := (Machine.eachStep_append.mp h.sourceStays).2.1 rfl "n"
  have hbefore : ∃ r ∈ (Machine.run (PhaseState.step plainRules confirmedRequest)
      (.before (past plainRules mirroredWork) recordedUuids installed scanned)
      dividedPass).catalog.db.sourceSeries.rows, r.workId = "n" := by decide +kernel
  have hafter : ∀ r ∈ (PhaseState.step plainRules confirmedRequest
      (Machine.run (PhaseState.step plainRules confirmedRequest)
        (.before (past plainRules mirroredWork) recordedUuids installed scanned)
        dividedPass) .delete).catalog.db.sourceSeries.rows, r.workId ≠ "n" := by
    decide +kernel
  obtain ⟨r, hr, hwork⟩ := hlast hbefore
  exact hafter r hr hwork

end Komika.Catalog.PhaseF
