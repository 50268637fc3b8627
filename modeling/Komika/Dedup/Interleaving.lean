import Komika.Catalog.Anchors
import Komika.Catalog.LastSource
import Komika.Dedup.Enrolment

/-!
# Enrolments side by side

The matcher sees a minted work before its call knows whether it won the claim.
Another call may link to it, and a merge may fold a work into it; if the claim is
lost, the mappings go with the work.  And a call that fails leaves the work it
minted behind.  `enrolments_kept_iff` says that nothing else loses or orphans a
series.

What one call relies on (`Sound`) is stable under what the steps of the others may
do (`Steady`), so each statement is looked at once and alone.

* `steady_merge`, `steady_create`, `steady_reclaim`, `steady_claim`, `steady_propose` —
  what each write leaves of the mappings of others;
* `Sound.mono` — so a call keeps what it relies on;
* `moves_advance` — each statement of a call;
* `step_enrolled`, `step_kept_iff` — one step of a run;
* `enrolments_kept_iff` — every run, from every catalogue that the writers reach;
* `not_enrolmentsKept_threeCalls` — a work that is reclaimed with another call's mapping
  on it.
-/

namespace Komika.Dedup.Interleaving

open Komika.Lib Komika.Lib.Machine
open Komika.Catalog.Schema Komika.Catalog.Database Komika.Catalog.Ingest
open Komika.Catalog.Merge Komika.Catalog.Runs Komika.Catalog.Effects
open Komika.Catalog.Integrity Komika.Catalog.Redirects
open Komika.Catalog.Anchors (PlansKnown plansKnown_init plansKnown_step sameMapping_step)
open Komika.Catalog.Candidates (insertMergeCandidate propose_ok)
open Komika.Catalog.LastSource (HasSource)
open Komika.Catalog.Escalation (hasWork_markWorkNsfw isOk_ensureSourceSeries_iff)
open Komika.Dedup.Resolve Komika.Dedup.Enrolment

/-! ## The property

What a call that returned has promised. -/

/-- What holds of the calls that have returned. -/
structure EnrolmentsKept (s : EnrolState) : Prop where
  /-- The mapping of a call that returned `Ok` is there, once, and is the work's that the
  call reported, followed through `work_redirect`. -/
  reported : ∀ call result mintedWork, (call, Phase.returned result mintedWork) ∈ s.calls →
    ∃ r, s.catalog.db.sourceSeries.rows.filter (fun r => r.key = call.key) = [r] ∧
      r.workId = Forwarding.home (redirectWorkId s.catalog.db) result.workId
  /-- A work that a call minted, and that still exists, has a mapping. -/
  owned : ∀ call phase, (call, phase) ∈ s.calls → phase.done = true →
    ∀ w, phase.minted = some w → s.catalog.db.hasWork w = true →
      HasSource s.catalog.db w

/-- The step removes no mapping. -/
def KeepsMappings (rules : Rules) (s : EnrolState) (e : EnrolEvent) : Prop :=
  ∀ r ∈ s.catalog.db.sourceSeries,
    ∃ r' ∈ (step rules s e).catalog.db.sourceSeries, r'.id = r.id ∧ r'.key = r.key

/-- No mapping hangs off a work that its call reclaims, and none is missing from a work
that its call leaves behind. -/
def Undisturbed (s : EnrolState) : EnrolEvent → Prop
  | .call i _ => ∀ call phase, s.calls[i]? = some (call, phase) →
      ∀ w, phase.reclaims = some w → ¬HasSource s.catalog.db w
  | .fail i => ∀ call phase, s.calls[i]? = some (call, phase) → phase.done = false →
      ∀ w, phase.minted = some w → s.catalog.db.hasWork w = true →
        HasSource s.catalog.db w
  | .merge _ _ _ => True

/-! ## The catalogue

An invariant of the catalogue, which all of its writers keep. -/

/-- What the calls rely on: redirects are one hop, foreign keys hold, and the ids of
mappings were minted. -/
structure Healthy (c : CatalogState) : Prop where
  forwarded : ∃ log, Forwarded log c
  mapping_minted : ∀ r ∈ c.db.sourceSeries, r.id ∈ c.minted

section Catalogue

variable {rules : Rules} {c : CatalogState} {op : Op} {w : Id}

theorem Healthy.grounded (h : Healthy c) : Grounded c := by
  obtain ⟨log, hlog⟩ := h.forwarded
  exact hlog.grounded

/-- A live work is at home with itself. -/
theorem Healthy.home_of_hasWork (h : Healthy c) (hlive : c.db.hasWork w = true) :
    Forwarding.home (redirectWorkId c.db) w = w := by
  obtain ⟨log, hlog⟩ := h.forwarded
  exact Forwarding.home_of_none (hlog.redirect_of_hasWork hlive)

/-- Writes of the catalogue keep it. -/
theorem healthy_step (h : Healthy c) : Healthy (c.step rules op) where
  forwarded := by
    obtain ⟨log, hlog⟩ := h.forwarded
    exact ⟨_, forwarded_step hlog⟩
  mapping_minted r hr := by
    rcases sameMapping_step hr with ⟨old, hold, hsame⟩ | ⟨-, hnew⟩
    · rw [hsame.1]
      exact minted_subset_step (h.mapping_minted old hold)
    · exact hnew

theorem healthy_reach (rules : Rules) (ops : List Op) : Healthy (reach rules ops) := by
  have hplans : PlansKnown (reach rules ops) :=
    run_invariant (fun _ _ => plansKnown_step) plansKnown_init ops
  exact ⟨⟨_, forwarded_reach rules ops⟩, hplans.mapping_minted⟩

/-- A write that keeps the works, their mappings, claims, events and redirects. -/
theorem Healthy.of_same {db : Db} (h : Healthy c)
    (hwork : ∀ id, db.hasWork id = c.db.hasWork id)
    (hclaims : db.workExternalId = c.db.workExternalId)
    (hmappings : db.sourceSeries = c.db.sourceSeries)
    (hevents : db.releaseEvent = c.db.releaseEvent)
    (hredirects : db.workRedirect = c.db.workRedirect) :
    Healthy { c with db := db } := by
  have hlookup : redirectWorkId db = redirectWorkId c.db := by
    unfold redirectWorkId
    rw [hredirects]
  obtain ⟨log, hlog⟩ := h.forwarded
  refine ⟨⟨log, ?_⟩, fun r hr => h.mapping_minted r (hmappings ▸ hr)⟩
  constructor
  · exact grounded_of_same hlog.grounded hwork hclaims hmappings hevents
  · exact hlookup ▸ hlog.oneHop
  · exact hlookup ▸ hlog.agrees
  · intro x hx
    rw [hwork]
    exact hlog.retired x (hlookup ▸ hx)
  · intro x hx
    show Forwarding.home (redirectWorkId db) x ∈ c.minted
    rw [hlookup]
    exact hlog.home_minted x hx

end Catalogue

/-! ## What a step may do to the others

Steadiness is transitive, and each write has its lemma. -/

/-- The mapping with the key is the work's, followed. -/
def Owns (db : Db) (key : String × String × String) (w : Id) : Prop :=
  ∃ r ∈ db.sourceSeries, r.key = key ∧ r.workId = Forwarding.home (redirectWorkId db) w

/-- No id comes back to life, and every mapping is there afterwards, on its own work or
on the one that this was merged into. -/
structure Steady (c c' : CatalogState) : Prop where
  minted : c.minted ⊆ c'.minted
  live : ∀ w ∈ c.minted, c'.db.hasWork w = true → c.db.hasWork w = true
  moved : ∃ f : Id → Id,
    (∀ r ∈ c.db.sourceSeries, ∃ r' ∈ c'.db.sourceSeries,
      r'.id = r.id ∧ r'.key = r.key ∧ r'.workId = f r.workId) ∧
    (∀ w, Forwarding.home (redirectWorkId c'.db) w =
      f (Forwarding.home (redirectWorkId c.db) w)) ∧
    ∀ w, c'.db.hasWork w = true → f w = w

section Steadiness

variable {rules : Rules} {c c' : CatalogState} {op : Op} {w : Id}
  {key : String × String × String}

/-- No mapping of a work that is there is lost. -/
theorem Steady.kept (h : Steady c c') :
    ∀ r ∈ c.db.sourceSeries, ∃ r' ∈ c'.db.sourceSeries, r'.id = r.id ∧ r'.key = r.key := by
  intro r hr
  obtain ⟨f, hrows, -, -⟩ := h.moved
  obtain ⟨r', hr', hid, hkey, -⟩ := hrows r hr
  exact ⟨r', hr', hid, hkey⟩

/-- The mapping stays with its work, or goes where the work goes. -/
theorem Steady.owns (h : Steady c c') (howns : Owns c.db key w) : Owns c'.db key w := by
  obtain ⟨f, hrows, hhome, -⟩ := h.moved
  obtain ⟨r, hr, hkey, hwork⟩ := howns
  obtain ⟨r', hr', -, hkey', hwork'⟩ := hrows r hr
  refine ⟨r', hr', hkey'.trans hkey, ?_⟩
  rw [hwork', hwork, hhome]

/-- A work keeps a mapping, as long as it is there. -/
theorem Steady.hasSource (h : Steady c c') (hlive : c'.db.hasWork w = true)
    (hsource : HasSource c.db w) : HasSource c'.db w := by
  obtain ⟨f, hrows, -, hfix⟩ := h.moved
  obtain ⟨r, hr, rfl⟩ := hsource
  obtain ⟨r', hr', -, -, hwork⟩ := hrows r hr
  exact ⟨r', hr', hwork.trans (hfix _ hlive)⟩

/-- A step that moves no mapping and writes no redirect. -/
theorem Steady.of_stay (hminted : c.minted ⊆ c'.minted)
    (hlive : ∀ w ∈ c.minted, c'.db.hasWork w = true → c.db.hasWork w = true)
    (hrows : ∀ r ∈ c.db.sourceSeries, ∃ r' ∈ c'.db.sourceSeries,
      r'.id = r.id ∧ r'.key = r.key ∧ r'.workId = r.workId)
    (hredirects : c'.db.workRedirect = c.db.workRedirect) : Steady c c' := by
  refine ⟨hminted, hlive, id, hrows, fun w => ?_, fun _ _ => rfl⟩
  unfold redirectWorkId
  rw [hredirects]
  rfl

theorem Steady.refl (c : CatalogState) : Steady c c :=
  .of_stay (List.Subset.refl _) (fun _ _ h => h) (fun r hr => ⟨r, hr, rfl, rfl, rfl⟩) rfl

/-- A write that keeps works, mappings and redirects. -/
theorem steady_of_same {db : Db} (hwork : ∀ id, db.hasWork id = c.db.hasWork id)
    (hmappings : db.sourceSeries = c.db.sourceSeries)
    (hredirects : db.workRedirect = c.db.workRedirect) :
    Steady c { c with db := db } := by
  refine .of_stay (List.Subset.refl _) (fun w _ hlive => (hwork w).symm.trans hlive) ?_
    hredirects
  intro r hr
  exact ⟨r, hmappings.symm ▸ hr, rfl, rfl, rfl⟩

/-- A step of the catalogue other than a merge, if the mappings stay on their works. -/
theorem steady_step (h : Healthy c) (hmerge : c.merges rules op = none)
    (hrows : ∀ r ∈ c.db.sourceSeries, ∃ r' ∈ (c.step rules op).db.sourceSeries,
      r'.id = r.id ∧ r'.key = r.key ∧ r'.workId = r.workId) :
    Steady c (c.step rules op) := by
  refine .of_stay minted_subset_step ?_ hrows (step_workRedirect hmerge)
  intro w hw hlive
  rcases hasWork_of_step h.grounded hlive with hbefore | hnew
  · exact hbefore
  · exact absurd hw hnew

/-- A merge takes mappings along with their works. -/
theorem steady_merge (h : Healthy c) (source target : Id)
    (expected : Option (WorkIdentity × WorkIdentity)) :
    Steady c (c.step rules (.mergeWorks source target expected)) := by
  cases hmerge : c.merges rules (.mergeWorks source target expected) with
  | none =>
      have hsame : (c.step rules (.mergeWorks source target expected)).db = c.db := by
        rw [step_db_of_fresh (by rfl)]
        refine commit_cases (P := fun db => db = c.db) rfl fun outcome db' hok => ?_
        simp [CatalogState.merges, hok] at hmerge
      refine steady_step h hmerge fun r hr => ⟨r, ?_, rfl, rfl, rfl⟩
      rw [hsame]
      exact hr
  | some pair =>
      obtain ⟨log, hlog⟩ := h.forwarded
      have hmerge : c.merges rules (.mergeWorks source target expected) =
          some (pair.1, pair.2) := hmerge
      obtain ⟨hne, -, -, hdb⟩ := step_of_merges hmerge
      refine ⟨minted_subset_step, ?_, fun w => if w = pair.1 then pair.2 else w, ?_, ?_, ?_⟩
      · intro w hw hlive
        rw [hdb, hasWork_merged] at hlive
        exact hlive.1
      · intro r hr
        rw [hdb]
        refine ⟨_, (mem_sourceSeries_merged hne).mpr ⟨r, hr, rfl⟩, ?_, ?_, workId_moved r⟩
        · split <;> rfl
        · split <;> rfl
      · exact fun w => home_step_of_merges hlog hmerge w
      · intro w hlive
        rw [hdb, hasWork_merged] at hlive
        exact if_neg hlive.2

/-- Minting a work touches no mapping. -/
theorem steady_create (h : Healthy c) (call : Call) (o : Oracle) (sourceNsfw : Bool)
    (hfresh : c.fresh (call.create o sourceNsfw) = true) :
    Steady c (c.step rules (call.create o sourceNsfw)) := by
  have hsame : (c.step rules (call.create o sourceNsfw)).db.sourceSeries =
      c.db.sourceSeries := by
    rw [step_db_of_fresh hfresh]
    refine commit_congr Db.sourceSeries fun id db' hok => ?_
    obtain ⟨t, -, rfl⟩ := createWork_ok hok
    rfl
  refine steady_step h rfl fun r hr => ⟨r, ?_, rfl, rfl, rfl⟩
  rw [hsame]
  exact hr

/-- Reclaiming a work without mappings touches none. -/
theorem steady_reclaim (h : Healthy c) (hnone : ¬HasSource c.db w) :
    Steady c (c.step rules (.deleteWorkCascade w)) := by
  refine steady_step h rfl fun r hr => ⟨r, ?_, rfl, rfl, rfl⟩
  rw [step_db_of_fresh (by rfl)]
  refine mem_sourceSeries_deleteWorksExplicitly.mpr ⟨hr, decide_eq_false fun hon => ?_⟩
  exact hnone ⟨r, hr, hon⟩

/-- The work is gone. -/
theorem hasWork_reclaim :
    (c.step rules (.deleteWorkCascade w)).db.hasWork w = false := by
  rw [step_db_of_fresh (by rfl), ← Bool.not_eq_true]
  intro hlive
  have hnot := (hasWork_deleteWorksExplicitly.mp hlive).2
  simp at hnot

/-- A claim leaves every mapping on its work. -/
theorem steady_claim (h : Healthy c) (call : Call) (o : Oracle) (sourceNsfw : Bool)
    (hfresh : c.fresh (call.upsert o sourceNsfw w) = true) :
    Steady c (c.step rules (call.upsert o sourceNsfw w)) := by
  refine steady_step h rfl ?_
  rw [step_db_of_fresh hfresh]
  refine commit_cases (P := fun db => ∀ r ∈ c.db.sourceSeries, ∃ r' ∈ db.sourceSeries,
    r'.id = r.id ∧ r'.key = r.key ∧ r'.workId = r.workId)
    (fun r hr => ⟨r, hr, rfl, rfl, rfl⟩) fun id db' hok => ?_
  obtain ⟨t, rfl, ⟨-, ht⟩ | ⟨-, -, ht⟩⟩ := ensureSourceSeries_ok hok
  · intro r hr
    refine ⟨_, (ht _).mpr ⟨r, hr, rfl⟩, ?_⟩
    split <;> exact ⟨rfl, rfl, rfl⟩
  · exact fun r hr => ⟨r, (ht r).mpr (.inl hr), rfl, rfl, rfl⟩

theorem steady_markIf (sourceNsfw : Bool) : Steady c (markIf sourceNsfw w c) := by
  unfold markIf
  split
  · exact steady_of_same (fun id => hasWork_markWorkNsfw w id c.db) rfl rfl
  · exact .refl c

theorem healthy_markIf (h : Healthy c) (sourceNsfw : Bool) :
    Healthy (markIf sourceNsfw w c) := by
  unfold markIf
  split
  · exact h.of_same (fun id => hasWork_markWorkNsfw w id c.db) rfl rfl rfl rfl
  · exact h

/-- A proposal touches the queue only. -/
theorem steady_propose {newId ssid : Id} {out : Option Id} {db : Db} (h : Healthy c)
    (hok : insertMergeCandidate newId ssid w c.db = .ok (out, db)) :
    Steady c { c with db := db } ∧ Healthy { c with db := db } := by
  rcases propose_ok hok with rfl | ⟨t, rfl, -⟩
  · exact ⟨.refl c, h⟩
  · exact ⟨steady_of_same (fun _ => rfl) rfl rfl,
      h.of_same (fun _ => rfl) rfl rfl rfl rfl⟩

end Steadiness

/-! ## Where a call stands

What a phase relies on. -/

/-- What a call relies on at the phase it has come to. -/
structure Sound (c : CatalogState) (call : Call) (phase : Phase) : Prop where
  known : ∀ w, phase.minted = some w → w ∈ c.minted
  own : ∀ l, phase.unsettled = some l → ∀ w, l.mintedWork = some w → w = l.workId
  claimed : phase.claimed = true → ∃ r ∈ c.db.sourceSeries, r.key = call.key
  owns : ∀ w, phase.owner = some w → Owns c.db call.key w
  accounted : phase.unsettled = none → ∀ w, phase.minted = some w →
    c.db.hasWork w = true → HasSource c.db w

section Soundness

variable {rules : Rules} {c c' : CatalogState} {call : Call} {phase : Phase} {w : Id}

/-- What the others do takes nothing from a call. -/
theorem Sound.mono (h : Sound c call phase) (hsteady : Steady c c') :
    Sound c' call phase where
  known w hw := hsteady.minted (h.known w hw)
  own := h.own
  claimed hclaimed := by
    obtain ⟨r, hr, hkey⟩ := h.claimed hclaimed
    obtain ⟨r', hr', -, hkey'⟩ := hsteady.kept r hr
    exact ⟨r', hr', hkey'.trans hkey⟩
  owns w hw := hsteady.owns (h.owns w hw)
  accounted hsettled w hw hlive :=
    hsteady.hasSource hlive
      (h.accounted hsettled w hw (hsteady.live w (h.known w hw) hlive))

/-- A phase of a call that has minted nothing and will mint nothing. -/
theorem sound_of_unminted (hminted : phase.minted = none) (hunsettled : phase.unsettled = none)
    (hclaimed : phase.claimed = true → ∃ r ∈ c.db.sourceSeries, r.key = call.key)
    (howner : ∀ v, phase.owner = some v → Owns c.db call.key v) :
    Sound c call phase := by
  constructor
  · intro v hv
    rw [hminted] at hv
    contradiction
  · intro l hl
    rw [hunsettled] at hl
    contradiction
  · exact hclaimed
  · exact howner
  · intro _ v hv
    rw [hminted] at hv
    contradiction

/-- A phase in which the call has not come to the claim. -/
theorem sound_of_idle (hminted : phase.minted = none) (hunsettled : phase.unsettled = none)
    (hclaimed : phase.claimed = false) (howner : phase.owner = none) :
    Sound c call phase := by
  refine sound_of_unminted hminted hunsettled (fun h => ?_) fun v hv => ?_
  · rw [hclaimed] at h
    contradiction
  · rw [howner] at hv
    contradiction

/-- A phase before the claim is settled. -/
theorem sound_of_unsettled {l : Linkage} (hminted : phase.minted = l.mintedWork)
    (hunsettled : phase.unsettled = some l)
    (hknown : ∀ v, l.mintedWork = some v → v ∈ c.minted ∧ v = l.workId)
    (hclaimed : phase.claimed = true → ∃ r ∈ c.db.sourceSeries, r.key = call.key)
    (howner : ∀ v, phase.owner = some v → Owns c.db call.key v) :
    Sound c call phase := by
  constructor
  · exact fun v hv => (hknown v (hminted.symm.trans hv)).1
  · intro l' hl' v hv
    have heq : l = l' := Option.some.inj (hunsettled.symm.trans hl')
    subst heq
    exact (hknown v hv).2
  · exact hclaimed
  · exact howner
  · intro hnone
    rw [hunsettled] at hnone
    contradiction

/-- A phase past the claim, of a call that has found the owner of its mapping. -/
theorem sound_of_owns {mintedWork : Option Id} (hminted : phase.minted = mintedWork)
    (hunsettled : phase.unsettled = none) (hclaimed : phase.claimed = false)
    (howner : ∀ v, phase.owner = some v → Owns c.db call.key v)
    (hknown : ∀ v, mintedWork = some v → v ∈ c.minted)
    (haccounted : ∀ v, mintedWork = some v → c.db.hasWork v = true → HasSource c.db v) :
    Sound c call phase := by
  constructor
  · intro v hv
    exact hknown v (hminted.symm.trans hv)
  · intro l hl
    rw [hunsettled] at hl
    contradiction
  · intro h
    rw [hclaimed] at h
    contradiction
  · exact howner
  · intro _ v hv
    exact haccounted v (hminted.symm.trans hv)

/-- The work that a mapping is read with owns it. -/
theorem owns_of_findSourceSeries (h : Healthy c) {key : String × String × String}
    {ssid : Id} (hfind : findSourceSeries c.db key = some (ssid, w)) :
    Owns c.db key w := by
  obtain ⟨r, hr, hkey, rfl⟩ := mem_of_findSourceSeries hfind
  exact ⟨r, hr, hkey, (h.home_of_hasWork (h.grounded.linked.mappings r hr)).symm⟩

/-- What a claim leaves. -/
theorem ensureSourceSeries_cases (rules : Rules) (h : Healthy c) (o : Oracle) (sourceNsfw : Bool)
    (hfresh : c.fresh (call.upsert o sourceNsfw w) = true) :
    (∃ ssid db', ensureSourceSeries (call.row o sourceNsfw w) o.now c.db = .ok (ssid, db') ∧
      ∃ r ∈ (c.step rules (call.upsert o sourceNsfw w)).db.sourceSeries, r.key = call.key) ∨
    (∃ e, ensureSourceSeries (call.row o sourceNsfw w) o.now c.db = .error e) ∧
      c.db.hasWork w = false ∧
        (c.step rules (call.upsert o sourceNsfw w)).db = c.db := by
  have hdb : (c.step rules (call.upsert o sourceNsfw w)).db =
      c.db.commit (ensureSourceSeries (call.row o sourceNsfw w) o.now c.db) :=
    step_db_of_fresh hfresh
  cases hresult : ensureSourceSeries (call.row o sourceNsfw w) o.now c.db with
  | ok result =>
      refine .inl ⟨result.1, result.2, rfl, ?_⟩
      rw [hdb, hresult]
      obtain ⟨id, db'⟩ := result
      obtain ⟨t, ht, hrows⟩ := ensureSourceSeries_ok hresult
      show ∃ r ∈ db'.sourceSeries, r.key = call.key
      rw [ht]
      rcases hrows with ⟨⟨r, hr, hkey⟩, ht⟩ | ⟨-, -, ht⟩
      · refine ⟨_, (ht _).mpr ⟨r, hr, rfl⟩, ?_⟩
        rw [if_pos hkey]
        exact hkey
      · exact ⟨_, (ht _).mpr (.inr rfl), rfl⟩
  | error e =>
      refine .inr ⟨⟨e, rfl⟩, ?_, ?_⟩
      · rw [← Bool.not_eq_true]
        intro hlive
        -- a new id and a live work leave a claim nothing to fail on
        have hok := (isOk_ensureSourceSeries_iff (call.row o sourceNsfw w) o.now hlive).mpr
          (.inr fun r hr heq => ?_)
        · rw [hresult] at hok
          contradiction
        · have hnew : o.newSourceSeriesId ∉ c.minted := by
            simpa [CatalogState.fresh, Call.upsert, Op.mints] using hfresh
          have hid : r.id = o.newSourceSeriesId := heq
          exact hnew (hid ▸ h.mapping_minted r hr)
      · rw [hdb, hresult]
        rfl

end Soundness

/-! ## The statements

One lemma for each kind of statement, and all of them together. -/

/-- A statement that takes a call from the catalogue `c` to what it returns. -/
structure Moves (c : CatalogState) (call : Call) (r : CatalogState × Phase) : Prop where
  steady : Steady c r.1
  healthy : Healthy r.1
  sound : Sound r.1 call r.2

section Statements

variable {rules : Rules} {c : CatalogState} {call : Call} {o : Oracle} {phase : Phase}
  {w : Id}

/-- A read. -/
theorem moves_of_read (h : Healthy c) (hsound : Sound c call phase) :
    Moves c call (c, phase) := ⟨.refl c, h, hsound⟩

/-- A call mints the work that it is going to link. -/
theorem moves_mint (h : Healthy c) {sourceNsfw : Bool} {verdict : Decision}
    (hsound : Sound c call (.minting sourceNsfw verdict)) :
    Moves c call (call.advance rules o c (.minting sourceNsfw verdict)) := by
  unfold Call.advance
  dsimp only
  split
  · next hfresh =>
      have hsteady : Steady c (c.step rules (call.create o sourceNsfw)) :=
        steady_create h call o sourceNsfw hfresh
      refine ⟨hsteady, healthy_step h, ?_⟩
      dsimp only
      split
      · next workId db hok =>
          obtain rfl : workId = o.newWorkId := outId_of_createWork hok
          refine sound_of_unsettled rfl rfl (fun v hv => ?_) (fun h => by contradiction)
            fun v hv => by contradiction
          rw [provisional_mintedWork] at hv
          obtain rfl : o.newWorkId = v := Option.some.inj hv
          refine ⟨?_, (provisional_workId verdict).symm⟩
          unfold CatalogState.step
          rw [if_pos hfresh]
          exact List.mem_append_left _ (List.mem_singleton_self _)
      · exact sound_of_idle rfl rfl rfl rfl
  · exact moves_of_read h hsound

/-- The claim, which is won or finds the mapping of another. -/
theorem moves_claim (h : Healthy c) {sourceNsfw : Bool} {mintedWork : Option Id}
    {waiting : Phase} {next : Id → Phase} (hwaiting : Sound c call waiting)
    (hnext : ∀ ssid c', Steady c c' → (∃ r ∈ c'.db.sourceSeries, r.key = call.key) →
      Sound c' call (next ssid))
    (hfailed : ∀ c', Steady c c' → c'.db.hasWork w = false →
      Sound c' call (.failed mintedWork)) :
    Moves c call (call.claim rules o c sourceNsfw w mintedWork waiting next) := by
  unfold Call.claim
  split
  · next hfresh =>
      have hsteady : Steady c (c.step rules (call.upsert o sourceNsfw w)) :=
        steady_claim h call o sourceNsfw hfresh
      refine ⟨hsteady, healthy_step h, ?_⟩
      rcases ensureSourceSeries_cases rules h o sourceNsfw hfresh with
        ⟨ssid, db', hok, hrow⟩ | ⟨⟨e, herr⟩, hdead, hsame⟩
      · rw [hok]
        exact hnext ssid _ hsteady hrow
      · rw [herr]
        refine hfailed _ hsteady ?_
        rw [hsame]
        exact hdead
  · exact moves_of_read h hwaiting

/-- The re-check finds the owner of the mapping; a call whose own work it is not either
has one to reclaim, or minted none. -/
theorem sound_recheck (h : Healthy c) {sourceNsfw : Bool} {l : Linkage} {ssid : Id}
    (hsound : Sound c call (.linked sourceNsfw l ssid)) :
    Sound c call (call.recheck c.db sourceNsfw l ssid) := by
  have hown := hsound.own l rfl
  unfold Call.recheck
  split
  · next hnone =>
      obtain ⟨r, hr, hkey⟩ := hsound.claimed rfl
      exact absurd hkey (findSourceSeries_eq_none.mp hnone r hr)
  · next id stored hfind =>
      have howns := owns_of_findSourceSeries h hfind
      split
      · next heq =>
          obtain ⟨r, hr, -, hwork⟩ := mem_of_findSourceSeries hfind
          refine sound_of_owns rfl rfl rfl ?_ hsound.known fun v hv _ => ?_
          · rintro v ⟨⟩
            exact heq ▸ howns
          · exact ⟨r, hr, hwork.trans (heq.trans (hown v hv).symm)⟩
      · split
        · refine sound_of_unsettled rfl rfl
            (fun v hv => ⟨hsound.known v hv, hown v hv⟩) (fun h => by contradiction) ?_
          rintro v ⟨⟩
          exact howns
        · next hnot =>
            have hnone : l.mintedWork = none := by
              cases hminted : l.mintedWork with
              | none => rfl
              | some v => exact absurd (hown v hminted ▸ hminted) hnot
            refine sound_of_unminted hnone rfl (fun h => by contradiction) ?_
            rintro v ⟨⟩
            exact howns

/-- The loser of a claim reclaims the work it minted. -/
theorem moves_reclaim (h : Healthy c) {sourceNsfw : Bool} {l : Linkage} {ssid stored : Id}
    (hsound : Sound c call (.lost sourceNsfw l ssid stored))
    (hunmapped : ¬HasSource c.db l.workId) :
    Moves c call (c.step rules (.deleteWorkCascade l.workId),
      .settled sourceNsfw (l.adopt stored) ssid) := by
  have hsteady : Steady c (c.step rules (.deleteWorkCascade l.workId)) :=
    steady_reclaim h hunmapped
  have hhealthy : Healthy (c.step rules (.deleteWorkCascade l.workId)) := healthy_step h
  refine ⟨hsteady, hhealthy, sound_of_owns rfl rfl rfl ?_ ?_ ?_⟩
  · rintro v ⟨⟩
    exact hsteady.owns (hsound.owns stored rfl)
  · exact fun v hv => hsteady.minted (hsound.known v hv)
  · intro v hv hlive
    rw [hsound.own l rfl v hv, hasWork_reclaim] at hlive
    contradiction

/-- The last statement proposes the match to a reviewer. -/
theorem moves_propose (h : Healthy c) {l : Linkage} {ssid : Id}
    (hsound : Sound c call (.marked l ssid)) :
    Moves c call (call.advance rules o c (.marked l ssid)) := by
  have hreturned : ∀ c', Steady c c' →
      Sound c' call (.returned (l.result ssid) l.mintedWork) := by
    intro c' hsteady
    have hmono := hsound.mono hsteady
    exact sound_of_owns rfl rfl rfl hmono.owns hmono.known (hmono.accounted rfl)
  unfold Call.advance
  dsimp only
  split
  · exact moves_of_read h (hreturned c (.refl c))
  · split
    · next hok =>
        obtain ⟨hsteady, hhealthy⟩ := steady_propose h hok
        exact ⟨hsteady, hhealthy, hreturned _ hsteady⟩
    · refine moves_of_read h (sound_of_owns rfl rfl rfl ?_ hsound.known
        (hsound.accounted rfl))
      rintro v ⟨⟩

/-- **Every statement of a call, one by one.**  It leaves the catalogue to the others, and
the call with what it relies on. -/
theorem moves_advance (h : Healthy c) (hsound : Sound c call phase)
    (hunmapped : ∀ w, phase.reclaims = some w → ¬HasSource c.db w) :
    Moves c call (call.advance rules o c phase) := by
  cases phase with
  | entered =>
      unfold Call.advance
      dsimp only
      split
      · next ssid workId hfind =>
          refine moves_of_read h
            (sound_of_unminted rfl rfl (fun h => by contradiction) ?_)
          rintro v ⟨⟩
          exact owns_of_findSourceSeries h hfind
      · exact moves_of_read h (sound_of_idle rfl rfl rfl rfl)
  | unlinked => exact moves_of_read h (sound_of_idle rfl rfl rfl rfl)
  | flagged sourceNsfw =>
      unfold Call.advance
      dsimp only
      split <;> exact moves_of_read h (sound_of_idle rfl rfl rfl rfl)
  | anchored sourceNsfw workId =>
      exact moves_claim h hsound
        (fun ssid c' _ hrow =>
          sound_of_unminted rfl rfl (fun _ => hrow) fun v hv => by contradiction)
        fun c' _ _ => sound_of_idle rfl rfl rfl rfl
  | anchorLinked sourceNsfw workId ssid =>
      have hsteady : Steady c (markIf sourceNsfw workId c) := steady_markIf sourceNsfw
      have hmono := hsound.mono hsteady
      exact ⟨hsteady, healthy_markIf h sourceNsfw,
        sound_of_unminted rfl rfl (fun _ => hmono.claimed rfl) fun v hv => by contradiction⟩
  | anchorMarked workId ssid =>
      obtain ⟨r, hr, hkey⟩ := hsound.claimed rfl
      refine moves_of_read h
        (sound_of_unminted rfl rfl (fun h => by contradiction) ?_)
      rintro v ⟨⟩
      cases hfind : findSourceSeries c.db call.key with
      | none => exact absurd hkey (findSourceSeries_eq_none.mp hfind r hr)
      | some found => exact owns_of_findSourceSeries h (hfind : _ = some (found.1, found.2))
  | unanchored sourceNsfw =>
      unfold Call.advance
      dsimp only
      split
      · next l hreuse =>
          refine moves_of_read h (sound_of_unsettled rfl rfl (fun v hv => ?_)
            (fun h => by contradiction) fun v hv => by contradiction)
          rw [mintedWork_of_reuse hreuse] at hv
          contradiction
      · exact moves_of_read h (sound_of_idle rfl rfl rfl rfl)
  | minting sourceNsfw verdict => exact moves_mint h hsound
  | linking sourceNsfw l =>
      have hown := hsound.own l rfl
      refine moves_claim h hsound (fun ssid c' hsteady hrow => ?_) fun c' hsteady hdead => ?_
      · exact sound_of_unsettled rfl rfl
          (fun v hv => ⟨hsteady.minted (hsound.known v hv), hown v hv⟩) (fun _ => hrow)
          fun v hv => by contradiction
      · refine sound_of_owns rfl rfl rfl (fun v hv => by contradiction)
          (fun v hv => hsteady.minted (hsound.known v hv)) fun v hv hlive => ?_
        rw [hown v hv, hdead] at hlive
        contradiction
  | linked sourceNsfw l ssid => exact moves_of_read h (sound_recheck h hsound)
  | lost sourceNsfw l ssid stored => exact moves_reclaim h hsound (hunmapped _ rfl)
  | settled sourceNsfw l ssid =>
      have hsteady : Steady c (markIf sourceNsfw l.workId c) := steady_markIf sourceNsfw
      have hmono := hsound.mono hsteady
      exact ⟨hsteady, healthy_markIf h sourceNsfw,
        sound_of_owns rfl rfl rfl hmono.owns hmono.known (hmono.accounted rfl)⟩
  | marked l ssid => exact moves_propose h hsound
  | returned result mintedWork => exact moves_of_read h hsound
  | failed mintedWork => exact moves_of_read h hsound

end Statements

/-! ## Steps

One event of a run: the others stand where they stood. -/

/-- What holds of the catalogue and of every call. -/
structure Enrolled (s : EnrolState) : Prop where
  healthy : Healthy s.catalog
  sound : ∀ call phase, (call, phase) ∈ s.calls → Sound s.catalog call phase

section Steps

variable {rules : Rules} {s : EnrolState} {e : EnrolEvent}

/-- No call relies on anything yet. -/
theorem enrolled_start {c : CatalogState} (h : Healthy c) (calls : List Call) :
    Enrolled (start c calls) := by
  refine ⟨h, fun call phase hmem => ?_⟩
  obtain ⟨call', -, heq⟩ := List.mem_map.mp hmem
  obtain ⟨rfl, rfl⟩ := Prod.mk.inj heq
  exact sound_of_idle rfl rfl rfl rfl

theorem kept_start (c : CatalogState) (calls : List Call) :
    EnrolmentsKept (start c calls) := by
  have hentered : ∀ call phase, (call, phase) ∈ (start c calls).calls →
      phase = .entered := by
    intro call phase hmem
    obtain ⟨call', -, heq⟩ := List.mem_map.mp hmem
    exact (Prod.mk.inj heq).2.symm
  constructor
  · intro call result mintedWork hmem
    have heq := hentered _ _ hmem
    contradiction
  · intro call phase hmem hdone
    rw [hentered _ _ hmem] at hdone
    contradiction

/-- The mapping of a returned call is one row, of the work reported. -/
theorem kept_of_enrolled (h : Enrolled s) : EnrolmentsKept s where
  reported call result mintedWork hmem := by
    obtain ⟨r, hr, hkey, hwork⟩ := (h.sound _ _ hmem).owns _ rfl
    refine ⟨r, Table.filter_eq_singleton hr (decide_eq_true hkey) fun a b ha hb => ?_, hwork⟩
    exact decide_eq_true (.inr ((of_decide_eq_true ha).trans (of_decide_eq_true hb).symm))
  owned call phase hmem hdone w hw hlive := by
    refine (h.sound _ _ hmem).accounted ?_ w hw hlive
    cases phase <;> first | rfl | contradiction

/-- One call has gone on, and the others stand where they stood. -/
theorem enrolled_set {c : CatalogState} {i : Nat} {call : Call} {phase : Phase}
    (h : Enrolled s) (hsteady : Steady s.catalog c) (hhealthy : Healthy c)
    (hsound : Sound c call phase) : Enrolled ⟨c, s.calls.set i (call, phase)⟩ := by
  refine ⟨hhealthy, fun call' phase' hmem => ?_⟩
  rcases List.mem_or_eq_of_mem_set hmem with hold | heq
  · exact (h.sound _ _ hold).mono hsteady
  · obtain ⟨rfl, rfl⟩ := Prod.mk.inj heq
    exact hsound

/-- A call that fails has left its work with a mapping, or has none. -/
theorem sound_fail {c : CatalogState} {call : Call} {phase : Phase}
    (h : Sound c call phase)
    (haccounted : phase.done = false → ∀ w, phase.minted = some w →
      c.db.hasWork w = true → HasSource c.db w) : Sound c call phase.fail := by
  cases hdone : phase.done with
  | true =>
      rw [fail_of_done hdone]
      exact h
  | false =>
      rw [fail_of_not_done hdone]
      exact sound_of_owns rfl rfl rfl (fun v hv => by contradiction) h.known
        (haccounted hdone)

/-- An undisturbed step is steady, and keeps what all calls rely on. -/
theorem step_enrolled (h : Enrolled s) (hundisturbed : Undisturbed s e) :
    Steady s.catalog (step rules s e).catalog ∧ Enrolled (step rules s e) := by
  cases e with
  | call i o =>
      cases hcall : s.calls[i]? with
      | none =>
          have hstep : step rules s (.call i o) = s := by simp [step, hcall]
          rw [hstep]
          exact ⟨.refl _, h⟩
      | some entry =>
          obtain ⟨call, phase⟩ := entry
          have hmoves : Moves s.catalog call (call.advance rules o s.catalog phase) :=
            moves_advance h.healthy (h.sound _ _ (List.mem_of_getElem? hcall))
              (hundisturbed call phase hcall)
          rw [step_call hcall]
          exact ⟨hmoves.steady, enrolled_set h hmoves.steady hmoves.healthy hmoves.sound⟩
  | fail i =>
      cases hcall : s.calls[i]? with
      | none =>
          have hstep : step rules s (.fail i) = s := by simp [step, hcall]
          rw [hstep]
          exact ⟨.refl _, h⟩
      | some entry =>
          obtain ⟨call, phase⟩ := entry
          rw [step_fail hcall]
          refine ⟨.refl _, enrolled_set h (.refl _) h.healthy ?_⟩
          exact sound_fail (h.sound _ _ (List.mem_of_getElem? hcall))
            (hundisturbed call phase hcall)
  | merge source target expected =>
      have hsteady : Steady s.catalog
          (s.catalog.step rules (.mergeWorks source target expected)) :=
        steady_merge h.healthy source target expected
      have hhealthy : Healthy
          (s.catalog.step rules (.mergeWorks source target expected)) :=
        healthy_step h.healthy
      exact ⟨hsteady, hhealthy, fun call phase hmem => (h.sound call phase hmem).mono hsteady⟩

/-- A reclaimed work takes its mappings along. -/
theorem unmapped_of_keepsMappings {i : Nat} {o : Oracle} {call : Call} {phase : Phase}
    {w : Id} (hcall : s.calls[i]? = some (call, phase)) (hreclaims : phase.reclaims = some w)
    (hkeeps : KeepsMappings rules s (.call i o)) : ¬HasSource s.catalog.db w := by
  cases phase with
  | lost sourceNsfw l ssid stored =>
      obtain rfl : l.workId = w := Option.some.inj hreclaims
      rintro ⟨r, hr, hwork⟩
      obtain ⟨r', hr', hid, -⟩ := hkeeps r hr
      have hafter : r' ∈
          (deleteWorksExplicitly (fun id => id = l.workId) s.catalog.db).sourceSeries := by
        rw [step_call hcall] at hr'
        exact hr'
      obtain ⟨hbefore, hoff⟩ := mem_sourceSeries_deleteWorksExplicitly.mp hafter
      have heq : r' = r := Table.eq_of_clash hbefore hr (decide_eq_true (.inl hid))
      rw [heq] at hoff
      exact of_decide_eq_false hoff hwork
  | _ => contradiction

/-- What a step must not do. -/
theorem step_kept_iff (h : Enrolled s) :
    KeepsMappings rules s e ∧ EnrolmentsKept (step rules s e) ↔ Undisturbed s e := by
  constructor
  · rintro ⟨hkeeps, hkept⟩
    cases e with
    | call i o =>
        intro call phase hcall w hreclaims
        exact unmapped_of_keepsMappings hcall hreclaims hkeeps
    | fail i =>
        intro call phase hcall hdone w hminted hlive
        rw [step_fail hcall, fail_of_not_done hdone] at hkept
        obtain ⟨hi, -⟩ := List.getElem?_eq_some_iff.mp hcall
        exact hkept.owned call _ (List.mem_set hi _) rfl w hminted hlive
    | merge source target expected => trivial
  · intro hundisturbed
    obtain ⟨hsteady, henrolled⟩ := step_enrolled h hundisturbed
    exact ⟨hsteady.kept, kept_of_enrolled henrolled⟩

end Steps

/-- **Enrolments lose and orphan nothing, unless one reclaims a work that has come to have
mappings, or fails and leaves a work without one.**  From every reachable catalogue, and
in every interleaving of any calls with each other and with merges: no step removes a
mapping, and in every state the calls that have returned `Ok` reported the owner of their
mapping and those that have returned at all left no work without one, exactly if every
step is undisturbed. -/
theorem enrolments_kept_iff (rules : Rules) (ops : List Op) (calls : List Call)
    (events : List EnrolEvent) :
    (EachStep (step rules) (KeepsMappings rules) (start (reach rules ops) calls) events ∧
      Always (step rules) EnrolmentsKept (start (reach rules ops) calls) events) ↔
    EachStep (step rules) Undisturbed (start (reach rules ops) calls) events := by
  have hkept := kept_start (reach rules ops) calls
  have henrolled := enrolled_start (healthy_reach rules ops) calls
  rw [always_iff_after, and_iff_right hkept, ← eachStep_and]
  refine eachStep_congr_of_invariant (fun s e h hundisturbed => ?_) (fun s e h => ?_)
    henrolled
  · exact (step_enrolled h hundisturbed).2
  · exact step_kept_iff h

/-! ## Three calls for two series

The third call links to the work that the first has minted and is going to reclaim. -/

/-- The event, with the verdict of a matcher that sees the catalogue as it is. -/
def answered (dedup : DedupRules) (order : HashOrder) (s : EnrolState) :
    EnrolEvent → EnrolEvent
  | .call i o =>
      match s.calls[i]? with
      | none => .call i o
      | some (call, _) =>
          .call i { o with
            verdict := resolveEx dedup order s.catalog.db call.candidate none }
  | e => e

/-- The answers that the functions of the model give. -/
def answeredStep (rules : Rules) (dedup : DedupRules) (order : HashOrder)
    (s : EnrolState) (e : EnrolEvent) : EnrolState :=
  step rules s (answered dedup order s e)

/-- The run with these verdicts. -/
def answeredRun (rules : Rules) (dedup : DedupRules) (order : HashOrder) :
    EnrolState → List EnrolEvent → List EnrolEvent
  | _, [] => []
  | s, e :: es =>
      answered dedup order s e :: answeredRun rules dedup order
        (answeredStep rules dedup order s e) es

/-- A run with these answers is a run. -/
theorem run_answeredRun (rules : Rules) (dedup : DedupRules) (order : HashOrder)
    (s : EnrolState) (es : List EnrolEvent) :
    run (step rules) s (answeredRun rules dedup order s es) =
      run (answeredStep rules dedup order) s es := by
  induction es generalizing s with
  | nil => rfl
  | cons e es ih => exact ih _

/-- A series with this id, of a source of its own. -/
def dungeon (id : Int) (sourceId : String) : Call where
  m :=
    { id := id, title := "dungeon", url := none, author := none, artist := none
      description := none, genre := [], status := "ONGOING", sourceId := sourceId }
  coverPhash := none
  consolidate := false

/-- The next statement of a call, with the ids it may mint. -/
def statement (i : Nat) (newWorkId newSourceSeriesId : Id) : EnrolEvent :=
  .call i ⟨newWorkId, newSourceSeriesId, "mc", "", false, .new⟩

/-- A statement that mints nothing. -/
def read (i : Nat) : EnrolEvent := statement i "" ""

/-- Two calls for one series find no work; the second mints one, and a third call links its
own series to it; then the first mints, claims and returns, and the second finds its claim
lost and reclaims the work. -/
def lostRun : List EnrolEvent :=
  [read 0, read 0, read 0, read 0, read 1, read 1, read 1, read 1, statement 1 "w2" "",
    read 2, read 2, read 2, read 2, statement 2 "" "ss3", read 2, read 2, read 2,
    statement 0 "w1" "", statement 0 "" "ss1", read 0, read 0, read 0,
    statement 1 "" "ss2", read 1, read 1, read 1, read 1]

/-- Two calls for one series, and one that links to what they mint. -/
def threeCalls : EnrolState :=
  start (reach plainRules []) [dungeon 1 "a", dungeon 1 "a", dungeon 2 "b"]

/-- The run, with the matcher's verdicts. -/
def lostEvents : List EnrolEvent :=
  answeredRun plainRules plainDedupRules listOrder threeCalls lostRun

/-- The call has returned `Ok`. -/
def isOk : Phase → Bool
  | .returned _ _ => true
  | _ => false

/-- All three return `Ok`, and the third has lost its mapping. -/
theorem not_enrolmentsKept_threeCalls :
    ((run (step plainRules) threeCalls lostEvents).calls.all fun c => isOk c.2) = true ∧
      ¬EnrolmentsKept (run (step plainRules) threeCalls lostEvents) := by
  have hrun : run (step plainRules) threeCalls lostEvents =
      run (answeredStep plainRules plainDedupRules listOrder) threeCalls lostRun :=
    run_answeredRun _ _ _ _ _
  have hok : (run (answeredStep plainRules plainDedupRules listOrder) threeCalls
      lostRun).calls.all (fun c => isOk c.2) = true := by decide +kernel
  have hthird : (run (answeredStep plainRules plainDedupRules listOrder) threeCalls
      lostRun).calls.any
        (fun c => decide (c.1.key = ("suwayomi", "b", "2")) && isOk c.2) = true := by
    decide +kernel
  have hgone : (run (answeredStep plainRules plainDedupRules listOrder) threeCalls
      lostRun).catalog.db.sourceSeries.rows.filter
        (fun r => r.key = ("suwayomi", "b", "2")) = [] := by decide +kernel
  rw [hrun]
  refine ⟨hok, fun h => ?_⟩
  obtain ⟨⟨call, phase⟩, hmem, hcall⟩ := List.any_eq_true.mp hthird
  simp only [Bool.and_eq_true, decide_eq_true_eq] at hcall
  obtain ⟨hkey, hreturned⟩ := hcall
  cases phase with
  | returned result mintedWork =>
      obtain ⟨r, hrows, -⟩ := h.reported call result mintedWork hmem
      rw [hkey, hgone] at hrows
      contradiction
  | _ => contradiction

end Komika.Dedup.Interleaving
