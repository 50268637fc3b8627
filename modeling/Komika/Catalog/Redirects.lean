import Komika.Lib.Forwarding
import Komika.Catalog.Integrity

/-!
# Redirects are one hop

Every merge retires an id and leaves a forwarding address in `work_redirect`.
Readers look an id up once.  A merge of the table is `Forwarding.forward` of
the lookup, and the invariant of a run (`Forwarded`) is that of the library:
no address leads to a retired id, and the table agrees with all merges made so
far.

* `redirectWorkId_merged` — the merge of the table is the library's `forward`;
* `merges_eq_some_iff` — which merges of a run go through;
* `forwarded_reach` — the invariant in every reachable state, with the log of its
  merges;
* `redirects_one_hop` — one lookup is enough, along every chain of merges.
-/

namespace Komika.Catalog.Redirects

open Komika.Lib
open Komika.Catalog.Schema Komika.Catalog.Database Komika.Catalog.Ingest
open Komika.Catalog.Ledger Komika.Catalog.Merge Komika.Catalog.Split
open Komika.Catalog.Runs Komika.Catalog.Effects Komika.Catalog.Integrity

/-- An id is forwarded if the table has a row for it. -/
theorem redirectWorkId_eq_some {db : Db} {x y : Id} :
    redirectWorkId db x = some y ↔ (⟨x, y⟩ : WorkRedirect) ∈ db.workRedirect := by
  unfold redirectWorkId
  rw [Option.map_eq_some_iff]
  constructor
  · rintro ⟨r, hfind, rfl⟩
    have hr := List.mem_of_find?_eq_some hfind
    have hx : r.oldId = x := by simpa using List.find?_some hfind
    subst hx
    exact hr
  · intro hr
    refine ⟨⟨x, y⟩, ?_, rfl⟩
    refine (Table.find?_eq_some_iff ?_).mpr ⟨hr, by simp⟩
    intro a b ha hb
    simp only [decide_eq_true_eq] at ha hb
    simp [clash, ha, hb]

/-- On the lookup, a merge is `forward`. -/
theorem redirectWorkId_merged {rules : TextRules} {source target : Id} {db : Db} :
    redirectWorkId (merged rules source target db) =
      Forwarding.forward (redirectWorkId db) source target := by
  funext x
  refine Option.ext fun y => ?_
  have htable : (merged rules source target db).workRedirect =
      (forwardRedirects source target db).workRedirect := rfl
  rw [redirectWorkId_eq_some, htable, forwardRedirects,
    Table.mem_insertOrReplace, Table.mem_update]
  by_cases hx : x = source
  · subst hx
    simp [Forwarding.forward_self, clash, eq_comm]
  · have hclash : clash (⟨source, target⟩ : WorkRedirect) ⟨x, y⟩ = false := by
      simp [clash, Ne.symm hx]
    simp only [hclash, and_true, Forwarding.forward, hx, if_false,
      Option.map_eq_some_iff, WorkRedirect.mk.injEq, false_and, or_false,
      redirectWorkId_eq_some]
    constructor
    · rintro ⟨r, hr, heq⟩
      obtain ⟨old, new⟩ := r
      by_cases hnew : new = source
      · simp only [hnew, decide_true, if_true, forwardTo,
          WorkRedirect.mk.injEq] at heq
        obtain ⟨rfl, rfl⟩ := heq
        exact ⟨new, hr, if_pos hnew⟩
      · simp only [hnew, decide_false, Bool.false_eq_true, if_false,
          WorkRedirect.mk.injEq] at heq
        obtain ⟨rfl, rfl⟩ := heq
        exact ⟨y, hr, if_neg hnew⟩
    · rintro ⟨new, hr, rfl⟩
      refine ⟨⟨x, new⟩, hr, ?_⟩
      by_cases hnew : new = source <;> simp [hnew, forwardTo]

/-! ## The invariant

The lookup as a forwarding map, and the history that it agrees with. -/

variable {rules : Rules}

/-- The merges of a run, as source and target, in order. -/
def mergeLog (rules : Rules) (ops : List Op) : List (Id × Id) :=
  Machine.observations (CatalogState.step rules) (CatalogState.merges rules)
    .init ops

/-- What holds of a state reached by the merges `log`. -/
structure Forwarded (log : List (Id × Id)) (s : CatalogState) : Prop where
  grounded : Grounded s
  oneHop : Forwarding.OneHop (redirectWorkId s.db)
  agrees : Forwarding.Agrees (redirectWorkId s.db) log
  /-- A retired id is not live, and will not be minted again. -/
  retired : ∀ x, redirectWorkId s.db x ≠ none →
    s.db.hasWork x = false ∧ x ∈ s.minted
  home_minted : ∀ x ∈ s.minted, Forwarding.home (redirectWorkId s.db) x ∈ s.minted

/-- A live work is forwarded nowhere. -/
theorem Forwarded.redirect_of_hasWork {log : List (Id × Id)} {s : CatalogState}
    (h : Forwarded log s) {x : Id} (hlive : s.db.hasWork x = true) :
    redirectWorkId s.db x = none := by
  by_contra hne
  rw [(h.retired x hne).1] at hlive
  contradiction

/-- An id not minted yet leads nowhere. -/
theorem Forwarded.redirect_of_not_minted {log : List (Id × Id)}
    {s : CatalogState} (h : Forwarded log s) {x : Id} (hx : x ∉ s.minted) :
    redirectWorkId s.db x = none := by
  by_contra hne
  exact hx (h.retired x hne).2

theorem forwarded_init : Forwarded [] .init where
  grounded := grounded_init
  oneHop _ _ h := by cases h
  agrees := Forwarding.Agrees.nil _
  retired _ h := absurd rfl h
  home_minted _ h := by cases h

/-- The `CHECK` of `work_redirect` never stops a merge of live works. -/
theorem loops_of_hasWork {log : List (Id × Id)} {s : CatalogState}
    (h : Forwarded log s) {source target : Id}
    (htarget : s.db.hasWork target = true) : loops source target s.db = false := by
  rw [← Bool.not_eq_true]
  intro hloop
  obtain ⟨r, hr, heq⟩ := List.any_eq_true.mp hloop
  simp only [Bool.and_eq_true, decide_eq_true_eq] at heq
  have hlookup : redirectWorkId s.db r.oldId = some r.newId :=
    redirectWorkId_eq_some.mpr hr
  rw [heq.2, h.redirect_of_hasWork htarget] at hlookup
  contradiction

/-- Which merges go through. -/
theorem merges_eq_some_iff {log : List (Id × Id)} {s : CatalogState} {op : Op}
    (h : Forwarded log s) {source target : Id} :
    s.merges rules op = some (source, target) ↔
      ∃ expected, op = .mergeWorks source target expected ∧ source ≠ target ∧
        s.db.hasWork source = true ∧ s.db.hasWork target = true ∧
        changedUnderGate source target expected s.db = none := by
  have hok : ∀ a b expected,
      s.merges rules (.mergeWorks a b expected) = some (source, target) ↔
        (a = source ∧ b = target) ∧ (mergeWorksChecked rules.toTextRules a b
          expected s.db).isOk = true := by
    intro a b expected
    cases hresult : mergeWorksChecked rules.toTextRules a b expected s.db <;>
      simp [CatalogState.merges, hresult, Except.isOk, Except.toBool]
  cases op with
  | mergeWorks a b expected =>
      rw [hok, mergeWorksChecked_isOk_iff]
      constructor
      · rintro ⟨⟨rfl, rfl⟩, hne, hsource, htarget, hgate, -⟩
        exact ⟨expected, rfl, hne, hsource, htarget, hgate⟩
      · rintro ⟨_, ⟨⟩, hne, hsource, htarget, hgate⟩
        exact ⟨⟨rfl, rfl⟩, hne, hsource, htarget, hgate, loops_of_hasWork h htarget⟩
  | _ => simp [CatalogState.merges]

/-- A step that merges nothing leaves the lookup alone. -/
theorem lookup_step {s : CatalogState} {op : Op}
    (hmerge : s.merges rules op = none) :
    redirectWorkId (s.step rules op).db = redirectWorkId s.db := by
  unfold redirectWorkId
  rw [step_workRedirect hmerge]

/-- Where an id leads after a merge. -/
theorem home_step_of_merges {log : List (Id × Id)} {s : CatalogState} {op : Op}
    (h : Forwarded log s) {source target : Id}
    (hmerge : s.merges rules op = some (source, target)) (x : Id) :
    Forwarding.home (redirectWorkId (s.step rules op).db) x =
      if Forwarding.home (redirectWorkId s.db) x = source then target
      else Forwarding.home (redirectWorkId s.db) x := by
  obtain ⟨-, hsource, -, hdb⟩ := step_of_merges hmerge
  rw [hdb, redirectWorkId_merged]
  exact Forwarding.home_forward (h.redirect_of_hasWork hsource) x

/-- A merge retires its source in favour of its target. -/
theorem forwarded_step_of_merges {log : List (Id × Id)} {s : CatalogState}
    {op : Op} (h : Forwarded log s) {source target : Id}
    (hmerge : s.merges rules op = some (source, target)) :
    Forwarded (log ++ [(source, target)]) (s.step rules op) := by
  obtain ⟨hne, hsource, htarget, hdb⟩ := step_of_merges hmerge
  have hsource' := h.redirect_of_hasWork hsource
  have htarget' := h.redirect_of_hasWork htarget
  have hlookup : redirectWorkId (s.step rules op).db =
      Forwarding.forward (redirectWorkId s.db) source target := by
    rw [hdb]
    exact redirectWorkId_merged
  refine {
    grounded := grounded_step h.grounded
    oneHop := hlookup ▸ h.oneHop.forward htarget' hne
    agrees := hlookup ▸ h.agrees.forward hsource' htarget' hne
    retired := ?_
    home_minted := ?_ }
  · intro x hx
    rw [hlookup, Ne, Forwarding.forward_eq_none, not_and_or, not_not] at hx
    rw [hdb, ← Bool.not_eq_true, hasWork_merged]
    rcases hx with rfl | hx
    · exact ⟨fun hlive => hlive.2 rfl,
        minted_subset_step (h.grounded.live_minted x hsource)⟩
    · obtain ⟨hdead, hmem⟩ := h.retired x hx
      exact ⟨fun hlive => by simp [hdead] at hlive, minted_subset_step hmem⟩
  · intro x hx
    rw [home_step_of_merges h hmerge]
    split
    · exact minted_subset_step (h.grounded.live_minted target htarget)
    · by_cases hold : x ∈ s.minted
      · exact minted_subset_step (h.home_minted x hold)
      · rwa [Forwarding.home_of_none (h.redirect_of_not_minted hold)]

/-- Any other step leaves the lookup alone and revives no retired id. -/
theorem forwarded_step_of_not_merges {log : List (Id × Id)} {s : CatalogState}
    {op : Op} (h : Forwarded log s) (hmerge : s.merges rules op = none) :
    Forwarded log (s.step rules op) := by
  have hlookup := lookup_step hmerge
  refine {
    grounded := grounded_step h.grounded
    oneHop := hlookup ▸ h.oneHop
    agrees := hlookup ▸ h.agrees
    retired := ?_
    home_minted := ?_ }
  · intro x hx
    obtain ⟨hdead, hmem⟩ := h.retired x (hlookup ▸ hx)
    refine ⟨?_, minted_subset_step hmem⟩
    rw [← Bool.not_eq_true]
    intro hlive
    rcases hasWork_of_step h.grounded hlive with hbefore | hnew
    · rw [hdead] at hbefore
      contradiction
    · exact hnew hmem
  · intro x hx
    rw [hlookup]
    by_cases hold : x ∈ s.minted
    · exact minted_subset_step (h.home_minted x hold)
    · rwa [Forwarding.home_of_none (h.redirect_of_not_minted hold)]

/-- Every step keeps the invariant, with its merge in the log. -/
theorem forwarded_step {log : List (Id × Id)} {s : CatalogState} {op : Op}
    (h : Forwarded log s) :
    Forwarded (log ++ (s.merges rules op).toList) (s.step rules op) := by
  cases hmerge : s.merges rules op with
  | none => simpa using forwarded_step_of_not_merges h hmerge
  | some pair =>
      exact forwarded_step_of_merges h
        (hmerge : s.merges rules op = some (pair.1, pair.2))

/-- The invariant holds of every reachable state, with the merges of its run. -/
theorem forwarded_reach (rules : Rules) (ops : List Op) :
    Forwarded (mergeLog rules ops) (reach rules ops) := by
  refine Machine.run_history_invariant
    (I := fun ops s => Forwarded (mergeLog rules ops) s) forwarded_init ?_
    (Machine.eachStep_of_forall fun _ _ => trivial)
  intro before op h _
  have hlog : mergeLog rules (before ++ [op]) = mergeLog rules before ++
      ((reach rules before).merges rules op).toList :=
    Machine.observations_concat _ _ _ _ _
  rw [hlog]
  exact forwarded_step h

/-! ## One lookup is enough -/

/-- **Redirects are one hop.**  In every reachable state no id is both the old
and the new id of a redirect, no old id is a live work, and along every chain
of merges that ends in a live work one lookup leads from its first id to its
last. -/
theorem redirects_one_hop (rules : Rules) (ops : List Op) :
    (∀ r ∈ (reach rules ops).db.workRedirect,
        ∀ r' ∈ (reach rules ops).db.workRedirect, r.oldId ≠ r'.newId) ∧
      (∀ r ∈ (reach rules ops).db.workRedirect,
        (reach rules ops).db.hasWork r.oldId = false) ∧
      ∀ (w₀ w₁ : Id) (rest : List Id),
        List.IsChain (fun a b => (a, b) ∈ mergeLog rules ops) (w₀ :: w₁ :: rest) →
        (reach rules ops).db.hasWork
          ((w₁ :: rest).getLast (List.cons_ne_nil w₁ rest)) = true →
        redirectWorkId (reach rules ops).db w₀ =
          some ((w₁ :: rest).getLast (List.cons_ne_nil w₁ rest)) := by
  have h := forwarded_reach rules ops
  have hold : ∀ r ∈ (reach rules ops).db.workRedirect,
      redirectWorkId (reach rules ops).db r.oldId = some r.newId :=
    fun r hr => redirectWorkId_eq_some.mpr hr
  refine ⟨fun r hr r' hr' heq => ?_, fun r hr => ?_, fun w₀ w₁ rest hchain hlast => ?_⟩
  · have hnone := h.oneHop _ _ (hold r' hr')
    rw [← heq, hold r hr] at hnone
    contradiction
  · refine (h.retired r.oldId ?_).1
    rw [hold r hr]
    exact Option.some_ne_none _
  · exact h.agrees.chain hchain (h.redirect_of_hasWork hlast)

end Komika.Catalog.Redirects
