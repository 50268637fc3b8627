import Komika.Catalog.Redirects
import Mathlib.Data.String.Basic

/-!
# Split pairs across merges

`work_split` records which works an admin has pulled apart, so that no
automated path merges them again.  The pair is recorded by the ids the two
works had then.  A merge moves everything else that is keyed by its source
onto its target, but not the pairs: the target inherits the titles of the
source and not its separations.

`splitPermanent_iff` says exactly which runs are safe from that: those in which
every merge finds its target already separated from all the live works that
its source is separated from.

A half is known by the work it lives on now, which is the end of its redirect.  The
invariant `Recorded` ties the pairs of the table to the splits of the run; a step is
then looked at by what it does to redirects (`hasWork_home_of_step`).

* `isSplitPair_commitSplit` — the pair that a split adds;
* `keptApart_of_merges` and `inheritsSplits_of_keptApart` — a merge, in both directions;
* `keptApart_of_not_merges` — every other step;
* `splitsPermanent_iff` — every run;
* `not_splitsPermanent_merge_of_half` — the pair that a merge leaves behind.
-/

namespace Komika.Catalog.SplitPairs

open Komika.Lib
open Komika.Catalog.Schema Komika.Catalog.Database Komika.Catalog.Ingest
open Komika.Catalog.Ledger Komika.Catalog.Merge Komika.Catalog.Split
open Komika.Catalog.Runs Komika.Catalog.Effects Komika.Catalog.Integrity
open Komika.Catalog.Redirects

variable {rules : Rules}

/-! ## The pair table

A pair is stored in the order of its ids, so that one row serves both orders. -/

/-- The order of the arguments does not matter. -/
theorem orderedPair_comm (one other : Id) :
    orderedPair one other = orderedPair other one := by
  unfold orderedPair
  rcases lt_trichotomy one other with h | rfl | h
  · rw [if_pos h, if_neg (not_lt_of_gt h)]
  · rfl
  · rw [if_neg (not_lt_of_gt h), if_pos h]

theorem isSplitPair_comm (db : Db) (one other : Id) :
    isSplitPair db one other = isSplitPair db other one := by
  unfold isSplitPair
  rw [orderedPair_comm]

/-- Two pairs that are stored alike are the same two works. -/
theorem orderedPair_eq {a b one other : Id}
    (h : orderedPair a b = orderedPair one other) :
    (a = one ∧ b = other) ∨ (a = other ∧ b = one) := by
  unfold orderedPair at h
  split at h <;> split at h <;> obtain ⟨rfl, rfl⟩ := Prod.mk.inj h <;> simp

/-- A split adds its pair, and nothing else. -/
theorem isSplitPair_commitSplit {plan : SplitPlan} {newWorkId : Id}
    {actor : Option Id} {db db' : Db} {outcome : SplitOutcome}
    (h : commitSplit rules.toTextRules plan newWorkId actor db = .ok (outcome, db'))
    {one other : Id} :
    isSplitPair db' one other = true ↔ isSplitPair db one other = true ∨
      orderedPair plan.workId newWorkId = orderedPair one other := by
  obtain ⟨-, row, work, lang, -, -, -, hdb⟩ := commitSplit_ok h
  have hwrite : db'.workSplit = db.workSplit.insertOrIgnore
      ⟨(orderedPair plan.workId newWorkId).1,
        (orderedPair plan.workId newWorkId).2, actor⟩ := by
    rw [hdb]
    rfl
  unfold isSplitPair
  rw [hwrite]
  simp only [List.any_eq_true, Table.mem_rows, decide_eq_true_eq,
    Table.mem_insertOrIgnore]
  constructor
  · rintro ⟨r, hr | ⟨rfl, -⟩, heq⟩
    · exact .inl ⟨r, hr, heq⟩
    · exact .inr heq
  · rintro (⟨r, hr, heq⟩ | heq)
    · exact ⟨r, .inl hr, heq⟩
    · -- the row is inserted, or ignored because the pair is there already
      by_cases hfree : db.workSplit.taken
          ⟨(orderedPair plan.workId newWorkId).1,
            (orderedPair plan.workId newWorkId).2, actor⟩ = false
      · exact ⟨_, .inr ⟨rfl, Table.taken_eq_false.mp hfree⟩, heq⟩
      · obtain ⟨r, hr, hclash⟩ :=
          Table.taken_eq_true.mp (Bool.not_eq_false _ ▸ hfree)
        exact ⟨r, .inl hr, (of_decide_eq_true hclash).symm.trans heq⟩

theorem isSplitPair_congr {db db' : Db} (h : db'.workSplit = db.workSplit)
    (one other : Id) : isSplitPair db' one other = isSplitPair db one other := by
  unfold isSplitPair
  rw [h]

/-! ## What is promised, and when it is kept

The promise is about the works that the halves live on, since a merge may have moved
either of them. -/

/-- The splits of a run, as old and new work, in order. -/
def splitLog (rules : Rules) (ops : List Op) : List (Id × Id) :=
  Machine.observations (CatalogState.step rules) (CatalogState.splits rules)
    .init ops

/-- Where the work `x` lives now. -/
def homeOf (db : Db) (x : Id) : Id := Forwarding.home (redirectWorkId db) x

/-- The works the two halves of a split live on are a split pair, while both
are live and are two. -/
def KeptApart (db : Db) (halves : Id × Id) : Prop :=
  db.hasWork (homeOf db halves.1) = true →
    db.hasWork (homeOf db halves.2) = true →
      homeOf db halves.1 ≠ homeOf db halves.2 →
        isSplitPair db (homeOf db halves.1) (homeOf db halves.2) = true

/-- After this run every split still holds. -/
def SplitsPermanent (rules : Rules) (ops : List Op) : Prop :=
  ∀ halves ∈ splitLog rules ops, KeptApart (reach rules ops).db halves

/-- A merge of two live works that its gate lets through finds its target
separated from every live work that its source is separated from. -/
def InheritsSplits (s : CatalogState) (op : Op) : Prop :=
  ∀ source target expected, op = .mergeWorks source target expected →
    s.db.hasWork source = true → s.db.hasWork target = true →
      changedUnderGate source target expected s.db = none →
        ∀ x, s.db.hasWork x = true → x ≠ source → x ≠ target →
          isSplitPair s.db source x = true → isSplitPair s.db target x = true

/-! ## The invariant

What a run keeps whatever its merges do. -/

/-- What any run keeps: the halves of the splits were minted, and the pairs of
the table are the halves of splits. -/
structure Recorded (log : List (Id × Id)) (s : CatalogState) : Prop where
  minted : ∀ halves ∈ log, halves.1 ∈ s.minted ∧ halves.2 ∈ s.minted
  logged : ∀ one other, isSplitPair s.db one other = true →
    (one, other) ∈ log ∨ (other, one) ∈ log

/-- Every step of a run keeps it, where the works that are gone are forwarded. -/
theorem recorded_step {merges log : List (Id × Id)} {s : CatalogState} {op : Op}
    (hforwarded : Forwarded merges s) (h : Recorded log s) :
    Recorded (log ++ (s.splits rules op).toList) (s.step rules op) := by
  cases hsplit : s.splits rules op with
  | none =>
      rw [Option.toList_none, List.append_nil]
      refine ⟨fun halves hmem => ?_, fun one other hpair => ?_⟩
      · obtain ⟨hfst, hsnd⟩ := h.minted halves hmem
        exact ⟨minted_subset_step hfst, minted_subset_step hsnd⟩
      · rw [isSplitPair_congr (step_workSplit hsplit)] at hpair
        exact h.logged one other hpair
  | some halves =>
      obtain ⟨old, new⟩ := halves
      obtain ⟨-, hnew, plan, -, rfl, actor, outcome, hok⟩ := step_of_splits hsplit
      rw [Option.toList_some]
      refine ⟨fun halves hmem => ?_, fun one other hpair => ?_⟩
      · rcases List.mem_append.mp hmem with hmem | hmem
        · obtain ⟨hfst, hsnd⟩ := h.minted halves hmem
          exact ⟨minted_subset_step hfst, minted_subset_step hsnd⟩
        · rw [List.mem_singleton.mp hmem]
          have hold := hforwarded.grounded.live_minted _ (commitSplit_ok hok).1
          exact ⟨minted_subset_step hold, hnew⟩
      · rcases (isSplitPair_commitSplit hok).mp hpair with hpair | heq
        · exact (h.logged one other hpair).imp (List.mem_append_left _)
            (List.mem_append_left _)
        · rcases orderedPair_eq heq with ⟨rfl, rfl⟩ | ⟨rfl, rfl⟩
          · exact .inl (List.mem_append_right _ List.mem_cons_self)
          · exact .inr (List.mem_append_right _ List.mem_cons_self)

/-- A half whose home is live after a step other than a merge had a live home
before it. -/
theorem hasWork_home_of_step {merges : List (Id × Id)} {s : CatalogState}
    {op : Op} (h : Forwarded merges s) {x : Id} (hx : x ∈ s.minted)
    (hmerge : s.merges rules op = none)
    (hlive : (s.step rules op).db.hasWork (homeOf (s.step rules op).db x) = true) :
    s.db.hasWork (homeOf s.db x) = true := by
  unfold homeOf at hlive ⊢
  rw [lookup_step hmerge] at hlive
  rcases hasWork_of_step h.grounded hlive with hbefore | hnew
  · exact hbefore
  · exact absurd (h.home_minted x hx) hnew

/-- A merge into a work that is separated from all that its source is keeps
every split. -/
theorem keptApart_of_merges {merges : List (Id × Id)} {s : CatalogState}
    {op : Op} (h : Forwarded merges s) {source target : Id}
    (hmerge : s.merges rules op = some (source, target))
    (hinherits : InheritsSplits s op) {halves : Id × Id}
    (hkept : KeptApart s.db halves) :
    KeptApart (s.step rules op).db halves := by
  obtain ⟨-, hsource, -, hdb⟩ := step_of_merges hmerge
  have hhome : ∀ x, homeOf (s.step rules op).db x =
      if homeOf s.db x = source then target else homeOf s.db x :=
    home_step_of_merges h hmerge
  have hpairs : ∀ one other, isSplitPair (s.step rules op).db one other =
      isSplitPair s.db one other := by
    refine isSplitPair_congr ?_
    rw [hdb]
    rfl
  have hlive : ∀ x, (s.step rules op).db.hasWork x = true ↔
      s.db.hasWork x = true ∧ x ≠ source := by
    intro x
    rw [hdb]
    exact hasWork_merged
  have hinherit : ∀ x, s.db.hasWork x = true → x ≠ source → x ≠ target →
      isSplitPair s.db source x = true → isSplitPair s.db target x = true := by
    obtain ⟨expected, hop, -, hsource, htarget, hgate⟩ :=
      (merges_eq_some_iff h).mp hmerge
    exact hinherits source target expected hop hsource htarget hgate
  intro hfst hsnd hne
  rw [hhome, hhome] at hne ⊢
  rw [hhome, hlive] at hfst hsnd
  rw [hpairs]
  unfold KeptApart at hkept
  generalize homeOf s.db halves.1 = one at *
  generalize homeOf s.db halves.2 = other at *
  by_cases hone : one = source
  · by_cases hother : other = source
    · rw [if_pos hone, if_pos hother] at hne
      exact absurd rfl hne
    · rw [if_pos hone, if_neg hother] at hne ⊢
      rw [if_neg hother] at hsnd
      subst hone
      exact hinherit other hsnd.1 hother (Ne.symm hne)
        (hkept hsource hsnd.1 (Ne.symm hother))
  · by_cases hother : other = source
    · rw [if_neg hone, if_pos hother] at hne ⊢
      rw [if_neg hone] at hfst
      subst hother
      rw [isSplitPair_comm]
      refine hinherit one hfst.1 hone hne ?_
      rw [isSplitPair_comm]
      exact hkept hfst.1 hsource hone
    · rw [if_neg hone, if_neg hother] at hne ⊢
      rw [if_neg hone] at hfst
      rw [if_neg hother] at hsnd
      exact hkept hfst.1 hsnd.1 hne

/-- Conversely: a merge after which every split holds was one. -/
theorem inheritsSplits_of_keptApart {merges log : List (Id × Id)}
    {s : CatalogState} {op : Op} (h : Forwarded merges s)
    (hrecorded : Recorded log s)
    (hkept : ∀ halves ∈ log, KeptApart (s.step rules op).db halves) :
    InheritsSplits s op := by
  intro source target expected hop hsource htarget hgate x hx hxsource hxtarget hpair
  by_cases hne : source = target
  · rwa [← hne]
  have hmerge : s.merges rules op = some (source, target) :=
    (merges_eq_some_iff h).mpr ⟨expected, hop, hne, hsource, htarget, hgate⟩
  obtain ⟨-, -, -, hdb⟩ := step_of_merges hmerge
  have hhome : ∀ y, homeOf (s.step rules op).db y =
      if homeOf s.db y = source then target else homeOf s.db y :=
    home_step_of_merges h hmerge
  have hsourceHome : homeOf (s.step rules op).db source = target := by
    have hself : homeOf s.db source = source :=
      Forwarding.home_of_none (h.redirect_of_hasWork hsource)
    rw [hhome, if_pos hself]
  have hxHome : homeOf (s.step rules op).db x = x := by
    have hself : homeOf s.db x = x :=
      Forwarding.home_of_none (h.redirect_of_hasWork hx)
    rw [hhome, hself, if_neg hxsource]
  have hxLive : (s.step rules op).db.hasWork x = true := by
    rw [hdb]
    exact hasWork_merged.mpr ⟨hx, hxsource⟩
  have htargetLive : (s.step rules op).db.hasWork target = true := by
    rw [hdb]
    exact hasWork_merged.mpr ⟨htarget, Ne.symm hne⟩
  have hpairs : isSplitPair (s.step rules op).db target x =
      isSplitPair s.db target x := by
    refine isSplitPair_congr ?_ _ _
    rw [hdb]
    rfl
  rw [← hpairs]
  rcases hrecorded.logged source x hpair with hlog | hlog
  · have hapart := hkept _ hlog
    unfold KeptApart at hapart
    rw [hsourceHome, hxHome] at hapart
    exact hapart htargetLive hxLive (Ne.symm hxtarget)
  · have hapart := hkept _ hlog
    unfold KeptApart at hapart
    rw [hsourceHome, hxHome] at hapart
    rw [isSplitPair_comm]
    exact hapart hxLive htargetLive hxtarget

/-- A step that does not merge keeps every split, and a split it makes. -/
theorem keptApart_of_not_merges {merges log : List (Id × Id)}
    {s : CatalogState} {op : Op} (h : Forwarded merges s)
    (hrecorded : Recorded log s) (hmerge : s.merges rules op = none)
    (hkept : ∀ halves ∈ log, KeptApart s.db halves) :
    ∀ halves ∈ log ++ (s.splits rules op).toList,
      KeptApart (s.step rules op).db halves := by
  have hhome : ∀ x, homeOf (s.step rules op).db x = homeOf s.db x := by
    intro x
    unfold homeOf
    rw [lookup_step hmerge]
  have hpairs : ∀ one other, isSplitPair s.db one other = true →
      isSplitPair (s.step rules op).db one other = true := by
    intro one other hpair
    cases hsplit : s.splits rules op with
    | none => rwa [isSplitPair_congr (step_workSplit hsplit)]
    | some halves =>
        obtain ⟨-, -, plan, -, -, actor, outcome, hok⟩ :=
          step_of_splits (hsplit : _ = some (halves.1, halves.2))
        exact (isSplitPair_commitSplit hok).mpr (.inl hpair)
  intro halves hmem
  rcases List.mem_append.mp hmem with hmem | hmem
  · obtain ⟨hfst, hsnd⟩ := hrecorded.minted halves hmem
    intro hfst' hsnd' hne
    have hfstLive := hasWork_home_of_step h hfst hmerge hfst'
    have hsndLive := hasWork_home_of_step h hsnd hmerge hsnd'
    rw [hhome, hhome] at hne ⊢
    exact hpairs _ _ (hkept halves hmem hfstLive hsndLive hne)
  · cases hsplit : s.splits rules op with
    | none =>
        rw [hsplit] at hmem
        contradiction
    | some made =>
        obtain ⟨old, new⟩ := made
        rw [hsplit, Option.toList_some] at hmem
        rw [List.mem_singleton.mp hmem]
        obtain ⟨hnew, -, plan, -, rfl, actor, outcome, hok⟩ :=
          step_of_splits hsplit
        have hold : homeOf s.db plan.workId = plan.workId :=
          Forwarding.home_of_none (h.redirect_of_hasWork (commitSplit_ok hok).1)
        have hnewHome : homeOf s.db new = new :=
          Forwarding.home_of_none (h.redirect_of_not_minted hnew)
        intro _ _ _
        rw [hhome, hhome, hold, hnewHome]
        exact (isSplitPair_commitSplit hok).mpr (.inr rfl)

/-! ## Runs

One step of the equivalence, and the induction over the run. -/

/-- The splits of a run that goes on. -/
theorem splitLog_concat (rules : Rules) (ops : List Op) (op : Op) :
    splitLog rules (ops ++ [op]) =
      splitLog rules ops ++ ((reach rules ops).splits rules op).toList :=
  Machine.observations_concat _ _ _ _ _

/-- The state that such a run reaches. -/
theorem reach_concat (rules : Rules) (ops : List Op) (op : Op) :
    reach rules (ops ++ [op]) = (reach rules ops).step rules op :=
  Machine.run_concat _ _ _ _

theorem recorded_reach (rules : Rules) (ops : List Op) :
    Recorded (splitLog rules ops) (reach rules ops) := by
  refine Machine.run_history_invariant
    (I := fun ops s => Recorded (splitLog rules ops) s) ?_ ?_
    (Machine.eachStep_of_forall fun _ _ => trivial)
  · exact {
      minted := fun halves hmem => by cases hmem
      logged := fun one other hpair => by cases hpair }
  · intro before op h _
    rw [splitLog_concat]
    exact recorded_step (forwarded_reach rules before) h

/-- One step of `splitsPermanent_iff`. -/
theorem splitsPermanent_concat {ops : List Op} {op : Op}
    (h : SplitsPermanent rules ops) :
    SplitsPermanent rules (ops ++ [op]) ↔
      InheritsSplits (reach rules ops) op := by
  have hforwarded := forwarded_reach rules ops
  have hrecorded := recorded_reach rules ops
  unfold SplitsPermanent at h ⊢
  rw [splitLog_concat, reach_concat]
  constructor
  · intro hafter
    exact inheritsSplits_of_keptApart hforwarded hrecorded fun halves hmem =>
      hafter halves (List.mem_append_left _ hmem)
  · intro hinherits
    cases hmerge : (reach rules ops).merges rules op with
    | none => exact keptApart_of_not_merges hforwarded hrecorded hmerge h
    | some pair =>
        have hsplit : (reach rules ops).splits rules op = none := by
          cases op <;> first | rfl | contradiction
        rw [hsplit, Option.toList_none, List.append_nil]
        intro halves hmem
        exact keptApart_of_merges hforwarded
          (hmerge : _ = some (pair.1, pair.2)) hinherits (h halves hmem)

/-- **When a split is permanent.**  The splits of a run hold in every state it passes
through if and only if every merge finds its target separated from all the live works
that its source is separated from.  A merge leaves the recorded pairs as they are, so
those of the work that it folds name a work that is gone. -/
theorem splitsPermanent_iff (rules : Rules) (ops : List Op) :
    (∀ before, before <+: ops → SplitsPermanent rules before) ↔
      Machine.EachStep (CatalogState.step rules) InheritsSplits .init ops := by
  induction ops using List.reverseRecOn with
  | nil =>
      refine ⟨fun _ => trivial, fun _ before hinit => ?_⟩
      rw [List.prefix_nil.mp hinit]
      intro halves hmem
      cases hmem
  | append_singleton ops op ih =>
      rw [Machine.eachStep_append, ← ih, Machine.eachStep_cons]
      simp only [List.prefix_concat_iff, Machine.eachStep_nil, and_true]
      constructor
      · intro h
        have hbefore := fun before hinit => h before (.inr hinit)
        exact ⟨hbefore, (splitsPermanent_concat
          (hbefore ops List.prefix_rfl)).mp (h _ (.inl rfl))⟩
      · rintro ⟨hbefore, hstep⟩ before (rfl | hinit)
        · exact (splitsPermanent_concat (hbefore ops List.prefix_rfl)).mpr hstep
        · exact hbefore before hinit

/-- A split `a`/`n`, and then a merge of `a` into a third work `b`: nothing
keeps `b` and `n` apart. -/
theorem not_splitsPermanent_merge_of_half :
    ¬SplitsPermanent plainRules
      [.createWork "a" (titled "dawn"),
        .upsertSourceSeries "s1" "a" "suwayomi" "mangasee" "7" none false "t1",
        .upsertSourceSeries "s2" "a" "suwayomi" "mangafox" "8" none false "t1",
        .createWork "b" (titled "dusk"),
        .planSplit "a" ["s2"], .commitSplit 0 "n" none,
        .mergeWorks "a" "b" none] := by
  intro h
  have hpair := h ("a", "n") (by decide) (by decide) (by decide) (by decide)
  exact absurd hpair (by decide)

end Komika.Catalog.SplitPairs
