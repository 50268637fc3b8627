import Komika.Catalog.SplitPairs
import Komika.Catalog.Candidates
import Komika.Dedup.Similarity

/-!
# The exact-alias sweep

`consolidate_exact_duplicates_from` folds the works that share a normalised
alias.  It reads a group, judges each pair by `consolidate_gate`, and merges
the pairs that pass; the rest are queued for review.  Each of its statements is
a transaction of its own, so every other writer runs in between, and any
statement can fail.

The merge re-checks the columns the gate judged, under its own write lock.
What it does not re-check is whether an admin has split the pair apart: that
is asked before, and a lookup that fails counts as "no".  `merges_safe_run`
says that this, and years so far apart that their difference wraps, are all
that can make a merge unsafe.

* `approved_spec` — what the gate approves rests on a title and on a corroboration,
  unless it misjudges the years;
* `Phase.Fits`, `fits_judged` — what the sweep knows of its pair between two statements;
* `inv_step` — the step lemma, over steps that leave the pair of the round alone;
* `mergesSafely_of_inv`, `merges_safe_run` — each merge of a run;
* `not_mergesSafely_lookupFails` — a lookup that fails, read as "no".
-/

namespace Komika.Dedup.Consolidate

open Komika.Lib
open Komika.Catalog.Schema Komika.Catalog.Database Komika.Catalog.Ingest
open Komika.Catalog.Merge Komika.Catalog.Split Komika.Catalog.Runs
open Komika.Catalog.Effects Komika.Catalog.Integrity Komika.Catalog.SplitPairs
open Komika.Catalog.Candidates (insertMergeCandidate)
open Komika.Dedup.Similarity

/-- What the sweep takes from the standard library. -/
structure SweepRules extends Rules, SimilarityRules

/-- `CONSOLIDATE_PHASH_CORROBORATION`: covers that are so similar corroborate a
title. -/
def consolidatePhashCorroboration : Float := 0.90

/-- `CONSOLIDATE_MAX_CLUSTER`: a larger group is put before an admin as a whole. -/
def consolidateMaxCluster : Nat := 2

/-- One work's identity metadata in a cluster. -/
structure ConsolidateWork where
  id : Id
  primaryTitle : Option String
  year : Option Int
  author : Option String
  coverPhash : Option String
deriving DecidableEq, Repr

/-- `identity`: what the gate judged, to be compared again when the merge commits. -/
def ConsolidateWork.identity (w : ConsolidateWork) : WorkIdentity :=
  ⟨w.primaryTitle, w.year, w.author, w.coverPhash⟩

/-! ## The gate -/

/-- `is_primary`: the title in common is the work's own, and not only an alias. -/
def isPrimary (rules : SweepRules) (norm : String) (w : ConsolidateWork) : Bool :=
  w.primaryTitle.any fun t => rules.normalizeTitle t = norm

/-- `phash_ok`: the covers are close, and both say something. -/
def phashOk (a b : ConsolidateWork) : Bool :=
  (a.coverPhash.any isDiscriminativePhash && b.coverPhash.any isDiscriminativePhash) &&
    (phashSimilarity a.coverPhash b.coverPhash).any fun p =>
      p ≥ consolidatePhashCorroboration

/-- `consolidate_gate`: a title of some length, primary to both works, and a year, an
author or a cover that agrees. -/
def consolidateGate (rules : SweepRules) (norm : String) (a b : ConsolidateWork) :
    Except String Unit :=
  if norm.length < federatedMinTitleChars then .error "short_title"
  else if !isPrimary rules norm a || !isPrimary rules norm b then
    .error "alt_title_only"
  else if yearClose a.year b.year || authorMatches rules.toSimilarityRules a.author b.author
      || phashOk a b then .ok ()
  else .error "uncorroborated"

/-! ## The reads -/

/-- The works with this alias. -/
def aliasWorks (db : Db) (norm : String) : List Id :=
  ((db.workAlias.rows.filter fun a => a.normalizedTitle = norm).map
    WorkAlias.workId).dedup

/-- The aliases of more than one work, after the cursor. -/
def aliasGroups (db : Db) (limit : Int) (cursor : String) : List String :=
  (((db.workAlias.rows.map WorkAlias.normalizedTitle).dedup.filter fun t =>
    decide (cursor < t) && decide (1 < (aliasWorks db t).length)).insertionSort
      fun a b => a ≤ b).take (max limit 1).toNat

/-- The work has a MangaDex source. -/
def anchored (db : Db) (id : Id) : Bool :=
  db.sourceSeries.rows.any fun ss => ss.workId = id && ss.sourceType = "mangadex"

/-- How many mappings a work has. -/
def sourceCount (db : Db) (id : Id) : Nat :=
  db.sourceSeries.rows.countP fun ss => ss.workId = id

/-- Anchored works first, then those with most sources, then by id. -/
def SurvivorOrder (db : Db) (a b : ConsolidateWork) : Prop :=
  (anchored db a.id = true ∧ anchored db b.id = false) ∨
    (anchored db a.id = anchored db b.id ∧
      (sourceCount db b.id < sourceCount db a.id ∨
        (sourceCount db a.id = sourceCount db b.id ∧ a.id ≤ b.id)))

instance (db : Db) : DecidableRel (SurvivorOrder db) := fun _ _ =>
  inferInstanceAs (Decidable (_ ∨ _))

/-- The works of a group, best survivor first. -/
def groupWorks (db : Db) (norm : String) : List ConsolidateWork :=
  ((db.work.rows.filter fun w => (aliasWorks db norm).contains w.id).map fun w =>
    ⟨w.id, w.primaryTitle, w.year, w.author, w.coverPhash⟩).insertionSort
      (SurvivorOrder db)

/-! ## The sweep, statement by statement

A state machine, since other writers come in between. -/

/-- `ConsolidateOutcome`: the merges of a call, what it could not merge, and where the
next one goes on. -/
structure ConsolidateOutcome where
  merged : List (Id × Id)
  queued : Nat
  unqueueable : Nat
  stale : Nat
  groupsSeen : Nat
  cursor : String
deriving DecidableEq, Repr

/-- A pair of a group that is being examined. -/
structure Round where
  norm : String
  /-- The catalogue the group was read in. -/
  seen : Db
  survivor : ConsolidateWork
  oversized : Bool
  other : ConsolidateWork
  others : List ConsolidateWork
  groups : List String

/-- The statement that the sweep comes to next, with what it has read for it. -/
inductive Phase where
  | listing (limit : Int) (cursor : String)
  | grouping (groups : List String)
  /-- About to ask whether the pair was split apart. -/
  | looking (r : Round)
  /-- The gate has approved; whether the lookup answered. -/
  | merging (answered : Bool) (r : Round)
  | queueing (r : Round)
  | inserting (r : Round) (sourceSeriesId : Id)
  | returned (ok : Bool)

/-- The catalogue, the phase, and the outcome so far. -/
structure SweepState where
  catalog : CatalogState
  phase : Phase
  outcome : ConsolidateOutcome

/-- The next pair of the group, or the next group. -/
def Round.next (r : Round) : Phase :=
  match r.others with
  | [] => .grouping r.groups
  | other :: others => .looking { r with other := other, others := others }

/-- The gate approves the pair. -/
def Round.approved (rules : SweepRules) (r : Round) : Bool :=
  !r.oversized && (consolidateGate rules r.norm r.survivor r.other).isOk

/-- What the verdict on a pair leads to. -/
def Round.judged (rules : SweepRules) (answered : Bool) (r : Round) : Phase :=
  if r.approved rules then .merging answered r else .queueing r

/-- The works of the next group are read. -/
def readGroup (db : Db) (norm : String) (groups : List String) : Phase :=
  match groupWorks db norm with
  | survivor :: other :: others =>
      .looking
        { norm := norm
          seen := db
          survivor := survivor
          oversized := consolidateMaxCluster < (survivor :: other :: others).length
          other := other
          others := others
          groups := groups }
  | _ => .grouping groups

/-- On to another phase. -/
def SweepState.goto (s : SweepState) (phase : Phase) : SweepState :=
  { s with phase := phase }

/-- A write of the sweep. -/
def SweepState.setDb (s : SweepState) (db : Db) : SweepState :=
  { s with catalog := { s.catalog with db := db } }

/-- One more of something in the outcome. -/
def SweepState.count (s : SweepState) (f : ConsolidateOutcome → ConsolidateOutcome) :
    SweepState :=
  { s with outcome := f s.outcome }

/-- The next statement of the sweep.  A candidate is queued under the source of the
work that was created first; `created_at` is not among the columns of the model,
where a row is inserted behind those there are and keeps its place, so that is the
first of the table. -/
def SweepState.advance (rules : SweepRules) (newCandidateId : Id) (s : SweepState) :
    SweepState :=
  match s.phase with
  | .listing limit cursor => s.goto (.grouping (aliasGroups s.catalog.db limit cursor))
  | .grouping [] => s.goto (.returned true)
  | .grouping (norm :: groups) =>
      (s.count fun out =>
        { out with groupsSeen := out.groupsSeen + 1, cursor := norm }).goto
          (readGroup s.catalog.db norm groups)
  | .looking r =>
      if isSplitPair s.catalog.db r.other.id r.survivor.id then s.goto r.next
      else s.goto (r.judged rules true)
  | .merging _ r =>
      match mergeWorksChecked rules.toTextRules r.other.id r.survivor.id
          (some (r.other.identity, r.survivor.identity)) s.catalog.db with
      | .ok (_, db) =>
          ((s.setDb db).count fun out =>
            { out with merged := out.merged ++ [(r.other.id, r.survivor.id)] }).goto r.next
      | .error (.preconditionFailed _) =>
          (s.count fun out => { out with stale := out.stale + 1 }).goto r.next
      | .error _ => s.goto (.returned false)
  | .queueing r =>
      -- `ORDER BY created_at ASC, id ASC LIMIT 1`
      match s.catalog.db.sourceSeries.rows.find? fun ss => ss.workId = r.other.id with
      | none =>
          (s.count fun out => { out with unqueueable := out.unqueueable + 1 }).goto r.next
      | some ss => s.goto (.inserting r ss.id)
  | .inserting r sourceSeriesId =>
      match insertMergeCandidate newCandidateId sourceSeriesId r.survivor.id
          s.catalog.db with
      | .ok (_, db) =>
          ((s.setDb db).count fun out => { out with queued := out.queued + 1 }).goto r.next
      | .error _ => s.goto (.returned false)
  | .returned _ => s

/-- The next statement of the sweep fails: only a failed lookup of a split is
not passed on, it counts as "not split". -/
def SweepState.fail (rules : SweepRules) (s : SweepState) : SweepState :=
  match s.phase with
  | .looking r => s.goto (r.judged rules false)
  | .returned _ => s
  | _ => s.goto (.returned false)

/-- The columns of `row`, under the work's own id. -/
def withColumns (row w : Work) : Work := { row with id := w.id }

theorem withColumns_keepsKeys (row : Work) : Table.KeepsKeys (withColumns row) :=
  fun _ _ => rfl

/-- An admin edits the columns of a work. -/
def editWork (row : Work) (db : Db) : Db :=
  { db with
    work := db.work.update (fun w => w.id = row.id) (withColumns row)
      (withColumns_keepsKeys row) }

/-- A statement of the sweep, its failure, or another writer. -/
inductive SweepEvent where
  /-- The other writers. -/
  | traffic (op : Op)
  | edit (row : Work)
  | start (limit : Int) (cursor : String)
  | sweep (newCandidateId : Id)
  | sweepFails

/-- The state after an event. -/
def step (rules : SweepRules) (s : SweepState) : SweepEvent → SweepState
  | .traffic op => { s with catalog := s.catalog.step rules.toRules op }
  | .edit row => s.setDb (editWork row s.catalog.db)
  | .start limit cursor =>
      match s.phase with
      | .returned _ =>
          { s with phase := .listing limit cursor, outcome := ⟨[], 0, 0, 0, 0, cursor⟩ }
      | _ => s
  | .sweep newCandidateId => s.advance rules newCandidateId
  | .sweepFails => s.fail rules

/-! ## What a merge must rest on

A primary title of both, something that corroborates it, and no split between them. -/

/-- The normalised primary title is the alias of the group. -/
def PrimaryTitle (rules : SweepRules) (norm : String) (w : WorkIdentity) : Prop :=
  ∃ t, w.primaryTitle = some t ∧ rules.normalizeTitle t = norm

/-- Something beyond the title speaks for the pair. -/
inductive Corroborated (rules : SweepRules) (a b : WorkIdentity) : Prop
  | years (x y : Int) (ha : a.year = some x) (hb : b.year = some y)
      (hclose : (x - y).natAbs ≤ 1)
  | authors (x y : String) (ha : a.author = some x) (hb : b.author = some y)
      (hne : authorKey rules.toSimilarityRules x ≠ [])
      (heq : authorKey rules.toSimilarityRules x = authorKey rules.toSimilarityRules y)
  | covers (x y : String) (ha : a.coverPhash = some x) (hb : b.coverPhash = some y)
      (hx : isDiscriminativePhash x = true) (hy : isDiscriminativePhash y = true)
      (p : Float) (hp : phashSimilarity (some x) (some y) = some p)
      (hclose : p ≥ consolidatePhashCorroboration)

/-- The gate's conditions, on the works as they are. -/
structure Justified (rules : SweepRules) (norm : String) (db : Db) (loser survivor : Id) :
    Prop where
  long : federatedMinTitleChars ≤ norm.length
  works : ∃ a ∈ db.work, a.id = survivor ∧ ∃ b ∈ db.work, b.id = loser ∧
    PrimaryTitle rules norm (identity a) ∧ PrimaryTitle rules norm (identity b) ∧
      Corroborated rules (identity a) (identity b)

/-- The merge of a pair, in the state its transaction starts from. -/
structure SafeMerge (rules : SweepRules) (db : Db) (answered : Bool) (r : Round) : Prop where
  /-- The lookup of the split pair did not fail. -/
  answered : answered = true
  apart : isSplitPair db r.other.id r.survivor.id = false
  justified : Justified rules r.norm db r.other.id r.survivor.id
  /-- The group that was read is the pair. -/
  pair : groupWorks r.seen r.norm = [r.survivor, r.other]
  anchored : anchored r.seen r.other.id = true → anchored r.seen r.survivor.id = true

/-- The pair that a step merges. -/
def SweepState.merges (rules : SweepRules) (s : SweepState) (e : SweepEvent) :
    Option (Bool × Round) :=
  match e, s.phase with
  | .sweep _, .merging answered r =>
      if (mergeWorksChecked rules.toTextRules r.other.id r.survivor.id
          (some (r.other.identity, r.survivor.identity)) s.catalog.db).isOk then
        some (answered, r)
      else none
  | _, _ => none

/-- Whatever the step merges is a safe merge. -/
def MergesSafely (rules : SweepRules) (s : SweepState) (e : SweepEvent) : Prop :=
  ∀ answered r, s.merges rules e = some (answered, r) →
    SafeMerge rules s.catalog.db answered r

/-- Only the difference of the years, which wraps, speaks for the pair. -/
structure Misjudged (rules : SweepRules) (r : Round) : Prop where
  close : yearClose r.survivor.year r.other.year = true
  far : ∀ x y, r.survivor.year = some x → r.other.year = some y → 1 < (x - y).natAbs
  author : authorMatches rules.toSimilarityRules r.survivor.author r.other.author = false
  cover : phashOk r.survivor r.other = false

/-- No lookup fails for a pair that the gate approves, and the gate misjudges no
pair that is looked up. -/
def Undisturbed (rules : SweepRules) (s : SweepState) : SweepEvent → Prop
  | .sweepFails => ∀ r, s.phase = .looking r → r.approved rules = false
  | .sweep _ => ∀ r, s.phase = .looking r → r.approved rules = true → ¬Misjudged rules r
  | _ => True

/-! ## The gate -/

section Gate

variable {rules : SweepRules} {norm : String}

/-- The gate asks for a primary title. -/
theorem primaryTitle_of_isPrimary {w : ConsolidateWork}
    (h : isPrimary rules norm w = true) : PrimaryTitle rules norm w.identity := by
  simp only [isPrimary, Option.any_eq_true, decide_eq_true_eq] at h
  exact h

theorem corroborated_of_author {a b : ConsolidateWork}
    (h : authorMatches rules.toSimilarityRules a.author b.author = true) :
    Corroborated rules a.identity b.identity := by
  unfold authorMatches at h
  split at h
  · next x y ha hb =>
      simp only [ne_eq, Bool.and_eq_true, decide_eq_true_eq] at h
      exact .authors x y ha hb h.1 h.2
  · contradiction

theorem corroborated_of_cover {a b : ConsolidateWork} (h : phashOk a b = true) :
    Corroborated rules a.identity b.identity := by
  unfold phashOk at h
  simp only [Bool.and_eq_true, Option.any_eq_true, decide_eq_true_eq] at h
  obtain ⟨⟨⟨x, ha, hx⟩, y, hb, hy⟩, p, hp, hclose⟩ := h
  rw [ha, hb] at hp
  exact .covers x y ha hb hx hy p hp hclose

/-- What the gate approves, unless it misjudges the pair. -/
theorem approved_spec {r : Round} (h : r.approved rules = true)
    (hjudged : ¬Misjudged rules r) :
    r.oversized = false ∧ federatedMinTitleChars ≤ r.norm.length ∧
      PrimaryTitle rules r.norm r.survivor.identity ∧
        PrimaryTitle rules r.norm r.other.identity ∧
          Corroborated rules r.survivor.identity r.other.identity := by
  unfold Round.approved at h
  obtain ⟨hsize, hgate⟩ := Bool.and_eq_true_iff.mp h
  unfold consolidateGate at hgate
  split at hgate
  · contradiction
  · next hlong =>
      split at hgate
      · contradiction
      · next hprimary =>
          simp only [Bool.or_eq_true, Bool.not_eq_true', not_or, Bool.not_eq_false]
            at hprimary
          split at hgate
          · next hany =>
              refine ⟨by simpa using hsize, Nat.le_of_not_lt hlong,
                primaryTitle_of_isPrimary hprimary.1, primaryTitle_of_isPrimary hprimary.2,
                ?_⟩
              by_cases hauthor : authorMatches rules.toSimilarityRules r.survivor.author
                  r.other.author = true
              · exact corroborated_of_author hauthor
              · by_cases hcover : phashOk r.survivor r.other = true
                · exact corroborated_of_cover hcover
                · rw [Bool.not_eq_true] at hauthor hcover
                  rw [hauthor, hcover, Bool.or_false, Bool.or_false] at hany
                  by_contra hnone
                  refine hjudged ⟨hany, fun x y hx hy => ?_, hauthor, hcover⟩
                  by_contra hclose
                  exact hnone (.years x y hx hy (Nat.le_of_not_lt hclose))
          · contradiction

end Gate

/-! ## The reads -/

section Reads

variable {db : Db} {norm : String}

/-- The works of a group are there when they are read. -/
theorem hasWork_of_mem_groupWorks {w : ConsolidateWork} (h : w ∈ groupWorks db norm) :
    db.hasWork w.id = true := by
  unfold groupWorks at h
  obtain ⟨row, hrow, rfl⟩ := List.mem_map.mp ((List.mem_insertionSort _).mp h)
  exact hasWork_iff.mpr ⟨row, Table.mem_rows.mp (List.mem_filter.mp hrow).1, rfl⟩

instance : Std.Total (SurvivorOrder db) where
  total a b := by
    unfold SurvivorOrder
    have hid := le_total a.id b.id
    grind

instance : IsTrans ConsolidateWork (SurvivorOrder db) where
  trans a b c hab hbc := by
    unfold SurvivorOrder at *
    have hid : a.id ≤ b.id → b.id ≤ c.id → a.id ≤ c.id := le_trans
    grind

/-- The survivor of a pair is anchored if one of the two is. -/
theorem anchored_of_groupWorks {survivor other : ConsolidateWork}
    (h : groupWorks db norm = [survivor, other]) (hother : anchored db other.id = true) :
    anchored db survivor.id = true := by
  have hsorted : (groupWorks db norm).Pairwise (SurvivorOrder db) :=
    List.pairwise_insertionSort _ _
  rw [h] at hsorted
  have hfirst : SurvivorOrder db survivor other :=
    (List.pairwise_cons.mp hsorted).1 other (List.mem_singleton_self _)
  rcases hfirst with ⟨hsurvivor, -⟩ | ⟨hsame, -⟩
  · exact hsurvivor
  · rw [hsame, hother]

end Reads

/-! ## The invariant

The pair of the round is as it was read, as far as the merge does not ask again. -/

/-- A round that was read from its group. -/
structure Round.Read (minted : List Id) (r : Round) : Prop where
  survivor : r.survivor.id ∈ minted
  other : r.other.id ∈ minted
  others : ∀ w ∈ r.others, w.id ∈ minted
  pair : r.oversized = false →
    r.others = [] ∧ groupWorks r.seen r.norm = [r.survivor, r.other]

/-- A round that is about to be merged. -/
structure Round.Ready (rules : SweepRules) (catalog : CatalogState) (answered : Bool)
    (r : Round) : Prop where
  read : r.Read catalog.minted
  approved : r.approved rules = true
  judged : ¬Misjudged rules r
  answered : answered = true
  apart : isSplitPair catalog.db r.other.id r.survivor.id = false

/-- What is known of a phase's pair. -/
def Phase.Fits (rules : SweepRules) (catalog : CatalogState) : Phase → Prop
  | .looking r => r.Read catalog.minted
  | .queueing r => r.Read catalog.minted
  | .inserting r _ => r.Read catalog.minted
  | .merging answered r => r.Ready rules catalog answered
  | _ => True

/-- What holds between two statements. -/
structure Inv (rules : SweepRules) (s : SweepState) : Prop where
  grounded : Grounded s.catalog
  fits : s.phase.Fits rules s.catalog

section Invariant

variable {rules : SweepRules} {s : SweepState} {r : Round}

/-- The next pair of a round. -/
theorem fits_next {minted : List Id} {catalog : CatalogState} (h : r.Read minted)
    (hsub : minted ⊆ catalog.minted) : r.next.Fits rules catalog := by
  unfold Round.next
  split
  · trivial
  · next other others hothers =>
      refine ⟨hsub h.survivor, ?_, fun w hw => ?_, fun hsize => ?_⟩
      · exact hsub (h.others other (hothers ▸ List.mem_cons_self))
      · exact hsub (h.others w (hothers ▸ List.mem_cons_of_mem _ hw))
      · have hnil := (h.pair hsize).1
        rw [hothers] at hnil
        contradiction

/-- Ids that are minted later do not matter. -/
theorem Round.Read.mono {minted minted' : List Id} (h : r.Read minted)
    (hsub : minted ⊆ minted') : r.Read minted' :=
  ⟨hsub h.survivor, hsub h.other, fun w hw => hsub (h.others w hw), h.pair⟩

/-- The phase still fits after a write that splits nothing the round is about. -/
theorem Phase.Fits.mono {catalog catalog' : CatalogState} {phase : Phase}
    (h : phase.Fits rules catalog) (hsub : catalog.minted ⊆ catalog'.minted)
    (hsplit : ∀ one other, one ∈ catalog.minted → other ∈ catalog.minted →
      isSplitPair catalog.db one other = false → isSplitPair catalog'.db one other = false) :
    phase.Fits rules catalog' := by
  cases phase with
  | looking r => exact Round.Read.mono h hsub
  | queueing r => exact Round.Read.mono h hsub
  | inserting r ssid => exact Round.Read.mono h hsub
  | merging answered r =>
      exact ⟨h.read.mono hsub, h.approved, h.judged, h.answered,
        hsplit _ _ h.read.other h.read.survivor h.apart⟩
  | listing | grouping | returned => trivial

/-- A split separates a work from one that is new. -/
theorem isSplitPair_step {catalog : CatalogState} (op : Op) {one other : Id}
    (hone : one ∈ catalog.minted) (hother : other ∈ catalog.minted)
    (h : isSplitPair catalog.db one other = false) :
    isSplitPair (catalog.step rules.toRules op).db one other = false := by
  cases hsplit : catalog.splits rules.toRules op with
  | none => rw [isSplitPair_congr (step_workSplit hsplit), h]
  | some halves =>
      obtain ⟨hnew, -, plan, -, hold, actor, outcome, hok⟩ :=
        step_of_splits (hsplit : _ = some (halves.1, halves.2))
      rw [← Bool.not_eq_true, isSplitPair_commitSplit hok, h]
      rintro (hfalse | heq)
      · contradiction
      · rcases orderedPair_eq heq with ⟨-, rfl⟩ | ⟨-, rfl⟩
        · exact hnew hother
        · exact hnew hone

/-- An edit takes no work away. -/
theorem hasWork_editWork {row : Work} {db : Db} {id : Id} :
    (editWork row db).hasWork id = db.hasWork id := hasWork_update

/-- A merge of the sweep is a merge of the catalogue. -/
theorem step_mergeWorks (rules : SweepRules) {catalog : CatalogState} {source target : Id}
    {expected : Option (WorkIdentity × WorkIdentity)} {outcome : MergeOutcome} {db : Db}
    (h : mergeWorksChecked rules.toTextRules source target expected catalog.db =
      .ok (outcome, db)) :
    catalog.step rules.toRules (.mergeWorks source target expected) =
      { catalog with db := db } := by
  have hwrite : catalog.write rules.toRules (.mergeWorks source target expected) = db := by
    unfold CatalogState.write
    dsimp only
    rw [h]
    rfl
  unfold CatalogState.step
  rw [if_pos (by rfl), hwrite]
  rfl

/-- Queueing a pair writes one row. -/
theorem grounded_insertMergeCandidate {catalog : CatalogState}
    {newId sourceSeriesId workId : Id} {out : Option Id} {db : Db}
    (hgrounded : Grounded catalog)
    (h : insertMergeCandidate newId sourceSeriesId workId catalog.db = .ok (out, db)) :
    Grounded { catalog with db := db } ∧ db.workSplit = catalog.db.workSplit := by
  unfold insertMergeCandidate at h
  dsimp only at h
  split at h
  · cases h
    exact ⟨hgrounded, rfl⟩
  · split at h
    · contradiction
    · split at h
      · contradiction
      · cases h
        exact ⟨grounded_of_same hgrounded (fun _ => rfl) rfl rfl rfl, rfl⟩

/-- A group that has just been read. -/
theorem fits_readGroup {norm : String} {groups : List String}
    (hgrounded : Grounded s.catalog) :
    (readGroup s.catalog.db norm groups).Fits rules s.catalog := by
  unfold readGroup
  split
  · next survivor other others hworks =>
      have hminted : ∀ w ∈ survivor :: other :: others, w.id ∈ s.catalog.minted := by
        intro w hw
        exact hgrounded.live_minted _ (hasWork_of_mem_groupWorks (hworks ▸ hw))
      refine ⟨hminted _ List.mem_cons_self,
        hminted _ (List.mem_cons_of_mem _ List.mem_cons_self), fun w hw =>
          hminted w (List.mem_cons_of_mem _ (List.mem_cons_of_mem _ hw)), fun hsize => ?_⟩
      have hlength : others.length = 0 := by
        simpa [consolidateMaxCluster] using hsize
      have hnil := List.eq_nil_of_length_eq_zero hlength
      exact ⟨hnil, hnil ▸ hworks⟩
  · trivial

end Invariant

/-! ## Steps

Each phase goes on to the next with what it knows. -/

section Steps

variable {rules : SweepRules} {s : SweepState} {r : Round}

/-- The sweep goes on, and the catalogue does not change. -/
theorem Inv.goto (h : Inv rules s) {phase : Phase} (hfits : phase.Fits rules s.catalog)
    (f : ConsolidateOutcome → ConsolidateOutcome) : Inv rules ((s.count f).goto phase) :=
  ⟨h.grounded, hfits⟩

/-- What the verdict on a pair leads to. -/
theorem fits_judged {answered : Bool} (hread : r.Read s.catalog.minted)
    (hmerging : r.approved rules = true → r.Ready rules s.catalog answered) :
    (r.judged rules answered).Fits rules s.catalog := by
  unfold Round.judged
  split
  · next happroved => exact hmerging happroved
  · exact hread

theorem inv_advance (h : Inv rules s) (newCandidateId : Id)
    (hquiet : Undisturbed rules s (.sweep newCandidateId)) :
    Inv rules (s.advance rules newCandidateId) := by
  have hfits := h.fits
  unfold SweepState.advance
  split
  · exact ⟨h.grounded, trivial⟩
  · exact ⟨h.grounded, trivial⟩
  · exact ⟨h.grounded, fits_readGroup h.grounded⟩
  · next r hphase =>
      rw [hphase] at hfits
      split
      · exact ⟨h.grounded, fits_next hfits (List.Subset.refl _)⟩
      · next hsplit =>
          refine ⟨h.grounded, fits_judged hfits fun happroved => ?_⟩
          exact ⟨hfits, happroved, hquiet r hphase happroved, rfl,
            Bool.not_eq_true _ ▸ hsplit⟩
  · next answered r hphase =>
      rw [hphase] at hfits
      split
      · next outcome db hok =>
          have hgrounded : Grounded { s.catalog with db := db } :=
            step_mergeWorks rules hok ▸ grounded_step h.grounded
          exact ⟨hgrounded, fits_next hfits.read (List.Subset.refl _)⟩
      · exact h.goto (fits_next hfits.read (List.Subset.refl _)) _
      · exact ⟨h.grounded, trivial⟩
  · next r hphase =>
      rw [hphase] at hfits
      split
      · exact h.goto (fits_next hfits (List.Subset.refl _)) _
      · exact ⟨h.grounded, hfits⟩
  · next r ssid hphase =>
      rw [hphase] at hfits
      split
      · next out db hok =>
          exact ⟨(grounded_insertMergeCandidate h.grounded hok).1,
            fits_next hfits (List.Subset.refl _)⟩
      · exact ⟨h.grounded, trivial⟩
  · exact h

theorem inv_fail (h : Inv rules s) (hquiet : Undisturbed rules s .sweepFails) :
    Inv rules (s.fail rules) := by
  have hfits := h.fits
  unfold SweepState.fail
  split
  · next r hphase =>
      rw [hphase] at hfits
      refine ⟨h.grounded, fits_judged hfits fun happroved => ?_⟩
      rw [hquiet r hphase] at happroved
      contradiction
  · exact h
  · exact ⟨h.grounded, trivial⟩

theorem inv_step (s : SweepState) (e : SweepEvent) (h : Inv rules s)
    (hquiet : Undisturbed rules s e) : Inv rules (step rules s e) := by
  cases e with
  | traffic op =>
      exact ⟨grounded_step h.grounded, h.fits.mono minted_subset_step
        fun one other hone hother hapart => isSplitPair_step op hone hother hapart⟩
  | edit row =>
      refine ⟨grounded_of_same h.grounded (fun id => hasWork_editWork) rfl rfl rfl, ?_⟩
      exact h.fits.mono (List.Subset.refl _) fun _ _ _ _ hapart => hapart
  | start limit cursor =>
      show Inv rules (match s.phase with
        | .returned _ => _
        | _ => s)
      split
      · exact ⟨h.grounded, trivial⟩
      · exact h
  | sweep newCandidateId => exact inv_advance h newCandidateId hquiet
  | sweepFails => exact inv_fail h hquiet

/-- The works that a merge folds are as the gate saw them. -/
theorem identity_of_merge {source target : Id} {expSrc expTgt : WorkIdentity} {db : Db}
    (h : (mergeWorksChecked rules.toTextRules source target (some (expSrc, expTgt))
      db).isOk = true) :
    (∃ w ∈ db.work, w.id = source ∧ identity w = expSrc) ∧
      ∃ w ∈ db.work, w.id = target ∧ identity w = expTgt := by
  have hgate := (mergeWorksChecked_isOk_iff.mp h).2.2.2.1
  have hfound : ∀ {id : Id} {expected : WorkIdentity},
      (db.work? id).map identity = some expected →
        ∃ w ∈ db.work, w.id = id ∧ identity w = expected := by
    intro id expected heq
    obtain ⟨w, hw, hidentity⟩ := Option.map_eq_some_iff.mp heq
    exact ⟨w, List.mem_of_find?_eq_some hw, by simpa using List.find?_some hw, hidentity⟩
  unfold changedUnderGate at hgate
  dsimp only at hgate
  split at hgate
  · contradiction
  · next hsource =>
      split at hgate
      · contradiction
      · next htarget => exact ⟨hfound (not_not.mp hsource), hfound (not_not.mp htarget)⟩

/-- A merge of the sweep, from a state of a run. -/
theorem mergesSafely_of_inv (h : Inv rules s) (e : SweepEvent) :
    MergesSafely rules s e := by
  intro answered r hmerges
  unfold SweepState.merges at hmerges
  split at hmerges
  · next hphase =>
      split at hmerges
      · next hok =>
          cases hmerges
          have hready : r.Ready rules s.catalog answered := by
            have hfits := h.fits
            rw [hphase] at hfits
            exact hfits
          obtain ⟨hsize, hlong, hsurvivor, hother, hcorroborated⟩ :=
            approved_spec hready.approved hready.judged
          obtain ⟨⟨b, hb, hbid, hbeq⟩, a, ha, haid, haeq⟩ := identity_of_merge hok
          have hpair := (hready.read.pair hsize).2
          refine ⟨hready.answered, hready.apart, ⟨hlong, a, ha, haid, b, hb, hbid, ?_⟩,
            hpair, anchored_of_groupWorks hpair⟩
          rw [haeq, hbeq]
          exact ⟨hsurvivor, hother, hcorroborated⟩
      · contradiction
  · contradiction

end Steps

/-- **The sweep merges what its gate approves.**  Over any interleaving with the
other writers and with admin edits, whatever statement fails: if no lookup of a
split fails for a pair that the gate approves, and no pair's years differ by so much
that the difference wraps, every merge of the sweep is safe. -/
theorem merges_safe_run (rules : SweepRules) (catalog : CatalogState)
    (hgrounded : Grounded catalog) (outcome : ConsolidateOutcome)
    (events : List SweepEvent)
    (hquiet : Machine.EachStep (step rules) (Undisturbed rules)
      ⟨catalog, .returned true, outcome⟩ events) :
    Machine.EachStep (step rules) (MergesSafely rules) ⟨catalog, .returned true, outcome⟩
      events := by
  have hinv : Inv rules ⟨catalog, .returned true, outcome⟩ := ⟨hgrounded, trivial⟩
  exact Machine.EachStep.of_invariant (I := Inv rules) inv_step
    (fun _ e h _ => mergesSafely_of_inv h e) hinv hquiet

/-! ## A lookup that fails

`unwrap_or(false)` turns an error into an answer. -/

/-- Rules for plain input, with a hasher that tells nothing apart. -/
def plainSweepRules : SweepRules where
  toRules := plainRules
  toLowercase := id
  isWhitespace := (· = ' ')
  isAlphanumeric := (· ≠ ' ')
  hashOne _ := 0

/-- Two works of one year with one title, and the pairs an admin has split. -/
def twins (splits : Table WorkSplit) : CatalogState :=
  ⟨{ Db.empty with
      work := ⟨[{ (titled "abcde").row "a" with year := some 2000 },
        { (titled "abcde").row "b" with year := some 2000 }], by decide⟩
      workAlias := ⟨[⟨"a", "abcde", "abcde", none⟩, ⟨"b", "abcde", "abcde", none⟩],
        by decide⟩
      workSplit := splits },
    ["a", "b"], []⟩

/-- Two works that share a title are a catalogue. -/
theorem grounded_twins (splits : Table WorkSplit) : Grounded (twins splits) where
  claims_live e he := absurd he (Table.not_mem_empty e)
  linked := ⟨fun ss hss => absurd hss (Table.not_mem_empty ss),
    fun e he => absurd he (Table.not_mem_empty e)⟩
  live_minted id hid := by
    obtain ⟨w, hw, rfl⟩ := hasWork_iff.mp hid
    have hids : (twins splits).db.work.rows.map Work.id = ["a", "b"] := rfl
    have hmem : w.id ∈ (twins splits).db.work.rows.map Work.id :=
      List.mem_map_of_mem (Table.mem_rows.mpr hw)
    rw [hids] at hmem
    exact hmem

/-- The pair, as the admin's split has recorded it. -/
def splitTwins : Table WorkSplit :=
  ⟨[⟨"a", "b", some "admin"⟩], List.pairwise_singleton _ _⟩

/-- A pass in which the lookup of the split fails. -/
def lookupFails : List SweepEvent :=
  [.start 10 "", .sweep "", .sweep "", .sweepFails, .sweep ""]

/-- The pair that an admin split apart is merged. -/
theorem not_mergesSafely_lookupFails :
    Grounded (twins splitTwins) ∧
      ¬Machine.EachStep (step plainSweepRules) (MergesSafely plainSweepRules)
        ⟨twins splitTwins, .returned true, ⟨[], 0, 0, 0, 0, ""⟩⟩ lookupFails := by
  refine ⟨grounded_twins _, fun h => ?_⟩
  simp only [lookupFails, Machine.eachStep_cons] at h
  obtain ⟨-, -, -, -, hlast, -⟩ := h
  have hmerges : (SweepState.merges plainSweepRules (Machine.run (step plainSweepRules)
      ⟨twins splitTwins, .returned true, ⟨[], 0, 0, 0, 0, ""⟩⟩ (lookupFails.take 4))
        (.sweep "")).map Prod.fst = some false := by
    decide +kernel
  obtain ⟨⟨answered, r⟩, hsome, hanswered⟩ := Option.map_eq_some_iff.mp hmerges
  have hsafe : answered = true := (hlast answered r hsome).answered
  rw [hsafe] at hanswered
  contradiction

/-- The years of the pair that is about to be looked up. -/
def Phase.years : Phase → Option (Option Int × Option Int)
  | .looking r => some (r.survivor.year, r.other.year)
  | _ => none

/-- A pass over the two works when no admin has split them. -/
def plainPass : List SweepEvent :=
  [.start 10 "", .sweep "", .sweep "", .sweep "", .sweep ""]

theorem merges_safe_run_plainPass :
    Machine.EachStep (step plainSweepRules) (MergesSafely plainSweepRules)
      ⟨twins .empty, .returned true, ⟨[], 0, 0, 0, 0, ""⟩⟩ plainPass := by
  refine merges_safe_run plainSweepRules (twins .empty) (grounded_twins _)
    ⟨[], 0, 0, 0, 0, ""⟩ plainPass ?_
  simp only [plainPass, Machine.eachStep_cons, Machine.eachStep_nil, and_true]
  have hyears : ∀ n, n ≤ 4 → (Machine.run (step plainSweepRules)
      ⟨twins .empty, .returned true, ⟨[], 0, 0, 0, 0, ""⟩⟩ (plainPass.take n)).phase.years =
        if n = 3 then some (some 2000, some 2000) else none := by
    decide +kernel
  refine ⟨trivial, ?_, ?_, ?_, ?_⟩
  · intro r hphase
    have hnone := (congrArg Phase.years hphase).symm.trans (hyears 1 (by omega))
    contradiction
  · intro r hphase
    have hnone := (congrArg Phase.years hphase).symm.trans (hyears 2 (by omega))
    contradiction
  · intro r hphase _ hjudged
    have hsame := (congrArg Phase.years hphase).symm.trans (hyears 3 (by omega))
    have hpair : (r.survivor.year, r.other.year) = (some 2000, some 2000) :=
      Option.some.inj hsame
    obtain ⟨hsurvivor, hother⟩ := Prod.mk.inj hpair
    have hfar := hjudged.far 2000 2000 hsurvivor hother
    omega
  · intro r hphase
    have hnone := (congrArg Phase.years hphase).symm.trans (hyears 4 (by omega))
    contradiction

end Komika.Dedup.Consolidate
