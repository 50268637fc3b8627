import Komika.Catalog.Effects
import Komika.Catalog.Runs
import Komika.Dedup.Similarity

/-!
# The dedup matcher

`resolve_ex` of `dedup.rs`, rung by rung: external ids, exact titles, fuzzy
titles, scores, decision.  It reads the catalogue and writes nothing.

An `AutoMerge` rests on an external id, on a title that identifies one work or
on a cover, and never names the excluded work.  Only the first rung does not ask
whether an admin has split the pair apart: `resolveEx_sound_iff`.

* `externalHit_eq_some_iff` — the first rung;
* `candidateIds_of_length` — the exact rung, and the fuzzy one behind it;
* `foldl_keepBest`, `bestOf_mem` — the best of the candidates;
* `identified_of_exactAutoMerge`, `identified_of_cover` — what a merge rests on;
* `resolveEx_sound_iff` — every verdict;
* `not_sound_splitApart` — an external id that an admin's split does not stop.
-/

namespace Komika.Dedup.Resolve

open Komika.Lib
open Komika.Catalog.Schema Komika.Catalog.Database Komika.Catalog.Ingest
open Komika.Catalog.Split Komika.Catalog.Effects
open Komika.Dedup.Similarity

/-- What the matcher takes from the standard library. -/
structure DedupRules extends TextRules, SimilarityRules

/-- The order a `HashSet` is iterated in. -/
structure HashOrder where
  order : List Id → List Id
  perm : ∀ ids, (order ids).Perm ids

/-- `Candidate`: what is known of the series. -/
structure Candidate where
  title : String
  altTitles : List String
  description : Option String
  author : Option String
  year : Option Int
  coverPhash : Option String
  externalIds : List (String × String)

/-- `Decision`: the verdict on a candidate, with the score and the rung that decided
it. -/
inductive Decision where
  | autoMerge (workId : Id) (score : Float) (method : String)
  | review (workId : Id) (score : Float) (method : String)
  | new

/-- `HIGH`: from this score on a candidate that its cover corroborates is merged. -/
def high : Float := 0.85

/-- `MID`: from this score on a candidate is put before an admin. -/
def mid : Float := 0.6

/-- `PHASH_CORROBORATION`: covers that are so similar confirm a fuzzy match. -/
def phashCorroboration : Float := 0.90

/-- `FUZZY_BLOCK_LIMIT`, the works that one token may bring into a block. -/
def fuzzyBlockLimit : Nat := 50

/-- `EXACT_MERGE_MIN_TITLE_CHARS`: a shorter title is never merged on its own. -/
def exactMergeMinTitleChars : Nat := 5

/-- `FUZZY_BLOCK_TOKENS`: how many of a title's tokens are looked up. -/
def fuzzyBlockTokens : Nat := 3

/-! ## Reads

The queries of the rungs; none of them is repeated. -/

/-- `find_works_by_alias`: the works with the alias, each once, in the order of the
index. -/
def findWorksByAlias (db : Db) (normalized : String) : List Id :=
  if normalized = "" then []
  else ((db.workAlias.rows.filter fun a => a.normalizedTitle = normalized).map
    WorkAlias.workId).dedup

/-- `candidate_work_ids_by_token`: the first works with the token; a token of one byte
finds nothing. -/
def candidateWorkIdsByToken (db : Db) (token : String) (limit : Nat) : List Id :=
  if token.utf8ByteSize < 2 then []
  else ((db.workAliasToken.rows.filter fun t => t.token = token).map
    WorkAliasToken.workId).dedup.take limit

/-- `WorkMatchData`: what a candidate is scored against. -/
structure WorkMatchData where
  description : Option String
  author : Option String
  year : Option Int
  coverPhash : Option String
  aliasesNorm : List String

/-- An entry of `load_match_data_batch`. -/
def loadMatchData (db : Db) (workId : Id) : Option WorkMatchData :=
  (db.work? workId).map fun w =>
    { description := w.description
      author := w.author
      year := w.year
      coverPhash := w.coverPhash
      aliasesNorm := (db.workAlias.rows.filter fun a => a.workId = workId).map
        WorkAlias.normalizedTitle }

/-! ## The ladder

A rung is only asked if those above it have found nothing. -/

/-- The first rung: the first external id of a work that is not excluded. -/
def externalHit (db : Db) (exclude : Option Id) : List (String × String) → Option Id
  | [] => none
  | (provider, ext) :: rest =>
      if provider = "" ∨ ext = "" then externalHit db exclude rest
      else
        match externalWork db provider ext with
        | none => externalHit db exclude rest
        | some workId =>
            if some workId = exclude then externalHit db exclude rest else some workId

/-- The normalised titles, sorted and distinct. -/
def normTitles (rules : DedupRules) (cand : Candidate) : List String :=
  ((((cand.title :: cand.altTitles).map rules.normalizeTitle).filter
    fun t => t ≠ "").mergeSort fun a b => decide (a ≤ b)).dedup

/-- The excluded work is dropped. -/
def withoutExcluded (exclude : Option Id) (ids : List Id) : List Id :=
  ids.filter fun id => some id ≠ exclude

/-- The second rung: the works that share a title. -/
def exactIds (db : Db) (exclude : Option Id) (titles : List String) : List Id :=
  withoutExcluded exclude (titles.flatMap (findWorksByAlias db)).dedup

/-- `exact_norm_hits`: the titles that hit a work other than the excluded one. -/
def exactNormHits (db : Db) (exclude : Option Id) (titles : List String) : List String :=
  titles.filter fun t => (findWorksByAlias db t).any fun id => some id ≠ exclude

/-- `top_tokens`: the longest, equal lengths in lexical order. -/
def topTokens (rules : DedupRules) (titles : List String) (n : Nat) : List String :=
  ((((titles.flatMap (splitWhitespace rules.toSimilarityRules)).filter
    fun w => 3 ≤ w.length).mergeSort fun a b =>
      decide (b.length < a.length ∨ (b.length = a.length ∧ a ≤ b))).dedup).take n

/-- The third rung: the works that share a long word of a title. -/
def fuzzyIds (rules : DedupRules) (db : Db) (exclude : Option Id)
    (titles : List String) : List Id :=
  withoutExcluded exclude ((topTokens rules titles fuzzyBlockTokens).flatMap fun token =>
    candidateWorkIdsByToken db token fuzzyBlockLimit).dedup

/-- `candidate_ids`: refilled by the third rung if the second leaves none. -/
def candidateIds (rules : DedupRules) (db : Db) (exclude : Option Id)
    (titles : List String) : List Id :=
  if exactIds db exclude titles = [] then fuzzyIds rules db exclude titles
  else exactIds db exclude titles

/-! ## Scores

`score_candidate`, in `f64`. -/

/-- A score, and how it came about. -/
structure Scored where
  score : Float
  phashSim : Option Float

/-- `score_candidate`: the best pair of titles weighs six tenths, the description or the
cover four, and an author in common adds a twentieth. -/
def scoreCandidate (rules : DedupRules) (cand : Candidate) (titles : List String)
    (md : WorkMatchData) : Scored :=
  let sim := rules.toSimilarityRules
  let titleSim := ((titles.map (titleShingles sim)).flatMap fun nt =>
    (md.aliasesNorm.map (titleShingles sim)).map fun al =>
      titleSimilarityPre nt al).foldl max 0.0
  let described : Float :=
    match cand.description, md.description with
    | some a, some b => max 0.0 (jaccard (shingles sim a) (shingles sim b))
    | _, _ => 0.0
  let phashSim := phashSimilarity cand.coverPhash md.coverPhash
  let corrob := phashSim.elim described fun p => max described p
  let score := 0.6 * titleSim + 0.4 * corrob
  let score := if authorMatches sim cand.author md.author then score + 0.05 else score
  let score := if yearClose cand.year md.year then score + 0.03 else score
  ⟨min score 1.0, phashSim⟩

/-- What the descriptions contribute is nothing, or their similarity. -/
theorem described_cases {P : Float → Prop} (similarity : String → String → Float)
    (hnone : P 0.0) (hsome : ∀ a b, P (max 0.0 (similarity a b))) (a b : Option String) :
    P (match a, b with
      | some a, some b => max 0.0 (similarity a b)
      | _, _ => 0.0) := by
  split
  · exact hsome _ _
  · exact hnone

/-- The scored candidate replaces the best so far: ties go to the lowest id. -/
def replaces (scored : Scored) (workId : Id) : Option (Scored × Id) → Bool
  | none => true
  | some (best, bestId) =>
      scored.score > best.score || (scored.score == best.score && decide (workId < bestId))

/-- A round of the loop over the candidates; one without a `work` row is
skipped. -/
def keepBest (score : Id → Option Scored) (best : Option (Scored × Id)) (workId : Id) :
    Option (Scored × Id) :=
  match score workId with
  | none => best
  | some scored => if replaces scored workId best then some (scored, workId) else best

/-- The loop over the candidates. -/
def bestOf (score : Id → Option Scored) (ids : List Id) : Option (Scored × Id) :=
  ids.foldl (keepBest score) none

/-- The score of a work, if it has a row. -/
def scoreOf (rules : DedupRules) (db : Db) (cand : Candidate) (workId : Id) :
    Option Scored :=
  (loadMatchData db workId).map (scoreCandidate rules cand (normTitles rules cand))

/-! ## The decision

The thresholds, in their order. -/

/-- `cover_corroborated`: the covers are close, and the candidate's says
something. -/
def coverCorroborated (cand : Candidate) (scored : Scored) : Bool :=
  (scored.phashSim.any fun p => p ≥ phashCorroboration) &&
    cand.coverPhash.any isDiscriminativePhash

/-- An admin has split the pair apart. -/
def splitFrom (db : Db) (exclude : Option Id) (workId : Id) : Bool :=
  exclude.any fun self => isSplitPair db self workId

/-- The exact-title rung: the titles identify one work, and one that hit is not
a common phrase. -/
def exactAutoMerge (db : Db) (exclude : Option Id) (titles : List String)
    (exactHit : Bool) : Bool :=
  exactHit && (exactIds db exclude titles).length = 1 &&
    (exactNormHits db exclude titles).any fun t => exactMergeMinTitleChars ≤ t.length

/-- The last rung: a match of titles, or a high score that the cover confirms, is
merged; a middling score is put before an admin. -/
def decision (cand : Candidate) (exact : Bool) (method : String) (scored : Scored)
    (workId : Id) : Decision :=
  if exact || (scored.score ≥ high && coverCorroborated cand scored) then
    .autoMerge workId scored.score method
  else if scored.score ≥ mid then .review workId scored.score method
  else .new

/-- The rungs below the external ids. -/
def resolveTitles (rules : DedupRules) (order : HashOrder) (db : Db) (cand : Candidate)
    (exclude : Option Id) : Decision :=
  let titles := normTitles rules cand
  if titles = [] then .new
  else
    let exact := exactIds db exclude titles
    let exactHit :=
      exactNormHits db exclude titles ≠ [] && !(exclude.isSome && exact = [])
    let ids := candidateIds rules db exclude titles
    if ids = [] then .new
    else
      match bestOf (scoreOf rules db cand) (order.order ids) with
      | none => .new
      | some (scored, workId) =>
          if splitFrom db exclude workId then .new
          else
            decision cand (exactAutoMerge db exclude titles exactHit)
              (if exactHit then "title_exact" else "fuzzy") scored workId

/-- `resolve_ex`: an external id decides before any title does. -/
def resolveEx (rules : DedupRules) (order : HashOrder) (db : Db) (cand : Candidate)
    (exclude : Option Id) : Decision :=
  match externalHit db exclude cand.externalIds with
  | some workId => .autoMerge workId 1.0 "external_id"
  | none => resolveTitles rules order db cand exclude

/-! ## What a decision rests on

The identification that a merge needs, rung by rung. -/

/-- The external id is this work's. -/
def MapsTo (db : Db) (provider ext : String) (workId : Id) : Prop :=
  (⟨workId, provider, ext⟩ : WorkExternalId) ∈ db.workExternalId

/-- The work has an alias among the titles. -/
def SharesTitle (db : Db) (titles : List String) (workId : Id) : Prop :=
  ∃ a ∈ db.workAlias, a.workId = workId ∧ a.normalizedTitle ∈ titles

/-- What identifies a work. -/
inductive Identified (rules : DedupRules) (db : Db) (cand : Candidate)
    (exclude : Option Id) (workId : Id) : Prop
  | externalId (provider ext : String) (hmem : (provider, ext) ∈ cand.externalIds)
      (hprovider : provider ≠ "") (hext : ext ≠ "") (hmaps : MapsTo db provider ext workId)
  /-- No other work shares a title, and it shares one that is long enough. -/
  | onlyTitle (honly : ∀ v, some v ≠ exclude → SharesTitle db (normTitles rules cand) v →
        v = workId) (title : String) (hmem : title ∈ normTitles rules cand)
      (hlong : exactMergeMinTitleChars ≤ title.length) (hshares : SharesTitle db [title] workId)
  | cover (scored : Scored) (hscored : scoreOf rules db cand workId = some scored)
      (hhigh : scored.score ≥ high) (p : Float) (hp : scored.phashSim = some p)
      (hclose : p ≥ phashCorroboration) (hash : String) (hhash : cand.coverPhash = some hash)
      (hdiscriminative : isDiscriminativePhash hash = true)

/-- The property of a verdict. -/
structure Sound (rules : DedupRules) (order : HashOrder) (db : Db) (cand : Candidate)
    (exclude : Option Id) : Prop where
  autoMerge : ∀ workId score method,
    resolveEx rules order db cand exclude = .autoMerge workId score method →
      some workId ≠ exclude ∧ splitFrom db exclude workId = false ∧
        Identified rules db cand exclude workId
  review : ∀ workId score method,
    resolveEx rules order db cand exclude = .review workId score method →
      some workId ≠ exclude ∧ splitFrom db exclude workId = false

/-- The external id is empty, or belongs to the excluded work or to none. -/
def Skipped (db : Db) (exclude : Option Id) (external : String × String) : Prop :=
  external.1 ≠ "" → external.2 ≠ "" →
    ∀ v, MapsTo db external.1 external.2 v → some v = exclude

/-- The first external id that is not skipped belongs to this work. -/
def FirstExternal (db : Db) (exclude : Option Id) (externalIds : List (String × String))
    (workId : Id) : Prop :=
  ∃ before provider ext after, externalIds = before ++ (provider, ext) :: after ∧
    provider ≠ "" ∧ ext ≠ "" ∧ MapsTo db provider ext workId ∧ some workId ≠ exclude ∧
      ∀ external ∈ before, Skipped db exclude external

section Rungs

variable {rules : DedupRules} {order : HashOrder} {db : Db} {cand : Candidate}
  {exclude : Option Id} {workId : Id}

/-- An id hits, or one of those behind it does. -/
theorem firstExternal_cons {provider ext : String} {rest : List (String × String)} :
    FirstExternal db exclude ((provider, ext) :: rest) workId ↔
      (provider ≠ "" ∧ ext ≠ "" ∧ MapsTo db provider ext workId ∧ some workId ≠ exclude) ∨
        (Skipped db exclude (provider, ext) ∧ FirstExternal db exclude rest workId) := by
  constructor
  · rintro ⟨before, p, x, after, heq, hp, hx, hmaps, hne, hskip⟩
    cases before with
    | nil =>
        cases heq
        exact .inl ⟨hp, hx, hmaps, hne⟩
    | cons first before =>
        cases heq
        exact .inr ⟨hskip _ List.mem_cons_self, before, p, x, after, rfl, hp, hx, hmaps, hne,
          fun external hmem => hskip external (List.mem_cons_of_mem _ hmem)⟩
  · rintro (⟨hp, hx, hmaps, hne⟩ | ⟨hfirst, before, p, x, after, rfl, hp, hx, hmaps, hne,
      hskip⟩)
    · exact ⟨[], provider, ext, rest, rfl, hp, hx, hmaps, hne,
        fun _ hmem => absurd hmem List.not_mem_nil⟩
    · refine ⟨(provider, ext) :: before, p, x, after, rfl, hp, hx, hmaps, hne, ?_⟩
      intro external hmem
      rcases List.mem_cons.mp hmem with rfl | hmem
      · exact hfirst
      · exact hskip external hmem

/-- What is skipped does not hit, and what is not skipped hits one work. -/
theorem firstExternal_cons_of_skipped {provider ext : String}
    {rest : List (String × String)} (hskip : Skipped db exclude (provider, ext)) :
    FirstExternal db exclude ((provider, ext) :: rest) workId ↔
      FirstExternal db exclude rest workId := by
  rw [firstExternal_cons]
  constructor
  · rintro (⟨hp, hx, hmaps, hne⟩ | ⟨-, hrest⟩)
    · exact absurd (hskip hp hx workId hmaps) hne
    · exact hrest
  · exact fun hrest => .inr ⟨hskip, hrest⟩

/-- The first rung finds the first. -/
theorem externalHit_eq_some_iff {externalIds : List (String × String)} :
    externalHit db exclude externalIds = some workId ↔
      FirstExternal db exclude externalIds workId := by
  induction externalIds with
  | nil =>
      refine iff_of_false (by simp [externalHit]) ?_
      rintro ⟨before, p, x, after, heq, -⟩
      exact List.cons_ne_nil _ _ (List.append_eq_nil_iff.mp heq.symm).2
  | cons external rest ih =>
      obtain ⟨provider, ext⟩ := external
      unfold externalHit
      split
      · next hempty =>
          rw [ih, firstExternal_cons_of_skipped]
          exact fun hp hx => absurd hempty (not_or.mpr ⟨hp, hx⟩)
      · next hfull =>
          obtain ⟨hp, hx⟩ := not_or.mp hfull
          split
          · next hnone =>
              rw [ih, firstExternal_cons_of_skipped]
              intro _ _ v hmaps
              exact absurd rfl (externalWork_eq_none.mp hnone _ hmaps rfl)
          · next v hsome =>
              have hmaps : MapsTo db provider ext v := externalWork_eq_some.mp hsome
              have honly : ∀ u, MapsTo db provider ext u → u = v := by
                intro u hu
                have heq : some u = some v :=
                  (externalWork_eq_some.mpr hu).symm.trans hsome
                exact Option.some.inj heq
              split
              · next hexcluded =>
                  rw [ih, firstExternal_cons_of_skipped]
                  exact fun _ _ u hu => honly u hu ▸ hexcluded
              · next hother =>
                  rw [firstExternal_cons, Option.some.injEq]
                  constructor
                  · rintro rfl
                    exact .inl ⟨hp, hx, hmaps, hother⟩
                  · rintro (⟨-, -, hw, -⟩ | ⟨hskip, -⟩)
                    · exact (honly workId hw).symm
                    · exact absurd (hskip hp hx v hmaps) hother

/-- The works with the title among their aliases. -/
theorem mem_findWorksByAlias {title : String} (hne : title ≠ "") :
    workId ∈ findWorksByAlias db title ↔ SharesTitle db [title] workId := by
  unfold findWorksByAlias SharesTitle
  rw [if_neg hne, List.mem_dedup, List.mem_map]
  simp only [List.mem_filter, decide_eq_true_eq, List.mem_singleton, Table.mem_rows]
  constructor
  · rintro ⟨a, ⟨ha, htitle⟩, hwork⟩
    exact ⟨a, ha, hwork, htitle⟩
  · rintro ⟨a, ha, hwork, htitle⟩
    exact ⟨a, ⟨ha, htitle⟩, hwork⟩

/-- Titles that normalise to nothing are dropped. -/
theorem ne_of_mem_normTitles {title : String} (h : title ∈ normTitles rules cand) :
    title ≠ "" := by
  unfold normTitles at h
  rw [List.mem_dedup, List.mem_mergeSort] at h
  simpa using (List.mem_filter.mp h).2

theorem mem_withoutExcluded {ids : List Id} :
    workId ∈ withoutExcluded exclude ids ↔ workId ∈ ids ∧ some workId ≠ exclude := by
  simp [withoutExcluded]

theorem mem_exactIds {titles : List String} (hne : ∀ t ∈ titles, t ≠ "") :
    workId ∈ exactIds db exclude titles ↔
      SharesTitle db titles workId ∧ some workId ≠ exclude := by
  unfold exactIds
  rw [mem_withoutExcluded, List.mem_dedup, List.mem_flatMap]
  refine and_congr_left fun _ => ?_
  constructor
  · rintro ⟨t, ht, hmem⟩
    obtain ⟨a, ha, hwork, htitle⟩ := (mem_findWorksByAlias (hne t ht)).mp hmem
    exact ⟨a, ha, hwork, List.mem_singleton.mp htitle ▸ ht⟩
  · rintro ⟨a, ha, hwork, htitle⟩
    refine ⟨a.normalizedTitle, htitle, (mem_findWorksByAlias (hne _ htitle)).mpr ?_⟩
    exact ⟨a, ha, hwork, List.mem_singleton_self _⟩

/-- None of the candidates is excluded. -/
theorem not_excluded_of_mem_candidateIds {titles : List String}
    (h : workId ∈ candidateIds rules db exclude titles) : some workId ≠ exclude := by
  unfold candidateIds at h
  split at h <;> exact (mem_withoutExcluded.mp h).2

/-- The third rung does not touch what the second found. -/
theorem candidateIds_of_length {titles : List String}
    (h : (exactIds db exclude titles).length = 1) :
    candidateIds rules db exclude titles = exactIds db exclude titles := by
  refine if_neg fun hempty => ?_
  rw [hempty] at h
  contradiction

/-- The round keeps what it had, or takes the new one. -/
theorem keepBest_eq_some {score : Id → Option Scored} {best : Option (Scored × Id)}
    {id : Id} {scored : Scored} (h : keepBest score best id = some (scored, workId)) :
    best = some (scored, workId) ∨ (workId = id ∧ score workId = some scored) := by
  unfold keepBest at h
  split at h
  · exact .inl h
  · next s hs =>
      split at h
      · cases h
        exact .inr ⟨rfl, hs⟩
      · exact .inl h

/-- So the loop ends with one that it was given. -/
theorem foldl_keepBest {score : Id → Option Scored} {best : Option (Scored × Id)}
    {ids : List Id} {scored : Scored}
    (h : ids.foldl (keepBest score) best = some (scored, workId)) :
    best = some (scored, workId) ∨ (workId ∈ ids ∧ score workId = some scored) := by
  induction ids generalizing best with
  | nil => exact .inl h
  | cons id ids ih =>
      rcases ih h with hbest | ⟨hmem, hscore⟩
      · rcases keepBest_eq_some hbest with hbest | ⟨rfl, hscore⟩
        · exact .inl hbest
        · exact .inr ⟨List.mem_cons_self, hscore⟩
      · exact .inr ⟨List.mem_cons_of_mem _ hmem, hscore⟩

/-- The best candidate is one of them, with its score. -/
theorem bestOf_mem {score : Id → Option Scored} {ids : List Id} {scored : Scored}
    (h : bestOf score ids = some (scored, workId)) :
    workId ∈ ids ∧ score workId = some scored := by
  rcases foldl_keepBest h with hnone | hmem
  · contradiction
  · exact hmem

/-- A title that hit, hit a work that is not excluded. -/
theorem shares_of_mem_exactNormHits {title : String}
    (h : title ∈ exactNormHits db exclude (normTitles rules cand)) :
    title ∈ normTitles rules cand ∧
      ∃ v, some v ≠ exclude ∧ SharesTitle db [title] v := by
  obtain ⟨hmem, hany⟩ := List.mem_filter.mp h
  obtain ⟨v, hv, hne⟩ := List.any_eq_true.mp hany
  refine ⟨hmem, v, of_decide_eq_true hne, ?_⟩
  exact (mem_findWorksByAlias (ne_of_mem_normTitles hmem)).mp hv

/-- A candidate that the exact rung merges is the only one, and shares a title
that is long enough. -/
theorem identified_of_exactAutoMerge {exactHit : Bool}
    (h : exactAutoMerge db exclude (normTitles rules cand) exactHit = true)
    (hmem : workId ∈ exactIds db exclude (normTitles rules cand)) :
    Identified rules db cand exclude workId := by
  simp only [exactAutoMerge, Bool.and_eq_true, decide_eq_true_eq] at h
  obtain ⟨⟨-, hone⟩, hany⟩ := h
  obtain ⟨only, hids⟩ := List.length_eq_one_iff.mp hone
  rw [hids] at hmem
  have hiff : ∀ v, SharesTitle db (normTitles rules cand) v ∧ some v ≠ exclude ↔
      v = workId := by
    intro v
    rw [← mem_exactIds fun t ht => ne_of_mem_normTitles ht, hids,
      List.mem_singleton.mp hmem, List.mem_singleton]
  obtain ⟨title, hhit, hlong⟩ := List.any_eq_true.mp hany
  obtain ⟨htitle, v, hne, hshares⟩ := shares_of_mem_exactNormHits hhit
  have hv : v = workId := by
    obtain ⟨a, ha, hwork, hnorm⟩ := hshares
    refine (hiff v).mp ⟨⟨a, ha, hwork, ?_⟩, hne⟩
    exact List.mem_singleton.mp hnorm ▸ htitle
  exact .onlyTitle (fun u hu hshared => (hiff u).mp ⟨hshared, hu⟩) title htitle
    (of_decide_eq_true hlong) (hv ▸ hshares)

/-- A candidate with a high score and a cover that corroborates it. -/
theorem identified_of_cover {scored : Scored}
    (hscored : scoreOf rules db cand workId = some scored)
    (h : (decide (scored.score ≥ high) && coverCorroborated cand scored) = true) :
    Identified rules db cand exclude workId := by
  simp only [coverCorroborated, Bool.and_eq_true, decide_eq_true_eq, Option.any_eq_true]
    at h
  obtain ⟨hhigh, ⟨p, hp, hclose⟩, hash, hhash, hdiscriminative⟩ := h
  exact .cover scored hscored hhigh p hp hclose hash hhash hdiscriminative

/-- What the rungs below the external ids propose is not excluded, not split
apart, and identified if it is merged. -/
theorem resolveTitles_cases : resolveTitles rules order db cand exclude = .new ∨
    ∃ exact method scored workId,
      resolveTitles rules order db cand exclude =
        decision cand exact method scored workId ∧
      some workId ≠ exclude ∧ splitFrom db exclude workId = false ∧
        scoreOf rules db cand workId = some scored ∧
          (exact = true → Identified rules db cand exclude workId) := by
  unfold resolveTitles
  dsimp only
  split
  · exact .inl rfl
  · split
    · exact .inl rfl
    · next hids =>
        split
        · exact .inl rfl
        · next scored workId hbest =>
            split
            · exact .inl rfl
            · next hsplit =>
                obtain ⟨hmem, hscored⟩ := bestOf_mem hbest
                have hcand := (order.perm _).mem_iff.mp hmem
                refine .inr ⟨_, _, scored, workId, rfl, ?_, Bool.not_eq_true _ ▸ hsplit,
                  hscored, fun hexact => ?_⟩
                · exact not_excluded_of_mem_candidateIds hcand
                · refine identified_of_exactAutoMerge hexact ?_
                  simp only [exactAutoMerge, Bool.and_eq_true, decide_eq_true_eq]
                    at hexact
                  exact candidateIds_of_length hexact.1.2 ▸ hcand

theorem sound_of_new (hresult : resolveEx rules order db cand exclude = .new) :
    Sound rules order db cand exclude := by
  constructor
  · intro w score method hres
    rw [hresult] at hres
    cases hres
  · intro w score method hres
    rw [hresult] at hres
    cases hres

/-- A verdict of the last rung. -/
theorem sound_of_decision {exact : Bool} {method : String} {scored : Scored}
    (hresult : resolveEx rules order db cand exclude =
      decision cand exact method scored workId)
    (hne : some workId ≠ exclude) (hsplit : splitFrom db exclude workId = false)
    (hscored : scoreOf rules db cand workId = some scored)
    (hexact : exact = true → Identified rules db cand exclude workId) :
    Sound rules order db cand exclude := by
  unfold decision at hresult
  split at hresult
  · next hmerge =>
      have hidentified : Identified rules db cand exclude workId := by
        rcases Bool.or_eq_true _ _ ▸ hmerge with htitle | hcover
        · exact hexact htitle
        · exact identified_of_cover hscored hcover
      constructor
      · intro w score method' hres
        rw [hresult] at hres
        cases hres
        exact ⟨hne, hsplit, hidentified⟩
      · intro w score method' hres
        rw [hresult] at hres
        cases hres
  · split at hresult
    · constructor
      · intro w score method' hres
        rw [hresult] at hres
        cases hres
      · intro w score method' hres
        rw [hresult] at hres
        cases hres
        exact ⟨hne, hsplit⟩
    · exact sound_of_new hresult

end Rungs

/-- **The matcher merges on identity.**  Its verdict never names the excluded work,
nor one that an admin split from it, and merges on an external id, on a title that
identifies one work or on a cover, exactly if the first external id that counts
does not belong to a work split from the excluded one. -/
theorem resolveEx_sound_iff (rules : DedupRules) (order : HashOrder) (db : Db)
    (cand : Candidate) (exclude : Option Id) :
    Sound rules order db cand exclude ↔
      ∀ workId, FirstExternal db exclude cand.externalIds workId →
        splitFrom db exclude workId = false := by
  constructor
  · intro h workId hfirst
    have hhit := externalHit_eq_some_iff.mpr hfirst
    refine (h.autoMerge workId 1.0 "external_id" ?_).2.1
    unfold resolveEx
    rw [hhit]
  · intro h
    cases hhit : externalHit db exclude cand.externalIds with
    | some found =>
        have hresult : resolveEx rules order db cand exclude =
            .autoMerge found 1.0 "external_id" := by
          unfold resolveEx
          rw [hhit]
        have hfirst := externalHit_eq_some_iff.mp hhit
        have hsplit := h found hfirst
        constructor
        · intro workId score method hres
          rw [hresult] at hres
          cases hres
          obtain ⟨before, p, x, after, heq, hp, hx, hmaps, hne, -⟩ := hfirst
          refine ⟨hne, hsplit, .externalId p x ?_ hp hx hmaps⟩
          rw [heq]
          exact List.mem_append_right _ List.mem_cons_self
        · intro workId score method hres
          rw [hresult] at hres
          cases hres
    | none =>
        have hresult : resolveEx rules order db cand exclude =
            resolveTitles rules order db cand exclude := by
          unfold resolveEx
          rw [hhit]
        rcases resolveTitles_cases with hnew | ⟨exact, method, scored, workId, hdecision,
          hne, hsplit, hscored, hexact⟩
        · exact sound_of_new (hresult.trans hnew)
        · exact sound_of_decision (hresult.trans hdecision) hne hsplit hscored hexact

/-! ## A split pair with an external id

The rung that does not ask. -/

/-- Rules for plain input, with a hasher that tells nothing apart. -/
def plainDedupRules : DedupRules where
  toTextRules := Catalog.Runs.plainRules.toTextRules
  toLowercase := id
  isWhitespace := (· = ' ')
  isAlphanumeric := (· ≠ ' ')
  hashOne _ := 0

/-- The order of a list. -/
def listOrder : HashOrder := ⟨id, fun _ => .refl _⟩

/-- An admin has split `a` and `b` apart, and `a` has an external id. -/
def splitApart : Db :=
  { Db.empty with
    work := ⟨[(Catalog.Runs.titled "t").row "a", (Catalog.Runs.titled "t").row "b"],
      by decide⟩
    workExternalId := ⟨[⟨"a", "al", "1"⟩], List.pairwise_singleton _ _⟩
    workSplit := ⟨[⟨"a", "b", none⟩], List.pairwise_singleton _ _⟩ }

/-- A candidate that brings that external id. -/
def externalCandidate : Candidate where
  title := "t"
  altTitles := []
  description := none
  author := none
  year := none
  coverPhash := none
  externalIds := [("al", "1")]

/-- `b` is merged into `a`. -/
theorem not_sound_splitApart :
    ¬Sound plainDedupRules listOrder splitApart externalCandidate (some "b") := by
  intro h
  have hsplit := (h.autoMerge "a" 1.0 "external_id" rfl).2.1
  have hpair : splitFrom splitApart (some "b") "a" = true := by decide
  rw [hpair] at hsplit
  contradiction

end Komika.Dedup.Resolve
