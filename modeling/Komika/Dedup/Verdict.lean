import Komika.Dedup.Resolve
import Komika.Lib.FloatOrder
import Mathlib.Data.String.Basic

/-!
# The verdict on an exact title

A work that shares a title with the candidate scores at least `MID`: the title
counts for `0.6`, and nothing that is added or rounded takes it below.  So a
shared title is at least queued.  The loop over the candidates meets them in any
order; what it keeps is the greatest score, and the least id of those that have
it.

* `mid_le_score` — the bound;
* `standsOut_bestOf`, `StandsOut.unique` — what the loop keeps;
* `exactTitle_neverDropped` — the verdict.
-/

namespace Komika.Dedup.Verdict

open Komika.Lib Komika.Lib.FloatOrder
open Komika.Catalog.Schema Komika.Catalog.Database
open Komika.Dedup.Similarity Komika.Dedup.Resolve

/-! ## The constants

As the compiler rounds them. -/

theorem isNormal_one : IsNormal 1.0 (2 ^ 52) (-52) := ⟨le_rfl, by decide, rfl⟩

theorem isNormal_mid : IsNormal 0.6 5404319552844595 (-53) := ⟨by decide, by decide, rfl⟩

theorem isNormal_corroboration : IsNormal 0.4 7205759403792794 (-54) :=
  ⟨by decide, by decide, rfl⟩

theorem nonneg_zero : Nonneg 0.0 := ⟨origin, rfl, le_rfl⟩

/-- A normal number is not negative. -/
theorem nonneg_of_isNormal {x : Float} {m : Nat} {e : Int} (h : IsNormal x m e) : Nonneg x :=
  ⟨_, h.spot, (origin_lt_at e m).le⟩

theorem nonneg_author : Nonneg 0.05 :=
  nonneg_of_isNormal (m := 7205759403792794) (e := -57) ⟨by decide, by decide, rfl⟩

theorem nonneg_year : Nonneg 0.03 :=
  nonneg_of_isNormal (m := 8646911284551352) (e := -58) ⟨by decide, by decide, rfl⟩

/-! ## The score

A sum of numbers none of which is negative, in the rounding of `f64`. -/

/-- A number that is not negative; and not below `MID`, under a condition. -/
def Scores (condition : Prop) (x : Float) : Prop := Nonneg x ∧ (condition → mid ≤ x)

section Score

variable {condition : Prop} {x y : Float}

/-- `score += …`. -/
theorem Scores.boost (hx : Scores condition x) (hy : Nonneg y) (boosted : Bool) :
    Scores condition (if boosted = true then x + y else x) := by
  cases boosted with
  | false => exact hx
  | true => exact ⟨nonneg_add hx.1 hy, fun h => le_add_of_nonneg isNormal_mid (hx.2 h) hy⟩

theorem Scores.cap (hx : Scores condition x) : Scores condition (min x 1.0) := by
  refine ⟨hx.1.min (nonneg_of_isNormal isNormal_one), fun h => le_min (hx.2 h) ?_⟩
  decide +kernel

/-- `0.6 * title_sim + 0.4 * corrob`. -/
theorem scores_weighted (hx : Nonneg x) (hy : Nonneg y) :
    Scores (1.0 ≤ x) (0.6 * x + 0.4 * y) := by
  have htitle : Nonneg (0.6 * x) := nonneg_mul isNormal_mid hx
  have hcorrob : Nonneg (0.4 * y) := nonneg_mul isNormal_corroboration hy
  refine ⟨nonneg_add htitle hcorrob, fun hone => ?_⟩
  exact le_add_of_nonneg isNormal_mid (le_mul_of_one_le isNormal_mid isNormal_one hone) hcorrob

end Score

/-- The similarities of the candidate's titles and a work's aliases. -/
def titleSimilarities (rules : DedupRules) (titles : List String) (md : WorkMatchData) :
    List Float :=
  (titles.map (titleShingles rules.toSimilarityRules)).flatMap fun nt =>
    (md.aliasesNorm.map (titleShingles rules.toSimilarityRules)).map fun al =>
      titleSimilarityPre nt al

/-- A title that is an alias is as similar as can be. -/
theorem one_mem_titleSimilarities {rules : DedupRules} {titles : List String}
    {md : WorkMatchData} {title : String} (htitle : title ∈ titles)
    (halias : title ∈ md.aliasesNorm) (hne : title ≠ "") :
    1.0 ∈ titleSimilarities rules titles md := by
  refine List.mem_flatMap.mpr ⟨_, List.mem_map_of_mem htitle, ?_⟩
  refine List.mem_map.mpr ⟨_, List.mem_map_of_mem halias, ?_⟩
  unfold titleSimilarityPre titleShingles
  dsimp only
  rw [if_neg (not_or.mpr ⟨hne, hne⟩), if_pos rfl]

/-- A similarity that is cut off below. -/
theorem nonneg_max_zero (x : Float) : Nonneg (max 0.0 x) := nonneg_zero.max x

/-- The score is a number, and at least `MID` if a title is an alias. -/
theorem scores_scoreCandidate (rules : DedupRules) (cand : Candidate) (titles : List String)
    (md : WorkMatchData) :
    Scores (1.0 ∈ titleSimilarities rules titles md)
      (scoreCandidate rules cand titles md).score := by
  obtain ⟨htitle, -, hmax⟩ := nonneg_zero.foldl_max (titleSimilarities rules titles md)
  have hdescribed := described_cases (P := Nonneg)
    (fun a b => jaccard (shingles rules.toSimilarityRules a)
      (shingles rules.toSimilarityRules b)) nonneg_zero (fun _ _ => nonneg_max_zero _)
  have hcorrob : ∀ x (p : Option Float), Nonneg x → Nonneg (p.elim x fun p => max x p) := by
    intro x p hx
    cases p with
    | none => exact hx
    | some p => exact hx.max p
  have hweighted := scores_weighted htitle
    (hcorrob _ (phashSimilarity cand.coverPhash md.coverPhash)
      (hdescribed cand.description md.description))
  have hscore := ((hweighted.boost nonneg_author
    (authorMatches rules.toSimilarityRules cand.author md.author)).boost nonneg_year
      (yearClose cand.year md.year)).cap
  exact ⟨hscore.1, fun hone => hscore.2 (hmax 1.0 hone (nonneg_of_isNormal isNormal_one))⟩

/-! ## The loop over the candidates

What the loop keeps, without its order. -/

/-- The work has the greatest score, and the least id of those that have it. -/
structure StandsOut (score : Id → Option Scored) (ids : List Id) (scored : Scored)
    (workId : Id) : Prop where
  mem : workId ∈ ids
  score_eq : score workId = some scored
  best : ∀ v ∈ ids, ∀ other, score v = some other →
    other.score ≤ scored.score ∧ ((other.score == scored.score) = true → workId ≤ v)

/-- Every score is a number. -/
def Numeric (score : Id → Option Scored) : Prop :=
  ∀ id scored, score id = some scored → Nonneg scored.score

section Loop

variable {score : Id → Option Scored} {ids ids' : List Id} {scored scored' : Scored}
variable {workId workId' id : Id}

/-- Two numbers that are at most each other compare equal. -/
theorem beq_of_le_of_le {x y : Float} (h : x ≤ y) (h' : y ≤ x) : (x == y) = true := by
  obtain ⟨p, q, hp, hq, hpq⟩ := le_iff_spot.mp h
  have hqp := (le_of_spot hq hp).mp h'
  exact beq_iff_spot.mpr ⟨p, hp, le_antisymm hpq hqp ▸ hq⟩

theorem le_of_beq {x y : Float} (h : (x == y) = true) : x ≤ y ∧ y ≤ x := by
  obtain ⟨p, hp, hq⟩ := beq_iff_spot.mp h
  exact ⟨(le_of_spot hp hq).mpr le_rfl, (le_of_spot hq hp).mpr le_rfl⟩

/-- Only one work stands out, whatever the order. -/
theorem StandsOut.unique (h : StandsOut score ids scored workId)
    (h' : StandsOut score ids' scored' workId') (hids : ∀ v, v ∈ ids ↔ v ∈ ids') :
    workId = workId' ∧ scored = scored' := by
  obtain ⟨hle, hid⟩ := h.best workId' ((hids workId').mpr h'.mem) scored' h'.score_eq
  obtain ⟨hle', hid'⟩ := h'.best workId ((hids workId).mp h.mem) scored h.score_eq
  have hwork : workId = workId' :=
    le_antisymm (hid (beq_of_le_of_le hle hle')) (hid' (beq_of_le_of_le hle' hle))
  refine ⟨hwork, Option.some.inj ?_⟩
  rw [← h.score_eq, ← h'.score_eq, hwork]

/-- What replaces, is not below; what does not, is not above. -/
theorem replaces_cases (workId workId' : Id) (hx : Nonneg scored.score)
    (hy : Nonneg scored'.score) :
    (replaces scored workId (some (scored', workId')) = true ∧
      scored'.score ≤ scored.score ∧
        ((scored'.score == scored.score) = true → workId < workId')) ∨
    (replaces scored workId (some (scored', workId')) = false ∧
      scored.score ≤ scored'.score ∧
        ((scored.score == scored'.score) = true → workId' ≤ workId)) := by
  obtain ⟨p, hp, -⟩ := hx
  obtain ⟨q, hq, -⟩ := hy
  have hgt : scored.score > scored'.score ↔ q < p := by
    rw [gt_iff_lt, lt_iff_spot]
    simp [hp, hq]
  have heq : (scored.score == scored'.score) = true ↔ p = q := by
    rw [beq_iff_spot]
    simp only [hp, hq, Option.some.injEq, exists_eq_left']
    exact eq_comm
  have hle : scored.score ≤ scored'.score ↔ p ≤ q := le_of_spot hp hq
  have hge : scored'.score ≤ scored.score ↔ q ≤ p := le_of_spot hq hp
  have heq' : (scored'.score == scored.score) = true ↔ p = q := by
    rw [beq_iff_spot]
    simp only [hp, hq, Option.some.injEq, exists_eq_left']
  simp only [replaces, Bool.or_eq_true, Bool.and_eq_true, decide_eq_true_eq, Bool.or_eq_false_iff,
    decide_eq_false_iff_not, Bool.and_eq_false_iff, hgt, heq, hle, hge, heq']
  rcases lt_trichotomy p q with hlt | rfl | hlt
  · have hne : (scored.score == scored'.score) = false :=
      Bool.eq_false_iff.mpr fun h => hlt.ne (heq.mp h)
    exact Or.inr ⟨⟨hlt.not_gt, Or.inl hne⟩, hlt.le, fun h => absurd h hlt.ne⟩
  · by_cases hid : workId < workId'
    · exact Or.inl ⟨Or.inr ⟨rfl, hid⟩, le_rfl, fun _ => hid⟩
    · exact Or.inr ⟨⟨lt_irrefl p, Or.inr hid⟩, le_rfl, fun _ => not_lt.mp hid⟩
  · exact Or.inl ⟨Or.inl hlt, hlt.le, fun h => absurd h hlt.ne'⟩

/-- A round of the loop: of two scores, the better one stays. -/
theorem StandsOut.keepBest (hnumeric : Numeric score) (h : StandsOut score ids scored workId)
    (hid : score id = some scored') :
    (replaces scored' id (some (scored, workId)) = true ∧
      StandsOut score (ids ++ [id]) scored' id) ∨
    (replaces scored' id (some (scored, workId)) = false ∧
      StandsOut score (ids ++ [id]) scored workId) := by
  have hx := hnumeric id scored' hid
  have hy := hnumeric workId scored h.score_eq
  rcases replaces_cases id workId hx hy with ⟨hrep, hle, hlt⟩ | ⟨hrep, hle, hlt⟩
  · refine Or.inl ⟨hrep, by simp, hid, fun v hv other hother => ?_⟩
    rcases List.mem_append.mp hv with hv | hv
    · obtain ⟨hbest, htie⟩ := h.best v hv other hother
      refine ⟨le_of_le_of_le hbest hle, fun heq => ?_⟩
      -- `v` ties with the new one, so it ties with the one before
      have hback := le_of_le_of_le hle (le_of_beq heq).2
      have hv' := htie (beq_of_le_of_le hbest hback)
      exact (hlt (beq_of_le_of_le hle (le_of_le_of_le (le_of_beq heq).2 hbest))).le.trans hv'
    · cases List.mem_singleton.mp hv
      cases hid.symm.trans hother
      exact ⟨hx.le_refl, fun _ => le_rfl⟩
  · refine Or.inr ⟨hrep, by simp [h.mem], h.score_eq, fun v hv other hother => ?_⟩
    rcases List.mem_append.mp hv with hv | hv
    · exact h.best v hv other hother
    · cases List.mem_singleton.mp hv
      cases hid.symm.trans hother
      exact ⟨hle, hlt⟩

theorem bestOf_concat (score : Id → Option Scored) (ids : List Id) (id : Id) :
    bestOf score (ids ++ [id]) = Resolve.keepBest score (bestOf score ids) id := by
  rw [bestOf, bestOf, List.foldl_append]
  rfl

/-- The loop keeps the work that stands out; it keeps none if none has a score. -/
theorem bestOf_spec (hnumeric : Numeric score) (ids : List Id) :
    match bestOf score ids with
    | none => ∀ v ∈ ids, score v = none
    | some (scored, workId) => StandsOut score ids scored workId := by
  induction ids using List.reverseRecOn with
  | nil => exact fun v hv => absurd hv List.not_mem_nil
  | append_singleton ids id ih =>
      rw [bestOf_concat, Resolve.keepBest]
      cases hid : score id with
      | none =>
          dsimp only
          cases hbest : bestOf score ids with
          | none =>
              rw [hbest] at ih
              intro v hv
              rcases List.mem_append.mp hv with hv | hv
              · exact ih v hv
              · rwa [List.mem_singleton.mp hv]
          | some best =>
              rw [hbest] at ih
              refine ⟨List.mem_append_left _ ih.mem, ih.score_eq, fun v hv other hother => ?_⟩
              rcases List.mem_append.mp hv with hv | hv
              · exact ih.best v hv other hother
              · rw [List.mem_singleton.mp hv, hid] at hother
                contradiction
      | some scored =>
          dsimp only
          cases hbest : bestOf score ids with
          | none =>
              rw [hbest] at ih
              refine ⟨by simp, hid, fun v hv other hother => ?_⟩
              rcases List.mem_append.mp hv with hv | hv
              · rw [ih v hv] at hother
                contradiction
              · cases List.mem_singleton.mp hv
                cases hid.symm.trans hother
                exact ⟨(hnumeric id scored hid).le_refl, fun _ => le_rfl⟩
          | some best =>
              obtain ⟨scored', workId⟩ := best
              rw [hbest] at ih
              rcases ih.keepBest hnumeric hid with ⟨hrep, hstands⟩ | ⟨hrep, hstands⟩
              · rw [hrep]
                exact hstands
              · rw [hrep]
                exact hstands

end Loop

/-! ## The verdict

Every candidate that shares a title, whatever else is in the catalogue. -/

/-- Every alias belongs to a work. -/
def AliasesGrounded (db : Db) : Prop := ∀ a ∈ db.workAlias, db.hasWork a.workId = true

/-- A work that shares a title, and may be proposed. -/
def Shares (rules : DedupRules) (db : Db) (cand : Candidate) (exclude : Option Id)
    (workId : Id) : Prop :=
  SharesTitle db (normTitles rules cand) workId ∧ some workId ≠ exclude

/-- No work that shares a title has a greater score. -/
def BestShared (rules : DedupRules) (db : Db) (cand : Candidate) (exclude : Option Id)
    (workId : Id) : Prop :=
  Shares rules db cand exclude workId ∧ ∃ scored, scoreOf rules db cand workId = some scored ∧
    ∀ v, Shares rules db cand exclude v → ∀ other, scoreOf rules db cand v = some other →
      other.score ≤ scored.score

/-- The property of the verdict. -/
structure NeverDropped (rules : DedupRules) (db : Db) (cand : Candidate)
    (exclude : Option Id) : Prop where
  decides : (∃ w, Shares rules db cand exclude w) →
    (∀ w, BestShared rules db cand exclude w → splitFrom db exclude w = false) →
      ∀ order, resolveEx rules order db cand exclude ≠ .new
  orderFree : ∀ order order',
    resolveEx rules order db cand exclude = resolveEx rules order' db cand exclude
  greatest : ∀ order workId score method, externalHit db exclude cand.externalIds = none →
    (resolveEx rules order db cand exclude = .autoMerge workId score method ∨
      resolveEx rules order db cand exclude = .review workId score method) →
        ∃ scored, score = scored.score ∧ StandsOut (scoreOf rules db cand)
          (candidateIds rules db exclude (normTitles rules cand)) scored workId

section Verdict

variable {rules : DedupRules} {db : Db} {cand : Candidate} {exclude : Option Id}
variable {order order' : HashOrder} {workId : Id} {scored : Scored}

theorem numeric_scoreOf (rules : DedupRules) (db : Db) (cand : Candidate) :
    Numeric (scoreOf rules db cand) := by
  intro id scored h
  obtain ⟨md, -, rfl⟩ := Option.map_eq_some_iff.mp h
  exact (scores_scoreCandidate rules cand _ md).1

/-- What the loop keeps stands out among the candidates. -/
theorem bestOf_order (rules : DedupRules) (db : Db) (cand : Candidate) (order : HashOrder)
    (ids : List Id) :
    match bestOf (scoreOf rules db cand) (order.order ids) with
    | none => ∀ v ∈ ids, scoreOf rules db cand v = none
    | some (scored, workId) => StandsOut (scoreOf rules db cand) ids scored workId := by
  have hspec := bestOf_spec (numeric_scoreOf rules db cand) (order.order ids)
  have hmem : ∀ v, v ∈ order.order ids ↔ v ∈ ids := fun v => (order.perm ids).mem_iff
  cases hbest : bestOf (scoreOf rules db cand) (order.order ids) with
  | none =>
      rw [hbest] at hspec
      exact fun v hv => hspec v ((hmem v).mpr hv)
  | some best =>
      rw [hbest] at hspec
      exact ⟨(hmem _).mp hspec.mem, hspec.score_eq, fun v hv => hspec.best v ((hmem v).mpr hv)⟩

/-- The loop ends with the same work in any order. -/
theorem bestOf_congr (order order' : HashOrder) (ids : List Id) :
    bestOf (scoreOf rules db cand) (order.order ids) =
      bestOf (scoreOf rules db cand) (order'.order ids) := by
  have h := bestOf_order rules db cand order ids
  have h' := bestOf_order rules db cand order' ids
  cases hbest : bestOf (scoreOf rules db cand) (order.order ids) with
  | none =>
      rw [hbest] at h
      cases hbest' : bestOf (scoreOf rules db cand) (order'.order ids) with
      | none => rfl
      | some best' =>
          rw [hbest'] at h'
          have hnone := h _ h'.mem
          rw [h'.score_eq] at hnone
          contradiction
  | some best =>
      rw [hbest] at h
      cases hbest' : bestOf (scoreOf rules db cand) (order'.order ids) with
      | none =>
          rw [hbest'] at h'
          have hnone := h' _ h.mem
          rw [h.score_eq] at hnone
          contradiction
      | some best' =>
          rw [hbest'] at h'
          obtain ⟨hwork, hscored⟩ := h.unique h' fun _ => Iff.rfl
          exact congrArg some (Prod.ext hscored hwork)

/-- The order of the candidates does not matter. -/
theorem resolveEx_congr (order order' : HashOrder) :
    resolveEx rules order db cand exclude = resolveEx rules order' db cand exclude := by
  unfold resolveEx resolveTitles
  dsimp only
  rw [bestOf_congr order order']

/-- A shared title scores at least `MID`. -/
theorem mid_le_score (h : SharesTitle db (normTitles rules cand) workId)
    (hscored : scoreOf rules db cand workId = some scored) : mid ≤ scored.score := by
  obtain ⟨a, ha, hwork, htitle⟩ := h
  obtain ⟨md, hmd, rfl⟩ := Option.map_eq_some_iff.mp hscored
  obtain ⟨w, -, rfl⟩ := Option.map_eq_some_iff.mp hmd
  have halias : a.normalizedTitle ∈ (db.workAlias.rows.filter fun a =>
      a.workId = workId).map WorkAlias.normalizedTitle :=
    List.mem_map_of_mem (List.mem_filter.mpr
      ⟨Table.mem_rows.mp ha, decide_eq_true hwork⟩)
  exact (scores_scoreCandidate rules cand _ _).2
    (one_mem_titleSimilarities htitle halias (ne_of_mem_normTitles htitle))

/-- A work that shares a title has a score. -/
theorem exists_scoreOf (cand : Candidate) (hdb : AliasesGrounded db) {titles : List String}
    (h : SharesTitle db titles workId) :
    ∃ scored, scoreOf rules db cand workId = some scored := by
  obtain ⟨a, ha, rfl, -⟩ := h
  have hwork := hasWork_iff_work?.mp (hdb a ha)
  obtain ⟨w, hw⟩ := Option.isSome_iff_exists.mp hwork
  exact ⟨_, by rw [scoreOf, loadMatchData, hw]; rfl⟩

/-- The exact rung finds the works that share a title. -/
theorem mem_exactIds_iff :
    workId ∈ exactIds db exclude (normTitles rules cand) ↔
      Shares rules db cand exclude workId :=
  mem_exactIds fun _ ht => ne_of_mem_normTitles ht

/-- The candidates are the works that share a title, if there are any. -/
theorem candidateIds_of_shares (h : Shares rules db cand exclude workId) :
    candidateIds rules db exclude (normTitles rules cand) =
      exactIds db exclude (normTitles rules cand) := by
  refine if_neg fun hempty => ?_
  have hmem := mem_exactIds_iff.mpr h
  rw [hempty] at hmem
  contradiction

/-- A score of at least `MID` is merged or queued. -/
theorem decision_ne_new (h : mid ≤ scored.score) (exact : Bool) (method : String) :
    decision cand exact method scored workId ≠ .new := by
  unfold decision
  rw [if_pos (show scored.score ≥ mid from h)]
  split <;> exact fun h => nomatch h

/-- A shared title is merged or queued. -/
theorem resolveEx_ne_new (hdb : AliasesGrounded db) {w : Id}
    (hshares : Shares rules db cand exclude w)
    (hsplit : ∀ w, BestShared rules db cand exclude w → splitFrom db exclude w = false)
    (order : HashOrder) : resolveEx rules order db cand exclude ≠ .new := by
  unfold resolveEx
  cases externalHit db exclude cand.externalIds with
  | some found => exact fun h => nomatch h
  | none =>
      dsimp only
      have htitles : normTitles rules cand ≠ [] := by
        obtain ⟨⟨a, -, -, htitle⟩, -⟩ := hshares
        exact List.ne_nil_of_mem htitle
      have hcands := candidateIds_of_shares hshares
      have hids : candidateIds rules db exclude (normTitles rules cand) ≠ [] := by
        rw [hcands]
        exact List.ne_nil_of_mem (mem_exactIds_iff.mpr hshares)
      unfold resolveTitles
      dsimp only
      rw [if_neg htitles, if_neg hids, hcands]
      have hspec := bestOf_order rules db cand order
        (exactIds db exclude (normTitles rules cand))
      cases hbest : bestOf (scoreOf rules db cand)
          (order.order (exactIds db exclude (normTitles rules cand))) with
      | none =>
          rw [hbest] at hspec
          obtain ⟨scored, hscored⟩ := exists_scoreOf cand hdb hshares.1
          rw [hspec w (mem_exactIds_iff.mpr hshares)] at hscored
          contradiction
      | some best =>
          obtain ⟨scored, best⟩ := best
          rw [hbest] at hspec
          dsimp only at hspec ⊢
          have hbestShares := mem_exactIds_iff.mp hspec.mem
          have hnotSplit : splitFrom db exclude best = false :=
            hsplit best ⟨hbestShares, scored, hspec.score_eq, fun v hv other hother =>
              (hspec.best v (mem_exactIds_iff.mpr hv) other hother).1⟩
          rw [hnotSplit]
          exact decision_ne_new (mid_le_score hbestShares.1 hspec.score_eq) _ _

/-- A decision names the candidate it is about. -/
theorem decision_eq {exact : Bool} {method method' : String} {w : Id} {score : Float}
    (h : decision cand exact method scored workId = .autoMerge w score method' ∨
      decision cand exact method scored workId = .review w score method') :
    w = workId ∧ score = scored.score := by
  unfold decision at h
  split at h
  · rcases h with h | h <;> cases h
    exact ⟨rfl, rfl⟩
  · split at h
    · rcases h with h | h <;> cases h
      exact ⟨rfl, rfl⟩
    · rcases h with h | h <;> cases h

/-- A proposal has the greatest score, and the least id of those that have it. -/
theorem standsOut_of_resolveEx {score : Float} {method : String}
    (hexternal : externalHit db exclude cand.externalIds = none)
    (h : resolveEx rules order db cand exclude = .autoMerge workId score method ∨
      resolveEx rules order db cand exclude = .review workId score method) :
    ∃ scored, score = scored.score ∧ StandsOut (scoreOf rules db cand)
      (candidateIds rules db exclude (normTitles rules cand)) scored workId := by
  unfold resolveEx at h
  rw [hexternal] at h
  unfold resolveTitles at h
  dsimp only at h
  split at h
  · rcases h with h | h <;> cases h
  · split at h
    · rcases h with h | h <;> cases h
    · have hspec := bestOf_order rules db cand order
        (candidateIds rules db exclude (normTitles rules cand))
      cases hbest : bestOf (scoreOf rules db cand)
          (order.order (candidateIds rules db exclude (normTitles rules cand))) with
      | none =>
          rw [hbest] at h
          rcases h with h | h <;> cases h
      | some best =>
          obtain ⟨scored, best⟩ := best
          rw [hbest] at h hspec
          dsimp only at h hspec
          split at h
          · rcases h with h | h <;> cases h
          · obtain ⟨rfl, hscore⟩ := decision_eq h
            exact ⟨scored, hscore, hspec⟩

end Verdict

/-- **A shared title is never dropped.**  If every alias belongs to a work, a
candidate that shares a title with a work is merged or queued, unless an admin
split a best such work from the excluded one; and the verdict is the same in
every order, with the greatest score and the least id of those that have it. -/
theorem exactTitle_neverDropped (rules : DedupRules) (db : Db) (cand : Candidate)
    (exclude : Option Id) (hdb : AliasesGrounded db) :
    NeverDropped rules db cand exclude where
  decides := fun ⟨_, hshares⟩ hsplit order => resolveEx_ne_new hdb hshares hsplit order
  orderFree order order' := resolveEx_congr order order'
  greatest _ _ _ _ hexternal h := standsOut_of_resolveEx hexternal h

/-- Two works have the title `love`. -/
def sharedTitle : Db :=
  { Db.empty with
    work := ⟨[(Catalog.Runs.titled "love").row "a", (Catalog.Runs.titled "love").row "b"],
      by decide⟩
    workAlias := ⟨[⟨"a", "love", "love", none⟩, ⟨"b", "love", "love", none⟩], by decide⟩ }

/-- A candidate with the title of a work. -/
def loveCandidate : Candidate :=
  { externalCandidate with title := "love", externalIds := [] }

theorem neverDropped_sharedTitle :
    AliasesGrounded sharedTitle ∧
      resolveEx plainDedupRules listOrder sharedTitle loveCandidate none ≠ .new := by
  have hdb : AliasesGrounded sharedTitle := by
    intro a ha
    rcases List.mem_cons.mp ha with rfl | ha
    · decide
    · rw [List.mem_singleton.mp ha]
      decide
  have hshares : Shares plainDedupRules sharedTitle loveCandidate none "a" := by
    refine ⟨⟨⟨"a", "love", "love", none⟩, List.mem_cons_self, rfl, ?_⟩, by simp⟩
    unfold normTitles
    rw [List.mem_dedup, List.mem_mergeSort]
    decide
  refine ⟨hdb, (exactTitle_neverDropped plainDedupRules sharedTitle loveCandidate none
    hdb).decides ⟨"a", hshares⟩ ?_ listOrder⟩
  -- nothing is excluded, so nothing was split from it
  exact fun _ _ => rfl

end Komika.Dedup.Verdict
