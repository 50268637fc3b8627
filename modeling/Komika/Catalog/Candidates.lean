import Komika.Lib.Machine
import Komika.Catalog.Redirects

/-!
# The review queue

`merge_candidate` proposes to fold the work of a source series into another
work.  `insert_merge_candidate` refuses a pair that has a row in any status, so
that an admin's rejection is final; `resolve_merge_candidate` closes a row, and
opens it again when the fold it accepted fails; a merge repoints the rows of the
work that it folds.

No statement deletes a rejected row, and it follows its work through every merge.
But pairs are only compared when a row is inserted.  A merge makes one pair out
of two, and from then on the pair can have a rejected row and a pending one.

Finality is the conjunction of two statements: a rejected row is kept and not reopened
(`RejectedKept`), and no pair with a rejected row has a pending one (`Final`).  The
first holds of every step.  The second is lost in three ways, and `Quiet` excludes them:
a rejection beside a second pending row of the pair, a merge that brings a rejected and
a pending row together, and a failed fold that reopens a row of a rejected pair.

* `mem_mergeCandidate_merged` — the queue after a merge, row by row;
* `final_reject_iff`, `final_merged_iff`, `final_reopen_iff` — each of the three, as an
  equivalence;
* `stepFacts` — what every step keeps, and what it does to finality;
* `rejection_final_iff` — along every run, finality is kept exactly by quiet steps;
* `not_rejection_final_merge` — the rejected pair that is pending again after a merge.
-/

namespace Komika.Catalog.Candidates

open Komika.Lib Komika.Lib.Machine
open Komika.Catalog.Schema Komika.Catalog.Database Komika.Catalog.Ingest
open Komika.Catalog.Ledger Komika.Catalog.Merge Komika.Catalog.Effects
open Komika.Catalog.Redirects
open Komika.Catalog.Runs (plainRules)

/-! ## The writers -/

/-- The rows are for one source series and one work. -/
def SamePair (a b : MergeCandidate) : Prop :=
  a.sourceSeriesId = b.sourceSeriesId ∧ a.candidateWorkId = b.candidateWorkId

instance (a b : MergeCandidate) : Decidable (SamePair a b) :=
  inferInstanceAs (Decidable (_ ∧ _))

/-- `insert_merge_candidate`: one statement, `INSERT … SELECT … WHERE NOT
EXISTS`. -/
def insertMergeCandidate (newId sourceSeriesId candidateWorkId : Id) (db : Db) :
    Except CatalogError (Option Id × Db) :=
  let row : MergeCandidate := ⟨newId, sourceSeriesId, candidateWorkId, .pending⟩
  if db.mergeCandidate.rows.any fun m => SamePair m row then .ok (none, db)
  else if !(db.sourceSeries.rows.any fun ss => ss.id = sourceSeriesId) ||
      !db.hasWork candidateWorkId then .error .foreignKeyConstraint
  else match db.mergeCandidate.insert row with
    | none => .error .uniqueConstraint
    | some t => .ok (some newId, { db with mergeCandidate := t })

/-- `SET status = ?`. -/
def withStatus (status : CandidateStatus) (m : MergeCandidate) : MergeCandidate :=
  { m with status := status }

/-- The status is in no key. -/
theorem keepsKeys_withStatus (status : CandidateStatus) :
    Table.KeepsKeys (withStatus status) := fun _ _ => rfl

/-- The row is still pending, so that the claim of a resolution flips it. -/
def claimable (id : Id) (m : MergeCandidate) : Bool :=
  m.id = id && m.status = .pending

/-- `UPDATE merge_candidate SET status = ? WHERE id = ? AND status =
'pending'`. -/
def claim (status : CandidateStatus) (id : Id) (t : Table MergeCandidate) :
    Table MergeCandidate :=
  t.update (claimable id) (withStatus status) (keepsKeys_withStatus status)

/-- `UPDATE merge_candidate SET status = 'pending' WHERE id = ?`. -/
def reopen (id : Id) (t : Table MergeCandidate) : Table MergeCandidate :=
  t.update (fun m => m.id = id) (withStatus .pending) (keepsKeys_withStatus _)

/-- The merge that an accepted row asks for, given the work of its series.  A
row that has become self-referential asks for none. -/
def foldMerge (rules : TextRules) (row : MergeCandidate) (oldWork : Option Id) (db : Db) :
    Option (Except CatalogError (MergeOutcome × Db)) :=
  match oldWork with
  | none => none
  | some old =>
      if old = row.candidateWorkId then none
      else some (mergeWorksChecked rules old row.candidateWorkId none db)

/-- The catalogue after the fold; if it fails the row is pending again. -/
def folded (rules : TextRules) (row : MergeCandidate) (oldWork : Option Id) (db : Db) : Db :=
  match foldMerge rules row oldWork db with
  | none => db
  | some (.ok (_, db')) => db'
  | some (.error _) => { db with mergeCandidate := reopen row.id db.mergeCandidate }

/-! ## Runs -/

/-- The catalogue, with the resolutions that have claimed a row and not folded it
yet. -/
structure ReviewState where
  db : Db
  /-- The accepted rows that are yet to be folded, as they were read. -/
  accepting : Table MergeCandidate

/-- Nothing is being resolved. -/
def start (db : Db) : ReviewState := ⟨db, .empty⟩

/-- `resolve_merge_candidate` is two transactions, with reads of its own before
each: what it read is part of the event. -/
inductive Event where
  | propose (newId sourceSeriesId candidateWorkId : Id)
  | resolve (read : MergeCandidate) (accept : Bool)
  | fold (id : Id) (oldWork : Option Id)
  /-- The server stops between the two. -/
  | abandon (id : Id)
  | merge (source target : Id) (expected : Option (WorkIdentity × WorkIdentity))

/-- The first transaction of `resolve_merge_candidate`: it claims the row if that is
still pending. -/
def resolve (s : ReviewState) (read : MergeCandidate) (accept : Bool) : ReviewState :=
  if s.db.mergeCandidate.rows.any (claimable read.id) then
    { db := { s.db with
        mergeCandidate := claim (if accept then .confirmed else .rejected) read.id
          s.db.mergeCandidate }
      accepting := if accept then s.accepting.insertOrReplace read else s.accepting }
  else s

/-- The accepted row of that id, if it waits to be folded. -/
def accepted (s : ReviewState) (id : Id) : Option MergeCandidate :=
  s.accepting.rows.find? fun m => m.id = id

/-- The accepted row is done with. -/
def closed (s : ReviewState) (id : Id) : Table MergeCandidate :=
  s.accepting.deleteWhere fun m => m.id = id

/-- One transaction of one of the callers; what it read before is part of the event. -/
def step (rules : TextRules) (s : ReviewState) : Event → ReviewState
  | .propose newId sourceSeriesId candidateWorkId =>
      { s with
        db := s.db.commit
          (insertMergeCandidate newId sourceSeriesId candidateWorkId s.db) }
  | .resolve read accept => resolve s read accept
  | .fold id oldWork =>
      match accepted s id with
      | none => s
      | some row => { db := folded rules row oldWork s.db, accepting := closed s id }
  | .abandon id => { s with accepting := closed s id }
  | .merge source target expected =>
      { s with db := s.db.commit (mergeWorksChecked rules source target expected s.db) }

/-! ## Finality

What should hold of the queue, and what should hold of a step. -/

/-- No pair that has been rejected is pending. -/
def Final (t : Table MergeCandidate) : Prop :=
  ∀ r ∈ t, ∀ p ∈ t, r.status = .rejected → p.status = .pending → ¬SamePair r p

/-- The rejected row `r` is there afterwards, for its work or for the one that its
work was merged into. -/
def Kept (r : MergeCandidate) (db' : Db) : Prop :=
  ∃ r' ∈ db'.mergeCandidate, r'.id = r.id ∧ r'.sourceSeriesId = r.sourceSeriesId ∧
    r'.status = .rejected ∧
    (r'.candidateWorkId = r.candidateWorkId ∨
      db'.hasWork r.candidateWorkId = false ∧
        redirectWorkId db' r.candidateWorkId = some r'.candidateWorkId)

/-- No step drops or reopens a rejected row. -/
def RejectedKept (rules : TextRules) (s : ReviewState) (e : Event) : Prop :=
  ∀ r ∈ s.db.mergeCandidate, r.status = .rejected → Kept r (step rules s e).db

/-! ## Proposals and resolutions -/

/-- A proposal adds one row or none. -/
theorem propose_ok {newId sourceSeriesId candidateWorkId : Id} {db db' : Db}
    {out : Option Id}
    (h : insertMergeCandidate newId sourceSeriesId candidateWorkId db = .ok (out, db')) :
    db' = db ∨ ∃ t, db' = { db with mergeCandidate := t } ∧
      ∃ row : MergeCandidate, row.status = .pending ∧
        (∀ m ∈ db.mergeCandidate, ¬SamePair m row) ∧
        ∀ m, m ∈ t ↔ m ∈ db.mergeCandidate ∨ m = row := by
  unfold insertMergeCandidate at h
  simp only at h
  split at h
  · cases h
    exact Or.inl rfl
  · next hnew =>
      split at h
      · contradiction
      · split at h
        · contradiction
        · next t hinsert =>
            cases h
            refine Or.inr ⟨t, rfl, ⟨newId, sourceSeriesId, candidateWorkId, .pending⟩, rfl,
              ?_, fun m => Table.mem_of_insert hinsert⟩
            intro m hm hpair
            exact hnew (List.any_eq_true.mpr ⟨m, hm, decide_eq_true hpair⟩)

theorem mem_claim {status : CandidateStatus} {id : Id} {t : Table MergeCandidate}
    {m : MergeCandidate} :
    m ∈ claim status id t ↔
      ∃ old ∈ t, m = if claimable id old then withStatus status old else old :=
  Table.mem_update

/-- The rows after a row is reopened. -/
theorem mem_reopen {id : Id} {t : Table MergeCandidate} {m : MergeCandidate} :
    m ∈ reopen id t ↔ ∃ old ∈ t, m = if old.id = id then withStatus .pending old else old := by
  rw [reopen, Table.mem_update]
  simp only [decide_eq_true_eq]

/-- Of one table, rows with one id are one row. -/
theorem eq_of_id {t : Table MergeCandidate} {a b : MergeCandidate} (ha : a ∈ t) (hb : b ∈ t)
    (h : a.id = b.id) : a = b :=
  Table.eq_of_clash ha hb (decide_eq_true h)

/-! ## What a merge makes of the queue

Rows of the source go with it; those that would propose a work for itself are purged. -/

section Merged

variable {rules : TextRules} {source target : Id} {db : Db}

/-- Some mapping of the series is on one of the two works. -/
def OnEither (source target : Id) (db : Db) (sourceSeriesId : Id) : Prop :=
  ∃ ss ∈ db.sourceSeries, ss.id = sourceSeriesId ∧
    (ss.workId = source ∨ ss.workId = target)

/-- A row goes with its work. -/
def followed (source target : Id) (m : MergeCandidate) : MergeCandidate :=
  if m.candidateWorkId = source then { m with candidateWorkId := target } else m

/-- The row is pending, and the merge makes it self-referential. -/
def Purged (source target : Id) (db : Db) (m : MergeCandidate) : Prop :=
  m.candidateWorkId = target ∧ m.status = .pending ∧
    OnEither source target db m.sourceSeriesId

@[simp] theorem followed_id (m : MergeCandidate) :
    (followed source target m).id = m.id := by
  unfold followed
  split <;> rfl

@[simp] theorem followed_status (m : MergeCandidate) :
    (followed source target m).status = m.status := by
  unfold followed
  split <;> rfl

@[simp] theorem followed_sourceSeriesId (m : MergeCandidate) :
    (followed source target m).sourceSeriesId = m.sourceSeriesId := by
  unfold followed
  split <;> rfl

/-- A row for the source is a row for the target afterwards. -/
theorem followed_candidateWorkId (m : MergeCandidate) :
    (followed source target m).candidateWorkId =
      if m.candidateWorkId = source then target else m.candidateWorkId := by
  unfold followed
  split <;> rfl

/-- Repointing moves every row of the source. -/
theorem mem_repoint_mergeCandidate {t : Table MergeCandidate} {m : MergeCandidate} :
    m ∈ repoint source target t ↔ ∃ old ∈ t, m = followed source target old := by
  rw [mem_repoint_of_keepsKeys fun _ _ _ => rfl]
  have hmove : ∀ old : MergeCandidate,
      (if onWork source old then move target old else old) = followed source target old := by
    intro old
    simp [onWork, on?, move, followed]
  simp only [hmove]

/-- Nothing is left on the source once its mappings are repointed. -/
theorem not_onWork_repointed (hne : source ≠ target) {r : SourceSeries}
    (hr : r ∈ repoint source target db.sourceSeries) : onWork source r = false := by
  obtain ⟨old, -, rfl⟩ := (mem_repoint_of_keepsKeys moveSourceSeries_keepsKeys).mp hr
  exact not_onWork_moved hne old

/-- A mapping is on the target afterwards if it was on either work. -/
theorem onEither_iff (hne : source ≠ target) {sourceSeriesId : Id} :
    OnEither source target db sourceSeriesId ↔
      ∃ ss ∈ (repoint source target db.sourceSeries).deleteWhere (onWork source),
        ss.workId = target ∧ ss.id = sourceSeriesId := by
  constructor
  · rintro ⟨ss, hss, hid, hwork⟩
    refine ⟨if onWork source ss then move target ss else ss, ?_, ?_⟩
    · have hin : (if onWork source ss then move target ss else ss) ∈
          repoint source target db.sourceSeries :=
        (mem_repoint_of_keepsKeys moveSourceSeries_keepsKeys).mpr ⟨ss, hss, rfl⟩
      exact Table.mem_deleteWhere.mpr ⟨hin, not_onWork_repointed hne hin⟩
    · rcases hwork with hwork | hwork
      · simp [onWork, on?, hwork, move, hid]
      · have hoff : ¬target = source := Ne.symm hne
        simp [onWork, on?, hwork, hoff, hid]
  · rintro ⟨ss, hss, hwork, hid⟩
    obtain ⟨old, hold, rfl⟩ :=
      (mem_repoint_of_keepsKeys moveSourceSeries_keepsKeys).mp (Table.mem_deleteWhere.mp hss).1
    refine ⟨old, hold, ?_⟩
    by_cases hon : old.workId = source
    · exact ⟨by simpa [onWork, on?, hon, move] using hid, Or.inl hon⟩
    · have hsame : (if onWork source old then move target old else old) = old := by
        simp [onWork, on?, hon]
      rw [hsame] at hwork hid
      exact ⟨hid, Or.inr hwork⟩

/-- The rows afterwards: each went with its work, less the purged ones. -/
theorem mem_mergeCandidate_merged (hne : source ≠ target) {m : MergeCandidate} :
    m ∈ (merged rules source target db).mergeCandidate ↔
      (∃ old ∈ db.mergeCandidate, m = followed source target old) ∧
        ¬Purged source target db m := by
  let repointed := repoint source target db.sourceSeries
  let kept := repointed.deleteWhere (onWork source)
  let cascaded := db.mergeCandidate.deleteWhere fun m =>
    repointed.rows.any fun r => onWork source r && r.id = m.sourceSeriesId
  let purged := (deleteOn source (repoint source target cascaded)).deleteWhere fun m =>
    m.candidateWorkId = target && m.status = .pending &&
      kept.rows.any fun s => s.workId = target && s.id = m.sourceSeriesId
  have hwrite : (merged rules source target db).mergeCandidate =
      (purged.deleteWhere fun m =>
        kept.rows.any fun r => r.workId = source && r.id = m.sourceSeriesId).deleteWhere
          fun m => m.candidateWorkId = source := rfl
  have hcascade : ∀ x : MergeCandidate, x ∈ cascaded ↔ x ∈ db.mergeCandidate := by
    intro x
    rw [Table.mem_deleteWhere, and_iff_left_iff_imp]
    intro _
    rw [List.any_eq_false]
    intro r hr
    simp [not_onWork_repointed hne hr]
  have hgone : (kept.rows.any fun r => r.workId = source && r.id = m.sourceSeriesId) = false := by
    rw [List.any_eq_false]
    intro r hr
    have hoff : onWork source r = false := (Table.mem_deleteWhere.mp hr).2
    have hwork : r.workId ≠ source := by simpa [onWork, on?] using hoff
    simp [hwork]
  have hpurge : (decide (m.candidateWorkId = target) && decide (m.status = .pending) &&
      kept.rows.any fun s => s.workId = target && s.id = m.sourceSeriesId) = false ↔
        ¬Purged source target db m := by
    rw [← Bool.not_eq_true, Purged, onEither_iff hne]
    simp [kept, repointed, Table.mem_rows, and_assoc]
  rw [hwrite, Table.mem_deleteWhere, Table.mem_deleteWhere, Table.mem_deleteWhere, hpurge,
    deleteOn, Table.mem_deleteWhere, mem_repoint_mergeCandidate]
  simp only [hcascade]
  constructor
  · rintro ⟨⟨⟨⟨hold, -⟩, hkeep⟩, -⟩, -⟩
    exact ⟨hold, hkeep⟩
  · rintro ⟨⟨old, hold, rfl⟩, hkeep⟩
    have hoff : (followed source target old).candidateWorkId ≠ source := by
      rw [followed_candidateWorkId]
      split
      · exact Ne.symm hne
      · assumption
    exact ⟨⟨⟨⟨⟨old, hold, rfl⟩, by simpa [onWork, on?] using hoff⟩, hkeep⟩, hgone⟩,
      decide_eq_false hoff⟩

/-- No series has a rejected row for one of the works and a pending one for the
other, unless the merge makes these self-referential. -/
def Apart (source target : Id) (db : Db) : Prop :=
  ∀ r ∈ db.mergeCandidate, ∀ p ∈ db.mergeCandidate,
    r.status = .rejected → p.status = .pending →
    r.sourceSeriesId = p.sourceSeriesId →
    (r.candidateWorkId = source ∧ p.candidateWorkId = target) ∨
      (r.candidateWorkId = target ∧ p.candidateWorkId = source) →
    OnEither source target db r.sourceSeriesId

/-- A merge keeps finality exactly if it brings no such two rows together. -/
theorem final_merged_iff (rules : TextRules) (hne : source ≠ target)
    (hfinal : Final db.mergeCandidate) :
    Final (merged rules source target db).mergeCandidate ↔ Apart source target db := by
  constructor
  · intro hafter r hr p hp hrejected hpending hseries hworks
    by_contra hnot
    have htarget : (followed source target r).candidateWorkId = target ∧
        (followed source target p).candidateWorkId = target := by
      rw [followed_candidateWorkId, followed_candidateWorkId]
      rcases hworks with ⟨hsource, htarget⟩ | ⟨htarget, hsource⟩ <;>
        simp [hsource, htarget]
    have hkeep : ∀ m ∈ db.mergeCandidate, m.sourceSeriesId = r.sourceSeriesId →
        followed source target m ∈ (merged rules source target db).mergeCandidate := by
      intro m hm hsame
      refine (mem_mergeCandidate_merged hne).mpr ⟨⟨m, hm, rfl⟩, fun hpurged => hnot ?_⟩
      have honEither := hpurged.2.2
      rwa [followed_sourceSeriesId, hsame] at honEither
    refine hafter _ (hkeep r hr rfl) _ (hkeep p hp hseries.symm) (by simpa using hrejected)
      (by simpa using hpending) ⟨by simpa using hseries, ?_⟩
    rw [htarget.1, htarget.2]
  · rintro hapart r' hr' p' hp' hrejected hpending ⟨hseries, hwork⟩
    obtain ⟨⟨r, hr, rfl⟩, -⟩ := (mem_mergeCandidate_merged hne).mp hr'
    obtain ⟨⟨p, hp, rfl⟩, hkept⟩ := (mem_mergeCandidate_merged hne).mp hp'
    simp only [followed_status, followed_sourceSeriesId] at hrejected hpending hseries
    have hdiffer : r.candidateWorkId ≠ p.candidateWorkId :=
      fun heq => hfinal r hr p hp hrejected hpending ⟨hseries, heq⟩
    rw [followed_candidateWorkId, followed_candidateWorkId] at hwork
    -- two works became one: they are the source and the target
    have hworks : (r.candidateWorkId = source ∧ p.candidateWorkId = target) ∨
        (r.candidateWorkId = target ∧ p.candidateWorkId = source) := by
      by_cases hrs : r.candidateWorkId = source <;> by_cases hps : p.candidateWorkId = source
      · exact absurd (hrs.trans hps.symm) hdiffer
      · exact Or.inl ⟨hrs, by simpa [hrs, hps] using hwork.symm⟩
      · exact Or.inr ⟨by simpa [hrs, hps] using hwork, hps⟩
      · exact absurd (by simpa [hrs, hps] using hwork) hdiffer
    apply hkept
    refine ⟨?_, by simpa using hpending, ?_⟩
    · rw [followed_candidateWorkId]
      rcases hworks with ⟨-, htarget⟩ | ⟨-, hsource⟩
      · split
        · rfl
        · exact htarget
      · rw [if_pos hsource]
    · rw [followed_sourceSeriesId, ← hseries]
      exact hapart r hr p hp hrejected hpending hseries hworks

/-- A rejected row goes with its work. -/
theorem kept_merged (hne : source ≠ target) {r : MergeCandidate}
    (hr : r ∈ db.mergeCandidate) (hrejected : r.status = .rejected) :
    Kept r (merged rules source target db) := by
  refine ⟨followed source target r, ?_, followed_id r, followed_sourceSeriesId r,
    by simpa using hrejected, ?_⟩
  · refine (mem_mergeCandidate_merged hne).mpr ⟨⟨r, hr, rfl⟩, fun hpurged => ?_⟩
    have hpending := hpurged.2.1
    rw [followed_status, hrejected] at hpending
    contradiction
  · rw [followed_candidateWorkId]
    by_cases hsource : r.candidateWorkId = source
    · right
      rw [if_pos hsource, hsource]
      refine ⟨?_, by rw [redirectWorkId_merged, Forwarding.forward_self]⟩
      rw [← Bool.not_eq_true, hasWork_merged]
      exact fun h => h.2 rfl
    · exact Or.inl (if_neg hsource)

end Merged

/-! ## One step

The conditions under which a step keeps finality, one for each transaction. -/

/-- The accepted rows are confirmed until they are folded. -/
def Confirmed (s : ReviewState) : Prop :=
  ∀ a ∈ s.accepting, ∃ m ∈ s.db.mergeCandidate, m.id = a.id ∧ m.status = .confirmed

/-- No pair has a second pending row beside the one of the id. -/
def NoTwin (id : Id) (t : Table MergeCandidate) : Prop :=
  ∀ m ∈ t, claimable id m → ∀ p ∈ t, p.status = .pending → SamePair m p → p = m

/-- The pair of the row has not been rejected. -/
def NotRejected (id : Id) (t : Table MergeCandidate) : Prop :=
  ∀ m ∈ t, m.id = id → ∀ r ∈ t, r.status = .rejected → ¬SamePair r m

/-- What keeps a step from undoing a rejection.  A rejection closes the only
pending row of its pair; a merge that succeeds finds no series with a rejected
row for one of the works and a pending one for the other; and a fold that fails
reopens a row whose pair has not been rejected. -/
def Quiet (rules : TextRules) (s : ReviewState) : Event → Prop
  | .propose _ _ _ => True
  | .resolve read accept => accept = false → NoTwin read.id s.db.mergeCandidate
  | .fold id oldWork => ∀ row, accepted s id = some row →
      match foldMerge rules row oldWork s.db with
      | none => True
      | some (.ok _) =>
          ∀ old, oldWork = some old → Apart old row.candidateWorkId s.db
      | some (.error _) => NotRejected row.id s.db.mergeCandidate
  | .abandon _ => True
  | .merge source target expected =>
      (mergeWorksChecked rules source target expected s.db).isOk →
        Apart source target s.db

section Resolution

variable {t : Table MergeCandidate} {id : Id}

/-- What a claim makes of the status of a row. -/
theorem claim_status {status : CandidateStatus} {old : MergeCandidate} :
    (if claimable id old then withStatus status old else old).status =
      if claimable id old then status else old.status := by
  split <;> rfl

/-- A claim leaves the pairs as they are. -/
theorem samePair_claim {status : CandidateStatus} {a b : MergeCandidate} :
    SamePair (if claimable id a then withStatus status a else a)
      (if claimable id b then withStatus status b else b) ↔ SamePair a b := by
  have hkeep : ∀ m : MergeCandidate,
      (if claimable id m then withStatus status m else m).sourceSeriesId = m.sourceSeriesId ∧
      (if claimable id m then withStatus status m else m).candidateWorkId =
        m.candidateWorkId := by
    intro m
    split <;> exact ⟨rfl, rfl⟩
  rw [SamePair, (hkeep a).1, (hkeep a).2, (hkeep b).1, (hkeep b).2, SamePair]

/-- Confirming a row rejects none. -/
theorem final_confirm (h : Final t) : Final (claim .confirmed id t) := by
  intro r' hr' p' hp' hrejected hpending hpair
  obtain ⟨r, hr, rfl⟩ := mem_claim.mp hr'
  obtain ⟨p, hp, rfl⟩ := mem_claim.mp hp'
  rw [claim_status] at hrejected hpending
  split at hrejected
  · contradiction
  · split at hpending
    · contradiction
    · exact h r hr p hp hrejected hpending (samePair_claim.mp hpair)

/-- Rejecting a row keeps finality exactly if it is the only pending one of its
pair. -/
theorem final_reject_iff (h : Final t) : Final (claim .rejected id t) ↔ NoTwin id t := by
  constructor
  · intro hafter m hm hclaim p hp hpending hpair
    by_contra hne
    have hother : claimable id p = false := by
      rw [← Bool.not_eq_true]
      intro hp'
      have hmid : m.id = id := by simpa using (Bool.and_eq_true_iff.mp hclaim).1
      have hpid : p.id = id := by simpa using (Bool.and_eq_true_iff.mp hp').1
      exact hne (eq_of_id hp hm (hpid.trans hmid.symm))
    refine hafter _ (mem_claim.mpr ⟨m, hm, rfl⟩) _ (mem_claim.mpr ⟨p, hp, rfl⟩) ?_ ?_
      (samePair_claim.mpr hpair)
    · rw [claim_status, if_pos hclaim]
    · rw [claim_status, hother]
      exact hpending
  · intro htwin r' hr' p' hp' hrejected hpending hpair
    obtain ⟨r, hr, rfl⟩ := mem_claim.mp hr'
    obtain ⟨p, hp, rfl⟩ := mem_claim.mp hp'
    have hpair := samePair_claim.mp hpair
    rw [claim_status] at hrejected hpending
    split at hpending
    · contradiction
    · next hother =>
        split at hrejected
        · next hclaim =>
            have heq := htwin r hr hclaim p hp hpending hpair
            exact hother (heq ▸ hclaim)
        · exact h r hr p hp hrejected hpending hpair

/-- Reopening a row keeps finality exactly if its pair has not been rejected. -/
theorem final_reopen_iff (h : Final t)
    (hclosed : ∀ m ∈ t, m.id = id → m.status = .confirmed) :
    Final (reopen id t) ↔ NotRejected id t := by
  have hpair : ∀ a b : MergeCandidate,
      SamePair (if a.id = id then withStatus .pending a else a)
        (if b.id = id then withStatus .pending b else b) ↔ SamePair a b := by
    intro a b
    split <;> split <;> exact Iff.rfl
  constructor
  · intro hafter m hm hid r hr hrejected hsame
    have hrid : r.id ≠ id := by
      intro heq
      have := hclosed r hr heq
      rw [hrejected] at this
      contradiction
    refine hafter _ (mem_reopen.mpr ⟨r, hr, rfl⟩) _ (mem_reopen.mpr ⟨m, hm, rfl⟩) ?_ ?_
      ((hpair r m).mpr hsame)
    · rw [if_neg hrid]
      exact hrejected
    · rw [if_pos hid]
      rfl
  · intro hnone r' hr' p' hp' hrejected hpending hsame
    obtain ⟨r, hr, rfl⟩ := mem_reopen.mp hr'
    obtain ⟨p, hp, rfl⟩ := mem_reopen.mp hp'
    have hsame := (hpair r p).mp hsame
    split at hrejected
    · contradiction
    · split at hpending
      · next hpid => exact hnone p hp hpid r hr hrejected hsame
      · exact h r hr p hp hrejected hpending hsame

/-- A row that is still there is kept. -/
theorem kept_self {db : Db} {r : MergeCandidate} (hr : r ∈ db.mergeCandidate)
    (hrejected : r.status = .rejected) : Kept r db :=
  ⟨r, hr, rfl, rfl, hrejected, Or.inl rfl⟩

/-- A claim passes over what is not pending. -/
theorem mem_claim_of_ne_pending {status : CandidateStatus} {m : MergeCandidate} (hm : m ∈ t)
    (hstatus : m.status ≠ .pending) : m ∈ claim status id t := by
  have hnot : ¬claimable id m := by simp [claimable, hstatus]
  exact mem_claim.mpr ⟨m, hm, by rw [if_neg hnot]⟩

end Resolution

/-! ## Every run

The facts of a step, for every event, and the induction over them. -/

section Runs

variable {rules : TextRules} {s : ReviewState}

/-- What every step keeps, and what it does to the queue. -/
structure StepFacts (rules : TextRules) (s : ReviewState) (e : Event) : Prop where
  confirmed : Confirmed (step rules s e)
  kept : RejectedKept rules s e
  final_iff : Final s.db.mergeCandidate →
    (Final (step rules s e).db.mergeCandidate ↔ Quiet rules s e)

/-- A merge keeps the confirmed rows. -/
theorem confirmed_merged (rules : TextRules) {source target : Id} (hne : source ≠ target)
    {db : Db} {m : MergeCandidate} (hm : m ∈ db.mergeCandidate)
    (hconfirmed : m.status = .confirmed) :
    ∃ m' ∈ (merged rules source target db).mergeCandidate,
      m'.id = m.id ∧ m'.status = .confirmed := by
  refine ⟨followed source target m, (mem_mergeCandidate_merged hne).mpr ⟨⟨m, hm, rfl⟩, ?_⟩,
    followed_id m, by simpa using hconfirmed⟩
  intro hpurged
  have hpending := hpurged.2.1
  rw [followed_status, hconfirmed] at hpending
  contradiction

/-- A step that leaves the queue as it is and accepts nothing. -/
theorem StepFacts.of_same (h : Confirmed s) {e : Event} (hdb : (step rules s e).db = s.db)
    (haccepting : ∀ a ∈ (step rules s e).accepting, a ∈ s.accepting)
    (hquiet : Quiet rules s e) : StepFacts rules s e where
  confirmed a ha := by
    rw [hdb]
    exact h a (haccepting a ha)
  kept r hr hrejected := by
    rw [hdb]
    exact kept_self hr hrejected
  final_iff hfinal := by
    rw [hdb]
    exact iff_of_true hfinal hquiet

/-- A step that merges two works and accepts nothing. -/
theorem StepFacts.of_merged (h : Confirmed s) {e : Event} {source target : Id}
    (hne : source ≠ target) (hdb : (step rules s e).db = merged rules source target s.db)
    (haccepting : ∀ a ∈ (step rules s e).accepting, a ∈ s.accepting)
    (hquiet : Quiet rules s e ↔ Apart source target s.db) : StepFacts rules s e where
  confirmed a ha := by
    rw [hdb]
    obtain ⟨m, hm, hid, hconfirmed⟩ := h a (haccepting a ha)
    obtain ⟨m', hm', hid', hconfirmed'⟩ := confirmed_merged rules hne hm hconfirmed
    exact ⟨m', hm', hid'.trans hid, hconfirmed'⟩
  kept r hr hrejected := by
    rw [hdb]
    exact kept_merged hne hr hrejected
  final_iff hfinal := by
    rw [hdb, hquiet]
    exact final_merged_iff rules hne hfinal

/-- A proposal is refused for a pair that has a row. -/
theorem stepFacts_propose (h : Confirmed s) (newId sourceSeriesId candidateWorkId : Id) :
    StepFacts rules s (.propose newId sourceSeriesId candidateWorkId) := by
  have hcases : ∀ P : Db → Prop, P s.db →
      (∀ t, (∃ row : MergeCandidate, row.status = .pending ∧
        (∀ m ∈ s.db.mergeCandidate, ¬SamePair m row) ∧
        ∀ m, m ∈ t ↔ m ∈ s.db.mergeCandidate ∨ m = row) →
          P { s.db with mergeCandidate := t }) →
      P (s.db.commit (insertMergeCandidate newId sourceSeriesId candidateWorkId s.db)) := by
    intro P hsame hinserted
    refine commit_cases hsame fun out db' hok => ?_
    rcases propose_ok hok with rfl | ⟨t, rfl, hrow⟩
    · exact hsame
    · exact hinserted t hrow
  constructor
  · intro a ha
    obtain ⟨m, hm, hid, hconfirmed⟩ := h a ha
    refine hcases (fun db => ∃ m ∈ db.mergeCandidate, m.id = a.id ∧ m.status = .confirmed)
      ⟨m, hm, hid, hconfirmed⟩ ?_
    rintro t ⟨row, -, -, ht⟩
    exact ⟨m, (ht m).mpr (Or.inl hm), hid, hconfirmed⟩
  · intro r hr hrejected
    refine hcases (Kept r) (kept_self hr hrejected) ?_
    rintro t ⟨row, -, -, ht⟩
    exact kept_self ((ht r).mpr (Or.inl hr)) hrejected
  · intro hfinal
    refine iff_of_true (hcases (fun db => Final db.mergeCandidate) hfinal ?_) trivial
    rintro t ⟨row, hpending, hnew, ht⟩ r hr p hp hrejected hpending' hpair
    rcases (ht r).mp hr with hr | rfl
    · rcases (ht p).mp hp with hp | rfl
      · exact hfinal r hr p hp hrejected hpending' hpair
      · exact hnew r hr hpair
    · rw [hpending] at hrejected
      contradiction

/-- A resolution closes the row it has read if that is pending. -/
theorem stepFacts_resolve (h : Confirmed s) (read : MergeCandidate) (accept : Bool) :
    StepFacts rules s (.resolve read accept) := by
  by_cases hclaims : s.db.mergeCandidate.rows.any (claimable read.id)
  · have hstep : step rules s (.resolve read accept) =
        { db := { s.db with
            mergeCandidate := claim (if accept then .confirmed else .rejected) read.id
              s.db.mergeCandidate }
          accepting := if accept then s.accepting.insertOrReplace read else s.accepting } := by
      rw [step, resolve, if_pos hclaims]
    have hold : ∀ a ∈ s.accepting, ∃ m ∈ (step rules s (.resolve read accept)).db.mergeCandidate,
        m.id = a.id ∧ m.status = .confirmed := by
      intro a ha
      obtain ⟨m, hm, hid, hconfirmed⟩ := h a ha
      rw [hstep]
      exact ⟨m, mem_claim_of_ne_pending hm (by simp [hconfirmed]), hid, hconfirmed⟩
    constructor
    · intro a ha
      have haccepting : (step rules s (.resolve read accept)).accepting =
          if accept then s.accepting.insertOrReplace read else s.accepting := by rw [hstep]
      rw [haccepting] at ha
      cases accept with
      | false => exact hold a ha
      | true =>
          rcases Table.mem_insertOrReplace.mp ha with ⟨ha, -⟩ | rfl
          · exact hold a ha
          · obtain ⟨m, hm, hclaim⟩ := List.any_eq_true.mp hclaims
            rw [hstep]
            refine ⟨withStatus .confirmed m, mem_claim.mpr ⟨m, hm, by rw [if_pos hclaim]; rfl⟩,
              ?_, rfl⟩
            have hid : m.id = a.id := by simpa using (Bool.and_eq_true_iff.mp hclaim).1
            exact hid
    · intro r hr hrejected
      rw [hstep]
      exact kept_self (mem_claim_of_ne_pending hr (by simp [hrejected])) hrejected
    · intro hfinal
      rw [hstep]
      cases accept with
      | false => simpa [Quiet] using final_reject_iff hfinal
      | true => exact iff_of_true (final_confirm hfinal) (by simp [Quiet])
  · have hstep : step rules s (.resolve read accept) = s := by
      rw [step, resolve, if_neg hclaims]
    have hnone : ∀ m ∈ s.db.mergeCandidate, ¬claimable read.id m := by
      intro m hm hclaim
      exact hclaims (List.any_eq_true.mpr ⟨m, hm, hclaim⟩)
    apply StepFacts.of_same h
    · rw [hstep]
    · rw [hstep]
      exact fun a ha => ha
    · exact fun _ m hm hclaim => absurd hclaim (hnone m hm)

theorem stepFacts_merge (h : Confirmed s) (source target : Id)
    (expected : Option (WorkIdentity × WorkIdentity)) :
    StepFacts rules s (.merge source target expected) := by
  cases hresult : mergeWorksChecked rules source target expected s.db with
  | error err =>
      have hstep : step rules s (.merge source target expected) = s := by
        simp [step, hresult, Db.commit]
      apply StepFacts.of_same h
      · rw [hstep]
      · rw [hstep]
        exact fun a ha => ha
      · simp [Quiet, hresult, Except.isOk, Except.toBool]
  | ok result =>
      obtain ⟨outcome, db'⟩ := result
      obtain ⟨hne, -, -, -, rfl⟩ := merge_ok hresult
      have hstep : step rules s (.merge source target expected) =
          { s with db := merged rules source target s.db } := by
        simp [step, hresult, Db.commit]
      apply StepFacts.of_merged h hne
      · rw [hstep]
      · rw [hstep]
        exact fun a ha => ha
      · simp [Quiet, hresult, Except.isOk, Except.toBool]

/-- The other accepted rows stay accepted. -/
theorem mem_closed {id : Id} {a : MergeCandidate} :
    a ∈ closed s id ↔ a ∈ s.accepting ∧ a.id ≠ id := by
  rw [closed, Table.mem_deleteWhere, decide_eq_false_iff_not]

/-- What a fold that succeeds has merged. -/
theorem foldMerge_ok {row : MergeCandidate} {oldWork : Option Id} {db db' : Db}
    {outcome : MergeOutcome}
    (h : foldMerge rules row oldWork db = some (.ok (outcome, db'))) :
    ∃ old, oldWork = some old ∧ old ≠ row.candidateWorkId ∧
      db' = merged rules old row.candidateWorkId db := by
  unfold foldMerge at h
  split at h
  · contradiction
  · next old =>
      split at h
      · contradiction
      · next hne =>
          obtain ⟨-, -, -, -, hmerged⟩ := merge_ok (Option.some.inj h)
          exact ⟨old, rfl, hne, hmerged⟩

/-- A fold merges, or reopens its row. -/
theorem stepFacts_fold (h : Confirmed s) (id : Id) (oldWork : Option Id) :
    StepFacts rules s (.fold id oldWork) := by
  cases haccepted : accepted s id with
  | none =>
      have hstep : step rules s (.fold id oldWork) = s := by simp [step, haccepted]
      apply StepFacts.of_same h
      · rw [hstep]
      · rw [hstep]
        exact fun a ha => ha
      · simp [Quiet, haccepted]
  | some row =>
      have hrow : row ∈ s.accepting := List.mem_of_find?_eq_some haccepted
      have hid : row.id = id := by simpa using List.find?_some haccepted
      have hstep : step rules s (.fold id oldWork) =
          { db := folded rules row oldWork s.db, accepting := closed s id } := by
        simp [step, haccepted]
      have hfewer : ∀ a ∈ (step rules s (.fold id oldWork)).accepting, a ∈ s.accepting := by
        rw [hstep]
        exact fun a ha => (mem_closed.mp ha).1
      cases hfold : foldMerge rules row oldWork s.db with
      | none =>
          have hdb : folded rules row oldWork s.db = s.db := by simp [folded, hfold]
          apply StepFacts.of_same h
          · rw [hstep, hdb]
          · exact hfewer
          · simp [Quiet, haccepted, hfold]
      | some result =>
          cases result with
          | ok result =>
              obtain ⟨outcome, db'⟩ := result
              obtain ⟨old, rfl, hne, rfl⟩ := foldMerge_ok hfold
              have hdb : folded rules row (some old) s.db =
                  merged rules old row.candidateWorkId s.db := by simp [folded, hfold]
              apply StepFacts.of_merged h hne
              · rw [hstep, hdb]
              · exact hfewer
              · simp [Quiet, haccepted, hfold]
          | error err =>
              have hdb : folded rules row oldWork s.db =
                  { s.db with mergeCandidate := reopen row.id s.db.mergeCandidate } := by
                simp [folded, hfold]
              rw [hdb] at hstep
              have hclosed : ∀ m ∈ s.db.mergeCandidate, m.id = row.id →
                  m.status = .confirmed := by
                intro m hm hmid
                obtain ⟨m', hm', hid', hconfirmed⟩ := h row hrow
                rw [eq_of_id hm hm' (hmid.trans hid'.symm)]
                exact hconfirmed
              have hpassed : ∀ m ∈ s.db.mergeCandidate, m.id ≠ row.id →
                  m ∈ reopen row.id s.db.mergeCandidate :=
                fun m hm hne => mem_reopen.mpr ⟨m, hm, by rw [if_neg hne]⟩
              constructor
              · intro a ha
                rw [hstep] at ha ⊢
                obtain ⟨hin, hother⟩ := mem_closed.mp ha
                obtain ⟨m, hm, hmid, hconfirmed⟩ := h a hin
                refine ⟨m, hpassed m hm ?_, hmid, hconfirmed⟩
                rw [hmid, hid]
                exact hother
              · intro r hr hrejected
                rw [hstep]
                refine kept_self (hpassed r hr ?_) hrejected
                intro heq
                have hconfirmed := hclosed r hr heq
                rw [hrejected] at hconfirmed
                contradiction
              · intro hfinal
                rw [hstep]
                simpa [Quiet, haccepted, hfold] using final_reopen_iff hfinal hclosed

/-- A resolution that stops after its claim leaves the row confirmed. -/
theorem stepFacts_abandon (h : Confirmed s) (id : Id) :
    StepFacts rules s (.abandon id) :=
  StepFacts.of_same h rfl (fun _ ha => (mem_closed.mp ha).1) trivial

/-- Every event, by the cases above. -/
theorem stepFacts (h : Confirmed s) (e : Event) : StepFacts rules s e := by
  cases e with
  | propose newId sourceSeriesId candidateWorkId =>
      exact stepFacts_propose h newId sourceSeriesId candidateWorkId
  | resolve read accept => exact stepFacts_resolve h read accept
  | fold id oldWork => exact stepFacts_fold h id oldWork
  | abandon id => exact stepFacts_abandon h id
  | merge source target expected => exact stepFacts_merge h source target expected

end Runs

/-- **A rejection is final.**  Along every run of proposals, resolutions and merges, no
rejected row is dropped or reopened and no rejected pair is pending, exactly if this is
so at the start and every step is quiet.  A step is not quiet if it brings a rejected
and a pending row of one pair together, or reopens a row whose pair is rejected. -/
theorem rejection_final_iff (rules : TextRules) (db : Db) (events : List Event) :
    (Always (step rules) (fun s => Final s.db.mergeCandidate) (start db) events ∧
      EachStep (step rules) (RejectedKept rules) (start db) events) ↔
    Final db.mergeCandidate ∧ EachStep (step rules) (Quiet rules) (start db) events := by
  have hstart : Confirmed (start db) := fun a ha => absurd ha (Table.not_mem_empty a)
  have hstep : ∀ s e, Confirmed s → Confirmed (step rules s e) :=
    fun s e h => (stepFacts h e).confirmed
  have hkept : EachStep (step rules) (RejectedKept rules) (start db) events :=
    EachStep.of_invariant (P := fun _ _ => True) (fun s e h _ => hstep s e h)
      (fun s e h _ => (stepFacts h e).kept) hstart (eachStep_of_forall fun _ _ => trivial)
  rw [and_iff_left hkept]
  exact always_iff_eachStep hstep (fun s e h hfinal => (stepFacts h e).final_iff hfinal) hstart

/-- A work that is known by its title. -/
def plainWork (id : Id) : Work where
  id := id
  primaryTitle := some id
  primaryLang := none
  description := none
  year := none
  originalLanguage := none
  status := none
  demographic := none
  contentRating := none
  isNsfw := false
  author := none
  artist := none
  coverPhash := none
  coverFileName := none
  titleOverride := none
  isNsfwOverride := none

/-- The works `a`, `b` and `c`; `c` has the one source series. -/
def threeWorks : Db :=
  { Db.empty with
    work := ⟨[plainWork "a", plainWork "b", plainWork "c"], by decide⟩
    sourceSeries := ⟨[⟨"s", "c", "suwayomi", "1", "7", none, false, none⟩],
      List.pairwise_singleton _ _⟩ }

/-- The series of `c` is proposed for `a` and rejected, and proposed for `b`; then
`a` is merged into `b`. -/
def rejectThenMerge : List Event :=
  [.propose "mc1" "s" "a", .resolve ⟨"mc1", "s", "a", .pending⟩ false,
    .propose "mc2" "s" "b", .merge "a" "b" none]

/-- The pair that was rejected is pending again. -/
theorem not_rejection_final_merge :
    ¬(Always (step plainRules.toTextRules) (fun s => Final s.db.mergeCandidate)
        (start threeWorks) rejectThenMerge ∧
      EachStep (step plainRules.toTextRules) (RejectedKept plainRules.toTextRules)
        (start threeWorks) rejectThenMerge) := by
  rintro ⟨hfinal, -⟩
  have hrejected : (⟨"mc1", "s", "b", .rejected⟩ : MergeCandidate) ∈
      (run (step plainRules.toTextRules) (start threeWorks) rejectThenMerge).db.mergeCandidate :=
    Table.mem_rows.mp (by decide)
  have hpending : (⟨"mc2", "s", "b", .pending⟩ : MergeCandidate) ∈
      (run (step plainRules.toTextRules) (start threeWorks) rejectThenMerge).db.mergeCandidate :=
    Table.mem_rows.mp (by decide)
  exact hfinal.last _ hrejected _ hpending rfl rfl ⟨rfl, rfl⟩

end Komika.Catalog.Candidates
