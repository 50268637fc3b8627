import Komika.Catalog.Ledger
import Mathlib.Data.List.Sort

/-!
# Splitting a work

`split_source_series` of `catalog/mod.rs`: an admin detaches some of a work's
mappings onto a new work.

The function reads the mappings, makes its checks and picks the new title
*before* it opens its transaction (`planSplit`); the transaction then moves
the rows it decided on, if they are still there (`commitSplit`).  Other
writers may run in between.

The plan is a value of its own, so that a run may hold any number of plans and commit
them in any order.  `commitSplit_ok` says what a transaction that commits has found,
whatever happened since its plan was made.
-/

namespace Komika.Catalog.Split

open Komika.Lib
open Komika.Catalog.Schema Komika.Catalog.Database Komika.Catalog.Ingest
open Komika.Catalog.Ledger

/-! ## The reads

They see the database as it was before the transaction, and another admin may split the
same work before it. -/

/-- `SourceSeriesRow`, the columns `split_source_series` uses. -/
structure SourceSeriesRow where
  id : Id
  sourceType : String
  sourceKey : String
  isNsfw : Bool
  title : String
deriving DecidableEq, Repr

/-- `NULLIF(t, '')`: an empty text counts as none. -/
def nullIfEmpty (t : String) : Option String := if t = "" then none else some t

/-- The `suwayomi_series` row a mapping joins with. -/
def cachedSeries (rules : TextRules) (db : Db) (sourceType sourceKey : String) :
    Option SuwayomiSeries :=
  if sourceType = "suwayomi" then
    db.suwayomiSeries.rows.find? fun sy => sy.id = rules.castInteger sourceKey
  else none

/-- `ORDER BY (source_type = 'mangadex') DESC, last_seen DESC`, NULLs last. -/
def pickerOrder (a b : SourceSeries) : Prop :=
  match decide (a.sourceType = "mangadex"), decide (b.sourceType = "mangadex") with
  | true, false => True
  | false, true => False
  | _, _ =>
      match a.lastSeen, b.lastSeen with
      | _, none => True
      | none, some _ => False
      | some x, some y => ¬x < y

instance : DecidableRel pickerOrder := fun a b => by
  unfold pickerOrder
  split
  · infer_instance
  · infer_instance
  · split <;> infer_instance

/-- `work_source_series_rows`: what the admin's picker lists of a work. -/
def workSourceSeriesRows (rules : TextRules) (db : Db) (workId : Id) :
    List SourceSeriesRow :=
  match db.work? workId with
  | none => []
  | some w =>
      ((db.sourceSeries.rows.filter fun ss => ss.workId = workId).insertionSort
        pickerOrder).map fun ss =>
          { id := ss.id
            sourceType := ss.sourceType
            sourceKey := ss.sourceKey
            isNsfw := ss.isNsfw
            title := ((((cachedSeries rules db ss.sourceType ss.sourceKey).bind
              fun sy => nullIfEmpty sy.title).or w.titleOverride).or
                w.primaryTitle).getD "" }

/-- What `split_source_series` has decided when it opens its transaction. -/
structure SplitPlan where
  workId : Id
  detached : List SourceSeriesRow
  title : String
deriving DecidableEq, Repr

/-- The checks, on what was read outside the transaction. -/
def planSplit (rules : TextRules) (db : Db) (workId : Id)
    (sourceSeriesIds : List Id) : Except CatalogError SplitPlan :=
  if sourceSeriesIds = [] then .error .nothingToDetach
  else
    let all := workSourceSeriesRows rules db workId
    if all = [] then .error (.noSources workId)
    else
      let detached := all.filter fun r => sourceSeriesIds.contains r.id
      let kept := all.filter fun r => !sourceSeriesIds.contains r.id
      if detached.length ≠ sourceSeriesIds.dedup.length then
        .error (.notASource (sourceSeriesIds.filter fun id =>
          !detached.any fun r => r.id = id))
      else if kept = [] then .error .lastSource
      else
        let title := rules.trim ((detached.head?.map SourceSeriesRow.title).getD "")
        if title = "" then .error .untitled
        else .ok ⟨workId, detached, title⟩

/-! ## The transaction

It moves the rows one by one, and rolls back unless each of them is still the old
work's. -/

/-- What the mutation returns. -/
structure SplitOutcome where
  newWorkId : Id
  newReaderId : Id
  title : String
  movedSources : Nat
deriving DecidableEq, Repr

/-- `min_by(|a, b| a.id.cmp(&b.id))`: the first of the least. -/
def leastId (rows : List SourceSeriesRow) : Option SourceSeriesRow :=
  rows.foldl (fun least r =>
    match least with
    | none => some r
    | some l => if r.id < l.id then some r else some l) none

/-- The id the reader navigates to. -/
def readerId (newWorkId : Id) (detached : List SourceSeriesRow) : Id :=
  if detached.any fun r => r.sourceType = "mangadex" then newWorkId
  else ((leastId (detached.filter fun r => r.sourceType = "suwayomi")).map
    SourceSeriesRow.sourceKey).getD newWorkId

/-- `UPDATE source_series SET work_id = ? WHERE id = ? AND work_id = ?`, and
the rows it affects. -/
def moveSource (oldWork newWork : Id) (r : SourceSeriesRow)
    (t : Table SourceSeries) : Table SourceSeries × Nat :=
  let p (s : SourceSeries) : Bool := s.id = r.id && s.workId = oldWork
  (t.update p (move newWork) (moveSourceSeries_keepsKeys newWork),
    t.rows.countP p)

/-- The loop over the detached rows, with the rows moved. -/
def moveSources (oldWork newWork : Id) (detached : List SourceSeriesRow)
    (t : Table SourceSeries) : Table SourceSeries × Nat :=
  match detached with
  | [] => (t, 0)
  | r :: rest =>
      let first := moveSource oldWork newWork r t
      let others := moveSources oldWork newWork rest first.1
      (others.1, first.2 + others.2)

/-- `SET work_id = ?` on `work_external_id`. -/
theorem moveExternalId_keepsKeys (w : Id) :
    Table.KeepsKeys (move w : WorkExternalId → WorkExternalId) := fun _ _ => rfl

/-- A detached MangaDex mapping takes its uuid's external id along. -/
def moveAnchor (oldWork newWork : Id) (t : Table WorkExternalId)
    (r : SourceSeriesRow) : Table WorkExternalId :=
  t.update (fun e => e.provider = "mangadex" && e.externalId = r.sourceKey &&
    e.workId = oldWork) (move newWork) (moveExternalId_keepsKeys newWork)

/-- The anchors of all detached MangaDex mappings. -/
def moveAnchors (oldWork newWork : Id) (detached : List SourceSeriesRow)
    (t : Table WorkExternalId) : Table WorkExternalId :=
  (detached.filter fun r => r.sourceType = "mangadex").foldl
    (moveAnchor oldWork newWork) t

/-- The release events follow the detached mappings, one mapping at a time. -/
def detachEvents (oldWork newWork : Id) (detached : List Id) (db : Db)
    (events : Table ReleaseEvent) : Table ReleaseEvent :=
  detached.foldl (fun events r => moveEvents oldWork newWork r db events) events

/-- The pair in the order `work_split` stores it. -/
def orderedPair (one other : Id) : Id × Id :=
  if one < other then (one, other) else (other, one)

/-- The `work` row of the new work. -/
def splitWork (newWorkId : Id) (title : String) (parent : Work) (nsfw : Bool)
    (sourceMeta : Option SuwayomiSeries) : Work :=
  { id := newWorkId
    primaryTitle := some title
    primaryLang := sourceMeta.bind SuwayomiSeries.lang
    description := sourceMeta.bind SuwayomiSeries.description
    year := none
    originalLanguage := none
    status := sourceMeta.map SuwayomiSeries.status
    demographic := none
    contentRating := parent.contentRating
    isNsfw := nsfw
    author := sourceMeta.bind SuwayomiSeries.author
    artist := sourceMeta.bind SuwayomiSeries.artist
    coverPhash := none
    coverFileName := none
    titleOverride := none
    isNsfwOverride := none }

/-- The writes of the transaction, once the rows have moved. -/
def detachRows (rules : TextRules) (plan : SplitPlan) (newWorkId : Id)
    (lang : Option String) (actor : Option Id) (work : Table Work)
    (sourceSeries : Table SourceSeries) (db : Db) : Db :=
  let db := { db with work := work, sourceSeries := sourceSeries }
  let db := { db with
    workExternalId := moveAnchors plan.workId newWorkId plan.detached
      db.workExternalId }
  let db := { db with
    releaseEvent := detachEvents plan.workId newWorkId
      (plan.detached.map SourceSeriesRow.id) db db.releaseEvent }
  let db := insertAliases rules newWorkId [⟨plan.title, lang⟩] db
  let pair := orderedPair plan.workId newWorkId
  { db with
    workSplit := db.workSplit.insertOrIgnore ⟨pair.1, pair.2, actor⟩ }

/-- The transaction of `split_source_series`. -/
def commitSplit (rules : TextRules) (plan : SplitPlan) (newWorkId : Id)
    (actor : Option Id) (db : Db) : Except CatalogError (SplitOutcome × Db) :=
  match db.work? plan.workId with
  | none => .error (.noSuchWork plan.workId)
  | some parent =>
      let nsfw := (parent.isNsfwOverride.getD parent.isNsfw) ||
        plan.detached.any fun r => r.isNsfw
      let sourceMeta := (plan.detached.find? fun r =>
        r.sourceType = "suwayomi").bind fun r =>
          cachedSeries rules db r.sourceType r.sourceKey
      match db.work.insert
          (splitWork newWorkId plan.title parent nsfw sourceMeta) with
      | none => .error .uniqueConstraint
      | some work =>
          let (sourceSeries, moved) :=
            moveSources plan.workId newWorkId plan.detached db.sourceSeries
          if moved ≠ plan.detached.length then .error .sourcesChanged
          else
            .ok (⟨newWorkId, readerId newWorkId plan.detached, plan.title, moved⟩,
              detachRows rules plan newWorkId
                (sourceMeta.bind SuwayomiSeries.lang) actor work sourceSeries db)

/-- `split_source_series` with nothing in between its reads and its writes. -/
def splitSourceSeries (rules : TextRules) (workId : Id)
    (sourceSeriesIds : List Id) (newWorkId : Id) (actor : Option Id) (db : Db) :
    Except CatalogError (SplitOutcome × Db) :=
  match planSplit rules db workId sourceSeriesIds with
  | .error e => .error e
  | .ok plan => commitSplit rules plan newWorkId actor db

/-- A transaction that commits found the parent, and every row it was to move. -/
theorem commitSplit_ok {rules : TextRules} {plan : SplitPlan} {newWorkId : Id}
    {actor : Option Id} {db db' : Db} {outcome : SplitOutcome}
    (h : commitSplit rules plan newWorkId actor db = .ok (outcome, db')) :
    db.hasWork plan.workId = true ∧
      ∃ row work lang, row.id = newWorkId ∧ db.work.insert row = some work ∧
        (moveSources plan.workId newWorkId plan.detached db.sourceSeries).2 =
          plan.detached.length ∧
        db' = detachRows rules plan newWorkId lang actor work
          (moveSources plan.workId newWorkId plan.detached db.sourceSeries).1
          db := by
  unfold commitSplit at h
  split at h
  · contradiction
  · next parent hparent =>
      dsimp only at h
      split at h
      · contradiction
      · next work hwork =>
          split at h
          · contradiction
          · next hmoved =>
              cases h
              refine ⟨?_, _, work, _, rfl, hwork, by simpa using hmoved, rfl⟩
              rw [hasWork_iff_work?, hparent]
              rfl

/-- `is_split_pair`: whether an admin has put the two apart, in either order. -/
def isSplitPair (db : Db) (one other : Id) : Bool :=
  db.workSplit.rows.any fun r => (r.workA, r.workB) = orderedPair one other

end Komika.Catalog.Split
