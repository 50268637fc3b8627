import Komika.Catalog.Ledger

/-!
# Merging two works

`merge_works_checked` of `catalog/mod.rs`: one transaction of some thirty
statements that folds `source` into `target`, leaves a forwarding address and
deletes `source`.  Each group of statements is one function below, in the
order of the source; `merged` runs them all.

Before the first write the transaction checks that both works exist and that
neither has changed under the caller's gate.  After that only the `CHECK` of
`work_redirect` can stop it.

* `merge_ok` — what a merge that succeeds has checked and done;
* `mergeWorksChecked_isOk_iff` — when it succeeds.

What it leaves of each table is in `Effects`, `Events` and `Conservation`.
-/

namespace Komika.Catalog.Merge

open Komika.Lib
open Komika.Catalog.Schema Komika.Catalog.Database Komika.Catalog.Ingest
open Komika.Catalog.Ledger

/-- The identity columns an automated merge is decided on. -/
structure WorkIdentity where
  primaryTitle : Option String
  year : Option Int
  author : Option String
  coverPhash : Option String
deriving DecidableEq, Repr

/-- The identity columns of a row. -/
def identity (w : Work) : WorkIdentity :=
  ⟨w.primaryTitle, w.year, w.author, w.coverPhash⟩

/-- What the caller is told. -/
structure MergeOutcome where
  movedSourceSeries : Nat
deriving DecidableEq, Repr

/-! ## Folding the identity signals

Titles, external ids, descriptions, credits, covers, tags and the columns of the row
itself: the target keeps what it has and takes what it lacks. -/

/-- The aliases, and the tokens of the aliases. -/
def foldAliases (rules : TextRules) (source target : Id) (db : Db) : Db :=
  let aliases := copiesTo source target db.workAlias
  { db with
    workAlias := db.workAlias.insertAllOrIgnore aliases
    workAliasToken :=
      db.workAliasToken.insertAllOrIgnore (tokenRows rules aliases) }

/-- The external ids are repointed: their key does not include the work. -/
def foldExternalIds (source target : Id) (db : Db) : Db :=
  { db with workExternalId := repoint source target db.workExternalId }

/-- `is_primary`, unless the target has a primary cover already. -/
def demoteCover (target : Id) (covers : Table WorkCover) (r : WorkCover) :
    WorkCover :=
  if covers.rows.any fun t => t.workId = target && t.isPrimary then
    { r with isPrimary := false }
  else r

/-- `COALESCE(MAX(ord), -1) + 1` over the target's tags. -/
def nextOrd (target : Id) (tags : Table WorkTag) : Int :=
  (((tags.rows.filter fun r => r.workId = target).map WorkTag.ord).foldl
    (fun m ord => some (max ord (m.getD ord))) none).getD (-1) + 1

/-- Descriptions, credits, covers, the curated tags and chapter overrides: what
the target lacks. -/
def foldMetadata (source target : Id) (db : Db) : Db :=
  { db with
    workDescription := db.workDescription.insertAllOrIgnore
      (copiesTo source target db.workDescription)
    workCredit := db.workCredit.insertAllOrIgnore
      (copiesTo source target db.workCredit)
    workCover := db.workCover.insertAllOrIgnore
      ((copiesTo source target db.workCover).map
        (demoteCover target db.workCover))
    workTag := db.workTag.insertAllOrIgnore
      (((copiesTo source target db.workTag).filter fun r =>
        r.source = .admin).map fun r =>
          { r with ord := r.ord + nextOrd target db.workTag })
    chapterOverride := db.chapterOverride.insertAllOrIgnore
      (copiesTo source target db.chapterOverride) }

/-- A MangaDex rating that outranks a source-level NSFW flag. -/
def ratedSafe (w : Work) : Bool :=
  w.contentRating = some "safe" || w.contentRating = some "suggestive"

/-- The columns the target's row takes over from `s`. -/
def absorb (s w : Work) : Work :=
  { w with
    coverPhash := w.coverPhash.or s.coverPhash
    coverFileName := w.coverFileName.or s.coverFileName
    isNsfw := w.isNsfw || (s.isNsfw && !ratedSafe w)
    isNsfwOverride :=
      if w.isNsfwOverride = none && s.isNsfwOverride = some true then some true
      else w.isNsfwOverride }

theorem absorb_keepsKeys (s : Work) : Table.KeepsKeys (absorb s) :=
  fun _ _ => rfl

/-- `UPDATE work SET cover_phash = …, is_nsfw_override = … WHERE id = ?`. -/
def foldWorkRow (source target : Id) (db : Db) : Db :=
  { db with
    work := match db.work? source with
      | none => db.work
      | some s => db.work.update (fun w => w.id = target) (absorb s)
          (absorb_keepsKeys s) }

/-! ## Repointing mappings and user data

Rows that name the source name the target afterwards; where the target has such a row
already, that one wins, and counters are added up. -/

/-- `UPDATE OR IGNORE source_series …`, then the leftover rows are deleted. -/
def repointSources (source target : Id) (db : Db) : Db :=
  let db := { db with sourceSeries := repoint source target db.sourceSeries }
  db.deleteSourceSeries (onWork source)

/-- `SET work_id = ?` on `canonical_progress`. -/
theorem moveProgress_keepsKeys (w : Id) :
    Table.KeepsKeys (move w : CanonicalProgress → CanonicalProgress) :=
  fun _ _ => rfl

/-- The work is in no key of a user's activity. -/
theorem moveActivity_keepsKeys (w : Id) :
    Table.KeepsKeys (move w : UserActivity → UserActivity) := fun _ _ => rfl

theorem moveNotification_keepsKeys (w : Id) :
    Table.KeepsKeys (move w : Notification → Notification) := fun _ _ => rfl

/-- The tables that key a user's rows by work. -/
def repointUserData (source target : Id) (db : Db) : Db :=
  { db with
    mergeCandidate := repoint source target db.mergeCandidate
    userLibrary := deleteOn source (repoint source target db.userLibrary)
    reviews := deleteOn source (repoint source target db.reviews)
    canonicalLibrary :=
      deleteOn source (repoint source target db.canonicalLibrary)
    canonicalProgress := db.canonicalProgress.update (onWork source)
      (move target) (moveProgress_keepsKeys target)
    comments := repoint source target db.comments
    userActivity := db.userActivity.update (onWork source) (move target)
      (moveActivity_keepsKeys target)
    notifications := db.notifications.update (onWork source) (move target)
      (moveNotification_keepsKeys target) }

/-- `total = series_views.total + excluded.total`, and the later time. -/
def addViews (old new : SeriesViews) : SeriesViews :=
  { old with
    total := old.total + new.total
    updatedAt := if old.updatedAt < new.updatedAt then new.updatedAt
      else old.updatedAt }

/-- Adding up a counter keeps its work. -/
theorem addViews_keepsKeys (new : SeriesViews) :
    Table.KeepsKeys (addViews · new) := fun _ _ => rfl

/-- `views = series_view_bucket.views + excluded.views`. -/
def addBucket (old new : SeriesViewBucket) : SeriesViewBucket :=
  { old with views := old.views + new.views }

theorem addBucket_keepsKeys (new : SeriesViewBucket) :
    Table.KeepsKeys (addBucket · new) := fun _ _ => rfl

/-- The view counters are summed into the target's. -/
def foldViews (source target : Id) (db : Db) : Db :=
  { db with
    seriesViews := deleteOn source (db.seriesViews.upsertAll
      (copiesTo source target db.seriesViews) addViews addViews_keepsKeys)
    seriesViewBucket := deleteOn source (db.seriesViewBucket.upsertAll
      (copiesTo source target db.seriesViewBucket) addBucket
        addBucket_keepsKeys) }

/-! ## Cleaning up

What is left of the source is deleted, and its id forwarded. -/

/-- The source's remaining child rows, and the candidates that have become
self-referential: pending ones only. -/
def cleanUp (source target : Id) (db : Db) : Db :=
  let db := deleteChildRows (fun id => id = source) db
  let db := { db with mergeCandidate := deleteOn source db.mergeCandidate }
  { db with
    mergeCandidate := db.mergeCandidate.deleteWhere fun m =>
      m.candidateWorkId = target && m.status = .pending &&
        db.sourceSeries.rows.any fun s =>
          s.workId = target && s.id = m.sourceSeriesId }

/-- `SET new_id = ?` on `work_redirect`. -/
def forwardTo (target : Id) (r : WorkRedirect) : WorkRedirect :=
  { r with newId := target }

/-- A redirect keeps the id that it is for. -/
theorem forwardTo_keepsKeys (target : Id) : Table.KeepsKeys (forwardTo target) :=
  fun _ _ => rfl

/-- The collapse of chains would break the table's `CHECK`. -/
def loops (source target : Id) (db : Db) : Bool :=
  db.workRedirect.rows.any fun r => r.newId = source && r.oldId = target

/-- Collapse the chains that end in `source`, then record `source → target`. -/
def forwardRedirects (source target : Id) (db : Db) : Db :=
  { db with
    workRedirect := (db.workRedirect.update (fun r => r.newId = source)
      (forwardTo target) (forwardTo_keepsKeys target)).insertOrReplace
        ⟨source, target⟩ }

/-- All the writes of the transaction, in order. -/
def merged (rules : TextRules) (source target : Id) (db : Db) : Db :=
  let db := foldAliases rules source target db
  let db := foldExternalIds source target db
  let db := foldMetadata source target db
  let db := foldWorkRow source target db
  let db := repointSources source target db
  let db := repointUserData source target db
  let db := foldViews source target db
  let db := cleanUp source target db
  let db := forwardRedirects source target db
  let db := mergeReleaseEvents source target db
  db.deleteWorks fun id => id = source

/-- The first work that is not as the caller's gate saw it. -/
def changedUnderGate (source target : Id)
    (expected : Option (WorkIdentity × WorkIdentity)) (db : Db) : Option Id :=
  match expected with
  | none => none
  | some (expSrc, expTgt) =>
      if (db.work? source).map identity ≠ some expSrc then some source
      else if (db.work? target).map identity ≠ some expTgt then some target
      else none

/-- `merge_works_checked`: the guards first, then all statements or none; the outcome is
how many mappings moved. -/
def mergeWorksChecked (rules : TextRules) (source target : Id)
    (expected : Option (WorkIdentity × WorkIdentity)) (db : Db) :
    Except CatalogError (MergeOutcome × Db) :=
  if source = target then .error .mergeIntoItself
  else if !db.hasWork source then .error (.noSuchWork source)
  else if !db.hasWork target then .error (.noSuchWork target)
  else match changedUnderGate source target expected db with
    | some id => .error (.preconditionFailed id)
    | none =>
        if loops source target db then .error .checkConstraint
        else
          .ok (⟨db.sourceSeries.rows.countP fun r =>
              db.sourceSeries.movable (onWork source) (move target) r⟩,
            merged rules source target db)

/-- `redirect_work_id`: one lookup, with no second hop. -/
def redirectWorkId (db : Db) (oldId : Id) : Option Id :=
  (db.workRedirect.rows.find? fun r => r.oldId = oldId).map WorkRedirect.newId

/-- A merge that succeeds passed every check and ran every statement. -/
theorem merge_ok {rules : TextRules} {source target : Id}
    {expected : Option (WorkIdentity × WorkIdentity)} {db db' : Db}
    {outcome : MergeOutcome}
    (h : mergeWorksChecked rules source target expected db = .ok (outcome, db')) :
    source ≠ target ∧ db.hasWork source = true ∧ db.hasWork target = true ∧
      loops source target db = false ∧ db' = merged rules source target db := by
  unfold mergeWorksChecked at h
  split at h
  · contradiction
  · next hne =>
      split at h
      · contradiction
      · next hsource =>
          split at h
          · contradiction
          · next htarget =>
              split at h
              · contradiction
              · split at h
                · contradiction
                · next hloop =>
                    cases h
                    exact ⟨hne, by simpa using hsource, by simpa using htarget,
                      by simpa using hloop, rfl⟩

/-- A merge succeeds if every check passes. -/
theorem mergeWorksChecked_isOk_iff {rules : TextRules} {source target : Id}
    {expected : Option (WorkIdentity × WorkIdentity)} {db : Db} :
    (mergeWorksChecked rules source target expected db).isOk = true ↔
      source ≠ target ∧ db.hasWork source = true ∧ db.hasWork target = true ∧
        changedUnderGate source target expected db = none ∧
        loops source target db = false := by
  unfold mergeWorksChecked
  by_cases hne : source = target
  · simp [hne, Except.isOk, Except.toBool]
  · cases hsource : db.hasWork source <;> cases htarget : db.hasWork target <;>
      cases hgate : changedUnderGate source target expected db <;>
      cases hloop : loops source target db <;>
      simp [hne, Except.isOk, Except.toBool]

end Komika.Catalog.Merge
