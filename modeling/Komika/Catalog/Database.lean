import Komika.Catalog.Schema

/-!
# The database and its cascades

The state the catalogue's writers share, the errors they fail with, and what
deleting a `work` or a `source_series` row takes with it: the connection runs
with `foreign_keys` on, and every child table is declared `ON DELETE CASCADE`.

A transaction either commits its last state or leaves the state as it was
(`Db.commit`).

The writers are functions from one `Db` to a result and another; what a failed one did
is lost, and `commit_cases` is the rule by which a property of every state is proved
from the successful ones.  Deleting a work is one definition for all the tables that
hang off it.
-/

namespace Komika.Catalog.Database

open Komika.Lib
open Komika.Catalog.Schema

/-- The tables of the catalogue. -/
structure Db where
  work : Table Work
  workAlias : Table WorkAlias
  workAliasToken : Table WorkAliasToken
  workExternalId : Table WorkExternalId
  workDescription : Table WorkDescription
  workCredit : Table WorkCredit
  workCover : Table WorkCover
  workCoverIssue : Table WorkCoverIssue
  workTag : Table WorkTag
  chapterOverride : Table ChapterOverride
  sourceSeries : Table SourceSeries
  chapter : Table Chapter
  mergeCandidate : Table MergeCandidate
  userLibrary : Table UserLibrary
  reviews : Table Review
  canonicalLibrary : Table CanonicalLibrary
  canonicalProgress : Table CanonicalProgress
  comments : Table Comment
  userActivity : Table UserActivity
  notifications : Table Notification
  seriesViews : Table SeriesViews
  seriesViewBucket : Table SeriesViewBucket
  workRedirect : Table WorkRedirect
  workSplit : Table WorkSplit
  releaseEvent : Table ReleaseEvent
  suwayomiSeries : Table SuwayomiSeries

/-- The empty catalogue: every table without rows. -/
def Db.empty : Db :=
  { work := .empty, workAlias := .empty, workAliasToken := .empty
    workExternalId := .empty, workDescription := .empty, workCredit := .empty
    workCover := .empty, workCoverIssue := .empty, workTag := .empty
    chapterOverride := .empty, sourceSeries := .empty, chapter := .empty
    mergeCandidate := .empty, userLibrary := .empty, reviews := .empty
    canonicalLibrary := .empty, canonicalProgress := .empty, comments := .empty
    userActivity := .empty, notifications := .empty, seriesViews := .empty
    seriesViewBucket := .empty, workRedirect := .empty, workSplit := .empty
    releaseEvent := .empty, suwayomiSeries := .empty }

/-- How a writer fails. -/
inductive CatalogError where
  | mergeIntoItself
  | noSuchWork (id : Id)
  | preconditionFailed (id : Id)
  | nothingToDetach
  | noSources (workId : Id)
  | notASource (missing : List Id)
  | lastSource
  | untitled
  | sourcesChanged
  | checkConstraint
  | foreignKeyConstraint
  | uniqueConstraint
deriving DecidableEq, Repr

/-- What the database holds after a transaction: its last state if it
committed, the state it started from if it rolled back. -/
def Db.commit {α : Type} (db : Db) : Except CatalogError (α × Db) → Db
  | .ok (_, db') => db'
  | .error _ => db

/-- A transaction that commits leaves its last state. -/
@[simp] theorem commit_ok {α : Type} (db : Db) (a : α) (db' : Db) :
    db.commit (.ok (a, db')) = db' := rfl

/-- What holds of the state before and of the state a commit leaves. -/
theorem commit_cases {α : Type} {P : Db → Prop} {db : Db}
    {result : Except CatalogError (α × Db)} (hrollback : P db)
    (hcommit : ∀ a db', result = .ok (a, db') → P db') :
    P (db.commit result) := by
  cases result with
  | ok r => exact hcommit r.1 r.2 rfl
  | error e => exact hrollback

/-- A transaction keeps what its committed states keep. -/
theorem commit_congr {α β : Type} (f : Db → β) {db : Db}
    {result : Except CatalogError (α × Db)}
    (h : ∀ a db', result = .ok (a, db') → f db' = f db) :
    f (db.commit result) = f db :=
  commit_cases (P := fun d => f d = f db) rfl h

/-- `SELECT … FROM work WHERE id = ?`. -/
def Db.work? (db : Db) (id : Id) : Option Work :=
  db.work.rows.find? fun w => w.id = id

/-- `id` is a live work. -/
def Db.hasWork (db : Db) (id : Id) : Bool :=
  db.work.rows.any fun w => w.id = id

/-- A work is live if it has a row. -/
theorem hasWork_iff {db : Db} {id : Id} :
    db.hasWork id = true ↔ ∃ w ∈ db.work, w.id = id := by
  simp [Db.hasWork, Table.mem_rows]

theorem hasWork_iff_work? {db : Db} {id : Id} :
    db.hasWork id = true ↔ (db.work? id).isSome = true := by
  simp [Db.hasWork, Db.work?]

/-- An update of `work` keeps the ids. -/
theorem hasWork_update {db : Db} {p : Work → Bool} {f : Work → Work}
    {h : Table.KeepsKeys f} {id : Id} :
    { db with work := db.work.update p f h }.hasWork id = db.hasWork id := by
  have hid : ∀ w : Work, (if p w then f w else w).id = w.id := by
    intro w
    split
    · have hclash : clash (f w) w = clash w w := h w w
      simpa [clash] using hclash
    · rfl
  rw [Bool.eq_iff_iff, hasWork_iff, hasWork_iff]
  constructor
  · rintro ⟨x, hx, rfl⟩
    obtain ⟨w, hw, rfl⟩ := (Table.mem_update (h := h)).mp hx
    exact ⟨w, hw, (hid w).symm⟩
  · rintro ⟨w, hw, rfl⟩
    exact ⟨_, (Table.mem_update (h := h)).mpr ⟨w, hw, rfl⟩, hid w⟩

/-- `DELETE FROM source_series WHERE p`, with its cascade to `chapter` and
`merge_candidate`. -/
def Db.deleteSourceSeries (db : Db) (p : SourceSeries → Bool) : Db :=
  let gone (id : Id) : Bool := db.sourceSeries.rows.any fun r => p r && r.id = id
  { db with
    sourceSeries := db.sourceSeries.deleteWhere p
    chapter := db.chapter.deleteWhere fun c => gone c.sourceSeriesId
    mergeCandidate :=
      db.mergeCandidate.deleteWhere fun m => gone m.sourceSeriesId }

/-- `DELETE FROM work WHERE id IN p`, with its cascades. -/
def Db.deleteWorks (db : Db) (p : Id → Bool) : Db :=
  let db := db.deleteSourceSeries fun r => p r.workId
  { db with
    work := db.work.deleteWhere fun r => p r.id
    workAlias := db.workAlias.deleteWhere fun r => p r.workId
    workAliasToken := db.workAliasToken.deleteWhere fun r => p r.workId
    workExternalId := db.workExternalId.deleteWhere fun r => p r.workId
    workDescription := db.workDescription.deleteWhere fun r => p r.workId
    workCredit := db.workCredit.deleteWhere fun r => p r.workId
    workCover := db.workCover.deleteWhere fun r => p r.workId
    workCoverIssue := db.workCoverIssue.deleteWhere fun r => p r.workId
    workTag := db.workTag.deleteWhere fun r => p r.workId
    chapterOverride := db.chapterOverride.deleteWhere fun r => p r.workId
    mergeCandidate :=
      db.mergeCandidate.deleteWhere fun r => p r.candidateWorkId
    releaseEvent := db.releaseEvent.deleteWhere fun r => p r.workId }

/-- The works that are left are those that were not deleted. -/
theorem hasWork_deleteWorks {db : Db} {p : Id → Bool} {id : Id} :
    (db.deleteWorks p).hasWork id = true ↔ db.hasWork id = true ∧ p id = false := by
  simp only [hasWork_iff, Db.deleteWorks, Db.deleteSourceSeries,
    Table.mem_deleteWhere]
  constructor
  · rintro ⟨w, ⟨hw, hp⟩, rfl⟩
    exact ⟨⟨w, hw, rfl⟩, hp⟩
  · rintro ⟨⟨w, hw, rfl⟩, hp⟩
    exact ⟨w, ⟨hw, hp⟩, rfl⟩

end Komika.Catalog.Database
