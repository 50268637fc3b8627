import Komika.Lib.Table

/-!
# The catalogue's tables

The rows and unique keys of the main database (`apps/server/migrations`), for
the tables that the catalogue's writers touch.  Columns that none of them
reads or copies are left out, and with them the surrogate ids of rows that
nothing refers to.

Every row that hangs off a work has a work column (`OnWork`): for some it is
part of a unique key, for others it is not, and the polymorphic tables have
one only on the rows whose `target_type` is `'series'`.

Besides the rows there is one thing here: the class `OnWork`, which says of each table
where its work is written, so that the statements of a merge (`repoint`, `copiesTo`,
`deleteOn`) are written once for all of them.
-/

namespace Komika.Catalog.Schema

open Komika.Lib

/-- Ids are uuids, as text. -/
abbrev Id := String

/-! ## Rows

One structure for each table, in the order in which a merge goes through them. -/

/-- `work`: a title of the catalogue, whatever its sources are. -/
structure Work where
  id : Id
  primaryTitle : Option String
  primaryLang : Option String
  description : Option String
  year : Option Int
  originalLanguage : Option String
  status : Option String
  demographic : Option String
  contentRating : Option String
  isNsfw : Bool
  author : Option String
  artist : Option String
  coverPhash : Option String
  coverFileName : Option String
  titleOverride : Option String
  isNsfwOverride : Option Bool
deriving DecidableEq, Repr

/-- `COALESCE(is_nsfw_override, is_nsfw)`: what an admin has set goes before what
the metadata says. -/
def Work.effectiveNsfw (w : Work) : Bool := w.isNsfwOverride.getD w.isNsfw

/-- `work_alias`: a title that the work is known by, with its normal form. -/
structure WorkAlias where
  workId : Id
  normalizedTitle : String
  rawTitle : String
  lang : Option String
deriving DecidableEq, Repr

/-- `work_alias_token`: a word of such a normal form. -/
structure WorkAliasToken where
  workId : Id
  token : String
deriving DecidableEq, Repr

/-- `work_external_id`: an id of the work at some provider. -/
structure WorkExternalId where
  workId : Id
  provider : String
  externalId : String
deriving DecidableEq, Repr

/-- `work_description`: a description in one language. -/
structure WorkDescription where
  workId : Id
  lang : String
  description : String
deriving DecidableEq, Repr

/-- `work_credit`: a person and a role. -/
structure WorkCredit where
  workId : Id
  role : String
  name : String
deriving DecidableEq, Repr

/-- `work_cover`: a cover file, and whether it is the primary one. -/
structure WorkCover where
  workId : Id
  coverFileName : String
  lang : Option String
  volume : Option String
  isPrimary : Bool
deriving DecidableEq, Repr

/-- `work_cover_issue`: why a work has no usable cover. -/
structure WorkCoverIssue where
  workId : Id
  reason : String
deriving DecidableEq, Repr

/-- Who has set a tag. -/
inductive TagSource where
  | mangadex
  | admin
deriving DecidableEq, Repr

/-- `work_tag`: a tag of the work, in the order of its source. -/
structure WorkTag where
  workId : Id
  tag : String
  ord : Int
  source : TagSource
deriving DecidableEq, Repr

/-- `chapter_override`: what an admin has set on a chapter of the work. -/
structure ChapterOverride where
  workId : Id
  chapterKey : String
  hidden : Bool
  titleOverride : Option String
  updatedAt : String
deriving DecidableEq, Repr

/-- `source_series`: a mapping, which says that a series of a source is this work. -/
structure SourceSeries where
  id : Id
  workId : Id
  sourceType : String
  sourceId : String
  sourceKey : String
  sourceUrl : Option String
  isNsfw : Bool
  lastSeen : Option String
deriving DecidableEq, Repr

/-- `chapter`: a chapter of a mapping, with the key and the label computed for it. -/
structure Chapter where
  id : Id
  sourceSeriesId : Id
  externalId : String
  number : Option String
  volume : Option String
  lang : Option String
  title : Option String
  publishedAt : Option String
  readableAt : Option String
  externalUrl : Option String
  scanlator : Option String
  chapterKey : Option String
  label : Option String
deriving DecidableEq, Repr

/-- The status of a row of the review queue. -/
inductive CandidateStatus where
  | pending
  | confirmed
  | rejected
deriving DecidableEq, Repr

/-- `merge_candidate`: a proposal to fold the work of a mapping into another work. -/
structure MergeCandidate where
  id : Id
  sourceSeriesId : Id
  candidateWorkId : Id
  status : CandidateStatus
deriving DecidableEq, Repr

/-- `user_library`: a reader's library. -/
structure UserLibrary where
  userId : Id
  seriesId : Id
  createdAt : String
  status : Option String
  isFavorite : Bool
deriving DecidableEq, Repr

/-- `reviews`: a reader's review of a series. -/
structure Review where
  id : Id
  seriesId : Id
  userId : Id
  score : Int
  body : String
  hasSpoiler : Bool
deriving DecidableEq, Repr

/-- `canonical_library`: a reader's library, by work. -/
structure CanonicalLibrary where
  userId : Id
  workId : Id
  createdAt : String
deriving DecidableEq, Repr

/-- `canonical_progress`: a reader's place in a chapter, by work. -/
structure CanonicalProgress where
  userId : Id
  chapterId : Id
  workId : Id
  lastPageRead : Int
  read : Bool
  updatedAt : String
deriving DecidableEq, Repr

/-- What a comment, an activity or a notification is about. -/
inductive TargetType where
  | chapter
  | series
deriving DecidableEq, Repr

/-- `comments`: a comment on a chapter or on a series. -/
structure Comment where
  id : Id
  targetType : TargetType
  targetId : Id
  userId : Id
  body : String
  hasSpoiler : Bool
  parentId : Option Id
deriving DecidableEq, Repr

/-- `user_activity`: something a reader did. -/
structure UserActivity where
  id : Id
  userId : Id
  kind : String
  targetType : Option TargetType
  targetId : Option Id
deriving DecidableEq, Repr

/-- `notifications`: something a reader is told. -/
structure Notification where
  id : Id
  userId : Id
  kind : String
  commentId : Option Id
  targetType : Option TargetType
  targetId : Option Id
  count : Option Int
deriving DecidableEq, Repr

/-- `series_views`: how often a series was viewed. -/
structure SeriesViews where
  seriesKey : Id
  total : Int
  updatedAt : String
deriving DecidableEq, Repr

/-- `series_view_bucket`: the same by the hour. -/
structure SeriesViewBucket where
  seriesKey : Id
  hourTs : Int
  views : Int
deriving DecidableEq, Repr

/-- The table has `CHECK (old_id <> new_id)`; see `Merge.forwardRedirects`. -/
structure WorkRedirect where
  oldId : Id
  newId : Id
deriving DecidableEq, Repr

/-- `work_split`: two works that were split apart. -/
structure WorkSplit where
  workA : Id
  workB : Id
  splitBy : Option Id
deriving DecidableEq, Repr

/-- `release_event`: when a chapter of a work was first seen, and where. -/
structure ReleaseEvent where
  workId : Id
  chapterKey : String
  firstSeenAt : Int
  firstSourceSeriesId : Option Id
  label : String
deriving DecidableEq, Repr

/-- `suwayomi_series`: a series as the engine has it. -/
structure SuwayomiSeries where
  id : Int
  title : String
  author : Option String
  artist : Option String
  description : Option String
  status : String
  lang : Option String
deriving DecidableEq, Repr

/-! ## Unique keys

Primary keys, unique constraints and unique indices, compound ones included. -/

instance : Keyed Work := .ofKey Work.id

/-- `UNIQUE (work_id, normalized_title, lang)`, where NULLs are distinct, and
the partial index over `(work_id, normalized_title, raw_title)` where `lang`
is NULL. -/
instance : Keyed WorkAlias where
  clash a b :=
    decide (a.workId = b.workId ∧ a.normalizedTitle = b.normalizedTitle ∧
      a.lang = b.lang ∧ (a.lang = none → a.rawTitle = b.rawTitle))
  clash_symm a b := by
    rw [Bool.eq_iff_iff]
    simp only [decide_eq_true_eq]
    grind

instance : Keyed WorkAliasToken := .ofKey fun r => (r.workId, r.token)
instance : Keyed WorkExternalId := .ofKey fun r => (r.provider, r.externalId)
instance : Keyed WorkDescription := .ofKey fun r => (r.workId, r.lang)
instance : Keyed WorkCredit := .ofKey fun r => (r.workId, r.role, r.name)
instance : Keyed WorkCover := .ofKey fun r => (r.workId, r.coverFileName)
instance : Keyed WorkCoverIssue := .ofKey WorkCoverIssue.workId
instance : Keyed WorkTag := .ofKey fun r => (r.workId, r.tag)
instance : Keyed ChapterOverride := .ofKey fun r => (r.workId, r.chapterKey)

/-- `(source_type, source_id, source_key)` of a mapping. -/
def SourceSeries.key (r : SourceSeries) : String × String × String :=
  (r.sourceType, r.sourceId, r.sourceKey)

instance : Keyed SourceSeries where
  clash a b := decide (a.id = b.id ∨ a.key = b.key)
  clash_symm a b := by simp [eq_comm]

instance : Keyed Chapter where
  clash a b := decide (a.id = b.id ∨
    (a.sourceSeriesId = b.sourceSeriesId ∧ a.externalId = b.externalId))
  clash_symm a b := by simp [eq_comm]

instance : Keyed MergeCandidate := .ofKey MergeCandidate.id
instance : Keyed UserLibrary := .ofKey fun r => (r.userId, r.seriesId)

instance : Keyed Review where
  clash a b := decide (a.id = b.id ∨
    (a.seriesId = b.seriesId ∧ a.userId = b.userId))
  clash_symm a b := by simp [eq_comm]

instance : Keyed CanonicalLibrary := .ofKey fun r => (r.userId, r.workId)
instance : Keyed CanonicalProgress := .ofKey fun r => (r.userId, r.chapterId)
instance : Keyed Comment := .ofKey Comment.id
instance : Keyed UserActivity := .ofKey UserActivity.id

/-- The primary key, and the partial index over `(comment_id, count)` where
`kind = 'like_milestone'`. -/
instance : Keyed Notification where
  clash a b := decide (a.id = b.id ∨
    (a.kind = "like_milestone" ∧ b.kind = "like_milestone" ∧
      a.commentId.isSome ∧ a.count.isSome ∧
      a.commentId = b.commentId ∧ a.count = b.count))
  clash_symm a b := by
    rw [Bool.eq_iff_iff]
    simp only [decide_eq_true_eq]
    grind

instance : Keyed SeriesViews := .ofKey SeriesViews.seriesKey
instance : Keyed SeriesViewBucket := .ofKey fun r => (r.seriesKey, r.hourTs)
instance : Keyed WorkRedirect := .ofKey WorkRedirect.oldId
instance : Keyed WorkSplit := .ofKey fun r => (r.workA, r.workB)
instance : Keyed ReleaseEvent := .ofKey fun r => (r.workId, r.chapterKey)
instance : Keyed SuwayomiSeries := .ofKey SuwayomiSeries.id

/-! ## The work column

Where a row names its work, for the tables in which every row does and for those in
which it depends on the kind of target. -/

/-- The column of a table that holds a work id: `on? r` is the work the row
hangs off, `move w r` the row with `w` in that column. -/
class OnWork (ρ : Type) where
  on? : ρ → Option Id
  move : Id → ρ → ρ
  on?_move : ∀ w r, on? r ≠ none → on? (move w r) = some w

export OnWork (on? move on?_move)

/-- A column every row fills. -/
@[reducible] def OnWork.ofColumn {ρ : Type} (get : ρ → Id) (set : Id → ρ → ρ)
    (h : ∀ w r, get (set w r) = w) : OnWork ρ where
  on? r := some (get r)
  move := set
  on?_move w r _ := by rw [h]

instance : OnWork WorkAlias :=
  .ofColumn WorkAlias.workId (fun w r => { r with workId := w }) fun _ _ => rfl
instance : OnWork WorkAliasToken :=
  .ofColumn WorkAliasToken.workId (fun w r => { r with workId := w })
    fun _ _ => rfl
instance : OnWork WorkExternalId :=
  .ofColumn WorkExternalId.workId (fun w r => { r with workId := w })
    fun _ _ => rfl
instance : OnWork WorkDescription :=
  .ofColumn WorkDescription.workId (fun w r => { r with workId := w })
    fun _ _ => rfl
instance : OnWork WorkCredit :=
  .ofColumn WorkCredit.workId (fun w r => { r with workId := w }) fun _ _ => rfl
instance : OnWork WorkCover :=
  .ofColumn WorkCover.workId (fun w r => { r with workId := w }) fun _ _ => rfl
instance : OnWork WorkCoverIssue :=
  .ofColumn WorkCoverIssue.workId (fun w r => { r with workId := w })
    fun _ _ => rfl
instance : OnWork WorkTag :=
  .ofColumn WorkTag.workId (fun w r => { r with workId := w }) fun _ _ => rfl
instance : OnWork ChapterOverride :=
  .ofColumn ChapterOverride.workId (fun w r => { r with workId := w })
    fun _ _ => rfl
instance : OnWork SourceSeries :=
  .ofColumn SourceSeries.workId (fun w r => { r with workId := w })
    fun _ _ => rfl
instance : OnWork MergeCandidate :=
  .ofColumn MergeCandidate.candidateWorkId
    (fun w r => { r with candidateWorkId := w }) fun _ _ => rfl
instance : OnWork UserLibrary :=
  .ofColumn UserLibrary.seriesId (fun w r => { r with seriesId := w })
    fun _ _ => rfl
instance : OnWork Review :=
  .ofColumn Review.seriesId (fun w r => { r with seriesId := w }) fun _ _ => rfl
instance : OnWork CanonicalLibrary :=
  .ofColumn CanonicalLibrary.workId (fun w r => { r with workId := w })
    fun _ _ => rfl
instance : OnWork CanonicalProgress :=
  .ofColumn CanonicalProgress.workId (fun w r => { r with workId := w })
    fun _ _ => rfl
instance : OnWork SeriesViews :=
  .ofColumn SeriesViews.seriesKey (fun w r => { r with seriesKey := w })
    fun _ _ => rfl
instance : OnWork SeriesViewBucket :=
  .ofColumn SeriesViewBucket.seriesKey (fun w r => { r with seriesKey := w })
    fun _ _ => rfl
instance : OnWork ReleaseEvent :=
  .ofColumn ReleaseEvent.workId (fun w r => { r with workId := w })
    fun _ _ => rfl

/-- `comments`, `user_activity` and `notifications` hang off a work only where
`target_type = 'series'`. -/
instance : OnWork Comment where
  on? r := if r.targetType = .series then some r.targetId else none
  move w r := { r with targetId := w }
  on?_move w r h := by simp_all

instance : OnWork UserActivity where
  on? r := if r.targetType = some .series then r.targetId else none
  move w r := { r with targetId := some w }
  on?_move w r h := by simp_all

instance : OnWork Notification where
  on? r := if r.targetType = some .series then r.targetId else none
  move w r := { r with targetId := some w }
  on?_move w r h := by simp_all

/-! ## Statements on the work column

The statements that a merge runs on one table after another. -/

section Statements

variable {ρ : Type} [OnWork ρ]

/-- `WHERE work_id = w`. -/
def onWork (w : Id) (r : ρ) : Bool := on? r = some w

theorem onWork_iff {w : Id} {r : ρ} : onWork w r = true ↔ on? r = some w := by
  simp [onWork]

/-- A row on one work is not on another. -/
theorem onWork_ne {v w : Id} {r : ρ} (h : onWork v r = true) (hne : v ≠ w) :
    onWork w r = false := by
  rw [onWork_iff] at h
  simp [onWork, h, hne]

/-- A row that is moved is on the work that it was moved to. -/
theorem onWork_move {w : Id} {r : ρ} {v : Id} (h : onWork v r = true) :
    on? (move w r) = some w :=
  on?_move w r (by rw [onWork_iff.mp h]; exact Option.some_ne_none v)

/-- The same, as the condition of a statement. -/
theorem onWork_moved {v w : Id} {r : ρ} (h : onWork v r = true) :
    onWork w (move w r) = true :=
  onWork_iff.mpr (onWork_move h)

variable [Keyed ρ]

/-- `UPDATE OR IGNORE … SET work_id = target WHERE work_id = source`. -/
def repoint (source target : Id) (t : Table ρ) : Table ρ :=
  t.updateOrIgnore (onWork source) (move target)

/-- `DELETE … WHERE work_id = w`. -/
def deleteOn (w : Id) (t : Table ρ) : Table ρ :=
  t.deleteWhere (onWork w)

/-- The rows on `w`, moved to `target`: what `INSERT … SELECT ?, …` selects. -/
def copiesTo (w target : Id) (t : Table ρ) : List ρ :=
  (t.rows.filter (onWork w)).map (move target)

/-- The copies are of the rows on `w`. -/
theorem mem_copiesTo {w target : Id} {t : Table ρ} {r : ρ} :
    r ∈ copiesTo w target t ↔
      ∃ old ∈ t, on? old = some w ∧ r = move target old := by
  simp only [copiesTo, List.mem_map, List.mem_filter, onWork_iff,
    Table.mem_rows, and_assoc]
  exact exists_congr fun _ => and_congr_right fun _ =>
    and_congr_right fun _ => eq_comm

end Statements

end Komika.Catalog.Schema
