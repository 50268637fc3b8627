import Komika.Catalog.Ingest

/-!
# The chapter spine and the release ledger

The writers of `chapter` rows (`catalog/mod.rs`), the writers of
`release_event` rows (`catalog/ledger.rs`), and the move of a mapping with its
events that `phase_f::split_mismatched` makes.

Five statements write the ledger and each has its own conflict rule: the seed
and the incremental record insert or ignore, a merge keeps the earliest, and
the two moves insert or ignore and then delete.

A chapter's key and release time are computed by `seedable`, which every writer of the
ledger shares: what is seeded, recorded or counted as pending is the same set of
announcements.  The move of a mapping is modelled with its report, the row that
`phase_f::classify` has read before.

* `writeChapter_ok`, `mem_of_writeChapter` — one write of the spine;
* `replaceSourceChapters_ok` — a whole list;
* `splitMismatchedRow_ok` — the move of a mapping.
-/

namespace Komika.Catalog.Ledger

open Komika.Lib
open Komika.Catalog.Schema Komika.Catalog.Database

/-- What a source says of a chapter. -/
structure ChapterInput where
  externalId : String
  number : Option String
  volume : Option String
  lang : Option String
  title : Option String
  publishedAt : Option String
  readableAt : Option String
  externalUrl : Option String
  scanlator : Option String
deriving DecidableEq, Repr

/-- The pure functions the spine and the ledger call. -/
structure SpineRules where
  /-- `spine_key_and_label`. -/
  spineKeyAndLabel : ChapterInput → String × String
  /-- `strftime('%s', ?)`, `none` on a text it cannot parse. -/
  strftimeSeconds : String → Option Int

/-! ## Chapters

The upsert by which every source writes its chapters. -/

/-- The values `CHAPTER_UPSERT_SQL` binds. -/
def chapterRow (rules : SpineRules) (newId sourceSeriesId : Id)
    (ch : ChapterInput) : Chapter :=
  let (chapterKey, label) := rules.spineKeyAndLabel ch
  { id := newId
    sourceSeriesId := sourceSeriesId
    externalId := ch.externalId
    number := ch.number
    volume := ch.volume
    lang := ch.lang
    title := ch.title
    publishedAt := ch.publishedAt
    readableAt := ch.readableAt
    externalUrl := ch.externalUrl
    scanlator := ch.scanlator
    chapterKey := some chapterKey
    label := some label }

@[simp] theorem chapterRow_externalId (rules : SpineRules) (newId ssid : Id)
    (ch : ChapterInput) :
    (chapterRow rules newId ssid ch).externalId = ch.externalId := rfl

@[simp] theorem chapterRow_sourceSeriesId (rules : SpineRules) (newId ssid : Id)
    (ch : ChapterInput) :
    (chapterRow rules newId ssid ch).sourceSeriesId = ssid := rfl

/-- Its `DO UPDATE SET`. -/
def refreshChapter (new old : Chapter) : Chapter :=
  { new with
    id := old.id
    sourceSeriesId := old.sourceSeriesId
    externalId := old.externalId }

/-- A refresh keeps the mapping and the upstream id. -/
theorem refreshChapter_keepsKeys (new : Chapter) :
    Table.KeepsKeys (refreshChapter new) := fun _ _ => rfl

/-- `CHAPTER_UPSERT_SQL`: a row with the key is refreshed, a new one needs its
mapping. -/
def writeChapter (row : Chapter) (db : Db) : Except CatalogError Db :=
  let same (c : Chapter) : Bool :=
    c.sourceSeriesId = row.sourceSeriesId && c.externalId = row.externalId
  if db.chapter.rows.any same then
    .ok { db with
      chapter := db.chapter.update same (refreshChapter row)
        (refreshChapter_keepsKeys row) }
  else if db.sourceSeries.rows.any fun s => s.id = row.sourceSeriesId then
    match db.chapter.insert row with
    | some chapter => .ok { db with chapter := chapter }
    | none => .error .uniqueConstraint
  else .error .foreignKeyConstraint

/-- `upsert_chapter`: a chapter without an id is passed over in silence. -/
def upsertChapter (rules : SpineRules) (newId sourceSeriesId : Id)
    (ch : ChapterInput) (db : Db) : Except CatalogError (Unit × Db) :=
  if ch.externalId = "" then .ok ((), db)
  else match writeChapter (chapterRow rules newId sourceSeriesId ch) db with
    | .ok db => .ok ((), db)
    | .error e => .error e

/-- The loop of upserts in `replace_source_chapters`. -/
def writeChapters (rows : List Chapter) (db : Db) : Except CatalogError Db :=
  rows.foldlM (fun db row => writeChapter row db) db

/-- `replace_source_chapters`; each chapter comes with the id minted for it. -/
def replaceSourceChapters (rules : SpineRules) (sourceSeriesId : Id)
    (chapters : List (Id × ChapterInput)) (db : Db) :
    Except CatalogError (Unit × Db) :=
  let incoming := (chapters.map fun c => c.2.externalId).filter (· ≠ "")
  let vanished := (db.chapter.rows.filter fun c =>
    c.sourceSeriesId = sourceSeriesId && !incoming.contains c.externalId).map
      Chapter.id
  let rows := (chapters.filter fun c => c.2.externalId ≠ "").map fun c =>
    chapterRow rules c.1 sourceSeriesId c.2
  match writeChapters rows db with
  | .ok db => .ok ((), { db with
      chapter := db.chapter.deleteWhere fun c => vanished.contains c.id })
  | .error e => .error e

/-! ## Events

What a chapter announces, and the statements that write it down. -/

/-- The key and release time, in millis, of a chapter that `seedable_where`
admits at `nowMs`. -/
def seedable (rules : SpineRules) (nowMs : Int) (c : Chapter) :
    Option (String × Int) := do
  let key ← c.chapterKey
  let releasedAt ← c.readableAt.or c.publishedAt
  let seconds ← rules.strftimeSeconds releasedAt
  if seconds * 1000 ≤ nowMs then some (key, seconds * 1000) else none

/-- The events that the chapters of the mappings `p` would announce. -/
def announcements (rules : SpineRules) (nowMs : Int) (p : SourceSeries → Bool)
    (db : Db) : List ReleaseEvent :=
  (db.sourceSeries.rows.filter p).flatMap fun ss =>
    (db.chapter.rows.filter fun c => c.sourceSeriesId = ss.id).filterMap fun c =>
      (seedable rules nowMs c).map fun (key, ms) =>
        ⟨ss.workId, key, ms, some ss.id, (c.label.or c.number).getD "Oneshot"⟩

/-- The earlier of two events for one key, with its label and its source; on a
tie the one already there. -/
def earliest (old new : ReleaseEvent) : ReleaseEvent :=
  if new.firstSeenAt < old.firstSeenAt then
    { old with
      firstSeenAt := new.firstSeenAt
      firstSourceSeriesId := new.firstSourceSeriesId
      label := new.label }
  else old

/-- Whichever is kept, its key is the same. -/
theorem earliest_keepsKeys (new : ReleaseEvent) :
    Table.KeepsKeys (earliest · new) := by
  intro a b
  change clash (earliest a new) b = clash a b
  unfold earliest
  split <;> rfl

/-- `GROUP BY chapter_key` with `MIN(…)` and bare columns: one event per key,
the earliest. -/
def firstPerKey (events : List ReleaseEvent) : List ReleaseEvent :=
  ((Table.empty : Table ReleaseEvent).upsertAll events earliest
    earliest_keepsKeys).rows

/-- `seed_work`; `seed_batch` runs it for each work of its list. -/
def seedWork (rules : SpineRules) (workId : Id) (nowMs : Int) (db : Db) : Db :=
  { db with
    releaseEvent := db.releaseEvent.insertAllOrIgnore
      (firstPerKey (announcements rules nowMs (fun ss => ss.workId = workId) db)) }

/-- `record_source_series`: the first announcement of each key; an event that is there
stays. -/
def recordSourceSeries (rules : SpineRules) (sourceSeriesId : Id) (nowMs : Int)
    (db : Db) : Db :=
  { db with
    releaseEvent := db.releaseEvent.insertAllOrIgnore
      (firstPerKey
        (announcements rules nowMs (fun ss => ss.id = sourceSeriesId) db)) }

/-- `merge_release_events`: the source's events under the target, and of two for one key
the earlier. -/
def mergeReleaseEvents (source target : Id) (db : Db) : Db :=
  { db with
    releaseEvent := db.releaseEvent.upsertAll
      (copiesTo source target db.releaseEvent) earliest earliest_keepsKeys }

/-- Some mapping of the work carries a chapter with this key. -/
def carries (db : Db) (workId : Id) (chapterKey : String) : Bool :=
  db.chapter.rows.any fun c =>
    c.chapterKey = some chapterKey && db.sourceSeries.rows.any fun s =>
      s.id = c.sourceSeriesId && s.workId = workId

/-- A work carries a key if a mapping of it has a chapter with the key. -/
theorem carries_iff {db : Db} {workId : Id} {chapterKey : String} :
    carries db workId chapterKey = true ↔
      ∃ c ∈ db.chapter, c.chapterKey = some chapterKey ∧
        ∃ s ∈ db.sourceSeries, s.id = c.sourceSeriesId ∧ s.workId = workId := by
  simp [carries, Table.mem_rows]

/-- An event that follows the mapping off its old work: credited to it, and no
remaining mapping carries its key. -/
def follows (db : Db) (oldWork sourceSeriesId : Id) (e : ReleaseEvent) : Bool :=
  e.workId = oldWork && e.firstSourceSeriesId = some sourceSeriesId &&
    !carries db oldWork e.chapterKey

/-- The two statements by which a mapping's events follow it: `INSERT OR
IGNORE … SELECT`, then `DELETE`. -/
def moveEvents (oldWork newWork sourceSeriesId : Id) (db : Db)
    (events : Table ReleaseEvent) : Table ReleaseEvent :=
  let moving := (events.rows.filter (follows db oldWork sourceSeriesId)).map
    (move newWork)
  (events.insertAllOrIgnore moving).deleteWhere
    (follows db oldWork sourceSeriesId)

/-! ## Phase F

The mappings of the retired extension, by what is known of their uuids. -/

/-- What `phase_f` finds about a mapping. -/
inductive Verdict where
  | unresolved
  | redundant
  | anchorless
  | mismatch
deriving DecidableEq, Repr

/-- One row of `phase_f::classify`, read before any transaction. -/
structure ClassifiedRow where
  sourceSeriesId : Id
  workId : Id
  mangadexUuid : Option String
  anchorCount : Int
  uuidMatchesAnchor : Bool
  uuidOwnerWork : Option Id
deriving DecidableEq, Repr

/-- `verdict_of`: a duplicate only where the work is anchored to the very uuid. -/
def verdictOf (hasUuid : Bool) (anchorCount : Int) (uuidMatchesAnchor : Bool) :
    Verdict :=
  if !hasUuid then .unresolved
  else if uuidMatchesAnchor then .redundant
  else if anchorCount = 0 then .anchorless
  else .mismatch

/-- The verdict on a row, by its uuid, its anchors and whether they agree. -/
def ClassifiedRow.verdict (r : ClassifiedRow) : Verdict :=
  verdictOf r.mangadexUuid.isSome r.anchorCount r.uuidMatchesAnchor

/-- The work `split_mismatched` moves a classified row to; `none` when it skips
the row or reports it blocked. -/
def ClassifiedRow.destination (r : ClassifiedRow) : Option Id :=
  if r.verdict = .mismatch then
    r.uuidOwnerWork.bind fun target =>
      if target = r.workId then none else some target
  else none

/-- `SET work_id = ?` on `source_series`. -/
theorem moveSourceSeries_keepsKeys (w : Id) :
    Table.KeepsKeys (move w : SourceSeries → SourceSeries) := fun _ _ => rfl

/-- The loop body of `split_mismatched` with `apply`: one transaction. -/
def splitMismatchedRow (r : ClassifiedRow) (db : Db) :
    Except CatalogError (Unit × Db) :=
  match r.destination with
  | none => .ok ((), db)
  | some target =>
      if !db.hasWork target &&
          ((db.sourceSeries.rows.any fun s => s.id = r.sourceSeriesId) ||
            db.releaseEvent.rows.any (follows db r.workId r.sourceSeriesId)) then
        .error .foreignKeyConstraint
      else
        let db := { db with
          sourceSeries := db.sourceSeries.update
            (fun s => s.id = r.sourceSeriesId) (move target)
            (moveSourceSeries_keepsKeys target) }
        .ok ((), { db with
          releaseEvent :=
            moveEvents r.workId target r.sourceSeriesId db db.releaseEvent })

/-! ## What the writers do

Inversion lemmas: what a call that succeeded has left as it was. -/

section Inversion

variable {rules : SpineRules} {db db' : Db}

/-- A write of the spine touches nothing but the spine. -/
theorem writeChapter_ok {row : Chapter} (h : writeChapter row db = .ok db') :
    ∃ chapter, db' = { db with chapter := chapter } := by
  unfold writeChapter at h
  dsimp only at h
  split at h
  · cases h
    exact ⟨_, rfl⟩
  · split at h
    · split at h
      · cases h
        exact ⟨_, rfl⟩
      · contradiction
    · contradiction

/-- The row with its key is refreshed, or there was none and it is new. -/
theorem mem_of_writeChapter {row : Chapter} (h : writeChapter row db = .ok db') :
    ((∃ old ∈ db.chapter, old.sourceSeriesId = row.sourceSeriesId ∧
        old.externalId = row.externalId) ∧
      ∀ c, c ∈ db'.chapter ↔ ∃ old ∈ db.chapter, c =
        if old.sourceSeriesId = row.sourceSeriesId ∧
            old.externalId = row.externalId then refreshChapter row old
        else old) ∨
    ((∀ old ∈ db.chapter, ¬(old.sourceSeriesId = row.sourceSeriesId ∧
        old.externalId = row.externalId)) ∧
      ∀ c, c ∈ db'.chapter ↔ c ∈ db.chapter ∨ c = row) := by
  unfold writeChapter at h
  dsimp only at h
  split at h
  · next hany =>
      cases h
      refine .inl ⟨by simpa [Table.mem_rows] using hany, fun c => ?_⟩
      rw [Table.mem_update (h := refreshChapter_keepsKeys row)]
      simp only [Bool.and_eq_true, decide_eq_true_eq]
  · next hany =>
      split at h
      · split at h
        · next chapter hinsert =>
            cases h
            refine .inr ⟨by simpa [Table.mem_rows] using hany, fun c => ?_⟩
            exact Table.mem_of_insert hinsert
        · contradiction
      · contradiction

/-- A write does not fail under a new id, for a mapping that exists. -/
theorem exists_writeChapter_ok {row : Chapter}
    (hss : ∃ ss ∈ db.sourceSeries, ss.id = row.sourceSeriesId)
    (hid : ∀ c ∈ db.chapter, c.id ≠ row.id) :
    ∃ db', writeChapter row db = .ok db' := by
  unfold writeChapter
  dsimp only
  split
  · exact ⟨_, rfl⟩
  · next hnone =>
      rw [if_pos (by simpa [Table.mem_rows] using hss)]
      have hfree : db.chapter.taken row = false := by
        rw [Table.taken_eq_false]
        intro c hc
        have hkey : ¬(c.sourceSeriesId = row.sourceSeriesId ∧
            c.externalId = row.externalId) := by
          intro hsame
          exact hnone (List.any_eq_true.mpr ⟨c, hc, by simp [hsame]⟩)
        show decide _ = false
        simp only [decide_eq_false_iff_not, not_or]
        exact ⟨fun h => hid c hc h.symm, fun h => hkey ⟨h.1.symm, h.2.symm⟩⟩
      rw [Table.insert, dif_pos hfree]
      exact ⟨_, rfl⟩

/-- An upsert touches the spine only. -/
theorem upsertChapter_ok {newId sourceSeriesId : Id} {ch : ChapterInput}
    {u : Unit} (h : upsertChapter rules newId sourceSeriesId ch db = .ok (u, db')) :
    ∃ chapter, db' = { db with chapter := chapter } := by
  unfold upsertChapter at h
  split at h
  · cases h
    exact ⟨db.chapter, rfl⟩
  · split at h
    · next hwrite =>
        cases h
        exact writeChapter_ok hwrite
    · contradiction

theorem writeChapters_ok {rows : List Chapter}
    (h : writeChapters rows db = .ok db') :
    ∃ chapter, db' = { db with chapter := chapter } := by
  induction rows generalizing db with
  | nil =>
      cases h
      exact ⟨db'.chapter, rfl⟩
  | cons row rows ih =>
      unfold writeChapters at h
      rw [List.foldlM_cons] at h
      cases hwrite : writeChapter row db with
      | error e =>
          rw [hwrite] at h
          contradiction
      | ok db'' =>
          rw [hwrite] at h
          obtain ⟨c, rfl⟩ := writeChapter_ok hwrite
          obtain ⟨c', rfl⟩ := ih h
          exact ⟨c', rfl⟩

/-- And so does a replacement, with the delete of what is no longer listed. -/
theorem replaceSourceChapters_ok {sourceSeriesId : Id}
    {chapters : List (Id × ChapterInput)} {u : Unit}
    (h : replaceSourceChapters rules sourceSeriesId chapters db = .ok (u, db')) :
    ∃ chapter, db' = { db with chapter := chapter } := by
  unfold replaceSourceChapters at h
  dsimp only at h
  split at h
  · next hwrite =>
      cases h
      obtain ⟨c, rfl⟩ := writeChapters_ok hwrite
      exact ⟨_, rfl⟩
  · contradiction

/-- A classified row moves, and its events follow it, or nothing happens. -/
theorem splitMismatchedRow_ok {r : ClassifiedRow} {u : Unit}
    (h : splitMismatchedRow r db = .ok (u, db')) :
    (r.destination = none ∧ db' = db) ∨
      ∃ target, r.destination = some target ∧
        (db.hasWork target = true ∨
          ((∀ s ∈ db.sourceSeries, s.id ≠ r.sourceSeriesId) ∧
            ∀ e ∈ db.releaseEvent,
              follows db r.workId r.sourceSeriesId e = false)) ∧
        ∃ moved : Db, moved = { db with
            sourceSeries := db.sourceSeries.update
              (fun s => s.id = r.sourceSeriesId) (move target)
              (moveSourceSeries_keepsKeys target) } ∧
          db' = { moved with
            releaseEvent := moveEvents r.workId target r.sourceSeriesId moved
              db.releaseEvent } := by
  unfold splitMismatchedRow at h
  split at h
  · next hnone =>
      cases h
      exact .inl ⟨hnone, rfl⟩
  · next target htarget =>
      split at h
      · contradiction
      · next hfk =>
          cases h
          refine .inr ⟨target, htarget, ?_, _, rfl, rfl⟩
          cases hwork : db.hasWork target with
          | true => exact .inl rfl
          | false =>
              refine .inr ?_
              simpa [hwork, Table.mem_rows] using hfk

end Inversion

end Komika.Catalog.Ledger
