import Komika.Catalog.Database

/-!
# Ingest: works, aliases and source mappings

The writers of `catalog/mod.rs` that create and update works and their
mappings, each one transaction.  The ids that the code mints with `new_id`
are arguments.

The text functions they call are pure and stay parameters (`TextRules`):
nothing here depends on how a title is normalised.

The transactions are written statement by statement.  At the end there is one lemma for
each that says what a successful call was: the rows it offered, the mapping it found or
made, the id it returns.  `Effects` says from these which rows there are afterwards.
-/

namespace Komika.Catalog.Ingest

open Komika.Lib
open Komika.Catalog.Schema Komika.Catalog.Database

/-- The pure text functions the writers call. -/
structure TextRules where
  /-- `normalize_title`. -/
  normalizeTitle : String → String
  /-- `alias_word_tokens`. -/
  aliasWordTokens : String → List String
  /-- `str::trim`. -/
  trim : String → String
  /-- `CAST(? AS INTEGER)`. -/
  castInteger : String → Int

/-- A title that the work is known by, with its language. -/
structure Alias where
  raw : String
  lang : Option String
deriving DecidableEq, Repr

/-- A cover that a record lists. -/
structure Cover where
  fileName : String
  lang : Option String
  volume : Option String
  isPrimary : Bool
deriving DecidableEq, Repr

/-- What a record says of a work, with the rows that hang off it. -/
structure WorkInput where
  primaryTitle : Option String
  primaryLang : Option String
  description : Option String
  year : Option Int
  originalLanguage : Option String
  status : Option String
  demographic : Option String
  contentRating : Option String
  isNsfw : Bool
  author : Option String
  artist : Option String
  coverPhash : Option String
  coverFileName : Option String
  aliases : List Alias
  externalIds : List (String × String)
  descriptions : List (String × String)
  credits : List (String × String)
  tags : List String
  covers : List Cover
deriving DecidableEq, Repr

/-- The row both inserts write. -/
def WorkInput.row (input : WorkInput) (id : Id) : Work :=
  { id := id
    primaryTitle := input.primaryTitle
    primaryLang := input.primaryLang
    description := input.description
    year := input.year
    originalLanguage := input.originalLanguage
    status := input.status
    demographic := input.demographic
    contentRating := input.contentRating
    isNsfw := input.isNsfw
    author := input.author
    artist := input.artist
    coverPhash := input.coverPhash
    coverFileName := input.coverFileName
    titleOverride := none
    isNsfwOverride := none }

/-! ## Child rows

The tables that hang off a work, which every writer of works offers rows to. -/

/-- The rows `insert_aliases` offers to `work_alias`; a title that normalises
to `""` is skipped. -/
def aliasRows (rules : TextRules) (workId : Id) (aliases : List Alias) :
    List WorkAlias :=
  (aliases.map fun a => ⟨workId, rules.normalizeTitle a.raw, a.raw, a.lang⟩).filter
    fun r => r.normalizedTitle ≠ ""

/-- The rows `insert_alias_tokens` offers for the aliases `rows`. -/
def tokenRows (rules : TextRules) (rows : List WorkAlias) : List WorkAliasToken :=
  rows.flatMap fun r =>
    (rules.aliasWordTokens r.normalizedTitle).map fun token => ⟨r.workId, token⟩

/-- `insert_aliases`: the aliases that are new, and the words of each in the index. -/
def insertAliases (rules : TextRules) (workId : Id) (aliases : List Alias)
    (db : Db) : Db :=
  { db with
    workAlias := db.workAlias.insertAllOrIgnore (aliasRows rules workId aliases)
    workAliasToken := db.workAliasToken.insertAllOrIgnore
      (tokenRows rules (aliasRows rules workId aliases)) }

/-- The rows offered to `work_external_id`, without the empty ones. -/
def externalIdRows (workId : Id) (externalIds : List (String × String)) :
    List WorkExternalId :=
  (externalIds.map fun (provider, ext) => ⟨workId, provider, ext⟩).filter
    fun r => r.provider ≠ "" ∧ r.externalId ≠ ""

/-- `insert_external_ids`: an id that is claimed already stays with its work. -/
def insertExternalIds (workId : Id) (externalIds : List (String × String))
    (db : Db) : Db :=
  { db with
    workExternalId :=
      db.workExternalId.insertAllOrIgnore (externalIdRows workId externalIds) }

/-- `description = excluded.description`: the key keeps its row. -/
def overwriteDescription (old new : WorkDescription) : WorkDescription :=
  { old with description := new.description }

/-- The text is in no key. -/
theorem overwriteDescription_keepsKeys (new : WorkDescription) :
    Table.KeepsKeys (overwriteDescription · new) := fun _ _ => rfl

/-- `insert_descriptions_and_credits`: descriptions are written over, credits and covers
added; rows without a text are skipped. -/
def insertDescriptionsAndCredits (rules : TextRules) (workId : Id)
    (input : WorkInput) (db : Db) : Db :=
  let descriptions : List WorkDescription :=
    (input.descriptions.map fun (lang, text) => ⟨workId, lang, text⟩).filter
      fun r => r.lang ≠ "" ∧ r.description ≠ ""
  let credits : List WorkCredit :=
    (input.credits.map fun (role, name) => ⟨workId, role, rules.trim name⟩).filter
      fun r => r.name ≠ "" ∧ (r.role = "author" ∨ r.role = "artist")
  let covers : List WorkCover :=
    (input.covers.map fun c =>
      ⟨workId, c.fileName, c.lang, c.volume, c.isPrimary⟩).filter
        fun r => r.coverFileName ≠ ""
  { db with
    workDescription := db.workDescription.upsertAll descriptions
      overwriteDescription overwriteDescription_keepsKeys
    workCredit := db.workCredit.insertAllOrIgnore credits
    workCover := db.workCover.insertAllOrIgnore covers }

/-- `replace_source_tags`: `ord` counts the upstream list, blanks included. -/
def replaceSourceTags (rules : TextRules) (workId : Id) (tags : List String)
    (db : Db) : Db :=
  let rows : List WorkTag :=
    (tags.zipIdx.map fun (tag, ord) =>
      ⟨workId, rules.trim tag, ord, .mangadex⟩).filter fun r => r.tag ≠ ""
  { db with
    workTag := (db.workTag.deleteWhere fun r =>
      r.workId = workId && r.source = .mangadex).insertAllOrIgnore rows }

/-! ## Source mappings

A mapping is found by its key before one is made. -/

/-- `last_seen = excluded.last_seen, is_nsfw = excluded.is_nsfw`. -/
def touchSourceSeries (isNsfw : Bool) (now : String) (r : SourceSeries) :
    SourceSeries :=
  { r with lastSeen := some now, isNsfw := isNsfw }

theorem touchSourceSeries_keepsKeys (isNsfw : Bool) (now : String) :
    Table.KeepsKeys (touchSourceSeries isNsfw now) := fun _ _ => rfl

/-- `ensure_source_series`: the mapping with this key keeps its work. -/
def ensureSourceSeries (row : SourceSeries) (now : String) (db : Db) :
    Except CatalogError (Id × Db) :=
  match db.sourceSeries.rows.find? fun r => r.key = row.key with
  | some old =>
      .ok (old.id,
        { db with
          sourceSeries := db.sourceSeries.update (fun r => r.key = row.key)
            (touchSourceSeries row.isNsfw now)
            (touchSourceSeries_keepsKeys row.isNsfw now) })
  | none =>
      if db.hasWork row.workId then
        match db.sourceSeries.insert row with
        | some sourceSeries => .ok (row.id, { db with sourceSeries := sourceSeries })
        | none => .error .uniqueConstraint
      else .error .foreignKeyConstraint

/-- `upsert_source_series`: the mapping of a source's key, new or refreshed. -/
def upsertSourceSeries (newId workId : Id)
    (sourceType sourceId sourceKey : String) (sourceUrl : Option String)
    (isNsfw : Bool) (now : String) (db : Db) : Except CatalogError (Id × Db) :=
  ensureSourceSeries
    ⟨newId, workId, sourceType, sourceId, sourceKey, sourceUrl, isNsfw, some now⟩
    now db

/-! ## Works

The upsert of a MangaDex record, and a work without one. -/

/-- The `ON CONFLICT(id) DO UPDATE` of `upsert_work_from_mangadex`. -/
def refreshWork (old new : Work) : Work :=
  { new with
    id := old.id
    coverPhash := new.coverPhash.or old.coverPhash
    coverFileName := new.coverFileName.or old.coverFileName
    titleOverride := old.titleOverride
    isNsfwOverride := old.isNsfwOverride }

theorem refreshWork_keepsKeys (new : Work) :
    Table.KeepsKeys (refreshWork · new) := fun _ _ => rfl

/-- The work that claims `(provider, external_id)`. -/
def externalWork (db : Db) (provider externalId : String) : Option Id :=
  (db.workExternalId.rows.find? fun r =>
    r.provider = provider && r.externalId = externalId).map WorkExternalId.workId

/-- The writes of `upsert_work_from_mangadex`, up to the mapping. -/
def refreshWorkRows (rules : TextRules) (workId : Id) (mangadexId : String)
    (input : WorkInput) (db : Db) : Db :=
  let db := { db with
    work := db.work.upsert (input.row workId) refreshWork
      (refreshWork_keepsKeys (input.row workId)) }
  let db := { db with
    workExternalId :=
      db.workExternalId.insertOrIgnore ⟨workId, "mangadex", mangadexId⟩ }
  let db := insertExternalIds workId input.externalIds db
  let db := insertAliases rules workId input.aliases db
  let db := insertDescriptionsAndCredits rules workId input db
  replaceSourceTags rules workId input.tags db

/-- `upsert_work_from_mangadex`: refreshes the work that claims the uuid, or creates
one, and then its mapping. -/
def upsertWorkFromMangadex (rules : TextRules) (newWorkId newSourceSeriesId : Id)
    (mangadexId : String) (input : WorkInput) (now : String) (db : Db) :
    Except CatalogError (Id × Db) :=
  let workId := (externalWork db "mangadex" mangadexId).getD newWorkId
  match upsertSourceSeries newSourceSeriesId workId "mangadex" "mangadex"
      mangadexId none input.isNsfw now
      (refreshWorkRows rules workId mangadexId input db) with
  | .ok (_, db) => .ok (workId, db)
  | .error e => .error e

/-- `create_work`: the row and everything that hangs off it; the id has to be new. -/
def createWork (rules : TextRules) (newWorkId : Id) (input : WorkInput)
    (db : Db) : Except CatalogError (Id × Db) :=
  match db.work.insert (input.row newWorkId) with
  | none => .error .uniqueConstraint
  | some work =>
      let db := { db with work := work }
      let db := insertExternalIds newWorkId input.externalIds db
      let db := insertAliases rules newWorkId input.aliases db
      let db := insertDescriptionsAndCredits rules newWorkId input db
      .ok (newWorkId, db)

/-- `add_work_alias`: the normalised key it indexed, or `""`. -/
def addWorkAlias (rules : TextRules) (workId : Id) (rawTitle : String)
    (db : Db) : Except CatalogError (String × Db) :=
  let raw := rules.trim rawTitle
  let norm := rules.normalizeTitle raw
  if norm = "" then .ok ("", db)
  else if db.hasWork workId then
    .ok (norm, insertAliases rules workId [⟨raw, none⟩] db)
  else .error .foreignKeyConstraint

/-- `remove_work_alias`, with the rebuild of the work's token index. -/
def removeWorkAlias (rules : TextRules) (workId : Id) (rawTitle : String)
    (db : Db) : Except CatalogError (Unit × Db) :=
  let raw := rules.trim rawTitle
  let norm := rules.normalizeTitle raw
  let workAlias := db.workAlias.deleteWhere fun r =>
    r.workId = workId && (r.normalizedTitle = norm || r.rawTitle = raw)
  .ok ((), { db with
    workAlias := workAlias
    workAliasToken := (deleteOn workId db.workAliasToken).insertAllOrIgnore
      (tokenRows rules (workAlias.rows.filter fun r => r.workId = workId)) })

/-! ## Deletions -/

/-- The child tables that every deletion of works clears by hand. -/
def deleteChildRows (p : Id → Bool) (db : Db) : Db :=
  { db with
    workAlias := db.workAlias.deleteWhere fun r => p r.workId
    workAliasToken := db.workAliasToken.deleteWhere fun r => p r.workId
    workExternalId := db.workExternalId.deleteWhere fun r => p r.workId
    workDescription := db.workDescription.deleteWhere fun r => p r.workId
    workCredit := db.workCredit.deleteWhere fun r => p r.workId
    workCover := db.workCover.deleteWhere fun r => p r.workId
    workCoverIssue := db.workCoverIssue.deleteWhere fun r => p r.workId
    workTag := db.workTag.deleteWhere fun r => p r.workId
    chapterOverride := db.chapterOverride.deleteWhere fun r => p r.workId }

/-- The deletes that `delete_work_cascade` and the purge share. -/
def deleteWorksExplicitly (p : Id → Bool) (db : Db) : Db :=
  let db := deleteChildRows p db
  let db := { db with
    canonicalLibrary := db.canonicalLibrary.deleteWhere fun r => p r.workId
    mergeCandidate := db.mergeCandidate.deleteWhere fun r => p r.candidateWorkId }
  db.deleteWorks p

/-- `delete_work_cascade`: the work, and the rows that name it. -/
def deleteWorkCascade (workId : Id) (db : Db) : Except CatalogError (Unit × Db) :=
  .ok ((), deleteWorksExplicitly (fun id => id = workId) db)

/-- The non-English series: `SELECT id FROM suwayomi_series WHERE lang IS NOT
NULL AND lang <> 'en'`. -/
def nonEnglish (db : Db) : List Int :=
  (db.suwayomiSeries.rows.filter fun r =>
    r.lang ≠ none && r.lang ≠ some "en").map SuwayomiSeries.id

/-- The purge deletes this mapping. -/
def purges (keys : List String) (r : SourceSeries) : Bool :=
  r.sourceType = "suwayomi" && keys.contains r.sourceKey

/-- The works that have mappings, all of which the purge deletes. -/
def orphanedBy (db : Db) (keys : List String) (workId : Id) : Bool :=
  (db.sourceSeries.rows.any fun r => r.workId = workId) &&
    db.sourceSeries.rows.all fun r => r.workId ≠ workId || purges keys r

/-- `purge_foreign_language_suwayomi`, for the tables modelled here. -/
def purgeForeignLanguageSuwayomi (db : Db) :
    Except CatalogError (List Int × Db) :=
  let seriesIds := nonEnglish db
  if seriesIds = [] then .ok ([], db)
  else
    let keys := seriesIds.map toString
    let orphan := orphanedBy db keys
    let db := { db with
      userLibrary := db.userLibrary.deleteWhere fun r => keys.contains r.seriesId
      seriesViews := db.seriesViews.deleteWhere fun r => keys.contains r.seriesKey
      seriesViewBucket :=
        db.seriesViewBucket.deleteWhere fun r => keys.contains r.seriesKey }
    let db := db.deleteSourceSeries (purges keys)
    let db := deleteWorksExplicitly orphan db
    let db := { db with
      mergeCandidate := db.mergeCandidate.deleteWhere fun m =>
        !db.sourceSeries.rows.any fun r => r.id = m.sourceSeriesId
      suwayomiSeries :=
        db.suwayomiSeries.deleteWhere fun r => seriesIds.contains r.id }
    .ok (seriesIds, db)

/-! ## What the writers do

One inversion lemma for each. -/

section Inversion

variable {rules : TextRules} {db db' : Db}

/-- The mapping for the key is there already and keeps its work, or it is new
and its work is live. -/
theorem ensureSourceSeries_ok {row : SourceSeries} {now : String} {id : Id}
    (h : ensureSourceSeries row now db = .ok (id, db')) :
    ∃ t, db' = { db with sourceSeries := t } ∧
      (((∃ r ∈ db.sourceSeries, r.key = row.key) ∧
          ∀ x, x ∈ t ↔ ∃ r ∈ db.sourceSeries, x =
            if r.key = row.key then touchSourceSeries row.isNsfw now r else r) ∨
        ((∀ r ∈ db.sourceSeries, r.key ≠ row.key) ∧
          db.hasWork row.workId = true ∧
          ∀ x, x ∈ t ↔ x ∈ db.sourceSeries ∨ x = row)) := by
  unfold ensureSourceSeries at h
  split at h
  · next old hfind =>
      cases h
      refine ⟨_, rfl, .inl ⟨⟨old, List.mem_of_find?_eq_some hfind, ?_⟩, ?_⟩⟩
      · simpa using List.find?_some hfind
      · intro x
        simp [Table.mem_update]
  · next hfind =>
      split at h
      · next hwork =>
          split at h
          · next t hinsert =>
              cases h
              refine ⟨t, rfl, .inr ⟨?_, hwork, ?_⟩⟩
              · intro r hr
                simpa using List.find?_eq_none.mp hfind r hr
              · intro x
                exact Table.mem_of_insert hinsert
          · contradiction
      · contradiction

/-- With a mapping for the key it does not fail. -/
theorem exists_ensureSourceSeries_ok (row : SourceSeries) (now : String)
    {r : SourceSeries} (hr : r ∈ db.sourceSeries) (hkey : r.key = row.key) :
    ∃ id db', ensureSourceSeries row now db = .ok (id, db') := by
  unfold ensureSourceSeries
  split
  · exact ⟨_, _, rfl⟩
  · next hnone =>
      have hother := List.find?_eq_none.mp hnone r hr
      simp [hkey] at hother

/-- The upsert returns the work that claims the uuid, or the new one, and has made sure
of its mapping. -/
theorem upsertWorkFromMangadex_ok {newWorkId newSourceSeriesId id : Id}
    {mangadexId : String} {input : WorkInput} {now : String}
    (h : upsertWorkFromMangadex rules newWorkId newSourceSeriesId mangadexId input
      now db = .ok (id, db')) :
    id = (externalWork db "mangadex" mangadexId).getD newWorkId ∧
      ∃ sid, upsertSourceSeries newSourceSeriesId id "mangadex" "mangadex"
        mangadexId none input.isNsfw now
        (refreshWorkRows rules id mangadexId input db) = .ok (sid, db') := by
  unfold upsertWorkFromMangadex at h
  dsimp only at h
  split at h
  · next sid db'' hss =>
      cases h
      exact ⟨rfl, sid, hss⟩
  · contradiction

/-- The work is inserted under its id, and its child rows are offered. -/
theorem createWork_ok {newWorkId id : Id} {input : WorkInput}
    (h : createWork rules newWorkId input db = .ok (id, db')) :
    ∃ work, db.work.insert (input.row newWorkId) = some work ∧
      db' = insertDescriptionsAndCredits rules newWorkId input
        (insertAliases rules newWorkId input.aliases
          (insertExternalIds newWorkId input.externalIds
            { db with work := work })) := by
  unfold createWork at h
  split at h
  · contradiction
  · next work hwork =>
      cases h
      exact ⟨work, hwork, rfl⟩

/-- It returns the id it was given. -/
theorem outId_of_createWork {newWorkId outId : Id} {input : WorkInput}
    (h : createWork rules newWorkId input db = .ok (outId, db')) :
    outId = newWorkId := by
  unfold createWork at h
  split at h
  · contradiction
  · cases h
    rfl

/-- The alias is offered, unless its title normalises to nothing. -/
theorem addWorkAlias_ok {workId : Id} {rawTitle norm : String}
    (h : addWorkAlias rules workId rawTitle db = .ok (norm, db')) :
    db' = db ∨
      db' = insertAliases rules workId [⟨rules.trim rawTitle, none⟩] db := by
  unfold addWorkAlias at h
  dsimp only at h
  split at h
  · cases h
    exact .inl rfl
  · split at h
    · cases h
      exact .inr rfl
    · contradiction

end Inversion

end Komika.Catalog.Ingest
