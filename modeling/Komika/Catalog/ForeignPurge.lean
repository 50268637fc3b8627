import Komika.Catalog.Runs
import Komika.Catalog.Effects
import Komika.Feed.Schema
import Komika.Scan.Schema

/-!
# The purge of foreign series

`purge_foreign_language_suwayomi` of `catalog/mod.rs`.  Readers' rows name a
series by its number or a work by its id, in one column and without a foreign
key.  The purge deletes the series that are not in English, their mappings and
the works that have no others, and sweeps the tables that name a series by its
number.

It looks whether there is anything to do before it takes the write lock, and
reads again under it.  `purges_exactly` says what it deletes and what it leaves
alone.  What it does not do is follow the works it deletes: redirects to them
stay, because one that leads nowhere is harmless.

The catalogue's part is a step of `Runs`; the tables beside it are `Satellites`, written
by others at any time.  What is deleted is stated once, for any table and any column
that names something (`Spares`, `NamesNone`), and then for each table with its own
column.

* `purge_cases`, `purge_total` — the transaction finds nothing, or deletes; it does not
  fail of itself;
* `deleted_purge` — the foreign series, their mappings and the orphaned works go, and
  nothing else of the catalogue;
* `swept_purge` — nothing in the swept tables names a purged series, and the other rows
  stay;
* `purges_exactly` — every step of a purge, from any state;
* `not_purges_exactly_leaves_nothing` — the rows that do name something gone afterwards.
-/

namespace Komika.Catalog.ForeignPurge

open Komika.Lib
open Komika.Catalog.Schema Komika.Catalog.Database Komika.Catalog.Ingest
open Komika.Catalog.Runs
open Komika.Feed.Schema (SuwayomiChapter)
open Komika.Scan.Schema (ScanState)

/-! ## The tables -/

/-- A reader's place in a chapter of a series. -/
structure SuwayomiProgress where
  userId : Id
  chapterId : Id
  seriesId : Id
  lastPageRead : Int
  read : Bool
  updatedAt : String
deriving DecidableEq, Repr

instance : Keyed SuwayomiProgress := .ofKey fun r => (r.userId, r.chapterId)

/-- What an admin has set on a series. -/
structure SeriesAdmin where
  seriesId : Id
  pausedOverride : Option Bool
  statusOverride : Option String
deriving DecidableEq, Repr

instance : Keyed SeriesAdmin := .ofKey SeriesAdmin.seriesId

/-- The tables beside the catalogue that the purge sweeps. -/
structure Satellites where
  suwayomiProgress : Table SuwayomiProgress
  seriesAdmin : Table SeriesAdmin
  seriesScanState : Table ScanState
  suwayomiChapter : Table SuwayomiChapter

/-- All tables that the transaction may write. -/
structure Tables where
  db : Db
  satellites : Satellites

/-! ## The purge -/

/-- Its deletes from the satellites. -/
def deleteSatellites (seriesIds : List Int) (t : Satellites) : Satellites :=
  let keys := seriesIds.map toString
  { suwayomiProgress := t.suwayomiProgress.deleteWhere fun r => keys.contains r.seriesId
    seriesAdmin := t.seriesAdmin.deleteWhere fun r => keys.contains r.seriesId
    seriesScanState := t.seriesScanState.deleteWhere fun r => keys.contains r.seriesId
    suwayomiChapter := t.suwayomiChapter.deleteWhere fun c => seriesIds.contains c.mangaId }

/-- The transaction of `purge_foreign_language_suwayomi`. -/
def purge (t : Tables) : Except CatalogError (List Int × Tables) :=
  match purgeForeignLanguageSuwayomi t.db with
  | .error e => .error e
  | .ok (seriesIds, db) =>
      if seriesIds = [] then .ok ([], t)
      else .ok (seriesIds, ⟨db, deleteSatellites seriesIds t.satellites⟩)

/-- The catalogue, the tables beside it, and a purge that has checked. -/
structure PurgeState where
  catalog : CatalogState
  satellites : Satellites
  /-- The check before the lock found something, and the transaction is to
  come. -/
  checked : Bool

/-- What the transaction finds. -/
def PurgeState.tables (s : PurgeState) : Tables := ⟨s.catalog.db, s.satellites⟩

/-- A step of another writer, or one of the two halves of a purge. -/
inductive Act where
  /-- Another writer of the catalogue takes a step. -/
  | beside (op : Op)
  /-- A reader or the scanner writes the other tables. -/
  | write (satellites : Satellites)
  /-- A purge begins with the check; the read may fail. -/
  | check (fails : Bool)
  /-- Its transaction; a statement or the commit may fail. -/
  | transact (fails : Bool)

/-- What the transaction leaves. -/
def PurgeState.commit (s : PurgeState) (t : Tables) : PurgeState where
  catalog := { s.catalog with db := t.db }
  satellites := t.satellites
  checked := false

/-- The check outside of the lock, and the transaction if the check found something. -/
def PurgeState.step (rules : Rules) (s : PurgeState) : Act → PurgeState
  | .beside op => { s with catalog := s.catalog.step rules op }
  | .write satellites => { s with satellites := satellites }
  | .check fails =>
      { s with checked := !fails && decide (nonEnglish s.catalog.db ≠ []) }
  | .transact fails =>
      if s.checked then
        match if fails then none else (purge s.tables).toOption with
        | none => { s with checked := false }
        | some (_, t) => s.commit t
      else s

/-- How a purge ends. -/
inductive Outcome where
  | returned (seriesIds : List Int)
  | failed
deriving DecidableEq, Repr

/-- The outcome of the purge that ends with this step. -/
def PurgeState.outcome (s : PurgeState) : Act → Option Outcome
  | .check fails =>
      if fails then some .failed
      else if nonEnglish s.catalog.db = [] then some (.returned [])
      else none
  | .transact fails =>
      if s.checked then
        match if fails then none else (purge s.tables).toOption with
        | none => some .failed
        | some (seriesIds, _) => some (.returned seriesIds)
      else none
  | _ => none

/-! ## What it is to delete

What a purge is to delete, in terms of the rows before it: series by their language,
mappings by their series, works by their mappings. -/

/-- The language is known, and not English. -/
def Foreign (r : SuwayomiSeries) : Prop := r.lang ≠ none ∧ r.lang ≠ some "en"

/-- A mapping of a foreign series. -/
def OfForeign (db : Db) (m : SourceSeries) : Prop :=
  m.sourceType = "suwayomi" ∧
    ∃ r ∈ db.suwayomiSeries, Foreign r ∧ toString r.id = m.sourceKey

/-- A work with mappings, all of foreign series. -/
def Orphaned (db : Db) (w : Id) : Prop :=
  (∃ m ∈ db.sourceSeries, m.workId = w) ∧
    ∀ m ∈ db.sourceSeries, m.workId = w → OfForeign db m

/-- The number of a foreign series. -/
def SeriesGone (db : Db) (id : Id) : Prop :=
  ∃ r ∈ db.suwayomiSeries, Foreign r ∧ toString r.id = id

/-- An id that names nothing any more after the purge. -/
def Gone (db : Db) (id : Id) : Prop := SeriesGone db id ∨ Orphaned db id

section Targets

variable {db : Db}

/-- The numbers of the foreign series. -/
theorem mem_nonEnglish {i : Int} :
    i ∈ nonEnglish db ↔ ∃ r ∈ db.suwayomiSeries, Foreign r ∧ r.id = i := by
  simp only [nonEnglish, List.mem_map, List.mem_filter, Bool.and_eq_true,
    decide_eq_true_eq, Table.mem_rows, and_assoc, Foreign]

/-- A key is among them, as texts, if it is the number of one. -/
theorem contains_keys_iff {id : Id} :
    ((nonEnglish db).map toString).contains id = true ↔ SeriesGone db id := by
  rw [List.contains_iff_mem, List.mem_map]
  constructor
  · rintro ⟨i, hi, rfl⟩
    obtain ⟨r, hr, hforeign, rfl⟩ := mem_nonEnglish.mp hi
    exact ⟨r, hr, hforeign, rfl⟩
  · rintro ⟨r, hr, hforeign, rfl⟩
    exact ⟨r.id, mem_nonEnglish.mpr ⟨r, hr, hforeign, rfl⟩, rfl⟩

/-- The mappings that go are those of foreign series. -/
theorem purges_iff {m : SourceSeries} :
    purges ((nonEnglish db).map toString) m = true ↔ OfForeign db m := by
  rw [purges, Bool.and_eq_true, decide_eq_true_eq, contains_keys_iff]
  rfl

/-- The works that go are those with no others. -/
theorem orphanedBy_iff {w : Id} :
    orphanedBy db ((nonEnglish db).map toString) w = true ↔ Orphaned db w := by
  rw [orphanedBy, Bool.and_eq_true, List.any_eq_true, List.all_eq_true]
  refine and_congr ?_ (forall_congr' fun m => forall_congr' fun _ => ?_)
  · simp only [decide_eq_true_eq, Table.mem_rows]
  · rw [Bool.or_eq_true, decide_eq_true_eq, purges_iff, ← imp_iff_not_or]

/-- Without foreign series there is nothing to delete. -/
theorem not_foreign_of_nil (h : nonEnglish db = []) {r : SuwayomiSeries}
    (hr : r ∈ db.suwayomiSeries) : ¬Foreign r := by
  intro hforeign
  have hmem := mem_nonEnglish.mpr ⟨r, hr, hforeign, rfl⟩
  rw [h] at hmem
  contradiction

/-- Then no number is a purged one. -/
theorem not_seriesGone_of_nil (h : nonEnglish db = []) (id : Id) : ¬SeriesGone db id := by
  rintro ⟨r, hr, hforeign, -⟩
  exact not_foreign_of_nil h hr hforeign

theorem not_ofForeign_of_nil (h : nonEnglish db = []) (m : SourceSeries) :
    ¬OfForeign db m :=
  fun hm => not_seriesGone_of_nil h m.sourceKey hm.2

theorem not_orphaned_of_nil (h : nonEnglish db = []) (w : Id) : ¬Orphaned db w := by
  rintro ⟨⟨m, hm, hwork⟩, hall⟩
  exact not_ofForeign_of_nil h m (hall m hm hwork)

/-- A series has one number. -/
theorem nodup_nonEnglish : (nonEnglish db).Nodup := by
  refine List.pairwise_map.mpr ((db.suwayomiSeries.unique.imp ?_).filter _)
  intro a b hab heq
  exact (of_decide_eq_false hab) heq

end Targets

/-! ## What it does to a table

A delete is exact if it spares what names nothing gone and leaves nothing that does. -/

section Sweeps

variable {ρ : Type} [Keyed ρ] {gone : Id → Prop} {column : ρ → Option Id}

/-- No row is added, and the rows that name nothing gone stay. -/
structure Spares (gone : Id → Prop) (column : ρ → Option Id) (before after : Table ρ) :
    Prop where
  old : ∀ r ∈ after, r ∈ before
  kept : ∀ r ∈ before, (∀ id, column r = some id → ¬gone id) → r ∈ after

/-- No row names anything gone. -/
def NamesNone (gone : Id → Prop) (column : ρ → Option Id) (t : Table ρ) : Prop :=
  ∀ r ∈ t, ∀ id, column r = some id → ¬gone id

/-- A table that is left alone. -/
theorem Spares.refl (t : Table ρ) : Spares gone column t t where
  old _ hr := hr
  kept _ hr _ := hr

/-- A delete spares the other rows if it deletes only rows that name something
gone. -/
theorem Spares.deleteWhere {t : Table ρ} {p : ρ → Bool}
    (h : ∀ r, p r = true → ∃ id, column r = some id ∧ gone id) :
    Spares gone column t (t.deleteWhere p) where
  old _ hr := (Table.mem_deleteWhere.mp hr).1
  kept r hr hnames := by
    refine Table.mem_deleteWhere.mpr ⟨hr, ?_⟩
    rw [← Bool.not_eq_true]
    intro hp
    obtain ⟨id, hcolumn, hgone⟩ := h r hp
    exact hnames id hcolumn hgone

/-- And leaves none that does if it deletes all of these. -/
theorem NamesNone.deleteWhere {t : Table ρ} {p : ρ → Bool}
    (h : ∀ r id, column r = some id → gone id → p r = true) :
    NamesNone gone column (t.deleteWhere p) := by
  intro r hr id hcolumn hgone
  have hp := (Table.mem_deleteWhere.mp hr).2
  rw [h r id hcolumn hgone] at hp
  contradiction

theorem NamesNone.of_subset {t t' : Table ρ} (h : NamesNone gone column t)
    (hsub : ∀ r ∈ t', r ∈ t) : NamesNone gone column t' :=
  fun r hr => h r (hsub r hr)

end Sweeps

/-! ## What it does to the database -/

/-- The targets are deleted, and nothing else. -/
structure Deleted (before : Tables) (seriesIds : List Int) (after : Tables) : Prop where
  nodup : seriesIds.Nodup
  returned : ∀ i, i ∈ seriesIds ↔
    ∃ r ∈ before.db.suwayomiSeries, Foreign r ∧ r.id = i
  series : ∀ r, r ∈ after.db.suwayomiSeries ↔
    r ∈ before.db.suwayomiSeries ∧ ¬Foreign r
  mappings : ∀ m, m ∈ after.db.sourceSeries ↔
    m ∈ before.db.sourceSeries ∧ ¬OfForeign before.db m
  works : ∀ w, w ∈ after.db.work ↔ w ∈ before.db.work ∧ ¬Orphaned before.db w.id
  chapters : ∀ c, c ∈ after.db.chapter ↔ c ∈ before.db.chapter ∧
    ∀ m ∈ before.db.sourceSeries, m.id = c.sourceSeriesId → ¬OfForeign before.db m
  cachedChapters : ∀ c, c ∈ after.satellites.suwayomiChapter ↔
    c ∈ before.satellites.suwayomiChapter ∧
      ∀ r ∈ before.db.suwayomiSeries, r.id = c.mangaId → ¬Foreign r
  userLibrary : Spares (Gone before.db) on? before.db.userLibrary after.db.userLibrary
  suwayomiProgress : Spares (Gone before.db) (some ∘ SuwayomiProgress.seriesId)
    before.satellites.suwayomiProgress after.satellites.suwayomiProgress
  canonicalLibrary : Spares (Gone before.db) on?
    before.db.canonicalLibrary after.db.canonicalLibrary
  canonicalProgress : Spares (Gone before.db) on?
    before.db.canonicalProgress after.db.canonicalProgress
  reviews : Spares (Gone before.db) on? before.db.reviews after.db.reviews
  comments : Spares (Gone before.db) on? before.db.comments after.db.comments
  userActivity : Spares (Gone before.db) on? before.db.userActivity after.db.userActivity
  notifications : Spares (Gone before.db) on?
    before.db.notifications after.db.notifications

/-- Nothing is left that names a foreign series or a deleted work. -/
structure LeavesNothing (before after : Tables) : Prop where
  userLibrary : NamesNone (Gone before.db) on? after.db.userLibrary
  suwayomiProgress : NamesNone (Gone before.db) (some ∘ SuwayomiProgress.seriesId)
    after.satellites.suwayomiProgress
  canonicalProgress : NamesNone (Gone before.db) on? after.db.canonicalProgress
  reviews : NamesNone (Gone before.db) on? after.db.reviews
  comments : NamesNone (Gone before.db) on? after.db.comments
  notifications : NamesNone (Gone before.db) on? after.db.notifications
  seriesAdmin : NamesNone (Gone before.db) (some ∘ SeriesAdmin.seriesId)
    after.satellites.seriesAdmin
  seriesScanState : NamesNone (Gone before.db) (some ∘ ScanState.seriesId)
    after.satellites.seriesScanState
  seriesViews : NamesNone (Gone before.db) on? after.db.seriesViews
  seriesViewBucket : NamesNone (Gone before.db) on? after.db.seriesViewBucket
  candidateMappings : ∀ c ∈ after.db.mergeCandidate, ∀ m ∈ before.db.sourceSeries,
    m.id = c.sourceSeriesId → ¬OfForeign before.db m
  candidateWorks : NamesNone (Gone before.db) on? after.db.mergeCandidate
  redirectsFrom : NamesNone (Gone before.db) (some ∘ WorkRedirect.oldId)
    after.db.workRedirect
  redirectsTo : NamesNone (Gone before.db) (some ∘ WorkRedirect.newId)
    after.db.workRedirect

/-- Nothing is left of the tables that name a series by its number, nor of the
candidates, that names one of these; redirects stay. -/
structure Swept (before after : Tables) : Prop where
  userLibrary : NamesNone (SeriesGone before.db) on? after.db.userLibrary
  suwayomiProgress : NamesNone (SeriesGone before.db) (some ∘ SuwayomiProgress.seriesId)
    after.satellites.suwayomiProgress
  seriesAdmin : NamesNone (SeriesGone before.db) (some ∘ SeriesAdmin.seriesId)
    after.satellites.seriesAdmin
  seriesScanState : NamesNone (SeriesGone before.db) (some ∘ ScanState.seriesId)
    after.satellites.seriesScanState
  seriesViews : NamesNone (SeriesGone before.db) on? after.db.seriesViews
  seriesViewBucket : NamesNone (SeriesGone before.db) on? after.db.seriesViewBucket
  candidateMappings : ∀ c ∈ after.db.mergeCandidate, ∀ m ∈ before.db.sourceSeries,
    m.id = c.sourceSeriesId → ¬OfForeign before.db m
  candidateWorks : NamesNone (Orphaned before.db) on? after.db.mergeCandidate
  redirects : after.db.workRedirect = before.db.workRedirect

/-- What is to hold of each step of a purge, `Clean` being what its success
leaves behind. -/
structure PurgesExactly (Clean : Tables → Tables → Prop) (rules : Rules) (s : PurgeState)
    (act : Act) : Prop where
  success : ∀ seriesIds, s.outcome act = some (.returned seriesIds) →
    Deleted s.tables seriesIds (s.step rules act).tables ∧
      Clean s.tables (s.step rules act).tables
  /-- A failure leaves the database as it was. -/
  failure : s.outcome act = some .failed → (s.step rules act).tables = s.tables
  /-- A second run deletes nothing. -/
  again : ∀ seriesIds, s.outcome act = some (.returned seriesIds) →
    (s.step rules act).outcome (.check false) = some (.returned []) ∧
      ((s.step rules act).step rules (.check false)).tables = (s.step rules act).tables

section Transaction

variable {rules : Rules} {s : PurgeState} {t t' : Tables} {seriesIds : List Int}

/-- A purge that finds nothing deletes nothing, and that is what it is to
delete. -/
theorem deleted_refl (h : nonEnglish t.db = []) : Deleted t [] t where
  nodup := List.nodup_nil
  returned i := by rw [← mem_nonEnglish, h]
  series r := ⟨fun hr => ⟨hr, not_foreign_of_nil h hr⟩, And.left⟩
  mappings m := (and_iff_left (not_ofForeign_of_nil h m)).symm
  works w := (and_iff_left (not_orphaned_of_nil h w.id)).symm
  chapters c := (and_iff_left fun m _ _ => not_ofForeign_of_nil h m).symm
  cachedChapters c := (and_iff_left fun r hr _ => not_foreign_of_nil h hr).symm
  userLibrary := .refl _
  suwayomiProgress := .refl _
  canonicalLibrary := .refl _
  canonicalProgress := .refl _
  reviews := .refl _
  comments := .refl _
  userActivity := .refl _
  notifications := .refl _

/-- A purge that finds nothing has nothing to sweep. -/
theorem swept_refl (h : nonEnglish t.db = []) : Swept t t where
  userLibrary _ _ id _ := not_seriesGone_of_nil h id
  suwayomiProgress _ _ id _ := not_seriesGone_of_nil h id
  seriesAdmin _ _ id _ := not_seriesGone_of_nil h id
  seriesScanState _ _ id _ := not_seriesGone_of_nil h id
  seriesViews _ _ id _ := not_seriesGone_of_nil h id
  seriesViewBucket _ _ id _ := not_seriesGone_of_nil h id
  candidateMappings _ _ m _ _ := not_ofForeign_of_nil h m
  candidateWorks _ _ id _ := not_orphaned_of_nil h id
  redirects := rfl

/-- The column of a delete by series number. -/
theorem spares_keys {ρ : Type} [Keyed ρ] {column : ρ → Id} {db : Db} (t : Table ρ) :
    Spares (Gone db) (some ∘ column) t
      (t.deleteWhere fun r => ((nonEnglish db).map toString).contains (column r)) :=
  .deleteWhere fun r hr => ⟨column r, rfl, .inl (contains_keys_iff.mp hr)⟩

/-- After such a delete no row of the table names a purged series. -/
theorem namesNone_keys {ρ : Type} [Keyed ρ] {column : ρ → Id} {db : Db} (t : Table ρ) :
    NamesNone (SeriesGone db) (some ∘ column)
      (t.deleteWhere fun r => ((nonEnglish db).map toString).contains (column r)) := by
  refine .deleteWhere fun r id hcolumn hgone => ?_
  cases hcolumn
  exact contains_keys_iff.mpr hgone

/-- The mappings after the delete of the foreign ones and the cascade from the
orphaned works: the cascade finds none. -/
theorem mem_mappings_purged {db : Db} {m : SourceSeries} :
    m ∈ (db.sourceSeries.deleteWhere (purges ((nonEnglish db).map toString))).deleteWhere
        (fun r => orphanedBy db ((nonEnglish db).map toString) r.workId) ↔
      m ∈ db.sourceSeries ∧ ¬OfForeign db m := by
  rw [Table.mem_deleteWhere, Table.mem_deleteWhere, ← Bool.not_eq_true,
    ← Bool.not_eq_true, purges_iff, orphanedBy_iff]
  refine ⟨And.left, fun h => ⟨h, fun horphan => ?_⟩⟩
  exact h.2 (horphan.2 m h.1 rfl)

/-- And the chapters: only those of the foreign mappings go. -/
theorem mem_chapters_purged {db : Db} {c : Chapter} :
    c ∈ (db.chapter.deleteWhere fun c => db.sourceSeries.rows.any fun r =>
          purges ((nonEnglish db).map toString) r && r.id = c.sourceSeriesId).deleteWhere
        (fun c => (db.sourceSeries.deleteWhere
          (purges ((nonEnglish db).map toString))).rows.any fun r =>
            orphanedBy db ((nonEnglish db).map toString) r.workId &&
              r.id = c.sourceSeriesId) ↔
      c ∈ db.chapter ∧ ∀ m ∈ db.sourceSeries, m.id = c.sourceSeriesId →
        ¬OfForeign db m := by
  have hcascade : (db.sourceSeries.deleteWhere
      (purges ((nonEnglish db).map toString))).rows.any (fun r =>
        orphanedBy db ((nonEnglish db).map toString) r.workId &&
          r.id = c.sourceSeriesId) = false := by
    rw [List.any_eq_false]
    intro m hm hgone
    obtain ⟨hm, hstays⟩ := Table.mem_deleteWhere.mp hm
    have horphan := orphanedBy_iff.mp (Bool.and_eq_true_iff.mp hgone).1
    rw [purges_iff.mpr (horphan.2 m hm rfl)] at hstays
    contradiction
  rw [Table.mem_deleteWhere, Table.mem_deleteWhere, and_iff_left hcascade,
    List.any_eq_false]
  refine and_congr_right fun _ => forall_congr' fun m => forall_congr' fun _ => ?_
  rw [Bool.and_eq_true, decide_eq_true_eq, purges_iff, not_and, imp_not_comm]

/-- The numbers of foreign series, as numbers. -/
theorem contains_ids_iff {db : Db} {i : Int} :
    (nonEnglish db).contains i = true ↔ ∃ r ∈ db.suwayomiSeries, Foreign r ∧ r.id = i :=
  List.contains_iff_mem.trans mem_nonEnglish

/-- A series is known by its number. -/
theorem series_eq {table : Table SuwayomiSeries} {a b : SuwayomiSeries} (ha : a ∈ table)
    (hb : b ∈ table) (hid : a.id = b.id) : a = b :=
  Table.eq_of_clash ha hb (decide_eq_true hid)

/-- The transaction returns the numbers it has purged. -/
theorem purge_ids {db db' : Db} (hok : purgeForeignLanguageSuwayomi db =
    .ok (seriesIds, db')) : seriesIds = nonEnglish db := by
  unfold purgeForeignLanguageSuwayomi at hok
  dsimp only at hok
  split at hok
  · next hnone =>
      cases hok
      exact hnone.symm
  · cases hok
    rfl

/-- The transaction finds nothing, or it purges the catalogue and sweeps the
satellites. -/
theorem purge_cases (hok : purge t = .ok (seriesIds, t')) :
    (nonEnglish t.db = [] ∧ seriesIds = [] ∧ t' = t) ∨
      nonEnglish t.db ≠ [] ∧ seriesIds = nonEnglish t.db ∧
        ∃ db, purgeForeignLanguageSuwayomi t.db = .ok (nonEnglish t.db, db) ∧
          t' = ⟨db, deleteSatellites (nonEnglish t.db) t.satellites⟩ := by
  unfold purge at hok
  split at hok
  · contradiction
  · next ids db hdb =>
      have hids : ids = nonEnglish t.db := purge_ids hdb
      subst hids
      split at hok
      · next hnone =>
          cases hok
          exact .inl ⟨hnone, rfl, rfl⟩
      · next hsome =>
          cases hok
          exact .inr ⟨hsome, rfl, db, hdb, rfl⟩

/-- The transaction deletes its targets, and nothing else. -/
theorem deleted_purge (hok : purge t = .ok (seriesIds, t')) : Deleted t seriesIds t' := by
  rcases purge_cases hok with ⟨hnone, rfl, rfl⟩ | ⟨hsome, rfl, db, hdb, rfl⟩
  · exact deleted_refl hnone
  · unfold purgeForeignLanguageSuwayomi at hdb
    dsimp only at hdb
    rw [if_neg hsome] at hdb
    cases hdb
    exact {
      nodup := nodup_nonEnglish
      returned := fun i => mem_nonEnglish
      series := fun r => by
        refine Table.mem_deleteWhere.trans (and_congr_right fun hr => ?_)
        rw [← Bool.not_eq_true, contains_ids_iff]
        exact not_congr ⟨fun ⟨r', hr', hforeign, hid⟩ =>
          series_eq hr' hr hid ▸ hforeign, fun hforeign => ⟨r, hr, hforeign, rfl⟩⟩
      mappings := fun m => mem_mappings_purged
      works := fun w => by
        refine Table.mem_deleteWhere.trans (and_congr_right fun _ => ?_)
        rw [← Bool.not_eq_true, orphanedBy_iff]
      chapters := fun c => mem_chapters_purged
      cachedChapters := fun c => by
        refine Table.mem_deleteWhere.trans (and_congr_right fun _ => ?_)
        rw [← Bool.not_eq_true, contains_ids_iff]
        grind
      userLibrary := spares_keys _
      suwayomiProgress := spares_keys _
      canonicalLibrary := .deleteWhere fun r hr =>
        ⟨r.workId, rfl, .inr (orphanedBy_iff.mp hr)⟩
      canonicalProgress := .refl _
      reviews := .refl _
      comments := .refl _
      userActivity := .refl _
      notifications := .refl _ }

/-- What the delete of the candidates without a mapping leaves. -/
theorem candidates_purged {db : Db} {candidates : Table MergeCandidate}
    {mappings : Table SourceSeries}
    (hmappings : ∀ m, m ∈ mappings ↔ m ∈ db.sourceSeries ∧ ¬OfForeign db m) :
    ∀ c ∈ candidates.deleteWhere fun c =>
        !mappings.rows.any fun r => r.id = c.sourceSeriesId,
      ∀ m ∈ db.sourceSeries, m.id = c.sourceSeriesId → ¬OfForeign db m := by
  intro c hc m hm hid
  have hkept := (Table.mem_deleteWhere.mp hc).2
  rw [Bool.not_eq_false', List.any_eq_true] at hkept
  obtain ⟨r, hr, hrid⟩ := hkept
  obtain ⟨hold, hstays⟩ := (hmappings r).mp hr
  have hsame : m = r := Table.eq_of_clash hm hold
    (decide_eq_true (.inl (hid.trans (of_decide_eq_true hrid).symm)))
  rw [hsame]
  exact hstays

/-- The transaction sweeps what names a series by its number. -/
theorem swept_purge (hok : purge t = .ok (seriesIds, t')) : Swept t t' := by
  rcases purge_cases hok with ⟨hnone, rfl, rfl⟩ | ⟨hsome, rfl, db, hdb, rfl⟩
  · exact swept_refl hnone
  · unfold purgeForeignLanguageSuwayomi at hdb
    dsimp only at hdb
    rw [if_neg hsome] at hdb
    cases hdb
    exact {
      userLibrary := namesNone_keys _
      suwayomiProgress := namesNone_keys _
      seriesAdmin := namesNone_keys _
      seriesScanState := namesNone_keys _
      seriesViews := namesNone_keys _
      seriesViewBucket := namesNone_keys _
      candidateMappings := candidates_purged fun m => mem_mappings_purged
      candidateWorks := by
        refine NamesNone.of_subset (NamesNone.deleteWhere ?_)
          fun c hc => (Table.mem_deleteWhere.mp hc).1
        intro c id hcolumn horphan
        cases hcolumn
        exact orphanedBy_iff.mpr horphan
      redirects := rfl }

/-- The transaction has no error of its own. -/
theorem purge_total (t : Tables) : ∃ seriesIds t', purge t = .ok (seriesIds, t') := by
  unfold purge purgeForeignLanguageSuwayomi
  dsimp only
  split
  · next h =>
      split at h <;> contradiction
  · split
    · exact ⟨_, _, rfl⟩
    · exact ⟨_, _, rfl⟩

/-- There is no foreign series after a purge. -/
theorem nonEnglish_purge (hok : purge t = .ok (seriesIds, t')) : nonEnglish t'.db = [] := by
  rw [List.eq_nil_iff_forall_not_mem]
  intro i hi
  obtain ⟨r, hr, hforeign, -⟩ := mem_nonEnglish.mp hi
  exact (((deleted_purge hok).series r).mp hr).2 hforeign

end Transaction
/-! ## Runs -/

section Runs

variable {rules : Rules} {s : PurgeState}

/-- Once drained, the check before the lock is all that a run does. -/
theorem check_of_drained (h : nonEnglish s.catalog.db = []) :
    s.outcome (.check false) = some (.returned []) ∧
      (s.step rules (.check false)).tables = s.tables := by
  refine ⟨?_, rfl⟩
  simp [PurgeState.outcome, h]

/-- A step that ends no purge. -/
theorem PurgesExactly.of_none {Clean : Tables → Tables → Prop} {act : Act}
    (h : s.outcome act = none) : PurgesExactly Clean rules s act where
  success _ hreturned := by
    rw [h] at hreturned
    cases hreturned
  failure hfailed := by
    rw [h] at hfailed
    cases hfailed
  again _ hreturned := by
    rw [h] at hreturned
    cases hreturned

/-- A purge that fails leaves the tables as they were. -/
theorem PurgesExactly.of_failed {Clean : Tables → Tables → Prop} {act : Act}
    (h : s.outcome act = some .failed) (hsame : (s.step rules act).tables = s.tables) :
    PurgesExactly Clean rules s act where
  success _ hreturned := by
    rw [h] at hreturned
    cases hreturned
  failure _ := hsame
  again _ hreturned := by
    rw [h] at hreturned
    cases hreturned

theorem PurgesExactly.of_returned {Clean : Tables → Tables → Prop} {act : Act}
    {seriesIds : List Int} (h : s.outcome act = some (.returned seriesIds))
    (hdeleted : Deleted s.tables seriesIds (s.step rules act).tables)
    (hclean : Clean s.tables (s.step rules act).tables)
    (hdrained : nonEnglish (s.step rules act).catalog.db = []) :
    PurgesExactly Clean rules s act where
  success _ hreturned := by
    rw [h] at hreturned
    cases hreturned
    exact ⟨hdeleted, hclean⟩
  failure hfailed := by
    rw [h] at hfailed
    cases hfailed
  again _ _ := check_of_drained hdrained

/-- The check deletes nothing, whatever it finds. -/
theorem purgesExactly_check (fails : Bool) :
    PurgesExactly Swept rules s (.check fails) := by
  cases fails with
  | true => exact .of_failed rfl rfl
  | false =>
      by_cases hnone : nonEnglish s.catalog.db = []
      · have hreturned : s.outcome (.check false) = some (.returned []) := by
          simp [PurgeState.outcome, hnone]
        exact .of_returned hreturned (deleted_refl hnone) (swept_refl hnone) hnone
      · refine .of_none ?_
        simp [PurgeState.outcome, hnone]

/-- The transaction deletes its targets, or fails. -/
theorem purgesExactly_transact (fails : Bool) :
    PurgesExactly Swept rules s (.transact fails) := by
  cases hchecked : s.checked with
  | false =>
      refine .of_none ?_
      simp [PurgeState.outcome, hchecked]
  | true =>
      cases fails with
      | true =>
          have hrollback : s.step rules (.transact true) = { s with checked := false } := by
            simp [PurgeState.step, hchecked]
          refine .of_failed ?_ (by rw [hrollback]; rfl)
          simp [PurgeState.outcome, hchecked]
      | false =>
          obtain ⟨seriesIds, t, hok⟩ := purge_total s.tables
          have hcommit : s.step rules (.transact false) = s.commit t := by
            simp [PurgeState.step, hchecked, hok, Except.toOption]
          have hafter : (s.step rules (.transact false)).tables = t := by
            rw [hcommit]
            rfl
          have hreturned : s.outcome (.transact false) = some (.returned seriesIds) := by
            simp [PurgeState.outcome, hchecked, hok, Except.toOption]
          refine .of_returned hreturned ?_ ?_ ?_
          · rw [hafter]
            exact deleted_purge hok
          · rw [hafter]
            exact swept_purge hok
          · rw [hcommit]
            exact nonEnglish_purge hok

theorem purgesExactly_step (rules : Rules) (s : PurgeState) (act : Act) :
    PurgesExactly Swept rules s act := by
  cases act with
  | beside op => exact .of_none rfl
  | write satellites => exact .of_none rfl
  | check fails => exact purgesExactly_check fails
  | transact fails => exact purgesExactly_transact fails

end Runs

/-- **What the purge deletes.**  From any database and beside any writers of
the catalogue, a purge that succeeds deletes the foreign series, their mappings
and the works that have no others, and of the rows that name them those that do
so by a series' number; one that fails deletes nothing, and so does a second
one. -/
theorem purges_exactly (rules : Rules) (s : PurgeState) (acts : List Act) :
    Machine.EachStep (PurgeState.step rules) (PurgesExactly Swept rules) s acts :=
  Machine.EachStep.of_invariant (I := fun _ => True) (fun _ _ _ _ => trivial)
    (fun s act _ _ => purgesExactly_step rules s act) trivial
    (Machine.eachStep_of_forall (P := fun _ => True) fun _ _ => trivial)

/-! ## A work that was merged into

A redirect is not swept, and neither are the tables that name a work. -/

/-- A work that another was merged into, and whose one mapping is foreign. -/
def japaneseWork : List Op :=
  [.createWork "w" (titled "dawn"), .createWork "v" (titled "dusk"),
    .mergeWorks "v" "w" none,
    .upsertSourceSeries "s1" "w" "suwayomi" "mangasee" "7" none false "t1",
    .cacheSeries
      { id := 7, title := "yoake", author := none, artist := none, description := none
        status := "ONGOING", lang := some "ja" }]

/-- A reader has the work in the library, and has written a review of the
series. -/
def withReader (db : Db) : Db :=
  { db with
    userLibrary := Table.empty.insertOrIgnore ⟨"u", "w", "t2", none, false⟩
    canonicalProgress := Table.empty.insertOrIgnore ⟨"u", "c1", "w", 3, false, "t2"⟩
    reviews := Table.empty.insertOrIgnore ⟨"r1", "7", "u", 8, "fine", false⟩
    comments := Table.empty.insertOrIgnore ⟨"m1", .series, "7", "u", "fine", false, none⟩
    notifications := Table.empty.insertOrIgnore
      ⟨"n1", "u", "reply", some "m1", some .series, some "7", none⟩
    seriesViews := Table.empty.insertOrIgnore ⟨"w", 5, "t2"⟩ }

/-- The state before the purge. -/
def japaneseState : PurgeState where
  catalog :=
    { reach plainRules japaneseWork with
      db := withReader (reach plainRules japaneseWork).db }
  satellites := ⟨.empty, .empty, .empty, .empty⟩
  checked := false

theorem orphaned_japaneseWork : Gone japaneseState.tables.db "w" := by
  refine .inr (orphanedBy_iff.mp ?_)
  decide +kernel

theorem gone_japaneseSeries : Gone japaneseState.tables.db "7" := by
  refine .inl (contains_keys_iff.mp ?_)
  decide +kernel

/-- The tables after it. -/
def japanesePurged : Tables :=
  (Machine.run (PurgeState.step plainRules) japaneseState
    [.check false, .transact false]).tables

/-- The redirect still leads to the work that was deleted, and with it the
reader's rows that name the work, and those that name the series in tables that
are not swept. -/
theorem not_purges_exactly_leaves_nothing :
    ¬Machine.EachStep (PurgeState.step plainRules) (PurgesExactly LeavesNothing plainRules)
        japaneseState [.check false, .transact false] ∧
      ¬NamesNone (Gone japaneseState.tables.db) (some ∘ WorkRedirect.newId)
        japanesePurged.db.workRedirect ∧
      ¬NamesNone (Gone japaneseState.tables.db) on? japanesePurged.db.userLibrary ∧
      ¬NamesNone (Gone japaneseState.tables.db) on? japanesePurged.db.seriesViews ∧
      ¬NamesNone (Gone japaneseState.tables.db) on? japanesePurged.db.canonicalProgress ∧
      ¬NamesNone (Gone japaneseState.tables.db) on? japanesePurged.db.reviews ∧
      ¬NamesNone (Gone japaneseState.tables.db) on? japanesePurged.db.comments ∧
      ¬NamesNone (Gone japaneseState.tables.db) on? japanesePurged.db.notifications := by
  have hredirect : ¬NamesNone (Gone japaneseState.tables.db) (some ∘ WorkRedirect.newId)
      japanesePurged.db.workRedirect := by
    intro h
    have hmem : (⟨"v", "w"⟩ : WorkRedirect) ∈ japanesePurged.db.workRedirect.rows := by
      decide +kernel
    exact h _ hmem "w" rfl orphaned_japaneseWork
  refine ⟨fun h => ?_, hredirect, fun h => ?_, fun h => ?_, fun h => ?_, fun h => ?_,
    fun h => ?_, fun h => ?_⟩
  · have hlast : PurgesExactly LeavesNothing plainRules
        (Machine.run (PurgeState.step plainRules) japaneseState [.check false])
        (.transact false) := h.2.1
    have hreturned : (Machine.run (PurgeState.step plainRules) japaneseState
        [.check false]).outcome (.transact false) = some (.returned [7]) := by
      decide +kernel
    exact hredirect (hlast.success [7] hreturned).2.redirectsTo
  · have hmem : (⟨"u", "w", "t2", none, false⟩ : UserLibrary) ∈
        japanesePurged.db.userLibrary.rows := by decide +kernel
    exact h _ hmem "w" rfl orphaned_japaneseWork
  · have hmem : (⟨"w", 5, "t2"⟩ : SeriesViews) ∈ japanesePurged.db.seriesViews.rows := by
      decide +kernel
    exact h _ hmem "w" rfl orphaned_japaneseWork
  · have hmem : (⟨"u", "c1", "w", 3, false, "t2"⟩ : CanonicalProgress) ∈
        japanesePurged.db.canonicalProgress.rows := by decide +kernel
    exact h _ hmem "w" rfl orphaned_japaneseWork
  · have hmem : (⟨"r1", "7", "u", 8, "fine", false⟩ : Review) ∈
        japanesePurged.db.reviews.rows := by decide +kernel
    exact h _ hmem "7" rfl gone_japaneseSeries
  · have hmem : (⟨"m1", .series, "7", "u", "fine", false, none⟩ : Comment) ∈
        japanesePurged.db.comments.rows := by decide +kernel
    exact h _ hmem "7" rfl gone_japaneseSeries
  · have hmem : (⟨"n1", "u", "reply", some "m1", some .series, some "7", none⟩ :
        Notification) ∈ japanesePurged.db.notifications.rows := by decide +kernel
    exact h _ hmem "7" rfl gone_japaneseSeries

end Komika.Catalog.ForeignPurge
