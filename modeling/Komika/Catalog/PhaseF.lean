import Komika.Catalog.Runs
import Komika.Lib.Forwarding
import Komika.Scan.Schema

/-!
# The last step of Phase F

`phase_f.rs`: the extension `all.mangadex` mirrors MangaDex, and where a work
has the MangaDex entry itself the mapping through the extension is a duplicate.
`classify` finds what each such mapping is, `gate` refuses the whole step when
one of them is not proven, and `delete_redundant` deletes the proven, one
transaction each.

The step is modelled as its reads and its transactions, one at a time, with
steps of merges and splits anywhere in between.

`isClean_gate_iff` says what a gate that lets the step through has checked: every row,
and that it is proven.  The rest of the module is definitions; what the step deletes is
in `PhaseFRuns`.
-/

namespace Komika.Catalog.PhaseF

open Komika.Lib
open Komika.Catalog.Schema Komika.Catalog.Database Komika.Catalog.Ingest
open Komika.Catalog.Ledger Komika.Catalog.Merge Komika.Catalog.Split
open Komika.Catalog.Runs
open Komika.Scan.Schema (ScanState)

/-- `ALL_MANGADEX_PKG`, the extension whose rows duplicate the native ones. -/
def allMangadexPkg : String := "eu.kanade.tachiyomi.extension.all.mangadex"

/-- `is_retired_pkg`: the extension that the official site has replaced. -/
def isRetiredPkg (pkg : String) : Bool := pkg == allMangadexPkg

/-- `DELETE_CONFIRM_TOKEN`, without which a pass only reports. -/
def deleteConfirmToken : String := "yes-delete-all-mangadex-rows"

/-- Whether the step is to write, or only to report. -/
inductive Apply where
  | no
  | yes
deriving DecidableEq, Repr

/-- Which extension a source belongs to. -/
structure SourceExtension where
  sourceId : String
  pkgName : String
deriving DecidableEq, Repr

instance : Keyed SourceExtension := .ofKey SourceExtension.sourceId

/-- A row of `all_mangadex_uuid`, which outlives the mapping it is about. -/
structure AllMangadexUuid where
  sourceSeriesId : Id
  mangadexUuid : String
  disposition : Option String
  disposedAt : Option String
deriving DecidableEq, Repr

instance : Keyed AllMangadexUuid := .ofKey AllMangadexUuid.sourceSeriesId

/-- A classified row, with what only the report and the delete read. -/
structure ClassifiedRow extends Ledger.ClassifiedRow where
  suwayomiKey : String
  chapters : Int
  disposition : Option String
deriving DecidableEq, Repr

/-- A row that is not proven, with what is known about it. -/
structure GateFailure where
  sourceSeriesId : Id
  workId : Id
  mangadexUuid : Option String
  verdict : Verdict
  chapters : Int
  uuidOwnerWork : Option Id
deriving DecidableEq, Repr

/-- What the gate found. -/
structure GateReport where
  passed : Nat
  failures : List GateFailure
  chaptersAtRisk : Int
deriving DecidableEq, Repr

/-- What the step did, or would have done. -/
structure DeleteReport where
  deletable : Nat
  deleted : Nat
  cascadingChapters : Int
  withheldSplit : Nat
  scanStates : Nat
  gate : GateReport
deriving DecidableEq, Repr

/-! ## Classification

A mapping through the extension is redundant if its work has the MangaDex mapping with
the same uuid; a redirect does not make it another work. -/

/-- `resolved`: the survivor of a work. -/
def resolved (db : Db) (workId : Id) : Id :=
  Forwarding.home (redirectWorkId db) workId

/-- `all_mangadex_source_ids`: the sources of that extension, in the order of their
ids. -/
def allMangadexSourceIds (extensions : Table SourceExtension) : List String :=
  ((extensions.rows.filter fun e => e.pkgName = allMangadexPkg).map
    SourceExtension.sourceId).insertionSort (· ≤ ·)

/-- The mapping is on `rw`, or on a work that leads there. -/
def sameWork (db : Db) (rw : Id) (a : SourceSeries) : Bool :=
  a.workId = rw ||
    db.workRedirect.rows.any fun r => r.oldId = a.workId && r.newId = rw

/-- The MangaDex mappings of a work. -/
def directAnchors (db : Db) (rw : Id) : List SourceSeries :=
  db.sourceSeries.rows.filter fun a => a.sourceType = "mangadex" && sameWork db rw a

/-- The UUID that was recorded for a mapping. -/
def recorded (uuids : Table AllMangadexUuid) (m : SourceSeries) :
    Option AllMangadexUuid :=
  uuids.rows.find? fun u => u.sourceSeriesId = m.id

/-- One row of the `SELECT` of `classify`. -/
def classifyRow (db : Db) (uuids : Table AllMangadexUuid) (m : SourceSeries) :
    ClassifiedRow :=
  let rw := resolved db m.workId
  let uuid := (recorded uuids m).map AllMangadexUuid.mangadexUuid
  { sourceSeriesId := m.id
    workId := rw
    mangadexUuid := uuid
    anchorCount := (directAnchors db rw).length
    uuidMatchesAnchor := (directAnchors db rw).any fun a => uuid = some a.sourceKey
    uuidOwnerWork := (db.sourceSeries.rows.find? fun o =>
      o.sourceType = "mangadex" && uuid = some o.sourceKey).map fun o =>
        resolved db o.workId
    suwayomiKey := m.sourceKey
    chapters := db.chapter.rows.countP fun c => c.sourceSeriesId = m.id
    disposition := (recorded uuids m).bind AllMangadexUuid.disposition }

/-- The mapping goes through the extension. -/
def mirrored (extensions : Table SourceExtension) (m : SourceSeries) : Bool :=
  m.sourceType = "suwayomi" && (allMangadexSourceIds extensions).contains m.sourceId

/-- `classify`: its mappings, each with the verdict on it, in the order of their ids. -/
def classify (db : Db) (extensions : Table SourceExtension)
    (uuids : Table AllMangadexUuid) : List ClassifiedRow :=
  ((db.sourceSeries.rows.filter (mirrored extensions)).insertionSort
    fun a b => a.id ≤ b.id).map (classifyRow db uuids)

/-! ## The gate

Every row is looked at, and one that is not proven is a failure. -/

/-- Nothing has been looked at. -/
def GateReport.empty : GateReport := ⟨0, [], 0⟩

/-- `is_clean`: no check of the gate has failed. -/
def GateReport.isClean (report : GateReport) : Bool := report.failures.isEmpty

/-- The loop body of `gate`. -/
def GateReport.add (report : GateReport) (r : ClassifiedRow) : GateReport :=
  if r.verdict = .redundant then { report with passed := report.passed + 1 }
  else
    { report with
      chaptersAtRisk := report.chaptersAtRisk + r.chapters
      failures := report.failures ++
        [⟨r.sourceSeriesId, r.workId, r.mangadexUuid, r.verdict, r.chapters,
          r.uuidOwnerWork⟩] }

/-- `gate`, on the rows it classifies. -/
def gate (rows : List ClassifiedRow) : GateReport :=
  rows.foldl GateReport.add .empty

/-- A gate is clean when every row is proven. -/
theorem isClean_gate_iff (rows : List ClassifiedRow) :
    (gate rows).isClean = true ↔ ∀ r ∈ rows, r.verdict = .redundant := by
  have hfold : ∀ report : GateReport, (rows.foldl GateReport.add report).isClean = true ↔
      report.isClean = true ∧ ∀ r ∈ rows, r.verdict = .redundant := by
    induction rows with
    | nil => simp
    | cons r rows ih =>
        intro report
        rw [List.foldl_cons, ih, List.forall_mem_cons, ← and_assoc]
        refine and_congr_left fun _ => ?_
        by_cases hr : r.verdict = .redundant
        · simp [GateReport.add, GateReport.isClean, hr]
        · simp [GateReport.add, GateReport.isClean, hr]
  rw [gate, hfold]
  exact and_iff_right rfl

/-! ## What is to be deleted

The rows to delete, and what is counted about those that are not. -/

/-- The arguments of `delete_redundant`. -/
structure Request where
  apply : Apply
  confirm : Option String
  includeSplit : Bool
deriving DecidableEq, Repr

/-- Both opt-ins were given. -/
def Request.confirmed (request : Request) : Bool :=
  request.apply = .yes && request.confirm = some deleteConfirmToken

/-- The loop body that picks the targets. -/
def pick (includeSplit : Bool) (acc : DeleteReport × List ClassifiedRow)
    (r : ClassifiedRow) : DeleteReport × List ClassifiedRow :=
  if r.verdict ≠ .redundant then acc
  else if r.disposition = some "split" && !includeSplit then
    ({ acc.1 with withheldSplit := acc.1.withheldSplit + 1 }, acc.2)
  else
    ({ acc.1 with
        deletable := acc.1.deletable + 1
        cascadingChapters := acc.1.cascadingChapters + r.chapters },
      acc.2 ++ [r])

/-- The report before the scan states are counted, and the targets. -/
def picked (includeSplit : Bool) (rows : List ClassifiedRow) (gate : GateReport) :
    DeleteReport × List ClassifiedRow :=
  rows.foldl (pick includeSplit) (⟨0, 0, 0, 0, 0, gate⟩, [])

/-- A target is one of the rows. -/
theorem mem_of_mem_picked {includeSplit : Bool} {rows : List ClassifiedRow}
    {gate : GateReport} {t : ClassifiedRow} (h : t ∈ (picked includeSplit rows gate).2) :
    t ∈ rows := by
  have hfold : ∀ acc : DeleteReport × List ClassifiedRow,
      t ∈ (rows.foldl (pick includeSplit) acc).2 → t ∈ acc.2 ∨ t ∈ rows := by
    clear h
    induction rows with
    | nil => exact fun _ => .inl
    | cons r rows ih =>
        intro acc hmem
        rcases ih _ hmem with hmem | hmem
        · unfold pick at hmem
          split at hmem
          · exact .inl hmem
          · split at hmem
            · exact .inl hmem
            · rcases List.mem_append.mp hmem with hmem | hmem
              · exact .inl hmem
              · rw [List.mem_singleton.mp hmem]
                exact .inr List.mem_cons_self
        · exact .inr (List.mem_cons_of_mem r hmem)
  exact (hfold _ h).resolve_left List.not_mem_nil

/-! ## The pass

`delete_redundant` in four steps: it classifies, reads its gate, makes its report, and
deletes one target after another. -/

/-- How far `delete_redundant` has come. -/
inductive Pass where
  | start
  /-- It has classified the rows. -/
  | classified (rows : List ClassifiedRow)
  /-- And run the gate. -/
  | gated (rows : List ClassifiedRow) (gate : GateReport)
  /-- It is in its loop of transactions. -/
  | deleting (now : String) (targets : List ClassifiedRow) (report : DeleteReport)
  | returned (report : DeleteReport)
  /-- The gate had failures: their number, and the chapters at risk. -/
  | refused (failures : Nat) (chaptersAtRisk : Int)
deriving DecidableEq, Repr

/-- The tables of the step, and how far it has come. -/
structure PhaseState where
  catalog : CatalogState
  allMangadexUuid : Table AllMangadexUuid
  sourceExtension : Table SourceExtension
  seriesScanState : Table ScanState
  pass : Pass

/-- The rows as `classify` reads them now. -/
def PhaseState.classified (s : PhaseState) : List ClassifiedRow :=
  classify s.catalog.db s.sourceExtension s.allMangadexUuid

/-- What `delete_redundant` does between its reads and its transactions. -/
def afterGate (request : Request) (now : String) (seriesScanState : Table ScanState)
    (rows : List ClassifiedRow) (gate : GateReport) : Pass :=
  let (report, targets) := picked request.includeSplit rows gate
  let keys := targets.map ClassifiedRow.suwayomiKey
  let scheduled := seriesScanState.rows.countP fun r => keys.contains r.seriesId
  if !request.confirmed then .returned { report with scanStates := scheduled }
  else if !gate.isClean then .refused gate.failures.length gate.chaptersAtRisk
  else .deleting now targets { report with scanStates := 0 }

/-- `SET disposition = 'deleted', disposed_at = ?`. -/
def dispose (now : String) (u : AllMangadexUuid) : AllMangadexUuid :=
  { u with disposition := some "deleted", disposedAt := some now }

/-- The disposition is in no key. -/
theorem dispose_keepsKeys (now : String) : Table.KeepsKeys (dispose now) :=
  fun _ _ => rfl

/-- A Suwayomi mapping has this key. -/
def claimsKey (db : Db) (sourceKey : String) : Bool :=
  db.sourceSeries.rows.any fun m =>
    m.sourceType = "suwayomi" && m.sourceKey = sourceKey

/-- The catalogue without the mapping. -/
def deleteMapping (id : Id) (catalog : CatalogState) : CatalogState :=
  { catalog with db := catalog.db.deleteSourceSeries fun m => m.id = id }

/-- `DELETE FROM series_scan_state`, unless a mapping still claims the key. -/
def unschedule (db : Db) (sourceKey : String) (t : Table ScanState) : Table ScanState :=
  if claimsKey db sourceKey then t
  else t.deleteWhere fun r => r.seriesId = sourceKey

/-- The rows that it deletes. -/
def unscheduled (db : Db) (sourceKey : String) (t : Table ScanState) : Nat :=
  if claimsKey db sourceKey then 0
  else t.rows.countP fun r => r.seriesId = sourceKey

/-- The transaction of one target. -/
def deleteRow (now : String) (t : ClassifiedRow) (targets : List ClassifiedRow)
    (report : DeleteReport) (s : PhaseState) : PhaseState :=
  let catalog := deleteMapping t.sourceSeriesId s.catalog
  { catalog := catalog
    allMangadexUuid := s.allMangadexUuid.update
      (fun u => u.sourceSeriesId = t.sourceSeriesId) (dispose now)
      (dispose_keepsKeys now)
    sourceExtension := s.sourceExtension
    seriesScanState := unschedule catalog.db t.suwayomiKey s.seriesScanState
    pass := .deleting now targets { report with
      deleted := report.deleted + 1
      scanStates := report.scanStates +
        unscheduled catalog.db t.suwayomiKey s.seriesScanState } }

/-- The calls that run beside the pass. -/
def mergesOrSplits : Op → Bool
  | .mergeWorks .. | .planSplit .. | .commitSplit .. | .splitMismatchedRow .. => true
  | _ => false

/-- The next transaction of the pass, or a merge or split in between. -/
inductive Act where
  /-- Another merge or split takes a step. -/
  | beside (op : Op) (h : mergesOrSplits op = true)
  | classify
  | gate
  | schedule (now : String)
  | delete

/-- Each read and each transaction of the pass happens on the tables as they are by
then. -/
def PhaseState.step (rules : Rules) (request : Request) (s : PhaseState) :
    Act → PhaseState
  | .beside op _ => { s with catalog := s.catalog.step rules op }
  | .classify =>
      match s.pass with
      | .start => { s with pass := .classified s.classified }
      | _ => s
  | .gate =>
      match s.pass with
      | .classified rows => { s with pass := .gated rows (PhaseF.gate s.classified) }
      | _ => s
  | .schedule now =>
      match s.pass with
      | .gated rows gate =>
          { s with pass := afterGate request now s.seriesScanState rows gate }
      | _ => s
  | .delete =>
      match s.pass with
      | .deleting now (t :: targets) report => deleteRow now t targets report s
      | .deleting _ [] report => { s with pass := .returned report }
      | _ => s

end Komika.Catalog.PhaseF
