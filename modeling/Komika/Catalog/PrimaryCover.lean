import Mathlib.Data.String.Basic
import Mathlib.Data.Prod.Lex
import Komika.Lib.Lookup
import Komika.Catalog.Integrity

/-!
# The primary cover of a work

`work_cover` holds every cover a work was ever seen with, and a flag on the one
that is primary.  Ingest adds covers and never changes one: `INSERT OR IGNORE`
leaves the row of a file that is there as it is, flag and all, and does not
look at the flags of the other files.  A merge takes the flag off the covers it
folds in when the target has a primary cover already, because two of them would
leave the order of `load_work_covers` to chance.

So a work whose primary cover changes upstream ends up with two flagged covers,
or with the flag on the old one.

* `loadWorkCovers_eq_cons` — with one flagged cover, that is the one a reader sees
  first;
* `flagged_insert`, `flaggedAlone_insert_iff` — which covers an ingest leaves flagged,
  and when that is the one it was given;
* `onePrimary_merged` — the guard of the merge;
* `onePrimary_of_settled` — runs in which every primary cover arrives;
* `not_onePrimary_moved` — a run in which one does not.
-/

namespace Komika.Catalog.PrimaryCover

open Komika.Lib Komika.Lib.Machine
open Komika.Catalog.Schema Komika.Catalog.Database Komika.Catalog.Ingest
open Komika.Catalog.Merge Komika.Catalog.Runs Komika.Catalog.Effects
open Komika.Catalog.Integrity

instance : ByKey WorkCover (Id × String) where
  key r := (r.workId, r.coverFileName)
  clash_iff _ _ := decide_eq_true_iff

/-- The cover `file` of the work is flagged. -/
def Flagged (covers : Table WorkCover) (w : Id) (file : String) : Prop :=
  (covers.lookup (w, file)).any WorkCover.isPrimary = true

instance (covers : Table WorkCover) (w : Id) (file : String) :
    Decidable (Flagged covers w file) := by
  unfold Flagged
  infer_instance

/-- Every work has at most one flagged cover. -/
def OnePrimary (covers : Table WorkCover) : Prop :=
  ∀ a ∈ covers.rows, ∀ b ∈ covers.rows, a.workId = b.workId →
    a.isPrimary = true → b.isPrimary = true → a = b

instance (covers : Table WorkCover) : Decidable (OnePrimary covers) := by
  unfold OnePrimary
  infer_instance

/-- `file` is the one flagged cover of the work. -/
structure FlaggedAlone (covers : Table WorkCover) (w : Id) (file : String) : Prop where
  flagged : Flagged covers w file
  alone : ∀ other, Flagged covers w other → other = file

section Flags

variable {covers : Table WorkCover} {w : Id} {file : String}

/-- A cover is flagged if its row is. -/
theorem flagged_iff :
    Flagged covers w file ↔
      ∃ r ∈ covers, r.workId = w ∧ r.coverFileName = file ∧ r.isPrimary = true := by
  unfold Flagged
  rw [Option.any_eq_true]
  constructor
  · rintro ⟨r, hlookup, hprimary⟩
    obtain ⟨hr, hkey⟩ := Table.lookup_eq_some.mp hlookup
    obtain ⟨hwork, hfile⟩ := Prod.mk.inj hkey
    exact ⟨r, hr, hwork, hfile, hprimary⟩
  · rintro ⟨r, hr, rfl, rfl, hprimary⟩
    exact ⟨r, Table.lookup_of_mem hr, hprimary⟩

/-- Covers of one work with one file name are one cover. -/
theorem cover_eq {a b : WorkCover} (ha : a ∈ covers) (hb : b ∈ covers)
    (hwork : a.workId = b.workId) (hfile : a.coverFileName = b.coverFileName) : a = b := by
  apply Table.eq_of_clash ha hb
  rw [ByKey.clash_iff]
  exact Prod.ext hwork hfile

/-- A work has one flagged cover if any two are of one file. -/
theorem onePrimary_iff :
    OnePrimary covers ↔
      ∀ w file other, Flagged covers w file → Flagged covers w other → file = other := by
  constructor
  · intro h w file other hfile hother
    obtain ⟨a, ha, rfl, rfl, haprimary⟩ := flagged_iff.mp hfile
    obtain ⟨b, hb, hwork, rfl, hbprimary⟩ := flagged_iff.mp hother
    rw [h a (Table.mem_rows.mpr ha) b (Table.mem_rows.mpr hb) hwork.symm haprimary hbprimary]
  · intro h a ha b hb hwork haprimary hbprimary
    rw [Table.mem_rows] at ha hb
    apply cover_eq ha hb hwork
    apply h a.workId
    · exact flagged_iff.mpr ⟨a, ha, rfl, rfl, haprimary⟩
    · exact flagged_iff.mpr ⟨b, hb, hwork.symm, rfl, hbprimary⟩

end Flags

/-! ## Loading the covers

The order in which a work's covers are listed, flagged ones first. -/

section Load

variable {κ : Type} [LinearOrder κ]

/-- `ORDER BY is_primary DESC, CAST(COALESCE(NULLIF(volume, ''), '0') AS REAL),
cover_file_name`. -/
def coverRank (castReal : String → κ) (r : WorkCover) : Bool ×ₗ κ ×ₗ String :=
  toLex (!r.isPrimary,
    toLex (castReal ((r.volume.filter fun v => v ≠ "").getD "0"), r.coverFileName))

/-- `load_work_covers`: the covers of a work, the one that is to be shown in front. -/
def loadWorkCovers (castReal : String → κ) (covers : Table WorkCover) (w : Id) : List Cover :=
  ((covers.rows.filter fun r => r.workId = w).insertionSort fun a b =>
    coverRank castReal a ≤ coverRank castReal b).map fun r =>
      ⟨r.coverFileName, r.lang, r.volume, r.isPrimary⟩

variable {castReal : String → κ} {covers : Table WorkCover} {w : Id} {file : String}

/-- What comes before a flagged cover is flagged. -/
theorem isPrimary_of_rank_le {a b : WorkCover} (h : coverRank castReal a ≤ coverRank castReal b)
    (hb : b.isPrimary = true) : a.isPrimary = true := by
  rw [coverRank, coverRank, Prod.Lex.toLex_le_toLex, hb] at h
  cases ha : a.isPrimary with
  | true => rfl
  | false =>
      rw [ha] at h
      rcases h with hlt | ⟨heq, -⟩
      · have hlt : true < false := hlt
        exact absurd hlt (by decide)
      · have heq : true = false := heq
        exact heq.symm

/-- The one flagged cover comes first, and it is the only one. -/
theorem loadWorkCovers_eq_cons (h : FlaggedAlone covers w file) :
    ∃ first others, loadWorkCovers castReal covers w = first :: others ∧
      first.fileName = file ∧ first.isPrimary = true ∧
        ∀ c ∈ others, c.isPrimary = false := by
  obtain ⟨r, hr, hwork, hfile, hprimary⟩ := flagged_iff.mp h.flagged
  have : Std.Total fun a b : WorkCover => coverRank castReal a ≤ coverRank castReal b :=
    ⟨fun a b => le_total (coverRank castReal a) (coverRank castReal b)⟩
  have : IsTrans WorkCover fun a b => coverRank castReal a ≤ coverRank castReal b :=
    ⟨fun a b c hab hbc => hab.trans hbc⟩
  have hsorted := List.pairwise_insertionSort
    (fun a b => coverRank castReal a ≤ coverRank castReal b)
    (covers.rows.filter fun r => r.workId = w)
  have hperm := List.perm_insertionSort
    (fun a b => coverRank castReal a ≤ coverRank castReal b)
    (covers.rows.filter fun r => r.workId = w)
  have hnodup := hperm.nodup_iff.mpr ((Table.nodup_rows covers).filter fun r => r.workId = w)
  have honly : ∀ x ∈ covers.rows.filter fun r => r.workId = w, x.isPrimary = true → x = r := by
    intro x hx hxprimary
    obtain ⟨hmem, hxwork⟩ := List.mem_filter.mp hx
    have hxwork : x.workId = w := of_decide_eq_true hxwork
    have hflagged := flagged_iff.mpr ⟨x, hmem, hxwork, rfl, hxprimary⟩
    exact cover_eq hmem hr (hxwork.trans hwork.symm) ((h.alone _ hflagged).trans hfile.symm)
  have hin : r ∈ covers.rows.filter fun r => r.workId = w :=
    List.mem_filter.mpr ⟨hr, decide_eq_true hwork⟩
  unfold loadWorkCovers
  generalize hlist : (covers.rows.filter fun r => r.workId = w).insertionSort
    (fun a b => coverRank castReal a ≤ coverRank castReal b) = sorted at *
  cases sorted with
  | nil => exact absurd (hperm.mem_iff.mpr hin) List.not_mem_nil
  | cons first others =>
      have hfirst : first.isPrimary = true := by
        rcases List.mem_cons.mp (hperm.mem_iff.mpr hin) with rfl | hlater
        · exact hprimary
        · exact isPrimary_of_rank_le ((List.pairwise_cons.mp hsorted).1 r hlater) hprimary
      have heq : first = r := honly first (hperm.mem_iff.mp List.mem_cons_self) hfirst
      refine ⟨_, _, rfl, heq ▸ hfile, hfirst, ?_⟩
      intro c hc
      obtain ⟨x, hx, rfl⟩ := List.mem_map.mp hc
      rw [← Bool.not_eq_true]
      intro hxprimary
      have hxr : x = r := honly x (hperm.mem_iff.mp (List.mem_cons_of_mem _ hx)) hxprimary
      exact (List.nodup_cons.mp hnodup).1 (heq.trans hxr.symm ▸ hx)

end Load

/-! ## What an insert does to the flags

`INSERT OR IGNORE` adds files and changes none. -/

/-- The rows that `insert_descriptions_and_credits` offers to `work_cover`. -/
def coverRows (w : Id) (covers : List Cover) : List WorkCover :=
  (covers.map fun c => ⟨w, c.fileName, c.lang, c.volume, c.isPrimary⟩).filter
    fun r => r.coverFileName ≠ ""

/-- The input names one primary cover at most. -/
def OnePrimaryInput (covers : List Cover) : Prop :=
  (covers.filter Cover.isPrimary).length ≤ 1

instance (covers : List Cover) : Decidable (OnePrimaryInput covers) :=
  inferInstanceAs (Decidable (_ ≤ 1))

/-- The first entry for `file` is primary, and a row can come of it. -/
def offers (covers : List Cover) (file : String) : Bool :=
  file ≠ "" && (covers.find? fun c => c.fileName = file).any Cover.isPrimary

section Insert

variable {t : Table WorkCover} {covers : List Cover} {w v : Id} {file : String} {c : Cover}

/-- The input has one primary cover. -/
theorem primary_eq (h : OnePrimaryInput covers) {d : Cover} (hc : c ∈ covers)
    (hcprimary : c.isPrimary = true) (hd : d ∈ covers) (hdprimary : d.isPrimary = true) :
    c = d := by
  have hc := List.mem_filter.mpr ⟨hc, hcprimary⟩
  have hd := List.mem_filter.mpr ⟨hd, hdprimary⟩
  unfold OnePrimaryInput at h
  match hlist : covers.filter Cover.isPrimary with
  | [] =>
      rw [hlist] at hc
      exact absurd hc List.not_mem_nil
  | [only] =>
      rw [hlist, List.mem_singleton] at hc hd
      exact hc.trans hd.symm
  | _ :: _ :: _ =>
      rw [hlist, List.length_cons, List.length_cons] at h
      omega

/-- Only the primary cover of the input is offered with the flag. -/
theorem exists_of_offers (h : offers covers file = true) :
    ∃ c ∈ covers, c.fileName = file ∧ c.isPrimary = true := by
  unfold offers at h
  rw [Bool.and_eq_true, Option.any_eq_true] at h
  obtain ⟨c, hfind, hprimary⟩ := h.2
  exact ⟨c, List.mem_of_find?_eq_some hfind, by simpa using List.find?_some hfind, hprimary⟩

/-- What the input offers under a file name is its first entry for that file. -/
theorem find?_coverRows :
    ((coverRows w covers).find? fun r => key r = (v, file)) =
      if v = w ∧ file ≠ "" then
        (covers.find? fun c => c.fileName = file).map fun c =>
          ⟨w, c.fileName, c.lang, c.volume, c.isPrimary⟩
      else none := by
  unfold coverRows
  rw [List.find?_filter, List.find?_map]
  by_cases hw : v = w ∧ file ≠ ""
  · rw [if_pos hw]
    congr 2
    funext c
    obtain ⟨rfl, hfile⟩ := hw
    by_cases hc : c.fileName = file
    · simp [key, hc, hfile]
    · simp [key, hc]
  · rw [if_neg hw, Option.map_eq_none_iff, List.find?_eq_none]
    intro c hc hfound
    apply hw
    simp [key] at hfound
    grind

/-- A file is flagged after the insert if it was before, or is new and offered
with the flag. -/
theorem flagged_insert :
    Flagged (t.insertAllOrIgnore (coverRows w covers)) v file ↔
      Flagged t v file ∨ (t.lookup (v, file) = none ∧ v = w ∧ offers covers file = true) := by
  unfold Flagged
  rw [Table.lookup_insertAllOrIgnore, find?_coverRows]
  cases hlookup : t.lookup (v, file) with
  | some r => simp
  | none =>
      by_cases hw : v = w ∧ file ≠ ""
      · obtain ⟨rfl, hfile⟩ := hw
        simp [offers, hfile, Option.any_map]
      · rw [if_neg hw]
        simp [offers]
        grind

/-- What the input says of its primary cover comes through: the cover is on
record with the flag, or it is new and the first entry of its file. -/
def Arrives (t : Table WorkCover) (w : Id) (covers : List Cover) (file : String) : Prop :=
  Flagged t w file ∨ (t.lookup (w, file) = none ∧ offers covers file = true)

instance : Decidable (Arrives t w covers file) :=
  inferInstanceAs (Decidable (_ ∨ _))

/-- The primary cover of the input is the one flagged afterwards exactly if it
arrives with its flag and no other cover had one. -/
theorem flaggedAlone_insert_iff (hinput : OnePrimaryInput covers) (hc : c ∈ covers)
    (hprimary : c.isPrimary = true) :
    FlaggedAlone (t.insertAllOrIgnore (coverRows w covers)) w c.fileName ↔
      Arrives t w covers c.fileName ∧ ∀ other, Flagged t w other → other = c.fileName := by
  constructor
  · intro h
    constructor
    · apply (flagged_insert.mp h.flagged).imp_right
      exact fun hnew => ⟨hnew.1, hnew.2.2⟩
    · intro other hother
      exact h.alone other (flagged_insert.mpr (Or.inl hother))
  · rintro ⟨harrives, halone⟩
    constructor
    · apply flagged_insert.mpr
      exact harrives.imp_right fun hnew => ⟨hnew.1, rfl, hnew.2⟩
    · intro other hother
      rcases flagged_insert.mp hother with hold | ⟨-, -, hoffers⟩
      · exact halone other hold
      · obtain ⟨d, hd, rfl, hdprimary⟩ := exists_of_offers hoffers
        rw [primary_eq hinput hc hprimary hd hdprimary]

/-- On the other works the flags stay. -/
theorem flagged_insert_of_ne (hne : v ≠ w) :
    Flagged (t.insertAllOrIgnore (coverRows w covers)) v file ↔ Flagged t v file := by
  rw [flagged_insert]
  simp [hne]

/-- Without a primary cover in the input the flags stay. -/
theorem flagged_insert_of_unflagged (h : ∀ c ∈ covers, c.isPrimary = false) :
    Flagged (t.insertAllOrIgnore (coverRows w covers)) v file ↔ Flagged t v file := by
  rw [flagged_insert, or_iff_left]
  rintro ⟨-, -, hoffers⟩
  obtain ⟨c, hc, -, hprimary⟩ := exists_of_offers hoffers
  rw [h c hc] at hprimary
  contradiction

end Insert

/-! ## What the writers do to the covers

Ingests insert, merges fold; no other writer touches a cover. -/

section Writers

variable {rules : TextRules} {db db' : Db} {id : Id} {input : WorkInput}

/-- An upsert offers its covers to the work that it returns. -/
theorem workCover_upsertWorkFromMangadex {newWorkId newSourceSeriesId : Id}
    {mangadexId now : String}
    (h : upsertWorkFromMangadex rules newWorkId newSourceSeriesId mangadexId input now db =
      .ok (id, db')) :
    db'.workCover = db.workCover.insertAllOrIgnore (coverRows id input.covers) := by
  obtain ⟨-, sid, hss⟩ := upsertWorkFromMangadex_ok h
  obtain ⟨t, rfl, -⟩ := ensureSourceSeries_ok hss
  rfl

theorem workCover_createWork {newWorkId : Id}
    (h : createWork rules newWorkId input db = .ok (id, db')) :
    db'.workCover = db.workCover.insertAllOrIgnore (coverRows newWorkId input.covers) := by
  obtain ⟨t, -, rfl⟩ := createWork_ok h
  rfl

/-- A cover after a merge was on another work, or is one of the source's as the
target takes it. -/
theorem of_mem_workCover_merged {source target : Id} {x : WorkCover}
    (hx : x ∈ (merged rules source target db).workCover) :
    x.workId ≠ source ∧ (x ∈ db.workCover ∨
      ∃ old ∈ db.workCover, old.workId = source ∧
        x = demoteCover target db.workCover (move target old)) := by
  have htable : (merged rules source target db).workCover =
      (((db.workCover.insertAllOrIgnore ((copiesTo source target db.workCover).map
        (demoteCover target db.workCover))).deleteWhere fun r => r.workId = source).deleteWhere
          fun r => r.workId = source) := rfl
  rw [htable, Table.mem_deleteWhere, Table.mem_deleteWhere] at hx
  obtain ⟨⟨hx, hoff⟩, -⟩ := hx
  refine ⟨of_decide_eq_false hoff, ?_⟩
  rcases Table.mem_of_mem_insertAllOrIgnore hx with hx | ⟨hx, -⟩
  · exact Or.inl hx
  · obtain ⟨copy, hcopy, rfl⟩ := List.mem_map.mp hx
    obtain ⟨old, hold, hwork, rfl⟩ := mem_copiesTo.mp hcopy
    exact Or.inr ⟨old, hold, Option.some.inj hwork, rfl⟩

/-- The cover stays on its work. -/
theorem demoteCover_workId (target : Id) (t : Table WorkCover) (r : WorkCover) :
    (demoteCover target t r).workId = r.workId := by
  unfold demoteCover
  split <;> rfl

/-- A cover that comes through a merge with its flag had it before, and the
target has no other. -/
theorem isPrimary_of_demoteCover {target : Id} {t : Table WorkCover} {r : WorkCover}
    (h : (demoteCover target t r).isPrimary = true) :
    demoteCover target t r = r ∧ r.isPrimary = true ∧
      ∀ x ∈ t, x.workId = target → x.isPrimary = false := by
  unfold demoteCover at h ⊢
  split at h
  · contradiction
  · next hnone =>
      rw [if_neg hnone]
      refine ⟨rfl, h, ?_⟩
      intro x hx hwork
      rw [← Bool.not_eq_true]
      intro hprimary
      apply hnone
      rw [List.any_eq_true]
      exact ⟨x, Table.mem_rows.mpr hx, by simp [hwork, hprimary]⟩

/-- The guard of the merge keeps the flags apart. -/
theorem onePrimary_merged {source target : Id} (h : OnePrimary db.workCover) :
    OnePrimary (merged rules source target db).workCover := by
  intro a ha b hb hwork haprimary hbprimary
  rw [Table.mem_rows] at ha hb
  obtain ⟨-, ha | ⟨olda, holda, haon, rfl⟩⟩ := of_mem_workCover_merged ha
  · obtain ⟨-, hb | ⟨oldb, holdb, hbon, rfl⟩⟩ := of_mem_workCover_merged hb
    · exact h a (Table.mem_rows.mpr ha) b (Table.mem_rows.mpr hb) hwork haprimary hbprimary
    · obtain ⟨-, -, hnone⟩ := isPrimary_of_demoteCover hbprimary
      rw [demoteCover_workId] at hwork
      rw [hnone a ha hwork] at haprimary
      contradiction
  · obtain ⟨haeq, haflag, hnone⟩ := isPrimary_of_demoteCover haprimary
    obtain ⟨-, hb | ⟨oldb, holdb, hbon, rfl⟩⟩ := of_mem_workCover_merged hb
    · rw [demoteCover_workId] at hwork
      rw [hnone b hb hwork.symm] at hbprimary
      contradiction
    · obtain ⟨hbeq, hbflag, -⟩ := isPrimary_of_demoteCover hbprimary
      have hsame : olda = oldb :=
        h olda (Table.mem_rows.mpr holda) oldb (Table.mem_rows.mpr holdb)
          (haon.trans hbon.symm) haflag hbflag
      rw [hsame]

end Writers

/-! ## Runs -/

/-- The writers of covers. -/
inductive Write where
  | upsertWorkFromMangadex (newWorkId newSourceSeriesId : Id) (mangadexId : String)
      (input : WorkInput) (now : String)
  | createWork (newWorkId : Id) (input : WorkInput)
  | mergeWorks (source target : Id) (expected : Option (WorkIdentity × WorkIdentity))

/-- The step of the catalogue. -/
def Write.op : Write → Op
  | .upsertWorkFromMangadex newWorkId newSourceSeriesId mangadexId input now =>
      .upsertWorkFromMangadex newWorkId newSourceSeriesId mangadexId input now
  | .createWork newWorkId input => .createWork newWorkId input
  | .mergeWorks source target expected => .mergeWorks source target expected

/-- The step that the writer is. -/
def write (rules : Rules) (s : CatalogState) (w : Write) : CatalogState := s.step rules w.op

/-- The covers an ingest offers name one primary cover at most. -/
def Write.wellFormed : Write → Prop
  | .upsertWorkFromMangadex _ _ _ input _ => OnePrimaryInput input.covers
  | .createWork _ input => OnePrimaryInput input.covers
  | .mergeWorks .. => True

instance : DecidablePred Write.wellFormed := fun w => by
  cases w <;> unfold Write.wellFormed <;> infer_instance

/-- The primary cover of an upsert arrives with its flag, and no other cover of
the work has one. -/
def Write.settled (s : CatalogState) : Write → Prop
  | .upsertWorkFromMangadex newWorkId _ mangadexId input _ =>
      ∀ c ∈ input.covers, c.isPrimary = true →
        Arrives s.db.workCover ((externalWork s.db "mangadex" mangadexId).getD newWorkId)
            input.covers c.fileName ∧
          ∀ r ∈ s.db.workCover.rows,
            r.workId = (externalWork s.db "mangadex" mangadexId).getD newWorkId →
              r.isPrimary = true → r.coverFileName = c.fileName
  | _ => True

instance (s : CatalogState) : DecidablePred (Write.settled s) := fun w => by
  cases w <;> unfold Write.settled <;> infer_instance

/-- Right after an upsert with a primary cover, that cover is the one flagged. -/
def Shows (rules : Rules) (s : CatalogState) : Write → Prop
  | .upsertWorkFromMangadex newWorkId newSourceSeriesId mangadexId input now =>
      s.fresh (.upsertWorkFromMangadex newWorkId newSourceSeriesId mangadexId input now) = true →
        ∀ id db', upsertWorkFromMangadex rules.toTextRules newWorkId newSourceSeriesId
          mangadexId input now s.db = .ok (id, db') →
            ∀ c ∈ input.covers, c.isPrimary = true → FlaggedAlone db'.workCover id c.fileName
  | _ => True

/-- What the covers keep: they are of live works, and one of a work is primary. -/
structure Kept (db : Db) : Prop where
  live : ∀ r ∈ db.workCover, db.hasWork r.workId = true
  primary : OnePrimary db.workCover

section Run

variable {rules : Rules} {s : CatalogState} {w : Write}

/-- An insert adds covers of its own work. -/
theorem workId_of_mem_insert {t : Table WorkCover} {id : Id} {covers : List Cover}
    {r : WorkCover} (h : r ∈ t.insertAllOrIgnore (coverRows id covers)) :
    r ∈ t ∨ r.workId = id := by
  apply (Table.mem_of_mem_insertAllOrIgnore h).imp_right
  rintro ⟨hr, -⟩
  obtain ⟨c, -, rfl⟩ := List.mem_map.mp (List.mem_filter.mp hr).1
  rfl

/-- An upsert keeps the covers apart if it is settled. -/
theorem kept_upsert {newWorkId newSourceSeriesId id : Id} {mangadexId now : String}
    {input : WorkInput} {db' : Db} (h : Kept s.db)
    (hsettled : (Write.upsertWorkFromMangadex newWorkId newSourceSeriesId mangadexId input
      now).settled s)
    (hinput : OnePrimaryInput input.covers)
    (hok : upsertWorkFromMangadex rules.toTextRules newWorkId newSourceSeriesId mangadexId
      input now s.db = .ok (id, db')) :
    Kept db' ∧ ∀ c ∈ input.covers, c.isPrimary = true →
      FlaggedAlone db'.workCover id c.fileName := by
  have hcovers := workCover_upsertWorkFromMangadex hok
  have hid := (upsertWorkFromMangadex_ok hok).1
  have halone : ∀ c ∈ input.covers, c.isPrimary = true →
      FlaggedAlone db'.workCover id c.fileName := by
    intro c hc hprimary
    obtain ⟨harrives, hothers⟩ := hsettled c hc hprimary
    rw [← hid] at harrives hothers
    rw [hcovers]
    apply (flaggedAlone_insert_iff hinput hc hprimary).mpr
    refine ⟨harrives, ?_⟩
    intro other hother
    obtain ⟨r, hr, hwork, rfl, hrprimary⟩ := flagged_iff.mp hother
    exact hothers r (Table.mem_rows.mpr hr) hwork hrprimary
  refine ⟨⟨?_, ?_⟩, halone⟩
  · intro r hr
    rw [hasWork_upsertWorkFromMangadex hok]
    rw [hcovers] at hr
    exact (workId_of_mem_insert hr).imp_left (h.live r)
  · rw [onePrimary_iff]
    intro v file other hfile hother
    by_cases hprimary : ∃ c ∈ input.covers, c.isPrimary = true
    · obtain ⟨c, hc, hcprimary⟩ := hprimary
      by_cases hv : v = id
      · rw [hv] at hfile hother
        have hone := halone c hc hcprimary
        exact (hone.alone file hfile).trans (hone.alone other hother).symm
      · rw [hcovers, flagged_insert_of_ne hv] at hfile hother
        exact onePrimary_iff.mp h.primary v file other hfile hother
    · have hunflagged : ∀ c ∈ input.covers, c.isPrimary = false := by
        intro c hc
        rw [← Bool.not_eq_true]
        exact fun hcprimary => hprimary ⟨c, hc, hcprimary⟩
      rw [hcovers, flagged_insert_of_unflagged hunflagged] at hfile hother
      exact onePrimary_iff.mp h.primary v file other hfile hother

/-- A new work has no cover that could be in the way. -/
theorem kept_create {newWorkId id : Id} {input : WorkInput} {db' : Db} (h : Kept s.db)
    (hinput : OnePrimaryInput input.covers)
    (hok : createWork rules.toTextRules newWorkId input s.db = .ok (id, db')) :
    Kept db' := by
  have hcovers := workCover_createWork hok
  have hfree : ∀ v file, Flagged s.db.workCover v file → v ≠ newWorkId := by
    intro v file hflagged hv
    obtain ⟨r, hr, hwork, -, -⟩ := flagged_iff.mp hflagged
    obtain ⟨row, hrow, hid⟩ := hasWork_iff.mp (h.live r hr)
    obtain ⟨t, ht, -⟩ := createWork_ok hok
    have hapart := Table.free_of_insert ht row hrow
    rw [← Bool.not_eq_true] at hapart
    exact hapart (by simp [clash, WorkInput.row, hid, hwork, hv])
  constructor
  · intro r hr
    rw [hasWork_createWork hok]
    rw [hcovers] at hr
    exact (workId_of_mem_insert hr).imp_left (h.live r)
  · rw [onePrimary_iff]
    intro v file other hfile hother
    rw [hcovers] at hfile hother
    rcases flagged_insert.mp hfile with hfile | ⟨-, hv, hfile⟩
    · have hne : v ≠ newWorkId := hfree v file hfile
      rw [flagged_insert_of_ne hne] at hother
      exact onePrimary_iff.mp h.primary v file other hfile hother
    · rcases flagged_insert.mp hother with hother | ⟨-, -, hother⟩
      · exact absurd hv (hfree v other hother)
      · obtain ⟨c, hc, rfl, hcprimary⟩ := exists_of_offers hfile
        obtain ⟨d, hd, rfl, hdprimary⟩ := exists_of_offers hother
        rw [primary_eq hinput hc hcprimary hd hdprimary]

/-- A merge keeps them apart by its guard. -/
theorem kept_merge {source target : Id} {expected : Option (WorkIdentity × WorkIdentity)}
    {outcome : MergeOutcome} {db' : Db} (h : Kept s.db)
    (hok : mergeWorksChecked rules.toTextRules source target expected s.db =
      .ok (outcome, db')) : Kept db' := by
  obtain ⟨hne, -, htarget, -, rfl⟩ := merge_ok hok
  constructor
  · intro r hr
    obtain ⟨hoff, hr | ⟨old, hold, hon, rfl⟩⟩ := of_mem_workCover_merged hr
    · exact hasWork_merged.mpr ⟨h.live r hr, hoff⟩
    · rw [demoteCover_workId]
      exact hasWork_merged.mpr ⟨htarget, Ne.symm hne⟩
  · exact onePrimary_merged h.primary

/-- Every writer that is well formed and settled, with what it shows right after. -/
theorem kept_write (h : Kept s.db) (hwell : w.wellFormed) (hsettled : w.settled s) :
    Kept (write rules s w).db ∧ Shows rules s w := by
  cases hfresh : s.fresh w.op with
  | false =>
      have hsame : write rules s w = s := step_of_not_fresh hfresh
      rw [hsame]
      refine ⟨h, ?_⟩
      cases w with
      | upsertWorkFromMangadex newWorkId newSourceSeriesId mangadexId input now =>
          intro hfresh'
          have hfresh : s.fresh (.upsertWorkFromMangadex newWorkId newSourceSeriesId
            mangadexId input now) = false := hfresh
          rw [hfresh] at hfresh'
          contradiction
      | _ => trivial
  | true =>
      have hwrite : (write rules s w).db = s.write rules w.op := step_db_of_fresh hfresh
      rw [hwrite]
      cases w with
      | upsertWorkFromMangadex newWorkId newSourceSeriesId mangadexId input now =>
          constructor
          · exact commit_cases h fun id db' hok => (kept_upsert h hsettled hwell hok).1
          · intro _ id db' hok
            exact (kept_upsert h hsettled hwell hok).2
      | createWork newWorkId input =>
          exact ⟨commit_cases h fun id db' hok => kept_create h hwell hok, trivial⟩
      | mergeWorks source target expected =>
          exact ⟨commit_cases h fun outcome db' hok => kept_merge h hok, trivial⟩

/-- The empty catalogue has no covers. -/
theorem kept_init : Kept CatalogState.init.db where
  live r hr := absurd hr (Table.not_mem_empty r)
  primary _ ha := absurd ha List.not_mem_nil

/-- **One primary cover.**  In a run whose upserts are settled, each state has one
flagged cover of a work at most, and right after an upsert with a primary cover it is
that one.  Adding covers leaves the flags of the others alone, so an upsert is settled
only if it finds none of them on another file. -/
theorem onePrimary_of_settled {writes : List Write} (hwell : ∀ w ∈ writes, w.wellFormed)
    (h : EachStep (write rules) (fun s w => w.settled s) .init writes) :
    Always (write rules) (fun s => OnePrimary s.db.workCover) .init writes ∧
      EachStep (write rules) (Shows rules) .init writes := by
  have hboth : EachStep (write rules) (fun s w => w.wellFormed ∧ w.settled s) .init writes :=
    (eachStep_of_forall hwell).and h
  have hstep : ∀ s w, Kept s.db → w.wellFormed ∧ w.settled s →
      Kept (write rules s w).db ∧ Shows rules s w :=
    fun s w hkept hw => kept_write hkept hw.1 hw.2
  constructor
  · exact always_of_invariant (I := fun s : CatalogState => Kept s.db)
      (fun s w hkept hw => (hstep s w hkept hw).1) (fun s hkept => hkept.primary) kept_init hboth
  · exact EachStep.of_invariant (I := fun s : CatalogState => Kept s.db)
      (fun s w hkept hw => (hstep s w hkept hw).1) (fun s w hkept hw => (hstep s w hkept hw).2)
      kept_init hboth

/-- A series whose covers are `files`, the first of them the primary one. -/
def covered (title : String) (files : List String) : WorkInput :=
  { titled title with
    covers := files.zipIdx.map fun (file, i) => ⟨file, none, none, i = 0⟩ }

/-- Two series with primary covers are merged, and the survivor is seen again
with the primary cover it has and one more. -/
def steadyPrimary : List Write :=
  [.upsertWorkFromMangadex "w1" "s1" "md1" (covered "one" ["a.jpg"]) "t1",
    .upsertWorkFromMangadex "w2" "s2" "md2" (covered "two" ["b.jpg", "a.jpg"]) "t2",
    .createWork "w3" (titled "three"),
    .mergeWorks "w2" "w1" none,
    .upsertWorkFromMangadex "w4" "s4" "md1" (covered "one" ["a.jpg", "c.jpg"]) "t3"]

/-- Such a run, by the theorem above. -/
theorem onePrimary_steady :
    Always (write plainRules) (fun s => OnePrimary s.db.workCover) .init steadyPrimary ∧
      EachStep (write plainRules) (Shows plainRules) .init steadyPrimary :=
  onePrimary_of_settled (by decide +kernel) (by decide +kernel)

/-- Upstream moves the primary cover from one file to another. -/
def movedPrimary : List Write :=
  [.upsertWorkFromMangadex "w1" "s1" "md1" (covered "one" ["a.jpg"]) "t1",
    .upsertWorkFromMangadex "w2" "s2" "md1" (covered "one" ["b.jpg"]) "t2"]

/-- Two upserts, each with one primary cover, leave a work with two. -/
theorem not_onePrimary_moved :
    (∀ w ∈ movedPrimary, w.wellFormed) ∧
      ¬Always (write plainRules) (fun s => OnePrimary s.db.workCover) .init movedPrimary := by
  refine ⟨by decide +kernel, ?_⟩
  intro h
  have htwo : ¬OnePrimary (run (write plainRules) .init movedPrimary).db.workCover := by
    decide +kernel
  exact htwo h.last

end Run

end Komika.Catalog.PrimaryCover
