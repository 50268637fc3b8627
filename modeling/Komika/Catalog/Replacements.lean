import Mathlib.Data.List.Nodup
import Komika.Catalog.SpineKeys

/-!
# Concurrent replacements of one list

Three callers replace the chapter list of a mapping: the live reader fetch, the
scheduled scan and the drain.  `replace_source_chapters` reads the rows that
exist on the pool, before it begins its transaction, and takes the rows to
delete from that read.

`wholeList_iff` says when the call that commits last leaves exactly its own
list: when it has read every row outside that list.  A row inserted between its
read and its transaction is in neither, and stays.

The rows carry `created_at` here, which the database of the other modules leaves out;
`Spine.Forgets.commit` says that a call does the same to both.

* `sightings_commit` — what a transaction makes of the rows, up to the columns that an
  upsert may change;
* `stores_commit_iff` — one transaction leaves its own list exactly if it had read every
  row outside of it;
* `sighting_run` — a row whose chapter is stored throughout is the same row;
* `wholeList_iff` — any interleaving of any calls;
* `not_wholeList_firstLists` — two callers that meet an empty list.
-/

namespace Komika.Catalog.Replacements

open Komika.Lib
open Komika.Catalog.Schema Komika.Catalog.Database Komika.Catalog.Ledger
open Komika.Catalog.SpineKeys

/-! ## Rows with their first sighting -/

/-- A row of `chapter`, with its `created_at`. -/
structure SpineRow where
  chapter : Chapter
  createdAt : String
deriving DecidableEq, Repr

instance : Keyed SpineRow where
  clash a b := clash a.chapter b.chapter
  clash_symm a b := clash_symm a.chapter b.chapter

/-- The ids of `source_series`, and the table `chapter`. -/
structure Spine where
  mappings : List Id
  chapters : Table SpineRow

/-- The `DO UPDATE SET` of `CHAPTER_UPSERT_SQL`, which leaves `created_at`. -/
def refreshRow (new old : SpineRow) : SpineRow :=
  { old with chapter := refreshChapter new.chapter old.chapter }

/-- A refresh keeps the keys, and the first sighting. -/
theorem refreshRow_keepsKeys (new : SpineRow) :
    Table.KeepsKeys (refreshRow new) := fun _ _ => rfl

/-- `ON CONFLICT(source_series_id, external_id)`: whether the row is the one to
update. -/
def SpineRow.conflicts (row r : SpineRow) : Bool :=
  r.chapter.sourceSeriesId = row.chapter.sourceSeriesId &&
    r.chapter.externalId = row.chapter.externalId

/-- `CHAPTER_UPSERT_SQL`: a row with the key is refreshed, a new one needs its
mapping. -/
def upsertRow (row : SpineRow) (s : Spine) : Except CatalogError Spine :=
  if s.chapters.rows.any row.conflicts then
    .ok { s with
      chapters := s.chapters.update row.conflicts (refreshRow row)
        (refreshRow_keepsKeys row) }
  else if s.mappings.contains row.chapter.sourceSeriesId then
    match s.chapters.insert row with
    | some chapters => .ok { s with chapters := chapters }
    | none => .error .uniqueConstraint
  else .error .foreignKeyConstraint

/-- The loop of upserts. -/
def upsertRows (rows : List SpineRow) (s : Spine) : Except CatalogError Spine :=
  rows.foldlM (fun s row => upsertRow row s) s

/-! ## One call

The read outside of the transaction, and the transaction over what was read. -/

/-- A call of `replace_source_chapters`: its list, each chapter with the id
that `new_id` mints for it, and its `now`. -/
structure Call where
  chapters : List (Id × ChapterInput)
  now : String
deriving DecidableEq, Repr

/-- `incoming`: the ids that the call brings, the empty ones aside. -/
def Call.incoming (call : Call) : List String :=
  (call.chapters.map fun c => c.2.externalId).filter (· ≠ "")

/-- `existing`, the read outside the transaction. -/
def existing (ssid : Id) (s : Spine) : List (Id × String) :=
  (s.chapters.rows.filter fun r => r.chapter.sourceSeriesId = ssid).map fun r =>
    (r.chapter.id, r.chapter.externalId)

/-- `vanished`: the rows as read that the call does not bring. -/
def Call.vanished (call : Call) (existing : List (Id × String)) : List Id :=
  (existing.filter fun e => !call.incoming.contains e.2).map Prod.fst

/-- The rows the transaction upserts. -/
def Call.rows (rules : SpineRules) (ssid : Id) (call : Call) : List SpineRow :=
  (call.chapters.filter fun c => c.2.externalId ≠ "").map fun c =>
    ⟨chapterRow rules c.1 ssid c.2, call.now⟩

/-- The transaction: the rows are written one by one, and what had vanished when the
call read is deleted. -/
def Call.commit (rules : SpineRules) (ssid : Id) (call : Call)
    (existing : List (Id × String)) (s : Spine) : Except CatalogError Spine :=
  match upsertRows (call.rows rules ssid) s with
  | .ok s => .ok { s with
      chapters := s.chapters.deleteWhere fun r =>
        (call.vanished existing).contains r.chapter.id }
  | .error e => .error e

/-! ## The same writes on the database without `created_at` -/

/-- `db` has the rows of `s`, without their `created_at`. -/
structure Spine.Forgets (s : Spine) (db : Db) : Prop where
  mappings : db.sourceSeries.rows.map SourceSeries.id = s.mappings
  chapters : db.chapter.rows = s.chapters.rows.map SpineRow.chapter

/-- Both fail alike, or both succeed. -/
def Agree : Except CatalogError Spine → Except CatalogError Db → Prop
  | .ok s, .ok db => s.Forgets db
  | .error e, .error e' => e = e'
  | _, _ => False

section Forgets

variable {s : Spine} {db : Db}

/-- An upsert does the same to both, or fails on both. -/
theorem Spine.Forgets.upsertRow (h : s.Forgets db) (row : SpineRow) :
    Agree (upsertRow row s) (writeChapter row.chapter db) := by
  have hany : db.chapter.rows.any (fun c =>
      c.sourceSeriesId = row.chapter.sourceSeriesId &&
        c.externalId = row.chapter.externalId) =
      s.chapters.rows.any row.conflicts := by
    rw [h.chapters, List.any_map]
    rfl
  have hmapping : (db.sourceSeries.rows.any fun m =>
      m.id = row.chapter.sourceSeriesId) =
      s.mappings.contains row.chapter.sourceSeriesId := by
    rw [← h.mappings, List.contains_eq_any_beq, List.any_map]
    congr 1
    funext m
    exact decide_eq_decide.mpr eq_comm
  unfold Replacements.upsertRow writeChapter
  dsimp only
  rw [hany, hmapping]
  split
  · refine ⟨h.mappings, ?_⟩
    show List.map _ db.chapter.rows = List.map _ (List.map _ s.chapters.rows)
    rw [h.chapters, List.map_map, List.map_map]
    apply List.map_congr_left
    intro r _
    show ite _ _ _ = SpineRow.chapter (ite _ _ _)
    rw [apply_ite SpineRow.chapter]
    rfl
  · split
    · have htaken : db.chapter.taken row.chapter = s.chapters.taken row := by
        unfold Table.taken
        rw [h.chapters, List.any_map]
        rfl
      cases hfree : s.chapters.taken row with
      | true =>
          have hnone : s.chapters.insert row = none := by
            unfold Table.insert
            rw [dif_neg (by simp [hfree])]
          have hnone' : db.chapter.insert row.chapter = none := by
            unfold Table.insert
            rw [dif_neg (by simp [htaken, hfree])]
          rw [hnone, hnone']
          rfl
      | false =>
          have hsome : s.chapters.insert row = some (s.chapters.push row hfree) := by
            unfold Table.insert
            rw [dif_pos hfree]
          have hfree' := htaken.trans hfree
          have hsome' : db.chapter.insert row.chapter =
              some (db.chapter.push row.chapter hfree') := by
            unfold Table.insert
            rw [dif_pos hfree']
          rw [hsome, hsome']
          refine ⟨h.mappings, ?_⟩
          show db.chapter.rows ++ [_] = List.map _ (s.chapters.rows ++ [_])
          rw [h.chapters, List.map_append]
          rfl
    · rfl

theorem Spine.Forgets.upsertRows (h : s.Forgets db) (rows : List SpineRow) :
    Agree (upsertRows rows s) (writeChapters (rows.map SpineRow.chapter) db) := by
  induction rows generalizing s db with
  | nil => exact h
  | cons row rows ih =>
      have hrow := h.upsertRow row
      unfold Replacements.upsertRows writeChapters at ih ⊢
      rw [List.map_cons, List.foldlM_cons, List.foldlM_cons]
      cases hs : Replacements.upsertRow row s with
      | error e =>
          cases hdb : writeChapter row.chapter db with
          | error e' =>
              rw [hs, hdb] at hrow
              exact hrow
          | ok db' =>
              rw [hs, hdb] at hrow
              exact hrow.elim
      | ok s' =>
          cases hdb : writeChapter row.chapter db with
          | error e' =>
              rw [hs, hdb] at hrow
              exact hrow.elim
          | ok db' =>
              rw [hs, hdb] at hrow
              exact ih hrow

/-- The rows to delete are those of the database's own replacement. -/
theorem Spine.Forgets.vanished (h : s.Forgets db) (ssid : Id) (call : Call) :
    (planReplace ssid call.chapters db).vanished =
      call.vanished (existing ssid s) := by
  have hread : call.vanished (existing ssid s) =
      (s.chapters.rows.filter fun r => decide (r.chapter.sourceSeriesId = ssid) &&
        !call.incoming.contains r.chapter.externalId).map fun r => r.chapter.id := by
    unfold Call.vanished existing
    rw [List.filter_map, List.map_map, List.filter_filter]
    congr 1
    apply List.filter_congr
    intro r _
    exact Bool.and_comm _ _
  rw [hread]
  show List.map Chapter.id (db.chapter.rows.filter fun c =>
    decide (c.sourceSeriesId = ssid) && !call.incoming.contains c.externalId) = _
  rw [h.chapters, List.filter_map, List.map_map]
  rfl

/-- The transaction is the database's own. -/
theorem Spine.Forgets.commit (h : s.Forgets db) (rules : SpineRules) (ssid : Id)
    (call : Call) (existing : List (Id × String)) :
    Agree (call.commit rules ssid existing s)
      ((commitReplace rules ⟨ssid, call.chapters, call.vanished existing⟩ db).map
        Prod.snd) := by
  have hrows := h.upsertRows (call.rows rules ssid)
  have hmap : (call.rows rules ssid).map SpineRow.chapter =
      (call.chapters.filter fun c => c.2.externalId ≠ "").map fun c =>
        chapterRow rules c.1 ssid c.2 := by
    unfold Call.rows
    rw [List.map_map]
    rfl
  rw [hmap] at hrows
  unfold Call.commit commitReplace
  dsimp only
  cases hs : Replacements.upsertRows (call.rows rules ssid) s with
  | error e =>
      cases hdb : writeChapters _ db with
      | error e' =>
          rw [hs, hdb] at hrows
          exact hrows
      | ok db' =>
          rw [hs, hdb] at hrows
          exact hrows.elim
  | ok s' =>
      cases hdb : writeChapters _ db with
      | error e' =>
          rw [hs, hdb] at hrows
          exact hrows.elim
      | ok db' =>
          rw [hs, hdb] at hrows
          refine ⟨hrows.mappings, ?_⟩
          show List.filter _ db'.chapter.rows =
            List.map _ (List.filter _ s'.chapters.rows)
          rw [hrows.chapters, List.filter_map]
          rfl

end Forgets

/-! ## Sightings

The id of a row and when it was first seen; an upsert of a stored chapter changes
neither. -/

/-- The columns that no upsert changes. -/
structure Sighting where
  sourceSeriesId : Id
  externalId : String
  id : Id
  createdAt : String
deriving DecidableEq, Repr

/-- What a row shows of itself that no upsert changes. -/
def SpineRow.sighting (r : SpineRow) : Sighting :=
  ⟨r.chapter.sourceSeriesId, r.chapter.externalId, r.chapter.id, r.createdAt⟩

/-- The sightings of all rows, in order. -/
def Spine.sightings (s : Spine) : List Sighting :=
  s.chapters.rows.map SpineRow.sighting

/-- The chapter `externalId` of the mapping is stored. -/
def Spine.Stores (s : Spine) (ssid : Id) (externalId : String) : Prop :=
  ∃ g ∈ s.sightings, g.sourceSeriesId = ssid ∧ g.externalId = externalId

/-- The ids the call mints, with their chapters. -/
def Call.minted (call : Call) : List (Id × String) :=
  call.chapters.map fun c => (c.1, c.2.externalId)

/-- What the upserts of a call make of the sightings. -/
structure Upserted (ssid : Id) (call : Call) (s s₁ : Spine) : Prop where
  kept : ∀ g ∈ s.sightings, g ∈ s₁.sightings
  left : ∀ g ∈ s₁.sightings, g ∈ s.sightings ∨
    (g.externalId ∈ call.incoming ∧ (g.id, g.externalId) ∈ call.minted)
  present : ∀ e ∈ call.incoming, s₁.Stores ssid e

section Sightings

variable {s s₁ s' : Spine} {rules : SpineRules} {ssid : Id} {call : Call}

/-- A mapping has a chapter once. -/
theorem eq_of_stored {g g' : Sighting} (hg : g ∈ s.sightings)
    (hg' : g' ∈ s.sightings) (hss : g.sourceSeriesId = g'.sourceSeriesId)
    (hext : g.externalId = g'.externalId) : g = g' := by
  obtain ⟨r, hr, rfl⟩ := List.mem_map.mp hg
  obtain ⟨r', hr', rfl⟩ := List.mem_map.mp hg'
  have hclash : clash r r' = true := by
    show decide _ = true
    rw [decide_eq_true_eq]
    exact .inr ⟨hss, hext⟩
  rw [Table.eq_of_clash hr hr' hclash]

/-- An upsert leaves the sightings, or adds its own. -/
theorem sightings_upsertRow {row : SpineRow} (h : upsertRow row s = .ok s') :
    (s'.sightings = s.sightings ∧ s.Stores row.chapter.sourceSeriesId
        row.chapter.externalId) ∨
      s'.sightings = s.sightings ++ [row.sighting] := by
  unfold upsertRow at h
  split at h
  · next hany =>
      cases h
      obtain ⟨r, hr, hconflict⟩ := List.any_eq_true.mp hany
      simp only [SpineRow.conflicts, Bool.and_eq_true, decide_eq_true_eq] at hconflict
      refine .inl ⟨?_, r.sighting, List.mem_map_of_mem hr, hconflict⟩
      show List.map _ (List.map _ _) = List.map _ _
      rw [List.map_map]
      apply List.map_congr_left
      intro old _
      show SpineRow.sighting (ite _ _ _) = old.sighting
      split <;> rfl
  · split at h
    · split at h
      · next chapters hinsert =>
          cases h
          have hrows : chapters.rows = s.chapters.rows ++ [row] := by
            unfold Table.insert at hinsert
            split at hinsert
            · cases hinsert
              rfl
            · contradiction
          refine .inr ?_
          show List.map _ chapters.rows = _
          rw [hrows, List.map_append]
          rfl
      · contradiction
    · contradiction

/-- Upserts one after the other. -/
theorem Upserted.trans {xs ys : List (Id × ChapterInput)} {now : String} {s₂ : Spine}
    (h : Upserted ssid ⟨xs, now⟩ s s₁) (h' : Upserted ssid ⟨ys, now⟩ s₁ s₂) :
    Upserted ssid ⟨xs ++ ys, now⟩ s s₂ := by
  have hincoming : Call.incoming ⟨xs ++ ys, now⟩ =
      Call.incoming ⟨xs, now⟩ ++ Call.incoming ⟨ys, now⟩ := by
    simp [Call.incoming]
  have hminted : Call.minted ⟨xs ++ ys, now⟩ =
      Call.minted ⟨xs, now⟩ ++ Call.minted ⟨ys, now⟩ := by
    simp [Call.minted]
  constructor
  case kept => exact fun g hg => h'.kept g (h.kept g hg)
  case left =>
    intro g hg
    rw [hincoming, hminted]
    rcases h'.left g hg with hg₁ | ⟨hin, hmint⟩
    · exact (h.left g hg₁).imp_right fun hnew =>
        ⟨List.mem_append_left _ hnew.1, List.mem_append_left _ hnew.2⟩
    · exact .inr ⟨List.mem_append_right _ hin, List.mem_append_right _ hmint⟩
  case present =>
    intro e he
    rw [hincoming] at he
    rcases List.mem_append.mp he with he | he
    · obtain ⟨g, hg, hkey⟩ := h.present e he
      exact ⟨g, h'.kept g hg, hkey⟩
    · exact h'.present e he

/-- One upsert. -/
theorem upserted_upsertRow {c : Id × ChapterInput} {now : String} (hne : c.2.externalId ≠ "")
    (h : upsertRow ⟨chapterRow rules c.1 ssid c.2, now⟩ s = .ok s') :
    Upserted ssid ⟨[c], now⟩ s s' := by
  have hincoming : Call.incoming ⟨[c], now⟩ = [c.2.externalId] := by
    simp [Call.incoming, hne]
  constructor
  case kept =>
    intro g hg
    rcases sightings_upsertRow h with ⟨hsame, -⟩ | hadd
    · exact hsame ▸ hg
    · exact hadd ▸ List.mem_append_left _ hg
  case left =>
    intro g hg
    rcases sightings_upsertRow h with ⟨hsame, -⟩ | hadd
    · exact .inl (hsame ▸ hg)
    · rw [hadd] at hg
      rcases List.mem_append.mp hg with hg | hg
      · exact .inl hg
      · rw [hincoming, List.mem_singleton.mp hg]
        exact .inr ⟨List.mem_cons_self, List.mem_cons_self⟩
  case present =>
    intro e he
    rw [hincoming] at he
    rw [List.mem_singleton.mp he]
    rcases sightings_upsertRow h with ⟨hsame, g, hg, hkey⟩ | hadd
    · exact ⟨g, hsame ▸ hg, hkey⟩
    · exact ⟨_, hadd ▸ List.mem_append_right _ List.mem_cons_self, rfl, rfl⟩

/-- The loop of upserts. -/
theorem upserted_rows {chapters : List (Id × ChapterInput)} {now : String}
    (h : upsertRows (Call.rows rules ssid ⟨chapters, now⟩) s = .ok s₁) :
    Upserted ssid ⟨chapters, now⟩ s s₁ := by
  induction chapters generalizing s with
  | nil =>
      cases h
      exact ⟨fun g hg => hg, fun g hg => .inl hg, fun e he => by cases he⟩
  | cons c chapters ih =>
      by_cases hempty : c.2.externalId = ""
      · have hrows : Call.rows rules ssid ⟨c :: chapters, now⟩ =
            Call.rows rules ssid ⟨chapters, now⟩ := by
          simp [Call.rows, hempty]
        have hincoming : Call.incoming ⟨c :: chapters, now⟩ =
            Call.incoming ⟨chapters, now⟩ := by
          simp [Call.incoming, hempty]
        rw [hrows] at h
        have hrest := ih h
        refine ⟨hrest.kept, fun g hg => ?_, fun e he => ?_⟩
        · rw [hincoming]
          exact (hrest.left g hg).imp_right fun hnew =>
            ⟨hnew.1, List.mem_cons_of_mem _ hnew.2⟩
        · exact hrest.present e (hincoming ▸ he)
      · have hrows : Call.rows rules ssid ⟨c :: chapters, now⟩ =
            ⟨chapterRow rules c.1 ssid c.2, now⟩ ::
              Call.rows rules ssid ⟨chapters, now⟩ := by
          simp [Call.rows, hempty]
        rw [hrows, upsertRows, List.foldlM_cons] at h
        cases hrow : upsertRow ⟨chapterRow rules c.1 ssid c.2, now⟩ s with
        | error e =>
            rw [hrow] at h
            contradiction
        | ok s₂ =>
            rw [hrow] at h
            exact (upserted_upsertRow hempty hrow).trans (ih h)

/-- The transaction: the upserts, then the deletes. -/
theorem sightings_commit {existing : List (Id × String)}
    (h : call.commit rules ssid existing s = .ok s') :
    ∃ s₁, Upserted ssid call s s₁ ∧ ∀ g, g ∈ s'.sightings ↔
      g ∈ s₁.sightings ∧ g.id ∉ call.vanished existing := by
  unfold Call.commit at h
  split at h
  · next s₁ hrows =>
      cases h
      refine ⟨s₁, upserted_rows hrows, fun g => ?_⟩
      simp only [Spine.sightings, List.mem_map, Table.deleteWhere, List.mem_filter,
        Bool.not_eq_true', List.contains_eq_mem, decide_eq_false_iff_not]
      constructor
      · rintro ⟨r, ⟨hr, hid⟩, rfl⟩
        exact ⟨⟨r, hr, rfl⟩, hid⟩
      · rintro ⟨⟨r, hr, rfl⟩, hid⟩
        exact ⟨r, ⟨hr, hid⟩, rfl⟩
  · contradiction

end Sightings

/-! ## Interleavings

Each call reads once and commits once, in any order with respect to the others. -/

/-- The calls for one mapping.  `new_id` gives no id twice, and none that a row
has. -/
structure Calls (s : Spine) where
  calls : List Call
  nodup : (calls.flatMap fun c => c.minted.map Prod.fst).Nodup
  new : ∀ g ∈ s.sightings, g.id ∉ calls.flatMap fun c => c.minted.map Prod.fst

/-- How far a call has come. -/
inductive Phase where
  | waiting
  /-- Has read the rows that exist. -/
  | read (existing : List (Id × String))
  | committed
  | failed
deriving DecidableEq, Repr

/-- A transaction that has committed: the spine it began from, and what its
call had read. -/
structure Commit where
  call : Call
  before : Spine
  existing : List (Id × String)

/-- `last` is the transaction that committed last. -/
structure CallState where
  spine : Spine
  phase : Nat → Phase
  last : Option Commit

/-- The read of a call, its transaction, or its failure. -/
inductive CallOp where
  | read (i : Nat)
  | commit (i : Nat)
  /-- A statement of the `i`-th call fails; a transaction is rolled back. -/
  | fail (i : Nat)
deriving DecidableEq, Repr

/-- The call has come so far. -/
def CallState.setPhase (s : CallState) (i : Nat) (phase : Phase) : CallState :=
  { s with phase := fun j => if j = i then phase else s.phase j }

/-- A statement of one call; the transactions run one at a time. -/
def CallState.step (rules : SpineRules) (ssid : Id) (calls : List Call)
    (s : CallState) : CallOp → CallState
  | .read i =>
      if s.phase i = .waiting then s.setPhase i (.read (existing ssid s.spine)) else s
  | .commit i =>
      match s.phase i, calls[i]? with
      | .read existing, some call =>
          match call.commit rules ssid existing s.spine with
          | .ok spine =>
              { s.setPhase i .committed with
                spine := spine, last := some ⟨call, s.spine, existing⟩ }
          | .error _ => s.setPhase i .failed
      | _, _ => s
  | .fail i => if s.phase i = .committed then s else s.setPhase i .failed

/-- No call has begun. -/
def CallState.start (spine : Spine) : CallState := ⟨spine, fun _ => .waiting, none⟩

/-- The list of the call that committed last is the list that is stored, and a
row whose chapter was stored throughout keeps its id and its `created_at`. -/
structure WholeList (rules : SpineRules) (ssid : Id) (calls : List Call)
    (spine : Spine) (ops : List CallOp) : Prop where
  lastWins : ∀ c,
    (Machine.run (CallState.step rules ssid calls) (.start spine) ops).last = some c →
      ∀ e, (Machine.run (CallState.step rules ssid calls) (.start spine)
        ops).spine.Stores ssid e ↔ e ∈ c.call.incoming
  kept : ∀ g ∈ spine.sightings, g.sourceSeriesId = ssid →
    Machine.Always (CallState.step rules ssid calls)
      (fun s => s.spine.Stores ssid g.externalId) (.start spine) ops →
    g ∈ (Machine.run (CallState.step rules ssid calls) (.start spine)
      ops).spine.sightings

/-- When its transaction began, the call had read every row of the mapping
outside its list. -/
def Commit.ReadOutside (ssid : Id) (c : Commit) : Prop :=
  ∀ g ∈ c.before.sightings, g.sourceSeriesId = ssid →
    g.externalId ∉ c.call.incoming → (g.id, g.externalId) ∈ c.existing

section Runs

variable {rules : SpineRules} {ssid : Id} {spine : Spine}

/-- The ids of the first rows and those the calls mint, with their chapters. -/
def Calls.pool (r : Calls spine) : List (Id × String) :=
  spine.sightings.map (fun g => (g.id, g.externalId)) ++
    r.calls.flatMap Call.minted

/-- An id is the id of one chapter. -/
theorem Calls.eq_of_pool (r : Calls spine) {p q : Id × String}
    (hp : p ∈ r.pool) (hq : q ∈ r.pool) (hid : p.1 = q.1) : p = q := by
  have hids : (r.pool.map Prod.fst).Nodup := by
    unfold pool
    rw [List.map_append, List.map_flatMap, List.map_map, List.nodup_append']
    refine ⟨?_, r.nodup, ?_⟩
    · rw [Spine.sightings, List.map_map]
      refine List.pairwise_map.mpr (spine.chapters.unique.imp ?_)
      intro a b hab heq
      have hid : a.chapter.id = b.chapter.id := heq
      have hclash : clash a b = true := by
        show decide _ = true
        rw [decide_eq_true_eq]
        exact .inl hid
      rw [hclash] at hab
      contradiction
    · intro id hid hmint
      obtain ⟨g, hg, rfl⟩ := List.mem_map.mp hid
      exact r.new g hg hmint
  exact List.inj_on_of_nodup_map hids hp hq hid

/-- Every id, stored or read, is in the pool. -/
structure InPool (r : Calls spine) (s : CallState) : Prop where
  stored : ∀ g ∈ s.spine.sightings, (g.id, g.externalId) ∈ r.pool
  read : ∀ i existing, s.phase i = .read existing → ∀ p ∈ existing, p ∈ r.pool

/-- What a call reads are the rows of its mapping, by id and chapter. -/
theorem mem_existing {s : Spine} {p : Id × String} :
    p ∈ existing ssid s ↔ ∃ g ∈ s.sightings,
      g.sourceSeriesId = ssid ∧ (g.id, g.externalId) = p := by
  simp only [existing, Spine.sightings, List.mem_map, List.mem_filter,
    decide_eq_true_eq]
  constructor
  · rintro ⟨row, ⟨hrow, hss⟩, rfl⟩
    exact ⟨row.sighting, ⟨row, hrow, rfl⟩, hss, rfl⟩
  · rintro ⟨_, ⟨row, hrow, rfl⟩, hss, rfl⟩
    exact ⟨row, ⟨hrow, hss⟩, rfl⟩

/-- A call that goes on refers to ids of the pool. -/
theorem inPool_setPhase {r : Calls spine} {s : CallState} (h : InPool r s) (i : Nat)
    {phase : Phase} (hphase : ∀ existing, phase = .read existing →
      ∀ p ∈ existing, p ∈ r.pool) : InPool r (s.setPhase i phase) := by
  refine ⟨h.stored, fun j existing hj => ?_⟩
  unfold CallState.setPhase at hj
  dsimp only at hj
  split at hj
  · exact hphase existing hj
  · exact h.read j existing hj

/-- The ways a step changes the rows. -/
theorem spine_step (rules : SpineRules) (ssid : Id) (calls : List Call) (s : CallState)
    (op : CallOp) :
    ((s.step rules ssid calls op).spine = s.spine ∧
        (s.step rules ssid calls op).last = s.last) ∨
      ∃ i existing call spine, op = .commit i ∧ s.phase i = .read existing ∧
        calls[i]? = some call ∧
        call.commit rules ssid existing s.spine = .ok spine ∧
        s.step rules ssid calls op =
          { s.setPhase i .committed with
            spine := spine, last := some ⟨call, s.spine, existing⟩ } := by
  cases op with
  | read i =>
      refine .inl ?_
      unfold CallState.step
      dsimp only
      split <;> exact ⟨rfl, rfl⟩
  | fail i =>
      refine .inl ?_
      unfold CallState.step
      dsimp only
      split <;> exact ⟨rfl, rfl⟩
  | commit i =>
      unfold CallState.step
      dsimp only
      split
      · next existing call hphase hcall =>
          split
          · next spine hok =>
              exact .inr ⟨i, existing, call, spine, rfl, hphase, hcall, hok, rfl⟩
          · exact .inl ⟨rfl, rfl⟩
      · exact .inl ⟨rfl, rfl⟩

/-- Every step keeps to the pool. -/
theorem inPool_step {r : Calls spine} {s : CallState} (h : InPool r s)
    (op : CallOp) : InPool r (s.step rules ssid r.calls op) := by
  cases op with
  | read i =>
      unfold CallState.step
      dsimp only
      split
      · refine inPool_setPhase h i fun existing hread p hp => ?_
        cases hread
        obtain ⟨g, hg, -, rfl⟩ := mem_existing.mp hp
        exact h.stored g hg
      · exact h
  | fail i =>
      unfold CallState.step
      dsimp only
      split
      · exact h
      · exact inPool_setPhase h i fun _ hread => by cases hread
  | commit i =>
      unfold CallState.step
      dsimp only
      split
      · next existing call hphase hcall =>
          split
          · next spine' hok =>
              refine ⟨fun g hg => ?_,
                (inPool_setPhase h i fun _ hread => by cases hread).read⟩
              obtain ⟨s₁, hups, hmem⟩ := sightings_commit hok
              rcases hups.left g ((hmem g).mp hg).1 with hg | ⟨-, hmint⟩
              · exact h.stored g hg
              · exact List.mem_append_right _ (List.mem_flatMap.mpr
                  ⟨call, List.mem_of_getElem? hcall, hmint⟩)
          · exact inPool_setPhase h i fun _ hread => by cases hread
      · exact h

theorem inPool_start (r : Calls spine) : InPool r (.start spine) where
  stored _ hg := List.mem_append_left _ (List.mem_map_of_mem hg)
  read _ _ hread := by cases hread

/-- **One transaction.**  It leaves exactly its list if its call had read every
row outside. -/
theorem stores_commit_iff {r : Calls spine} {s : CallState} (h : InPool r s)
    {i : Nat} {existing : List (Id × String)} {call : Call} {spine' : Spine}
    (hphase : s.phase i = .read existing) (hcall : r.calls[i]? = some call)
    (hok : call.commit rules ssid existing s.spine = .ok spine') :
    (∀ e, spine'.Stores ssid e ↔ e ∈ call.incoming) ↔
      Commit.ReadOutside ssid ⟨call, s.spine, existing⟩ := by
  obtain ⟨s₁, hups, hmem⟩ := sightings_commit hok
  have hpool : ∀ g ∈ s₁.sightings, (g.id, g.externalId) ∈ r.pool := by
    intro g hg
    rcases hups.left g hg with hg | ⟨-, hmint⟩
    · exact h.stored g hg
    · exact List.mem_append_right _ (List.mem_flatMap.mpr
        ⟨call, List.mem_of_getElem? hcall, hmint⟩)
  -- a row is deleted exactly if its own chapter was read and is not in the list
  have hvanished : ∀ g ∈ s₁.sightings, g.id ∈ call.vanished existing ↔
      (g.id, g.externalId) ∈ existing ∧ g.externalId ∉ call.incoming := by
    intro g hg
    unfold Call.vanished
    simp only [List.mem_map, List.mem_filter, Bool.not_eq_true', List.contains_eq_mem,
      decide_eq_false_iff_not]
    constructor
    · rintro ⟨p, ⟨hp, hout⟩, hid⟩
      have hsame : p = (g.id, g.externalId) :=
        r.eq_of_pool (h.read i existing hphase p hp) (hpool g hg) hid
      subst hsame
      exact ⟨hp, hout⟩
    · intro hread
      exact ⟨(g.id, g.externalId), hread, rfl⟩
  constructor
  · intro hstores g hg hss hout
    by_contra hunread
    have hstays : spine'.Stores ssid g.externalId := by
      refine ⟨g, (hmem g).mpr ⟨hups.kept g hg, ?_⟩, hss, rfl⟩
      rw [hvanished g (hups.kept g hg)]
      exact fun hgone => hunread hgone.1
    exact hout ((hstores g.externalId).mp hstays)
  · intro hread e
    constructor
    · rintro ⟨g, hg, hss, rfl⟩
      obtain ⟨hg₁, hstays⟩ := (hmem g).mp hg
      by_contra hout
      rcases hups.left g hg₁ with hold | ⟨hin, -⟩
      · exact hstays ((hvanished g hg₁).mpr ⟨hread g hold hss hout, hout⟩)
      · exact hout hin
    · intro hin
      obtain ⟨g, hg, hss, rfl⟩ := hups.present e hin
      refine ⟨g, (hmem g).mpr ⟨hg, ?_⟩, hss, rfl⟩
      rw [hvanished g hg]
      exact fun hgone => hgone.2 hin

/-- After any run, the list of the last call is the one that is stored exactly
if that call had read every row outside it. -/
theorem lastWins_run (r : Calls spine) (ops : List CallOp) :
    ∀ c, (Machine.run (CallState.step rules ssid r.calls) (.start spine) ops).last =
      some c →
      ((∀ e, (Machine.run (CallState.step rules ssid r.calls) (.start spine)
        ops).spine.Stores ssid e ↔ e ∈ c.call.incoming) ↔ c.ReadOutside ssid) := by
  have hinv : ∀ s, (InPool r s ∧ ∀ c, s.last = some c →
      ((∀ e, s.spine.Stores ssid e ↔ e ∈ c.call.incoming) ↔ c.ReadOutside ssid)) →
      ∀ op, (InPool r (s.step rules ssid r.calls op) ∧
        ∀ c, (s.step rules ssid r.calls op).last = some c →
          ((∀ e, (s.step rules ssid r.calls op).spine.Stores ssid e ↔
            e ∈ c.call.incoming) ↔ c.ReadOutside ssid)) := by
    intro s hs op
    refine ⟨inPool_step hs.1 op, ?_⟩
    rcases spine_step rules ssid r.calls s op with
      ⟨hspine, hlast⟩ | ⟨i, existing, call, spine', -, hphase, hcall, hok, hstep⟩
    · rw [hspine, hlast]
      exact hs.2
    · rw [hstep]
      intro c hc
      cases hc
      exact stores_commit_iff hs.1 hphase hcall hok
  refine (Machine.run_invariant (fun s op hs => hinv s hs op) ?_ ops).2
  exact ⟨inPool_start r, fun c hc => by cases hc⟩

/-- A row whose chapter is stored before and after a step is the same row. -/
theorem sighting_step {calls : List Call} {s : CallState} {op : CallOp}
    {g : Sighting} (hg : g ∈ s.spine.sightings)
    (hstored : (s.step rules ssid calls op).spine.Stores g.sourceSeriesId
      g.externalId) : g ∈ (s.step rules ssid calls op).spine.sightings := by
  rcases spine_step rules ssid calls s op with
    ⟨hspine, -⟩ | ⟨i, existing, call, spine', -, -, -, hok, hstep⟩
  · rwa [hspine]
  · rw [hstep] at hstored ⊢
    obtain ⟨s₁, hups, hmem⟩ := sightings_commit hok
    obtain ⟨g', hg', hss, hext⟩ := hstored
    have hsame : g' = g :=
      eq_of_stored ((hmem g').mp hg').1 (hups.kept g hg) hss hext
    exact hsame ▸ hg'

/-- Over a run: a row whose chapter is stored in every state is the same row at the
end. -/
theorem sighting_run {calls : List Call} {s : CallState} {g : Sighting}
    (hg : g ∈ s.spine.sightings) {ops : List CallOp}
    (halways : Machine.Always (CallState.step rules ssid calls)
      (fun s => s.spine.Stores g.sourceSeriesId g.externalId) s ops) :
    g ∈ (Machine.run (CallState.step rules ssid calls) s ops).spine.sightings := by
  induction ops generalizing s with
  | nil => exact hg
  | cons op ops ih =>
      have hrest := (Machine.always_cons.mp halways).2
      have hnow : (s.step rules ssid calls op).spine.Stores g.sourceSeriesId
          g.externalId := hrest [] List.nil_prefix
      exact ih (sighting_step hg hnow) hrest

end Runs

/-- **When a whole list is replaced.**  Over any interleaving of any calls for one
mapping: the stored list is that of the call that committed last, and the rows stored
throughout are the same rows, exactly if that call had read every row outside its list
when its transaction began.  What it had not read, another call has stored since, and
nothing deletes it. -/
theorem wholeList_iff (rules : SpineRules) (ssid : Id) {spine : Spine}
    (r : Calls spine) (ops : List CallOp) :
    WholeList rules ssid r.calls spine ops ↔
      ∀ c, (Machine.run (CallState.step rules ssid r.calls) (.start spine) ops).last =
        some c → c.ReadOutside ssid := by
  constructor
  · intro h c hc
    exact (lastWins_run r ops c hc).mp (h.lastWins c hc)
  · intro h
    constructor
    · intro c hc
      exact (lastWins_run r ops c hc).mpr (h c hc)
    · intro g hg hss halways
      subst hss
      exact sighting_run hg halways

/-! ## Two first lists

The one way in which two lists end up together. -/

/-- The reader's fetch and the drain, for a mapping that has no chapter yet. -/
def firstLists : Calls ⟨["ss"], .empty⟩ where
  calls :=
    [⟨[("ch_1", ⟨"e1", some "1", none, none, none, none, none, none, none⟩)], "t1"⟩,
      ⟨[("ch_2", ⟨"e2", some "2", none, none, none, none, none, none, none⟩)], "t2"⟩]
  nodup := by decide
  new _ hg := absurd hg List.not_mem_nil

/-- A chapter is its own key and label, and nothing is dated. -/
def plainRules : SpineRules := ⟨fun ch => (ch.externalId, ch.externalId), fun _ => none⟩

/-- Both calls read before either commits: the chapter of the first stays with
the list of the second. -/
theorem not_wholeList_firstLists :
    let ops : List CallOp := [.read 0, .read 1, .commit 0, .commit 1]
    (∀ i < firstLists.calls.length,
      (Machine.run (CallState.step plainRules "ss" firstLists.calls)
        (.start ⟨["ss"], .empty⟩) ops).phase i = .committed) ∧
      ¬WholeList plainRules "ss" firstLists.calls ⟨["ss"], .empty⟩ ops := by
  intro ops
  refine ⟨by decide, fun h => ?_⟩
  have hlast : ∃ c, (Machine.run (CallState.step plainRules "ss" firstLists.calls)
      (.start ⟨["ss"], .empty⟩) ops).last = some c ∧ c.call.incoming = ["e2"] :=
    ⟨_, rfl, by decide⟩
  obtain ⟨c, hc, hincoming⟩ := hlast
  have hstored : (Machine.run (CallState.step plainRules "ss" firstLists.calls)
      (.start ⟨["ss"], .empty⟩) ops).spine.Stores "ss" "e1" :=
    ⟨⟨"ss", "e1", "ch_1", "t1"⟩, by decide, rfl, rfl⟩
  have hin := (h.lastWins c hc "e1").mp hstored
  rw [hincoming] at hin
  exact absurd hin (by decide)

end Komika.Catalog.Replacements
