import Komika.Catalog.Ledger
import Komika.Lib.Machine

/-!
# The keys of the spine

A chapter's `chapter_key` and `label` are computed from its own number, title
and external id, by `spine_key_and_label`.  Three writers set them: the upsert
of one chapter, the replacement of a mapping's list, and the drain that keys
the rows older than the columns.

The first two write the key in the statement that writes what it is computed
from.  The drain reads its batch before it opens its transaction, and then
writes by id alone; a row that was rewritten in between gets the key of the
row that was read.  `keysCoherent_iff` says when that does no harm.

The labels are a parameter: nothing depends on how a number is read, only on the key and
the label being functions of the three columns.

* `coherent_chapterRow` — a write that computes the key with its columns;
* `mem_foldl_writeKey`, `coherent_writeKeys_iff` — what the transaction of a batch does;
* `batchesProper_step` — a batch that is held has each row once;
* `keysCoherent_iff` — every run of interleaved writers;
* `not_keysCoherent_renumbered` — the overwrite of a rewritten row.
-/

namespace Komika.Catalog.SpineKeys

open Komika.Lib
open Komika.Catalog.Schema Komika.Catalog.Database Komika.Catalog.Ledger

/-! ## Labels

The label is what the reader sees, the key is what two releases of one chapter share. -/

/-- `ChapterLabel`; `ν` is the type of chapter numbers. -/
inductive ChapterLabel (ν : Type) where
  | numbered (n : ν)
  | unnumbered (raw : String)
deriving DecidableEq, Repr

/-- The pure functions of `chapter_label`. -/
structure LabelRules (ν : Type) where
  /-- `chapter_display(None, number, title)`. -/
  chapterDisplay : Option String → Option String → ChapterLabel ν
  /-- `((n * 100.0).round() as i64).to_string()`. -/
  hundredths : ν → String
  /-- `format_number`. -/
  formatNumber : ν → String

variable {ν : Type}

/-- `ChapterLabel::text`, which a reader sees. -/
def ChapterLabel.text (labels : LabelRules ν) : ChapterLabel ν → String
  | .numbered n => labels.formatNumber n
  | .unnumbered raw => raw

/-- `ChapterLabel::key`: by number, or by the id of the chapter where it has none. -/
def ChapterLabel.key (labels : LabelRules ν) (identity : String) :
    ChapterLabel ν → String
  | .numbered n => labels.hundredths n
  | .unnumbered _ => "x:" ++ identity

/-- `spine_key_and_label`: both columns, from one label. -/
def spineKeyAndLabel (labels : LabelRules ν) (ch : ChapterInput) :
    String × String :=
  let label := labels.chapterDisplay ch.number ch.title
  (label.key labels ch.externalId, label.text labels)

/-- The rules of the writers, with these labels. -/
def spineRules (labels : LabelRules ν) (strftimeSeconds : String → Option Int) :
    SpineRules :=
  ⟨spineKeyAndLabel labels, strftimeSeconds⟩

/-! ## The drain

It keys the rows from before the columns, a batch at a time, and is done when a batch
comes back empty. -/

/-- `KEY_BATCH`: how many rows one batch of the drain reads. -/
def keyBatch : Nat := 500

/-- A row of the drain's batch: what the key is computed from. -/
structure KeyRow where
  id : Id
  externalId : String
  number : Option String
  title : Option String
deriving DecidableEq, Repr

/-- The columns of a chapter that a batch reads. -/
def keyRow (c : Chapter) : KeyRow := ⟨c.id, c.externalId, c.number, c.title⟩

/-- The key and the label that the drain computes. -/
def KeyRow.keyAndLabel (labels : LabelRules ν) (r : KeyRow) : String × String :=
  spineKeyAndLabel labels
    { externalId := r.externalId, number := r.number, title := r.title
      volume := none, lang := none, publishedAt := none, readableAt := none
      externalUrl := none, scanlator := none }

/-- `SELECT id, external_id, number, title … WHERE chapter_key IS NULL LIMIT ?`. -/
def unkeyed (db : Db) : List KeyRow :=
  ((db.chapter.rows.filter fun c => c.chapterKey = none).take keyBatch).map keyRow

/-- `SET chapter_key = ?, label = ?`. -/
def setKey (key : String × String) (c : Chapter) : Chapter :=
  { c with chapterKey := some key.1, label := some key.2 }

theorem setKey_keepsKeys (key : String × String) :
    Table.KeepsKeys (setKey key) := fun _ _ => rfl

/-- The `UPDATE` of one row: by id alone. -/
def writeKey (labels : LabelRules ν) (t : Table Chapter) (r : KeyRow) :
    Table Chapter :=
  t.update (fun c => c.id = r.id) (setKey (r.keyAndLabel labels))
    (setKey_keepsKeys (r.keyAndLabel labels))

/-- The transaction of `drain_chapter_keys`. -/
def writeKeys (labels : LabelRules ν) (rows : List KeyRow) (db : Db) : Db :=
  { db with chapter := rows.foldl (writeKey labels) db.chapter }

/-! ## Replacing a list

The other writer whose read and write are apart; its rows carry keys that are computed
from the rows themselves. -/

/-- What `replace_source_chapters` holds when it opens its transaction; each
chapter comes with the id minted for it. -/
structure ReplacePlan where
  sourceSeriesId : Id
  chapters : List (Id × ChapterInput)
  vanished : List Id

/-- The read outside the transaction. -/
def planReplace (sourceSeriesId : Id) (chapters : List (Id × ChapterInput))
    (db : Db) : ReplacePlan :=
  let incoming := (chapters.map fun c => c.2.externalId).filter (· ≠ "")
  ⟨sourceSeriesId, chapters, (db.chapter.rows.filter fun c =>
    c.sourceSeriesId = sourceSeriesId && !incoming.contains c.externalId).map
      Chapter.id⟩

/-- The transaction: what the call brings is written, what had vanished when it read is
deleted. -/
def commitReplace (rules : SpineRules) (plan : ReplacePlan) (db : Db) :
    Except CatalogError (Unit × Db) :=
  let rows := (plan.chapters.filter fun c => c.2.externalId ≠ "").map fun c =>
    chapterRow rules c.1 plan.sourceSeriesId c.2
  match writeChapters rows db with
  | .ok db => .ok ((), { db with
      chapter := db.chapter.deleteWhere fun c => plan.vanished.contains c.id })
  | .error e => .error e

/-- With nothing in between, the two are `replace_source_chapters`. -/
theorem commitReplace_planReplace (rules : SpineRules) (sourceSeriesId : Id)
    (chapters : List (Id × ChapterInput)) (db : Db) :
    commitReplace rules (planReplace sourceSeriesId chapters db) db =
      replaceSourceChapters rules sourceSeriesId chapters db := rfl

/-! ## Interleavings

The batches that are held are part of the state, so that any number of other writes may
come before the transaction of one. -/

/-- The database, the batches that have been read, and the replacements that
have. -/
structure SpineState where
  db : Db
  batches : List (List KeyRow)
  replaces : List ReplacePlan

/-- What the writers of the spine do; the drain and the replacement each take two
steps. -/
inductive SpineOp where
  | readBatch
  /-- The `i`-th batch runs its transaction. -/
  | writeBatch (i : Nat)
  | upsertChapter (newId sourceSeriesId : Id) (ch : ChapterInput)
  | planReplace (sourceSeriesId : Id) (chapters : List (Id × ChapterInput))
  /-- The `i`-th replacement runs its transaction. -/
  | commitReplace (i : Nat)

/-- A step of one of the writers.  A statement that fails rolls back, and leaves the
database as it was. -/
def SpineState.step (labels : LabelRules ν)
    (strftimeSeconds : String → Option Int) (s : SpineState) :
    SpineOp → SpineState
  | .readBatch =>
      let rows := unkeyed s.db
      if rows = [] then s else { s with batches := s.batches ++ [rows] }
  | .writeBatch i =>
      match s.batches[i]? with
      | none => s
      | some rows =>
          { s with db := writeKeys labels rows s.db
                   batches := s.batches.eraseIdx i }
  | .upsertChapter newId sourceSeriesId ch =>
      { s with db := s.db.commit (upsertChapter
          (spineRules labels strftimeSeconds) newId sourceSeriesId ch s.db) }
  | .planReplace sourceSeriesId chapters =>
      { s with
        replaces := s.replaces ++ [planReplace sourceSeriesId chapters s.db] }
  | .commitReplace i =>
      match s.replaces[i]? with
      | none => s
      | some plan =>
          { s with
            db := s.db.commit
              (commitReplace (spineRules labels strftimeSeconds) plan s.db)
            replaces := s.replaces.eraseIdx i }

/-- Nothing is under way. -/
def SpineState.start (db : Db) : SpineState := ⟨db, [], []⟩

/-! ## Coherence -/

/-- A chapter that has a key has its own key and label. -/
def Coherent (labels : LabelRules ν) (c : Chapter) : Prop :=
  c.chapterKey ≠ none →
    c.chapterKey = some ((keyRow c).keyAndLabel labels).1 ∧
      c.label = some ((keyRow c).keyAndLabel labels).2

/-- Every chapter of the state is coherent. -/
def KeysCoherent (labels : LabelRules ν) (s : SpineState) : Prop :=
  ∀ c ∈ s.db.chapter, Coherent labels c

/-- Each row of a batch that is written, and is still there, has the key and
the label it had when it was read. -/
def StillCurrent (labels : LabelRules ν) (s : SpineState) (op : SpineOp) : Prop :=
  ∀ i rows, op = .writeBatch i → s.batches[i]? = some rows →
    ∀ r ∈ rows, ∀ c ∈ s.db.chapter, c.id = r.id →
      (keyRow c).keyAndLabel labels = r.keyAndLabel labels

/-- A batch has each row once. -/
def BatchesProper (s : SpineState) : Prop :=
  ∀ rows ∈ s.batches, (rows.map KeyRow.id).Nodup

section Writers

variable {labels : LabelRules ν} {strftimeSeconds : String → Option Int}

/-- The upsert writes the key with what it is computed from. -/
theorem coherent_chapterRow (newId sourceSeriesId : Id) (ch : ChapterInput) :
    Coherent labels
      (chapterRow (spineRules labels strftimeSeconds) newId sourceSeriesId ch) :=
  fun _ => ⟨rfl, rfl⟩

/-- The conflict clause takes the key and the columns from the same row. -/
theorem coherent_refreshChapter {new old : Chapter} (h : Coherent labels new)
    (hext : old.externalId = new.externalId) :
    Coherent labels (refreshChapter new old) := by
  intro hkey
  have hrow : (keyRow (refreshChapter new old)).keyAndLabel labels =
      (keyRow new).keyAndLabel labels := by
    simp [KeyRow.keyAndLabel, spineKeyAndLabel, keyRow, refreshChapter, hext]
  rw [hrow]
  exact h hkey

theorem coherent_writeChapter {row : Chapter} {db db' : Db}
    (hrow : Coherent labels row) (hdb : ∀ c ∈ db.chapter, Coherent labels c)
    (h : writeChapter row db = .ok db') : ∀ c ∈ db'.chapter, Coherent labels c := by
  unfold writeChapter at h
  dsimp only at h
  split at h
  · cases h
    intro c hc
    obtain ⟨old, hold, rfl⟩ :=
      (Table.mem_update (h := refreshChapter_keepsKeys row)).mp hc
    split
    · next hsame =>
        rw [Bool.and_eq_true, decide_eq_true_eq, decide_eq_true_eq] at hsame
        exact coherent_refreshChapter hrow hsame.2
    · exact hdb old hold
  · split at h
    · split at h
      · next chapter hinsert =>
          cases h
          intro c hc
          rcases (Table.mem_of_insert hinsert).mp hc with hc | rfl
          · exact hdb c hc
          · exact hrow
      · contradiction
    · contradiction

theorem coherent_writeChapters {rows : List Chapter} {db db' : Db}
    (hrows : ∀ row ∈ rows, Coherent labels row)
    (hdb : ∀ c ∈ db.chapter, Coherent labels c)
    (h : writeChapters rows db = .ok db') :
    ∀ c ∈ db'.chapter, Coherent labels c := by
  induction rows generalizing db with
  | nil =>
      cases h
      exact hdb
  | cons row rows ih =>
      unfold writeChapters at h
      rw [List.foldlM_cons] at h
      cases hwrite : writeChapter row db with
      | error e =>
          rw [hwrite] at h
          contradiction
      | ok db'' =>
          rw [hwrite] at h
          have hrow := hrows row List.mem_cons_self
          exact ih (fun r hr => hrows r (List.mem_cons_of_mem _ hr))
            (coherent_writeChapter hrow hdb hwrite) h

theorem coherent_upsertChapter {newId sourceSeriesId : Id} {ch : ChapterInput}
    {db db' : Db} {u : Unit} (hdb : ∀ c ∈ db.chapter, Coherent labels c)
    (h : upsertChapter (spineRules labels strftimeSeconds) newId sourceSeriesId ch
      db = .ok (u, db')) : ∀ c ∈ db'.chapter, Coherent labels c := by
  unfold upsertChapter at h
  split at h
  · cases h
    exact hdb
  · split at h
    · next hwrite =>
        cases h
        exact coherent_writeChapter (coherent_chapterRow _ _ _) hdb hwrite
    · contradiction

theorem coherent_commitReplace {plan : ReplacePlan} {db db' : Db} {u : Unit}
    (hdb : ∀ c ∈ db.chapter, Coherent labels c)
    (h : commitReplace (spineRules labels strftimeSeconds) plan db = .ok (u, db')) :
    ∀ c ∈ db'.chapter, Coherent labels c := by
  unfold commitReplace at h
  dsimp only at h
  split at h
  · next hwrite =>
      cases h
      intro c hc
      refine coherent_writeChapters ?_ hdb hwrite c (Table.mem_deleteWhere.mp hc).1
      intro row hrow
      obtain ⟨ch, -, rfl⟩ := List.mem_map.mp hrow
      exact coherent_chapterRow _ _ _
  · contradiction

end Writers

/-! ## What a batch writes

The updates of a batch go by id, and ids are distinct, so each row is written at most
once. -/

section Batch

variable {labels : LabelRules ν}

/-- A row of the batch gets its key, and the other rows keep theirs. -/
theorem mem_foldl_writeKey {rows : List KeyRow} {t : Table Chapter}
    (hrows : (rows.map KeyRow.id).Nodup) {c : Chapter} :
    c ∈ rows.foldl (writeKey labels) t ↔ ∃ old ∈ t,
      (∃ r ∈ rows, old.id = r.id ∧ c = setKey (r.keyAndLabel labels) old) ∨
        ((∀ r ∈ rows, old.id ≠ r.id) ∧ c = old) := by
  have hapart : rows.Pairwise fun r q => ∀ c : Chapter,
      decide (c.id = r.id) = true → decide (c.id = q.id) = false := by
    refine (List.pairwise_map.mp hrows).imp fun hne c hc => ?_
    simpa [of_decide_eq_true hc] using hne
  have hkeep : ∀ (r q : KeyRow) (c : Chapter),
      decide ((setKey (r.keyAndLabel labels) c).id = q.id) = decide (c.id = q.id) :=
    fun _ _ _ => rfl
  have h : c ∈ rows.foldl (writeKey labels) t ↔ _ := Table.mem_foldl_update_apart
    (h := fun r => setKey_keepsKeys (KeyRow.keyAndLabel labels r)) hkeep hapart
  simpa using h

/-- A chapter that is given a key is coherent exactly if the key is its own. -/
theorem coherent_setKey_iff {key : String × String} {c : Chapter} :
    Coherent labels (setKey key c) ↔ (keyRow c).keyAndLabel labels = key := by
  simp only [Coherent, setKey, ne_eq, reduceCtorEq, not_false_eq_true,
    forall_const, Option.some.injEq, Prod.ext_iff]
  exact and_congr eq_comm eq_comm

/-- A batch that is written keeps the keys coherent exactly if it writes every row the
key of what the row is now. -/
theorem coherent_writeKeys_iff {rows : List KeyRow} {db : Db}
    (hrows : (rows.map KeyRow.id).Nodup)
    (hdb : ∀ c ∈ db.chapter, Coherent labels c) :
    (∀ c ∈ (writeKeys labels rows db).chapter, Coherent labels c) ↔
      ∀ r ∈ rows, ∀ c ∈ db.chapter, c.id = r.id →
        (keyRow c).keyAndLabel labels = r.keyAndLabel labels := by
  unfold writeKeys
  constructor
  · intro h r hr c hc hid
    apply coherent_setKey_iff.mp
    exact h _ ((mem_foldl_writeKey hrows).mpr ⟨c, hc, .inl ⟨r, hr, hid, rfl⟩⟩)
  · intro h c hc
    obtain ⟨old, hold, ⟨r, hr, hid, rfl⟩ | ⟨-, rfl⟩⟩ :=
      (mem_foldl_writeKey hrows).mp hc
    · exact coherent_setKey_iff.mpr (h r hr old hold hid)
    · exact hdb c hold

end Batch

/-! ## Runs

One step of the equivalence, and the induction over the run. -/

section Runs

variable {labels : LabelRules ν} {strftimeSeconds : String → Option Int}
  {s : SpineState} {op : SpineOp}

/-- The select has each id once, as ids are keys. -/
theorem nodup_unkeyed (db : Db) : ((unkeyed db).map KeyRow.id).Nodup := by
  have hids : (db.chapter.rows.map Chapter.id).Nodup := by
    refine List.pairwise_map.mpr (db.chapter.unique.imp ?_)
    intro a b hab hid
    simp [clash, hid] at hab
  have hsub : ((db.chapter.rows.filter fun c => c.chapterKey = none).take
      keyBatch).Sublist db.chapter.rows :=
    (List.take_sublist _ _).trans List.filter_sublist
  have hmap : (unkeyed db).map KeyRow.id = ((db.chapter.rows.filter fun c =>
      c.chapterKey = none).take keyBatch).map Chapter.id := by
    rw [unkeyed, List.map_map]
    rfl
  rw [hmap]
  exact hids.sublist (hsub.map Chapter.id)

/-- Batches come from the select only. -/
theorem batchesProper_step (h : BatchesProper s) :
    BatchesProper (s.step labels strftimeSeconds op) := by
  intro rows hrows
  unfold SpineState.step at hrows
  cases op with
  | readBatch =>
      dsimp only at hrows
      split at hrows
      · exact h rows hrows
      · rcases List.mem_append.mp hrows with hrows | hrows
        · exact h rows hrows
        · rw [List.mem_singleton.mp hrows]
          exact nodup_unkeyed s.db
  | writeBatch i =>
      dsimp only at hrows
      split at hrows
      · exact h rows hrows
      · exact h rows (List.mem_of_mem_eraseIdx hrows)
  | upsertChapter => exact h rows hrows
  | planReplace => exact h rows hrows
  | commitReplace i =>
      dsimp only at hrows
      split at hrows <;> exact h rows hrows

/-- A step keeps the keys coherent exactly if the batch it writes is current. -/
theorem keysCoherent_step_iff (hproper : BatchesProper s)
    (h : KeysCoherent labels s) :
    KeysCoherent labels (s.step labels strftimeSeconds op) ↔
      StillCurrent labels s op := by
  cases op with
  | readBatch =>
      refine iff_of_true ?_ fun _ _ hop => by cases hop
      unfold SpineState.step
      dsimp only
      split <;> exact h
  | writeBatch i =>
      cases hbatch : s.batches[i]? with
      | none =>
          have hstep : s.step labels strftimeSeconds (.writeBatch i) = s := by
            simp [SpineState.step, hbatch]
          rw [hstep]
          refine iff_of_true h fun j rows hop hrows => ?_
          cases hop
          rw [hbatch] at hrows
          contradiction
      | some rows =>
          have hrows := hproper rows (List.mem_of_getElem? hbatch)
          have hstep : (s.step labels strftimeSeconds (.writeBatch i)).db =
              writeKeys labels rows s.db := by
            simp [SpineState.step, hbatch]
          rw [KeysCoherent, hstep, coherent_writeKeys_iff hrows h]
          constructor
          · intro hcurrent j rows' hop hrows'
            cases hop
            rw [hbatch, Option.some.injEq] at hrows'
            exact hrows' ▸ hcurrent
          · intro hcurrent
            exact hcurrent i rows rfl hbatch
  | upsertChapter newId sourceSeriesId ch =>
      refine iff_of_true ?_ fun _ _ hop => by cases hop
      exact commit_cases (P := fun db => ∀ c ∈ db.chapter, Coherent labels c) h
        fun u db' hok => coherent_upsertChapter h hok
  | planReplace => exact iff_of_true h fun _ _ hop => by cases hop
  | commitReplace i =>
      refine iff_of_true ?_ fun _ _ hop => by cases hop
      unfold SpineState.step
      dsimp only
      split
      · exact h
      · exact commit_cases (P := fun db => ∀ c ∈ db.chapter, Coherent labels c) h
          fun u db' hok => coherent_commitReplace h hok

/-- **When the keys stay coherent.**  From any database, over any interleaving of
drains, upserts and replacements: every state has coherent keys exactly if the first
has, and every batch is still current when it is written.  A drain computes its keys
from what it has read; an upsert in between changes the number, and the batch writes the
key of the old one over it. -/
theorem keysCoherent_iff (labels : LabelRules ν)
    (strftimeSeconds : String → Option Int) (db : Db) (ops : List SpineOp) :
    Machine.Always (SpineState.step labels strftimeSeconds) (KeysCoherent labels)
        (.start db) ops ↔
      KeysCoherent labels (.start db) ∧
        Machine.EachStep (SpineState.step labels strftimeSeconds)
          (StillCurrent labels) (.start db) ops := by
  have hproper : ∀ s op, BatchesProper s →
      BatchesProper (s.step labels strftimeSeconds op) :=
    fun s op h => batchesProper_step h
  have hstep : ∀ s op, BatchesProper s → KeysCoherent labels s →
      (KeysCoherent labels (s.step labels strftimeSeconds op) ↔
        StillCurrent labels s op) :=
    fun s op hs h => keysCoherent_step_iff hs h
  have hstart : BatchesProper (.start db) :=
    fun rows hrows => absurd hrows List.not_mem_nil
  exact Machine.always_iff_eachStep hproper hstep hstart

end Runs

/-! ## A chapter renumbered while the drain runs -/

/-- Labels of chapters whose number is integral and sane. -/
def integralLabels : LabelRules String where
  chapterDisplay number title :=
    match number with
    | some n => .numbered n
    | none => .unnumbered (title.getD "Oneshot")
  hundredths n := n ++ "00"
  formatNumber n := n

/-- One mapping with one chapter that has no key yet. -/
def oneUnkeyed : Db :=
  { Db.empty with
    sourceSeries := ⟨[⟨"s1", "w", "mangadex", "mangadex", "m1", none, false, none⟩],
      by decide⟩
    chapter := ⟨[⟨"c1", "s1", "e1", some "1", none, none, none, none, none, none,
      none, none, none⟩], by decide⟩ }

/-- The chapter as the firehose offers it. -/
def renumbered : ChapterInput :=
  ⟨"e1", some "2", none, none, none, none, none, none, none⟩

/-- The drain reads chapter 1, the firehose makes it chapter 2, and the drain
writes the key of chapter 1. -/
theorem not_keysCoherent_renumbered :
    KeysCoherent integralLabels (.start oneUnkeyed) ∧
      ¬Machine.Always (SpineState.step integralLabels fun _ => none)
        (KeysCoherent integralLabels) (.start oneUnkeyed)
        [.readBatch, .upsertChapter "c2" "s1" renumbered, .writeBatch 0] := by
  constructor
  · intro c hc hkey
    rw [List.mem_singleton.mp hc] at hkey
    contradiction
  · intro h
    have hrows : (Machine.run (SpineState.step integralLabels fun _ => none)
        (.start oneUnkeyed) [.readBatch, .upsertChapter "c2" "s1" renumbered,
          .writeBatch 0]).db.chapter.rows =
        [⟨"c1", "s1", "e1", some "2", none, none, none, none, none, none, none,
          some "100", some "1"⟩] := by decide
    have hchapter := h.last _ (Table.mem_rows.mp (hrows ▸ List.mem_singleton_self _))
    have hkey := (hchapter (by decide)).1
    exact absurd hkey (by decide)

end Komika.Catalog.SpineKeys
