import Komika.Lib.Obligation
import Komika.Catalog.Effects
import Komika.Catalog.Runs

/-!
# The NSFW flag of a work

Every gate reads `COALESCE(is_nsfw_override, is_nsfw)`.  A source marks a work,
a sync refreshes it, a merge folds two flags into one and a split hands the flag
of the parent down; an admin may overrule them all, and a MangaDex rating of
`safe` or `suggestive` overrules the sources.

A work that is flagged stays so, and so do the work it is merged into and the
works split from it, until one of the two rules otherwise.  The one step that
breaks this is a sync with a record that has no rating the server knows:
`escalation_kept_iff`.

The statement is an obligation in the sense of `Lib.Obligation`: flagged works are
marked, a merge and a split hand the mark to heirs, a ruling excuses.  `Stays` is the
relation between the flags of one work before and of one work after, proved for each
writer; `passes_iff` turns it into the condition on a step, and the library's rule
carries it to runs.

* `stays_merged`, `stays_commitSplit` — the flag goes with the merge and down the split;
* `stays_upsert_iff` — a sync keeps it exactly if its record is rated one way or the
  other;
* `escalation_kept_iff` — along every run;
* `not_escalation_kept_markThenSync` — the sync that takes the flag.
-/

namespace Komika.Catalog.Escalation

open Komika.Lib
open Komika.Catalog.Schema Komika.Catalog.Database Komika.Catalog.Ingest
open Komika.Catalog.Merge Komika.Catalog.Split Komika.Catalog.Runs
open Komika.Catalog.Effects

/-! ## The writers of the flag

What writes `is_nsfw` and its override; merges, splits and syncs are those of the
catalogue. -/

/-- The source says so. -/
def setNsfw (w : Work) : Work := { w with isNsfw := true }

/-- The flag is in no key. -/
theorem setNsfw_keepsKeys : Table.KeepsKeys setNsfw := fun _ _ => rfl

/-- `mark_work_nsfw`: sets the flag, unless the work is rated safe. -/
def markWorkNsfw (workId : Id) (db : Db) : Db :=
  { db with
    work := db.work.update (fun w => w.id = workId && !w.isNsfw && !ratedSafe w)
      setNsfw setNsfw_keepsKeys }

/-- Marking a work leaves the works that there are. -/
theorem hasWork_markWorkNsfw (workId id : Id) (db : Db) :
    (markWorkNsfw workId db).hasWork id = db.hasWork id := hasWork_update

/-- An admin says so, either way. -/
def setNsfwOverride (nsfw : Bool) (w : Work) : Work :=
  { w with isNsfwOverride := some nsfw }

/-- The override is in no key. -/
theorem setNsfwOverride_keepsKeys (nsfw : Bool) :
    Table.KeepsKeys (setNsfwOverride nsfw) := fun _ _ => rfl

/-- `UPDATE work SET is_nsfw_override = ?`, of an admin who has decided. -/
def overrideNsfw (workId : Id) (nsfw : Bool) (db : Db) : Db :=
  { db with
    work := db.work.update (fun w => w.id = workId) (setNsfwOverride nsfw)
      (setNsfwOverride_keepsKeys nsfw) }

/-- The writers of the flag and of the rows that carry it from work to work. -/
inductive FlagEvent where
  | markWorkNsfw (workId : Id)
  | overrideNsfw (workId : Id) (nsfw : Bool)
  | upsertWorkFromMangadex (newWorkId newSourceSeriesId : Id) (mangadexId : String)
      (input : WorkInput) (now : String)
  | mergeWorks (source target : Id) (expected : Option (WorkIdentity × WorkIdentity))
  | planSplit (workId : Id) (sourceSeriesIds : List Id)
  | commitSplit (i : Nat) (newWorkId : Id) (actor : Option Id)

/-- The step of the catalogue, for the writers that are one. -/
def FlagEvent.op : FlagEvent → Option Op
  | .markWorkNsfw _ => none
  | .overrideNsfw _ _ => none
  | .upsertWorkFromMangadex newWorkId newSourceSeriesId mangadexId input now =>
      some (.upsertWorkFromMangadex newWorkId newSourceSeriesId mangadexId input now)
  | .mergeWorks source target expected => some (.mergeWorks source target expected)
  | .planSplit workId sourceSeriesIds => some (.planSplit workId sourceSeriesIds)
  | .commitSplit i newWorkId actor => some (.commitSplit i newWorkId actor)

/-- The two writers of the flag itself, and the steps of the catalogue. -/
def step (rules : Rules) (s : CatalogState) (e : FlagEvent) : CatalogState :=
  match e with
  | .markWorkNsfw workId => { s with db := markWorkNsfw workId s.db }
  | .overrideNsfw workId nsfw => { s with db := overrideNsfw workId nsfw s.db }
  | e => (e.op.map (s.step rules)).getD s

/-! ## What is owed -/

/-- The ids of the works that are flagged. -/
def flagged (s : CatalogState) : List Id :=
  (s.db.work.rows.filter Work.effectiveNsfw).map Work.id

/-- An admin or MangaDex has ruled on the work. -/
def ruled (w : Work) : Bool := w.isNsfwOverride = some false || ratedSafe w

/-- The work has been ruled on. -/
def ruledOn (s : CatalogState) (id : Id) : Bool :=
  s.db.work.rows.any fun w => w.id = id && ruled w

/-- The survivor of a merge. -/
def survivor (rules : Rules) (s : CatalogState) (op : Op) (id : Id) : Id :=
  match s.merges rules op with
  | some (source, target) => if id = source then target else id
  | none => id

/-- The work a split takes from this one. -/
def offspring (rules : Rules) (s : CatalogState) (op : Op) (id : Id) : List Id :=
  match s.splits rules op with
  | some (old, new) => if id = old then [new] else []
  | none => []

/-- A merge hands the work on to its survivor, a split to the new work as well. -/
def heirs (rules : Rules) (s : CatalogState) (e : FlagEvent) (id : Id) : List Id :=
  match e.op with
  | none => [id]
  | some op => survivor rules s op id :: offspring rules s op id

/-- The rule: flagged works oblige their heirs until a ruling. -/
def escalation (rules : Rules) : Obligation.Rule CatalogState FlagEvent Id where
  marked := flagged
  heirs := heirs rules
  excused := ruledOn

/-- A rating of `safe` or `suggestive`. -/
def recordRatedSafe (input : WorkInput) : Bool :=
  input.contentRating = some "safe" || input.contentRating = some "suggestive"

/-- The sync takes the flag of a work that no admin has ruled on, from a record
that is not flagged and not rated safe either. -/
def Unflags (s : CatalogState) (e : FlagEvent) : Prop :=
  match e with
  | .upsertWorkFromMangadex newWorkId newSourceSeriesId mangadexId input _ =>
      newWorkId ∉ s.minted ∧ newSourceSeriesId ∉ s.minted ∧
        ((∃ r ∈ s.db.sourceSeries, r.key = ("mangadex", "mangadex", mangadexId)) ∨
          ∀ r ∈ s.db.sourceSeries, r.id ≠ newSourceSeriesId) ∧
        input.isNsfw = false ∧ recordRatedSafe input = false ∧
        ∃ w ∈ s.db.work, w.id = (externalWork s.db "mangadex" mangadexId).getD newWorkId ∧
          w.isNsfw = true ∧ w.isNsfwOverride = none
  | _ => False

/-! ## What each writer does to the flags

`Stays` for each of them, from the rows that `Effects` describes. -/

/-- If the first work is flagged, the second is, or has been ruled on. -/
def Stays (db db' : Db) (id id' : Id) : Prop :=
  ∀ w ∈ db.work, w.id = id → w.effectiveNsfw = true →
    ∃ w' ∈ db'.work, w'.id = id' ∧ (w'.effectiveNsfw = true ∨ ruled w' = true)

section Writers

variable {db db' : Db} {id : Id}

/-- A step that leaves the works alone. -/
theorem stays_of_work_eq (h : db'.work = db.work) : Stays db db' id id :=
  fun w hw hid hflag => ⟨w, h ▸ hw, hid, .inl hflag⟩

/-- An update that leaves every flagged row flagged, or ruled on. -/
theorem stays_update {p : Work → Bool} {f : Work → Work} {h : Table.KeepsKeys f}
    (hid : ∀ w, (f w).id = w.id)
    (hf : ∀ w ∈ db.work, w.effectiveNsfw = true →
      (f w).effectiveNsfw = true ∨ ruled (f w) = true) :
    Stays db { db with work := db.work.update p f h } id id := by
  intro w hw hwid hflag
  have hmem : (if p w then f w else w) ∈ db.work.update p f h :=
    Table.mem_update.mpr ⟨w, hw, rfl⟩
  refine ⟨_, hmem, ?_, ?_⟩
  · split
    · exact (hid w).trans hwid
    · exact hwid
  · split
    · exact hf w hw hflag
    · exact .inl hflag

theorem stays_markWorkNsfw (workId : Id) : Stays db (markWorkNsfw workId db) id id := by
  refine stays_update (fun _ => rfl) fun w _ hflag => .inl ?_
  show w.isNsfwOverride.getD true = true
  cases hover : w.isNsfwOverride with
  | none => rfl
  | some b => simpa [Work.effectiveNsfw, hover] using hflag

theorem stays_overrideNsfw (workId : Id) (nsfw : Bool) :
    Stays db (overrideNsfw workId nsfw db) id id := by
  refine stays_update (fun _ => rfl) fun w _ _ => ?_
  cases nsfw with
  | false => exact .inr rfl
  | true => exact .inl rfl

/-- What a sync leaves of a row it refreshes. -/
theorem effectiveNsfw_refreshWork {old : Work} {input : WorkInput} {workId : Id}
    (hflag : old.effectiveNsfw = true)
    (hkeeps : input.isNsfw = true ∨ recordRatedSafe input = true ∨
      old.isNsfwOverride ≠ none) :
    (refreshWork old (input.row workId)).effectiveNsfw = true ∨
      ruled (refreshWork old (input.row workId)) = true := by
  cases hover : old.isNsfwOverride with
  | some b =>
      refine .inl ?_
      simpa [Work.effectiveNsfw, refreshWork, hover] using hflag
  | none =>
      rcases hkeeps with hnsfw | hsafe | hne
      · refine .inl ?_
        show old.isNsfwOverride.getD input.isNsfw = true
        rw [hover, hnsfw]
        rfl
      · refine .inr ?_
        show (decide (old.isNsfwOverride = some false) || recordRatedSafe input) = true
        rw [hsafe, Bool.or_true]
      · exact absurd hover hne

/-- A sync keeps the flag if its record is flagged or rated safe, or an admin has
ruled. -/
theorem stays_upsert {rules : TextRules} {newWorkId newSourceSeriesId outId : Id}
    {mangadexId : String} {input : WorkInput} {now : String}
    (h : upsertWorkFromMangadex rules newWorkId newSourceSeriesId mangadexId input now
      db = .ok (outId, db'))
    (hkeeps : ∀ w ∈ db.work, w.id = outId → w.isNsfw = true → w.isNsfwOverride = none →
      input.isNsfw = true ∨ recordRatedSafe input = true) : Stays db db' id id := by
  have hwork := work_upsertWorkFromMangadex h
  intro w hw hid hflag
  by_cases hclash : clash (input.row outId) w = true
  · refine ⟨refreshWork w (input.row outId), ?_, hid, ?_⟩
    · rw [hwork, Table.mem_upsert]
      exact .inr (.inr ⟨w, hw, hclash, rfl⟩)
    · have hout : w.id = outId := (of_decide_eq_true hclash : outId = w.id).symm
      refine effectiveNsfw_refreshWork hflag ?_
      cases hover : w.isNsfwOverride with
      | some b => exact .inr (.inr (Option.some_ne_none b))
      | none =>
          have hbase : w.isNsfw = true := by simpa [Work.effectiveNsfw, hover] using hflag
          exact (hkeeps w hw hout hbase hover).imp_right .inl
  · refine ⟨w, ?_, hid, .inl hflag⟩
    rw [hwork, Table.mem_upsert]
    exact .inl ⟨hw, Bool.not_eq_true _ ▸ hclash⟩

/-- A row that survives a merge. -/
theorem mem_work_merged {rules : TextRules} {source target : Id} {s x : Work}
    (hs : db.work? source = some s) :
    x ∈ (merged rules source target db).work ↔
      (∃ w ∈ db.work, x = if w.id = target then absorb s w else w) ∧ x.id ≠ source := by
  have hwrite : (merged rules source target db).work =
      ((foldWorkRow source target db).work.deleteWhere fun w => w.id = source) := rfl
  have hfold : (foldWorkRow source target db).work =
      db.work.update (fun w => w.id = target) (absorb s) (absorb_keepsKeys s) := by
    unfold foldWorkRow
    rw [hs]
  rw [hwrite, hfold, Table.mem_deleteWhere, Table.mem_update]
  simp only [decide_eq_true_eq, decide_eq_false_iff_not, ne_eq]

theorem absorb_of_target {s w : Work} (hflag : w.effectiveNsfw = true) :
    (absorb s w).effectiveNsfw = true := by
  unfold Work.effectiveNsfw at hflag ⊢
  unfold absorb
  cases hover : w.isNsfwOverride with
  | none =>
      rw [hover] at hflag
      cases hs : s.isNsfwOverride with
      | none => simp_all
      | some b => cases b <;> simp_all
  | some b => simp_all

/-- And a flagged source makes it flagged, unless there has been a ruling. -/
theorem absorb_of_source {s w : Work} (hflag : s.effectiveNsfw = true) :
    (absorb s w).effectiveNsfw = true ∨ ruled (absorb s w) = true := by
  unfold Work.effectiveNsfw at hflag ⊢
  unfold ruled absorb
  cases hover : w.isNsfwOverride with
  | some b => cases b <;> simp_all
  | none =>
      cases hs : s.isNsfwOverride with
      | some b => cases b <;> simp_all
      | none =>
          cases hsafe : ratedSafe w
          · simp_all
          · simp_all [ratedSafe]

/-- The work that is found is live. -/
theorem work?_some {w : Work} (h : db.work? id = some w) : w ∈ db.work ∧ w.id = id :=
  ⟨List.mem_of_find?_eq_some h, by simpa using List.find?_some h⟩

/-- Ids are a key of `work`. -/
theorem work_unique {w w' : Work} (hw : w ∈ db.work) (hw' : w' ∈ db.work)
    (hid : w.id = w'.id) : w = w' :=
  Table.eq_of_clash hw hw' (decide_eq_true hid)

/-- A merge keeps the flags of both works on the survivor. -/
theorem stays_merged (rules : TextRules) {source target : Id} (hne : source ≠ target)
    (hsource : db.hasWork source = true) (htarget : db.hasWork target = true) :
    Stays db (merged rules source target db) id (if id = source then target else id) := by
  obtain ⟨s, hs⟩ := Option.isSome_iff_exists.mp (hasWork_iff_work?.mp hsource)
  obtain ⟨hsmem, hsid⟩ := work?_some hs
  intro w hw hid hflag
  by_cases hfrom : id = source
  · rw [if_pos hfrom]
    obtain ⟨t, ht, htid⟩ := hasWork_iff.mp htarget
    have hws : w = s := work_unique hw hsmem (hid.trans (hfrom.trans hsid.symm))
    refine ⟨absorb s t, (mem_work_merged hs).mpr ⟨⟨t, ht, ?_⟩, ?_⟩, htid, ?_⟩
    · rw [if_pos htid]
    · exact fun heq => hne (heq.symm.trans htid)
    · exact absorb_of_source (hws ▸ hflag)
  · rw [if_neg hfrom]
    refine ⟨if w.id = target then absorb s w else w,
      (mem_work_merged hs).mpr ⟨⟨w, hw, rfl⟩, ?_⟩, ?_, .inl ?_⟩
    · split
      · exact fun heq => hfrom (hid.symm.trans heq)
      · exact fun heq => hfrom (hid.symm.trans heq)
    · split <;> exact hid
    · split
      · exact absorb_of_target hflag
      · exact hflag

/-- The row of the work that a split takes away. -/
theorem commitSplit_row {rules : TextRules} {plan : SplitPlan} {newWorkId : Id}
    {actor : Option Id} {outcome : SplitOutcome}
    (h : commitSplit rules plan newWorkId actor db = .ok (outcome, db')) :
    ∃ parent ∈ db.work, parent.id = plan.workId ∧ ∃ row,
      row.id = newWorkId ∧ (parent.effectiveNsfw = true → row.effectiveNsfw = true) ∧
        ∀ x, x ∈ db'.work ↔ x ∈ db.work ∨ x = row := by
  unfold commitSplit at h
  split at h
  · contradiction
  · next parent hparent =>
      dsimp only at h
      split at h
      · contradiction
      · next work hwork =>
          split at h
          · contradiction
          · cases h
            obtain ⟨hmem, hid⟩ := work?_some hparent
            refine ⟨parent, hmem, hid, _, ?_, fun hflag => ?_,
              fun x => Table.mem_of_insert hwork⟩
            · rfl
            · show ((parent.effectiveNsfw || _) : Bool) = true
              rw [hflag, Bool.true_or]

/-- A split keeps the flag of the old work, and hands it to the new one. -/
theorem stays_commitSplit {rules : TextRules} {plan : SplitPlan} {newWorkId : Id}
    {actor : Option Id} {outcome : SplitOutcome}
    (h : commitSplit rules plan newWorkId actor db = .ok (outcome, db')) :
    (∀ id, Stays db db' id id) ∧ Stays db db' plan.workId newWorkId := by
  obtain ⟨parent, hparent, hid, row, hrow, hflags, hmem⟩ := commitSplit_row h
  constructor
  · exact fun id w hw hwid hflag => ⟨w, (hmem w).mpr (.inl hw), hwid, .inl hflag⟩
  · intro w hw hwid hflag
    have hwp : w = parent := work_unique hw hparent (hwid.trans hid.symm)
    exact ⟨row, (hmem row).mpr (.inr rfl), hrow, .inl (hflags (hwp ▸ hflag))⟩

end Writers

/-! ## Steps

The condition on one step, in both directions. -/

section Steps

variable {rules : Rules} {s : CatalogState} {e : FlagEvent}

/-- A work is flagged if its row is. -/
theorem mem_flagged {id : Id} :
    id ∈ flagged s ↔ ∃ w ∈ s.db.work, w.id = id ∧ w.effectiveNsfw = true := by
  simp only [flagged, List.mem_map, List.mem_filter, Table.mem_rows]
  constructor
  · rintro ⟨w, ⟨hw, hflag⟩, hid⟩
    exact ⟨w, hw, hid, hflag⟩
  · rintro ⟨w, hw, hid, hflag⟩
    exact ⟨w, ⟨hw, hflag⟩, hid⟩

/-- It has been ruled on if its row has. -/
theorem ruledOn_iff {id : Id} :
    ruledOn s id = true ↔ ∃ w ∈ s.db.work, w.id = id ∧ ruled w = true := by
  simp [ruledOn, Table.mem_rows]

/-- A step passes the flags on if they stay. -/
theorem passes_iff_stays : (escalation rules).Passes (step rules) s e ↔
    ∀ id, ∀ id' ∈ heirs rules s e id, Stays s.db (step rules s e).db id id' := by
  constructor
  · intro h id id' hheir w hw hid hflag
    rcases h id (mem_flagged.mpr ⟨w, hw, hid, hflag⟩) id' hheir with hmem | hruled
    · obtain ⟨w', hw', hid', hflag'⟩ := mem_flagged.mp hmem
      exact ⟨w', hw', hid', .inl hflag'⟩
    · obtain ⟨w', hw', hid', hruled'⟩ := ruledOn_iff.mp hruled
      exact ⟨w', hw', hid', .inr hruled'⟩
  · intro h id hmem id' hheir
    obtain ⟨w, hw, hid, hflag⟩ := mem_flagged.mp hmem
    obtain ⟨w', hw', hid', hflag' | hruled'⟩ := h id id' hheir w hw hid hflag
    · exact .inl (mem_flagged.mpr ⟨w', hw', hid', hflag'⟩)
    · exact .inr (ruledOn_iff.mpr ⟨w', hw', hid', hruled'⟩)

/-- A step of the catalogue that neither merges nor splits has no other heirs. -/
theorem heirs_of_neither {op : Op} {id : Id} (he : e.op = some op)
    (hmerge : s.merges rules op = none) (hsplit : s.splits rules op = none) :
    heirs rules s e id = [id] := by
  unfold heirs survivor offspring
  rw [he]
  dsimp only
  rw [hmerge, hsplit]

/-- A mapping is touched, or added under an id that is free. -/
theorem isOk_ensureSourceSeries_iff (row : SourceSeries) (now : String) {db : Db}
    (hwork : db.hasWork row.workId = true) :
    (ensureSourceSeries row now db).isOk = true ↔
      (∃ r ∈ db.sourceSeries, r.key = row.key) ∨
        ∀ r ∈ db.sourceSeries, r.id ≠ row.id := by
  constructor
  · intro h
    by_contra hnot
    obtain ⟨hkey, r, hr, hid⟩ := (by simpa using hnot :
      (∀ r ∈ db.sourceSeries, ¬r.key = row.key) ∧ ∃ r ∈ db.sourceSeries, r.id = row.id)
    have hfind : db.sourceSeries.rows.find? (fun r => r.key = row.key) = none := by
      refine List.find?_eq_none.mpr fun r hr => ?_
      simpa using hkey r (Table.mem_rows.mp hr)
    have htaken : db.sourceSeries.insert row = none := by
      unfold Table.insert
      refine dif_neg fun hfree => ?_
      have hclash := Table.taken_eq_false.mp hfree r hr
      exact of_decide_eq_false hclash (.inl hid.symm)
    unfold ensureSourceSeries at h
    rw [hfind] at h
    dsimp only at h
    rw [if_pos hwork, htaken] at h
    contradiction
  · intro h
    by_cases hkey : ∃ r ∈ db.sourceSeries, r.key = row.key
    · obtain ⟨r, hr, hkey⟩ := hkey
      obtain ⟨id, db', hok⟩ := exists_ensureSourceSeries_ok row now hr hkey
      rw [hok]
      rfl
    · have hid := h.resolve_left hkey
      have hother : ∀ r ∈ db.sourceSeries, ¬r.key = row.key :=
        fun r hr heq => hkey ⟨r, hr, heq⟩
      have hfind : db.sourceSeries.rows.find? (fun r => r.key = row.key) = none := by
        refine List.find?_eq_none.mpr fun r hr => ?_
        simpa using hother r (Table.mem_rows.mp hr)
      have hfree : db.sourceSeries.taken row = false := by
        refine Table.taken_eq_false.mpr fun r hr => decide_eq_false ?_
        rintro (heq | heq)
        · exact hid r hr heq.symm
        · exact hother r hr heq.symm
      unfold ensureSourceSeries Table.insert
      rw [hfind]
      dsimp only
      rw [if_pos hwork, dif_pos hfree]
      rfl

/-- When a sync commits. -/
theorem isOk_upsert_iff (rules : TextRules) (db : Db)
    (newWorkId newSourceSeriesId : Id) (mangadexId : String) (input : WorkInput)
    (now : String) :
    (upsertWorkFromMangadex rules newWorkId newSourceSeriesId mangadexId input now
      db).isOk = true ↔
      (∃ r ∈ db.sourceSeries, r.key = ("mangadex", "mangadex", mangadexId)) ∨
        ∀ r ∈ db.sourceSeries, r.id ≠ newSourceSeriesId := by
  have hwork : (refreshWorkRows rules ((externalWork db "mangadex" mangadexId).getD
      newWorkId) mangadexId input db).hasWork
        ((externalWork db "mangadex" mangadexId).getD newWorkId) = true :=
    hasWork_refreshWorkRows.mpr (.inr rfl)
  have hensure := isOk_ensureSourceSeries_iff
    ⟨newSourceSeriesId, (externalWork db "mangadex" mangadexId).getD newWorkId,
      "mangadex", "mangadex", mangadexId, none, input.isNsfw, some now⟩ now hwork
  refine Iff.trans ?_ hensure
  unfold upsertWorkFromMangadex upsertSourceSeries
  dsimp only
  split
  · next hok =>
      rw [hok]
      exact Iff.rfl
  · next herr => rw [herr]

/-- A row that lost its flag in a sync. -/
theorem not_stays_upsert {rules : TextRules} {db db' : Db}
    {newWorkId newSourceSeriesId outId : Id} {mangadexId : String} {input : WorkInput}
    {now : String} {w : Work}
    (h : upsertWorkFromMangadex rules newWorkId newSourceSeriesId mangadexId input now
      db = .ok (outId, db'))
    (hw : w ∈ db.work) (hid : w.id = outId) (hflag : w.isNsfw = true)
    (hover : w.isNsfwOverride = none) (hnsfw : input.isNsfw = false)
    (hsafe : recordRatedSafe input = false) : ¬Stays db db' outId outId := by
  intro hstays
  have hwork := work_upsertWorkFromMangadex h
  have hmem : refreshWork w (input.row outId) ∈ db'.work := by
    rw [hwork, Table.mem_upsert]
    exact .inr (.inr ⟨w, hw, decide_eq_true hid.symm, rfl⟩)
  have heffective : w.effectiveNsfw = true := by
    unfold Work.effectiveNsfw
    rw [hover]
    exact hflag
  obtain ⟨w', hw', hid', hkept⟩ := hstays w hw hid heffective
  have heq : w' = refreshWork w (input.row outId) :=
    work_unique hw' hmem (hid'.trans hid.symm)
  rw [heq] at hkept
  rcases hkept with hkept | hkept
  · have hcleared : (refreshWork w (input.row outId)).effectiveNsfw = false := by
      show w.isNsfwOverride.getD input.isNsfw = false
      rw [hover, hnsfw]
      rfl
    rw [hcleared] at hkept
    contradiction
  · have hunruled : ruled (refreshWork w (input.row outId)) = false := by
      show (decide (w.isNsfwOverride = some false) || recordRatedSafe input) = false
      rw [hover, hsafe]
      rfl
    rw [hunruled] at hkept
    contradiction

/-- A sync passes the flags on exactly if it does not take one. -/
theorem stays_upsert_iff (rules : Rules) {newWorkId newSourceSeriesId : Id} {mangadexId : String}
    {input : WorkInput} {now : String} :
    (∀ id, Stays s.db (s.step rules (.upsertWorkFromMangadex newWorkId newSourceSeriesId
      mangadexId input now)).db id id) ↔
      ¬Unflags s (.upsertWorkFromMangadex newWorkId newSourceSeriesId mangadexId input
        now) := by
  have hfresh_iff : s.fresh (.upsertWorkFromMangadex newWorkId newSourceSeriesId
      mangadexId input now) = true ↔ newWorkId ∉ s.minted ∧ newSourceSeriesId ∉ s.minted := by
    simp [CatalogState.fresh, Op.mints]
  by_cases hfresh : s.fresh (.upsertWorkFromMangadex newWorkId newSourceSeriesId
      mangadexId input now) = true
  · rw [step_db_of_fresh hfresh]
    have hnew := hfresh_iff.mp hfresh
    cases hres : upsertWorkFromMangadex rules.toTextRules newWorkId newSourceSeriesId
        mangadexId input now s.db with
    | error err =>
        have hdb : s.write rules (.upsertWorkFromMangadex newWorkId newSourceSeriesId
            mangadexId input now) = s.db := by
          simp only [CatalogState.write, hres]
          rfl
        rw [hdb]
        refine iff_of_true (fun id => stays_of_work_eq rfl) ?_
        rintro ⟨-, -, hmapping, -⟩
        have hok := (isOk_upsert_iff rules.toTextRules s.db newWorkId newSourceSeriesId
          mangadexId input now).mpr hmapping
        rw [hres] at hok
        contradiction
    | ok result =>
        obtain ⟨outId, db'⟩ := result
        have hdb : s.write rules (.upsertWorkFromMangadex newWorkId newSourceSeriesId
            mangadexId input now) = db' := by
          simp only [CatalogState.write, hres]
          rfl
        have hout := (upsertWorkFromMangadex_ok hres).1
        rw [hdb]
        constructor
        · rintro hstays ⟨-, -, -, hnsfw, hsafe, w, hw, hid, hflag, hover⟩
          exact not_stays_upsert hres hw (hid.trans hout.symm) hflag hover hnsfw hsafe
            (hstays outId)
        · intro hnot id
          refine stays_upsert hres fun w hw hid hflag hover => ?_
          by_contra hlost
          simp only [not_or, Bool.not_eq_true] at hlost
          refine hnot ⟨hnew.1, hnew.2, ?_, hlost.1, hlost.2, w, hw, hid.trans hout, hflag,
            hover⟩
          refine (isOk_upsert_iff rules.toTextRules s.db newWorkId newSourceSeriesId
            mangadexId input now).mp ?_
          rw [hres]
          rfl
  · rw [step_of_not_fresh (Bool.not_eq_true _ ▸ hfresh)]
    refine iff_of_true (fun id => stays_of_work_eq rfl) ?_
    rintro ⟨hwork, hseries, -⟩
    exact hfresh (hfresh_iff.mpr ⟨hwork, hseries⟩)

/-- The same for the step, which may also fail. -/
theorem stays_mergeWorks {source target : Id}
    {expected : Option (WorkIdentity × WorkIdentity)} {id id' : Id}
    (hheir : id' ∈ heirs rules s (.mergeWorks source target expected) id) :
    Stays s.db (s.step rules (.mergeWorks source target expected)).db id id' := by
  have hfresh : s.fresh (.mergeWorks source target expected) = true := rfl
  cases hmerge : s.merges rules (.mergeWorks source target expected) with
  | none =>
      rw [heirs_of_neither rfl hmerge rfl] at hheir
      rw [List.mem_singleton.mp hheir]
      refine stays_of_work_eq ?_
      rw [step_db_of_fresh hfresh]
      refine commit_congr Db.work fun outcome db' hok => ?_
      unfold CatalogState.merges at hmerge
      dsimp only at hmerge
      rw [hok] at hmerge
      contradiction
  | some pair =>
      obtain ⟨hne, hsource, htarget, hdb⟩ := step_of_merges
        (hmerge : _ = some (pair.1, pair.2))
      have hid' : id' = if id = pair.1 then pair.2 else id := by
        unfold heirs survivor offspring at hheir
        dsimp only [FlagEvent.op] at hheir
        rw [hmerge] at hheir
        exact List.mem_singleton.mp hheir
      rw [hdb, hid']
      exact stays_merged rules.toTextRules hne hsource htarget

theorem stays_commitSplit_step {i : Nat} {newWorkId : Id} {actor : Option Id}
    {id id' : Id} (hheir : id' ∈ heirs rules s (.commitSplit i newWorkId actor) id) :
    Stays s.db (s.step rules (.commitSplit i newWorkId actor)).db id id' := by
  cases hsplit : s.splits rules (.commitSplit i newWorkId actor) with
  | none =>
      rw [heirs_of_neither rfl rfl hsplit] at hheir
      rw [List.mem_singleton.mp hheir]
      refine stays_of_work_eq ?_
      by_cases hfresh : s.fresh (.commitSplit i newWorkId actor) = true
      · rw [step_db_of_fresh hfresh]
        refine write_commitSplit_cases (P := fun db => db.work = s.db.work) rfl
          fun plan outcome db' hplan hok => ?_
        simp only [CatalogState.splits, hfresh, if_true, hplan, Option.bind_some, hok]
          at hsplit
        contradiction
      · rw [step_of_not_fresh (Bool.not_eq_true _ ▸ hfresh)]
  | some pair =>
      obtain ⟨-, -, plan, -, hold, actor', outcome, hok⟩ := step_of_splits
        (hsplit : _ = some (pair.1, pair.2))
      have hcases : id' = id ∨ (id = pair.1 ∧ id' = pair.2) := by
        unfold heirs survivor offspring at hheir
        dsimp only [FlagEvent.op] at hheir
        rw [hsplit] at hheir
        dsimp only at hheir
        rcases List.mem_cons.mp hheir with hsame | hnew
        · exact .inl hsame
        · split at hnew
          · next hid => exact .inr ⟨hid, List.mem_singleton.mp hnew⟩
          · contradiction
      rcases hcases with rfl | ⟨rfl, rfl⟩
      · exact (stays_commitSplit hok).1 id'
      · exact hold ▸ (stays_commitSplit hok).2

/-- A step passes every flag on exactly if it is not a sync that takes one. -/
theorem passes_iff (rules : Rules) (s : CatalogState) (e : FlagEvent) :
    (escalation rules).Passes (step rules) s e ↔ ¬Unflags s e := by
  rw [passes_iff_stays]
  cases e with
  | markWorkNsfw workId =>
      refine iff_of_true (fun id id' hheir => ?_) id
      rw [List.mem_singleton.mp hheir]
      exact stays_markWorkNsfw workId
  | overrideNsfw workId nsfw =>
      refine iff_of_true (fun id id' hheir => ?_) id
      rw [List.mem_singleton.mp hheir]
      exact stays_overrideNsfw workId nsfw
  | upsertWorkFromMangadex newWorkId newSourceSeriesId mangadexId input now =>
      have hheirs : ∀ id, heirs rules s (.upsertWorkFromMangadex newWorkId
          newSourceSeriesId mangadexId input now) id = [id] :=
        fun id => heirs_of_neither rfl rfl rfl
      refine Iff.trans ?_ (stays_upsert_iff rules)
      constructor
      · exact fun h id => h id id (hheirs id ▸ List.mem_singleton_self id)
      · intro h id id' hheir
        rw [hheirs] at hheir
        rw [List.mem_singleton.mp hheir]
        exact h id
  | mergeWorks source target expected =>
      refine iff_of_true (fun id id' hheir => ?_) id
      exact stays_mergeWorks hheir
  | planSplit workId sourceSeriesIds =>
      refine iff_of_true (fun id id' hheir => ?_) id
      rw [heirs_of_neither rfl rfl rfl] at hheir
      rw [List.mem_singleton.mp hheir]
      refine stays_of_work_eq ?_
      show (s.step rules (.planSplit workId sourceSeriesIds)).db.work = s.db.work
      unfold CatalogState.step
      split <;> rfl
  | commitSplit i newWorkId actor =>
      refine iff_of_true (fun id id' hheir => ?_) id
      exact stays_commitSplit_step hheir

end Steps

/-! ## Runs -/

/-- **Escalation is kept.**  Along a run of the writers from any catalogue, every
work that is flagged, and every work it is merged into or that is split from it,
stays flagged until an admin or MangaDex rules otherwise, exactly if no sync takes
a flag with a record that is rated neither way. -/
theorem escalation_kept_iff (rules : Rules) (s : CatalogState) (events : List FlagEvent) :
    Machine.Always ((escalation rules).watch (step rules)) (escalation rules).Kept
      ((escalation rules).start s) events ↔
      Machine.EachStep (step rules) (fun s e => ¬Unflags s e) s events := by
  rw [Obligation.always_kept_iff]
  exact Machine.eachStep_congr_of_invariant (I := fun _ => True)
    (fun _ _ _ _ => trivial) (fun s e _ => passes_iff rules s e) trivial

/-- A sync brings a work without a rating, a source marks it, and the next sync
brings the same record. -/
def markThenSync : List FlagEvent :=
  [.upsertWorkFromMangadex "w" "s" "md" (titled "t") "now",
    .markWorkNsfw "w",
    .upsertWorkFromMangadex "w'" "s'" "md" (titled "t") "now"]

/-- The flag is gone. -/
theorem not_escalation_kept_markThenSync :
    ¬Machine.Always ((escalation plainRules).watch (step plainRules))
      (escalation plainRules).Kept ((escalation plainRules).start .init)
      markThenSync := by
  intro h
  have hkept := h.last
  have howed : "w" ∈ (Machine.run ((escalation plainRules).watch (step plainRules))
      ((escalation plainRules).start .init) markThenSync).obliged := by
    decide +kernel
  have hnot : "w" ∉ flagged (Machine.run ((escalation plainRules).watch (step plainRules))
      ((escalation plainRules).start .init) markThenSync).state := by
    decide +kernel
  exact hnot (hkept "w" howed)

end Komika.Catalog.Escalation
