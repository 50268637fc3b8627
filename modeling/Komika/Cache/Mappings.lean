import Komika.Cache.Replacement

/-!
# Mirrored and settled mappings

When no `put_chapters` is under way and nothing remains to drain, the spine
rows of a mapping should say what the cached chapters of its series say.

A spine write that fails is not repaired by what comes after it: an identical
fetch ends before the spine write, and the drain looks only at mappings with
no rows at all.  What keeps the mirror is a property of every state: each
mapping is mirrored, or has no rows, or a `put_chapters` under way is going to
write the cached list to it (`Settled`).

* `Settled.frame`, `Settled.moveOn`, `Settled.drop` — steps that leave the mapping
  alone;
* `mirrored_of_completing`, `empty_of_replaced`, `mirrored_of_mirrored` — where a
  replacement lands;
* `covers_of_replaced` — a write under way that a replacement does not disturb;
* `NoWriteLost` — which steps keep every mapping settled.
-/

namespace Komika.Cache.Mappings

open Komika.Lib
open Komika.Catalog.Schema Komika.Catalog.Database Komika.Catalog.Ledger
open Komika.Catalog.SpineKeys Komika.Cache.SeriesCache
open Komika.Cache.Replacement
open Komika.Feed.Schema (SuwayomiChapter)

variable {ν : Type}

/-! ## The mirror

The reference: what the rows of a mapping would be, if they were made anew. -/

/-- What the rows of a mapping say. -/
def spineInputs (db : Db) (ssid : Id) : List ChapterInput :=
  (db.chapter.rows.filter fun c => c.sourceSeriesId = ssid).map spineInput

/-- What they should say. -/
def cachedInputs (rules : CacheRules ν) (cache : Table SuwayomiChapter)
    (mangaId : Int) : List ChapterInput :=
  (cachedChapters cache mangaId).map (suwayomiChapterInput rules)

/-- The list is the cached one, as a set. -/
def Current (rules : CacheRules ν) (cache : Table SuwayomiChapter) (mangaId : Int)
    (inputs : List ChapterInput) : Prop :=
  (∀ x ∈ inputs, x ∈ cachedInputs rules cache mangaId) ∧
    ∀ x ∈ cachedInputs rules cache mangaId, x ∈ inputs

/-- The rows of the mapping are the cached chapters: the same external ids, and
for each of them what `suwayomi_spine_input` makes of the cached chapter. -/
def Mirrored (rules : CacheRules ν) (cache : Table SuwayomiChapter) (db : Db)
    (ssid : Id) (mangaId : Int) : Prop :=
  Current rules cache mangaId (spineInputs db ssid)

/-- No `put_chapters` is under way and nothing remains to drain. -/
def Quiescent (s : CacheState) : Prop :=
  (∀ job ∈ s.jobs, job.fromPut = false) ∧
    remaining s.suwayomiChapter s.db = (0, 0)

/-- Every Suwayomi mapping is mirrored. -/
def SpineMirrorsCache (rules : CacheRules ν) (s : CacheState) : Prop :=
  ∀ ss ∈ s.db.sourceSeries.rows, ss.sourceType = "suwayomi" →
    Mirrored rules s.suwayomiChapter s.db ss.id (castInteger ss.sourceKey)

/-! ## Writes under way

A call covers a mapping from the commit of the cached list to its own transaction on the
spine. -/

/-- A replacement with this list and these vanished rows leaves the mapping
mirrored: the list is the cached one, and every other row is to be deleted. -/
def Completing (rules : CacheRules ν) (cache : Table SuwayomiChapter) (db : Db)
    (ssid : Id) (mangaId : Int) (inputs : List ChapterInput) (vanished : List Id) :
    Prop :=
  Current rules cache mangaId inputs ∧
    ∀ c ∈ db.chapter.rows, c.sourceSeriesId = ssid →
      c.externalId ∈ inputs.map ChapterInput.externalId ∨ c.id ∈ vanished

/-- A `put_chapters` that holds the cached list for this mapping, and has not
yet read the mapping's rows. -/
def Awaits (rules : CacheRules ν) (cache : Table SuwayomiChapter) (ssid : Id)
    (mangaId : Int) (job : Job) : Prop :=
  job.fromPut = true ∧
    match job.stage with
    | .cached manga chapters =>
        manga = mangaId ∧
          Current rules cache mangaId (chapters.map (suwayomiChapterInput rules))
    | .replacing target inputs => target = ssid ∧ Current rules cache mangaId inputs
    | _ => False

/-- A `put_chapters` that is about to complete this mapping. -/
def Completes (rules : CacheRules ν) (cache : Table SuwayomiChapter) (db : Db)
    (ssid : Id) (mangaId : Int) (job : Job) : Prop :=
  job.fromPut = true ∧
    match job.stage with
    | .planned target inputs vanished =>
        target = ssid ∧ Completing rules cache db ssid mangaId inputs vanished
    | _ => False

/-- A write under way that is going to mirror the mapping. -/
def Covers (rules : CacheRules ν) (cache : Table SuwayomiChapter) (db : Db)
    (ssid : Id) (mangaId : Int) (job : Job) : Prop :=
  Awaits rules cache ssid mangaId job ∨ Completes rules cache db ssid mangaId job

/-- The stages at which a call does not hold a list for a mapping. -/
def Idle : Stage → Prop
  | .changed _ _ | .pending _ _ | .written _ => True
  | .cached _ _ | .replacing _ _ | .planned _ _ _ => False

/-- A call without a list covers nothing. -/
theorem not_covers_of_idle {rules : CacheRules ν} {cache : Table SuwayomiChapter}
    {db : Db} {ssid : Id} {mangaId : Int} {job : Job} (h : Idle job.stage) :
    ¬Covers rules cache db ssid mangaId job := by
  obtain ⟨fromPut, stage⟩ := job
  intro hcovers
  cases stage with
  | changed | pending | written =>
      rcases hcovers with ⟨-, hfalse⟩ | ⟨-, hfalse⟩ <;> exact hfalse.elim
  | cached | replacing | planned => exact h.elim

/-- The mapping is mirrored, or it has no rows and the drain will look at it,
or a write under way will mirror it. -/
def Settled (rules : CacheRules ν) (s : CacheState) (ssid : Id) (mangaId : Int) :
    Prop :=
  Mirrored rules s.suwayomiChapter s.db ssid mangaId ∨
    spineInputs s.db ssid = [] ∨
      ∃ job ∈ s.jobs, Covers rules s.suwayomiChapter s.db ssid mangaId job

/-! ## Which steps keep it

A step that loses a write is a failure, or a replacement under an old read. -/

/-- The list adds no chapter that the job would leave behind: what it writes
and the job does not has a row already, which the job deletes. -/
def AddsNothingTo (db : Db) (ssid : Id) (inputs : List ChapterInput) (job : Job) :
    Prop :=
  match job.stage with
  | .planned _ others _ =>
      ∀ x ∈ inputs, x.externalId ∈ others.map ChapterInput.externalId ∨
        ∃ c ∈ db.chapter.rows, c.sourceSeriesId = ssid ∧ c.externalId = x.externalId
  | _ => True

/-- A replacement that does no harm where it lands: it completes the mapping,
or empties it, or changes nothing of a mirrored one, or another write under
way completes the mapping after it. -/
def Harmless (rules : CacheRules ν) (s : CacheState) (i : Nat) (ssid : Id)
    (mangaId : Int) (inputs : List ChapterInput) (vanished : List Id) : Prop :=
  Completing rules s.suwayomiChapter s.db ssid mangaId inputs vanished ∨
    (inputs = [] ∧
      ∀ c ∈ s.db.chapter.rows, c.sourceSeriesId = ssid → c.id ∈ vanished) ∨
    (Mirrored rules s.suwayomiChapter s.db ssid mangaId ∧
      (∀ x ∈ inputs, x ∈ cachedInputs rules s.suwayomiChapter mangaId) ∧
        ∀ c ∈ s.db.chapter.rows, c.sourceSeriesId = ssid → c.id ∉ vanished) ∨
    ∃ job ∈ s.jobs.eraseIdx i,
      Covers rules s.suwayomiChapter s.db ssid mangaId job ∧
        AddsNothingTo s.db ssid inputs job

/-- No write is lost in this step.  The fetched chapters are the series' own.  When a
call reads the mapping it will write to, every other mapping is settled without it; when
it fails, every mapping is.  A replacement does no harm where it lands. -/
def NoWriteLost (rules : CacheRules ν) (s : CacheState) (op : CacheOp) : Prop :=
  match op with
  | .advance i ids _ =>
      match s.jobs[i]? with
      | some ⟨_, .changed mangaId chapters⟩ => ∀ c ∈ chapters, c.mangaId = mangaId
      | some ⟨_, .cached mangaId _⟩ =>
          ∀ ss ∈ s.db.sourceSeries.rows, ss.sourceType = "suwayomi" →
            mappingOf s.db mangaId ≠ some ss.id →
              Settled rules (s.drop i) ss.id (castInteger ss.sourceKey)
      | some ⟨_, .planned ssid inputs vanished⟩ =>
          s.freshIds inputs ids = true →
            ∀ ss ∈ s.db.sourceSeries.rows, ss.sourceType = "suwayomi" →
              ss.id = ssid →
                Harmless rules s i ssid (castInteger ss.sourceKey) inputs vanished
      | _ => True
  | .fail i =>
      ∀ ss ∈ s.db.sourceSeries.rows, ss.sourceType = "suwayomi" →
        Settled rules (s.drop i) ss.id (castInteger ss.sourceKey)
  | _ => True

/-! ## What a step does to a mapping

Frame lemmas, for the cache, the rows and the calls. -/

section Mappings

variable {rules : CacheRules ν} {cache cache' : Table SuwayomiChapter}
  {db db' : Db} {s s' : CacheState} {ssid : Id} {mangaId : Int}

/-- What a mapping says is what its rows say. -/
theorem mem_spineInputs {x : ChapterInput} :
    x ∈ spineInputs db ssid ↔
      ∃ c ∈ db.chapter, c.sourceSeriesId = ssid ∧ spineInput c = x := by
  simp [spineInputs, Table.mem_rows, and_assoc]

/-- And what it should say is what the cached chapters of the series say. -/
theorem mem_cachedInputs {x : ChapterInput} :
    x ∈ cachedInputs rules cache mangaId ↔
      ∃ c ∈ cache, c.mangaId = mangaId ∧ suwayomiChapterInput rules c = x := by
  simp [cachedInputs, cachedChapters, Table.mem_rows, and_assoc]

/-- An external id is the id of one cached chapter. -/
theorem eq_of_mem_cachedInputs {x y : ChapterInput}
    (hx : x ∈ cachedInputs rules cache mangaId)
    (hy : y ∈ cachedInputs rules cache mangaId)
    (h : x.externalId = y.externalId) : x = y := by
  obtain ⟨c, hc, -, rfl⟩ := mem_cachedInputs.mp hx
  obtain ⟨d, hd, -, rfl⟩ := mem_cachedInputs.mp hy
  have hid : c.id = d.id := by
    rw [← castInteger_toString c.id, ← castInteger_toString d.id]
    exact congrArg castInteger h
  have hcd : c = d := Table.eq_of_clash hc hd (by show decide _ = true; simp [hid])
  rw [hcd]

/-- The rows of `ssid` say the same, under the same ids. -/
structure SameRows (ssid : Id) (db db' : Db) : Prop where
  fwd : ∀ c' ∈ db'.chapter, c'.sourceSeriesId = ssid → ∃ c ∈ db.chapter,
    c.sourceSeriesId = ssid ∧ c.id = c'.id ∧ spineInput c = spineInput c'
  bwd : ∀ c ∈ db.chapter, c.sourceSeriesId = ssid → ∃ c' ∈ db'.chapter,
    c'.sourceSeriesId = ssid ∧ c.id = c'.id ∧ spineInput c = spineInput c'

/-- A step that keeps the mapping's rows. -/
theorem SameRows.of_mem_iff
    (h : ∀ c, c.sourceSeriesId = ssid → (c ∈ db'.chapter ↔ c ∈ db.chapter)) :
    SameRows ssid db db' where
  fwd c hc hss := ⟨c, (h c hss).mp hc, hss, rfl, rfl⟩
  bwd c hc hss := ⟨c, (h c hss).mpr hc, hss, rfl, rfl⟩

theorem SameRows.trans {db₁ db₂ : Db} (h : SameRows ssid db db₁)
    (h' : SameRows ssid db₁ db₂) : SameRows ssid db db₂ where
  fwd c₂ hc₂ hss₂ := by
    obtain ⟨c₁, hc₁, hss₁, hid₁, heq₁⟩ := h'.fwd c₂ hc₂ hss₂
    obtain ⟨c, hc, hss, hid, heq⟩ := h.fwd c₁ hc₁ hss₁
    exact ⟨c, hc, hss, hid.trans hid₁, heq.trans heq₁⟩
  bwd c hc hss := by
    obtain ⟨c₁, hc₁, hss₁, hid₁, heq₁⟩ := h.bwd c hc hss
    obtain ⟨c₂, hc₂, hss₂, hid₂, heq₂⟩ := h'.bwd c₁ hc₁ hss₁
    exact ⟨c₂, hc₂, hss₂, hid₁.trans hid₂, heq₁.trans heq₂⟩

/-- What the mapping says is the same. -/
theorem SameRows.mem_spineInputs_iff (h : SameRows ssid db db') {x : ChapterInput} :
    x ∈ spineInputs db' ssid ↔ x ∈ spineInputs db ssid := by
  rw [mem_spineInputs, mem_spineInputs]
  constructor
  · rintro ⟨c', hc', hss, rfl⟩
    obtain ⟨c, hc, hcss, -, heq⟩ := h.fwd c' hc' hss
    exact ⟨c, hc, hcss, heq⟩
  · rintro ⟨c, hc, hss, rfl⟩
    obtain ⟨c', hc', hcss, -, heq⟩ := h.bwd c hc hss
    exact ⟨c', hc', hcss, heq.symm⟩

/-- A step that leaves the cached list. -/
theorem Current.frame {inputs inputs' : List ChapterInput}
    (hcache : ∀ x, x ∈ cachedInputs rules cache' mangaId ↔
      x ∈ cachedInputs rules cache mangaId)
    (hinputs : ∀ x, x ∈ inputs' ↔ x ∈ inputs)
    (h : Current rules cache mangaId inputs) :
    Current rules cache' mangaId inputs' := by
  constructor
  · intro x hx
    exact (hcache x).mpr (h.1 x ((hinputs x).mp hx))
  · intro x hx
    exact (hinputs x).mpr (h.2 x ((hcache x).mp hx))

/-- A call that still awaits its read. -/
theorem Awaits.frame {job : Job}
    (hcache : ∀ x, x ∈ cachedInputs rules cache' mangaId ↔
      x ∈ cachedInputs rules cache mangaId)
    (h : Awaits rules cache ssid mangaId job) :
    Awaits rules cache' ssid mangaId job := by
  obtain ⟨fromPut, stage⟩ := job
  refine ⟨h.1, ?_⟩
  have hstage := h.2
  cases stage with
  | cached manga chapters =>
      exact ⟨hstage.1, hstage.2.frame hcache fun _ => Iff.rfl⟩
  | replacing target inputs =>
      exact ⟨hstage.1, hstage.2.frame hcache fun _ => Iff.rfl⟩
  | changed | pending | planned | written => exact hstage

/-- A call that covers the mapping still does. -/
theorem Covers.frame {job : Job} (hrows : SameRows ssid db db')
    (hcache : ∀ x, x ∈ cachedInputs rules cache' mangaId ↔
      x ∈ cachedInputs rules cache mangaId)
    (h : Covers rules cache db ssid mangaId job) :
    Covers rules cache' db' ssid mangaId job := by
  apply h.imp (Awaits.frame hcache)
  intro hcompletes
  obtain ⟨fromPut, stage⟩ := job
  refine ⟨hcompletes.1, ?_⟩
  have hstage := hcompletes.2
  cases stage with
  | planned target inputs vanished =>
      obtain ⟨htarget, hcurrent, hrest⟩ := hstage
      refine ⟨htarget, hcurrent.frame hcache fun _ => Iff.rfl, ?_⟩
      intro c' hc' hss
      obtain ⟨c, hc, hcss, hid, heq⟩ := hrows.fwd c' hc' hss
      have hext : c.externalId = c'.externalId :=
        congrArg ChapterInput.externalId heq
      rw [← hid, ← hext]
      exact hrest c hc hcss
  | changed | cached | pending | replacing | written => exact hstage

/-- What a step leaves alone stays settled. -/
theorem Settled.frame (h : Settled rules s ssid mangaId)
    (hrows : SameRows ssid s.db s'.db)
    (hcache : ∀ x, x ∈ cachedInputs rules s'.suwayomiChapter mangaId ↔
      x ∈ cachedInputs rules s.suwayomiChapter mangaId)
    (hjobs : ∀ job ∈ s.jobs,
      Covers rules s.suwayomiChapter s.db ssid mangaId job →
        ∃ job' ∈ s'.jobs, Covers rules s.suwayomiChapter s.db ssid mangaId job') :
    Settled rules s' ssid mangaId := by
  rcases h with hmirrored | hempty | ⟨job, hjob, hcovers⟩
  · exact .inl (hmirrored.frame hcache fun _ => hrows.mem_spineInputs_iff)
  · refine .inr (.inl (List.eq_nil_iff_forall_not_mem.mpr fun x hx => ?_))
    rw [hrows.mem_spineInputs_iff, hempty] at hx
    exact List.not_mem_nil hx
  · obtain ⟨job', hjob', hcovers'⟩ := hjobs job hjob hcovers
    exact .inr (.inr ⟨job', hjob', hcovers'.frame hrows hcache⟩)

end Mappings

/-! ## Where a replacement lands

The rows that are left, from `Replaced`. -/

section Landing

variable {rules : CacheRules ν} {cache : Table SuwayomiChapter} {db db' : Db}
  {ssid : Id} {mangaId : Int} {inputs : List ChapterInput} {vanished ids : List Id}

/-- Every row that is written says what the cache says, so the chapters of the
list are mirrored. -/
theorem mem_spineInputs_of_replaced
    (h : Replaced ssid inputs vanished ids db db')
    (hin : ∀ x ∈ inputs, x ∈ cachedInputs rules cache mangaId) {x : ChapterInput}
    (hx : x ∈ inputs) : x ∈ spineInputs db' ssid := by
  obtain ⟨c, hc, hss, hext⟩ := h.present x hx
  refine mem_spineInputs.mpr ⟨c, hc, hss, ?_⟩
  rcases h.left c hc hss with ⟨-, hout, -⟩ | ⟨hwritten, -⟩
  · exact absurd (hext ▸ List.mem_map_of_mem hx) hout
  · exact eq_of_mem_cachedInputs (hin _ hwritten) (hin x hx) hext

/-- A write that completes the mapping mirrors it. -/
theorem mirrored_of_completing
    (h : Replaced ssid inputs vanished ids db db')
    (hc : Completing rules cache db ssid mangaId inputs vanished) :
    Mirrored rules cache db' ssid mangaId := by
  obtain ⟨hcurrent, hrest⟩ := hc
  constructor
  · intro x hx
    obtain ⟨c, hc, hss, rfl⟩ := mem_spineInputs.mp hx
    rcases h.left c hc hss with ⟨hold, hext, hout⟩ | ⟨hwritten, -⟩
    · exact absurd (hrest c hold hss) (not_or.mpr ⟨hext, hout⟩)
    · exact hcurrent.1 _ hwritten
  · intro x hx
    exact mem_spineInputs_of_replaced h hcurrent.1 (hcurrent.2 x hx)

/-- A list without chapters, over rows that are all to be deleted. -/
theorem empty_of_replaced (h : Replaced ssid [] vanished ids db db')
    (hall : ∀ c ∈ db.chapter.rows, c.sourceSeriesId = ssid → c.id ∈ vanished) :
    spineInputs db' ssid = [] := by
  rw [List.eq_nil_iff_forall_not_mem]
  intro x hx
  obtain ⟨c, hc, hss, -⟩ := mem_spineInputs.mp hx
  rcases h.left c hc hss with ⟨hold, -, hout⟩ | ⟨hwritten, -⟩
  · exact hout (hall c hold hss)
  · exact List.not_mem_nil hwritten

/-- A write of what is there. -/
theorem mirrored_of_mirrored
    (h : Replaced ssid inputs vanished ids db db')
    (hmirrored : Mirrored rules cache db ssid mangaId)
    (hin : ∀ x ∈ inputs, x ∈ cachedInputs rules cache mangaId)
    (hout : ∀ c ∈ db.chapter.rows, c.sourceSeriesId = ssid → c.id ∉ vanished) :
    Mirrored rules cache db' ssid mangaId := by
  constructor
  · intro x hx
    obtain ⟨c, hc, hss, rfl⟩ := mem_spineInputs.mp hx
    rcases h.left c hc hss with ⟨hold, -, -⟩ | ⟨hwritten, -⟩
    · exact hmirrored.1 _ (mem_spineInputs.mpr ⟨c, hold, hss, rfl⟩)
    · exact hin _ hwritten
  · intro x hx
    obtain ⟨c, hc, hss, rfl⟩ := mem_spineInputs.mp (hmirrored.2 x hx)
    by_cases hext : c.externalId ∈ inputs.map ChapterInput.externalId
    · obtain ⟨y, hy, heq⟩ := List.mem_map.mp hext
      have hxy : y = spineInput c := eq_of_mem_cachedInputs (hin y hy) hx heq
      exact mem_spineInputs_of_replaced h hin (hxy ▸ hy)
    · exact mem_spineInputs.mpr ⟨c, h.kept c hc hss hext (hout c hc hss), hss, rfl⟩

/-- A write under way completes the mapping after the replacement too. -/
theorem covers_of_replaced (h : Replaced ssid inputs vanished ids db db') {job : Job}
    (hc : Covers rules cache db ssid mangaId job)
    (hadds : AddsNothingTo db ssid inputs job) :
    Covers rules cache db' ssid mangaId job := by
  apply hc.imp id
  intro hcompletes
  obtain ⟨fromPut, stage⟩ := job
  refine ⟨hcompletes.1, ?_⟩
  have hstage := hcompletes.2
  cases stage with
  | planned target others deletes =>
      obtain ⟨htarget, hcurrent, hrest⟩ := hstage
      refine ⟨htarget, hcurrent, ?_⟩
      intro c hc hss
      rcases h.left c hc hss with ⟨hold, -, -⟩ | ⟨hwritten, -⟩
      · exact hrest c hold hss
      · rcases hadds _ hwritten with hext | ⟨old, hold, hoss, hoext⟩
        · exact .inl hext
        · have hid := h.sameId c hc old hold hss hoss hoext
          have hoext' : old.externalId = c.externalId := hoext
          rw [← hid, ← hoext']
          exact hrest old hold hoss
  | changed | cached | pending | replacing | written => exact hstage

end Landing

/-! ## The calls under way

They are a list from which a step takes one, or in which it replaces one. -/

section Jobs

variable {rules : CacheRules ν} {s : CacheState} {i : Nat} {job : Job}

/-- More calls cover no less. -/
theorem Settled.with_jobs {ssid : Id} {mangaId : Int} {jobs : List Job}
    (h : Settled rules s ssid mangaId) (hjobs : ∀ job ∈ s.jobs, job ∈ jobs) :
    Settled rules { s with jobs := jobs } ssid mangaId := by
  apply h.imp_right
  apply Or.imp_right
  intro hcovered
  obtain ⟨job, hjob, hcovers⟩ := hcovered
  exact ⟨job, hjobs job hjob, hcovers⟩

/-- The others are there after the `i`-th moved on. -/
theorem mem_set_of_mem_eraseIdx {jobs : List Job} {other new : Job}
    (h : other ∈ jobs.eraseIdx i) : other ∈ jobs.set i new := by
  obtain ⟨j, hj, hother⟩ := List.mem_eraseIdx_iff_getElem?.mp h
  apply List.mem_iff_getElem?.mpr
  exact ⟨j, by rw [List.getElem?_set_ne hj.symm, hother]⟩

/-- The call that moved on is among the calls. -/
theorem mem_set_self {jobs : List Job} {new : Job} (hi : jobs[i]? = some job) :
    new ∈ jobs.set i new := by
  obtain ⟨hlt, -⟩ := List.getElem?_eq_some_iff.mp hi
  exact List.mem_set hlt new

/-- A call is the `i`-th, or one of the others. -/
theorem eq_or_mem_eraseIdx {jobs : List Job} {other : Job}
    (hi : jobs[i]? = some job) (h : other ∈ jobs) :
    other = job ∨ other ∈ jobs.eraseIdx i := by
  obtain ⟨j, hj⟩ := List.mem_iff_getElem?.mp h
  by_cases hij : j = i
  · subst hij
    exact .inl (Option.some.inj (hj.symm.trans hi))
  · exact .inr (List.mem_eraseIdx_iff_getElem?.mpr ⟨j, hij, hj⟩)

/-- A mapping that the `i`-th call does not cover is settled without it. -/
theorem Settled.drop {ssid : Id} {mangaId : Int} (h : Settled rules s ssid mangaId)
    (hi : s.jobs[i]? = some job)
    (hnot : ¬Covers rules s.suwayomiChapter s.db ssid mangaId job) :
    Settled rules (s.drop i) ssid mangaId := by
  apply h.imp_right
  apply Or.imp_right
  intro hcovered
  obtain ⟨other, hother, hcovers⟩ := hcovered
  rcases eq_or_mem_eraseIdx hi hother with rfl | hmem
  · exact absurd hcovers hnot
  · exact ⟨other, hmem, hcovers⟩

/-- What is settled without the `i`-th call is settled after it moved on. -/
theorem Settled.moveOn_of_drop {ssid : Id} {mangaId : Int} {stage : Stage}
    (h : Settled rules (s.drop i) ssid mangaId) :
    Settled rules (s.moveOn i job stage) ssid mangaId := by
  apply h.imp_right
  apply Or.imp_right
  intro hcovered
  obtain ⟨other, hother, hcovers⟩ := hcovered
  exact ⟨other, mem_set_of_mem_eraseIdx hother, hcovers⟩

/-- A call that goes on covering what it covered. -/
theorem Settled.moveOn {ssid : Id} {mangaId : Int} {stage : Stage}
    (h : Settled rules s ssid mangaId) (hi : s.jobs[i]? = some job)
    (hcovers : Covers rules s.suwayomiChapter s.db ssid mangaId job →
      Covers rules s.suwayomiChapter s.db ssid mangaId { job with stage := stage }) :
    Settled rules (s.moveOn i job stage) ssid mangaId := by
  by_cases hjob : Covers rules s.suwayomiChapter s.db ssid mangaId job
  · exact .inr (.inr ⟨_, mem_set_self hi, hcovers hjob⟩)
  · exact (h.drop hi hjob).moveOn_of_drop

end Jobs

end Komika.Cache.Mappings
