import Komika.Cache.Mappings

/-!
# The spine as a mirror of the chapter cache

Which steps of the cache's writers, the mappings' and the drains' keep every
mapping settled, and so the spine a mirror of the cache at rest
(`spine_mirrors_cache`).

The invariant is `Consistent`: ids are minted once, rows belong to mappings, calls hold
what they have read, and every Suwayomi mapping is settled.  Each step has its lemma,
and `consistent_step` puts them together.

* `consistent_changed`, `consistent_cached`, `consistent_replacing`,
  `consistent_replaced`, `consistent_written` — the stages of a call;
* `consistent_step` — any step in which no write is lost;
* `Consistent.mirrors` — what the invariant says at rest;
* `spine_mirrors_cache` — every run;
* `not_spine_mirrors_cache_lost_write` — a spine write that fails.
-/

namespace Komika.Cache.SpineMirror

open Komika.Lib
open Komika.Catalog.Schema Komika.Catalog.Database Komika.Catalog.Ledger
open Komika.Catalog.SpineKeys Komika.Cache.SeriesCache
open Komika.Cache.Replacement Komika.Cache.Mappings
open Komika.Feed.Schema (SuwayomiChapter)

variable {ν : Type}

/-! ## Every state

The invariant, with what makes it inductive. -/

/-- The mapping that a call writes to is in the database. -/
def HasMapping (db : Db) (ssid : Id) : Prop := ∃ ss ∈ db.sourceSeries, ss.id = ssid

/-- What a call holds is what it has read. -/
def JobProper (db : Db) (minted : List Id) (job : Job) : Prop :=
  match job.stage with
  | .changed _ _ => job.fromPut = true
  | .cached _ _ => True
  | .pending ssid _ => HasMapping db ssid
  | .replacing ssid inputs =>
      HasMapping db ssid ∧ ∀ x ∈ inputs, x.externalId ≠ ""
  | .planned ssid inputs vanished =>
      HasMapping db ssid ∧ (∀ x ∈ inputs, x.externalId ≠ "") ∧
        (∀ id ∈ vanished, id ∈ minted) ∧ VanishedProper ssid inputs vanished db
  | .written _ => True

/-- What every state of a run has. -/
structure Consistent (rules : CacheRules ν) (s : CacheState) : Prop where
  minted : ∀ c ∈ s.db.chapter, c.id ∈ s.minted
  owned : ∀ c ∈ s.db.chapter, HasMapping s.db c.sourceSeriesId
  jobs : ∀ job ∈ s.jobs, JobProper s.db s.minted job
  settled : ∀ ss ∈ s.db.sourceSeries, ss.sourceType = "suwayomi" →
    Settled rules s ss.id (castInteger ss.sourceKey)

section Keeping

variable {rules : CacheRules ν} {s s' : CacheState} {db db' : Db}
  {minted minted' : List Id}

/-- A row of the new state that was minted before is a row of the old one. -/
theorem JobProper.frame {job : Job}
    (hmap : ∀ ssid, HasMapping db ssid → HasMapping db' ssid)
    (hminted : ∀ id ∈ minted, id ∈ minted')
    (hrows : ∀ c' ∈ db'.chapter, c'.id ∈ minted → ∃ c ∈ db.chapter, c.id = c'.id ∧
      c.sourceSeriesId = c'.sourceSeriesId ∧ c.externalId = c'.externalId)
    (h : JobProper db minted job) : JobProper db' minted' job := by
  obtain ⟨fromPut, stage⟩ := job
  cases stage with
  | changed mangaId chapters => exact h
  | cached | written => trivial
  | pending ssid mangaId => exact hmap ssid h
  | replacing ssid inputs => exact ⟨hmap ssid h.1, h.2⟩
  | planned ssid inputs vanished =>
      obtain ⟨hmapping, hexts, hvan, hproper⟩ := h
      refine ⟨hmap ssid hmapping, hexts, fun id hid => hminted id (hvan id hid), ?_⟩
      intro c' hc' hin
      obtain ⟨c, hc, hid, hss, hext⟩ := hrows c' hc' (hvan _ hin)
      rw [← hss, ← hext]
      exact hproper c hc (hid ▸ hin)

/-- The calls under way change, and nothing else. -/
theorem Consistent.with_jobs (h : Consistent rules s) {jobs : List Job}
    (hjobs : ∀ job ∈ jobs, JobProper s.db s.minted job)
    (hsettled : ∀ ss ∈ s.db.sourceSeries, ss.sourceType = "suwayomi" →
      Settled rules { s with jobs := jobs } ss.id (castInteger ss.sourceKey)) :
    Consistent rules { s with jobs := jobs } :=
  ⟨h.minted, h.owned, hjobs, hsettled⟩

/-- A step that leaves the calls, the cache and what the spine's rows say. -/
structure Frame (s s' : CacheState) : Prop where
  rows : ∀ ssid, SameRows ssid s.db s'.db
  mapping : ∀ ssid, HasMapping s.db ssid → HasMapping s'.db ssid
  mapped : ∀ ss' ∈ s'.db.sourceSeries,
    (∃ ss ∈ s.db.sourceSeries, ss.id = ss'.id ∧ ss.sourceType = ss'.sourceType ∧
      ss.sourceKey = ss'.sourceKey) ∨
    ∀ c ∈ s.db.chapter, c.sourceSeriesId ≠ ss'.id
  cache : s'.suwayomiChapter = s.suwayomiChapter
  jobs : s'.jobs = s.jobs
  minted : s'.minted = s.minted

/-- A step outside of the calls keeps it. -/
theorem Consistent.frame (h : Consistent rules s) (hframe : Frame s s') :
    Consistent rules s' where
  minted c' hc' := by
    obtain ⟨c, hc, -, hid, -⟩ := (hframe.rows _).fwd c' hc' rfl
    rw [hframe.minted, ← hid]
    exact h.minted c hc
  owned c' hc' := by
    obtain ⟨c, hc, hss, -⟩ := (hframe.rows _).fwd c' hc' rfl
    exact hframe.mapping _ (hss ▸ h.owned c hc)
  jobs job hjob := by
    rw [hframe.jobs] at hjob
    rw [hframe.minted]
    apply (h.jobs job hjob).frame hframe.mapping fun _ hid => hid
    intro c' hc' _
    obtain ⟨c, hc, hss, hid, heq⟩ := (hframe.rows _).fwd c' hc' rfl
    exact ⟨c, hc, hid, hss, congrArg ChapterInput.externalId heq⟩
  settled ss' hss' htype := by
    rcases hframe.mapped ss' hss' with ⟨ss, hss, hid, htype', hkey⟩ | hnone
    · have hold := h.settled ss hss (htype'.trans htype)
      rw [hid, hkey] at hold
      apply hold.frame (hframe.rows _)
      · intro x
        rw [hframe.cache]
      · intro job hjob hcovers
        exact ⟨job, hframe.jobs ▸ hjob, hcovers⟩
    · refine .inr (.inl (List.eq_nil_iff_forall_not_mem.mpr fun x hx => ?_))
      obtain ⟨c, hc, hss, -⟩ :=
        mem_spineInputs.mp ((hframe.rows _).mem_spineInputs_iff.mp hx)
      exact hnone c hc hss

end Keeping

/-! ### The calls under way -/

section Jobs

variable {rules : CacheRules ν} {s : CacheState} {i : Nat} {job : Job}

/-- A call ends, and no mapping needs it. -/
theorem Consistent.drop (h : Consistent rules s)
    (hsettled : ∀ ss ∈ s.db.sourceSeries, ss.sourceType = "suwayomi" →
      Settled rules (s.drop i) ss.id (castInteger ss.sourceKey)) :
    Consistent rules (s.drop i) :=
  h.with_jobs (fun _ hjob => h.jobs _ (List.mem_of_mem_eraseIdx hjob)) hsettled

/-- A call that holds no list can be dropped. -/
theorem Consistent.drop_idle (h : Consistent rules s) (hi : s.jobs[i]? = some job)
    (hidle : Idle job.stage) : Consistent rules (s.drop i) := by
  apply h.drop
  intro ss hss htype
  exact (h.settled ss hss htype).drop hi (not_covers_of_idle hidle)

theorem Consistent.moveOn (h : Consistent rules s) {stage : Stage}
    (hstage : JobProper s.db s.minted { job with stage := stage })
    (hsettled : ∀ ss ∈ s.db.sourceSeries, ss.sourceType = "suwayomi" →
      Settled rules (s.moveOn i job stage) ss.id (castInteger ss.sourceKey)) :
    Consistent rules (s.moveOn i job stage) := by
  refine h.with_jobs (fun other hother => ?_) hsettled
  rcases List.mem_or_eq_of_mem_set hother with hmem | rfl
  · exact h.jobs other hmem
  · exact hstage

end Jobs

/-! ### Steps outside the calls -/

section Outside

variable {rules : CacheRules ν} {s : CacheState}

/-- A step that writes other tables. -/
theorem Frame.of_eq {db : Db} (hchapter : db.chapter = s.db.chapter)
    (hss : db.sourceSeries = s.db.sourceSeries) : Frame s { s with db := db } where
  rows _ := .of_mem_iff fun _ _ => by rw [← hchapter]
  mapping _ h := by
    unfold HasMapping
    rwa [hss]
  mapped ss' hss' := .inl ⟨ss', by rwa [hss] at hss', rfl, rfl, rfl⟩
  cache := rfl
  jobs := rfl
  minted := rfl

/-- The series are not looked at. -/
theorem frame_putSeries (row : SuwayomiSeries) :
    Frame s { s with db := putSeries row s.db } := by
  unfold putSeries
  split
  · exact .of_eq rfl rfl
  · exact .of_eq rfl rfl

/-- A mapping that is new has no rows. -/
theorem frame_ensureSourceSeries (h : Consistent rules s) (row : SourceSeries)
    (now : String) :
    Frame s { s with
      db := s.db.commit (Catalog.Ingest.ensureSourceSeries row now s.db) } := by
  apply commit_cases (P := fun db => Frame s { s with db := db })
  · exact .of_eq rfl rfl
  · intro id db' hok
    obtain ⟨t, rfl, ⟨-, hmem⟩ | ⟨hnone, -, hmem⟩⟩ :=
      Catalog.Ingest.ensureSourceSeries_ok hok
    · constructor
      · intro ssid
        exact .of_mem_iff fun _ _ => Iff.rfl
      · rintro ssid ⟨ss, hss, hid⟩
        refine ⟨_, (hmem _).mpr ⟨ss, hss, rfl⟩, ?_⟩
        split <;> exact hid
      · intro ss' hss'
        obtain ⟨ss, hss, rfl⟩ := (hmem ss').mp hss'
        refine .inl ⟨ss, hss, ?_⟩
        split <;> exact ⟨rfl, rfl, rfl⟩
      · rfl
      · rfl
      · rfl
    · constructor
      · intro ssid
        exact .of_mem_iff fun _ _ => Iff.rfl
      · rintro ssid ⟨ss, hss, hid⟩
        exact ⟨ss, (hmem ss).mpr (.inl hss), hid⟩
      · intro ss' hss'
        rcases (hmem ss').mp hss' with hold | rfl
        · exact .inl ⟨ss', hold, rfl, rfl, rfl⟩
        · refine .inr fun c hc heq => ?_
          obtain ⟨ss, hss, hid⟩ := h.owned c hc
          have hsame : ss = ss' := Table.eq_of_clash ((hmem ss).mpr (.inl hss))
            hss' (by show decide _ = true; simp [hid, heq])
          exact hnone ss hss (congrArg SourceSeries.key hsame)
      · rfl
      · rfl
      · rfl

/-- One update of the key drain writes the key and the label alone. -/
theorem sameRows_writeKey (labels : LabelRules ν) (r : KeyRow) (ssid : Id)
    (db : Db) : SameRows ssid db { db with chapter := writeKey labels db.chapter r } where
  fwd c' hc' hss := by
    obtain ⟨c, hc, rfl⟩ := (Table.mem_update (h := setKey_keepsKeys _)).mp hc'
    refine ⟨c, hc, ?_⟩
    split at hss <;> split <;> exact ⟨hss, rfl, rfl⟩
  bwd c hc hss := by
    refine ⟨_, (Table.mem_update (h := setKey_keepsKeys _)).mpr ⟨c, hc, rfl⟩, ?_⟩
    split <;> exact ⟨hss, rfl, rfl⟩

theorem sameRows_writeKeys (labels : LabelRules ν) (rows : List KeyRow) (ssid : Id)
    (db : Db) : SameRows ssid db (writeKeys labels rows db) := by
  induction rows generalizing db with
  | nil => exact .of_mem_iff fun _ _ => Iff.rfl
  | cons r rows ih => exact (sameRows_writeKey labels r ssid db).trans (ih _)

/-- Keys and labels are not mirrored. -/
theorem frame_drainChapterKeys (labels : LabelRules ν) (rows : List KeyRow) :
    Frame s { s with db := writeKeys labels rows s.db } where
  rows ssid := sameRows_writeKeys labels rows ssid s.db
  mapping _ h := h
  mapped ss hss := .inl ⟨ss, hss, rfl, rfl, rfl⟩
  cache := rfl
  jobs := rfl
  minted := rfl

/-- A call that is started holds its list. -/
theorem consistent_putChapters (h : Consistent rules s) (mangaId : Int)
    (chapters : List SuwayomiChapter) :
    Consistent rules (s.step rules (.putChapters mangaId chapters)) := by
  simp only [CacheState.step]
  split
  · split
    · exact h
    · apply h.with_jobs
      · intro job hjob
        rcases List.mem_append.mp hjob with hold | hnew
        · exact h.jobs job hold
        · rw [List.mem_singleton.mp hnew]
          exact rfl
      · intro ss hss htype
        apply (h.settled ss hss htype).with_jobs
        exact fun job hjob => List.mem_append_left _ hjob
  · exact h

/-- The calls of a drain hold no list yet. -/
theorem consistent_drainSuwayomiSeries (h : Consistent rules s) :
    Consistent rules (s.step rules .drainSuwayomiSeries) := by
  apply h.with_jobs
  · intro job hjob
    rcases List.mem_append.mp hjob with hold | hnew
    · exact h.jobs job hold
    · obtain ⟨p, hp, rfl⟩ := List.mem_map.mp hnew
      obtain ⟨ss, hss, rfl⟩ := List.mem_map.mp hp
      exact ⟨ss, List.mem_of_mem_filter (List.mem_of_mem_take hss), rfl⟩
  · intro ss hss htype
    apply (h.settled ss hss htype).with_jobs
    exact fun job hjob => List.mem_append_left _ hjob

end Outside

/-! ### Steps of the calls -/

section Calls

variable {rules : CacheRules ν} {s : CacheState} {i : Nat} {fromPut : Bool}

section Rewrite

variable {mangaId target : Int} {chapters : List SuwayomiChapter}
  {cache cache' : Table SuwayomiChapter}

/-- What the transaction of the cache leaves. -/
theorem mem_rewriteCache (h : rewriteCache mangaId chapters cache = some cache')
    (c : SuwayomiChapter) :
    c ∈ cache' ↔ (c ∈ cache ∧ c.mangaId ≠ mangaId) ∨ c ∈ chapters := by
  rw [Table.mem_of_insertAll h, Table.mem_deleteWhere, decide_eq_false_iff_not]

/-- The list that was written is current. -/
theorem current_rewriteCache (h : rewriteCache mangaId chapters cache = some cache')
    (hown : ∀ c ∈ chapters, c.mangaId = mangaId) :
    Current rules cache' mangaId (chapters.map (suwayomiChapterInput rules)) := by
  constructor
  · intro x hx
    obtain ⟨c, hc, rfl⟩ := List.mem_map.mp hx
    exact mem_cachedInputs.mpr ⟨c, (mem_rewriteCache h c).mpr (.inr hc), hown c hc, rfl⟩
  · intro x hx
    obtain ⟨c, hc, hcm, rfl⟩ := mem_cachedInputs.mp hx
    rcases (mem_rewriteCache h c).mp hc with ⟨-, hne⟩ | hin
    · exact absurd hcm hne
    · exact List.mem_map_of_mem hin

/-- The lists of the other series stay. -/
theorem mem_cachedInputs_rewriteCache (h : rewriteCache mangaId chapters cache = some cache')
    (hown : ∀ c ∈ chapters, c.mangaId = mangaId) (hne : mangaId ≠ target) (x : ChapterInput) :
    x ∈ cachedInputs rules cache' target ↔ x ∈ cachedInputs rules cache target := by
  rw [mem_cachedInputs, mem_cachedInputs]
  refine exists_congr fun c => ⟨?_, ?_⟩
  · rintro ⟨hc, hcm, rfl⟩
    rcases (mem_rewriteCache h c).mp hc with ⟨hc, -⟩ | hin
    · exact ⟨hc, hcm, rfl⟩
    · exact absurd ((hown c hin).symm.trans hcm) hne
  · rintro ⟨hc, hcm, rfl⟩
    have hother : c.mangaId ≠ mangaId := fun heq => hne (heq.symm.trans hcm)
    exact ⟨(mem_rewriteCache h c).mpr (.inl ⟨hc, hother⟩), hcm, rfl⟩

end Rewrite

/-- After the cache transaction the call covers every mapping of its series. -/
theorem consistent_changed (h : Consistent rules s) {mangaId : Int}
    {chapters : List SuwayomiChapter}
    (hi : s.jobs[i]? = some ⟨fromPut, .changed mangaId chapters⟩)
    (hown : ∀ c ∈ chapters, c.mangaId = mangaId)
    {cache : Table SuwayomiChapter}
    (hcache : rewriteCache mangaId chapters s.suwayomiChapter = some cache) :
    Consistent rules ({ s with suwayomiChapter := cache }.moveOn i
      ⟨fromPut, .changed mangaId chapters⟩ (.cached mangaId chapters)) where
  minted := h.minted
  owned := h.owned
  jobs job hjob := by
    rcases List.mem_or_eq_of_mem_set hjob with hold | rfl
    · exact h.jobs job hold
    · trivial
  settled ss hss htype := by
    by_cases hmanga : mangaId = castInteger ss.sourceKey
    · have hput : fromPut = true := h.jobs _ (List.mem_of_getElem? hi)
      refine .inr (.inr ⟨_, mem_set_self hi, .inl ⟨hput, hmanga, ?_⟩⟩)
      exact hmanga ▸ current_rewriteCache hcache hown
    · apply Settled.frame (h.settled ss hss htype)
      · exact .of_mem_iff fun _ _ => Iff.rfl
      · exact mem_cachedInputs_rewriteCache hcache hown hmanga
      · intro job hjob hcovers
        rcases eq_or_mem_eraseIdx hi hjob with rfl | hrest
        · exact absurd hcovers (not_covers_of_idle trivial)
        · exact ⟨job, mem_set_of_mem_eraseIdx hrest, hcovers⟩

/-- The mapping that is found is one of the series. -/
theorem exists_of_mappingOf {db : Db} {mangaId : Int} {ssid : Id}
    (h : mappingOf db mangaId = some ssid) :
    ∃ ss ∈ db.sourceSeries, ss.sourceKey = toString mangaId ∧ ss.id = ssid := by
  obtain ⟨ss, hhead, hid⟩ := Option.map_eq_some_iff.mp h
  have hmem := List.mem_of_mem_head? hhead
  rw [List.mem_insertionSort, List.mem_filter] at hmem
  simp only [Bool.and_eq_true, decide_eq_true_eq] at hmem
  exact ⟨ss, hmem.1, hmem.2.2, hid⟩

/-- An id of a cached chapter is a number. -/
theorem externalId_ne_empty {chapters : List SuwayomiChapter} {x : ChapterInput}
    (hx : x ∈ chapters.map (suwayomiChapterInput rules)) : x.externalId ≠ "" := by
  obtain ⟨c, -, rfl⟩ := List.mem_map.mp hx
  exact toString_ne_empty c.id

/-- The call goes on to the mapping it has read, which it covered before. -/
theorem consistent_cached (h : Consistent rules s) {mangaId : Int}
    {chapters : List SuwayomiChapter}
    (hi : s.jobs[i]? = some ⟨fromPut, .cached mangaId chapters⟩)
    (hothers : ∀ ss ∈ s.db.sourceSeries.rows, ss.sourceType = "suwayomi" →
      mappingOf s.db mangaId ≠ some ss.id →
        Settled rules (s.drop i) ss.id (castInteger ss.sourceKey))
    {ssid : Id} (hssid : mappingOf s.db mangaId = some ssid) :
    Consistent rules (s.moveOn i ⟨fromPut, .cached mangaId chapters⟩
      (.replacing ssid (chapters.map (suwayomiChapterInput rules)))) := by
  obtain ⟨target, htarget, hkey, hid⟩ := exists_of_mappingOf hssid
  apply h.moveOn
  · exact ⟨⟨target, htarget, hid⟩, fun x hx => externalId_ne_empty hx⟩
  · intro ss hss htype
    by_cases heq : ss.id = ssid
    · apply (h.settled ss hss htype).moveOn hi
      intro hcovers
      rcases hcovers with ⟨hput, -, hcurrent⟩ | ⟨-, hfalse⟩
      · exact .inl ⟨hput, heq.symm, hcurrent⟩
      · exact hfalse.elim
    · apply Settled.moveOn_of_drop
      apply hothers ss hss htype
      rw [hssid]
      exact fun hsome => heq (Option.some.inj hsome).symm

/-- A call of the drain reads its list and goes on. -/
theorem consistent_pending (h : Consistent rules s) {mangaId : Int} {ssid : Id}
    (hi : s.jobs[i]? = some ⟨fromPut, .pending ssid mangaId⟩)
    (chapters : List SuwayomiChapter) :
    Consistent rules (s.moveOn i ⟨fromPut, .pending ssid mangaId⟩
      (.replacing ssid (chapters.map (suwayomiChapterInput rules)))) := by
  apply h.moveOn
  · exact ⟨h.jobs _ (List.mem_of_getElem? hi), fun x hx => externalId_ne_empty hx⟩
  · intro ss hss htype
    apply (h.settled ss hss htype).moveOn hi
    intro hcovers
    exact absurd hcovers (not_covers_of_idle trivial)

/-- The rows that the call has read are all there are. -/
theorem consistent_replacing (h : Consistent rules s) {ssid : Id}
    {inputs : List ChapterInput}
    (hi : s.jobs[i]? = some ⟨fromPut, .replacing ssid inputs⟩) :
    Consistent rules (s.moveOn i ⟨fromPut, .replacing ssid inputs⟩
      (.planned ssid inputs (vanishedIds ssid inputs s.db))) := by
  obtain ⟨hmapping, hexts⟩ := h.jobs _ (List.mem_of_getElem? hi)
  apply h.moveOn
  · refine ⟨hmapping, hexts, ?_, vanishedProper_vanishedIds ssid hexts s.db⟩
    intro id hid
    obtain ⟨c, hc, rfl⟩ := List.mem_map.mp hid
    exact h.minted c (List.mem_of_mem_filter hc)
  · intro ss hss htype
    apply (h.settled ss hss htype).moveOn hi
    intro hcovers
    rcases hcovers with ⟨hput, htarget, hcurrent⟩ | ⟨-, hfalse⟩
    · refine .inr ⟨hput, htarget, hcurrent, ?_⟩
      intro c hc hcss
      by_cases hext : c.externalId ∈ inputs.map ChapterInput.externalId
      · exact .inl hext
      · refine .inr (List.mem_map.mpr ⟨c, List.mem_filter.mpr ⟨hc, ?_⟩, rfl⟩)
        rw [Bool.and_eq_true, decide_eq_true_eq, Bool.not_eq_true',
          List.contains_eq_mem, decide_eq_false_iff_not]
        refine ⟨hcss.trans htarget.symm, fun hin => ?_⟩
        exact hext (List.mem_of_mem_filter hin)
    · exact hfalse.elim

/-- The transaction of a replacement, where it does no harm. -/
theorem consistent_replaced (h : Consistent rules s) {ssid : Id}
    {inputs : List ChapterInput} {vanished ids : List Id} {db' : Db}
    (hi : s.jobs[i]? = some ⟨fromPut, .planned ssid inputs vanished⟩)
    (hnew : ∀ id ∈ ids, id ∉ s.minted)
    (hreplaced : Replaced ssid inputs vanished ids s.db db')
    (hland : ∀ ss ∈ s.db.sourceSeries.rows, ss.sourceType = "suwayomi" →
      ss.id = ssid →
        Harmless rules s i ssid (castInteger ss.sourceKey) inputs vanished)
    {jobs : List Job} (hrest : ∀ job ∈ s.jobs.eraseIdx i, job ∈ jobs)
    (hjobs : ∀ job ∈ jobs, job ∈ s.jobs ∨ job.stage = .written ssid) :
    Consistent rules
      { s with db := db', minted := ids ++ s.minted, jobs := jobs } := by
  obtain ⟨hmapping, -, -, -⟩ := h.jobs _ (List.mem_of_getElem? hi)
  have hmap : ∀ target, HasMapping s.db target → HasMapping db' target := by
    intro target htarget
    unfold HasMapping
    rwa [hreplaced.mappings]
  have hrows := fun c (hc : c ∈ db'.chapter) => hreplaced.cases hc
  constructor
  · intro c hc
    rcases hrows c hc with ⟨hid, -⟩ | ⟨old, hold, hid, -, -⟩
    · exact List.mem_append_left _ hid
    · exact List.mem_append_right _ (hid ▸ h.minted old hold)
  · intro c hc
    rcases hrows c hc with ⟨-, hss⟩ | ⟨old, hold, -, hss, -⟩
    · exact hss ▸ hmap ssid hmapping
    · exact hss ▸ hmap _ (h.owned old hold)
  · intro job hjob
    rcases hjobs job hjob with hold | hwritten
    · apply (h.jobs job hold).frame hmap
      · exact fun id hid => List.mem_append_right _ hid
      · intro c hc hid
        rcases hrows c hc with ⟨hnewId, -⟩ | hold
        · exact absurd hid (hnew _ hnewId)
        · exact hold
    · unfold JobProper
      rw [hwritten]
      trivial
  · intro ss hss htype
    rw [hreplaced.mappings] at hss
    by_cases hid : ss.id = ssid
    · have hharmless := hland ss hss htype hid
      rw [hid]
      rcases hharmless with hcompleting | ⟨rfl, hall⟩ | ⟨hmirrored, hin, hout⟩ |
          ⟨job, hjob, hcovers, hadds⟩
      · exact .inl (mirrored_of_completing hreplaced hcompleting)
      · exact .inr (.inl (empty_of_replaced hreplaced hall))
      · exact .inl (mirrored_of_mirrored hreplaced hmirrored hin hout)
      · exact .inr (.inr ⟨job, hrest job hjob, covers_of_replaced hreplaced hcovers hadds⟩)
    · apply Settled.frame (h.settled ss hss htype)
      · apply SameRows.of_mem_iff
        intro c hc
        exact hreplaced.elsewhere c (hc ▸ hid)
      · exact fun _ => Iff.rfl
      · intro job hjob hcovers
        rcases eq_or_mem_eraseIdx hi hjob with rfl | hmem
        · rcases hcovers with ⟨-, hfalse⟩ | ⟨-, htarget, -⟩
          · exact hfalse.elim
          · exact absurd htarget.symm hid
        · exact ⟨job, hrest job hmem, hcovers⟩

/-- The ledger is written or not; the spine stays. -/
theorem consistent_written (h : Consistent rules s) {ssid : Id}
    (hi : s.jobs[i]? = some ⟨fromPut, .written ssid⟩) {db : Db}
    (hchapter : db.chapter = s.db.chapter)
    (hss : db.sourceSeries = s.db.sourceSeries) :
    Consistent rules ({ s with db := db }.drop i) := by
  have hframed := h.frame (Frame.of_eq hchapter hss)
  exact hframed.drop_idle hi trivial

/-- A step of a call in which no write is lost. -/
theorem consistent_advance (h : Consistent rules s) {job : Job}
    (hi : s.jobs[i]? = some job) (ids : List Id) (nowMs : Int)
    (hgood : NoWriteLost rules s (.advance i ids nowMs)) :
    Consistent rules (s.advance rules i job ids nowMs) := by
  simp only [NoWriteLost, hi] at hgood
  obtain ⟨fromPut, stage⟩ := job
  cases stage with
  | changed mangaId chapters =>
      simp only [CacheState.advance]
      split
      · next cache hcache => exact consistent_changed h hi hgood hcache
      · exact h.drop_idle hi trivial
  | cached mangaId chapters =>
      simp only [CacheState.advance]
      split
      · next ssid hssid => exact consistent_cached h hi hgood hssid
      · next hnone =>
          apply h.drop
          intro ss hss htype
          apply hgood ss hss htype
          rw [hnone]
          exact fun hsome => nomatch hsome
  | pending ssid mangaId =>
      simp only [CacheState.advance]
      split
      · exact h.drop_idle hi trivial
      · exact consistent_pending h hi _
  | replacing ssid inputs => exact consistent_replacing h hi
  | planned ssid inputs vanished =>
      simp only [CacheState.advance]
      split
      · next hfresh =>
          obtain ⟨hmapping, hexts, hvan, hproper⟩ :=
            h.jobs _ (List.mem_of_getElem? hi)
          have hids : ids.length = inputs.length ∧ ids.Nodup ∧
              ∀ id ∈ ids, id ∉ s.minted := by
            simpa [CacheState.freshIds] using hfresh
          obtain ⟨hlen, hnodup, hnew⟩ := hids
          have hcommits : ∃ db', commitReplace
              (spineRules rules.labels rules.strftimeSeconds)
              ⟨ssid, ids.zip inputs, vanished⟩ s.db = .ok ((), db') ∧
                Replaced ssid inputs vanished ids s.db db' := by
            apply exists_replaced hlen hexts hmapping hnodup
            · exact fun c hc hin => hnew _ hin (h.minted c hc)
            · exact fun id hid hin => hnew id hid (hvan id hin)
            · exact hproper
          obtain ⟨db', hcommit, hreplaced⟩ := hcommits
          rw [hcommit]
          have hland := hgood hfresh
          dsimp only
          split
          · apply consistent_replaced h hi hnew hreplaced hland
            · exact fun _ hother => mem_set_of_mem_eraseIdx hother
            · intro other hother
              rcases List.mem_or_eq_of_mem_set hother with hmem | rfl
              · exact .inl hmem
              · exact .inr rfl
          · apply consistent_replaced h hi hnew hreplaced hland
            · exact fun _ hother => hother
            · exact fun _ hother => .inl (List.mem_of_mem_eraseIdx hother)
      · exact h
  | written ssid =>
      simp only [CacheState.advance]
      split
      · exact consistent_written h hi rfl rfl
      · exact consistent_written h hi rfl rfl

end Calls

/-! ## Runs

The step lemma, the run, and what it says of a state at rest. -/

section Runs

variable {rules : CacheRules ν} {s : CacheState}

/-- A step in which no write is lost keeps every mapping settled. -/
theorem consistent_step (h : Consistent rules s) {op : CacheOp}
    (hgood : NoWriteLost rules s op) : Consistent rules (s.step rules op) := by
  cases op with
  | putSeries row => exact h.frame (frame_putSeries row)
  | ensureSourceSeries row now => exact h.frame (frame_ensureSourceSeries h row now)
  | putChapters mangaId chapters => exact consistent_putChapters h mangaId chapters
  | drainSuwayomiSeries => exact consistent_drainSuwayomiSeries h
  | drainChapterKeys rows => exact h.frame (frame_drainChapterKeys rules.labels rows)
  | advance i ids nowMs =>
      simp only [CacheState.step]
      split
      · next job hi => exact consistent_advance h hi ids nowMs hgood
      · exact h
  | fail i => exact h.drop hgood

/-- At rest a settled mapping is mirrored: no write is under way, and a mapping
without rows has no cached chapters. -/
theorem Consistent.mirrors (h : Consistent rules s) (hq : Quiescent s) :
    SpineMirrorsCache rules s := by
  obtain ⟨hjobs, hremaining⟩ := hq
  intro ss hss htype
  rcases h.settled ss hss htype with hmirrored | hempty | ⟨job, hjob, hcovers⟩
  · exact hmirrored
  · have hnone : unmaterialised s.suwayomiChapter s.db ss = false := by
      have hcount := congrArg Prod.snd hremaining
      simpa using List.countP_eq_zero.mp hcount ss hss
    have hrows : ∀ c ∈ s.db.chapter.rows, c.sourceSeriesId ≠ ss.id := by
      intro c hc hcss
      have hmem := mem_spineInputs.mpr ⟨c, hc, hcss, rfl⟩
      rw [hempty] at hmem
      exact List.not_mem_nil hmem
    have hcached : cachedChapters s.suwayomiChapter (castInteger ss.sourceKey) = [] := by
      by_contra hsome
      have htrue : unmaterialised s.suwayomiChapter s.db ss = true := by
        simpa [unmaterialised, htype, hsome] using hrows
      rw [hnone] at htrue
      contradiction
    unfold Mirrored Current cachedInputs
    rw [hempty, hcached]
    exact ⟨fun _ hx => hx, fun _ hx => hx⟩
  · have hput : job.fromPut = true := hcovers.elim And.left And.left
    rw [hjobs job hjob] at hput
    contradiction

/-- Nothing is under way, the rows belong to mappings, and each Suwayomi
mapping has no rows or is mirrored. -/
theorem consistent_start {db : Db} {cache : Table SuwayomiChapter}
    (howned : ∀ c ∈ db.chapter, HasMapping db c.sourceSeriesId)
    (hrows : ∀ ss ∈ db.sourceSeries, ss.sourceType = "suwayomi" →
      spineInputs db ss.id = [] ∨
        Mirrored rules cache db ss.id (castInteger ss.sourceKey)) :
    Consistent rules (.start db cache) where
  minted _ hc := List.mem_map_of_mem hc
  owned := howned
  jobs job hjob := absurd hjob List.not_mem_nil
  settled ss hss htype := by
    rcases hrows ss hss htype with hempty | hmirrored
    · exact .inr (.inl hempty)
    · exact .inl hmirrored

/-- **The spine mirrors the cache at rest**, along every run in which no write is lost,
from every database whose Suwayomi mappings have no rows yet or are mirrored.  Between
two statements of a call the two may differ; the invariant (`Consistent`) has every
mapping settled by what the calls in flight still hold, and at rest they hold
nothing. -/
theorem spine_mirrors_cache (rules : CacheRules ν) (db : Db)
    (cache : Table SuwayomiChapter)
    (howned : ∀ c ∈ db.chapter, HasMapping db c.sourceSeriesId)
    (hrows : ∀ ss ∈ db.sourceSeries, ss.sourceType = "suwayomi" →
      spineInputs db ss.id = [] ∨
        Mirrored rules cache db ss.id (castInteger ss.sourceKey))
    (ops : List CacheOp)
    (h : Machine.EachStep (CacheState.step rules) (NoWriteLost rules)
      (.start db cache) ops) :
    Machine.Always (CacheState.step rules)
      (fun s => Quiescent s → SpineMirrorsCache rules s) (.start db cache) ops := by
  rintro before ⟨after, rfl⟩
  have hbefore := (Machine.eachStep_append.mp h).1
  have hstep : ∀ s op, Consistent rules s → NoWriteLost rules s op →
      Consistent rules (s.step rules op) := fun s op hs => consistent_step hs
  have hconsistent := Machine.run_invariant_of_each hstep
    (consistent_start howned hrows) hbefore
  exact hconsistent.mirrors

end Runs

/-! ## A spine write that fails

An error that is swallowed, and that nothing repairs. -/

section Instances

variable (rules : CacheRules ν) (cache : Table SuwayomiChapter) (db : Db)
  (s : CacheState) (ssid : Id) (mangaId : Int)

instance (inputs : List ChapterInput) :
    Decidable (Current rules cache mangaId inputs) := by
  unfold Current
  infer_instance

instance : Decidable (Mirrored rules cache db ssid mangaId) := by
  unfold Mirrored
  infer_instance

instance : Decidable (Quiescent s) := by
  unfold Quiescent
  infer_instance

instance : Decidable (SpineMirrorsCache rules s) := by
  unfold SpineMirrorsCache
  infer_instance

instance (inputs : List ChapterInput) (vanished : List Id) :
    Decidable (Completing rules cache db ssid mangaId inputs vanished) := by
  unfold Completing
  infer_instance

instance (job : Job) : Decidable (Covers rules cache db ssid mangaId job) := by
  unfold Covers Awaits Completes
  cases job.stage <;> infer_instance

instance : Decidable (Settled rules s ssid mangaId) := by
  unfold Settled
  infer_instance

instance (inputs : List ChapterInput) (job : Job) :
    Decidable (AddsNothingTo db ssid inputs job) := by
  unfold AddsNothingTo
  cases job.stage <;> infer_instance

instance (i : Nat) (inputs : List ChapterInput) (vanished : List Id) :
    Decidable (Harmless rules s i ssid mangaId inputs vanished) := by
  unfold Harmless
  infer_instance

instance (op : CacheOp) : Decidable (NoWriteLost rules s op) := by
  unfold NoWriteLost
  split
  · split <;> infer_instance
  · infer_instance
  · infer_instance

end Instances

/-- Rules under which every text is itself. -/
def plainCacheRules : CacheRules String where
  labels := integralLabels
  strftimeSeconds _ := none
  numberToString q := toString q.num
  uploadDateToIso date := date

/-- Series 7 is cached, and mapped; neither has chapters. -/
def oneMapping : Db :=
  { Db.empty with
    suwayomiSeries := ⟨[⟨7, "Title", none, none, none, "ONGOING", some "en"⟩],
      by decide⟩
    sourceSeries := ⟨[⟨"s1", "w", "suwayomi", "1", "7", none, false, none⟩],
      by decide⟩ }

/-- A chapter of series 7. -/
def chapterOf7 (id : Int) : SuwayomiChapter where
  id := id
  mangaId := 7
  name := "Chapter"
  chapterNumber := id
  scanlator := none
  uploadDate := none
  isRead := false
  isBookmarked := false
  isDownloaded := false
  lastPageRead := 0
  pageCount := 0

/-- A `put_chapters` of chapter 1 that runs to its end. -/
def putOne : List CacheOp :=
  [.putChapters 7 [chapterOf7 1], .advance 0 [] 0, .advance 0 [] 0,
    .advance 0 [] 0, .advance 0 ["c1"] 0, .advance 0 [] 0]

/-- A series, its mapping and one call: the run is one in which no write is lost. -/
theorem spine_mirrors_cache_putOne :
    Machine.Always (CacheState.step plainCacheRules)
      (fun s => Quiescent s → SpineMirrorsCache plainCacheRules s)
      (.start oneMapping .empty) putOne :=
  spine_mirrors_cache plainCacheRules oneMapping .empty
    (fun c hc => absurd hc (Table.not_mem_empty c)) (fun _ _ _ => .inl rfl)
    putOne (by decide)

/-- The series gets a second chapter, and the spine write fails. -/
def loseTwo : List CacheOp :=
  [.putChapters 7 [chapterOf7 1, chapterOf7 2], .advance 0 [] 0, .advance 0 [] 0,
    .advance 0 [] 0, .fail 0]

/-- The same list fetched again, and a drain. -/
def retry : List CacheOp :=
  [.putChapters 7 [chapterOf7 1, chapterOf7 2], .drainSuwayomiSeries]

/-- The cache has chapters 1 and 2 and the spine has chapter 1; neither the
next fetch nor the drain makes a difference. -/
theorem not_spine_mirrors_cache_lost_write :
    ¬Machine.Always (CacheState.step plainCacheRules)
      (fun s => Quiescent s → SpineMirrorsCache plainCacheRules s)
      (.start oneMapping .empty) (putOne ++ loseTwo ++ retry) := by
  intro h
  exact absurd h.last (by decide)

end Komika.Cache.SpineMirror
