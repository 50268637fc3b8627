import Komika.Cache.SeriesCache

/-!
# What a replacement leaves

`replace_source_chapters` upserts a list of chapters for one mapping, and then
deletes the rows it found vanished before it began.  `Replaced` says which rows
it leaves, in terms of the rows before its transaction; `exists_replaced` that
it does, and does not fail, under new ids.

* `wrote_writeChapter`, `Wrote.trans` — one upsert, and one after another;
* `wrote_writeChapters`, `exists_writeChapters_ok` — the loop, and that it does not
  fail;
* `exists_replaced` — the transaction.
-/

namespace Komika.Cache.Replacement

open Komika.Lib
open Komika.Catalog.Schema Komika.Catalog.Database Komika.Catalog.Ledger
open Komika.Catalog.SpineKeys Komika.Cache.SeriesCache

/-- What a row of the spine says of its chapter. -/
def spineInput (c : Chapter) : ChapterInput where
  externalId := c.externalId
  number := c.number
  volume := c.volume
  lang := c.lang
  title := c.title
  publishedAt := c.publishedAt
  readableAt := c.readableAt
  externalUrl := c.externalUrl
  scanlator := c.scanlator

/-! ## The upserts

A chapter that the mapping has keeps its id; a new one has the next of the ids. -/

/-- The rows of `ssid` after the chapters `inputs` were upserted under `ids`;
the rows of other mappings are as before. -/
structure Wrote (ssid : Id) (inputs : List ChapterInput) (ids : List Id)
    (db db' : Db) : Prop where
  elsewhere : ∀ c, c.sourceSeriesId ≠ ssid → (c ∈ db'.chapter ↔ c ∈ db.chapter)
  left : ∀ c ∈ db'.chapter, c.sourceSeriesId = ssid →
    (c ∈ db.chapter ∧ c.externalId ∉ inputs.map ChapterInput.externalId) ∨
      (spineInput c ∈ inputs ∧ (c.id ∈ ids ∨ ∃ old ∈ db.chapter,
        old.sourceSeriesId = ssid ∧ old.externalId = c.externalId ∧ old.id = c.id))
  kept : ∀ c ∈ db.chapter, c.sourceSeriesId = ssid →
    c.externalId ∉ inputs.map ChapterInput.externalId → c ∈ db'.chapter
  present : ∀ x ∈ inputs, ∃ c ∈ db'.chapter,
    c.sourceSeriesId = ssid ∧ c.externalId = x.externalId
  sameId : ∀ c ∈ db'.chapter, ∀ old ∈ db.chapter, c.sourceSeriesId = ssid →
    old.sourceSeriesId = ssid → old.externalId = c.externalId → old.id = c.id
  mappings : db'.sourceSeries = db.sourceSeries

section Writes

variable {rules : SpineRules} {ssid : Id} {db db₁ db₂ db' : Db}

/-- A mapping has an external id once. -/
theorem eq_of_externalId {c d : Chapter} (hc : c ∈ db.chapter)
    (hd : d ∈ db.chapter) (hss : c.sourceSeriesId = d.sourceSeriesId)
    (hext : c.externalId = d.externalId) : c = d :=
  Table.eq_of_clash hc hd (by show decide _ = true; simp [hss, hext])

theorem Wrote.refl : Wrote ssid [] [] db db where
  elsewhere _ _ := Iff.rfl
  left _ hc _ := .inl ⟨hc, List.not_mem_nil⟩
  kept _ hc _ _ := hc
  present _ hx := absurd hx List.not_mem_nil
  sameId _ hc _ hold hss hoss hext :=
    congrArg Chapter.id (eq_of_externalId hold hc (hoss.trans hss.symm) hext)
  mappings := rfl

/-- Writes one after the other. -/
theorem Wrote.trans {xs ys : List ChapterInput} {ids jds : List Id}
    (h : Wrote ssid xs ids db db₁) (h' : Wrote ssid ys jds db₁ db₂) :
    Wrote ssid (xs ++ ys) (ids ++ jds) db db₂ where
  elsewhere c hc := (h'.elsewhere c hc).trans (h.elsewhere c hc)
  left c hc hss := by
    simp only [List.map_append, List.mem_append, not_or]
    rcases h'.left c hc hss with ⟨hc₁, hys⟩ | ⟨hin, hid⟩
    · rcases h.left c hc₁ hss with ⟨hc₀, hxs⟩ | ⟨hin, hid⟩
      · exact .inl ⟨hc₀, hxs, hys⟩
      · exact .inr ⟨.inl hin, hid.imp .inl id⟩
    · refine .inr ⟨.inr hin, ?_⟩
      rcases hid with hid | ⟨old, hold, hoss, hext, hoid⟩
      · exact .inl (.inr hid)
      · rcases h.left old hold hoss with ⟨hold₀, -⟩ | ⟨-, hid | ⟨o, ho, ho'⟩⟩
        · exact .inr ⟨old, hold₀, hoss, hext, hoid⟩
        · exact .inl (.inl (hoid ▸ hid))
        · exact .inr ⟨o, ho, ho'.1, ho'.2.1.trans hext, ho'.2.2.trans hoid⟩
  kept c hc hss hext := by
    rw [List.map_append, List.mem_append, not_or] at hext
    exact h'.kept c (h.kept c hc hss hext.1) hss hext.2
  present x hx := by
    rcases List.mem_append.mp hx with hx | hx
    · obtain ⟨c, hc, hss, hext⟩ := h.present x hx
      by_cases hys : c.externalId ∈ ys.map ChapterInput.externalId
      · obtain ⟨y, hy, hyext⟩ := List.mem_map.mp hys
        obtain ⟨c', hc', hss', hext'⟩ := h'.present y hy
        exact ⟨c', hc', hss', (hext'.trans hyext).trans hext⟩
      · exact ⟨c, h'.kept c hc hss hys, hss, hext⟩
    · exact h'.present x hx
  sameId c hc old hold hss hoss hext := by
    have hmiddle : ∃ c₁ ∈ db₁.chapter, c₁.sourceSeriesId = ssid ∧
        old.externalId = c₁.externalId := by
      by_cases hxs : old.externalId ∈ xs.map ChapterInput.externalId
      · obtain ⟨x, hx, hxext⟩ := List.mem_map.mp hxs
        obtain ⟨c₁, hc₁, hss₁, hext₁⟩ := h.present x hx
        exact ⟨c₁, hc₁, hss₁, (hext₁.trans hxext).symm⟩
      · exact ⟨old, h.kept old hold hoss hxs, hoss, rfl⟩
    obtain ⟨c₁, hc₁, hss₁, hext₁⟩ := hmiddle
    calc old.id = c₁.id := h.sameId c₁ hc₁ old hold hss₁ hoss hext₁
      _ = c.id := h'.sameId c hc c₁ hc₁ hss hss₁ (hext₁.symm.trans hext)
  mappings := h'.mappings.trans h.mappings

/-- The upsert of a chapter that the mapping has refreshes the row. -/
theorem wrote_refreshed {id : Id} {x : ChapterInput}
    (hsome : ∃ same ∈ db.chapter, same.sourceSeriesId = ssid ∧ same.externalId = x.externalId)
    (hmem : ∀ c, c ∈ db'.chapter ↔ ∃ old ∈ db.chapter, c =
      if old.sourceSeriesId = ssid ∧ old.externalId = x.externalId then
        refreshChapter (chapterRow rules id ssid x) old
      else old)
    (hmappings : db'.sourceSeries = db.sourceSeries) : Wrote ssid [x] [id] db db' where
  elsewhere c hc := by
    rw [hmem]
    constructor
    · rintro ⟨old, hold, rfl⟩
      split at hc
      · next hkey => exact absurd hkey.1 hc
      · next hkey => rwa [if_neg hkey]
    · intro hold
      exact ⟨c, hold, (if_neg fun hkey => hc hkey.1).symm⟩
  left c hc hcss := by
    obtain ⟨old, hold, rfl⟩ := (hmem c).mp hc
    split
    · next hkey =>
        refine .inr ⟨?_, .inr ⟨old, hold, hkey.1, rfl, rfl⟩⟩
        rw [List.mem_singleton]
        show spineInput _ = x
        cases x
        simpa [spineInput, refreshChapter, chapterRow] using hkey.2
    · next hkey =>
        rw [if_neg hkey] at hcss
        refine .inl ⟨hold, ?_⟩
        intro hin
        exact hkey ⟨hcss, by simpa using hin⟩
  kept c hc _ hcext := by
    rw [hmem]
    refine ⟨c, hc, (if_neg ?_).symm⟩
    intro hkey
    exact hcext (by simpa using hkey.2)
  present y hy := by
    obtain ⟨same, hsame, hss, hext⟩ := hsome
    rw [List.mem_singleton.mp hy]
    refine ⟨_, (hmem _).mpr ⟨same, hsame, (if_pos ⟨hss, hext⟩).symm⟩, ?_⟩
    exact ⟨hss, hext⟩
  sameId c hc old hold hcss hoss hcext := by
    obtain ⟨old', hold', hc'⟩ := (hmem c).mp hc
    have hkeys : c.sourceSeriesId = old'.sourceSeriesId ∧
        c.externalId = old'.externalId ∧ c.id = old'.id := by
      rw [hc']
      split <;> exact ⟨rfl, rfl, rfl⟩
    have hsame : old = old' := eq_of_externalId hold hold'
      ((hoss.trans hcss.symm).trans hkeys.1) (hcext.trans hkeys.2.1)
    rw [hkeys.2.2, hsame]
  mappings := hmappings

/-- The upsert of a new chapter adds its row. -/
theorem wrote_added {id : Id} {x : ChapterInput}
    (hnone : ∀ old ∈ db.chapter,
      ¬(old.sourceSeriesId = ssid ∧ old.externalId = x.externalId))
    (hmem : ∀ c, c ∈ db'.chapter ↔ c ∈ db.chapter ∨ c = chapterRow rules id ssid x)
    (hmappings : db'.sourceSeries = db.sourceSeries) : Wrote ssid [x] [id] db db' where
  elsewhere c hc := by
    rw [hmem]
    constructor
    · intro h
      rcases h with h | rfl
      · exact h
      · exact absurd rfl hc
    · exact .inl
  left c hc hcss := by
    rcases (hmem c).mp hc with hold | rfl
    · refine .inl ⟨hold, ?_⟩
      intro hin
      exact hnone c hold ⟨hcss, by simpa using hin⟩
    · exact .inr ⟨List.mem_singleton.mpr rfl, .inl (List.mem_singleton.mpr rfl)⟩
  kept c hc _ _ := (hmem c).mpr (.inl hc)
  present y hy := by
    rw [List.mem_singleton.mp hy]
    exact ⟨_, (hmem _).mpr (.inr rfl), rfl, rfl⟩
  sameId c hc old hold hcss hoss hcext := by
    rcases (hmem c).mp hc with hc₀ | rfl
    · exact congrArg Chapter.id (eq_of_externalId hold hc₀ (hoss.trans hcss.symm) hcext)
    · exact absurd ⟨hoss, hcext⟩ (hnone old hold)
  mappings := hmappings

/-- One upsert. -/
theorem wrote_writeChapter {id : Id} {x : ChapterInput}
    (h : writeChapter (chapterRow rules id ssid x) db = .ok db') :
    Wrote ssid [x] [id] db db' := by
  have hmappings : db'.sourceSeries = db.sourceSeries := by
    obtain ⟨t, rfl⟩ := writeChapter_ok h
    rfl
  rcases mem_of_writeChapter h with ⟨hsome, hmem⟩ | ⟨hnone, hmem⟩
  · exact wrote_refreshed hsome hmem hmappings
  · exact wrote_added hnone hmem hmappings

/-- The loop of upserts. -/
theorem wrote_writeChapters {chapters : List (Id × ChapterInput)}
    (h : writeChapters (chapters.map fun c => chapterRow rules c.1 ssid c.2) db =
      .ok db') :
    Wrote ssid (chapters.map Prod.snd) (chapters.map Prod.fst) db db' := by
  induction chapters generalizing db with
  | nil =>
      cases h
      exact .refl
  | cons c chapters ih =>
      rw [List.map_cons, writeChapters, List.foldlM_cons] at h
      cases hwrite : writeChapter (chapterRow rules c.1 ssid c.2) db with
      | error e =>
          rw [hwrite] at h
          contradiction
      | ok db₁ =>
          rw [hwrite] at h
          exact (wrote_writeChapter hwrite).trans (ih h)

/-- Under new ids, each minted once, it does not fail. -/
theorem exists_writeChapters_ok {chapters : List (Id × ChapterInput)}
    (hss : ∃ ss ∈ db.sourceSeries, ss.id = ssid)
    (hnodup : (chapters.map Prod.fst).Nodup)
    (hnew : ∀ c ∈ db.chapter, c.id ∉ chapters.map Prod.fst) :
    ∃ db', writeChapters (chapters.map fun c => chapterRow rules c.1 ssid c.2) db =
      .ok db' := by
  induction chapters generalizing db with
  | nil => exact ⟨db, rfl⟩
  | cons ch chapters ih =>
      rw [List.map_cons, List.nodup_cons] at hnodup
      have hid : ∀ c ∈ db.chapter, c.id ≠ (chapterRow rules ch.1 ssid ch.2).id := by
        intro c hc heq
        exact hnew c hc (heq ▸ List.mem_cons_self)
      have hone : ∃ db₁, writeChapter (chapterRow rules ch.1 ssid ch.2) db =
          .ok db₁ := exists_writeChapter_ok hss hid
      obtain ⟨db₁, hwrite⟩ := hone
      have hwrote := wrote_writeChapter hwrite
      have hnew₁ : ∀ c ∈ db₁.chapter, c.id ∉ chapters.map Prod.fst := by
        intro c hc hin
        have hold : ∀ old ∈ db.chapter, old.id ≠ c.id := by
          intro old hold heq
          exact hnew old hold (heq ▸ List.mem_cons_of_mem _ hin)
        by_cases hcss : c.sourceSeriesId = ssid
        · rcases hwrote.left c hc hcss with
            ⟨hc₀, -⟩ | ⟨-, hid | ⟨old, hmem, -, -, heq⟩⟩
          · exact hold c hc₀ rfl
          · rw [List.mem_singleton.mp hid] at hin
            exact hnodup.1 hin
          · exact hold old hmem heq
        · exact hold c ((hwrote.elsewhere c hcss).mp hc) rfl
      rw [← hwrote.mappings] at hss
      obtain ⟨db', hrest⟩ := ih hss hnodup.2 hnew₁
      refine ⟨db', ?_⟩
      rw [List.map_cons, writeChapters, List.foldlM_cons, hwrite]
      exact hrest

end Writes

/-! ## The deletes

By id, so that a row that was added since the read is not deleted. -/

/-- The rows of `ssid` after `replace_source_chapters`. -/
structure Replaced (ssid : Id) (inputs : List ChapterInput) (vanished ids : List Id)
    (db db' : Db) : Prop where
  elsewhere : ∀ c, c.sourceSeriesId ≠ ssid → (c ∈ db'.chapter ↔ c ∈ db.chapter)
  left : ∀ c ∈ db'.chapter, c.sourceSeriesId = ssid →
    (c ∈ db.chapter ∧ c.externalId ∉ inputs.map ChapterInput.externalId ∧
        c.id ∉ vanished) ∨
      (spineInput c ∈ inputs ∧ (c.id ∈ ids ∨ ∃ old ∈ db.chapter,
        old.sourceSeriesId = ssid ∧ old.externalId = c.externalId ∧ old.id = c.id))
  kept : ∀ c ∈ db.chapter, c.sourceSeriesId = ssid →
    c.externalId ∉ inputs.map ChapterInput.externalId → c.id ∉ vanished →
      c ∈ db'.chapter
  present : ∀ x ∈ inputs, ∃ c ∈ db'.chapter,
    c.sourceSeriesId = ssid ∧ c.externalId = x.externalId
  sameId : ∀ c ∈ db'.chapter, ∀ old ∈ db.chapter, c.sourceSeriesId = ssid →
    old.sourceSeriesId = ssid → old.externalId = c.externalId → old.id = c.id
  mappings : db'.sourceSeries = db.sourceSeries

/-- The rows to delete are rows of the mapping whose chapters the list no
longer has. -/
def VanishedProper (ssid : Id) (inputs : List ChapterInput) (vanished : List Id)
    (db : Db) : Prop :=
  ∀ c ∈ db.chapter, c.id ∈ vanished →
    c.sourceSeriesId = ssid ∧ c.externalId ∉ inputs.map ChapterInput.externalId

/-- What the function reads is proper, at the time it reads. -/
theorem vanishedProper_vanishedIds (ssid : Id) {inputs : List ChapterInput}
    (hexts : ∀ x ∈ inputs, x.externalId ≠ "") (db : Db) :
    VanishedProper ssid inputs (vanishedIds ssid inputs db) db := by
  intro c hc hin
  simp only [vanishedIds, List.mem_map, List.mem_filter] at hin
  obtain ⟨d, ⟨hd, hkey⟩, hid⟩ := hin
  have hcd : d = c := Table.eq_of_clash hd hc (by show decide _ = true; simp [hid])
  subst hcd
  simp only [Bool.and_eq_true, decide_eq_true_eq, Bool.not_eq_true',
    List.contains_eq_mem, decide_eq_false_iff_not, List.mem_filter] at hkey
  refine ⟨hkey.1, fun hext => hkey.2 ⟨hext, ?_⟩⟩
  obtain ⟨x, hx, heq⟩ := List.mem_map.mp hext
  exact heq ▸ hexts x hx

section Replacement

variable {rules : SpineRules} {ssid : Id} {inputs : List ChapterInput}
  {vanished ids : List Id} {db : Db}

/-- The transaction of a replacement does what it should, and does not fail,
under new ids. -/
theorem exists_replaced (hlen : ids.length = inputs.length)
    (hexts : ∀ x ∈ inputs, x.externalId ≠ "")
    (hss : ∃ ss ∈ db.sourceSeries, ss.id = ssid) (hnodup : ids.Nodup)
    (hnew : ∀ c ∈ db.chapter, c.id ∉ ids) (hvan : ∀ id ∈ ids, id ∉ vanished)
    (hproper : VanishedProper ssid inputs vanished db) :
    ∃ db', commitReplace rules ⟨ssid, ids.zip inputs, vanished⟩ db = .ok ((), db') ∧
      Replaced ssid inputs vanished ids db db' := by
  have hfst : (ids.zip inputs).map Prod.fst = ids :=
    List.map_fst_zip (le_of_eq hlen)
  have hsnd : (ids.zip inputs).map Prod.snd = inputs :=
    List.map_snd_zip (le_of_eq hlen.symm)
  have hall : ((ids.zip inputs).filter fun c => c.2.externalId ≠ "") =
      ids.zip inputs := by
    rw [List.filter_eq_self]
    intro c hc
    rw [decide_eq_true_eq]
    exact hexts c.2 (List.of_mem_zip hc).2
  have hwrites : ∃ db₁, writeChapters ((ids.zip inputs).map fun c =>
      chapterRow rules c.1 ssid c.2) db = .ok db₁ := by
    apply exists_writeChapters_ok hss
    · rwa [hfst]
    · rwa [hfst]
  obtain ⟨db₁, hwrite⟩ := hwrites
  have hwrote := wrote_writeChapters hwrite
  rw [hfst, hsnd] at hwrote
  refine ⟨_, by rw [commitReplace]; dsimp only; rw [hall, hwrite], ?_⟩
  -- a row that is written keeps an id that is not deleted
  have hstays : ∀ c ∈ db₁.chapter, c.sourceSeriesId = ssid →
      c.externalId ∈ inputs.map ChapterInput.externalId → c.id ∉ vanished := by
    intro c hc hcss hext hin
    rcases hwrote.left c hc hcss with
      ⟨-, hout⟩ | ⟨-, hid | ⟨old, hold, -, hoext, hoid⟩⟩
    · exact hout hext
    · exact hvan c.id hid hin
    · exact (hproper old hold (hoid ▸ hin)).2 (hoext ▸ hext)
  constructor
  · intro c hcss
    rw [Table.mem_deleteWhere, hwrote.elsewhere c hcss]
    refine ⟨And.left, fun hc => ⟨hc, ?_⟩⟩
    rw [List.contains_eq_mem, decide_eq_false_iff_not]
    intro hin
    exact hcss (hproper c hc hin).1
  · intro c hc hcss
    obtain ⟨hc₁, hout⟩ := Table.mem_deleteWhere.mp hc
    rw [List.contains_eq_mem, decide_eq_false_iff_not] at hout
    exact (hwrote.left c hc₁ hcss).imp (fun h => ⟨h.1, h.2, hout⟩) id
  · intro c hc hcss hext hout
    refine Table.mem_deleteWhere.mpr ⟨hwrote.kept c hc hcss hext, ?_⟩
    rw [List.contains_eq_mem, decide_eq_false_iff_not]
    exact hout
  · intro x hx
    obtain ⟨c, hc, hcss, hcext⟩ := hwrote.present x hx
    refine ⟨c, Table.mem_deleteWhere.mpr ⟨hc, ?_⟩, hcss, hcext⟩
    rw [List.contains_eq_mem, decide_eq_false_iff_not]
    exact hstays c hc hcss (hcext ▸ List.mem_map_of_mem hx)
  · intro c hc
    exact hwrote.sameId c (Table.mem_deleteWhere.mp hc).1
  · exact hwrote.mappings

/-- A row has the id of a row that was there, or one of the new ones. -/
theorem Replaced.cases {inputs : List ChapterInput} {vanished ids : List Id} {db db' : Db}
    (h : Replaced ssid inputs vanished ids db db') {c : Chapter} (hc : c ∈ db'.chapter) :
    c.id ∈ ids ∧ c.sourceSeriesId = ssid ∨
      ∃ old ∈ db.chapter, old.id = c.id ∧ old.sourceSeriesId = c.sourceSeriesId ∧
        old.externalId = c.externalId := by
  by_cases hss : c.sourceSeriesId = ssid
  · rcases h.left c hc hss with
      ⟨hold, -, -⟩ | ⟨-, hid | ⟨old, hold, hoss, hoext, hoid⟩⟩
    · exact .inr ⟨c, hold, rfl, rfl, rfl⟩
    · exact .inl ⟨hid, hss⟩
    · exact .inr ⟨old, hold, hoid, hoss.trans hss.symm, hoext⟩
  · exact .inr ⟨c, (h.elsewhere c hss).mp hc, rfl, rfl, rfl⟩

end Replacement

end Komika.Cache.Replacement
