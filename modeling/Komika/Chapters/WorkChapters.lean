import Komika.Cache.Replacement
import Komika.Chapters.InsaneNumbers
import Komika.Lib.Ranking

/-!
# The chapters of a work

`work_source_chapters` reads them off the canonical spine, in one query.  Its
predecessor, kept as its oracle, read the Suwayomi half from the chapter cache.
The two take a number through different slots of `chapter_display`, rank a
source's mappings by the counts of different tables, and convert dates in
different places.

`workSourceChapters_perm` says that they return the same rows when the spine
mirrors the cache.  A drained spine need not: a row whose chapter has left the
cache stays in the spine if the write that should have deleted it failed.

* `spineRow_eq_inputRow`, `cachedRow_eq_inputRow` — one chapter, read off either table;
* `Mirrors.rows_perm` — one mapping;
* `authoritative_perm` — the mapping that is taken of each source;
* `workSourceChapters_perm` — the work, over a spine that mirrors the cache;
* `not_perm_droppedChapter` — one that is drained and does not.
-/

namespace Komika.Chapters.WorkChapters

open Komika.Lib
open Komika.Catalog.Schema Komika.Catalog.Database Komika.Catalog.Ledger
open Komika.Catalog.SpineKeys Komika.Chapters.Label
open Komika.Chapters.InsaneNumbers (chapterDisplay_text)
open Komika.Cache
open Komika.Cache.SeriesCache (castInteger signedInteger latestFirst)
open Komika.Cache.Replacement (spineInput)

/-! ## Rows

What either query returns of a chapter. -/

/-- The columns of `suwayomi_chapter` that the spine is written from. -/
structure CachedChapter where
  id : Int
  mangaId : Int
  name : String
  chapterNumber : Binary64
  scanlator : Option String
  uploadDate : Option String
deriving DecidableEq, Repr

instance : Keyed CachedChapter := .ofKey CachedChapter.id

/-- `WorkChapterRow`: a chapter of a work, with the source that it comes from. -/
structure WorkChapterRow where
  number : Option ChapterNumber
  label : String
  key : String
  title : Option String
  releasedAt : Option String
  sourceType : String
  sourceId : String
  suwayomiMangaId : Option String
  chapterId : String
  scanlator : Option String
deriving DecidableEq, Repr

/-- What the standard library and `chrono` write and read. -/
structure Formats where
  /-- `str::parse::<f64>`. -/
  parse : String → Option Binary64
  /-- `f64::to_string`. -/
  print : Binary64 → String
  /-- `DateTime::from_timestamp_millis(…)`, as RFC 3339. -/
  timestampMillis : Int → Option String

/-- The text after a sign. -/
def afterSign : List Char → List Char
  | '-' :: cs => cs
  | '+' :: cs => cs
  | cs => cs

/-- `str::parse::<i64>`: a sign or none, then digits, and nothing out of range. -/
def parseI64 (text : String) : Option Int :=
  let digits := afterSign text.toList
  let value := signedInteger text.toList
  if digits ≠ [] ∧ digits.all Char.isDigit ∧ -2 ^ 63 ≤ value ∧ value < 2 ^ 63 then
    some value
  else none

/-! ## The spine

One query over `chapter`. -/

/-- `suwayomi_upload_date_to_iso`: milliseconds in a text, printed as a date; `none` for
anything else. -/
def suwayomiUploadDateToIso (f : Formats) (uploadDate : Option String) :
    Option String :=
  ((uploadDate.map trim).bind parseI64).bind f.timestampMillis

/-- `suwayomi_spine_input`: the row that the spine has for a cached chapter; the mirror
is always English. -/
def suwayomiSpineInput (f : Formats) (ch : CachedChapter) : ChapterInput :=
  let released := suwayomiUploadDateToIso f ch.uploadDate
  { externalId := toString ch.id
    number := some (f.print ch.chapterNumber)
    volume := none
    lang := some "en"
    title := some ch.name
    publishedAt := released
    readableAt := released
    externalUrl := none
    scanlator := ch.scanlator }

/-- The mappings of the work of one source type. -/
def mappingsOf (db : Db) (workId : Id) (sourceType : String) : List SourceSeries :=
  db.sourceSeries.rows.filter fun ss =>
    ss.workId = workId ∧ ss.sourceType = sourceType

/-- The rows of `chapter` of a mapping. -/
def chaptersOf (db : Db) (ssid : Id) : List Chapter :=
  db.chapter.rows.filter fun c => c.sourceSeriesId = ssid

/-- `ORDER BY (SELECT COUNT(*) …) DESC, last_seen DESC, id ASC`. -/
def mostChaptersFirst (count : SourceSeries → Nat) (a b : SourceSeries) : Prop :=
  count b < count a ∨ (count a = count b ∧ latestFirst a b)

instance (count : SourceSeries → Nat) : DecidableRel (mostChaptersFirst count) :=
  fun _ _ => inferInstanceAs (Decidable (_ ∨ _))

/-- The rows of `authoritative` with `rn = 1`. -/
def authoritative (db : Db) (workId : Id) : List SourceSeries :=
  let mappings := mappingsOf db workId "suwayomi"
  mappings.filter fun ss => Ranking.rowNumber SourceSeries.sourceId
    (mostChaptersFirst fun s => (chaptersOf db s.id).length) mappings ss = 1

/-- The row that a row of the union becomes. -/
def spineRow (f : Formats) (sourceType : String) (ss : SourceSeries)
    (mangaId scanlator : Option String) (c : Chapter) : WorkChapterRow :=
  let derived := chapterDisplay f.parse none c.number c.title
  { number := number derived
    key := c.chapterKey.getD (derived.key (labelRules f.parse) c.externalId)
    label := c.label.getD (derived.text (labelRules f.parse))
    title := c.title
    sourceType := sourceType
    sourceId := ss.sourceId
    suwayomiMangaId := mangaId
    chapterId := c.externalId
    scanlator := scanlator
    releasedAt := c.readableAt.or c.publishedAt }

/-- `ORDER BY source_type DESC, source_id ASC`. -/
def sourceOrder (a b : WorkChapterRow) : Prop :=
  b.sourceType < a.sourceType ∨
    (a.sourceType = b.sourceType ∧ a.sourceId ≤ b.sourceId)

instance : DecidableRel sourceOrder := fun _ _ => inferInstanceAs (Decidable (_ ∨ _))

/-- `work_source_chapters`: the rows of the spine, of the mappings that speak for a
Suwayomi source and of all MangaDex ones, in the order of the sources. -/
def workSourceChapters (f : Formats) (db : Db) (workId : Id) :
    List WorkChapterRow :=
  let suwayomi := (authoritative db workId).flatMap fun ss =>
    (chaptersOf db ss.id).map fun c =>
      spineRow f "suwayomi" ss (some ss.sourceKey) c.scanlator c
  let mangadex := (mappingsOf db workId "mangadex").flatMap fun ss =>
    ((chaptersOf db ss.id).filter fun c => c.lang = some "en").map
      (spineRow f "mangadex" ss none none)
  (suwayomi ++ mangadex).insertionSort sourceOrder

/-! ## The oracle

Two queries, of which one reads `suwayomi_chapter`. -/

/-- The cached chapters of a manga. -/
def cachedOf (cache : Table CachedChapter) (mangaId : Int) : List CachedChapter :=
  cache.rows.filter fun ch => ch.mangaId = mangaId

/-- Its `ORDER BY`: the source, then the mapping with the most chapters. -/
def bySource (count : SourceSeries → Nat) (a b : SourceSeries) : Prop :=
  a.sourceId < b.sourceId ∨ (a.sourceId = b.sourceId ∧ mostChaptersFirst count a b)

instance (count : SourceSeries → Nat) : DecidableRel (bySource count) :=
  fun _ _ => inferInstanceAs (Decidable (_ ∨ _))

/-- `authoritative_suwayomi_mappings`: the first mapping of each source, the one with
the most cached chapters. -/
def authoritativeSuwayomiMappings (db : Db) (cache : Table CachedChapter)
    (workId : Id) : List SourceSeries :=
  Ranking.keepFirst SourceSeries.sourceId
    ((mappingsOf db workId "suwayomi").insertionSort
      (bySource fun ss => (cachedOf cache (castInteger ss.sourceKey)).length))

/-- A row of the Suwayomi half. -/
def cachedRow (f : Formats) (ss : SourceSeries) (ch : CachedChapter) :
    WorkChapterRow :=
  let label := chapterDisplay f.parse (some ch.chapterNumber) none (some ch.name)
  { number := number label
    key := label.key (labelRules f.parse) (toString ch.id)
    label := label.text (labelRules f.parse)
    title := some ch.name
    sourceType := "suwayomi"
    sourceId := ss.sourceId
    suwayomiMangaId := some ss.sourceKey
    chapterId := toString ch.id
    scanlator := ch.scanlator
    releasedAt := suwayomiUploadDateToIso f ch.uploadDate }

/-- A row of the MangaDex half. -/
def mirrorRow (f : Formats) (ss : SourceSeries) (c : Chapter) : WorkChapterRow :=
  let label := chapterDisplay f.parse none c.number c.title
  { number := number label
    key := label.key (labelRules f.parse) c.externalId
    label := label.text (labelRules f.parse)
    title := c.title
    sourceType := "mangadex"
    sourceId := ss.sourceId
    suwayomiMangaId := none
    chapterId := c.externalId
    scanlator := none
    releasedAt := c.readableAt.or c.publishedAt }

/-- `work_source_chapters_two_branch`, the oracle: the Suwayomi half straight from the
cache, the MangaDex half from the mirror. -/
def workSourceChaptersTwoBranch (f : Formats) (db : Db)
    (cache : Table CachedChapter) (workId : Id) : List WorkChapterRow :=
  let suwayomi := (authoritativeSuwayomiMappings db cache workId).flatMap fun ss =>
    match parseI64 ss.sourceKey with
    | none => []
    | some mangaId => (cachedOf cache mangaId).map (cachedRow f ss)
  let mangadex := (mappingsOf db workId "mangadex").flatMap fun ss =>
    ((chaptersOf db ss.id).filter fun c => c.lang = some "en").map (mirrorRow f ss)
  suwayomi ++ mangadex

/-! ## A spine that mirrors the cache

What the backfill and the writers are to bring about. -/

/-- Printing a number and parsing it back gives the number; `Display` writes a
text without spaces. -/
structure Prints (f : Formats) (x : Binary64) : Prop where
  parse : f.parse (f.print x) = some x
  trim : trim (f.print x) = f.print x
  nonEmpty : f.print x ≠ ""

/-- The keys of the Suwayomi mappings are manga ids, as text. -/
def IntegerKeys (db : Db) : Prop :=
  ∀ ss ∈ db.sourceSeries, ss.sourceType = "suwayomi" →
    ∃ n : Int, (-2 ^ 63 ≤ n ∧ n < 2 ^ 63) ∧ ss.sourceKey = toString n

/-- A fully drained spine: the cached chapters of every mapped series are in it,
and every row has its key and its label. -/
structure Drained (f : Formats) (db : Db) (cache : Table CachedChapter) : Prop where
  complete : ∀ ss ∈ db.sourceSeries, ss.sourceType = "suwayomi" →
    ∀ ch ∈ cachedOf cache (castInteger ss.sourceKey),
      ∃ c ∈ chaptersOf db ss.id, spineInput c = suwayomiSpineInput f ch
  keyed : ∀ c ∈ db.chapter,
    c.chapterKey = some (spineKeyAndLabel (labelRules f.parse) (spineInput c)).1 ∧
      c.label = some (spineKeyAndLabel (labelRules f.parse) (spineInput c)).2

/-- And no other chapters of the series are in it. -/
structure Mirrors (f : Formats) (db : Db) (cache : Table CachedChapter) : Prop
    extends Drained f db cache where
  nothingElse : ∀ ss ∈ db.sourceSeries, ss.sourceType = "suwayomi" →
    ∀ c ∈ chaptersOf db ss.id, ∃ ch ∈ cachedOf cache (castInteger ss.sourceKey),
      spineInput c = suwayomiSpineInput f ch

/-! ### One chapter -/

section Chapters

variable {f : Formats} {db : Db} {cache : Table CachedChapter} {ss : SourceSeries}

/-- A printed number labels a chapter as the number itself does. -/
theorem chapterDisplay_print {x : Binary64} (h : Prints f x) (name : String) :
    chapterDisplay f.parse none (some (f.print x)) (some name) =
      chapterDisplay f.parse (some x) none (some name) := by
  have hblank : trim (f.print x) ≠ "" := by
    rw [h.trim]
    exact h.nonEmpty
  have hparse : f.parse (trim (f.print x)) = some x := by
    rw [h.trim]
    exact h.parse
  exact (chapterDisplay_text hblank hparse).symm

/-- The row of a chapter that is keyed, from what its writer was given. -/
def inputRow (f : Formats) (sourceType : String) (ss : SourceSeries)
    (mangaId scanlator : Option String) (x : ChapterInput) : WorkChapterRow :=
  { number := number (chapterDisplay f.parse none x.number x.title)
    key := (spineKeyAndLabel (labelRules f.parse) x).1
    label := (spineKeyAndLabel (labelRules f.parse) x).2
    title := x.title
    sourceType := sourceType
    sourceId := ss.sourceId
    suwayomiMangaId := mangaId
    chapterId := x.externalId
    scanlator := scanlator
    releasedAt := x.readableAt.or x.publishedAt }

theorem spineRow_eq_inputRow {c : Chapter} {sourceType : String}
    {mangaId scanlator : Option String}
    (hkeyed : c.chapterKey =
        some (spineKeyAndLabel (labelRules f.parse) (spineInput c)).1 ∧
      c.label = some (spineKeyAndLabel (labelRules f.parse) (spineInput c)).2) :
    spineRow f sourceType ss mangaId scanlator c =
      inputRow f sourceType ss mangaId scanlator (spineInput c) := by
  unfold spineRow inputRow
  dsimp only
  rw [hkeyed.1, hkeyed.2]
  rfl

theorem mirrorRow_eq_inputRow (c : Chapter) :
    mirrorRow f ss c = inputRow f "mangadex" ss none none (spineInput c) := rfl

theorem cachedRow_eq_inputRow {ch : CachedChapter} (h : Prints f ch.chapterNumber) :
    cachedRow f ss ch = inputRow f "suwayomi" ss (some ss.sourceKey) ch.scanlator
      (suwayomiSpineInput f ch) := by
  have hlabel : (labelRules f.parse).chapterDisplay
      (some (f.print ch.chapterNumber)) (some ch.name) =
      chapterDisplay f.parse (some ch.chapterNumber) none (some ch.name) :=
    chapterDisplay_print h ch.name
  have hkey : spineKeyAndLabel (labelRules f.parse) (suwayomiSpineInput f ch) =
      ((chapterDisplay f.parse (some ch.chapterNumber) none (some ch.name)).key
          (labelRules f.parse) (toString ch.id),
        (chapterDisplay f.parse (some ch.chapterNumber) none (some ch.name)).text
          (labelRules f.parse)) := by
    unfold spineKeyAndLabel
    dsimp only [suwayomiSpineInput]
    rw [hlabel]
  unfold inputRow cachedRow
  rw [hkey]
  dsimp only [suwayomiSpineInput]
  rw [chapterDisplay_print h ch.name, Option.or_self]

/-! ### One mapping -/

theorem mem_chaptersOf {ssid : Id} {c : Chapter} :
    c ∈ chaptersOf db ssid ↔ c ∈ db.chapter ∧ c.sourceSeriesId = ssid := by
  simp [chaptersOf, Table.mem_rows]

theorem mem_cachedOf {mangaId : Int} {ch : CachedChapter} :
    ch ∈ cachedOf cache mangaId ↔ ch ∈ cache ∧ ch.mangaId = mangaId := by
  simp [cachedOf, Table.mem_rows]

theorem nodup_inputs_chaptersOf (db : Db) (ssid : Id) :
    ((chaptersOf db ssid).map spineInput).Nodup := by
  have hpair : (chaptersOf db ssid).Pairwise fun a b => clash a b = false :=
    db.chapter.unique.sublist List.filter_sublist
  refine List.pairwise_map.mpr (hpair.imp_of_mem ?_)
  intro a b ha hb hab heq
  have hext : a.externalId = b.externalId := congrArg ChapterInput.externalId heq
  have hss := (mem_chaptersOf.mp ha).2.trans (mem_chaptersOf.mp hb).2.symm
  rw [show clash a b = true from decide_eq_true (.inr ⟨hss, hext⟩)] at hab
  contradiction

theorem nodup_inputs_cachedOf (f : Formats) (cache : Table CachedChapter)
    (mangaId : Int) : ((cachedOf cache mangaId).map (suwayomiSpineInput f)).Nodup := by
  have hpair : (cachedOf cache mangaId).Pairwise fun a b => clash a b = false :=
    cache.unique.sublist List.filter_sublist
  refine List.pairwise_map.mpr (hpair.imp ?_)
  intro a b hab heq
  have htext : toString a.id = toString b.id := congrArg ChapterInput.externalId heq
  have hid : a.id = b.id := by
    rw [← SeriesCache.castInteger_toString a.id, htext, SeriesCache.castInteger_toString]
  rw [show clash a b = true from decide_eq_true hid] at hab
  contradiction

/-- The rows of a mapping are its cached chapters. -/
theorem Mirrors.inputs_perm (h : Mirrors f db cache) (hss : ss ∈ db.sourceSeries)
    (htype : ss.sourceType = "suwayomi") :
    ((chaptersOf db ss.id).map spineInput).Perm
      ((cachedOf cache (castInteger ss.sourceKey)).map (suwayomiSpineInput f)) := by
  apply (List.perm_ext_iff_of_nodup (nodup_inputs_chaptersOf db ss.id)
    (nodup_inputs_cachedOf f cache _)).mpr
  intro x
  constructor
  · intro hx
    obtain ⟨c, hc, rfl⟩ := List.mem_map.mp hx
    obtain ⟨ch, hch, heq⟩ := h.nothingElse ss hss htype c hc
    exact heq ▸ List.mem_map_of_mem hch
  · intro hx
    obtain ⟨ch, hch, rfl⟩ := List.mem_map.mp hx
    obtain ⟨c, hc, heq⟩ := h.complete ss hss htype ch hch
    exact heq ▸ List.mem_map_of_mem hc

theorem Mirrors.count_eq (h : Mirrors f db cache) (hss : ss ∈ db.sourceSeries)
    (htype : ss.sourceType = "suwayomi") :
    (chaptersOf db ss.id).length =
      (cachedOf cache (castInteger ss.sourceKey)).length := by
  have hlen := (h.inputs_perm hss htype).length_eq
  rwa [List.length_map, List.length_map] at hlen

/-- Both read the same rows off a mapping. -/
theorem Mirrors.rows_perm (h : Mirrors f db cache)
    (hprint : ∀ ch ∈ cache, Prints f ch.chapterNumber) (hss : ss ∈ db.sourceSeries)
    (htype : ss.sourceType = "suwayomi") :
    ((chaptersOf db ss.id).map fun c =>
        spineRow f "suwayomi" ss (some ss.sourceKey) c.scanlator c).Perm
      ((cachedOf cache (castInteger ss.sourceKey)).map (cachedRow f ss)) := by
  let row (x : ChapterInput) : WorkChapterRow :=
    inputRow f "suwayomi" ss (some ss.sourceKey) x.scanlator x
  have hspine : ((chaptersOf db ss.id).map fun c =>
      spineRow f "suwayomi" ss (some ss.sourceKey) c.scanlator c) =
      ((chaptersOf db ss.id).map spineInput).map row := by
    rw [List.map_map]
    apply List.map_congr_left
    intro c hc
    exact spineRow_eq_inputRow (h.keyed c (mem_chaptersOf.mp hc).1)
  have hcached : (cachedOf cache (castInteger ss.sourceKey)).map (cachedRow f ss) =
      ((cachedOf cache (castInteger ss.sourceKey)).map (suwayomiSpineInput f)).map
        row := by
    rw [List.map_map]
    apply List.map_congr_left
    intro ch hch
    exact cachedRow_eq_inputRow (hprint ch (mem_cachedOf.mp hch).1)
  rw [hspine, hcached]
  exact (h.inputs_perm hss htype).map row

end Chapters

/-! ### The authoritative mapping -/

section Order

variable {a b c : SourceSeries} {count count' : SourceSeries → Nat}

theorem latestFirst_total (a b : SourceSeries) : latestFirst a b ∨ latestFirst b a := by
  unfold latestFirst
  cases ha : a.lastSeen with
  | none =>
      cases hb : b.lastSeen with
      | none => exact le_total a.id b.id
      | some y => exact .inr trivial
  | some x =>
      cases hb : b.lastSeen with
      | none => exact .inl trivial
      | some y =>
          rcases lt_trichotomy x y with hlt | heq | hgt
          · exact .inr (.inl hlt)
          · exact (le_total a.id b.id).imp (fun h => .inr ⟨heq, h⟩)
              fun h => .inr ⟨heq.symm, h⟩
          · exact .inl (.inl hgt)

theorem latestFirst_trans (hab : latestFirst a b) (hbc : latestFirst b c) :
    latestFirst a c := by
  unfold latestFirst at *
  cases ha : a.lastSeen with
  | none =>
      cases hb : b.lastSeen with
      | none =>
          cases hc : c.lastSeen with
          | none =>
              rw [ha, hb] at hab
              rw [hb, hc] at hbc
              exact le_trans (α := String) hab hbc
          | some z =>
              rw [hb, hc] at hbc
              exact hbc.elim
      | some y =>
          rw [ha, hb] at hab
          exact hab.elim
  | some x =>
      cases hc : c.lastSeen with
      | none => trivial
      | some z =>
          cases hb : b.lastSeen with
          | none =>
              rw [hb, hc] at hbc
              exact hbc.elim
          | some y =>
              rw [ha, hb] at hab
              rw [hb, hc] at hbc
              dsimp only at hab hbc ⊢
              rcases hab with hyx | ⟨rfl, hids⟩
              · rcases hbc with hzy | ⟨rfl, -⟩
                · exact .inl (lt_trans hzy hyx)
                · exact .inl hyx
              · rcases hbc with hzy | ⟨rfl, hids'⟩
                · exact .inl hzy
                · exact .inr ⟨rfl, le_trans (α := String) hids hids'⟩

theorem id_eq_of_latestFirst (hab : latestFirst a b) (hba : latestFirst b a) :
    a.id = b.id := by
  unfold latestFirst at *
  cases ha : a.lastSeen with
  | none =>
      cases hb : b.lastSeen with
      | none =>
          rw [ha, hb] at hab
          rw [hb, ha] at hba
          exact le_antisymm (α := String) hab hba
      | some y =>
          rw [ha, hb] at hab
          exact hab.elim
  | some x =>
      cases hb : b.lastSeen with
      | none =>
          rw [hb, ha] at hba
          exact hba.elim
      | some y =>
          rw [ha, hb] at hab
          rw [hb, ha] at hba
          dsimp only at hab hba
          rcases hab with hyx | ⟨rfl, hids⟩
          · rcases hba with hxy | ⟨rfl, -⟩
            · exact absurd hyx (lt_asymm hxy)
            · exact absurd hyx (lt_irrefl _)
          · rcases hba with hxx | ⟨-, hids'⟩
            · exact absurd hxx (lt_irrefl _)
            · exact le_antisymm (α := String) hids hids'

theorem mostChaptersFirst_total (count : SourceSeries → Nat) (a b : SourceSeries) :
    mostChaptersFirst count a b ∨ mostChaptersFirst count b a := by
  unfold mostChaptersFirst
  rcases lt_trichotomy (count a) (count b) with hlt | heq | hgt
  · exact .inr (.inl hlt)
  · exact (latestFirst_total a b).imp (fun h => .inr ⟨heq, h⟩)
      fun h => .inr ⟨heq.symm, h⟩
  · exact .inl (.inl hgt)

theorem mostChaptersFirst_trans (hab : mostChaptersFirst count a b)
    (hbc : mostChaptersFirst count b c) : mostChaptersFirst count a c := by
  unfold mostChaptersFirst at *
  rcases hab with hab | ⟨hcount, hab⟩
  · rcases hbc with hbc | ⟨hcount', -⟩
    · exact .inl (hbc.trans hab)
    · exact .inl (hcount' ▸ hab)
  · rcases hbc with hbc | ⟨hcount', hbc⟩
    · exact .inl (hcount ▸ hbc)
    · exact .inr ⟨hcount.trans hcount', latestFirst_trans hab hbc⟩

theorem id_eq_of_mostChaptersFirst (hab : mostChaptersFirst count a b)
    (hba : mostChaptersFirst count b a) : a.id = b.id := by
  unfold mostChaptersFirst at *
  rcases hab with hab | ⟨hcount, hab⟩
  · rcases hba with hba | ⟨hcount, -⟩ <;> omega
  · rcases hba with hba | ⟨-, hba⟩
    · omega
    · exact id_eq_of_latestFirst hab hba

theorem bySource_total (count : SourceSeries → Nat) (a b : SourceSeries) :
    bySource count a b ∨ bySource count b a := by
  unfold bySource
  rcases lt_trichotomy a.sourceId b.sourceId with hlt | heq | hgt
  · exact .inl (.inl hlt)
  · exact (mostChaptersFirst_total count a b).imp (fun h => .inr ⟨heq, h⟩)
      fun h => .inr ⟨heq.symm, h⟩
  · exact .inr (.inl hgt)

theorem bySource_trans (hab : bySource count a b) (hbc : bySource count b c) :
    bySource count a c := by
  unfold bySource at *
  rcases hab with hab | ⟨hsource, hab⟩
  · rcases hbc with hbc | ⟨hsource', -⟩
    · exact .inl (lt_trans hab hbc)
    · exact .inl (hsource' ▸ hab)
  · rcases hbc with hbc | ⟨hsource', hbc⟩
    · exact .inl (hsource ▸ hbc)
    · exact .inr ⟨hsource.trans hsource', mostChaptersFirst_trans hab hbc⟩

theorem bySource_iff_of_eq (h : b.sourceId = a.sourceId) :
    bySource count a b ↔ mostChaptersFirst count a b := by
  unfold bySource
  rw [h]
  exact ⟨fun hab => hab.elim (fun hlt => absurd hlt (lt_irrefl _)) And.right,
    fun hab => .inr ⟨rfl, hab⟩⟩

end Order

section Works

variable {f : Formats} {db : Db} {cache : Table CachedChapter} {workId : Id}

theorem mem_mappingsOf {sourceType : String} {ss : SourceSeries} :
    ss ∈ mappingsOf db workId sourceType ↔
      ss ∈ db.sourceSeries ∧ ss.workId = workId ∧ ss.sourceType = sourceType := by
  simp [mappingsOf, Table.mem_rows]

theorem nodup_mappingsOf (db : Db) (workId : Id) (sourceType : String) :
    (mappingsOf db workId sourceType).Nodup := by
  refine (db.sourceSeries.unique.sublist List.filter_sublist).imp ?_
  intro a b hab heq
  rw [show clash a b = true from decide_eq_true (.inl (congrArg SourceSeries.id heq))]
    at hab
  contradiction

/-- Both take the same mapping of each source. -/
theorem authoritative_perm (h : Mirrors f db cache) (workId : Id) :
    (authoritativeSuwayomiMappings db cache workId).Perm (authoritative db workId) := by
  let cached (ss : SourceSeries) : Nat :=
    (cachedOf cache (castInteger ss.sourceKey)).length
  let stored (ss : SourceSeries) : Nat := (chaptersOf db ss.id).length
  have hcount : ∀ ss ∈ mappingsOf db workId "suwayomi", stored ss = cached ss := by
    intro ss hss
    obtain ⟨hss, -, htype⟩ := mem_mappingsOf.mp hss
    exact h.count_eq hss htype
  have hperm : (authoritativeSuwayomiMappings db cache workId).Perm
      ((mappingsOf db workId "suwayomi").filter fun ss =>
        Ranking.rowNumber SourceSeries.sourceId (mostChaptersFirst cached)
          (mappingsOf db workId "suwayomi") ss = 1) := by
    apply Ranking.keepFirst_perm (mostChaptersFirst_total cached)
    · intro x
      exact (bySource_total cached x x).elim id id
    · exact bySource_total cached
    · exact fun x y z hxy hyz => bySource_trans hxy hyz
    · exact fun x y hkey => bySource_iff_of_eq hkey
    · exact nodup_mappingsOf db workId "suwayomi"
    · intro x hx y hy hxy hyx
      have hid := id_eq_of_mostChaptersFirst hxy hyx
      exact Table.eq_of_clash (mem_mappingsOf.mp hx).1 (mem_mappingsOf.mp hy).1
        (decide_eq_true (.inl hid))
  refine hperm.trans (List.Perm.of_eq ?_)
  -- the two counts number the rows alike
  apply List.filter_congr
  intro x hx
  have hnumber : Ranking.rowNumber SourceSeries.sourceId (mostChaptersFirst cached)
      (mappingsOf db workId "suwayomi") x =
      Ranking.rowNumber SourceSeries.sourceId (mostChaptersFirst stored)
        (mappingsOf db workId "suwayomi") x := by
    apply Ranking.rowNumber_congr
    intro y hy
    unfold mostChaptersFirst
    rw [hcount x hx, hcount y hy]
    exact ⟨Iff.rfl, Iff.rfl⟩
  rw [hnumber]

/-- A text that starts with a digit has no sign. -/
theorem afterSign_of_isDigit {c : Char} (cs : List Char) (hc : c.isDigit = true) :
    afterSign (c :: cs) = c :: cs ∧
      signedInteger (c :: cs) = SeriesCache.leadingDigits (c :: cs) := by
  have hminus : c ≠ '-' := by
    rintro rfl
    contradiction
  have hplus : c ≠ '+' := by
    rintro rfl
    contradiction
  constructor
  · unfold afterSign
    split
    · next heq => exact absurd (List.cons.inj heq).1 hminus
    · next heq => exact absurd (List.cons.inj heq).1 hplus
    · rfl
  · unfold signedInteger
    split
    · next heq => exact absurd (List.cons.inj heq).1 hminus
    · next heq => exact absurd (List.cons.inj heq).1 hplus
    · rfl

theorem parseI64_toString {n : Int} (h : -2 ^ 63 ≤ n ∧ n < 2 ^ 63) :
    parseI64 (toString n) = some n := by
  have hdigits : ∀ n, ∀ c ∈ Nat.toDigits 10 n, c.isDigit = true := fun n c hc =>
    Nat.isDigit_of_mem_toDigits (by decide) (by decide) hc
  cases n with
  | ofNat n =>
      have hlist : (toString (Int.ofNat n)).toList = Nat.toDigits 10 n :=
        Nat.toList_repr
      obtain ⟨c, cs, hcons⟩ := List.exists_cons_of_ne_nil
        (Nat.toDigits_ne_nil (n := n) (b := 10))
      have hc : c.isDigit = true := hdigits n c (hcons ▸ List.mem_cons_self)
      obtain ⟨hafter, hvalue⟩ := afterSign_of_isDigit cs hc
      rw [← hcons] at hafter hvalue
      rw [SeriesCache.leadingDigits_toDigits] at hvalue
      unfold parseI64
      rw [hlist, hafter, hvalue]
      exact if_pos ⟨Nat.toDigits_ne_nil, List.all_eq_true.mpr (hdigits n), h⟩
  | negSucc n =>
      have hlist : (toString (Int.negSucc n)).toList =
          '-' :: Nat.toDigits 10 (n + 1) := by
        show ("-" ++ Nat.repr (n + 1)).toList = _
        rw [String.toList_append, Nat.toList_repr]
        rfl
      have hvalue : signedInteger ('-' :: Nat.toDigits 10 (n + 1)) = Int.negSucc n := by
        show -SeriesCache.leadingDigits (Nat.toDigits 10 (n + 1)) = _
        rw [SeriesCache.leadingDigits_toDigits]
        rfl
      unfold parseI64
      rw [hlist, hvalue]
      exact if_pos ⟨Nat.toDigits_ne_nil, List.all_eq_true.mpr (hdigits (n + 1)), h⟩

/-- **One query for two.**  The spine query and its oracle return the same
rows, for every work, over a spine that mirrors the cache. -/
theorem workSourceChapters_perm (f : Formats) (db : Db) (cache : Table CachedChapter)
    (workId : Id) (hprint : ∀ ch ∈ cache, Prints f ch.chapterNumber)
    (hkeys : IntegerKeys db) (h : Mirrors f db cache) :
    (workSourceChapters f db workId).Perm
      (workSourceChaptersTwoBranch f db cache workId) := by
  refine (List.perm_insertionSort sourceOrder _).trans ?_
  apply List.Perm.append
  · refine ((authoritative_perm h workId).symm.flatMap_right _).trans ?_
    apply List.Perm.flatMap_left
    intro ss hss
    have hmem : ss ∈ mappingsOf db workId "suwayomi" :=
      (List.mem_insertionSort _).mp (Ranking.mem_of_mem_keepFirst hss)
    obtain ⟨hss, -, htype⟩ := mem_mappingsOf.mp hmem
    obtain ⟨n, hn, hkey⟩ := hkeys ss hss htype
    have hcast : castInteger ss.sourceKey = n := by
      rw [hkey, SeriesCache.castInteger_toString]
    have hparse : parseI64 ss.sourceKey = some n := by
      rw [hkey, parseI64_toString hn]
    rw [hparse]
    have hrows := h.rows_perm hprint hss htype
    rwa [hcast] at hrows
  · apply List.Perm.of_eq
    apply List.flatMap_congr
    intro ss _
    apply List.map_congr_left
    intro c hc
    obtain ⟨hc, -⟩ := List.mem_filter.mp hc
    rw [spineRow_eq_inputRow (h.keyed c (mem_chaptersOf.mp hc).1), mirrorRow_eq_inputRow]

end Works

/-! ## A chapter that left the cache

The write that should have deleted its row has failed, and the drain does not look at
it. -/

/-- Two texts and their numbers. -/
def twoFormats : Formats where
  parse text :=
    if text = "1" then some (.ofNat 1)
    else if text = "2" then some (.ofNat 2)
    else none
  print n := if n = .ofNat 2 then "2" else "1"
  timestampMillis _ := none

/-- Chapter 1 of the series. -/
def chapterOne : CachedChapter := ⟨70, 7, "Chapter 1", .ofNat 1, none, none⟩

/-- Chapter 2 of the series. -/
def chapterTwo : CachedChapter := ⟨71, 7, "Chapter 2", .ofNat 2, none, none⟩

/-- One mapping, with both chapters in the spine. -/
def twoChapters : Db :=
  { Db.empty with
    sourceSeries := ⟨[⟨"s1", "w", "suwayomi", "src", "7", none, false, none⟩], by decide⟩
    chapter := ⟨[
      ⟨"c1", "s1", "70", some "1", none, some "en", some "Chapter 1", none, none, none,
        none, some "100", some "1"⟩,
      ⟨"c2", "s1", "71", some "2", none, some "en", some "Chapter 2", none, none, none,
        none, some "200", some "2"⟩], by decide⟩ }

theorem integerKeys_twoChapters : IntegerKeys twoChapters := by
  intro ss hss _
  have hkey : ∀ ss ∈ twoChapters.sourceSeries.rows, ss.sourceKey = toString (7 : Int) := by
    decide
  exact ⟨7, by decide, hkey ss hss⟩

theorem keyed_twoChapters : ∀ c ∈ twoChapters.chapter,
    c.chapterKey = some (spineKeyAndLabel (labelRules twoFormats.parse) (spineInput c)).1 ∧
      c.label =
        some (spineKeyAndLabel (labelRules twoFormats.parse) (spineInput c)).2 := by
  show ∀ c ∈ twoChapters.chapter.rows, _
  decide +kernel

/-- Over the spine that mirrors the cache. -/
theorem workSourceChapters_perm_twoChapters :
    (workSourceChapters twoFormats twoChapters "w").Perm
      (workSourceChaptersTwoBranch twoFormats twoChapters
        ⟨[chapterOne, chapterTwo], by decide⟩ "w") := by
  apply workSourceChapters_perm
  · show ∀ ch ∈ [chapterOne, chapterTwo], _
    intro ch hch
    have hall : ∀ ch ∈ [chapterOne, chapterTwo],
        twoFormats.parse (twoFormats.print ch.chapterNumber) = some ch.chapterNumber ∧
          trim (twoFormats.print ch.chapterNumber) =
            twoFormats.print ch.chapterNumber ∧
          twoFormats.print ch.chapterNumber ≠ "" := by decide +kernel
    obtain ⟨hparse, htrim, hne⟩ := hall ch hch
    exact ⟨hparse, htrim, hne⟩
  · exact integerKeys_twoChapters
  · refine ⟨⟨?_, keyed_twoChapters⟩, ?_⟩
    · show ∀ ss ∈ twoChapters.sourceSeries.rows, _
      decide +kernel
    · show ∀ ss ∈ twoChapters.sourceSeries.rows, _
      decide +kernel

/-- The source has dropped chapter 1, and the write that should have deleted it
from the spine has failed: the spine is drained, and returns it. -/
theorem not_perm_droppedChapter :
    let cache : Table CachedChapter := ⟨[chapterTwo], by decide⟩
    (∀ ch ∈ cache, Prints twoFormats ch.chapterNumber) ∧ IntegerKeys twoChapters ∧
      Drained twoFormats twoChapters cache ∧
      ¬(workSourceChapters twoFormats twoChapters "w").Perm
        (workSourceChaptersTwoBranch twoFormats twoChapters cache "w") := by
  intro cache
  refine ⟨?_, integerKeys_twoChapters, ⟨?_, keyed_twoChapters⟩, ?_⟩
  · intro ch hch
    rw [List.mem_singleton.mp hch]
    exact ⟨by decide +kernel, by decide +kernel, by decide +kernel⟩
  · show ∀ ss ∈ twoChapters.sourceSeries.rows, _
    decide +kernel
  · intro hperm
    have hlength := hperm.length_eq
    revert hlength
    decide +kernel

end Komika.Chapters.WorkChapters
