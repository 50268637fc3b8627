import Komika.Feed.PersistScan
import Komika.Lib.Binary64

/-!
# A chapter list that has not changed

`put_chapters` (`series_cache.rs`) compares a fetched list with the cached one, and
writes the chapters only if they differ.  Both are projected and sorted by their
ids; numbers compare as `f64` does, so that the two zeros are equal and a NaN is
like nothing.  The two columns that the series derives from the list are put right
on either way.

The projection has the columns of a chapter, but for the series that the chapter
names: the cached rows are those of the series, and a fetched chapter brings its
own.

Column `updated_at` is left out, and so is the spine, which a changed list goes on
to.

The column of numbers is a type of its own, `StoredNumber`, so that what a comparison
may confuse is confined to what is fetched.

* `eqv_digest_iff` — what a comparison that succeeds says of a row;
* `isSome_replaceRows`, `storesList_rewriteChapters` — the transaction, and what it
  leaves;
* `putChapters_of_unchanged`, `rows_of_unchanged_iff` — the early returns;
* `skipIsRewrite_iff` — when they do what the transaction would have done.
-/

namespace Komika.Cache.UnchangedChapters

open Komika.Lib Komika.Lib.Table
open Komika.Feed.Schema (SuwayomiSeries librarySeries)
open Komika.Feed.PersistScan

/-! ## Chapters

Fetched numbers are doubles; a column of SQLite has no NaN in it, and one zero. -/

/-- What a column of numbers can hold: it has no NaN, and its zero has no sign. -/
def storable (x : Binary64) : Bool := x ≠ .nan && x ≠ .finite true 0

/-- A number of the column. -/
abbrev StoredNumber := { x : Binary64 // storable x = true }

/-- A chapter, as fetched or as cached. -/
structure SuwayomiChapter (ν : Type) where
  id : Int
  mangaId : Int
  name : String
  chapterNumber : ν
  scanlator : Option String
  uploadDate : Option String
  isRead : Bool
  isBookmarked : Bool
  isDownloaded : Bool
  lastPageRead : Int
  pageCount : Int
deriving DecidableEq

/-- A chapter as the source sends it. -/
abbrev Fetched := SuwayomiChapter Binary64

/-- A chapter as the cache has it. -/
abbrev Cached := SuwayomiChapter StoredNumber

instance : Keyed Cached := .ofKey SuwayomiChapter.id

instance : ByKey Cached Int where
  key := SuwayomiChapter.id
  clash_iff _ _ := decide_eq_true_iff

/-- What is stored of a number; a NaN is bound as `NULL`. -/
def storeNumber (x : Binary64) : Option StoredNumber :=
  if x = .finite true 0 then some ⟨.finite false 0, by decide⟩
  else if h : storable x = true then some ⟨x, h⟩ else none

/-- The row that a chapter is inserted as; `none` if its number is `NULL`. -/
def SuwayomiChapter.store (c : Fetched) : Option Cached :=
  (storeNumber c.chapterNumber).map fun x => { c with chapterNumber := x }

/-- `ChapterDigestRow`: what of a chapter is compared with the cache; `manga_id` is
not. -/
structure ChapterDigestRow where
  id : Int
  name : String
  chapterNumber : Binary64
  scanlator : Option String
  uploadDate : Option String
  isRead : Bool
  isBookmarked : Bool
  isDownloaded : Bool
  lastPageRead : Int
  pageCount : Int

/-- `ChapterDigestRow::of`, of a chapter as fetched. -/
def ChapterDigestRow.of (c : Fetched) : ChapterDigestRow where
  id := c.id
  name := c.name
  chapterNumber := c.chapterNumber
  scanlator := c.scanlator
  uploadDate := c.uploadDate
  isRead := c.isRead
  isBookmarked := c.isBookmarked
  isDownloaded := c.isDownloaded
  lastPageRead := c.lastPageRead
  pageCount := c.pageCount

/-- `#[derive(PartialEq)]`: field by field, the number as an `f64`. -/
def ChapterDigestRow.eqv (a b : ChapterDigestRow) : Bool :=
  a.id = b.id && (a.name = b.name && (a.chapterNumber.eqv b.chapterNumber &&
    (a.scanlator = b.scanlator && (a.uploadDate = b.uploadDate && (a.isRead = b.isRead &&
      (a.isBookmarked = b.isBookmarked && (a.isDownloaded = b.isDownloaded &&
        (a.lastPageRead = b.lastPageRead && a.pageCount = b.pageCount))))))))

/-- A cached row, read back. -/
def SuwayomiChapter.read (r : Cached) : Fetched :=
  { r with chapterNumber := r.chapterNumber.val }

/-! ## The derived columns

A count and a time, which a list that is undatable leaves. -/

/-- `main_chapter_count`: parts of one chapter count once; where no number is usable,
every row counts. -/
def mainChapterCount (numbers : List Binary64) : Int :=
  let chapters := numbers.filter fun n => n.isFinite && !n.lt (.ofNat 0)
  let groups := (chapters.map fun n => n.floor.toI64).dedup
  if groups = [] then numbers.length else groups.length

/-- `derive_latest_chapter_at`: the newest upload that is a time at all. -/
def deriveLatestChapterAt (rules : ScanRules) (chapters : List Fetched) : Option String :=
  ((chapters.filterMap fun c => c.uploadDate.bind (normalizeEpochMillis rules)).max?).map
    padded

/-- `UPDATE suwayomi_series SET chapter_count = ?, latest_chapter_at = COALESCE(?, …)`. -/
def writeDerived (mangaId : Int) (count : Int) (latest : Option String)
    (t : Table SuwayomiSeries) : Table SuwayomiSeries :=
  t.update (fun r => r.id = mangaId) (SuwayomiSeries.derive count latest)
    (keepsKeys_derive count latest)

/-! ## The writer

The comparison, its two early returns, and the transaction. -/

/-- The two tables that the function writes. -/
structure SuwayomiCache where
  suwayomiSeries : Table SuwayomiSeries
  suwayomiChapter : Table Cached

/-- `SELECT … FROM suwayomi_chapter WHERE manga_id = ? ORDER BY id`. -/
def existing (cache : SuwayomiCache) (mangaId : Int) : List ChapterDigestRow :=
  ((cache.suwayomiChapter.rows.filter fun r => r.mangaId = mangaId).map
    fun r => ChapterDigestRow.of r.read).insertionSort fun a b => a.id ≤ b.id

/-- The fetched list, by id. -/
def incoming (chapters : List Fetched) : List ChapterDigestRow :=
  (chapters.map ChapterDigestRow.of).insertionSort fun a b => a.id ≤ b.id

/-- `existing == incoming`: row by row, in the order of the ids. -/
def unchanged (cache : SuwayomiCache) (mangaId : Int) (chapters : List Fetched) : Bool :=
  (existing cache mangaId).isEqv (incoming chapters) ChapterDigestRow.eqv

/-- The `DELETE` and the `INSERT`s of one transaction; `none` if one of them fails. -/
def replaceRows (mangaId : Int) (chapters : List Fetched) (t : Table Cached) :
    Option (Table Cached) :=
  if chapters.all fun c => c.store.isSome then
    (t.deleteWhere fun r => r.mangaId = mangaId).insertAll
      (chapters.filterMap SuwayomiChapter.store)
  else none

/-- `put_chapters`; `none` if the transaction fails. -/
def putChapters (rules : ScanRules) (mangaId : Int) (chapters : List Fetched)
    (cache : SuwayomiCache) : Option SuwayomiCache :=
  match cache.suwayomiSeries.lookup mangaId with
  | none => some cache
  | some sy =>
      let count := mainChapterCount (chapters.map SuwayomiChapter.chapterNumber)
      let latestChapterAt := deriveLatestChapterAt rules chapters
      let series := writeDerived mangaId count latestChapterAt cache.suwayomiSeries
      if unchanged cache mangaId chapters then
        if sy.chapterCount = count ∧
            (latestChapterAt = none ∨ latestChapterAt = sy.latestChapterAt) then
          some cache
        else some { cache with suwayomiSeries := series }
      else
        (replaceRows mangaId chapters cache.suwayomiChapter).map fun t => ⟨series, t⟩

/-- The call without its two early returns. -/
def rewriteChapters (rules : ScanRules) (mangaId : Int) (chapters : List Fetched)
    (cache : SuwayomiCache) : Option SuwayomiCache :=
  match cache.suwayomiSeries.lookup mangaId with
  | none => some cache
  | some _ =>
      let count := mainChapterCount (chapters.map SuwayomiChapter.chapterNumber)
      let latestChapterAt := deriveLatestChapterAt rules chapters
      (replaceRows mangaId chapters cache.suwayomiChapter).map fun t =>
        ⟨writeDerived mangaId count latestChapterAt cache.suwayomiSeries, t⟩

/-! ## What it is to leave

The list in the place of the rows of the series. -/

/-- The two have the same rows. -/
structure SameRows (a b : SuwayomiCache) : Prop where
  series : a.suwayomiSeries = b.suwayomiSeries
  chapters : ∀ r, r ∈ a.suwayomiChapter ↔ r ∈ b.suwayomiChapter

/-- The list is stored in the place of the series' rows, with its count, and its
newest upload time or the time that was there. -/
structure StoresList (rules : ScanRules) (mangaId : Int) (chapters : List Fetched)
    (before after : SuwayomiCache) : Prop where
  rows : ∀ r, r ∈ after.suwayomiChapter ↔
    (r ∈ before.suwayomiChapter ∧ r.mangaId ≠ mangaId) ∨ ∃ c ∈ chapters, c.store = some r
  derived : ∀ id, after.suwayomiSeries.lookup id =
    if id = mangaId then (before.suwayomiSeries.lookup id).map
      (SuwayomiSeries.derive (mainChapterCount (chapters.map SuwayomiChapter.chapterNumber))
        (deriveLatestChapterAt rules chapters))
    else before.suwayomiSeries.lookup id

/-- The call leaves what the call without early returns leaves, and that is the list. -/
structure SkipIsRewrite (rules : ScanRules) (mangaId : Int) (chapters : List Fetched)
    (cache : SuwayomiCache) : Prop where
  same : Option.Rel SameRows (putChapters rules mangaId chapters cache)
    (rewriteChapters rules mangaId chapters cache)
  stores : ∀ after, putChapters rules mangaId chapters cache = some after →
    StoresList rules mangaId chapters cache after

/-! ## Rows and what is fetched

A comparison of projections that are sorted, told of rows and chapters. -/

/-- Two numbers of a column are equal if they compare so. -/
theorem eq_of_place {x y : Binary64} (hx : storable x = true) (hy : storable y = true)
    (h : x.place = y.place) : x = y := by
  cases x with
  | nan => contradiction
  | infinity s =>
      cases y with
      | nan => contradiction
      | infinity t => cases s <;> cases t <;> simp_all [Binary64.place, Binary64.signed]
      | finite t n => cases s <;> simp [Binary64.place, Binary64.signed] at h
  | finite s m =>
      cases y with
      | nan => contradiction
      | infinity t => cases t <;> simp [Binary64.place, Binary64.signed] at h
      | finite t n =>
          have hunits : Binary64.signed s m = Binary64.signed t n := by
            simpa [Binary64.place] using h
          simp only [storable, Bool.and_eq_true, decide_eq_true_eq, ne_eq,
            Binary64.finite.injEq] at hx hy
          rw [Binary64.finite.injEq]
          cases s <;> cases t <;> simp [Binary64.signed] at hunits hx hy ⊢ <;> omega

/-- What is stored compares as what was fetched. -/
theorem place_storeNumber {x : StoredNumber} {y : Binary64} (h : storeNumber y = some x) :
    x.val.place = y.place := by
  unfold storeNumber at h
  split at h
  · next hzero =>
      cases h
      rw [hzero]
      rfl
  · split at h
    · cases h
      rfl
    · contradiction

/-- Only a NaN is not stored. -/
theorem storeNumber_eq_none {y : Binary64} : storeNumber y = none ↔ y = .nan := by
  unfold storeNumber
  split
  · next hzero => simp [hzero]
  · next hzero =>
      split
      · next hy =>
          simp only [storable, Bool.and_eq_true, decide_eq_true_eq] at hy
          simp [hy.1]
      · next hy =>
          simp only [storable, Bool.and_eq_true, decide_eq_true_eq, not_and] at hy
          simp only [true_iff]
          by_contra hnan
          exact hy hnan hzero

/-- A stored number compares equal to what it is stored for. -/
theorem eqv_iff_storeNumber {x : StoredNumber} {y : Binary64} :
    x.val.eqv y = true ↔ storeNumber y = some x := by
  rw [Binary64.eqv_iff]
  constructor
  · rintro ⟨p, hx, hy⟩
    cases hstore : storeNumber y with
    | none =>
        rw [storeNumber_eq_none.mp hstore] at hy
        contradiction
    | some z =>
        have hplace := place_storeNumber hstore
        rw [hy, ← hx] at hplace
        exact congrArg some (Subtype.ext (eq_of_place z.property x.property hplace))
  · intro hstore
    have hplace := place_storeNumber hstore
    cases hx : x.val.place with
    | none =>
        rw [hx] at hplace
        have hnan : y = .nan := by
          cases y with
          | nan => rfl
          | infinity s => contradiction
          | finite s n => contradiction
        rw [storeNumber_eq_none.mpr hnan] at hstore
        contradiction
    | some p => exact ⟨p, rfl, hplace ▸ hx⟩

/-- A cached row compares equal to a chapter that would be stored as that row, but for
the series. -/
theorem eqv_digest_iff {r : Cached} {c : Fetched} :
    (ChapterDigestRow.of r.read).eqv (ChapterDigestRow.of c) = true ↔
      c.store = some { r with mangaId := c.mangaId } := by
  unfold ChapterDigestRow.eqv ChapterDigestRow.of SuwayomiChapter.read SuwayomiChapter.store
  simp only [Bool.and_eq_true, decide_eq_true_eq, eqv_iff_storeNumber, Option.map_eq_some_iff,
    SuwayomiChapter.mk.injEq]
  constructor
  · rintro ⟨hid, hname, hnumber, hscanlator, hdate, hread, hbook, hdown, hlast, hpages⟩
    exact ⟨_, hnumber, hid.symm, trivial, hname.symm, rfl, hscanlator.symm, hdate.symm,
      hread.symm, hbook.symm, hdown.symm, hlast.symm, hpages.symm⟩
  · rintro ⟨x, hnumber, hid, -, hname, rfl, hscanlator, hdate, hread, hbook, hdown, hlast,
      hpages⟩
    exact ⟨hid.symm, hname.symm, hnumber, hscanlator.symm, hdate.symm, hread.symm,
      hbook.symm, hdown.symm, hlast.symm, hpages.symm⟩

/-! ## The transaction

It fails for a NaN, and for an id that is there twice or that another series has. -/

section Writer

variable {rules : ScanRules} {mangaId : Int} {chapters : List Fetched}
variable {cache after : SuwayomiCache} {t t' : Table Cached} {sy : SuwayomiSeries}

/-- The row has the id of the chapter. -/
theorem id_of_store {c : Fetched} {r : Cached} (h : c.store = some r) : r.id = c.id := by
  obtain ⟨x, -, rfl⟩ := Option.map_eq_some_iff.mp h
  rfl

theorem mangaId_of_store {c : Fetched} {r : Cached} (h : c.store = some r) :
    r.mangaId = c.mangaId := by
  obtain ⟨x, -, rfl⟩ := Option.map_eq_some_iff.mp h
  rfl

theorem mem_replaceRows (h : replaceRows mangaId chapters t = some t') {r : Cached} :
    r ∈ t' ↔ (r ∈ t ∧ r.mangaId ≠ mangaId) ∨ ∃ c ∈ chapters, c.store = some r := by
  unfold replaceRows at h
  split at h
  · rw [mem_of_insertAll h, mem_deleteWhere, List.mem_filterMap, decide_eq_false_iff_not]
  · contradiction

/-- The transaction succeeds if every chapter has a number, and an id of its own that no
other series has. -/
theorem isSome_replaceRows (hstore : ∀ c ∈ chapters, c.store.isSome = true)
    (hids : (chapters.map SuwayomiChapter.id).Nodup)
    (hfree : ∀ c ∈ chapters, ∀ r ∈ t, r.id = c.id → r.mangaId = mangaId) :
    (replaceRows mangaId chapters t).isSome = true := by
  unfold replaceRows
  rw [if_pos (List.all_eq_true.mpr hstore), isSome_insertAll]
  constructor
  · rw [List.pairwise_filterMap]
    apply (List.pairwise_map.mp hids).imp
    intro a b hne x hx y hy
    rw [← Bool.not_eq_true, ByKey.clash_iff]
    show x.id ≠ y.id
    rw [id_of_store hx, id_of_store hy]
    exact hne
  · intro x hx y hy
    obtain ⟨c, hc, hx⟩ := List.mem_filterMap.mp hx
    obtain ⟨hy, hother⟩ := mem_deleteWhere.mp hy
    rw [← Bool.not_eq_true, ByKey.clash_iff]
    show x.id ≠ y.id
    rw [id_of_store hx]
    intro hid
    exact of_decide_eq_false hother (hfree c hc y hy hid.symm)

/-- What the call without early returns leaves. -/
theorem storesList_rewriteChapters (hcached : cache.suwayomiSeries.lookup mangaId = some sy)
    (h : rewriteChapters rules mangaId chapters cache = some after) :
    StoresList rules mangaId chapters cache after := by
  simp only [rewriteChapters, hcached] at h
  obtain ⟨t, ht, rfl⟩ := Option.map_eq_some_iff.mp h
  constructor
  · exact fun r => mem_replaceRows ht
  · exact fun id => lookup_derived

/-! ## The early returns

What the comparison does not see is the series that a chapter names. -/

/-- Lists that compare equal match each other, element by element. -/
theorem exists_of_isEqv {α : Type} {eqv : α → α → Bool} {as bs : List α}
    (h : as.isEqv bs eqv = true) :
    (∀ a ∈ as, ∃ b ∈ bs, eqv a b = true) ∧ ∀ b ∈ bs, ∃ a ∈ as, eqv a b = true := by
  induction as generalizing bs with
  | nil =>
      cases bs with
      | nil => simp
      | cons b bs => contradiction
  | cons a as ih =>
      cases bs with
      | nil => contradiction
      | cons b bs =>
          rw [List.isEqv_cons_cons, Bool.and_eq_true] at h
          obtain ⟨hhead, htail⟩ := h
          obtain ⟨hleft, hright⟩ := ih htail
          constructor
          · intro x hx
            rcases List.mem_cons.mp hx with rfl | hx
            · exact ⟨b, List.mem_cons_self, hhead⟩
            · obtain ⟨y, hy, hxy⟩ := hleft x hx
              exact ⟨y, List.mem_cons_of_mem b hy, hxy⟩
          · intro y hy
            rcases List.mem_cons.mp hy with rfl | hy
            · exact ⟨a, List.mem_cons_self, hhead⟩
            · obtain ⟨x, hx, hxy⟩ := hright y hy
              exact ⟨x, List.mem_cons_of_mem a hx, hxy⟩

/-- What is compared of the cache. -/
theorem mem_existing {d : ChapterDigestRow} : d ∈ existing cache mangaId ↔
    ∃ r ∈ cache.suwayomiChapter, r.mangaId = mangaId ∧ ChapterDigestRow.of r.read = d := by
  simp [existing, mem_rows, and_assoc]

/-- What is compared of the list. -/
theorem mem_incoming {d : ChapterDigestRow} :
    d ∈ incoming chapters ↔ ∃ c ∈ chapters, ChapterDigestRow.of c = d := by
  simp [incoming]

/-- Where the lists compare equal, every chapter would be stored as a row of the series
that is there, under the series that it names. -/
theorem row_of_unchanged (h : unchanged cache mangaId chapters = true) {c : Fetched}
    (hc : c ∈ chapters) : ∃ r ∈ cache.suwayomiChapter, r.mangaId = mangaId ∧
      c.store = some { r with mangaId := c.mangaId } := by
  obtain ⟨d, hd, heqv⟩ := (exists_of_isEqv h).2 _ (mem_incoming.mpr ⟨c, hc, rfl⟩)
  obtain ⟨r, hr, hseries, rfl⟩ := mem_existing.mp hd
  exact ⟨r, hr, hseries, eqv_digest_iff.mp heqv⟩

/-- And every row of the series is that of a chapter. -/
theorem chapter_of_unchanged (h : unchanged cache mangaId chapters = true) {r : Cached}
    (hr : r ∈ cache.suwayomiChapter) (hseries : r.mangaId = mangaId) :
    ∃ c ∈ chapters, c.store = some { r with mangaId := c.mangaId } := by
  obtain ⟨d, hd, heqv⟩ := (exists_of_isEqv h).1 _ (mem_existing.mpr ⟨r, hr, hseries, rfl⟩)
  obtain ⟨c, hc, rfl⟩ := mem_incoming.mp hd
  exact ⟨c, hc, eqv_digest_iff.mp heqv⟩

/-- A table has an id once. -/
theorem eq_of_id {r r' : Cached} (hr : r ∈ t) (hr' : r' ∈ t) (hid : r.id = r'.id) : r = r' :=
  t.eq_of_clash hr hr' ((ByKey.clash_iff r r').mpr hid)

/-- Where the early return is taken, the transaction would have succeeded. -/
theorem isSome_replaceRows_of_unchanged (h : unchanged cache mangaId chapters = true)
    (hids : (chapters.map SuwayomiChapter.id).Nodup) :
    (replaceRows mangaId chapters cache.suwayomiChapter).isSome = true := by
  apply isSome_replaceRows _ hids
  · intro c hc r hr hid
    obtain ⟨row, hrow, hseries, hstore⟩ := row_of_unchanged h hc
    have hsame : row.id = r.id := (id_of_store hstore).trans hid.symm
    rw [← eq_of_id hrow hr hsame]
    exact hseries
  · intro c hc
    obtain ⟨row, -, -, hstore⟩ := row_of_unchanged h hc
    rw [hstore, Option.isSome_some]

/-- It would have left the rows that are there exactly if every chapter names the
series. -/
theorem rows_of_unchanged_iff (h : unchanged cache mangaId chapters = true)
    (ht : replaceRows mangaId chapters cache.suwayomiChapter = some t') :
    (∀ r, r ∈ cache.suwayomiChapter ↔ r ∈ t') ↔ ∀ c ∈ chapters, c.mangaId = mangaId := by
  constructor
  · intro hsame c hc
    obtain ⟨row, hrow, hseries, hstore⟩ := row_of_unchanged h hc
    have hthere := (hsame _).mpr ((mem_replaceRows ht).mpr (.inr ⟨c, hc, hstore⟩))
    rw [← eq_of_id hrow hthere rfl] at hstore
    rw [← hseries, mangaId_of_store hstore]
  · intro hnames r
    rw [mem_replaceRows ht]
    constructor
    · intro hr
      by_cases hseries : r.mangaId = mangaId
      · obtain ⟨c, hc, hstore⟩ := chapter_of_unchanged h hr hseries
        rw [hnames c hc, ← hseries] at hstore
        exact .inr ⟨c, hc, hstore⟩
      · exact .inl ⟨hr, hseries⟩
    · rintro (⟨hr, -⟩ | ⟨c, hc, hstore⟩)
      · exact hr
      · obtain ⟨row, hrow, hseries, hrow'⟩ := row_of_unchanged h hc
        rw [hnames c hc, ← hseries, hstore] at hrow'
        exact Option.some.inj hrow' ▸ hrow

/-- The derived columns that the second early return leaves are right. -/
theorem writeDerived_eq_self (hcached : cache.suwayomiSeries.lookup mangaId = some sy)
    {count : Int} {latest : Option String} (hcount : sy.chapterCount = count)
    (hlatest : latest = none ∨ latest = sy.latestChapterAt) :
    writeDerived mangaId count latest cache.suwayomiSeries = cache.suwayomiSeries := by
  unfold writeDerived
  rw [update_eq_self_iff]
  intro r hr hid
  have hrow : r = sy := by
    rw [← of_decide_eq_true hid] at hcached
    exact Option.some.inj ((lookup_of_mem hr).symm.trans hcached)
  subst hrow
  unfold SuwayomiSeries.derive
  rcases hlatest with rfl | rfl
  · rw [Option.none_or, ← hcount]
  · rw [Option.or_self, ← hcount]

/-- Both early returns leave the derived columns as the statement would. -/
theorem putChapters_of_unchanged (rules : ScanRules)
    (hcached : cache.suwayomiSeries.lookup mangaId = some sy)
    (h : unchanged cache mangaId chapters = true) :
    putChapters rules mangaId chapters cache = some { cache with
      suwayomiSeries := writeDerived mangaId
        (mainChapterCount (chapters.map SuwayomiChapter.chapterNumber))
        (deriveLatestChapterAt rules chapters) cache.suwayomiSeries } := by
  simp only [putChapters, hcached, h, if_true]
  split
  · next hright => rw [writeDerived_eq_self hcached hright.1 hright.2]
  · rfl

/-- Without an early return the call is the rewrite. -/
theorem putChapters_of_changed (rules : ScanRules)
    (h : unchanged cache mangaId chapters = false) :
    putChapters rules mangaId chapters cache = rewriteChapters rules mangaId chapters cache := by
  simp only [putChapters, rewriteChapters, h, Bool.false_eq_true, if_false]

/-- The same tables have the same rows. -/
theorem SameRows.refl (a : SuwayomiCache) : SameRows a a := ⟨rfl, fun _ => Iff.rfl⟩

/-- **When the early return is a rewrite.**  For a cached series and a list of distinct
ids: a list that compares equal to the cached one has to name the series that it is
stored for.  The digest has every column of a row but that one, so where it names
another, the rewrite moves the row and the early return leaves it. -/
theorem skipIsRewrite_iff (hcached : cache.suwayomiSeries.lookup mangaId = some sy)
    (hids : (chapters.map SuwayomiChapter.id).Nodup) :
    SkipIsRewrite rules mangaId chapters cache ↔
      (unchanged cache mangaId chapters = true → ∀ c ∈ chapters, c.mangaId = mangaId) := by
  by_cases hunchanged : unchanged cache mangaId chapters = true
  · obtain ⟨t', ht⟩ := Option.isSome_iff_exists.mp (isSome_replaceRows_of_unchanged hunchanged hids)
    have hput := putChapters_of_unchanged rules hcached hunchanged
    have hrewrite : rewriteChapters rules mangaId chapters cache =
        some ⟨writeDerived mangaId
          (mainChapterCount (chapters.map SuwayomiChapter.chapterNumber))
          (deriveLatestChapterAt rules chapters) cache.suwayomiSeries, t'⟩ := by
      simp only [rewriteChapters, hcached, ht, Option.map_some]
    rw [← rows_of_unchanged_iff hunchanged ht]
    constructor
    · intro hskip _
      have hsame := hskip.same
      rw [hput, hrewrite] at hsame
      exact (Option.rel_some_some.mp hsame).chapters
    · intro hrows
      have hstores := storesList_rewriteChapters hcached hrewrite
      constructor
      · rw [hput, hrewrite]
        exact .some ⟨rfl, hrows hunchanged⟩
      · intro after hafter
        rw [hput] at hafter
        cases hafter
        constructor
        · intro r
          rw [← hstores.rows]
          exact hrows hunchanged r
        · exact hstores.derived
  · have hchanged := putChapters_of_changed rules (Bool.not_eq_true _ ▸ hunchanged)
    apply iff_of_true
    · constructor
      · rw [hchanged]
        cases rewriteChapters rules mangaId chapters cache with
        | none => exact .none
        | some after => exact .some (.refl after)
      · intro after hafter
        rw [hchanged] at hafter
        exact storesList_rewriteChapters hcached hafter
    · exact fun h => absurd h hunchanged

end Writer

/-! ## A chapter of another series

The source moves a chapter and keeps its id. -/

/-- A first chapter, under the series that the source names. -/
def firstChapter (mangaId : Int) : Fetched where
  id := 1
  mangaId := mangaId
  name := "Prologue"
  chapterNumber := .finite false 0
  scanlator := none
  uploadDate := none
  isRead := false
  isBookmarked := false
  isDownloaded := false
  lastPageRead := 0
  pageCount := 0

/-- Its row in the cache, with the number that the column can hold. -/
def firstRow (mangaId : Int) : Cached :=
  { firstChapter mangaId with chapterNumber := ⟨.finite false 0, rfl⟩ }

/-- Series 7, with its first chapter. -/
def prologueCache : SuwayomiCache where
  suwayomiSeries := ⟨[librarySeries 7 "Dusk" 1 none], List.pairwise_singleton _ _⟩
  suwayomiChapter := ⟨[firstRow 7], List.pairwise_singleton _ _⟩

/-- The source now names series 8 for the chapter; the row is left at series 7, where
the rewrite would have moved it. -/
theorem not_skipIsRewrite_moved :
    ¬SkipIsRewrite scanRules 7 [firstChapter 8] prologueCache := by
  intro hskip
  have hcached : prologueCache.suwayomiSeries.lookup 7 =
      some (librarySeries 7 "Dusk" 1 none) := rfl
  have hput := putChapters_of_unchanged scanRules hcached
    (show unchanged prologueCache 7 [firstChapter 8] = true from by decide)
  have hmoved := ((hskip.stores _ hput).rows (firstRow 8)).mpr
    (.inr ⟨firstChapter 8, List.mem_singleton_self _, by decide⟩)
  exact absurd (List.mem_singleton.mp hmoved) (by decide)

/-- The list that is there. -/
theorem skipIsRewrite_prologue :
    SkipIsRewrite scanRules 7 [firstChapter 7] prologueCache := by
  have hcached : prologueCache.suwayomiSeries.lookup 7 =
      some (librarySeries 7 "Dusk" 1 none) := rfl
  exact (skipIsRewrite_iff hcached (by decide)).mpr (by decide)

end Komika.Cache.UnchangedChapters
