import Komika.Catalog.SpineKeys
import Komika.Feed.Schema
import Mathlib.Data.List.Sort
import Mathlib.Data.List.TakeWhile
import Mathlib.Data.String.Basic

/-!
# The chapter cache and its mirror in the spine

`put_chapters` (`series_cache.rs`) replaces the cached chapters of a Suwayomi
series in one transaction, and mirrors the list into the canonical spine
afterwards, in another, whose failure it swallows.  `catalog/spine.rs`
backfills the mappings that have cached chapters and none in the spine.

A call is a job that makes one step at a time: between its steps the steps of
other calls run, or it fails.  The series' derived columns, which the same
transaction sets, are left out: nothing here reads them.

The ids that `new_id` returns are arguments of a step, and `freshIds` asks that they are
new; so a run is any sequence of steps under ids that are minted once.

`Replacement` says what one replacement leaves, `Mappings` what a state has to keep, and
`SpineMirror` proves that runs keep it.
-/

namespace Komika.Cache.SeriesCache

open Komika.Lib
open Komika.Catalog.Schema Komika.Catalog.Database Komika.Catalog.Ledger
open Komika.Catalog.SpineKeys
open Komika.Feed.Schema (SuwayomiChapter)

/-- The pure functions the writers call. -/
structure CacheRules (ν : Type) where
  labels : LabelRules ν
  /-- `strftime('%s', ?)`. -/
  strftimeSeconds : String → Option Int
  /-- `f64::to_string`. -/
  numberToString : Rat → String
  /-- `suwayomi_upload_date_to_iso`. -/
  uploadDateToIso : Option String → Option String

variable {ν : Type}

/-! ## Integers as text

A mapping has the id of its series as text, and the joins cast it. -/

/-- The value of the digits a text starts with. -/
def leadingDigits (cs : List Char) : Int :=
  Nat.ofDigitChars 10 (cs.takeWhile Char.isDigit) 0

/-- The digits, with the sign that may stand before them. -/
def signedInteger : List Char → Int
  | '-' :: cs => -leadingDigits cs
  | '+' :: cs => leadingDigits cs
  | cs => leadingDigits cs

/-- `CAST(? AS INTEGER)`, on unbounded integers. -/
def castInteger (text : String) : Int :=
  signedInteger (text.toList.dropWhile Char.isWhitespace)

/-- A number is read back from its digits. -/
theorem leadingDigits_toDigits (n : Nat) :
    leadingDigits (Nat.toDigits 10 n) = n := by
  have hall : (Nat.toDigits 10 n).takeWhile Char.isDigit = Nat.toDigits 10 n := by
    rw [List.takeWhile_eq_self_iff]
    intro c hc
    exact Nat.isDigit_of_mem_toDigits (by decide) (by decide) hc
  rw [leadingDigits, hall, Nat.ofDigitChars_ten_toDigits]

/-- A text that starts with a digit has no sign and no space before it. -/
theorem signedInteger_of_isDigit {c : Char} {cs : List Char}
    (hc : c.isDigit = true) :
    signedInteger ((c :: cs).dropWhile Char.isWhitespace) =
      leadingDigits (c :: cs) := by
  have hspace : ¬c.isWhitespace = true := by
    intro hw
    simp only [Char.isWhitespace, Bool.or_eq_true, decide_eq_true_eq] at hw
    rcases hw with ((rfl | rfl) | rfl) | rfl <;> contradiction
  rw [List.dropWhile_cons_of_neg hspace]
  unfold signedInteger
  split
  · next heq =>
      obtain ⟨rfl, -⟩ := List.cons.inj heq
      contradiction
  · next heq =>
      obtain ⟨rfl, -⟩ := List.cons.inj heq
      contradiction
  · rfl

/-- The key of a mapping is read back. -/
theorem castInteger_toString (n : Int) : castInteger (toString n) = n := by
  unfold castInteger
  cases n with
  | ofNat n =>
      have hlist : (toString (Int.ofNat n)).toList = Nat.toDigits 10 n :=
        Nat.toList_repr
      obtain ⟨c, cs, hcons⟩ := List.exists_cons_of_ne_nil
        (Nat.toDigits_ne_nil (n := n) (b := 10))
      have hc : c.isDigit = true := by
        apply Nat.isDigit_of_mem_toDigits (b := 10) (n := n) (by decide) (by decide)
        rw [hcons]
        exact List.mem_cons_self
      rw [hlist, hcons, signedInteger_of_isDigit hc, ← hcons,
        leadingDigits_toDigits]
      rfl
  | negSucc n =>
      have hlist : (toString (Int.negSucc n)).toList =
          '-' :: Nat.toDigits 10 (n + 1) := by
        show ("-" ++ Nat.repr (n + 1)).toList = _
        rw [String.toList_append, Nat.toList_repr]
        rfl
      rw [hlist, List.dropWhile_cons_of_neg (by decide)]
      show -leadingDigits (Nat.toDigits 10 (n + 1)) = _
      rw [leadingDigits_toDigits]
      rfl

theorem toString_ne_empty (n : Int) : toString n ≠ "" := by
  intro h
  have hn : n = castInteger "" := by rw [← h, castInteger_toString]
  rw [hn] at h
  revert h
  decide

/-! ## Chapters

What a cached chapter is for the spine, and for the comparison of lists. -/

/-- `suwayomi_spine_input`: the row that the spine has for a cached chapter; it is
always English, and its upload time is both of its times. -/
def suwayomiSpineInput (rules : CacheRules ν) (id : Int) (name : String)
    (chapterNumber : Rat) (scanlator uploadDate : Option String) : ChapterInput :=
  let released := rules.uploadDateToIso uploadDate
  { externalId := toString id
    number := some (rules.numberToString chapterNumber)
    volume := none
    lang := some "en"
    title := some name
    publishedAt := released
    readableAt := released
    externalUrl := none
    scanlator := scanlator }

/-- `suwayomi_chapter_input`: the same, from a chapter as fetched. -/
def suwayomiChapterInput (rules : CacheRules ν) (ch : SuwayomiChapter) :
    ChapterInput :=
  suwayomiSpineInput rules ch.id ch.name ch.chapterNumber ch.scanlator ch.uploadDate

/-- `ChapterDigestRow`: the columns that `put_chapters` writes and compares. -/
structure ChapterDigestRow where
  id : Int
  name : String
  chapterNumber : Rat
  scanlator : Option String
  uploadDate : Option String
  isRead : Bool
  isBookmarked : Bool
  isDownloaded : Bool
  lastPageRead : Int
  pageCount : Int
deriving DecidableEq

/-- `ChapterDigestRow::of`: what of a chapter is compared with the cache. -/
def ChapterDigestRow.of (c : SuwayomiChapter) : ChapterDigestRow where
  id := c.id
  name := c.name
  chapterNumber := c.chapterNumber
  scanlator := c.scanlator
  uploadDate := c.uploadDate
  isRead := c.isRead
  isBookmarked := c.isBookmarked
  isDownloaded := c.isDownloaded
  lastPageRead := c.lastPageRead
  pageCount := c.pageCount

/-- The digests in the order of their ids. -/
def digest (chapters : List SuwayomiChapter) : List ChapterDigestRow :=
  (chapters.map ChapterDigestRow.of).insertionSort fun a b => a.id ≤ b.id

/-- `SELECT … FROM suwayomi_chapter WHERE manga_id = ?`. -/
def cachedChapters (cache : Table SuwayomiChapter) (mangaId : Int) :
    List SuwayomiChapter :=
  cache.rows.filter fun c => c.mangaId = mangaId

/-- The transaction of `put_chapters`: the rows of the series are deleted and
each fetched chapter is inserted; `none` if an insert fails. -/
def rewriteCache (mangaId : Int) (chapters : List SuwayomiChapter)
    (cache : Table SuwayomiChapter) : Option (Table SuwayomiChapter) :=
  (cache.deleteWhere fun c => c.mangaId = mangaId).insertAll chapters

/-! ## Mappings

Which mapping a list goes to, and which mappings a drain is going to look at. -/

/-- `ORDER BY last_seen DESC, id ASC`, NULLs last. -/
def latestFirst (a b : SourceSeries) : Prop :=
  match a.lastSeen, b.lastSeen with
  | some x, some y => y < x ∨ (x = y ∧ a.id ≤ b.id)
  | some _, none => True
  | none, some _ => False
  | none, none => a.id ≤ b.id

instance : DecidableRel latestFirst := fun a b =>
  match ha : a.lastSeen, hb : b.lastSeen with
  | some x, some y =>
      decidable_of_iff (y < x ∨ (x = y ∧ a.id ≤ b.id)) (by rw [latestFirst, ha, hb])
  | some _, none => decidable_of_iff True (by rw [latestFirst, ha, hb])
  | none, some _ => decidable_of_iff False (by rw [latestFirst, ha, hb])
  | none, none => decidable_of_iff (a.id ≤ b.id) (by rw [latestFirst, ha, hb])

/-- The mapping that `write_chapters_to_spine` writes to. -/
def mappingOf (db : Db) (mangaId : Int) : Option Id :=
  (((db.sourceSeries.rows.filter fun ss =>
    ss.sourceType = "suwayomi" && ss.sourceKey = toString mangaId).insertionSort
      latestFirst).head?).map SourceSeries.id

/-- The mapping has cached chapters and no row in the spine. -/
def unmaterialised (cache : Table SuwayomiChapter) (db : Db) (ss : SourceSeries) :
    Bool :=
  ss.sourceType = "suwayomi" &&
    (cachedChapters cache (castInteger ss.sourceKey) ≠ [] &&
      db.chapter.rows.all fun c => c.sourceSeriesId ≠ ss.id)

/-- `SERIES_BATCH`: how many series one call of the drain materialises. -/
def seriesBatch : Nat := 25

/-- The work-list of `drain_suwayomi_series`. -/
def pendingSeries (cache : Table SuwayomiChapter) (db : Db) : List (Id × Int) :=
  ((db.sourceSeries.rows.filter (unmaterialised cache db)).take seriesBatch).map
    fun ss => (ss.id, castInteger ss.sourceKey)

/-- `spine::remaining`: the chapters without a key, and the series without chapters in
the spine. -/
def remaining (cache : Table SuwayomiChapter) (db : Db) : Nat × Nat :=
  (db.chapter.rows.countP fun c => c.chapterKey = none,
    db.sourceSeries.rows.countP (unmaterialised cache db))

/-- The rows of the mapping that a list no longer has, as
`replace_source_chapters` reads them before its transaction. -/
def vanishedIds (sourceSeriesId : Id) (inputs : List ChapterInput) (db : Db) :
    List Id :=
  let incoming := (inputs.map ChapterInput.externalId).filter (· ≠ "")
  (db.chapter.rows.filter fun c => c.sourceSeriesId = sourceSeriesId &&
    !incoming.contains c.externalId).map Chapter.id

/-! ## Calls under way

A `put_chapters` writes the cache, finds its mapping, reads the rows that have vanished,
replaces, and records: five stages. -/

/-- Where a call stands: what it does next, and what it holds for it. -/
inductive Stage where
  /-- The list differs from the cached one; the cache transaction is next. -/
  | changed (mangaId : Int) (chapters : List SuwayomiChapter)
  /-- The cache holds the list; the mapping is read next. -/
  | cached (mangaId : Int) (chapters : List SuwayomiChapter)
  /-- A mapping of the drain's work-list; its cached chapters are read next. -/
  | pending (sourceSeriesId : Id) (mangaId : Int)
  /-- `replace_source_chapters` reads the mapping's rows next. -/
  | replacing (sourceSeriesId : Id) (inputs : List ChapterInput)
  /-- Its transaction is next. -/
  | planned (sourceSeriesId : Id) (inputs : List ChapterInput)
      (vanished : List Id)
  /-- The spine has the list; the ledger is next. -/
  | written (sourceSeriesId : Id)

/-- A call under way. -/
structure Job where
  /-- A `put_chapters`; otherwise a mapping of a drain. -/
  fromPut : Bool
  stage : Stage

/-- The database, the cache, and the calls that are under way. -/
structure CacheState where
  db : Db
  suwayomiChapter : Table SuwayomiChapter
  jobs : List Job
  /-- Every chapter id that `new_id` has returned. -/
  minted : List Id

/-- Nothing is under way. -/
def CacheState.start (db : Db) (cache : Table SuwayomiChapter) : CacheState :=
  ⟨db, cache, [], db.chapter.rows.map Chapter.id⟩

/-- The call ends, and what it had in hand is gone. -/
def CacheState.drop (s : CacheState) (i : Nat) : CacheState :=
  { s with jobs := s.jobs.eraseIdx i }

/-- The call has come to its next stage. -/
def CacheState.moveOn (s : CacheState) (i : Nat) (job : Job) (stage : Stage) :
    CacheState :=
  { s with jobs := s.jobs.set i { job with stage := stage } }

/-- The ids are new, and there is one for each chapter. -/
def CacheState.freshIds (s : CacheState) (inputs : List ChapterInput)
    (ids : List Id) : Bool :=
  ids.length = inputs.length && (ids.Nodup && ids.all fun id => !s.minted.contains id)

/-- The `i`-th job makes its next step; `ids` are what `new_id` returns in it,
and `nowMs` is the clock. -/
def CacheState.advance (rules : CacheRules ν) (s : CacheState) (i : Nat) (job : Job)
    (ids : List Id) (nowMs : Int) : CacheState :=
  let spine := spineRules rules.labels rules.strftimeSeconds
  match job.stage with
  | .changed mangaId chapters =>
      match rewriteCache mangaId chapters s.suwayomiChapter with
      | some cache =>
          { s with suwayomiChapter := cache }.moveOn i job (.cached mangaId chapters)
      | none => s.drop i
  | .cached mangaId chapters =>
      match mappingOf s.db mangaId with
      | some ssid =>
          s.moveOn i job (.replacing ssid (chapters.map (suwayomiChapterInput rules)))
      | none => s.drop i
  | .pending ssid mangaId =>
      match cachedChapters s.suwayomiChapter mangaId with
      | [] => s.drop i
      | chapters =>
          s.moveOn i job (.replacing ssid (chapters.map (suwayomiChapterInput rules)))
  | .replacing ssid inputs =>
      s.moveOn i job (.planned ssid inputs (vanishedIds ssid inputs s.db))
  | .planned ssid inputs vanished =>
      if s.freshIds inputs ids then
        match commitReplace spine ⟨ssid, ids.zip inputs, vanished⟩ s.db with
        | .ok (_, db) =>
            let s := { s with db := db, minted := ids ++ s.minted }
            if job.fromPut then s.moveOn i job (.written ssid) else s.drop i
        | .error _ => s.drop i
      else s
  | .written ssid =>
      if remaining s.suwayomiChapter s.db = (0, 0) then
        { s with db := recordSourceSeries spine ssid nowMs s.db }.drop i
      else s.drop i

/-! ## Series

The other write of the cache. -/

/-- Its `ON CONFLICT(id) DO UPDATE`. -/
def refreshSeries (old new : SuwayomiSeries) : SuwayomiSeries :=
  { new with id := old.id }

/-- The conflict clause leaves the key. -/
theorem refreshSeries_keepsKeys (new : SuwayomiSeries) :
    Table.KeepsKeys (refreshSeries · new) := fun _ _ => rfl

/-- `put_series`, which refuses a series in another language. -/
def putSeries (row : SuwayomiSeries) (db : Db) : Db :=
  if row.lang ≠ none ∧ row.lang ≠ some "en" then db
  else { db with
    suwayomiSeries := db.suwayomiSeries.upsert row refreshSeries
      (refreshSeries_keepsKeys row) }

/-! ## Runs

The operations that change one of the tables. -/

/-- What may happen; a call that is started makes its steps by `advance`. -/
inductive CacheOp where
  | putSeries (row : SuwayomiSeries)
  | ensureSourceSeries (row : SourceSeries) (now : String)
  | putChapters (mangaId : Int) (chapters : List SuwayomiChapter)
  | drainSuwayomiSeries
  /-- `drain_chapter_keys` writes a batch that it has read at some time. -/
  | drainChapterKeys (rows : List KeyRow)
  /-- The `i`-th job makes its next step. -/
  | advance (i : Nat) (ids : List Id) (nowMs : Int)
  /-- The next step of the `i`-th job fails, or the process ends. -/
  | fail (i : Nat)

/-- One step.  A call for a series that is not cached, or with the cached list, does
nothing. -/
def CacheState.step (rules : CacheRules ν) (s : CacheState) :
    CacheOp → CacheState
  | .putSeries row =>
      { s with db := putSeries row s.db }
  | .ensureSourceSeries row now =>
      { s with db := s.db.commit (Catalog.Ingest.ensureSourceSeries row now s.db) }
  | .putChapters mangaId chapters =>
      if s.db.suwayomiSeries.rows.any fun sy => sy.id = mangaId then
        if digest (cachedChapters s.suwayomiChapter mangaId) = digest chapters then s
        else { s with jobs := s.jobs ++ [⟨true, .changed mangaId chapters⟩] }
      else s
  | .drainSuwayomiSeries =>
      let jobs := (pendingSeries s.suwayomiChapter s.db).map fun p =>
        ⟨false, .pending p.1 p.2⟩
      { s with jobs := s.jobs ++ jobs }
  | .drainChapterKeys rows => { s with db := writeKeys rules.labels rows s.db }
  | .advance i ids nowMs =>
      match s.jobs[i]? with
      | some job => s.advance rules i job ids nowMs
      | none => s
  | .fail i => s.drop i

end Komika.Cache.SeriesCache
