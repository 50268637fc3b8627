import Komika.Chapters.WorkChapters

/-!
# Catching up on earlier chapters

`set_progress` of `graphql/mod.rs`: a reader who finishes a chapter has read
the earlier ones, here or elsewhere, so they are marked read with it.  Chapters
of the catalogue have uuids and labels that are free text; chapters that only
Suwayomi has are numeric ids and have numbers.  Progress is kept in two tables
of one shape, and each has its own statement that marks the earlier chapters.

For the catalogue one side of the comparison is parsed in Rust, and the other
is read by SQLite: a label that starts with a digit, cast to a number.  The two
readings differ on `2nd` and `5-6`, which SQLite takes for 2 and 5, and on
` 5`, `+5` and `.5`, which do not start with a digit.  For Suwayomi the stored
number is taken as it is, and so is the `-1` of a chapter that has none.

The mutation is the same for both tables, so it is one definition with the half as an
argument, and the statements that mark the earlier chapters are two.

* `lookup_catchUp`, `shown_afterFinish_again` — the writes, row by row, and that a
  second call changes nothing that is shown;
* `setProgress_eq` — a call that has an owner and a number runs both of its statements;
* `settled_iff` — the condition, as one on the chapters that are still to be read;
* `marksEarlier_iff` — when a call marks the earlier chapters, for either half;
* `settledCanonical_of_plain` — labels that both readings take alike;
* `not_marksEarlier_labels` — labels that they do not.
-/

namespace Komika.Graphql.CatchUp

open Komika.Lib
open Komika.Catalog.Schema
open Komika.Chapters.Label (trim)
open Komika.Chapters.WorkChapters (parseI64 parseI64_toString)

/-! ## Progress

One row for a user and a chapter, in either table. -/

/-- A row of `canonical_progress`, where the owner is a work, or of
`suwayomi_progress`, where it is a series. -/
structure Progress where
  userId : Id
  chapterId : Id
  ownerId : Id
  lastPageRead : Int
  read : Bool
  updatedAt : String
deriving DecidableEq, Repr

instance : Keyed Progress := .ofKey fun r => (r.userId, r.chapterId)

instance : ByKey Progress (Id × Id) where
  key r := (r.userId, r.chapterId)
  clash_iff _ _ := decide_eq_true_iff

/-- The conflict clause of the chapter that was read. -/
def overwrite (old new : Progress) : Progress :=
  { old with
    lastPageRead := new.lastPageRead
    read := new.read
    ownerId := new.ownerId
    updatedAt := new.updatedAt }

theorem overwrite_keepsKeys (new : Progress) : Table.KeepsKeys (overwrite · new) :=
  fun _ _ => rfl

/-- `read = 1, updated_at = excluded.updated_at WHERE read = 0`. -/
def markRead (old new : Progress) : Progress :=
  if old.read then old else { old with read := true, updatedAt := new.updatedAt }

theorem markRead_keepsKeys (new : Progress) : Table.KeepsKeys (markRead · new) := by
  apply Table.KeepsKeys.of_key
  intro r
  unfold markRead
  split <;> rfl

/-- The row that an earlier chapter gets where there is none. -/
def caughtUp (user owner : Id) (now : String) (chapter : Id) : Progress :=
  ⟨user, chapter, owner, 0, true, now⟩

/-- `INSERT … SELECT` of the earlier chapters. -/
def catchUp (user owner : Id) (now : String) (chapters : List Id) (t : Table Progress) :
    Table Progress :=
  t.upsertAll (chapters.map (caughtUp user owner now)) markRead markRead_keepsKeys

/-- The user has read the chapter. -/
def isRead (t : Table Progress) (user chapter : Id) : Bool :=
  (t.lookup (user, chapter)).any Progress.read

section Tables

variable {t : Table Progress} {user owner u c : Id} {now : String} {chapters : List Id}
  {row : Progress}

theorem lookup_catchUp :
    (catchUp user owner now chapters t).lookup (u, c) =
      if u = user ∧ c ∈ chapters then
        some (Table.merged markRead (t.lookup (u, c)) (caughtUp user owner now c))
      else t.lookup (u, c) := by
  have hsame : ∀ r ∈ chapters.map (caughtUp user owner now), key r = (u, c) →
      r = caughtUp user owner now c := by
    intro r hr hk
    obtain ⟨chapter, -, rfl⟩ := List.mem_map.mp hr
    have hchapter : chapter = c := (Prod.mk.inj hk).2
    rw [hchapter]
  have hagain : ∀ old, markRead (Table.merged markRead old (caughtUp user owner now c))
      (caughtUp user owner now c) = Table.merged markRead old (caughtUp user owner now c) := by
    intro old
    cases old with
    | none => rfl
    | some r =>
        rw [Table.merged_some]
        by_cases hread : r.read = true
        · simp [markRead, hread]
        · simp [markRead, hread]
  have hoffered : (∃ r ∈ chapters.map (caughtUp user owner now), key r = (u, c)) ↔
      u = user ∧ c ∈ chapters := by
    constructor
    · rintro ⟨r, hr, hk⟩
      obtain ⟨chapter, hchapter, rfl⟩ := List.mem_map.mp hr
      obtain ⟨hu, hc⟩ := Prod.mk.inj hk
      have hc : chapter = c := hc
      exact ⟨hu.symm, hc ▸ hchapter⟩
    · rintro ⟨rfl, hc⟩
      exact ⟨_, List.mem_map.mpr ⟨c, hc, rfl⟩, rfl⟩
  unfold catchUp
  rw [Table.lookup_upsertAll_again hsame hagain]
  simp only [hoffered]

theorem read_merged_markRead (old : Option Progress) (chapter : Id) :
    (Table.merged markRead old (caughtUp user owner now chapter)).read = true := by
  cases old with
  | none => rfl
  | some r =>
      rw [Table.merged_some]
      unfold markRead
      split
      · assumption
      · rfl

/-- The statement marks the chapters that it is given, for the one user. -/
theorem isRead_catchUp :
    isRead (catchUp user owner now chapters t) u c = true ↔
      isRead t u c = true ∨ (u = user ∧ c ∈ chapters) := by
  unfold isRead
  rw [lookup_catchUp]
  by_cases hmem : u = user ∧ c ∈ chapters
  · rw [if_pos hmem, Option.any_some, read_merged_markRead]
    simp [hmem]
  · rw [if_neg hmem]
    simp [hmem]

/-- What a catch-up leaves of a row that was there. -/
theorem lookup_catchUp_of_some {r : Progress} (h : t.lookup (u, c) = some r) :
    ∃ r', (catchUp user owner now chapters t).lookup (u, c) = some r' ∧
      r'.lastPageRead = r.lastPageRead ∧ (r.read = true → r' = r) := by
  rw [lookup_catchUp, h, Table.merged_some]
  by_cases hmem : u = user ∧ c ∈ chapters
  · rw [if_pos hmem]
    refine ⟨_, rfl, ?_, ?_⟩
    · unfold markRead
      split <;> rfl
    · intro hread
      rw [markRead, if_pos hread]
  · rw [if_neg hmem]
    exact ⟨r, rfl, rfl, fun _ => rfl⟩

end Tables

/-! ## The stores

What the mutation reads and writes; the half says which table of progress it is. -/

/-- How the two sides read a number. -/
structure NumberRules where
  /-- `str::parse::<f64>`. -/
  parse : String → Option Binary64
  /-- `CAST(… AS REAL)`. -/
  castReal : String → Binary64

/-- A row of `suwayomi_chapter`; its ids are 64-bit integers. -/
structure MangaChapter where
  id : Int
  mangaId : Int
  chapterNumber : Binary64
  idFits : -2 ^ 63 ≤ id ∧ id < 2 ^ 63
  mangaFits : -2 ^ 63 ≤ mangaId ∧ mangaId < 2 ^ 63

instance : Keyed MangaChapter := .ofKey MangaChapter.id

/-- The tables that `set_progress` reads and writes. -/
structure Stores where
  sourceSeries : Table SourceSeries
  chapter : Table Chapter
  suwayomiChapter : Table MangaChapter
  canonicalProgress : Table Progress
  suwayomiProgress : Table Progress
  /-- A mapping is of a work, and works have ids. -/
  named : ∀ ss ∈ sourceSeries, ss.workId ≠ ""

/-- Which progress a chapter id is about. -/
inductive Half where
  | canonical
  | suwayomi
deriving DecidableEq, Repr

/-- Numeric ids are Suwayomi's. -/
def halfOf (chapterId : String) : Half :=
  if chapterId ≠ "" ∧ chapterId.toList.all Char.isDigit then .suwayomi else .canonical

/-- The table of progress of a half. -/
def Stores.progress (s : Stores) : Half → Table Progress
  | .canonical => s.canonicalProgress
  | .suwayomi => s.suwayomiProgress

/-- The other tables stay. -/
def Stores.put (s : Stores) (half : Half) (t : Table Progress) : Stores :=
  match half with
  | .canonical => { s with canonicalProgress := t }
  | .suwayomi => { s with suwayomiProgress := t }

@[simp] theorem progress_put (s : Stores) (half : Half) (t : Table Progress) :
    (s.put half t).progress half = t := by
  cases half <;> rfl

@[simp] theorem put_put (s : Stores) (half : Half) (t t' : Table Progress) :
    (s.put half t).put half t' = s.put half t' := by
  cases half <;> rfl

/-! ## The mutation

The owner of the chapter, its number, the row of the chapter itself, and the sweep. -/

/-- `parse_chapter_number`: a number, and neither an infinity nor `nan`. -/
def parseChapterNumber (rules : NumberRules) (raw : String) : Option Binary64 :=
  (rules.parse (trim raw)).filter Binary64.isFinite

/-- `GLOB '[0-9]*'`, which asks for the first character only. -/
def leadsWithDigit (label : String) : Bool := label.toList.head?.any Char.isDigit

/-- The chapter is in the MangaDex mirror of the work. -/
def mirrors (s : Stores) (workId : Id) (c : Chapter) : Bool :=
  s.sourceSeries.rows.any fun ss =>
    ss.id = c.sourceSeriesId && ss.workId = workId && ss.sourceType = "mangadex"

/-- SQLite reads the label of the chapter as a number below `number`. -/
def sweeps (rules : NumberRules) (number : Binary64) (c : Chapter) : Bool :=
  c.number.any fun label => leadsWithDigit label && (rules.castReal label).lt number

/-- The chapters that the statement of each half selects. -/
def swept (rules : NumberRules) (s : Stores) (owner : Id) (number : Binary64) :
    Half → List Id
  | .canonical =>
      (s.chapter.rows.filter fun c =>
        mirrors s owner c && c.lang = some "en" && sweeps rules number c).map Chapter.externalId
  | .suwayomi =>
      (s.suwayomiChapter.rows.filter fun sc =>
        sc.mangaId = (parseI64 owner).getD (-1) && sc.chapterNumber.lt number).map
          fun sc => toString sc.id

/-- `catch_up_canonical` and `catch_up_suwayomi`: marks what lies before the number in
the chapter's own half; without an owner it does nothing. -/
def catchUpHalf (rules : NumberRules) (half : Half) (user owner : Id) (number : Binary64)
    (now : String) (s : Stores) : Stores :=
  if owner = "" then s
  else s.put half (catchUp user owner now (swept rules s owner number half) (s.progress half))

/-- The work of a chapter and its label; `LIMIT 1` takes any row there is. -/
def canonicalOwner (s : Stores) (chapterId : String) : Option (Id × Option String) :=
  (s.chapter.rows.filter fun c => c.externalId = chapterId).findSome? fun c =>
    (s.sourceSeries.rows.find? fun ss =>
      ss.id = c.sourceSeriesId && ss.sourceType = "mangadex").map fun ss =>
        (ss.workId, c.number)

/-- The cached chapter with this id. -/
def suwayomiOwner (s : Stores) (id : Int) : Option MangaChapter :=
  s.suwayomiChapter.rows.find? fun sc => sc.id = id

/-- The owner of a chapter, and its number if it has one. -/
def ownerOf (rules : NumberRules) (s : Stores) (chapterId : String) :
    Half → Option (Id × Option Binary64)
  | .canonical => (canonicalOwner s chapterId).map fun (workId, label) =>
      (workId, label.bind (parseChapterNumber rules))
  | .suwayomi => ((parseI64 chapterId).bind (suwayomiOwner s)).map fun sc =>
      (toString sc.mangaId, some sc.chapterNumber)

/-- The upsert of the chapter that was read. -/
def finish (row : Progress) (t : Table Progress) : Table Progress :=
  t.upsert row overwrite (overwrite_keepsKeys row)

/-- The statements of `set_progress` for either half. -/
def record (rules : NumberRules) (half : Half) (user : Id) (chapterId : String)
    (lastPageRead : Int) (read : Bool) (now : String) (s : Stores) : Stores :=
  let (owner, number) := (ownerOf rules s chapterId half).getD ("", none)
  let s := s.put half
    (finish ⟨user, chapterId, owner, lastPageRead, read, now⟩ (s.progress half))
  if read then
    match number with
    | some n => catchUpHalf rules half user owner n now s
    | none => s
  else s

/-- `set_progress`: which half the id belongs to, who is asking, and then the record and
what it catches up on. -/
def setProgress (rules : NumberRules) (viewer : Option Id) (chapterId : String)
    (lastPageRead : Int) (read : Bool) (now : String) (s : Stores) : Except String Stores :=
  if lastPageRead < 0 then .error "lastPageRead must be non-negative"
  else match halfOf chapterId with
    | .canonical =>
        match viewer with
        | none => .error "Not authenticated"
        | some user => .ok (record rules .canonical user chapterId lastPageRead read now s)
    | .suwayomi =>
        match parseI64 chapterId with
        | none => .error "Internal error"
        | some _ =>
            match viewer with
            | none => .error "Not authenticated"
            | some user => .ok (record rules .suwayomi user chapterId lastPageRead read now s)

/-! ## What is claimed

Exactly the earlier chapters become read, and a second call is not seen. -/

/-- A number that Suwayomi gives to chapters that have none. -/
def isPlaceholder (number : Binary64) : Bool := number.lt (.ofNat 0)

/-- The label of the chapter is a chapter number below `number`. -/
def numbered (rules : NumberRules) (number : Binary64) (c : Chapter) : Bool :=
  c.number.any fun label => (parseChapterNumber rules label).any fun n => n.lt number

/-- The chapters of the work or series. -/
def inSeries (s : Stores) (owner : Id) : Half → List Id
  | .canonical => (s.chapter.rows.filter (mirrors s owner)).map Chapter.externalId
  | .suwayomi =>
      (s.suwayomiChapter.rows.filter fun sc => toString sc.mangaId = owner).map
        fun sc => toString sc.id

/-- The chapters of the work or series that come before `number`. -/
def earlier (rules : NumberRules) (s : Stores) (owner : Id) (number : Binary64) :
    Half → List Id
  | .canonical =>
      (s.chapter.rows.filter fun c =>
        mirrors s owner c && c.lang = some "en" && numbered rules number c).map Chapter.externalId
  | .suwayomi =>
      (s.suwayomiChapter.rows.filter fun sc =>
        toString sc.mangaId = owner && !isPlaceholder sc.chapterNumber &&
          sc.chapterNumber.lt number).map fun sc => toString sc.id

/-- The user has finished the chapter, and with it the chapters `before`. -/
structure CatchesUp (user finished : Id) (series before : List Id) (old new : Table Progress) :
    Prop where
  /-- No other user's row changes, and none of another series. -/
  frame : ∀ u c, (u, c) ≠ (user, finished) → ¬(u = user ∧ c ∈ series) →
    new.lookup (u, c) = old.lookup (u, c)
  marks : ∀ c, isRead new user c = true ↔
    isRead old user c = true ∨ c = finished ∨ c ∈ before
  /-- A row keeps its page, and what was read stays as it was. -/
  keeps : ∀ u c r, (u, c) ≠ (user, finished) → old.lookup (u, c) = some r →
    ∃ r', new.lookup (u, c) = some r' ∧ r'.lastPageRead = r.lastPageRead ∧
      (r.read = true → r'.updatedAt = r.updatedAt)

/-- What a row says of the reader. -/
def Progress.shown (r : Progress) : Bool × Int := (r.read, r.lastPageRead)

/-- Finishing the chapter catches up on the earlier ones, and finishing it
again changes nothing the reader sees. -/
structure MarksEarlier (rules : NumberRules) (half : Half) (user : Id) (chapterId : String)
    (lastPageRead : Int) (owner : Id) (number : Binary64) (s : Stores) : Prop where
  once : ∀ now, ∃ t,
    setProgress rules (some user) chapterId lastPageRead true now s = .ok (s.put half t) ∧
      CatchesUp user chapterId (inSeries s owner half) (earlier rules s owner number half)
        (s.progress half) t
  twice : ∀ now now' t,
    setProgress rules (some user) chapterId lastPageRead true now s = .ok (s.put half t) →
      ∃ t', setProgress rules (some user) chapterId lastPageRead true now' (s.put half t) =
          .ok (s.put half t') ∧
        ∀ k, (t'.lookup k).map Progress.shown = (t.lookup k).map Progress.shown

/-- The user has yet to read the chapter, and it is not the one just finished. -/
def awaits (s : Stores) (half : Half) (user finished chapter : Id) : Bool :=
  decide (chapter ≠ finished) && !isRead (s.progress half) user chapter

/-- The English row of the work. -/
def english (s : Stores) (workId : Id) (c : Chapter) : Bool :=
  mirrors s workId c && decide (c.lang = some "en")

/-- Nothing that the statement sweeps in is other than a chapter number, and no
chapter number is left out: a chapter to come whose label starts with a digit
and is cast below `number` has a label that parses below it, and the other way
round. -/
structure SettledCanonical (rules : NumberRules) (user finished workId : Id)
    (number : Binary64) (s : Stores) : Prop where
  ordinals : ∀ c ∈ s.chapter.rows, english s workId c = true →
    awaits s .canonical user finished c.externalId = true → sweeps rules number c = true →
      ∃ d ∈ s.chapter.rows, english s workId d = true ∧ d.externalId = c.externalId ∧
        numbered rules number d = true
  padded : ∀ c ∈ s.chapter.rows, english s workId c = true →
    awaits s .canonical user finished c.externalId = true → numbered rules number c = true →
      ∃ d ∈ s.chapter.rows, english s workId d = true ∧ d.externalId = c.externalId ∧
        sweeps rules number d = true

/-- No chapter to come has a placeholder below `number`. -/
def SettledSuwayomi (user finished seriesId : Id) (number : Binary64) (s : Stores) : Prop :=
  ∀ sc ∈ s.suwayomiChapter.rows, toString sc.mangaId = seriesId →
    awaits s .suwayomi user finished (toString sc.id) = true →
      sc.chapterNumber.lt number = true → isPlaceholder sc.chapterNumber = false

/-- What the rows of an owner have to be for a call to sweep in the earlier chapters and
no others. -/
def Settled (rules : NumberRules) (half : Half) (user finished owner : Id)
    (number : Binary64) (s : Stores) : Prop :=
  match half with
  | .canonical => SettledCanonical rules user finished owner number s
  | .suwayomi => SettledSuwayomi user finished owner number s

/-! ## What a call does

The writes, and when the call comes to them. -/

section Calls

variable {rules : NumberRules} {s : Stores} {half : Half} {user owner c u : Id}
  {chapterId now : String} {lastPageRead : Int} {number : Binary64} {t : Table Progress}
  {chapters series before : List Id}

theorem lookup_finish {row : Progress} :
    (finish row t).lookup (u, c) =
      if (row.userId, row.chapterId) = (u, c) then
        some (Table.merged overwrite (t.lookup (u, c)) row)
      else t.lookup (u, c) := by
  unfold finish
  rw [Table.lookup_upsert]
  rfl

/-- What the chapter that was read shows afterwards. -/
theorem shown_merged_overwrite (old : Option Progress) (row : Progress) :
    (Table.merged overwrite old row).shown = (row.read, row.lastPageRead) := by
  cases old <;> rfl

theorem isRead_finish {row : Progress} (hread : row.read = true) :
    isRead (finish row t) u c = true ↔
      isRead t u c = true ∨ (u = row.userId ∧ c = row.chapterId) := by
  unfold isRead
  rw [lookup_finish]
  by_cases hk : (row.userId, row.chapterId) = (u, c)
  · obtain ⟨rfl, rfl⟩ := Prod.mk.inj hk
    rw [if_pos rfl, Option.any_some]
    have hshown := congrArg Prod.fst
      (shown_merged_overwrite (t.lookup (row.userId, row.chapterId)) row)
    have hshown : (Table.merged overwrite (t.lookup (row.userId, row.chapterId)) row).read =
        row.read := hshown
    simp [hshown, hread]
  · rw [if_neg hk]
    have hne : ¬(u = row.userId ∧ c = row.chapterId) := by
      rintro ⟨rfl, rfl⟩
      exact hk rfl
    simp [hne]

/-- The row of the chapter that was read, and then those of the chapters that
were swept in. -/
def afterFinish (user owner chapterId : Id) (lastPageRead : Int) (now : String)
    (chapters : List Id) (t : Table Progress) : Table Progress :=
  catchUp user owner now chapters
    (finish ⟨user, chapterId, owner, lastPageRead, true, now⟩ t)

theorem isRead_afterFinish :
    isRead (afterFinish user owner chapterId lastPageRead now chapters t) user c = true ↔
      isRead t user c = true ∨ c = chapterId ∨ c ∈ chapters := by
  unfold afterFinish
  rw [isRead_catchUp, isRead_finish rfl]
  simp [or_assoc]

/-- The tables' part: the catch-up is exact when the chapters that are swept in
are, of those still to be read, the earlier ones. -/
theorem catchesUp_iff (hchapters : ∀ c ∈ chapters, c ∈ series) :
    CatchesUp user chapterId series before t
        (afterFinish user owner chapterId lastPageRead now chapters t) ↔
      ∀ c, c ≠ chapterId → isRead t user c = false → (c ∈ chapters ↔ c ∈ before) := by
  constructor
  · intro h c hne hunread
    have hmarks := h.marks c
    rw [isRead_afterFinish, hunread] at hmarks
    simpa [hne] using hmarks
  · intro h
    constructor
    · intro u c hne hoff
      have hunswept : ¬(u = user ∧ c ∈ chapters) := fun hswept =>
        hoff ⟨hswept.1, hchapters c hswept.2⟩
      unfold afterFinish
      rw [lookup_catchUp, if_neg hunswept, lookup_finish, if_neg (Ne.symm hne)]
    · intro c
      rw [isRead_afterFinish]
      by_cases hne : c = chapterId
      · simp [hne]
      · cases hread : isRead t user c with
        | true => simp
        | false => simp [hne, h c hne hread]
    · intro u c r hne hr
      have hfinished : (finish ⟨user, chapterId, owner, lastPageRead, true, now⟩ t).lookup
          (u, c) = some r := by
        rw [lookup_finish, if_neg (Ne.symm hne)]
        exact hr
      obtain ⟨r', hr', hpage, hsame⟩ := lookup_catchUp_of_some hfinished
      exact ⟨r', hr', hpage, fun hread => by rw [hsame hread]⟩

/-- A chapter that is read is left by a catch-up as it is. -/
theorem lookup_catchUp_of_read (h : c ∈ chapters → isRead t u c = true) :
    (catchUp user owner now chapters t).lookup (u, c) = t.lookup (u, c) := by
  rw [lookup_catchUp]
  by_cases hmem : u = user ∧ c ∈ chapters
  · have hread := h hmem.2
    unfold isRead at hread
    rw [Option.any_eq_true] at hread
    obtain ⟨r, hr, hread⟩ := hread
    rw [if_pos hmem, hr, Table.merged_some, markRead, if_pos hread]
  · rw [if_neg hmem]

/-- The second time the reader sees no difference. -/
theorem shown_afterFinish_again {now' : String} (k : Id × Id) :
    ((afterFinish user owner chapterId lastPageRead now' chapters
        (afterFinish user owner chapterId lastPageRead now chapters t)).lookup k).map
          Progress.shown =
      ((afterFinish user owner chapterId lastPageRead now chapters t).lookup k).map
        Progress.shown := by
  obtain ⟨u, c⟩ := k
  by_cases hu : u = user
  · rw [hu]
    have hread : c ∈ chapters →
        isRead (finish ⟨user, chapterId, owner, lastPageRead, true, now'⟩
          (afterFinish user owner chapterId lastPageRead now chapters t)) user c = true := by
      intro hc
      exact (isRead_finish rfl).mpr (Or.inl (isRead_afterFinish.mpr (Or.inr (Or.inr hc))))
    have hfirst : ∀ t now, (afterFinish user owner chapterId lastPageRead now chapters t).lookup
        (user, c) = if c = chapterId then
          some (Table.merged overwrite (t.lookup (user, c))
            ⟨user, chapterId, owner, lastPageRead, true, now⟩)
        else (catchUp user owner now chapters t).lookup (user, c) := by
      intro t now
      unfold afterFinish
      by_cases hc : c = chapterId
      · rw [if_pos hc, lookup_catchUp_of_read fun _ => (isRead_finish rfl).mpr
          (Or.inr ⟨rfl, hc⟩), lookup_finish, if_pos (by rw [hc])]
      · have hne : ¬(user, chapterId) = (user, c) := fun heq => hc (Prod.mk.inj heq).2.symm
        rw [if_neg hc, lookup_catchUp, lookup_catchUp, lookup_finish, if_neg hne]
    by_cases hc : c = chapterId
    · rw [hfirst, if_pos hc, hfirst, if_pos hc, Option.map_some, Option.map_some,
        shown_merged_overwrite, shown_merged_overwrite]
    · rw [hfirst, if_neg hc, lookup_catchUp_of_read]
      intro hmem
      exact isRead_afterFinish.mpr (Or.inr (Or.inr hmem))
  · have hother : ∀ t now, (afterFinish user owner chapterId lastPageRead now chapters t).lookup
        (u, c) = t.lookup (u, c) := by
      intro t now
      have hne : ¬(user, chapterId) = (u, c) := fun heq => hu (Prod.mk.inj heq).1.symm
      unfold afterFinish
      rw [lookup_catchUp, if_neg fun h => hu h.1, lookup_finish, if_neg hne]
    rw [hother]

/-- A chapter with an owner and a number is finished, and the earlier ones are caught up
on. -/
theorem record_eq (howner : ownerOf rules s chapterId half = some (owner, some number))
    (hnamed : owner ≠ "") :
    record rules half user chapterId lastPageRead true now s =
      s.put half (afterFinish user owner chapterId lastPageRead now
        (swept rules s owner number half) (s.progress half)) := by
  unfold record
  rw [howner, Option.getD_some]
  dsimp only
  rw [if_pos rfl]
  unfold catchUpHalf
  rw [if_neg hnamed]
  cases half <;> rfl

/-- The mappings of works name them, and a number names its series. -/
theorem owner_ne (howner : ownerOf rules s chapterId half = some (owner, some number)) :
    owner ≠ "" := by
  cases half with
  | canonical =>
      obtain ⟨found, hfound, heq⟩ := Option.map_eq_some_iff.mp howner
      obtain ⟨c, -, hfind⟩ := List.exists_of_findSome?_eq_some hfound
      obtain ⟨ss, hss, rfl⟩ := Option.map_eq_some_iff.mp hfind
      obtain ⟨rfl, -⟩ := Prod.mk.inj heq
      exact s.named ss (List.mem_of_find?_eq_some hss)
  | suwayomi =>
      obtain ⟨sc, -, heq⟩ := Option.map_eq_some_iff.mp howner
      obtain ⟨rfl, -⟩ := Prod.mk.inj heq
      intro hempty
      have hparse := parseI64_toString sc.mangaFits
      rw [hempty] at hparse
      contradiction

/-- A call that has an owner and a number runs both statements. -/
theorem setProgress_eq (hpage : 0 ≤ lastPageRead) (hhalf : halfOf chapterId = half)
    (howner : ownerOf rules s chapterId half = some (owner, some number)) :
    setProgress rules (some user) chapterId lastPageRead true now s =
      .ok (s.put half (afterFinish user owner chapterId lastPageRead now
        (swept rules s owner number half) (s.progress half))) := by
  unfold setProgress
  rw [if_neg (by omega), hhalf]
  cases half with
  | canonical =>
      dsimp only
      rw [record_eq howner (owner_ne howner)]
  | suwayomi =>
      dsimp only
      cases hparse : parseI64 chapterId with
      | none =>
          rw [ownerOf, hparse] at howner
          contradiction
      | some id =>
          dsimp only
          rw [record_eq howner (owner_ne howner)]

/-- The numbers of a series are told apart by their texts. -/
theorem mangaId_eq_iff {sc sc' : MangaChapter} :
    sc.mangaId = (parseI64 (toString sc'.mangaId)).getD (-1) ↔
      toString sc.mangaId = toString sc'.mangaId := by
  rw [parseI64_toString sc'.mangaFits, Option.getD_some]
  constructor
  · intro h
    rw [h]
  · intro h
    have hsame := congrArg parseI64 h
    rw [parseI64_toString sc.mangaFits, parseI64_toString sc'.mangaFits] at hsame
    exact Option.some.inj hsame

end Calls

/-! ## When a call catches up exactly

The chapters that are swept in, against those that are earlier. -/

section Exact

variable {rules : NumberRules} {s : Stores} {half : Half} {user owner c : Id}
  {chapterId : String} {lastPageRead : Int} {number : Binary64}

theorem awaits_iff :
    awaits s half user chapterId c = true ↔
      c ≠ chapterId ∧ isRead (s.progress half) user c = false := by
  simp [awaits]

/-- The canonical statement takes the English chapters of the work whose labels SQLite
reads as less. -/
theorem mem_swept_canonical :
    c ∈ swept rules s owner number .canonical ↔
      ∃ d ∈ s.chapter.rows, english s owner d = true ∧ d.externalId = c ∧
        sweeps rules number d = true := by
  simp only [swept, english, List.mem_map, List.mem_filter, Bool.and_eq_true]
  constructor
  · rintro ⟨d, ⟨hd, henglish, hsweeps⟩, hid⟩
    exact ⟨d, hd, henglish, hid, hsweeps⟩
  · rintro ⟨d, hd, henglish, hid, hsweeps⟩
    exact ⟨d, ⟨hd, henglish, hsweeps⟩, hid⟩

/-- The earlier ones are those whose labels are numbers, and less. -/
theorem mem_earlier_canonical :
    c ∈ earlier rules s owner number .canonical ↔
      ∃ d ∈ s.chapter.rows, english s owner d = true ∧ d.externalId = c ∧
        numbered rules number d = true := by
  simp only [earlier, english, List.mem_map, List.mem_filter, Bool.and_eq_true]
  constructor
  · rintro ⟨d, ⟨hd, henglish, hnumbered⟩, hid⟩
    exact ⟨d, hd, henglish, hid, hnumbered⟩
  · rintro ⟨d, hd, henglish, hid, hnumbered⟩
    exact ⟨d, ⟨hd, henglish, hnumbered⟩, hid⟩

/-- The Suwayomi statement compares the numbers that are stored. -/
theorem mem_swept_suwayomi {sc : MangaChapter} (howner : owner = toString sc.mangaId) :
    c ∈ swept rules s owner number .suwayomi ↔
      ∃ d ∈ s.suwayomiChapter.rows, toString d.mangaId = owner ∧ toString d.id = c ∧
        d.chapterNumber.lt number = true := by
  simp only [swept, List.mem_map, List.mem_filter, Bool.and_eq_true, decide_eq_true_eq]
  constructor
  · rintro ⟨d, ⟨hd, hmanga, hlt⟩, hid⟩
    rw [howner, mangaId_eq_iff] at hmanga
    exact ⟨d, hd, hmanga.trans howner.symm, hid, hlt⟩
  · rintro ⟨d, hd, hmanga, hid, hlt⟩
    refine ⟨d, ⟨hd, ?_, hlt⟩, hid⟩
    rw [howner, mangaId_eq_iff]
    exact hmanga.trans howner

theorem mem_earlier_suwayomi :
    c ∈ earlier rules s owner number .suwayomi ↔
      ∃ d ∈ s.suwayomiChapter.rows, toString d.mangaId = owner ∧ toString d.id = c ∧
        d.chapterNumber.lt number = true ∧ isPlaceholder d.chapterNumber = false := by
  simp only [earlier, List.mem_map, List.mem_filter, Bool.and_eq_true, decide_eq_true_eq,
    Bool.not_eq_true']
  constructor
  · rintro ⟨d, ⟨hd, ⟨hmanga, hreal⟩, hlt⟩, hid⟩
    exact ⟨d, hd, hmanga, hid, hlt, hreal⟩
  · rintro ⟨d, hd, hmanga, hid, hlt, hreal⟩
    exact ⟨d, ⟨hd, ⟨hmanga, hreal⟩, hlt⟩, hid⟩

/-- The owner of a numeric chapter is a series. -/
theorem exists_manga (howner : ownerOf rules s chapterId .suwayomi = some (owner, some number)) :
    ∃ sc : MangaChapter, owner = toString sc.mangaId := by
  obtain ⟨sc, -, heq⟩ := Option.map_eq_some_iff.mp howner
  exact ⟨sc, (Prod.mk.inj heq).1.symm⟩

theorem mem_inSeries_of_swept
    (howner : ownerOf rules s chapterId half = some (owner, some number)) :
    ∀ c ∈ swept rules s owner number half, c ∈ inSeries s owner half := by
  intro c hc
  cases half with
  | canonical =>
      obtain ⟨d, hd, henglish, rfl, -⟩ := mem_swept_canonical.mp hc
      unfold english at henglish
      rw [Bool.and_eq_true] at henglish
      exact List.mem_map.mpr ⟨d, List.mem_filter.mpr ⟨hd, henglish.1⟩, rfl⟩
  | suwayomi =>
      obtain ⟨sc, hsc⟩ := exists_manga howner
      obtain ⟨d, hd, hmanga, rfl, -⟩ := (mem_swept_suwayomi hsc).mp hc
      exact List.mem_map.mpr ⟨d, List.mem_filter.mpr ⟨hd, decide_eq_true hmanga⟩, rfl⟩

/-- The condition on the rows is one on the chapters that are to come. -/
theorem settled_iff (howner : ownerOf rules s chapterId half = some (owner, some number)) :
    Settled rules half user chapterId owner number s ↔
      ∀ c, c ≠ chapterId → isRead (s.progress half) user c = false →
        (c ∈ swept rules s owner number half ↔ c ∈ earlier rules s owner number half) := by
  cases half with
  | canonical =>
      simp only [mem_swept_canonical, mem_earlier_canonical]
      constructor
      · rintro ⟨hordinals, hpadded⟩ c hne hunread
        have hawaits : awaits s .canonical user chapterId c = true :=
          awaits_iff.mpr ⟨hne, hunread⟩
        constructor
        · rintro ⟨d, hd, henglish, rfl, hsweeps⟩
          exact hordinals d hd henglish hawaits hsweeps
        · rintro ⟨d, hd, henglish, rfl, hnumbered⟩
          exact hpadded d hd henglish hawaits hnumbered
      · intro h
        constructor
        · intro c hc henglish hawaits hsweeps
          obtain ⟨hne, hunread⟩ := awaits_iff.mp hawaits
          exact (h c.externalId hne hunread).mp ⟨c, hc, henglish, rfl, hsweeps⟩
        · intro c hc henglish hawaits hnumbered
          obtain ⟨hne, hunread⟩ := awaits_iff.mp hawaits
          exact (h c.externalId hne hunread).mpr ⟨c, hc, henglish, rfl, hnumbered⟩
  | suwayomi =>
      obtain ⟨sc, hsc⟩ := exists_manga howner
      simp only [mem_swept_suwayomi hsc, mem_earlier_suwayomi]
      constructor
      · intro h c hne hunread
        constructor
        · rintro ⟨d, hd, hmanga, rfl, hlt⟩
          have hawaits : awaits s .suwayomi user chapterId (toString d.id) = true :=
            awaits_iff.mpr ⟨hne, hunread⟩
          exact ⟨d, hd, hmanga, rfl, hlt, h d hd hmanga hawaits hlt⟩
        · rintro ⟨d, hd, hmanga, rfl, hlt, -⟩
          exact ⟨d, hd, hmanga, rfl, hlt⟩
      · intro h d hd hmanga hawaits hlt
        obtain ⟨hne, hunread⟩ := awaits_iff.mp hawaits
        obtain ⟨d', hd', -, hid, -, hreal⟩ :=
          (h (toString d.id) hne hunread).mp ⟨d, hd, hmanga, rfl, hlt⟩
        -- an id is the id of one cached chapter
        have hsame : d' = d := by
          have hparse := congrArg parseI64 hid
          rw [parseI64_toString d'.idFits, parseI64_toString d.idFits] at hparse
          exact Table.eq_of_clash hd' hd (decide_eq_true (Option.some.inj hparse))
        rw [← hsame]
        exact hreal

/-- What a call leaves is known, so what is claimed of it is too. -/
theorem eq_afterFinish (hpage : 0 ≤ lastPageRead) (hhalf : halfOf chapterId = half)
    (howner : ownerOf rules s chapterId half = some (owner, some number)) {now : String}
    {t : Table Progress}
    (ht : setProgress rules (some user) chapterId lastPageRead true now s = .ok (s.put half t)) :
    t = afterFinish user owner chapterId lastPageRead now
      (swept rules s owner number half) (s.progress half) := by
  rw [setProgress_eq hpage hhalf howner] at ht
  have hput := congrArg (Stores.progress · half) (Except.ok.inj ht)
  simpa using hput.symm

/-- Of the chapters to come, an exact call sweeps in the earlier ones. -/
theorem MarksEarlier.mem_swept_iff
    (h : MarksEarlier rules half user chapterId lastPageRead owner number s)
    (hpage : 0 ≤ lastPageRead) (hhalf : halfOf chapterId = half)
    (howner : ownerOf rules s chapterId half = some (owner, some number)) :
    ∀ c, c ≠ chapterId → isRead (s.progress half) user c = false →
      (c ∈ swept rules s owner number half ↔ c ∈ earlier rules s owner number half) := by
  obtain ⟨t, ht, hcatches⟩ := h.once ""
  rw [eq_afterFinish hpage hhalf howner ht] at hcatches
  exact (catchesUp_iff (mem_inSeries_of_swept howner)).mp hcatches

/-- **What finishing a chapter catches up on.**  It is exactly the earlier chapters of
its half if and only if the labels of the chapters still to come settle it: the
statement casts a label to a number and asks only for a digit in front, and the cast
reads what it can of any such label. -/
theorem marksEarlier_iff (hpage : 0 ≤ lastPageRead) (hhalf : halfOf chapterId = half)
    (howner : ownerOf rules s chapterId half = some (owner, some number)) :
    MarksEarlier rules half user chapterId lastPageRead owner number s ↔
      Settled rules half user chapterId owner number s := by
  constructor
  · intro h
    exact (settled_iff howner).mpr (h.mem_swept_iff hpage hhalf howner)
  · intro hsettled
    constructor
    · intro now
      refine ⟨_, setProgress_eq hpage hhalf howner, ?_⟩
      exact (catchesUp_iff (mem_inSeries_of_swept howner)).mpr ((settled_iff howner).mp hsettled)
    · intro now now' t ht
      have howner' : ownerOf rules (s.put half t) chapterId half = some (owner, some number) := by
        cases half <;> exact howner
      have hswept : swept rules (s.put half t) owner number half =
          swept rules s owner number half := by
        cases half <;> rfl
      refine ⟨afterFinish user owner chapterId lastPageRead now'
        (swept rules s owner number half) t, ?_, ?_⟩
      · rw [setProgress_eq hpage hhalf howner', put_put, progress_put, hswept]
      · intro k
        rw [eq_afterFinish hpage hhalf howner ht]
        exact shown_afterFinish_again k

/-- Labels on which the two sides agree: they start with a digit if they parse,
and are then cast to the number they parse to. -/
structure Plain (rules : NumberRules) (label : String) : Prop where
  digits : leadsWithDigit label = (parseChapterNumber rules label).isSome
  same : ∀ n, parseChapterNumber rules label = some n → rules.castReal label = n

theorem sweeps_of_plain {d : Chapter} (h : ∀ label, d.number = some label → Plain rules label) :
    sweeps rules number d = numbered rules number d := by
  unfold sweeps numbered
  cases hlabel : d.number with
  | none => rfl
  | some label =>
      obtain ⟨hdigits, hsame⟩ := h label hlabel
      rw [Option.any_some, Option.any_some, hdigits]
      cases hparse : parseChapterNumber rules label with
      | none => rfl
      | some n =>
          rw [hsame n hparse]
          simp

/-- Plain labels settle a call. -/
theorem settledCanonical_of_plain
    (h : ∀ d ∈ s.chapter.rows, english s owner d = true →
      ∀ label, d.number = some label → Plain rules label) :
    SettledCanonical rules user chapterId owner number s where
  ordinals d hd henglish _ hsweeps :=
    ⟨d, hd, henglish, rfl, sweeps_of_plain (h d hd henglish) ▸ hsweeps⟩
  padded d hd henglish _ hnumbered :=
    ⟨d, hd, henglish, rfl, (sweeps_of_plain (h d hd henglish)).symm ▸ hnumbered⟩

end Exact

/-! ## Labels

Whole numbers, and the labels on which the two readings differ. -/

/-- The value of a run of digits. -/
def digitsValue (digits : List Char) : Nat :=
  digits.foldl (fun n c => 10 * n + (c.toNat - 48)) 0

/-- Both readings, on labels without a point, a sign or an exponent. -/
def wholeNumbers : NumberRules where
  parse text :=
    if text ≠ "" ∧ text.toList.all Char.isDigit then
      some (.ofNat (digitsValue text.toList))
    else none
  castReal label :=
    .ofNat (digitsValue ((label.toList.dropWhile (· = ' ')).takeWhile Char.isDigit))

/-- An English chapter of the work's one source, with a label. -/
def mirrored (externalId label : String) : Chapter :=
  { id := "c-" ++ externalId, sourceSeriesId := "s", externalId := externalId
    number := some label, volume := none, lang := some "en", title := none
    publishedAt := none, readableAt := none, externalUrl := none, scanlator := none
    chapterKey := none, label := none }

/-- Two chapters of one work, `u5` the fifth. -/
def twoChapters (label : String) : Stores where
  sourceSeries := ⟨[⟨"s", "w", "mangadex", "mangadex", "md", none, false, none⟩], by decide⟩
  chapter := ⟨[mirrored "u5" "5", mirrored "u2" label], by
    rw [List.pairwise_pair]
    rfl⟩
  suwayomiChapter := .empty
  canonicalProgress := .empty
  suwayomiProgress := .empty
  named := by
    intro ss hss
    rw [List.mem_singleton.mp hss]
    decide

/-- Two cached chapters of one series, `7005` the fifth. -/
def twoCached (number : Binary64) : Stores where
  sourceSeries := .empty
  chapter := .empty
  suwayomiChapter := ⟨[⟨7005, 700, .ofNat 5, by decide, by decide⟩,
    ⟨7002, 700, number, by decide, by decide⟩], by
      rw [List.pairwise_pair]
      rfl⟩
  canonicalProgress := .empty
  suwayomiProgress := .empty
  named := fun ss hss => absurd hss (Table.not_mem_empty ss)

theorem marksEarlier_second :
    MarksEarlier wholeNumbers .canonical "u" "u5" 9 "w" (.ofNat 5) (twoChapters "2") ∧
      MarksEarlier wholeNumbers .suwayomi "u" "7005" 9 "700" (.ofNat 5)
        (twoCached (.ofNat 2)) := by
  constructor
  · apply (marksEarlier_iff (by decide) (by decide +kernel) (by decide +kernel)).mpr
    exact ⟨by decide +kernel, by decide +kernel⟩
  · apply (marksEarlier_iff (by decide) (by decide +kernel) (by decide +kernel)).mpr
    show SettledSuwayomi _ _ _ _ _
    unfold SettledSuwayomi
    decide +kernel

/-- An ordinal is swept in, a padded number is left out, and so is the `-1` of
a chapter without a number swept in. -/
theorem not_marksEarlier_labels :
    ¬MarksEarlier wholeNumbers .canonical "u" "u5" 9 "w" (.ofNat 5) (twoChapters "2nd") ∧
      ¬MarksEarlier wholeNumbers .canonical "u" "u5" 9 "w" (.ofNat 5) (twoChapters " 2") ∧
      ¬MarksEarlier wholeNumbers .suwayomi "u" "7005" 9 "700" (.ofNat 5)
        (twoCached (.finite true Binary64.one)) := by
  refine ⟨?_, ?_, ?_⟩
  · intro h
    have hsame := h.mem_swept_iff (by decide) (by decide +kernel) (by decide +kernel) "u2"
      (by decide) (by decide +kernel)
    exact absurd (hsame.mp (by decide +kernel)) (by decide +kernel)
  · intro h
    have hsame := h.mem_swept_iff (by decide) (by decide +kernel) (by decide +kernel) "u2"
      (by decide) (by decide +kernel)
    exact absurd (hsame.mpr (by decide +kernel)) (by decide +kernel)
  · intro h
    have hsame := h.mem_swept_iff (by decide) (by decide +kernel) (by decide +kernel) "7002"
      (by decide) (by decide +kernel)
    exact absurd (hsame.mp (by decide +kernel)) (by decide +kernel)

end Komika.Graphql.CatchUp
