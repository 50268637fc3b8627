import Komika.Reader.ResolveWork

/-!
# Opening a chapter

`getReaderChapter` (`apps/reader/src/lib/data/source.ts`): the view that the reader shows
of a series, for the chapter that is asked for or the first unread one.

A chapter is asked for by its id, and a work is read from one of several sources that do
not share ids.  List, order, page resolver and source change together when another source
turns out to have it.

* `findChapterOwner_spec` — where a chapter is found;
* `shows_openTarget` — a view of a chapter is of one source throughout;
* `opens_getReaderChapter` — of a work, the chapter that is asked for is opened or none
  is.  A series that is no work falls back to its first unread chapter.

* `neighbours_buildReaderView`, `shows_buildReaderView` — the view that is built from a
  reading;
* `locate_spec`, `chosen_spec` — the chapter that is read, and from where;
* `readsFrom_activeReading` — a reading is of one source, whatever the URL says.
-/

namespace Komika.Reader.OpenChapter

open Komika.Lib Komika.Reader.TranslatorSelect Komika.Reader.ResolveWork
open Komika.Lib.EcmaScript (truthy trim)

/-! ## The code

From the URL to the view. -/

/-- A source, and the chapter that it has. -/
structure ChapterOwner where
  candidate : Candidate
  chapter : Chapter
  switched : Bool

/-- `findChapterOwner`: the source that has the chapter, the selected one before the
others, and whether the reader is switched to another. -/
def findChapterOwner (candidates : List Candidate) (chapterId : String)
    (selectedKey : Option String) : Option ChapterOwner :=
  if chapterId = "" then none
  else
    let selected := (truthy selectedKey).bind fun key =>
      candidates.find? fun c => c.view.key = key
    let find (c : Candidate) (switched : Bool) : Option ChapterOwner :=
      (c.chapters.val.find? fun ch => ch.id = chapterId).map fun hit => ⟨c, hit, switched⟩
    (selected.bind fun c => find c false).or
      (candidates.findSome? fun c =>
        if selected.any fun s => c.view.key = s.view.key then none
        else find c (some c.view.key ≠ selectedKey))

/-- A page of the view. -/
structure ReaderPage where
  url : String
  index : Nat
  ratio : String
  label : String
  dim : String

/-- A link of the view. -/
structure ChapterRef where
  id : String
  n : Reach
  title : String
  externalUrl : Option String

/-- The sources that the reader may choose from. -/
structure TranslatorMeta where
  translators : List TranslatorOption
  selectedTranslatorKey : Option String
  workId : Option String

/-- `NO_TRANSLATORS`, for a series that is no work. -/
def noTranslators : TranslatorMeta := ⟨[], none, none⟩

/-- `ReaderView`: what the reader shows. -/
structure ReaderView extends TranslatorMeta where
  seriesId : String
  seriesTitle : String
  chapterId : Option String
  chNum : Reach
  chTitle : String
  pages : List ReaderPage
  chapters : List ChapterRef
  prevChapterId : Option String
  nextChapterId : Option String
  readingSrc : Option String
  externalUrl : Option String

/-- `emptyReader`: the view that shows nothing, with no chapter and no pages. -/
def emptyReader (seriesId : String) (tmeta : TranslatorMeta) : ReaderView :=
  { tmeta with
    seriesId := seriesId
    seriesTitle := ""
    chapterId := none
    chNum := ⟨.ofNat 0, nofun⟩
    chTitle := ""
    pages := []
    chapters := []
    prevChapterId := none
    nextChapterId := none
    readingSrc := none
    externalUrl := none }

/-- The order of the list: the server's, or by number. -/
def inOrder (preserveOrder : Bool) (chs : List Chapter) : List Chapter :=
  if preserveOrder then chs else chs.mergeSort fun a b => a.number.val.le b.number.val

/-- `asc.find((c) => !c.read) ?? asc[0]`. -/
def firstUnread (asc : List Chapter) : Option Chapter :=
  (asc.find? fun c => !c.read).or asc.head?

/-- `String(index + 1).padStart(2, '0')`. -/
def pageLabel (index : Nat) : String :=
  let text := toString (index + 1)
  if text.length < 2 then "0" ++ text else text

/-- How the pages of a chapter are asked for. -/
inductive Resolver where
  | canonicalPages
  | pages
deriving DecidableEq

/-- A view, and what was asked of the backend for it. -/
structure Opened where
  requests : List (Resolver × String)
  view : ReaderView

/-- What the reader reads from. -/
structure Reading where
  chs : Chapters
  preserveOrder : Bool
  spine : Bool
  src : Option String
  selectedTranslatorKey : String
  /-- The key that `findChapterOwner` is given. -/
  ownKey : Option String

section Code

variable (app : App)

/-- `externalChapterHref`: the link of an off-site chapter, if it is an http URL. -/
def externalChapterHref (raw : Option String) : Option String :=
  (truthy (raw.map fun text => String.ofList (trim text.toList))).bind fun trimmed =>
    (app.parseUrl trimmed).bind fun url =>
      if url.1 = "http:" ∨ url.1 = "https:" then some url.2 else none

/-- `chapterExternalUrl`: the link of a chapter; one that has it is read elsewhere. -/
def chapterExternalUrl (c : Chapter) : Option String := externalChapterHref app c.externalUrl

/-- The chapter is hosted off-site. -/
def offSite (c : Chapter) : Bool := (truthy (chapterExternalUrl app c)).isSome

/-- The title of a chapter, or its number. -/
def chapterTitle (c : Chapter) : String :=
  (truthy c.title).getD ("Chapter " ++ app.numberText c.number)

/-- A link to a chapter. -/
def chapterRef (c : Chapter) : ChapterRef :=
  ⟨c.id, c.number, chapterTitle app c, chapterExternalUrl app c⟩

/-- `resolvePageUrls`: the URL of each page, empty where it does not resolve. -/
def resolvePageUrls (pages : List Page) : List String :=
  pages.map fun p => (app.resolvePage p).getD ""

/-- `buildReaderView`: the view of one chapter within its list, with the chapters before
and after it in reading order. -/
def buildReaderView (seriesId : String) (chs : List Chapter) (preserveOrder : Bool)
    (target : Chapter) (urls : List String) (seriesTitle : String) (tmeta : TranslatorMeta)
    (readingSrc : Option String) : ReaderView :=
  let asc := inOrder preserveOrder chs
  let idx := asc.findIdx? fun c => c.id = target.id
  { tmeta with
    seriesId := seriesId
    seriesTitle := if seriesTitle = "" then "Reader" else seriesTitle
    chapterId := some target.id
    chNum := target.number
    chTitle := chapterTitle app target
    pages := urls.mapIdx fun index url => ⟨url, index, "800 / 1200", pageLabel index, ""⟩
    chapters := asc.reverse.map (chapterRef app)
    prevChapterId := idx.bind fun i => if 0 < i then asc[i - 1]?.map Chapter.id else none
    nextChapterId := idx.bind fun i => asc[i + 1]?.map Chapter.id
    readingSrc := readingSrc
    externalUrl := chapterExternalUrl app target }

/-- The resolver of the pages, of the spine or not. -/
def resolverFor (spine : Bool) : Resolver :=
  if spine && app.backend.canonicalPages.isSome then .canonicalPages else .pages

/-- What a resolver answers. -/
def answer (id : String) : Resolver → Option (List Page)
  | .canonicalPages => app.backend.canonicalPages.bind fun f => f id
  | .pages => app.backend.pages id

/-- The end of `getReaderChapter`; `requested` is the id of the series that was asked for. -/
def openTarget (requested seriesId : String) (reading : Reading) (target : Chapter)
    (title : String) (tmeta : TranslatorMeta) (readingSrc : Option String) : Opened :=
  let view (urls : List String) : ReaderView :=
    buildReaderView app seriesId reading.chs.val reading.preserveOrder target urls title tmeta
      readingSrc
  if offSite app target then ⟨[], view []⟩
  else
    let resolver := resolverFor app reading.spine
    match answer app target.id resolver with
    | none => ⟨[(resolver, target.id)], emptyReader requested noTranslators⟩
    | some pages => ⟨[(resolver, target.id)], view (resolvePageUrls app pages)⟩

/-- The source that is read from: `src` if it names another than the selected one. -/
def activeReading (resolved : ResolvedWork) (srcParam : Option String) : Reading :=
  let selected := resolved.selected
  match (truthy srcParam).filter fun src => some src ≠ selected.suwayomiMangaId with
  | some src =>
      let srcTranslator := resolved.translators.find? fun t => t.suwayomiMangaId = some src
      { chs := (app.backend.chapters .read src).getD noChapters
        preserveOrder := false
        spine := false
        src := some src
        selectedTranslatorKey := (srcTranslator.map fun t => t.key).getD selected.key
        ownKey := srcTranslator.map fun t => t.key }
  | none =>
      { chs := resolved.chapters
        preserveOrder := resolved.preserveOrder
        spine := selected.suwayomiMangaId.isNone
        src := selected.suwayomiMangaId
        selectedTranslatorKey := selected.key
        ownKey := some selected.key }

/-- The chapter that is asked for, in the source that has it. -/
def locate (resolved : ResolvedWork) (reading : Reading) (chapterId : String) :
    Option (Reading × Chapter) :=
  match reading.chs.val.find? fun c => c.id = chapterId with
  | some target => some (reading, target)
  | none =>
      (findChapterOwner resolved.candidates chapterId reading.ownKey).map fun owner =>
        let view := owner.candidate.view
        ({ chs := owner.candidate.chapters
           preserveOrder := view.suwayomiMangaId.isNone
           spine := view.suwayomiMangaId.isNone
           src := view.suwayomiMangaId
           selectedTranslatorKey :=
             if resolved.translators.any fun t => t.key = view.key then view.key
             else translatorKey .mangadex none
           ownKey := reading.ownKey }, owner.chapter)

/-- What is read and opened, of a work. -/
def chosen (resolved : ResolvedWork) (chParam srcParam : Option String) :
    Option (Reading × Chapter) :=
  let reading := activeReading app resolved srcParam
  match truthy chParam with
  | some ch => locate resolved reading ch
  | none =>
      (firstUnread (inOrder reading.preserveOrder reading.chs.val)).map fun target =>
        (reading, target)

/-- `getReaderChapter` of a work that has been resolved. -/
def openWork (seriesId : String) (resolved : ResolvedWork) (chParam srcParam : Option String) :
    Opened :=
  let effectiveId := resolved.canonicalId.getD seriesId
  let tmeta (key : String) : TranslatorMeta := ⟨resolved.translators, some key, some effectiveId⟩
  match chosen app resolved chParam srcParam with
  | none =>
      let key := (activeReading app resolved srcParam).selectedTranslatorKey
      { requests := []
        view :=
          { emptyReader effectiveId (tmeta key) with
            seriesTitle := (resolved.info.map Series.title).getD "" } }
  | some (reading, target) =>
      openTarget app seriesId effectiveId reading target
        ((resolved.info.map Series.title).getD "Reader") (tmeta reading.selectedTranslatorKey)
        reading.src

/-- `getReaderChapter` of a series that is no work. -/
def openSeries (seriesId : String) (chs : Chapters) (chParam : Option String) : Opened :=
  let asc := inOrder false chs.val
  let target := (truthy chParam).bind fun ch => chs.val.find? fun c => c.id = ch
  match target.or (firstUnread asc) with
  | none => ⟨[], emptyReader seriesId noTranslators⟩
  | some target =>
      openTarget app seriesId seriesId ⟨chs, false, false, none, "", none⟩ target
        (((app.backend.series .read seriesId).map Series.title).getD "Reader") noTranslators none

/-- `getReaderChapter`: a work is resolved to its sources first, a series has one list;
where nothing resolves, the empty view. -/
def getReaderChapter (seriesId : String) (chParam srcParam : Option String) : Opened :=
  let fallback : Opened := ⟨[], emptyReader seriesId noTranslators⟩
  if !app.live then fallback
  else if isCanonicalId seriesId then
    match resolveWork app seriesId (app.getPreferredTranslator seriesId) with
    | .error _ => fallback
    | .ok none => fallback
    | .ok (some resolved) => openWork app seriesId resolved chParam srcParam
  else
    match app.backend.chapters .read seriesId with
    | none => fallback
    | some chs => openSeries app seriesId chs chParam

end Code

/-! ## One source throughout

What the parts of a view have in common. -/

/-- The source is the canonical spine. -/
def isSpine : Source → Bool
  | .spine => true
  | _ => false

/-- How a view names the source. -/
def readingSrcOf : Source → Option String
  | .spine => none
  | .suwayomi id => some id
  | .series _ => none

/-- The reading is of the source: its list, its order, its resolver and its name. -/
structure ReadsFrom (app : App) (workId : String) (source : Source) (reading : Reading) :
    Prop where
  listed : ∃ phase, reading.chs = listOf app workId phase source
  preserveOrder : reading.preserveOrder = isSpine source
  spine : reading.spine = isSpine source
  src : reading.src = readingSrcOf source

/-- A view of the chapter, from the source.  An off-site chapter has no pages to ask
for. -/
structure Shows (app : App) (workId : String) (source : Source) (chs : Chapters)
    (target : Chapter) (o : Opened) : Prop where
  listed : ∃ phase, chs = listOf app workId phase source
  mem : target ∈ chs.val
  chapterId : o.view.chapterId = some target.id
  chapters : o.view.chapters =
    (inOrder (isSpine source) chs.val).reverse.map (chapterRef app)
  /-- Before and after the chapter, or the first one that shares its id. -/
  neighbours : ∃ before c after, inOrder (isSpine source) chs.val = before ++ c :: after ∧
    c.id = target.id ∧ o.view.prevChapterId = before.getLast?.map Chapter.id ∧
      o.view.nextChapterId = after.head?.map Chapter.id
  readingSrc : o.view.readingSrc = readingSrcOf source
  offSite : OpenChapter.offSite app target = true → o.requests = [] ∧ o.view.pages = []
  pages : OpenChapter.offSite app target = false →
    o.requests = [(resolverFor app (isSpine source), target.id)] ∧
      ∃ pages, answer app target.id (resolverFor app (isSpine source)) = some pages ∧
        o.view.pages.map ReaderPage.url = resolvePageUrls app pages

/-- No chapter, and no pages. -/
def Closed (o : Opened) : Prop := o.view.chapterId = none ∧ o.view.pages = []

section Views

variable {app : App} {workId : String} {source : Source} {reading : Reading} {target : Chapter}

theorem readsFrom_ofId (id : Option String) {chs : Chapters} {key : String}
    {own : Option String} (h : ∃ phase, chs = listOf app workId phase (.ofId id)) :
    ReadsFrom app workId (.ofId id) ⟨chs, id.isNone, id.isNone, id, key, own⟩ := by
  cases id with
  | none => exact ⟨h, rfl, rfl, rfl⟩
  | some id => exact ⟨h, rfl, rfl, rfl⟩

theorem mem_inOrder {preserveOrder : Bool} {chs : List Chapter} {c : Chapter} :
    c ∈ inOrder preserveOrder chs ↔ c ∈ chs := by
  unfold inOrder
  split
  · exact Iff.rfl
  · exact List.mem_mergeSort

theorem getLast?_eq {α : Type} (xs ys : List α) :
    (if 0 < xs.length then (xs ++ ys)[xs.length - 1]? else none) = xs.getLast? := by
  rw [List.getLast?_eq_getElem?]
  split
  · next hpos => rw [List.getElem?_append_left (by omega)]
  · next hzero => exact (List.getElem?_eq_none (by omega)).symm

/-- The links of a view are to the left and to the right of the first chapter with the
id. -/
theorem neighbours_buildReaderView {seriesId title : String} {chs : List Chapter}
    {preserveOrder : Bool} {urls : List String} {tmeta : TranslatorMeta} {src : Option String}
    (h : target ∈ chs) :
    let view := buildReaderView app seriesId chs preserveOrder target urls title tmeta src
    ∃ before c after, inOrder preserveOrder chs = before ++ c :: after ∧ c.id = target.id ∧
      view.prevChapterId = before.getLast?.map Chapter.id ∧
        view.nextChapterId = after.head?.map Chapter.id := by
  obtain ⟨c, hfind⟩ : ∃ c, (inOrder preserveOrder chs).find? (fun c => c.id = target.id) =
      some c := by
    rw [← Option.isSome_iff_exists, List.find?_isSome]
    exact ⟨target, mem_inOrder.mpr h, decide_eq_true rfl⟩
  obtain ⟨hc, before, after, hsplit, hbefore⟩ := List.find?_eq_some_iff_append.mp hfind
  have hidx : (inOrder preserveOrder chs).findIdx? (fun c => c.id = target.id) =
      some before.length := by
    have hnone : before.findIdx? (fun c => c.id = target.id) = none :=
      List.findIdx?_eq_none_iff.mpr fun b hb => by simpa using hbefore b hb
    rw [hsplit, List.findIdx?_append, hnone, List.findIdx?_cons, if_pos hc]
    simp
  refine ⟨before, c, after, hsplit, of_decide_eq_true hc, ?_, ?_⟩
  · show ((inOrder preserveOrder chs).findIdx? _).bind _ = _
    rw [hidx, Option.bind_some, ← getLast?_eq before (c :: after), hsplit]
    split <;> rfl
  · show ((inOrder preserveOrder chs).findIdx? _).bind _ = _
    rw [hidx, Option.bind_some, hsplit, List.getElem?_append_right (by omega),
      Nat.add_sub_cancel_left, List.getElem?_cons_succ, ← List.head?_eq_getElem?]

theorem urls_buildReaderView {seriesId title : String} {chs : List Chapter}
    {preserveOrder : Bool} {urls : List String} {tmeta : TranslatorMeta} {src : Option String} :
    (buildReaderView app seriesId chs preserveOrder target urls title tmeta src).pages.map
      ReaderPage.url = urls := by
  apply List.ext_getElem?
  intro i
  simp [buildReaderView, Function.comp_def]

/-- What is shown is of the source that is read from, whatever the pages are. -/
theorem shows_buildReaderView {effectiveId title : String} {tmeta : TranslatorMeta}
    {requests : List (Resolver × String)} {urls : List String}
    (hreading : ReadsFrom app workId source reading) (hmem : target ∈ reading.chs.val)
    (hoff : offSite app target = true → requests = [] ∧ urls = [])
    (hon : offSite app target = false →
      requests = [(resolverFor app reading.spine, target.id)] ∧
        ∃ pages, answer app target.id (resolverFor app reading.spine) = some pages ∧
          urls = resolvePageUrls app pages) :
    Shows app workId source reading.chs target
      ⟨requests, buildReaderView app effectiveId reading.chs.val reading.preserveOrder target urls
        title tmeta reading.src⟩ := by
  obtain ⟨chs, preserveOrder, spine, src, key, own⟩ := reading
  obtain ⟨hlisted, rfl, rfl, rfl⟩ := hreading
  constructor
  case listed => exact hlisted
  case mem => exact hmem
  case chapterId => rfl
  case chapters => rfl
  case neighbours => exact neighbours_buildReaderView hmem
  case readingSrc => rfl
  case offSite =>
    intro h
    obtain ⟨hrequests, rfl⟩ := hoff h
    exact ⟨hrequests, rfl⟩
  case pages =>
    intro h
    obtain ⟨hrequests, pages, hanswer, rfl⟩ := hon h
    exact ⟨hrequests, pages, hanswer, urls_buildReaderView⟩

/-- **A view of a chapter is of one source**; there is none if the pages are not to be
had. -/
theorem shows_openTarget {requested seriesId title : String} {tmeta : TranslatorMeta}
    (hreading : ReadsFrom app workId source reading) (hmem : target ∈ reading.chs.val) :
    Shows app workId source reading.chs target
        (openTarget app requested seriesId reading target title tmeta reading.src) ∨
      openTarget app requested seriesId reading target title tmeta reading.src =
          ⟨[(resolverFor app reading.spine, target.id)], emptyReader requested noTranslators⟩ ∧
        answer app target.id (resolverFor app reading.spine) = none := by
  unfold openTarget
  dsimp only
  split
  · next hoff =>
      apply Or.inl (shows_buildReaderView hreading hmem (fun _ => ⟨rfl, rfl⟩) _)
      intro hon
      rw [hoff] at hon
      contradiction
  · next hon =>
      split
      · next hanswer => exact Or.inr ⟨rfl, hanswer⟩
      · next pages hanswer =>
          apply Or.inl (shows_buildReaderView hreading hmem _ _)
          · exact fun hoff => absurd hoff hon
          · exact fun _ => ⟨rfl, pages, hanswer, rfl⟩

end Views

/-! ## Where a chapter is found

The search over the sources of a work, the selected one first. -/

section Owners

variable {app : App} {workId : String} {candidates : List Candidate} {chapterId : String}
variable {selectedKey : Option String}

theorem findChapterOwner_spec {owner : ChapterOwner}
    (h : findChapterOwner candidates chapterId selectedKey = some owner) :
    owner.candidate ∈ candidates ∧ owner.chapter ∈ owner.candidate.chapters.val ∧
      owner.chapter.id = chapterId := by
  have hfound : ∀ c ∈ candidates, ∀ switched,
      (c.chapters.val.find? fun ch => ch.id = chapterId).map
          (fun hit => ChapterOwner.mk c hit switched) = some owner →
        owner.candidate ∈ candidates ∧ owner.chapter ∈ owner.candidate.chapters.val ∧
          owner.chapter.id = chapterId := by
    rintro c hc switched hmap
    obtain ⟨hit, hfind, rfl⟩ := Option.map_eq_some_iff.mp hmap
    have hid := List.find?_some hfind
    exact ⟨hc, List.mem_of_find?_eq_some hfind, of_decide_eq_true hid⟩
  unfold findChapterOwner at h
  split at h
  · contradiction
  · dsimp only at h
    rcases Option.or_eq_some_iff.mp h with h | ⟨-, h⟩
    · obtain ⟨c, hc, hown⟩ := Option.bind_eq_some_iff.mp h
      obtain ⟨key, -, hkey⟩ := Option.bind_eq_some_iff.mp hc
      exact hfound c (List.mem_of_find?_eq_some hkey) _ hown
    · obtain ⟨c, hc, hown⟩ := List.exists_of_findSome?_eq_some h
      split at hown
      · contradiction
      · exact hfound c hc _ hown

/-- A chapter is not found only if no source has it. -/
theorem findChapterOwner_none (hid : chapterId ≠ "")
    (hsound : ∀ c ∈ candidates, Sound app workId c)
    (h : findChapterOwner candidates chapterId selectedKey = none) :
    ∀ c ∈ candidates, ∀ ch ∈ c.chapters.val, ch.id ≠ chapterId := by
  have hmissed : ∀ c : Candidate, ∀ switched,
      (c.chapters.val.find? fun ch => ch.id = chapterId).map
          (fun hit => ChapterOwner.mk c hit switched) = none →
        ∀ ch ∈ c.chapters.val, ch.id ≠ chapterId := by
    intro c switched hmap ch hch
    have hnot := List.find?_eq_none.mp (Option.map_eq_none_iff.mp hmap) ch hch
    exact fun heq => hnot (decide_eq_true heq)
  unfold findChapterOwner at h
  rw [if_neg hid] at h
  dsimp only at h
  obtain ⟨hselected, hothers⟩ := Option.or_eq_none_iff.mp h
  intro c hc
  have hother := List.findSome?_eq_none_iff.mp hothers c hc
  split at hother
  · next hsame =>
      -- the selected source has the same chapters
      obtain ⟨s, hs, hkey⟩ := (Option.any_eq_true _ _).mp hsame
      obtain ⟨key, -, hfind⟩ := Option.bind_eq_some_iff.mp hs
      have hsmem := List.mem_of_find?_eq_some hfind
      have hid := (hsound c hc).eq_of_key (hsound s hsmem) (of_decide_eq_true hkey)
      rw [(hsound c hc).chapters, hid, ← (hsound s hsmem).chapters]
      rw [hs, Option.bind_some] at hselected
      exact hmissed s false hselected
  · exact hmissed c _ hother

end Owners

/-! ## What is opened

The cases of the function: a work, a series, and the fall-back. -/

/-- Why no chapter is opened: of a series, of a work, or since the pages are refused. -/
inductive Refused (app : App) (seriesId : String) (chParam srcParam : Option String)
    (o : Opened) : Prop where
  | off (h : app.live = false)
  | unresolved (hwork : isCanonicalId seriesId = true)
      (h : ¬∃ r, resolveWork app seriesId (app.getPreferredTranslator seriesId) = .ok (some r))
  | unlisted (hseries : isCanonicalId seriesId = false)
      (h : (listOf app seriesId .read (.series seriesId)).val = [])
  | pages (resolver : Resolver) (id : String) (hrequest : o.requests = [(resolver, id)])
      (h : answer app id resolver = none)
  | empty (r : ResolvedWork)
      (hr : resolveWork app seriesId (app.getPreferredTranslator seriesId) = .ok (some r))
      (hask : truthy chParam = none) (h : (activeReading app r srcParam).chs.val = [])
  | unknown (r : ResolvedWork)
      (hr : resolveWork app seriesId (app.getPreferredTranslator seriesId) = .ok (some r))
      (ch : String) (hask : truthy chParam = some ch)
      (hactive : ∀ c ∈ (activeReading app r srcParam).chs.val, c.id ≠ ch)
      (h : ∀ d ∈ r.candidates, ∀ c ∈ d.chapters.val, c.id ≠ ch)

/-- The chapter is the one that is asked for: of a series, if it has that one.  If none is
asked for it is the first unread one, or the first. -/
structure IsAsked (seriesId : String) (chParam : Option String) (source : Source)
    (chs : Chapters) (target : Chapter) : Prop where
  work : isCanonicalId seriesId = true → ∀ ch, truthy chParam = some ch → target.id = ch
  series : isCanonicalId seriesId = false → source = .series seriesId ∧
    ∀ ch, truthy chParam = some ch → (∃ c ∈ chs.val, c.id = ch) → target.id = ch
  unasked : truthy chParam = none →
    firstUnread (inOrder (isSpine source) chs.val) = some target

/-- What `getReaderChapter` gives: nothing, for a reason that the answers bear out, or
the chapter that is asked for, from one source. -/
def Opens (app : App) (seriesId : String) (chParam srcParam : Option String) (o : Opened) :
    Prop :=
  (Closed o ∧ Refused app seriesId chParam srcParam o) ∨
    ∃ source chs target, Shows app seriesId source chs target o ∧
      IsAsked seriesId chParam source chs target

section Opening

variable {app : App} {seriesId : String} {chParam srcParam : Option String}

/-- The reading that is active is of the source that is selected. -/
theorem readsFrom_activeReading {r : ResolvedWork} (h : SoundWork app seriesId r) :
    ReadsFrom app seriesId (.ofId (activeReading app r srcParam).src)
      (activeReading app r srcParam) := by
  unfold activeReading
  dsimp only
  split
  · next src hsrc => exact ⟨⟨.read, rfl⟩, rfl, rfl, rfl⟩
  · rw [h.preserveOrder]
    exact readsFrom_ofId _ ⟨.resolve, h.chapters⟩

theorem mem_of_firstUnread {asc : List Chapter} {target : Chapter}
    (h : firstUnread asc = some target) : target ∈ asc :=
  mem_of_find?_or_head? h

theorem firstUnread_eq_none {asc : List Chapter} (h : firstUnread asc = none) : asc = [] :=
  List.head?_eq_none_iff.mp (Option.or_eq_none_iff.mp h).2

theorem inOrder_eq_nil {preserveOrder : Bool} {chs : List Chapter}
    (h : inOrder preserveOrder chs = []) : chs = [] := by
  rw [List.eq_nil_iff_forall_not_mem] at h ⊢
  exact fun c hc => h c (mem_inOrder.mpr hc)

/-- A chapter is found in a reading that has it. -/
theorem locate_spec {r : ResolvedWork} (h : SoundWork app seriesId r) {reading found : Reading}
    {ch : String} {target : Chapter}
    (hreading : ReadsFrom app seriesId (.ofId reading.src) reading)
    (hfound : locate r reading ch = some (found, target)) :
    ReadsFrom app seriesId (.ofId found.src) found ∧ target ∈ found.chs.val ∧ target.id = ch := by
  unfold locate at hfound
  split at hfound
  · next t hfind =>
      obtain ⟨rfl, rfl⟩ := Prod.mk.inj (Option.some.inj hfound)
      have hid := List.find?_some hfind
      exact ⟨hreading, List.mem_of_find?_eq_some hfind, of_decide_eq_true hid⟩
  · obtain ⟨owner, howner, hmk⟩ := Option.map_eq_some_iff.mp hfound
    obtain ⟨rfl, rfl⟩ := Prod.mk.inj hmk
    obtain ⟨hc, hmem, hid⟩ := findChapterOwner_spec howner
    exact ⟨readsFrom_ofId _ ⟨.resolve, (h.candidates _ hc).chapters⟩, hmem, hid⟩

theorem chosen_spec {r : ResolvedWork} (h : SoundWork app seriesId r) {reading : Reading}
    {target : Chapter} (hchosen : chosen app r chParam srcParam = some (reading, target)) :
    ReadsFrom app seriesId (.ofId reading.src) reading ∧ target ∈ reading.chs.val ∧
      (∀ ch, truthy chParam = some ch → target.id = ch) ∧
        (truthy chParam = none →
          firstUnread (inOrder (isSpine (.ofId reading.src)) reading.chs.val) = some target) := by
  have hactive : ReadsFrom app seriesId _ (activeReading app r srcParam) :=
    readsFrom_activeReading h
  unfold chosen at hchosen
  dsimp only at hchosen
  split at hchosen
  · next ch hch =>
      obtain ⟨hreads, hmem, hid⟩ := locate_spec h hactive hchosen
      refine ⟨hreads, hmem, ?_, fun hnone => ?_⟩
      · intro ch' hch'
        rw [hch] at hch'
        rw [hid, Option.some.inj hch']
      · rw [hch] at hnone
        contradiction
  · next hnone =>
      obtain ⟨t, hfirst, hmk⟩ := Option.map_eq_some_iff.mp hchosen
      obtain ⟨rfl, rfl⟩ := Prod.mk.inj hmk
      refine ⟨hactive, mem_inOrder.mp (mem_of_firstUnread hfirst), fun ch hch => ?_, fun _ => ?_⟩
      · rw [hnone] at hch
        contradiction
      · rw [← hactive.preserveOrder]
        exact hfirst

theorem truthy_ne {text : Option String} {s : String} (h : truthy text = some s) : s ≠ "" :=
  of_decide_eq_true (Option.filter_eq_some_iff.mp h).2

/-- Where no source has the chapter, nothing is opened. -/
theorem refused_of_chosen {r : ResolvedWork} {o : Opened}
    (hr : resolveWork app seriesId (app.getPreferredTranslator seriesId) = .ok (some r))
    (h : chosen app r chParam srcParam = none) : Refused app seriesId chParam srcParam o := by
  unfold chosen at h
  dsimp only at h
  split at h
  · next ch hch =>
      unfold locate at h
      split at h
      · contradiction
      · next hactive =>
          refine .unknown r hr ch hch ?_ ?_
          · intro c hc heq
            exact List.find?_eq_none.mp hactive c hc (decide_eq_true heq)
          · exact findChapterOwner_none (truthy_ne hch) (sound_resolveWork hr).candidates
              (Option.map_eq_none_iff.mp h)
  · next hnone =>
      exact .empty r hr hnone (inOrder_eq_nil (firstUnread_eq_none (Option.map_eq_none_iff.mp h)))

theorem opens_openTarget {source : Source} {reading : Reading} {target : Chapter}
    {effectiveId title : String} {tmeta : TranslatorMeta}
    (hreading : ReadsFrom app seriesId source reading) (hmem : target ∈ reading.chs.val)
    (hasked : IsAsked seriesId chParam source reading.chs target) :
    Opens app seriesId chParam srcParam
      (openTarget app seriesId effectiveId reading target title tmeta reading.src) := by
  rcases shows_openTarget hreading hmem with hshows | ⟨hrefused, hanswer⟩
  · exact Or.inr ⟨source, reading.chs, target, hshows, hasked⟩
  · rw [hrefused]
    exact Or.inl ⟨⟨rfl, rfl⟩, .pages _ _ rfl hanswer⟩

theorem opens_openWork {r : ResolvedWork} (hwork : isCanonicalId seriesId = true)
    (hr : resolveWork app seriesId (app.getPreferredTranslator seriesId) = .ok (some r)) :
    Opens app seriesId chParam srcParam (openWork app seriesId r chParam srcParam) := by
  unfold openWork
  dsimp only
  split
  · next hnone => exact Or.inl ⟨⟨rfl, rfl⟩, refused_of_chosen hr hnone⟩
  · next reading target hchosen =>
      obtain ⟨hreads, hmem, hid, hfirst⟩ := chosen_spec (sound_resolveWork hr) hchosen
      apply opens_openTarget hreads hmem
      refine ⟨fun _ => hid, fun hseries => ?_, hfirst⟩
      rw [hwork] at hseries
      contradiction

theorem opens_openSeries {chs : Chapters} (hseries : isCanonicalId seriesId = false)
    (hchs : app.backend.chapters .read seriesId = some chs) :
    Opens app seriesId chParam srcParam (openSeries app seriesId chs chParam) := by
  have hlisted : chs = listOf app seriesId .read (.series seriesId) := by
    rw [listOf, hchs, Option.getD_some]
  unfold openSeries
  dsimp only
  split
  · next hnone =>
      obtain ⟨-, hfirst⟩ := Option.or_eq_none_iff.mp hnone
      refine Or.inl ⟨⟨rfl, rfl⟩, .unlisted hseries ?_⟩
      rw [← hlisted]
      exact inOrder_eq_nil (firstUnread_eq_none hfirst)
  · next target htarget =>
      have hreads : ReadsFrom app seriesId (.series seriesId)
          ⟨chs, false, false, none, "", none⟩ := ⟨⟨.read, hlisted⟩, rfl, rfl, rfl⟩
      have hmem : target ∈ chs.val := by
        rcases Option.or_eq_some_iff.mp htarget with hfind | ⟨-, hfirst⟩
        · obtain ⟨ch, -, hfind⟩ := Option.bind_eq_some_iff.mp hfind
          exact List.mem_of_find?_eq_some hfind
        · exact mem_inOrder.mp (mem_of_firstUnread hfirst)
      apply opens_openTarget hreads hmem
      refine ⟨fun hwork => ?_, fun _ => ⟨rfl, fun ch hch hsome => ?_⟩, fun hnone => ?_⟩
      · rw [hwork] at hseries
        contradiction
      · rw [hch, Option.bind_some] at htarget
        rcases Option.or_eq_some_iff.mp htarget with hfind | ⟨hnone, -⟩
        · have hid := List.find?_some hfind
          exact of_decide_eq_true hid
        · obtain ⟨c, hc, hid⟩ := hsome
          exact absurd (decide_eq_true hid) (List.find?_eq_none.mp hnone c hc)
      · rw [hnone] at htarget
        exact htarget

/-- The fall-back is no chapter, and no pages. -/
theorem opens_fallback
    (h : Refused app seriesId chParam srcParam ⟨[], emptyReader seriesId noTranslators⟩) :
    Opens app seriesId chParam srcParam ⟨[], emptyReader seriesId noTranslators⟩ :=
  Or.inl ⟨⟨rfl, rfl⟩, h⟩

/-- **Opening a chapter**: what is shown is of one source, and it is what is asked for.
For every state of the application and all parameters: either nothing is shown, and for
a reason that the answers give, or the pages, the neighbours and the list are of one
source, which has the chapter. -/
theorem opens_getReaderChapter (app : App) (seriesId : String) (chParam srcParam : Option String) :
    Opens app seriesId chParam srcParam (getReaderChapter app seriesId chParam srcParam) := by
  unfold getReaderChapter
  dsimp only
  split
  · next hoff => exact opens_fallback (.off (by simpa using hoff))
  · split
    · next hwork =>
        split
        · next hr =>
            apply opens_fallback (.unresolved hwork _)
            rw [hr]
            rintro ⟨r, hsome⟩
            contradiction
        · next hr =>
            apply opens_fallback (.unresolved hwork _)
            rw [hr]
            rintro ⟨r, hsome⟩
            cases hsome
        · next r hr => exact opens_openWork hwork hr
    · next hseries =>
        rw [Bool.not_eq_true] at hseries
        split
        · next hnone =>
            apply opens_fallback (.unlisted hseries _)
            rw [listOf, hnone]
            rfl
        · next chs hchs => exact opens_openSeries hseries hchs

/-! ### What is not asked for -/

/-- The pages of every chapter that is shown are asked for. -/
def AsksForPages (app : App) (seriesId : String) (chParam srcParam : Option String) : Prop :=
  let o := getReaderChapter app seriesId chParam srcParam
  ∀ id, o.view.chapterId = some id → ∃ resolver, o.requests = [(resolver, id)]

/-- A chapter that is read elsewhere. -/
def offSiteChapter : Chapter :=
  ⟨"c1", ⟨.ofNat 1, nofun⟩, none, some "https://mangaplus.example/1", false⟩

/-- A work whose only chapter is read elsewhere. -/
def offSiteApp : App where
  live := true
  backend :=
    { workSources := none
      canonicalChapters := some fun _ => some ⟨[offSiteChapter], by decide⟩
      canonicalSeries := none
      canonicalPages := some fun _ => some []
      chapters := fun _ _ => none
      series := fun _ _ => none
      pages := fun _ => none }
  resolvePage p := some p.sourceUrl
  getPreferredTranslator _ := none
  look _ := ⟨"", none, none⟩
  spineLook := ⟨"MangaDex", none, none⟩
  parseUrl text := some ("https:", text)
  numberText _ := "1"

/-- An off-site chapter is shown, and no pages are asked for. -/
theorem not_asksForPages : ¬AsksForPages offSiteApp "w_1" (some "c1") none := by
  have hshown : (getReaderChapter offSiteApp "w_1" (some "c1") none).view.chapterId = some "c1" ∧
      (getReaderChapter offSiteApp "w_1" (some "c1") none).requests = [] := by
    decide +kernel
  intro h
  obtain ⟨resolver, hrequests⟩ := h "c1" hshown.1
  rw [hshown.2] at hrequests
  contradiction

end Opening

end Komika.Reader.OpenChapter
