import Komika.Lib.EcmaScript
import Komika.Reader.TranslatorSelect

/-!
# The sources of a work

`resolveWork` (`apps/reader/src/lib/data/source.ts`): the sources that a canonical work
can be read from, each with its chapters, and the one that is selected.

What the backend answers is a parameter, call by call; a call that is rejected has no
answer, and an optional method may be absent.  What the browser computes (`new URL`,
the text of a number) is one, too.

* `Source`, `listOf` — where chapters come from, and what a call for them gives;
* `sound_resolveWork` — every candidate has the chapters of the source that it names,
  and the chapters that are selected are those of the source that is selected;
* `nodup_keys_ordered`, `key_selected` — the candidates have keys of their own, and the
  source that is selected is the default among them.
-/

namespace Komika.Reader.ResolveWork

open Komika.Lib Komika.Reader.TranslatorSelect

/-! ## Data

What the functions of the module pass to each other. -/

/-- A chapter, as the reader's backend has it. -/
structure Chapter where
  id : String
  number : Reach
  title : Option String
  externalUrl : Option String
  read : Bool
deriving DecidableEq

/-- An array of chapters. -/
abbrev Chapters := { xs : List Chapter // xs.length < 2 ^ 32 }

/-- No chapters, which is short enough for an array. -/
def noChapters : Chapters := ⟨[], by decide⟩

/-- The two kinds of a source. -/
inductive SourceType where
  | mangadex
  | suwayomi
deriving DecidableEq, Repr

/-- Their names, as a translator's key spells them. -/
def SourceType.text : SourceType → String
  | .mangadex => "mangadex"
  | .suwayomi => "suwayomi"

/-- A mapping; `pkgName` is `extension?.pkgName`. -/
structure WorkSource where
  sourceType : SourceType
  sourceId : String
  sourceKey : String
  lang : Option String
  pkgName : Option String

/-- What is shown of a series. -/
structure Series where
  id : String
  title : String

/-- A page of a chapter. -/
structure Page where
  index : Nat
  sourceUrl : String

/-- How a source is shown. -/
structure Look where
  name : String
  lang : Option String
  iconUrl : Option String

/-- A `TranslatorOption` without its `chapterCount`. -/
structure View where
  key : String
  sourceType : SourceType
  look : Look
  suwayomiMangaId : Option String

/-- An option of the reader's menu. -/
structure TranslatorOption extends View where
  chapterCount : Nat

/-- A call is made as the work is resolved, or when the chapter is opened. -/
inductive Phase where
  | resolve
  | read

/-- What the backend answers. -/
structure Backend where
  workSources : Option (String → Option (List WorkSource))
  canonicalChapters : Option (String → Option Chapters)
  canonicalSeries : Option (String → Option Series)
  canonicalPages : Option (String → Option (List Page))
  chapters : Phase → String → Option Chapters
  series : Phase → String → Option Series
  pages : String → Option (List Page)

/-- The backend, and what the browser computes. -/
structure App where
  /-- `LIVE`. -/
  live : Bool
  backend : Backend
  /-- `images.resolvePage`. -/
  resolvePage : Page → Option String
  getPreferredTranslator : String → Option String
  /-- What `prettySourceName`, `langLabel` and `iconForPkg` show of a mapping. -/
  look : WorkSource → Look
  spineLook : Look
  /-- The protocol and the `href` of `new URL(text)`. -/
  parseUrl : String → Option (String × String)
  numberText : Reach → String

/-! ## The code

The candidates, in the order in which they are offered, and the selection. -/

/-- `isCanonicalId`: the id of a work begins with `w_`; any other is that of a
series. -/
def isCanonicalId (id : String) : Bool := "w_".toList.isPrefixOf id.toList

/-- `translatorKey`: the type of the source and its series, or `spine`. -/
def translatorKey (sourceType : SourceType) (suwayomiMangaId : Option String) : String :=
  sourceType.text ++ ":" ++ suwayomiMangaId.getD "spine"

/-- A source that the work can be read from, with its chapters. -/
structure Candidate where
  view : View
  chapters : Chapters
  redundant : Bool

section Code

variable (app : App)

/-- The candidate of the spine. -/
def spineCandidate (chapters : Chapters) : Candidate where
  view :=
    { key := translatorKey .mangadex none
      sourceType := .mangadex
      look := app.spineLook
      suwayomiMangaId := none }
  chapters := chapters
  redundant := false

/-- The candidate of a mapping. -/
def suwCandidate (hasReadableSpine : Bool) (ws : WorkSource) : Candidate where
  view :=
    { key := translatorKey ws.sourceType (some ws.sourceKey)
      sourceType := ws.sourceType
      look := app.look ws
      suwayomiMangaId := some ws.sourceKey }
  chapters := (app.backend.chapters .resolve ws.sourceKey).getD noChapters
  redundant := isRedundantMangadexExt ws.pkgName hasReadableSpine

/-- The mappings that are not of the spine, each key once. -/
def suwViews : List String → List WorkSource → List WorkSource
  | _, [] => []
  | seenIds, ws :: wsList =>
      if ws.sourceType = .mangadex ∨ ws.sourceKey = "" ∨ ws.sourceKey ∈ seenIds then
        suwViews seenIds wsList
      else ws :: suwViews (ws.sourceKey :: seenIds) wsList

/-- The comparator of `ordered`, at most zero. -/
def orderedBefore (a b : Candidate × Nat) : Bool :=
  let aSpine := a.1.view.suwayomiMangaId.isNone
  let bSpine := b.1.view.suwayomiMangaId.isNone
  if aSpine ≠ bSpine then aSpine
  else if b.1.chapters.val.length ≠ a.1.chapters.val.length then
    b.1.chapters.val.length ≤ a.1.chapters.val.length
  else a.2 ≤ b.2

/-- The candidate as an option of the menu. -/
def toOption (c : Candidate) : TranslatorOption :=
  { c.view with chapterCount := c.chapters.val.length }

/-- What the selection reads of a candidate. -/
def selectable (c : Candidate) : Selectable where
  key := c.view.key
  chapterCount := c.chapters.val.length
  maxChapterNumber := maxSaneChapterNumber (c.chapters.val.map fun ch => ch.number.val)
  redundant := c.redundant
  isLength := c.chapters.property

/-- `ResolvedWork`: the sources of a work, the one that is selected, and its
chapters. -/
structure ResolvedWork where
  translators : List TranslatorOption
  selected : TranslatorOption
  chapters : Chapters
  info : Option Series
  canonicalId : Option String
  preserveOrder : Bool
  candidates : List Candidate

/-- Which of the present methods have answered. -/
def answered (workId : String) : List Bool :=
  (app.backend.workSources.map fun f => (f workId).isSome).toList ++
    (app.backend.canonicalChapters.map fun f => (f workId).isSome).toList ++
      (app.backend.canonicalSeries.map fun f => (f workId).isSome).toList

/-- The chapters of the canonical spine. -/
def spineChapters (workId : String) : Chapters :=
  (app.backend.canonicalChapters.bind fun f => f workId).getD noChapters

/-- The series of the canonical work. -/
def canonSeries (workId : String) : Option Series :=
  app.backend.canonicalSeries.bind fun f => f workId

/-- `candidates`: the spine, where the work has one, and then the Suwayomi sources. -/
def candidates (workId : String) : List Candidate :=
  let spine := spineChapters app workId
  let wsList := (app.backend.workSources.bind fun f => f workId).getD []
  (if spine.val ≠ [] ∨ (canonSeries app workId).isSome then [spineCandidate app spine]
    else []) ++
    (suwViews [] wsList).map (suwCandidate app (spine.val ≠ []))

/-- `ordered`: the candidates in the order of the picker, ties as they were. -/
def ordered (workId : String) : List Candidate :=
  ((candidates app workId).zipIdx.mergeSort orderedBefore).map Prod.fst

/-- `resolveWork`; it throws if no method that is present has answered. -/
def resolveWork (workId : String) (preferredKey : Option String) :
    Except Unit (Option ResolvedWork) :=
  if answered app workId ≠ [] ∧ (answered app workId).all (!·) then .error ()
  else if candidates app workId = [] then .ok none
  else
    let ordered := ordered app workId
    let translators := (ordered.filter fun c => !c.redundant).map toOption
    let pickKey := pickDefaultKey (ordered.map selectable) preferredKey
    match (translators.find? fun t => some t.key = pickKey).or translators.head? with
    | none => .ok none
    | some selected =>
        match (ordered.find? fun c => c.view.key = selected.key).or ordered.head? with
        | none => .ok none
        | some pick =>
            .ok (some
              { translators := translators
                selected := selected
                chapters := pick.chapters
                info :=
                  match selected.suwayomiMangaId with
                  | none => canonSeries app workId
                  | some id => app.backend.series .resolve id
                canonicalId :=
                  (canonSeries app workId).bind fun s =>
                    if isCanonicalId s.id ∧ s.id ≠ workId then some s.id else none
                preserveOrder := selected.suwayomiMangaId.isNone
                candidates := ordered })

end Code

/-! ## Sources

A candidate names a source, and has its chapters. -/

/-- Where chapters come from: the spine of a work, another source of it, or a series that
is no work. -/
inductive Source where
  | spine
  | suwayomi (id : String)
  | series (id : String)

/-- The source that a `suwayomiMangaId` names. -/
def Source.ofId : Option String → Source
  | none => .spine
  | some id => .suwayomi id

/-- What a call for the chapters gives. -/
def listOf (app : App) (workId : String) (phase : Phase) : Source → Chapters
  | .spine => spineChapters app workId
  | .suwayomi id => (app.backend.chapters phase id).getD noChapters
  | .series id => (app.backend.chapters phase id).getD noChapters

/-- The candidate has the key and the chapters of the source that it names. -/
structure Sound (app : App) (workId : String) (c : Candidate) : Prop where
  key : c.view.key = translatorKey c.view.sourceType c.view.suwayomiMangaId
  sourceType : c.view.sourceType = .mangadex ↔ c.view.suwayomiMangaId = none
  chapters : c.chapters = listOf app workId .resolve (.ofId c.view.suwayomiMangaId)

section Sources

variable {app : App} {workId : String}

theorem mem_suwViews {seenIds : List String} {wsList : List WorkSource} {ws : WorkSource}
    (h : ws ∈ suwViews seenIds wsList) : ws.sourceType = .suwayomi := by
  induction wsList generalizing seenIds with
  | nil => contradiction
  | cons w wsList ih =>
      unfold suwViews at h
      split at h
      · exact ih h
      · next hw =>
          rcases List.mem_cons.mp h with rfl | h
          · cases htype : ws.sourceType with
            | mangadex => exact absurd (Or.inl htype) hw
            | suwayomi => rfl
          · exact ih h

theorem sound_of_mem_candidates {c : Candidate} (h : c ∈ candidates app workId) :
    Sound app workId c := by
  rcases List.mem_append.mp h with h | h
  · split at h
    · rw [List.mem_singleton.mp h]
      exact ⟨rfl, iff_of_true rfl rfl, rfl⟩
    · contradiction
  · obtain ⟨ws, hws, rfl⟩ := List.mem_map.mp h
    have htype := mem_suwViews hws
    refine ⟨rfl, ?_, rfl⟩
    show ws.sourceType = .mangadex ↔ some ws.sourceKey = none
    rw [htype]
    exact iff_of_false nofun nofun

theorem mem_ordered {c : Candidate} : c ∈ ordered app workId ↔ c ∈ candidates app workId := by
  rw [ordered, List.mem_map]
  constructor
  · rintro ⟨x, hx, rfl⟩
    exact List.fst_mem_of_mem_zipIdx (List.mem_mergeSort.mp hx)
  · intro hc
    obtain ⟨i, hi, rfl⟩ := List.getElem_of_mem hc
    have hmem : ((candidates app workId)[i], i) ∈ (candidates app workId).zipIdx :=
      List.mk_mem_zipIdx_iff_getElem?.mpr (List.getElem?_eq_getElem hi)
    exact ⟨_, List.mem_mergeSort.mpr hmem, rfl⟩

theorem translatorKey_ne (a b : Option String) :
    translatorKey .mangadex a ≠ translatorKey .suwayomi b := by
  intro h
  have hlist := congrArg String.toList h
  simp only [translatorKey, SourceType.text, String.toList_append] at hlist
  exact absurd (congrArg List.head? hlist) (by simp)

theorem translatorKey_suwayomi {a b : String}
    (h : translatorKey .suwayomi (some a) = translatorKey .suwayomi (some b)) : a = b := by
  have hlist := congrArg String.toList h
  simp only [translatorKey, SourceType.text, String.toList_append, Option.getD_some] at hlist
  exact String.toList_inj.mp (List.append_cancel_left hlist)

/-- Two sources have one key only if they are one. -/
theorem Sound.eq_of_key {c d : Candidate} (hc : Sound app workId c) (hd : Sound app workId d)
    (h : c.view.key = d.view.key) : c.view.suwayomiMangaId = d.view.suwayomiMangaId := by
  rw [hc.key, hd.key] at h
  have hctype := hc.sourceType
  have hdtype := hd.sourceType
  cases hcid : c.view.suwayomiMangaId with
  | none =>
      cases hdid : d.view.suwayomiMangaId with
      | none => rfl
      | some b =>
          cases hd' : d.view.sourceType with
          | mangadex => exact absurd (hdtype.mp hd') (by rw [hdid]; nofun)
          | suwayomi =>
              rw [hctype.mpr hcid, hd'] at h
              exact absurd h (translatorKey_ne _ _)
  | some a =>
      cases hc' : c.view.sourceType with
      | mangadex => exact absurd (hctype.mp hc') (by rw [hcid]; nofun)
      | suwayomi =>
          cases hdid : d.view.suwayomiMangaId with
          | none =>
              rw [hc', hdtype.mpr hdid] at h
              exact absurd h.symm (translatorKey_ne _ _)
          | some b =>
              cases hd' : d.view.sourceType with
              | mangadex => exact absurd (hdtype.mp hd') (by rw [hdid]; nofun)
              | suwayomi =>
                  rw [hc', hd', hcid, hdid] at h
                  rw [translatorKey_suwayomi h]

/-- What is selected is read from the source that is selected. -/
structure SoundWork (app : App) (workId : String) (r : ResolvedWork) : Prop where
  candidates : ∀ c ∈ r.candidates, Sound app workId c
  chapters : r.chapters = listOf app workId .resolve (.ofId r.selected.suwayomiMangaId)
  preserveOrder : r.preserveOrder = r.selected.suwayomiMangaId.isNone

theorem mem_of_find?_or_head? {α : Type} {p : α → Bool} {xs : List α} {a : α}
    (h : (xs.find? p).or xs.head? = some a) : a ∈ xs := by
  rcases Option.or_eq_some_iff.mp h with h | ⟨-, h⟩
  · exact List.mem_of_find?_eq_some h
  · exact List.mem_of_head? h

theorem sound_resolveWork {preferredKey : Option String} {r : ResolvedWork}
    (h : resolveWork app workId preferredKey = .ok (some r)) : SoundWork app workId r := by
  have hsound : ∀ c ∈ ordered app workId, Sound app workId c :=
    fun c hc => sound_of_mem_candidates (mem_ordered.mp hc)
  unfold resolveWork at h
  split at h
  · contradiction
  · split at h
    · cases h
    · dsimp only at h
      split at h
      · cases h
      · next selected hselected =>
          split at h
          · cases h
          · next pick hpick =>
              cases h
              refine ⟨hsound, ?_, rfl⟩
              show pick.chapters = _
              obtain ⟨c, hc, rfl⟩ := List.mem_map.mp (mem_of_find?_or_head? hselected)
              obtain ⟨hc, -⟩ := List.mem_filter.mp hc
              have hpickKey : pick.view.key = c.view.key := by
                rcases Option.or_eq_some_iff.mp hpick with hfind | ⟨hnone, -⟩
                · have hkey := List.find?_some hfind
                  exact of_decide_eq_true hkey
                · exact absurd (decide_eq_true rfl) (List.find?_eq_none.mp hnone c hc)
              have hpickSound := hsound pick (mem_of_find?_or_head? hpick)
              rw [hpickSound.chapters, hpickSound.eq_of_key (hsound c hc) hpickKey]
              rfl

/-! ### The default -/

/-- The mappings that stay have keys of their own, and none that has been seen. -/
theorem sourceKeys_suwViews (seenIds : List String) (wsList : List WorkSource) :
    ((suwViews seenIds wsList).map WorkSource.sourceKey).Nodup ∧
      ∀ ws ∈ suwViews seenIds wsList, ws.sourceKey ∉ seenIds := by
  induction wsList generalizing seenIds with
  | nil => exact ⟨List.nodup_nil, nofun⟩
  | cons w wsList ih =>
      unfold suwViews
      split
      · exact ih seenIds
      · next hw =>
          obtain ⟨hnodup, hfresh⟩ := ih (w.sourceKey :: seenIds)
          obtain ⟨-, hfirst⟩ := not_or.mp (not_or.mp hw).2
          have hnew : w.sourceKey ∉
              (suwViews (w.sourceKey :: seenIds) wsList).map WorkSource.sourceKey := by
            intro hmem
            obtain ⟨ws, hws, hkey⟩ := List.mem_map.mp hmem
            exact hfresh ws hws (hkey ▸ List.mem_cons_self)
          refine ⟨List.nodup_cons.mpr ⟨hnew, hnodup⟩, List.forall_mem_cons.mpr ⟨hfirst, ?_⟩⟩
          exact fun ws hws hseen => hfresh ws hws (List.mem_cons_of_mem _ hseen)

theorem nodup_keys_candidates :
    ((candidates app workId).map fun c => c.view.key).Nodup := by
  rw [candidates, List.map_append, List.nodup_append, List.map_map]
  refine ⟨?_, ?_, ?_⟩
  · split
    · exact List.nodup_singleton _
    · exact List.nodup_nil
  · have hkeys := (sourceKeys_suwViews []
      ((app.backend.workSources.bind fun f => f workId).getD [])).1
    apply List.Nodup.map_on _ (List.Nodup.of_map _ hkeys)
    intro ws hws ws' hws' hkey
    apply List.inj_on_of_nodup_map hkeys hws hws'
    have hkey : translatorKey ws.sourceType (some ws.sourceKey) =
        translatorKey ws'.sourceType (some ws'.sourceKey) := hkey
    rw [mem_suwViews hws, mem_suwViews hws'] at hkey
    exact translatorKey_suwayomi hkey
  · intro key hspine key' hsuw heq
    obtain ⟨ws, hws, rfl⟩ := List.mem_map.mp hsuw
    split at hspine
    · rw [List.map_singleton, List.mem_singleton] at hspine
      have hkey : translatorKey .mangadex none =
          translatorKey ws.sourceType (some ws.sourceKey) := hspine.symm.trans heq
      rw [mem_suwViews hws] at hkey
      exact translatorKey_ne _ _ hkey
    · contradiction

/-- The sources that the default is picked from have keys of their own. -/
theorem nodup_keys_ordered :
    (((ordered app workId).map selectable).map Selectable.key).Nodup := by
  have hperm : (ordered app workId).Perm (candidates app workId) := by
    have hsorted := ((candidates app workId).zipIdx.mergeSort_perm orderedBefore).map Prod.fst
    rwa [List.zipIdx_map_fst] at hsorted
  rw [List.map_map]
  exact (hperm.map fun c => c.view.key).nodup_iff.mpr nodup_keys_candidates

/-- The source that is selected is the default: no work is resolved to a source that is
redundant. -/
theorem key_selected {preferredKey : Option String} {r : ResolvedWork}
    (h : resolveWork app workId preferredKey = .ok (some r)) :
    pickDefaultKey ((ordered app workId).map selectable) preferredKey = some r.selected.key := by
  unfold resolveWork at h
  split at h
  · contradiction
  · split at h
    · cases h
    · dsimp only at h
      split at h
      · cases h
      · next selected hselected =>
          split at h
          · cases h
          · cases h
            show _ = some selected.key
            obtain ⟨c, hc, rfl⟩ := List.mem_map.mp (mem_of_find?_or_head? hselected)
            obtain ⟨hc, hshown⟩ := List.mem_filter.mp hc
            have hsome : ∃ c, Eligible ((ordered app workId).map selectable) c :=
              ⟨selectable c, List.mem_map_of_mem hc, by simpa [selectable] using hshown⟩
            obtain ⟨e, ⟨he, heligible⟩, hpicked⟩ := exists_eligible_of_picked preferredKey hsome
            obtain ⟨d, hd, rfl⟩ := List.mem_map.mp he
            rcases Option.or_eq_some_iff.mp hselected with hfind | ⟨hnone, -⟩
            · have hkey := List.find?_some hfind
              exact (of_decide_eq_true hkey).symm
            · have hlisted : toOption d ∈
                  ((ordered app workId).filter fun c => !c.redundant).map toOption :=
                List.mem_map_of_mem
                  (List.mem_filter.mpr ⟨hd, by simpa [selectable] using heligible⟩)
              exact absurd (decide_eq_true hpicked.symm) (List.find?_eq_none.mp hnone _ hlisted)

end Sources
end Komika.Reader.ResolveWork
