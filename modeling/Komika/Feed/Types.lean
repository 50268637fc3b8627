import Komika.Feed.Schema
import Mathlib.Data.List.Sort
import Mathlib.Data.List.Infix

/-!
# Comic types

`resolve_comic_type` of `graphql/types.rs`, and the two passes that store its
word in a feed table: `fill_comic_types` of the rebuild, and
`fill_missing_feed_comic_type` of the scanner.

Both read the tags of a work, and its sources' genres where it has none.  The
rebuild takes the curated tags, or else the upstream ones; the scanner takes
all of them in one order.  `tagsInOrder` is the common query.

* `shows_iff` — the function is the statement of what shows a type;
* `comicTypeWord`, `showsWord_iff` — the word that is stored;
* `TwoTiers`, `untieredGenres_eq` — the works that the two passes may type differently;
* `key_typed` — a pass sets one column and keeps the keys.
-/

namespace Komika.Feed.Types

open Komika.Lib
open Komika.Catalog.Schema (Id SourceSeries WorkTag TagSource)
open Komika.Feed.Schema

/-! ## The type of a work

The branches of the code, in its order.  A word of the administrator's comes first, then
the language, the tags, and the script of the title. -/

/-- What the feeds take from the database and from the standard library. -/
structure FeedRules where
  /-- `CAST(t AS INTEGER)`. -/
  castInteger : String → Int
  /-- `CAST(strftime('%s', t) AS INTEGER)`. -/
  strftimeSeconds : String → Option Int
  /-- `printf('%g', x)`. -/
  formatG : Rat → String
  /-- `serde_json::from_str::<Vec<String>>`. -/
  parseGenres : String → Option (List String)
  trim : String → String
  toLowercase : String → String
  toUppercase : String → String

/-- The rules on one key and one release time. -/
def plainRules : FeedRules where
  castInteger t := if t = "7" then 7 else 0
  strftimeSeconds t := if t = "1970-01-01T00:00:01+00:00" then some 1 else none
  formatG _ := "0"
  parseGenres _ := none
  trim := id
  toLowercase := id
  toUppercase := id

/-- `ComicType`, as far as a work is sorted into it. -/
inductive ComicType where
  | manga
  | manhwa
  | manhua
  | webtoon
  | comic
deriving DecidableEq, Repr

/-- `comic_type_from_word`: one of five words, in any case and with blanks around it. -/
def comicTypeFromWord (rules : FeedRules) (s : String) : Option ComicType :=
  match rules.toUppercase (rules.trim s) with
  | "MANGA" => some .manga
  | "MANHWA" => some .manhwa
  | "MANHUA" => some .manhua
  | "WEBTOON" => some .webtoon
  | "COMIC" => some .comic
  | _ => none

/-- `collapsed_comic_type_word`: the three words that the feed stores. -/
def collapsedComicTypeWord : ComicType → String
  | .manhwa | .webtoon => "MANHWA"
  | .manhua => "MANHUA"
  | .manga | .comic => "MANGA"

/-- A syllable or a letter of the Korean script. -/
def isHangul (c : Char) : Bool :=
  let n := c.toNat
  (0xAC00 ≤ n && n ≤ 0xD7A3) || (0x1100 ≤ n && n ≤ 0x11FF) ||
    (0x3130 ≤ n && n ≤ 0x318F)

/-- Hiragana or katakana, which only Japanese titles have. -/
def isKana (c : Char) : Bool :=
  let n := c.toNat
  (0x3040 ≤ n && n ≤ 0x309F) || (0x30A0 ≤ n && n ≤ 0x30FF)

/-- A character that Chinese and Japanese share. -/
def isHan (c : Char) : Bool :=
  let n := c.toNat
  (0x4E00 ≤ n && n ≤ 0x9FFF) || (0x3400 ≤ n && n ≤ 0x4DBF)

/-- `t.contains(word)`: somewhere in the text, in one piece. -/
def contains (t word : String) : Bool := word.toList <:+: t.toList

/-- `t.starts_with(word)`: at the beginning of the text. -/
def startsWith (t word : String) : Bool := word.toList <+: t.toList

/-- The language tells the type. -/
def typeOfLanguage (l : String) : Option ComicType :=
  if startsWith l "ko" then some .manhwa
  else if startsWith l "zh" then some .manhua
  else if startsWith l "ja" then some .manga
  else none

/-- An origin tag tells the type. -/
def typeOfOriginTag (g : String) : Option ComicType :=
  if contains g "manhwa" || contains g "korean" then some .manhwa
  else if contains g "manhua" || contains g "chinese" then some .manhua
  else if contains g "japanese" then some .manga
  else none

/-- A format tag of the Korean catalogues. -/
def isWebtoonTag (g : String) : Bool :=
  contains g "webtoon" || contains g "long strip" || contains g "web comic"

/-- `resolve_comic_type`: the override, the language, the tags, and last the script of
the title; a work that says nothing is a manga. -/
def resolveComicType (rules : FeedRules) (overrideWord originalLanguage : Option String)
    (genres : List String) (title : String) : ComicType :=
  let lowered := genres.map rules.toLowercase
  match overrideWord.bind (comicTypeFromWord rules) with
  | some t => t
  | none =>
      match originalLanguage.bind fun l => typeOfLanguage (rules.toLowercase l) with
      | some t => t
      | none =>
          match lowered.findSome? typeOfOriginTag with
          | some t => t
          | none =>
              if lowered.any isWebtoonTag then .manhwa
              else if title.toList.any isHangul then .manhwa
              else if title.toList.any isHan && !title.toList.any isKana then .manhua
              else .manga

/-! ### What shows a type

The function asks four witnesses in turn.  `Shows` says which of them speaks, and
what it says, without the order of the code's branches.
-/

/-- The type that an administrator has set, in a word that is one, or else the type
that the original language tells. -/
def settledType (rules : FeedRules) (w : Work) : Option ComicType :=
  (w.contentTypeOverride.bind (comicTypeFromWord rules)).or
    (w.originalLanguage.bind fun l => typeOfLanguage (rules.toLowercase l))

/-- The type that the tags tell: the first that names an origin does, whatever
stands before it, and else one that names the format of a webtoon. -/
def taggedType (rules : FeedRules) (tags : List String) : Option ComicType :=
  ((tags.map rules.toLowercase).findSome? typeOfOriginTag).or
    (if (tags.map rules.toLowercase).any isWebtoonTag then some .manhwa else none)

/-- The type that the script of the title tells; a title always tells one. -/
def scriptType (title : String) : ComicType :=
  if title.toList.any isHangul then .manhwa
  else if title.toList.any isHan && !title.toList.any isKana then .manhua
  else .manga

/-- What is known of the work shows that it is of the type: what is settled about
it, or its tags where nothing is, or its title where these are silent too. -/
inductive Shows (rules : FeedRules) (w : Work) (tags : List String) (title : String) :
    ComicType → Prop
  | settled {t} (h : settledType rules w = some t) : Shows rules w tags title t
  | tagged {t} (hopen : settledType rules w = none) (h : taggedType rules tags = some t) :
      Shows rules w tags title t
  | titled (hopen : settledType rules w = none) (hsilent : taggedType rules tags = none) :
      Shows rules w tags title (scriptType title)

/-- The function finds the type that is shown, and no other is. -/
theorem shows_iff {rules : FeedRules} {w : Work} {tags : List String} {title : String}
    {t : ComicType} : Shows rules w tags title t ↔
      resolveComicType rules w.contentTypeOverride w.originalLanguage tags title = t := by
  have hresolve : resolveComicType rules w.contentTypeOverride w.originalLanguage tags title =
      ((settledType rules w).or (taggedType rules tags)).getD (scriptType title) := by
    unfold resolveComicType settledType taggedType scriptType
    dsimp only
    cases w.contentTypeOverride.bind (comicTypeFromWord rules) with
    | some t => rfl
    | none =>
        cases w.originalLanguage.bind fun l => typeOfLanguage (rules.toLowercase l) with
        | some t => rfl
        | none =>
            cases (tags.map rules.toLowercase).findSome? typeOfOriginTag with
            | some t => rfl
            | none => cases hformat : (tags.map rules.toLowercase).any isWebtoonTag <;> rfl
  rw [hresolve]
  constructor
  · intro h
    cases h with
    | settled h => rw [h, Option.some_or, Option.getD_some]
    | tagged hopen h => rw [hopen, Option.none_or, h, Option.getD_some]
    | titled hopen hsilent => rw [hopen, Option.none_or, hsilent, Option.getD_none]
  · rintro rfl
    cases hsettled : settledType rules w with
    | some t => exact .settled hsettled
    | none =>
        cases htagged : taggedType rules tags with
        | some t => exact .tagged hsettled htagged
        | none => exact .titled hsettled htagged

/-! ## The genres of a work

The tags of a work come in tiers, and in an order within each.  A work without tags has
the genres of its Suwayomi sources. -/

/-- `source_series` of a work, of one type, in the order of `id`. -/
def sourcesOf (base : Base) (sourceType : String) (workId : Id) :
    List SourceSeries :=
  (base.sourceSeries.rows.filter fun ss =>
    ss.workId = workId && ss.sourceType = sourceType).insertionSort
      fun a b => a.id ≤ b.id

/-- The list is a selection, in another order. -/
theorem mem_sourcesOf {base : Base} {sourceType : String} {workId : Id} {ss : SourceSeries} :
    ss ∈ sourcesOf base sourceType workId ↔
      ss ∈ base.sourceSeries ∧ ss.workId = workId ∧ ss.sourceType = sourceType := by
  simp [sourcesOf, ← Table.mem_rows]

/-- A source refers to a work that is there. -/
theorem exists_work_of_source {base : Base} {sourceType : String} {workId : Id}
    {ss : SourceSeries} (h : ss ∈ sourcesOf base sourceType workId) :
    ∃ work, base.work.lookup workId = some work := by
  obtain ⟨hss, hon, -⟩ := mem_sourcesOf.mp h
  obtain ⟨work, hwork, hid⟩ := base.sourceSeries_work ss hss
  exact ⟨work, Table.lookup_eq_some.mpr ⟨hwork, hid.trans hon⟩⟩

/-- `JOIN suwayomi_series sy ON sy.id = CAST(ss.source_key AS INTEGER)`. -/
def cachedSeries (rules : FeedRules) (base : Base) (ss : SourceSeries) :
    Option SuwayomiSeries :=
  base.suwayomiSeries.lookup (rules.castInteger ss.sourceKey)

/-- `SELECT tag … ORDER BY ord, tag`. -/
def tagsInOrder (base : Base) (workId : Id) (p : TagSource → Bool) : List String :=
  ((base.workTag.rows.filter fun r => r.workId = workId && p r.source).insertionSort
    fun a b => a.ord < b.ord ∨ (a.ord = b.ord ∧ a.tag ≤ b.tag)).map WorkTag.tag

/-- The genres of the Suwayomi sources, deduplicated in source order. -/
def sourceGenres (rules : FeedRules) (base : Base) (workId : Id) : List String :=
  (((sourcesOf base "suwayomi" workId).flatMap fun ss =>
    (((cachedSeries rules base ss).bind SuwayomiSeries.genre).bind
      rules.parseGenres).getD []).map rules.trim).filter (fun g => g ≠ "")
    |>.eraseDups

/-- The first list that is not empty. -/
def firstNonempty (xs ys : List String) : List String := if xs = [] then ys else xs

/-- The tiers of the rebuild: curated, upstream, sources. -/
def tieredGenres (rules : FeedRules) (base : Base) (workId : Id) : List String :=
  firstNonempty (tagsInOrder base workId (· = .admin))
    (firstNonempty (tagsInOrder base workId (· = .mangadex))
      (sourceGenres rules base workId))

/-- The genres of the scanner: the tags of every tier, or the sources'. -/
def untieredGenres (rules : FeedRules) (base : Base) (workId : Id) : List String :=
  firstNonempty (tagsInOrder base workId fun _ => true)
    (sourceGenres rules base workId)

/-- The word stored for a work and a title. -/
def comicTypeWord (rules : FeedRules) (w : Work) (genres : List String)
    (title : String) : String :=
  collapsedComicTypeWord
    (resolveComicType rules w.contentTypeOverride w.originalLanguage genres title)

/-- What is known shows a type that is stored as this word. -/
def ShowsWord (rules : FeedRules) (w : Work) (genres : List String) (title word : String) :
    Prop := ∃ t, Shows rules w genres title t ∧ collapsedComicTypeWord t = word

/-- The word that is stored is the word that is shown. -/
theorem showsWord_iff {rules : FeedRules} {w : Work} {genres : List String}
    {title word : String} :
    ShowsWord rules w genres title word ↔ comicTypeWord rules w genres title = word := by
  unfold ShowsWord comicTypeWord
  simp only [shows_iff, exists_eq_left']

/-- The work has curated tags and upstream ones.  Only then do the rebuild and the
scanner read different lists. -/
def TwoTiers (base : Base) (workId : Id) : Prop :=
  tagsInOrder base workId (· = .admin) ≠ [] ∧ tagsInOrder base workId (· = .mangadex) ≠ []

/-- A list that one tier has none of is the list of the other. -/
theorem tagsInOrder_of_eq_nil {base : Base} {workId : Id} {p q r : TagSource → Bool}
    (hsplit : ∀ x, r x = (p x || q x)) (h : tagsInOrder base workId p = []) :
    tagsInOrder base workId r = tagsInOrder base workId q := by
  unfold tagsInOrder at h ⊢
  rw [List.map_eq_nil_iff, ← List.length_eq_zero_iff, List.length_insertionSort,
    List.length_eq_zero_iff, List.filter_eq_nil_iff] at h
  congr 2
  apply List.filter_congr
  intro x hx
  have hnone := h x hx
  rw [hsplit]
  cases hon : decide (x.workId = workId) with
  | false => rfl
  | true =>
      rw [hon, Bool.true_and, Bool.not_eq_true] at hnone
      rw [hnone, Bool.false_or]

/-- With one tier at most, the two lists are one. -/
theorem untieredGenres_eq {rules : FeedRules} {base : Base} {workId : Id}
    (h : ¬TwoTiers base workId) :
    untieredGenres rules base workId = tieredGenres rules base workId := by
  have hadmin : ∀ x : TagSource, true = (decide (x = .admin) || decide (x = .mangadex)) := by
    intro x
    cases x <;> rfl
  have hmangadex : ∀ x : TagSource, true = (decide (x = .mangadex) || decide (x = .admin)) := by
    intro x
    cases x <;> rfl
  unfold untieredGenres tieredGenres
  by_cases hcurated : tagsInOrder base workId (· = .admin) = []
  · rw [tagsInOrder_of_eq_nil hadmin hcurated, hcurated]
    rfl
  · have hupstream : tagsInOrder base workId (· = .mangadex) = [] := by
      by_contra hne
      exact h ⟨hcurated, hne⟩
    rw [tagsInOrder_of_eq_nil hmangadex hupstream]
    unfold firstNonempty
    rw [if_neg hcurated, if_neg hcurated]

/-! ## The passes

Both passes set the column of every row in their scope whose word is missing, or of all
rows. -/

/-- The tables that store a comic type. -/
class ComicTyped (ρ : Type) [Keyed ρ] [ByKey ρ Id] where
  title : ρ → String
  setComicType : String → ρ → ρ
  key_setComicType : ∀ word r, key (setComicType word r) = key r

instance : ComicTyped FeedSeriesUpdate where
  title := FeedSeriesUpdate.title
  setComicType word r := { r with comicType := some word }
  key_setComicType _ _ := rfl

instance : ComicTyped BrowseEntry where
  title := BrowseEntry.title
  setComicType word r := { r with comicType := some word }
  key_setComicType _ _ := rfl

/-- The scope of a pass: one work, or all. -/
def inScope (workId : Option Id) (w : Id) : Bool :=
  workId.elim true fun scope => scope = w

section Fill

variable {ρ : Type} [Keyed ρ] [ByKey ρ Id] [ComicTyped ρ]

/-- The row with the type of its work; a row without a work stays. -/
def typed (rules : FeedRules) (base : Base) (r : ρ) : ρ :=
  match base.work.lookup (key r) with
  | none => r
  | some w =>
      ComicTyped.setComicType
        (comicTypeWord rules w (tieredGenres rules base w.id) (ComicTyped.title r)) r

/-- The pass updates rows in place. -/
theorem key_typed (rules : FeedRules) (base : Base) (r : ρ) :
    key (typed rules base r) = key r := by
  unfold typed
  split
  · rfl
  · exact ComicTyped.key_setComicType _ r

/-- `fill_comic_types`: sets the type of every row of one work, or of all, that has a
work. -/
def fillComicTypes (rules : FeedRules) (base : Base) (workId : Option Id)
    (t : Table ρ) : Table ρ :=
  t.update (fun r => inScope workId (key r)) (typed rules base)
    (.of_key (key_typed rules base))

end Fill

end Komika.Feed.Types
