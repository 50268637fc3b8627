import Komika.Feed.BrowseSql
import Komika.Feed.Types
import Komika.Lib.Encoding
import Komika.Lib.Machine
import Komika.Lib.ShortestDecimal

/-!
# The memo of Browse's totals

`browse.rs` keeps the totals that its COUNT statements have returned, under a key
that spells out the filter.  The key is read by nobody; it only has to be another
one for another filter.  Its parts are closed by bars, and the genres, which come
from the client and may contain anything, stand last, each after its length in
bytes.

A rating bound is an `f64`, and its part of the key is its `Display`: the shortest
decimal that reads back as it.  Two zeros are equal numbers with two texts, so a bound
of `-0.0` has a key of its own (`not_countKey_zeros`).  That is the only way in which
equal filters miss each other's totals; no key serves another filter.

The memo itself forgets: a total is served for a while after it was stored, the
whole memo is cleared when the catalogue is rebuilt, and it is never larger than its
cap.

* `countKey_eq_iff` — one key is one filter, with bounds of one sign;
* `buildWhere_congr` — a filter is one WHERE, text and binds;
* `kept_run`, `storedSince_of_cached` — what the memo holds and serves, over every
  run of stores, lookups and clears;
* `countMemo_sound` — the three together.
-/

namespace Komika.Feed.CountMemo

open Komika.Lib Komika.Lib.Machine Komika.Lib.Table
open Komika.Feed.Types (ComicType collapsedComicTypeWord)
open Komika.Feed.BrowseSql

/-! ## The words of a filter

What the resolver turns its enumerations into; the words contain no bar, and none is
empty. -/

/-- `SeriesStatus`, one of the fixed vocabularies of the filter. -/
inductive SeriesStatus where
  | ongoing
  | completed
  | hiatus
  | cancelled
  | unknown
deriving DecidableEq, Repr

/-- `status_word`, the spelling that the column and the key have. -/
def statusWord : SeriesStatus → String
  | .ongoing => "ONGOING"
  | .completed => "COMPLETED"
  | .hiatus => "HIATUS"
  | .cancelled => "CANCELLED"
  | .unknown => "UNKNOWN"

/-- `ContentRatingFilter`: a tier with all below it, or the works that are not safe for
work. -/
inductive ContentRatingFilter where
  | all
  | safe
  | suggestive
  | erotica
  | pornographic
  | nsfwOnly
deriving DecidableEq, Repr

/-- `content_rating_tier`: the ratings that a tier admits; `none` filters nothing. -/
def contentRatingTier : ContentRatingFilter → Option (List String)
  | .all | .pornographic | .nsfwOnly => none
  | .safe => some ["safe"]
  | .suggestive => some ["safe", "suggestive"]
  | .erotica => some ["safe", "suggestive", "erotica"]

/-- A query of the resolver's: its bounds are `f64`s. -/
abbrev Query := BrowseQuery Binary64.Finite

/-- What the resolver makes of its arguments: words of the fixed vocabularies, and
bounds that are finite. -/
structure Resolved (q : Query) : Prop where
  typeWord : ∃ t : Option ComicType, q.typeWord = t.map collapsedComicTypeWord
  statusWord : ∃ s : Option SeriesStatus, q.statusWord = s.map statusWord
  ratings : ∃ f : ContentRatingFilter, q.ratings = contentRatingTier f
  minRating : q.minRating ≠ some none
  maxRating : q.maxRating ≠ some none

/-- `MAX_GENRE_FILTERS`: what is beyond it is ignored, in the key as in the WHERE. -/
def maxGenreFilters : Nat := 12

/-- `canonical_genres`: trimmed, sorted, each once, and cut to the first twelve. -/
def canonicalGenres (trim : String → String) (genres : List String) : List String :=
  ((((genres.map trim).filter fun g => g ≠ "").insertionSort fun a b => a ≤ b).destutter
    fun a b => a ≠ b).take maxGenreFilters

/-! ## The key

A format string, of which the parts are functions of one field each. -/

/-- `g.len()`, in bytes of UTF-8. -/
def byteLen (g : String) : Nat := SelfDelimiting.weight Char.utf8Size g.toList

/-- `{byte_len}:{tag}`: the length in front says where the tag ends, whatever is in
it. -/
def genreText (g : String) : String := toString (byteLen g) ++ ":" ++ g

/-- `if b { "1" } else { "0" }`. -/
def flagText (b : Bool) : String := if b then "1" else "0"

/-- The three values of `has_chapters`. -/
def hasChaptersText : Option Bool → String
  | some true => "1"
  | some false => "0"
  | none => "-"

/-- `{b}` of a bound. -/
def display (b : Bound Binary64.Finite) : String :=
  b.elim "NaN" fun x => String.ofList x.display

/-- The text of a bound; the absence of one is empty. -/
def boundText (b : Option (Bound Binary64.Finite)) : String := b.elim "" display

/-- `count_key`: every field that `build_where` reads, in one text; no sort and no
page. -/
def countKey (q : Query) : String :=
  "v3|" ++ flagText q.showNsfw ++ "|" ++ flagText q.nsfwOnly ++ "|" ++
    ",".intercalate (q.ratings.getD []) ++ "|" ++ q.typeWord.getD "" ++ "|" ++
    q.statusWord.getD "" ++ "|" ++ hasChaptersText q.hasChapters ++ "|" ++
    boundText q.minRating ++ "|" ++ boundText q.maxRating ++ "|" ++
    String.join (q.genres.map genreText)

/-- `==` of two bounds: NaN is not equal to itself, and the two zeros are equal. -/
def eqBound : Option (Bound Binary64.Finite) → Option (Bound Binary64.Finite) → Bool
  | none, none => true
  | some (some x), some (some y) => x.toBinary64.eqv y.toBinary64
  | _, _ => false

/-- Every field that `build_where` reads is equal. -/
structure SameFilter (q r : Query) : Prop where
  showNsfw : q.showNsfw = r.showNsfw
  nsfwOnly : q.nsfwOnly = r.nsfwOnly
  ratings : q.ratings = r.ratings
  typeWord : q.typeWord = r.typeWord
  statusWord : q.statusWord = r.statusWord
  hasChapters : q.hasChapters = r.hasChapters
  minRating : eqBound q.minRating r.minRating = true
  maxRating : eqBound q.maxRating r.maxRating = true
  genres : q.genres = r.genres

/-- The sign of a bound that is there. -/
def signOf (b : Option (Bound Binary64.Finite)) : Option Bool :=
  b.join.map Binary64.Finite.negative

/-- The bounds have one sign.  Only two zeros can be equal and have two. -/
structure SameSigns (q r : Query) : Prop where
  minRating : signOf q.minRating = signOf r.minRating
  maxRating : signOf q.maxRating = signOf r.maxRating

/-! ## The memo

A map behind a mutex, with three operations. -/

/-- `COUNT_CACHE_CAP`, the most entries that the memo holds. -/
def countCacheCap : Nat := 2048

/-- A total, and when it was stored; times are instants of one clock. -/
structure CountEntry where
  key : String
  total : Int
  storedAt : Nat
deriving DecidableEq

instance : Keyed CountEntry := .ofKey CountEntry.key

instance : ByKey CountEntry String where
  key := CountEntry.key
  clash_iff _ _ := decide_eq_true_iff

/-- `at.elapsed() < ttl`, at the instant `now`. -/
def CountEntry.live (e : CountEntry) (now ttl : Nat) : Bool := now - e.storedAt < ttl

/-- `cached_count_with`: the total under the key, if it is younger than the time to
live. -/
def cachedCountWith (now ttl : Nat) (k : String) (cache : Table CountEntry) : Option Int :=
  (cache.lookup k).bind fun e => if e.live now ttl then some e.total else none

/-- The first half of `store_count_with`: a full memo is made smaller. -/
def makeRoom (now ttl : Nat) (cache : Table CountEntry) : Table CountEntry :=
  if countCacheCap ≤ cache.rows.length then
    let kept := cache.deleteWhere fun e => !e.live now ttl
    if countCacheCap ≤ kept.rows.length then .empty else kept
  else cache

/-- `store_count_with`: makes room first, then replaces what is under the key. -/
def storeCountWith (now ttl : Nat) (k : String) (total : Int) (cache : Table CountEntry) :
    Table CountEntry :=
  (makeRoom now ttl cache).insertOrReplace ⟨k, total, now⟩

/-- What the resolver does to the memo, and the rebuild's clear. -/
inductive MemoOp where
  | store (now ttl : Nat) (key : String) (total : Int)
  | lookup (now ttl : Nat) (key : String)
  | clear
deriving DecidableEq

/-- A lookup that finds its total does not write. -/
def memoStep (cache : Table CountEntry) : MemoOp → Table CountEntry
  | .store now ttl key total => storeCountWith now ttl key total cache
  | .lookup _ _ _ => cache
  | .clear => .empty

/-- The total was stored under the key at that instant, and neither was the memo
cleared since, nor another total stored under the key. -/
def StoredSince (ops : List MemoOp) (key : String) (total : Int) (storedAt : Nat) : Prop :=
  ∃ before after ttl, ops = before ++ .store storedAt ttl key total :: after ∧
    .clear ∉ after ∧ ∀ now ttl' other, .store now ttl' key other ∉ after

/-! ## Taking a key apart

A text that is delimited by itself can be read off the front of any other; a key is a
sequence of such texts, so it tells each of them. -/

/-- A text closed by a bar. -/
def barred {α : Type} (f : α → String) (a : α) : List Char := (f a).toList ++ ['|']

/-- The tiers, joined by commas. -/
def ratingsText (ratings : Option (List String)) : String :=
  ",".intercalate (ratings.getD [])

/-- A word, or nothing. -/
def wordText (word : Option String) : String := word.getD ""

/-- The genres, one after the other. -/
def genresCode (genres : List String) : List Char :=
  genres.flatMap fun g => (genreText g).toList

/-- A text without a bar is delimited by the bar behind it. -/
theorem selfDelimiting_barred {α : Type} {S : Set α} {f : α → String} (hinj : Set.InjOn f S)
    (hbar : ∀ a ∈ S, '|' ∉ (f a).toList) : SelfDelimiting S (barred f) := by
  apply SelfDelimiting.closed
  · intro a ha b hb heq
    exact hinj ha hb (String.toList_injective heq)
  · exact hbar

/-- A flag tells where it ends. -/
theorem selfDelimiting_flag : SelfDelimiting Set.univ (barred flagText) := by
  apply selfDelimiting_barred
  · intro a _ b _ heq
    revert a b
    decide
  · intro a _
    revert a
    decide

theorem selfDelimiting_hasChapters : SelfDelimiting Set.univ (barred hasChaptersText) := by
  apply selfDelimiting_barred
  · intro a _ b _ heq
    rcases a with _ | _ | _ <;> rcases b with _ | _ | _ <;>
      first | rfl | exact absurd heq (by decide)
  · intro a _
    rcases a with _ | _ | _ <;> decide

theorem selfDelimiting_ratings :
    SelfDelimiting (Set.range contentRatingTier) (barred ratingsText) := by
  apply selfDelimiting_barred
  · rintro _ ⟨f, rfl⟩ _ ⟨g, rfl⟩ heq
    cases f <;> cases g <;> first | rfl | exact absurd heq (by decide)
  · rintro _ ⟨f, rfl⟩
    cases f <;> decide

/-- Where a word is never empty, its absence may be written as the empty text. -/
theorem selfDelimiting_optional {α : Type} {S : Set (Option α)} {f : α → String}
    (hinj : ∀ a b, some a ∈ S → some b ∈ S → f a = f b → a = b)
    (hne : ∀ a, some a ∈ S → f a ≠ "") (hbar : ∀ a, some a ∈ S → '|' ∉ (f a).toList) :
    SelfDelimiting S (barred fun a => a.elim "" f) := by
  apply selfDelimiting_barred
  · intro a ha b hb heq
    cases a with
    | none =>
        cases b with
        | none => rfl
        | some b => exact absurd heq.symm (hne b hb)
    | some a =>
        cases b with
        | none => exact absurd heq (hne a ha)
        | some b => exact congrArg some (hinj a b ha hb heq)
  · intro a ha
    cases a with
    | none => exact List.not_mem_nil
    | some a => exact hbar a ha

/-- The words of a vocabulary. -/
theorem selfDelimiting_word {κ : Type} {word : κ → String} (hne : ∀ k, word k ≠ "")
    (hbar : ∀ k, '|' ∉ (word k).toList) :
    SelfDelimiting (Set.range (Option.map word)) (barred wordText) := by
  have hword : ∀ {w : String}, some w ∈ Set.range (Option.map word) → ∃ k, word k = w := by
    rintro w ⟨t, ht⟩
    obtain ⟨k, -, hk⟩ := Option.map_eq_some_iff.mp ht
    exact ⟨k, hk⟩
  have hoptional : SelfDelimiting (Set.range (Option.map word))
      (barred fun w : Option String => w.elim "" id) := by
    apply selfDelimiting_optional
    · exact fun a b _ _ heq => heq
    · intro w hw
      obtain ⟨k, rfl⟩ := hword hw
      exact hne k
    · intro w hw
      obtain ⟨k, rfl⟩ := hword hw
      exact hbar k
  have htext : wordText = fun w : Option String => w.elim "" id := by
    funext w
    cases w <;> rfl
  rw [htext]
  exact hoptional

/-- The text of a bound is not empty, and holds no bar. -/
theorem display_spec (b : Bound Binary64.Finite) : display b ≠ "" ∧ '|' ∉ (display b).toList := by
  cases b with
  | none => decide
  | some x =>
      have htext : (display (some x)).toList = x.display := String.toList_ofList
      constructor
      · intro hempty
        apply Binary64.Finite.text_ne_nil (p := 1074) (j := 1383) x
        rw [hempty] at htext
        exact htext.symm
      · rw [htext]
        intro hbar
        rcases Binary64.Finite.of_mem_text hbar with hdigit | hpoint | hminus
        · contradiction
        · contradiction
        · contradiction

/-- It tells the bound, and a zero from its negative. -/
theorem display_injective : Function.Injective display := by
  have hnan : ∀ x : Binary64.Finite, display (some x) ≠ "NaN" := by
    intro x heq
    have hlist : x.display = "NaN".toList := String.toList_ofList.symm.trans
      (congrArg String.toList heq)
    have hn : 'N' ∈ x.display := by
      rw [hlist]
      decide
    rcases Binary64.Finite.of_mem_text hn with hdigit | hpoint | hminus
    · contradiction
    · contradiction
    · contradiction
  intro a b heq
  cases a with
  | none =>
      cases b with
      | none => rfl
      | some y => exact absurd heq.symm (hnan y)
  | some x =>
      cases b with
      | none => exact absurd heq (hnan x)
      | some y =>
          exact congrArg some (Binary64.Finite.display_inj.mp (String.ofList_injective heq))

theorem selfDelimiting_bound : SelfDelimiting Set.univ (barred boundText) := by
  apply selfDelimiting_optional
  · exact fun a b _ _ heq => display_injective heq
  · exact fun a _ => (display_spec a).1
  · exact fun a _ => (display_spec a).2

/-- A genre may contain anything: its length tells where it ends. -/
theorem selfDelimiting_genre :
    SelfDelimiting Set.univ fun g : String => (genreText g).toList := by
  have hheader : SelfDelimiting Set.univ fun n : ℕ => Nat.toDigits 10 n ++ [':'] := by
    apply SelfDelimiting.closed
    · exact toDigits_injective.injOn
    · exact fun n _ => not_mem_toDigits rfl n
  have hcounted := SelfDelimiting.counted (w := Char.utf8Size) Char.utf8Size_pos hheader
  intro a _ b _ x y heq
  have htext : ∀ g : String, (genreText g).toList =
      (Nat.toDigits 10 (SelfDelimiting.weight Char.utf8Size g.toList) ++ [':']) ++ g.toList := by
    intro g
    have hdigits : (toString (byteLen g)).toList = Nat.toDigits 10 (byteLen g) :=
      Nat.toList_repr
    rw [genreText, String.toList_append, String.toList_append, hdigits]
    rfl
  simp only [htext] at heq
  obtain ⟨htoList, hxy⟩ := hcounted _ trivial _ trivial x y heq
  exact ⟨String.toList_injective htoList, hxy⟩

/-- The parts of a key. -/
theorem toList_countKey (q : Query) :
    (countKey q).toList = "v3|".toList ++ (barred flagText q.showNsfw ++
      (barred flagText q.nsfwOnly ++ (barred ratingsText q.ratings ++
        (barred wordText q.typeWord ++ (barred wordText q.statusWord ++
          (barred hasChaptersText q.hasChapters ++ (barred boundText q.minRating ++
            (barred boundText q.maxRating ++ genresCode q.genres)))))))) := by
  have hgenres : (String.join (q.genres.map genreText)).toList = genresCode q.genres := by
    rw [String.toList_join, List.flatMap_map]
    rfl
  have hbar : "|".toList = ['|'] := rfl
  unfold countKey barred ratingsText wordText
  simp only [String.toList_append, hgenres, hbar, List.append_assoc]

/-- Finite bounds are one bound if they are equal and of one sign. -/
theorem eq_iff_eqBound {a b : Option (Bound Binary64.Finite)} (ha : a ≠ some none)
    (hb : b ≠ some none) : a = b ↔ eqBound a b = true ∧ signOf a = signOf b := by
  rcases a with _ | _ | x
  · rcases b with _ | _ | y
    · simp [eqBound]
    · contradiction
    · simp [eqBound]
  · contradiction
  · rcases b with _ | _ | y
    · simp [eqBound]
    · contradiction
    · simp only [Option.some.injEq, eqBound, signOf, Option.join_some, Option.map_some,
        Binary64.Finite.eqv_iff]
      constructor
      · rintro rfl
        exact ⟨rfl, rfl⟩
      · rintro ⟨hunits, hnegative⟩
        exact Binary64.Finite.eq_of_signedUnits hunits hnegative

/-- **One key, one filter**, with bounds of one sign. -/
theorem countKey_eq_iff {q r : Query} (hq : Resolved q) (hr : Resolved r) :
    countKey q = countKey r ↔ SameFilter q r ∧ SameSigns q r := by
  have hword : ∀ t, collapsedComicTypeWord t ≠ "" ∧
      '|' ∉ (collapsedComicTypeWord t).toList := by
    intro t
    cases t <;> decide
  have hstatus : ∀ s, statusWord s ≠ "" ∧ '|' ∉ (statusWord s).toList := by
    intro s
    cases s <;> decide
  constructor
  · intro heq
    have hlist := congrArg String.toList heq
    rw [toList_countKey, toList_countKey] at hlist
    have hkey := List.append_cancel_left hlist
    obtain ⟨hnsfw, hkey⟩ := selfDelimiting_flag _ trivial _ trivial _ _ hkey
    obtain ⟨honly, hkey⟩ := selfDelimiting_flag _ trivial _ trivial _ _ hkey
    obtain ⟨hratings, hkey⟩ := selfDelimiting_ratings _ (hq.ratings.imp fun _ => Eq.symm) _
      (hr.ratings.imp fun _ => Eq.symm) _ _ hkey
    obtain ⟨htype, hkey⟩ := selfDelimiting_word (fun t => (hword t).1) (fun t => (hword t).2)
      _ (hq.typeWord.imp fun _ => Eq.symm) _ (hr.typeWord.imp fun _ => Eq.symm) _ _ hkey
    obtain ⟨hstatusWord, hkey⟩ := selfDelimiting_word (fun s => (hstatus s).1)
      (fun s => (hstatus s).2) _ (hq.statusWord.imp fun _ => Eq.symm) _
      (hr.statusWord.imp fun _ => Eq.symm) _ _ hkey
    obtain ⟨hchapters, hkey⟩ := selfDelimiting_hasChapters _ trivial _ trivial _ _ hkey
    obtain ⟨hmin, hkey⟩ := selfDelimiting_bound _ trivial _ trivial _ _ hkey
    obtain ⟨hmax, hkey⟩ := selfDelimiting_bound _ trivial _ trivial _ _ hkey
    have hgenres : q.genres = r.genres := by
      apply selfDelimiting_genre.injOn_flatMap _ (fun _ _ => trivial) (fun _ _ => trivial) hkey
      intro g _ hempty
      have hcolon : ':' ∈ (genreText g).toList := by
        simp [genreText]
      rw [hempty] at hcolon
      contradiction
    obtain ⟨hminEq, hminSign⟩ := (eq_iff_eqBound hq.minRating hr.minRating).mp hmin
    obtain ⟨hmaxEq, hmaxSign⟩ := (eq_iff_eqBound hq.maxRating hr.maxRating).mp hmax
    exact ⟨⟨hnsfw, honly, hratings, htype, hstatusWord, hchapters, hminEq, hmaxEq, hgenres⟩,
      hminSign, hmaxSign⟩
  · rintro ⟨h, hsigns⟩
    have hmin : q.minRating = r.minRating :=
      (eq_iff_eqBound hq.minRating hr.minRating).mpr ⟨h.minRating, hsigns.minRating⟩
    have hmax : q.maxRating = r.maxRating :=
      (eq_iff_eqBound hq.maxRating hr.maxRating).mpr ⟨h.maxRating, hsigns.maxRating⟩
    unfold countKey
    rw [h.showNsfw, h.nsfwOnly, h.ratings, h.typeWord, h.statusWord, h.hasChapters, hmin,
      hmax, h.genres]

/-- The query as the database reads it, where `real` is the number that so many units
are: a zero has no sign there. -/
def bound {ρ : Type} (real : Int → ρ) (q : Query) : BrowseQuery ρ where
  showNsfw := q.showNsfw
  typeWord := q.typeWord
  statusWord := q.statusWord
  ratings := q.ratings
  nsfwOnly := q.nsfwOnly
  genres := q.genres
  hasChapters := q.hasChapters
  minRating := q.minRating.map (Option.map fun x => real x.signedUnits)
  maxRating := q.maxRating.map (Option.map fun x => real x.signedUnits)
  sort := q.sort
  page := q.page

/-- Equal bounds are one number for the database. -/
theorem map_of_eqBound {ρ : Type} {real : Int → ρ} {a b : Option (Bound Binary64.Finite)}
    (h : eqBound a b = true) :
    a.map (Option.map fun x => real x.signedUnits) =
      b.map (Option.map fun x => real x.signedUnits) := by
  rcases a with _ | _ | x <;> rcases b with _ | _ | y <;> try contradiction
  · rfl
  · have hunits : x.signedUnits = y.signedUnits := Binary64.Finite.eqv_iff.mp h
    simp [hunits]

/-- The WHERE is a function of the filter, whatever the signs of its zeros. -/
theorem buildWhere_congr {ρ : Type} [Rating ρ] (real : Int → ρ) {q r : Query}
    (h : SameFilter q r) : buildWhere (bound real q) = buildWhere (bound real r) := by
  have hsame : bound real q = { bound real r with sort := q.sort, page := q.page } := by
    simp only [bound, h.showNsfw, h.nsfwOnly, h.ratings, h.typeWord, h.statusWord,
      h.hasChapters, map_of_eqBound h.minRating, map_of_eqBound h.maxRating, h.genres]
  rw [hsame]
  rfl

/-! ## What the memo holds

The run lemma, and what a lookup may serve. -/

/-- A canonical list does not depend on the order in which the genres came. -/
theorem canonicalGenres_perm {trim : String → String} {xs ys : List String}
    (h : xs.Perm ys) : canonicalGenres trim xs = canonicalGenres trim ys := by
  have hsorted : ((xs.map trim).filter fun g => g ≠ "").insertionSort (fun a b => a ≤ b) =
      ((ys.map trim).filter fun g => g ≠ "").insertionSort fun a b => a ≤ b := by
    apply List.Perm.eq_of_pairwise
    · exact fun a b _ _ hab hba => le_antisymm hab hba
    · exact List.pairwise_insertionSort _ _
    · exact List.pairwise_insertionSort _ _
    · exact ((List.perm_insertionSort _ _).trans ((h.map trim).filter _)).trans
        (List.perm_insertionSort _ _).symm
  rw [canonicalGenres, hsorted, canonicalGenres]

section Memo

variable {cache : Table CountEntry} {ops : List MemoOp} {op : MemoOp} {e : CountEntry}
variable {k : String} {total : Int} {now ttl storedAt : Nat}

theorem mem_makeRoom (h : e ∈ makeRoom now ttl cache) : e ∈ cache := by
  unfold makeRoom at h
  split at h
  · dsimp only at h
    split at h
    · exact absurd h (not_mem_empty e)
    · exact (mem_deleteWhere.mp h).1
  · exact h

/-- There is room for one more. -/
theorem length_makeRoom : (makeRoom now ttl cache).rows.length < countCacheCap := by
  unfold makeRoom
  dsimp only
  split
  · split
    · exact Nat.succ_pos 2047
    · omega
  · omega

/-- A store never exceeds the cap. -/
theorem length_storeCountWith :
    (storeCountWith now ttl k total cache).rows.length ≤ countCacheCap := by
  have hroom : (makeRoom now ttl cache).rows.length < countCacheCap := length_makeRoom
  have hdeleted : ((makeRoom now ttl cache).deleteWhere
      (clash (CountEntry.mk k total now))).rows.length ≤
        (makeRoom now ttl cache).rows.length := List.length_filter_le _ _
  show (((makeRoom now ttl cache).deleteWhere
    (clash (CountEntry.mk k total now))).rows ++ [CountEntry.mk k total now]).length ≤
      countCacheCap
  rw [List.length_append, List.length_singleton]
  omega

/-- The entry of a store, and the old entries of other keys. -/
theorem mem_storeCountWith (h : e ∈ storeCountWith now ttl k total cache) :
    e = ⟨k, total, now⟩ ∨ (e ∈ cache ∧ e.key ≠ k) := by
  rcases mem_insertOrReplace.mp h with ⟨hold, hclash⟩ | hnew
  · right
    rw [← Bool.not_eq_true, ByKey.clash_iff] at hclash
    exact ⟨mem_makeRoom hold, fun heq => hclash heq.symm⟩
  · exact .inl hnew

/-- A later step that neither clears the memo nor stores under the key changes
nothing. -/
theorem StoredSince.concat (h : StoredSince ops k total storedAt) (hclear : op ≠ .clear)
    (hstore : ∀ now ttl other, op ≠ .store now ttl k other) :
    StoredSince (ops ++ [op]) k total storedAt := by
  obtain ⟨before, after, ttl, rfl, hcleared, hreplaced⟩ := h
  refine ⟨before, after ++ [op], ttl, by simp, ?_, ?_⟩
  · simp [hcleared, hclear.symm]
  · intro now ttl' other hmem
    rcases List.mem_append.mp hmem with hmem | hmem
    · exact hreplaced now ttl' other hmem
    · exact hstore now ttl' other (List.mem_singleton.mp hmem).symm

/-- A total has just been stored. -/
theorem storedSince_store : StoredSince (ops ++ [.store now ttl k total]) k total now :=
  ⟨ops, [], ttl, rfl, List.not_mem_nil, fun _ _ _ => List.not_mem_nil⟩

/-- Every entry is of the last store under its key since the memo was cleared, and the
memo is not larger than its cap. -/
structure Kept (ops : List MemoOp) (cache : Table CountEntry) : Prop where
  entries : ∀ e ∈ cache, StoredSince ops e.key e.total e.storedAt
  length : cache.rows.length ≤ countCacheCap

/-- The step lemma: what is stored, forgotten and cleared. -/
theorem kept_step (h : Kept ops cache) : Kept (ops ++ [op]) (memoStep cache op) := by
  cases op with
  | store now ttl k total =>
      constructor
      · intro e he
        rcases mem_storeCountWith he with rfl | ⟨hold, hkey⟩
        · exact storedSince_store
        · apply (h.entries e hold).concat
          · exact fun heq => MemoOp.noConfusion heq
          · intro now' ttl' other heq
            exact hkey (MemoOp.store.inj heq).2.2.1.symm
      · exact length_storeCountWith
  | lookup now ttl k =>
      constructor
      · intro e he
        apply (h.entries e he).concat
        · exact fun heq => MemoOp.noConfusion heq
        · exact fun _ _ _ heq => MemoOp.noConfusion heq
      · exact h.length
  | clear =>
      constructor
      · exact fun e he => absurd he (not_mem_empty e)
      · exact Nat.zero_le _

theorem kept_run (ops : List MemoOp) : Kept ops (run memoStep .empty ops) := by
  apply run_history_invariant (P := fun _ _ => True)
  · constructor
    · exact fun e he => absurd he (not_mem_empty e)
    · exact Nat.zero_le _
  · exact fun before e h _ => kept_step h
  · exact eachStep_of_forall fun _ _ => trivial

/-- A total that is served was stored under the key, and not too long ago. -/
theorem storedSince_of_cached
    (h : cachedCountWith now ttl k (run memoStep .empty ops) = some total) :
    ∃ storedAt, StoredSince ops k total storedAt ∧ now - storedAt < ttl := by
  obtain ⟨e, he, hlive⟩ := Option.bind_eq_some_iff.mp h
  have hkey : e.key = k := key_of_lookup he
  have hstored := (kept_run ops).entries e (mem_of_lookup he)
  split at hlive
  · next hfresh =>
      cases hlive
      exact ⟨e.storedAt, hkey ▸ hstored, of_decide_eq_true hfresh⟩
  · contradiction

end Memo

/-- **The memo serves no other filter's total.**  A key stands for one filter, whose
zeros have a sign, and so for one WHERE: every segment of the key can be read back, the
genres by the lengths in front of them.  A lookup serves only what was stored under the
key since the memo was cleared, within its time, and the memo stays within its cap. -/
theorem countMemo_sound :
    (∀ q r : Query, Resolved q → Resolved r →
      (countKey q = countKey r ↔ SameFilter q r ∧ SameSigns q r)) ∧
    (∀ (q : Query) (sort : BrowseSort) (page : Int),
      countKey { q with sort := sort, page := page } = countKey q) ∧
    ∀ ops : List MemoOp,
      (run memoStep .empty ops).rows.length ≤ countCacheCap ∧
      ∀ now ttl k total, cachedCountWith now ttl k (run memoStep .empty ops) = some total →
        ∃ storedAt, StoredSince ops k total storedAt ∧ now - storedAt < ttl := by
  refine ⟨?_, ?_, ?_⟩
  · exact fun q r hq hr => countKey_eq_iff hq hr
  · exact fun q sort page => rfl
  · intro ops
    exact ⟨(kept_run ops).length, fun now ttl k total h => storedSince_of_cached h⟩

/-! ## Two genres and one, two zeros and one

The spellings that the key is to tell apart, and the one that it tells apart for
nothing. -/

/-- All of the catalogue, by genre and from a rating up. -/
def byGenres (genres : List String) (minRating : Binary64.Finite) : Query where
  showNsfw := false
  typeWord := none
  statusWord := none
  ratings := none
  nsfwOnly := false
  genres := genres
  hasChapters := none
  minRating := some (some minRating)
  maxRating := none
  sort := .newest
  page := 1

/-- The resolver lets such a query through. -/
theorem resolved_byGenres (genres : List String) (x : Binary64.Finite) :
    Resolved (byGenres genres x) := by
  refine ⟨⟨none, rfl⟩, ⟨none, rfl⟩, ⟨.all, rfl⟩, ?_, ?_⟩
  · intro h
    cases h
  · intro h
    cases h

/-- `0.0`, or `-0.0`: equal as numbers, and printed differently. -/
def zero (negative : Bool) : Binary64.Finite where
  negative := negative
  units := 0
  representable := rfl
  bounded := by
    unfold Binary64.one
    positivity

/-- A genre that spells two others is another filter. -/
theorem countMemo_sound_spelled :
    countKey (byGenres ["a", "b"] (zero false)) ≠
      countKey (byGenres ["a1:b"] (zero false)) := by
  intro heq
  have hsame := (countMemo_sound.1 _ _ (resolved_byGenres _ _) (resolved_byGenres _ _)).mp heq
  exact absurd hsame.1.genres (by decide)

/-- A bound of `0.0` and one of `-0.0` are equal, and have two keys. -/
theorem not_countKey_zeros :
    ¬∀ q r : Query, Resolved q → Resolved r → (countKey q = countKey r ↔ SameFilter q r) := by
  intro h
  have hzeros := h (byGenres [] (zero false)) (byGenres [] (zero true)) (resolved_byGenres _ _)
    (resolved_byGenres _ _)
  have hsame : SameFilter (byGenres [] (zero false)) (byGenres [] (zero true)) := by
    refine ⟨rfl, rfl, rfl, rfl, rfl, rfl, ?_, rfl, rfl⟩
    exact Binary64.Finite.eqv_iff.mpr rfl
  have hsigns := ((countKey_eq_iff (resolved_byGenres _ _) (resolved_byGenres _ _)).mp
    (hzeros.mpr hsame)).2
  exact absurd hsigns.minRating (by decide)

end Komika.Feed.CountMemo
