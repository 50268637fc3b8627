import Mathlib.Data.String.Basic
import Mathlib.Order.WithBot
import Mathlib.Data.Prod.Lex
import Komika.Lib.Paging
import Komika.Feed.Schema

/-!
# The statements behind Browse

Every statement of `browse.rs` that reads `browse_catalogue` is put together
from clauses whose parameters are positional: the text of the WHERE and the
list of binds are built apart, and a statement means what it says only if both
agree.  A clause here takes its parameters from the front of the binds; binds
that do not fit, and a clause that reads `rated_per_work` without its CTE, make
the statement fail.

`Fits` says that clauses take exactly some binds, whatever follows them, and
what they then ask of a row; it is kept by appending (`Fits.append`).
`buildWhere_fits` is the specification of `build_where`: its binds fit its
clauses, and these select what the reader asked for (`Selected`).

* `Fits.append` — binds in the order of their clauses fit;
* `fits_columns` — the columns, whose binds are pushed behind all of their clauses;
* `Where.Means.pushGenres`, `Where.Means.pushBound` — what is pushed afterwards;
* `buildWhere_means` — the filter that is asked for;
* `Select.rows_spec`, `Select.count_eq`, `Select.fetch_spec` — the statements over it.
-/

namespace Komika.Feed.BrowseSql

open Komika.Lib Komika.Lib.Paging Komika.Catalog.Schema Komika.Feed.Schema

/-! ## Tables

The averages are computed by a common table expression that a statement may or may not
carry. -/

/-- The tables that the statements read. -/
structure BrowseDb where
  browseCatalogue : Table BrowseEntry
  workTag : Table WorkTag
  reviews : Table Review
  sourceSeries : Table SourceSeries

/-- The numbers that ratings are: `AVG` gives one for the scores of a work. -/
class Rating (ρ : Type) extends LinearOrder ρ, Zero ρ where
  avg : List Int → ρ

variable {ρ : Type} [Rating ρ]

/-- `LIKE 'w!_%' ESCAPE '!'`, which does not tell `w` from `W`. -/
def likeWorkId (seriesId : String) : Bool :=
  match seriesId.toList with
  | c :: '_' :: _ => c == 'w' || c == 'W'
  | _ => false

/-- The two arms of the `UNION ALL` in `RATED_PER_WORK_CTE`: the reviews filed
under a work id, and those filed under the key of a Suwayomi source. -/
def ratedScores (db : BrowseDb) : List (Id × Int) :=
  (db.reviews.rows.filter fun r => likeWorkId r.seriesId).map
      (fun r => (r.seriesId, r.score)) ++
    db.reviews.rows.flatMap fun r =>
      (db.sourceSeries.rows.filter fun ss =>
        ss.sourceKey == r.seriesId && ss.sourceType == "suwayomi").map
        fun ss => (ss.workId, r.score)

/-- The `avg` of a work in `rated_per_work`, which has a row for each work with
a review. -/
def ratedPerWork (db : BrowseDb) (workId : Id) : Option ρ :=
  match ((ratedScores db).filter fun s => s.1 == workId).map Prod.snd with
  | [] => none
  | scores => some (Rating.avg scores)

/-- A review counts for the work. -/
def Rated (db : BrowseDb) (workId : Id) : Prop := workId ∈ (ratedScores db).map Prod.fst

/-- A work has a row exactly if it is rated. -/
theorem isSome_ratedPerWork {db : BrowseDb} {workId : Id} :
    (ratedPerWork (ρ := ρ) db workId).isSome = true ↔ Rated db workId := by
  rw [ratedPerWork, Rated, List.mem_map]
  cases hscores : ((ratedScores db).filter fun s => s.1 == workId).map Prod.snd with
  | nil =>
      rw [List.map_eq_nil_iff, List.filter_eq_nil_iff] at hscores
      apply iff_of_false (by simp)
      rintro ⟨s, hs, hw⟩
      exact hscores s hs (beq_iff_eq.mpr hw)
  | cons score scores =>
      have hmem : score ∈ ((ratedScores db).filter fun s => s.1 == workId).map Prod.snd := by
        simp [hscores]
      obtain ⟨s, hs, -⟩ := List.mem_map.mp hmem
      rw [List.mem_filter, beq_iff_eq] at hs
      exact iff_of_true rfl ⟨s, hs⟩

/-- An unrated work counts as 0. -/
def ratingOf (db : BrowseDb) (workId : Id) : ρ := (ratedPerWork db workId).getD 0

/-! ## Queries

The query of the request, and the values that are bound for it. -/

/-- `BrowseSort`, the orders of the list. -/
inductive BrowseSort where
  | trending
  | newest
  | rating
  | chapters
deriving DecidableEq, Repr

/-- A bound of the reader's; `none` is a NaN, which SQLite takes for NULL. -/
abbrev Bound (ρ : Type) := Option ρ

/-- What the reader asks for; the words are those of the enumerations of the schema. -/
structure BrowseQuery (ρ : Type) where
  showNsfw : Bool
  typeWord : Option String
  statusWord : Option String
  ratings : Option (List String)
  nsfwOnly : Bool
  genres : List String
  hasChapters : Option Bool
  minRating : Option (Bound ρ)
  maxRating : Option (Bound ρ)
  sort : BrowseSort
  page : Int

/-- A parameter of a statement. -/
inductive Bind (ρ : Type) where
  | text (s : String)
  | real (v : Bound ρ)

/-! ## Clauses

Every clause of the module is a constructor, with the condition it asks of a row and the
binds that it takes for it. -/

/-- The conjuncts of the WHEREs.  The number of an `IN` is how many placeholders
it has. -/
inductive Clause where
  | isNsfw (value : Bool)
  | comicTypeEq
  | statusEq
  | contentRatingEq
  | contentRatingIn (n : Nat)
  | enChapterCountPos
  | enChapterCountZero
  | tagIn (n : Nat)
  | ratingAtLeast
  | ratingAtMost
  | workIdIn (n : Nat)
  | workIdNotIn (n : Nat)
  | notRated
deriving DecidableEq, Repr

/-- The clauses that read `rated_per_work`. -/
def Clause.usesRated : Clause → Bool
  | .ratingAtLeast | .ratingAtMost | .notRated => true
  | _ => false

/-- What a clause asks of a row. -/
abbrev Condition := BrowseEntry → Bool

/-- The parameters of one `IN`, off the front of the binds. -/
def takeTexts : Nat → List (Bind ρ) → Option (List String × List (Bind ρ))
  | 0, binds => some ([], binds)
  | n + 1, .text s :: binds =>
      (takeTexts n binds).map fun (ss, rest) => (s :: ss, rest)
  | _ + 1, _ => none

/-- A clause with one text parameter. -/
def withText (f : String → Condition) : List (Bind ρ) → Option (Condition × List (Bind ρ))
  | .text s :: rest => some (f s, rest)
  | _ => none

/-- A clause with `n` text parameters. -/
def withTexts (n : Nat) (f : List String → Condition) (binds : List (Bind ρ)) :
    Option (Condition × List (Bind ρ)) :=
  (takeTexts n binds).map fun (ss, rest) => (f ss, rest)

/-- A clause that compares with a number: nothing compares with NULL. -/
def withReal (f : ρ → Condition) : List (Bind ρ) → Option (Condition × List (Bind ρ))
  | .real v :: rest => some (fun e => v.any fun x => f x e, rest)
  | _ => none

/-- A clause with its parameters, and the binds that are left. -/
def Clause.bind (db : BrowseDb) :
    Clause → List (Bind ρ) → Option (Condition × List (Bind ρ))
  | .isNsfw value, binds => some (fun f => f.isNsfw == value, binds)
  | .comicTypeEq, binds => withText (fun t f => f.comicType == some t) binds
  | .statusEq, binds => withText (fun s f => f.status == some s) binds
  | .contentRatingEq, binds => withText (fun r f => f.contentRating == r) binds
  | .contentRatingIn n, binds => withTexts n (fun rs f => rs.contains f.contentRating) binds
  | .enChapterCountPos, binds => some (fun f => decide (0 < f.enChapterCount), binds)
  | .enChapterCountZero, binds => some (fun f => f.enChapterCount == 0, binds)
  | .tagIn n, binds =>
      withTexts n
        (fun tags f =>
          db.workTag.rows.any fun t => t.workId == f.workId && tags.contains t.tag)
        binds
  | .ratingAtLeast, binds => withReal (fun v f => decide (v ≤ ratingOf db f.workId)) binds
  | .ratingAtMost, binds => withReal (fun v f => decide (ratingOf db f.workId ≤ v)) binds
  | .workIdIn n, binds => withTexts n (fun ids f => ids.contains f.workId) binds
  | .workIdNotIn n, binds => withTexts n (fun ids f => !ids.contains f.workId) binds
  | .notRated, binds => some (fun f => (ratedPerWork (ρ := ρ) db f.workId).isNone, binds)

/-- The conjunction of some clauses, each with its own parameters. -/
def bindAll (db : BrowseDb) :
    List Clause → List (Bind ρ) → Option (Condition × List (Bind ρ))
  | [], binds => some (fun _ => true, binds)
  | c :: cs, binds => do
      let (cond, binds) ← c.bind db binds
      let (conds, binds) ← bindAll db cs binds
      some (fun f => cond f && conds f, binds)

/-! ## Statements

A statement fails if its binds are not exactly used up, or if it reads a table it has
not defined. -/

/-- `{prelude}SELECT … FROM browse_catalogue f {join} WHERE {where_sql}`. -/
structure Select where
  /-- `RATED_PER_WORK_CTE` is prepended. -/
  cte : Bool
  /-- `JOIN rated_per_work rp ON rp.wid = f.work_id`. -/
  joinsRated : Bool
  whereSql : List Clause

/-- The statement does not read a `rated_per_work` that it has not defined. -/
def Select.defined (s : Select) : Bool :=
  s.cte || !(s.joinsRated || s.whereSql.any Clause.usesRated)

/-- The rows of a statement; the clauses have to take all of the binds. -/
def Select.rows (s : Select) (db : BrowseDb) (binds : List (Bind ρ)) :
    Option (List BrowseEntry) :=
  if s.defined then
    match bindAll db s.whereSql binds with
    | some (cond, []) =>
        some (db.browseCatalogue.rows.filter fun f =>
          (!s.joinsRated || (ratedPerWork (ρ := ρ) db f.workId).isSome) && cond f)
    | _ => none
  else none

/-- `SELECT COUNT(*)` over the same WHERE and binds. -/
def Select.count (s : Select) (db : BrowseDb) (binds : List (Bind ρ)) : Option Int :=
  (s.rows db binds).map fun rows => (rows.length : Int)

/-- A row as the card reads it: without its content rating. -/
structure BrowseRow where
  workId : Id
  readerId : String
  title : String
  coverUrl : Option String
  suwayomiThumbnail : Option String
  comicType : Option String
  status : Option String
  enChapterCount : Int
  latestChapter : Option String
  releasedAt : Option Int
  isNsfw : Bool
  createdAt : String
deriving DecidableEq

/-- `BROWSE_COLS`: the columns that a card is shown with. -/
def browseCols (f : BrowseEntry) : BrowseRow where
  workId := f.workId
  readerId := f.readerId
  title := f.title
  coverUrl := f.coverUrl
  suwayomiThumbnail := f.suwayomiThumbnail
  comicType := f.comicType
  status := f.status
  enChapterCount := f.enChapterCount
  latestChapter := f.latestChapter
  releasedAt := f.releasedAt
  isNsfw := f.isNsfw
  createdAt := f.createdAt

/-- `LIMIT ? OFFSET ?`: no bound below 0, and no offset below 0. -/
def limitOffset {α : Type} (limit offset : Int) (rows : List α) : List α :=
  if limit < 0 then rows.drop offset.toNat
  else slice offset.toNat limit.toNat rows

/-- `SELECT {BROWSE_COLS} … ORDER BY {order} LIMIT ? OFFSET ?`, with a descending
order.  The last two parameters are bound after all of the others. -/
def Select.fetch {κ : Type} [LinearOrder κ] (s : Select) (db : BrowseDb)
    (binds : List (Bind ρ)) (order : BrowseEntry → κ) (limit offset : Int) :
    Option (List BrowseRow) :=
  (s.rows db binds).map fun rows =>
    (limitOffset limit offset (descending order rows)).map browseCols

/-- A nullable column to sort by: NULL is less than every value. -/
def nullable {κ : Type} (v : Option κ) : WithBot κ := v

/-- NULL comes last in a descending order. -/
@[simp] theorem nullable_none {κ : Type} : nullable (none : Option κ) = ⊥ := rfl

@[simp] theorem nullable_some {κ : Type} (x : κ) : nullable (some x) = (x : WithBot κ) := rfl

/-- Both orders end in `f.work_id DESC`. -/
def orderBy : BrowseSort → BrowseEntry → WithBot Int ×ₗ Id
  | .chapters, f => toLex (nullable (some f.enChapterCount), f.workId)
  | _, f => toLex (nullable f.releasedAt, f.workId)

/-- `rp.avg DESC, f.work_id DESC`. -/
def orderByAvg (db : BrowseDb) (f : BrowseEntry) : WithBot ρ ×ₗ Id :=
  toLex (nullable (ratedPerWork db f.workId), f.workId)

/-- A statement of one phase: the shared clauses, and those of the phase. -/
def fetchPage (db : BrowseDb) (cte : Bool) (whereSql extra : List Clause)
    (binds : List (Bind ρ)) (order : BrowseEntry → WithBot Int ×ₗ Id)
    (limit offset : Int) : Option (List BrowseRow) :=
  Select.fetch ⟨cte, false, whereSql ++ extra⟩ db binds order limit offset

/-! ## The WHERE

`build_where` pushes clauses and binds to two lists that only agree at its end. -/

/-- The clauses before the genres, in the order in which they are pushed. -/
def columnClauses (q : BrowseQuery ρ) : List Clause :=
  (if q.showNsfw then [] else [.isNsfw false]) ++
  (if q.nsfwOnly then [.isNsfw true] else []) ++
  (if q.typeWord.isSome then [.comicTypeEq] else []) ++
  (if q.statusWord.isSome then [.statusEq] else []) ++
  (match q.ratings with
    | some r => if r.length = 1 then [.contentRatingEq] else [.contentRatingIn r.length]
    | none => []) ++
  (match q.hasChapters with
    | some true => [.enChapterCountPos]
    | some false => [.enChapterCountZero]
    | none => [])

/-- Their binds, which are pushed after all of these clauses. -/
def columnBinds (q : BrowseQuery ρ) : List (Bind ρ) :=
  (q.typeWord.map .text).toList ++ (q.statusWord.map .text).toList ++
    (q.ratings.getD []).map .text

/-- What `build_where` has pushed so far. -/
structure Where (ρ : Type) where
  parts : List Clause
  binds : List (Bind ρ)
  usesRated : Bool

/-- The genres push their clause and its binds together. -/
def Where.pushGenres (w : Where ρ) (genres : List String) : Where ρ :=
  if genres.isEmpty then w
  else
    { w with
      parts := w.parts ++ [.tagIn genres.length]
      binds := w.binds ++ genres.map .text }

/-- So does each of the two bounds. -/
def Where.pushBound (w : Where ρ) (bound : Option (Bound ρ) × Clause) : Where ρ :=
  match bound.1 with
  | some v =>
      { parts := w.parts ++ [bound.2], binds := w.binds ++ [.real v], usesRated := true }
  | none => w

/-- `build_where`: the columns, the genres, and the two bounds. -/
def buildWhere (q : BrowseQuery ρ) : Where ρ :=
  [(q.minRating, Clause.ratingAtLeast), (q.maxRating, Clause.ratingAtMost)].foldl
    Where.pushBound
    (Where.pushGenres ⟨columnClauses q, columnBinds q, false⟩ q.genres)

/-! ## Clauses that fit their binds

The specification of the two lists together. -/

/-- The clauses take exactly these binds, whatever follows them, and ask `p`. -/
def Fits (db : BrowseDb) (cs : List Clause) (bs : List (Bind ρ))
    (p : BrowseEntry → Prop) : Prop :=
  ∀ more, ∃ cond : Condition,
    bindAll db cs (bs ++ more) = some (cond, more) ∧ ∀ f, cond f = true ↔ p f

section Fits

variable {db : BrowseDb} {cs ds : List Clause} {bs es : List (Bind ρ)}
variable {p r : BrowseEntry → Prop}

theorem Fits.nil : Fits db [] ([] : List (Bind ρ)) fun _ => True := by
  intro more
  exact ⟨fun _ => true, rfl, fun f => by simp⟩

/-- One clause that takes its binds off the front of any list. -/
theorem Fits.clause {c : Clause}
    (h : ∀ more, ∃ cond : Condition,
      c.bind db (bs ++ more) = some (cond, more) ∧ ∀ f, cond f = true ↔ p f) :
    Fits db [c] bs p := by
  intro more
  obtain ⟨cond, hbind, hcond⟩ := h more
  refine ⟨fun f => cond f && true, ?_, ?_⟩
  · simp [bindAll, hbind]
  · intro f
    simp only [Bool.and_true, hcond]

theorem Fits.congr (h : Fits db cs bs p) (hp : ∀ f, p f ↔ r f) : Fits db cs bs r := by
  intro more
  obtain ⟨cond, hbind, hcond⟩ := h more
  exact ⟨cond, hbind, fun f => (hcond f).trans (hp f)⟩

/-- Clauses take their parameters one after the other. -/
theorem bindAll_append (cs ds : List Clause) (binds : List (Bind ρ)) :
    bindAll db (cs ++ ds) binds = (bindAll db cs binds).bind fun left =>
      (bindAll db ds left.2).map fun right =>
        (fun f => left.1 f && right.1 f, right.2) := by
  induction cs generalizing binds with
  | nil => simp [bindAll]
  | cons c cs ih =>
      cases hc : c.bind db binds with
      | none => simp [bindAll, hc]
      | some first =>
          cases hcs : bindAll db cs first.2 with
          | none => simp [bindAll, hc, ih, hcs]
          | some left =>
              cases hds : bindAll db ds left.2 with
              | none => simp [bindAll, hc, ih, hcs, hds]
              | some right => simp [bindAll, hc, ih, hcs, hds, Bool.and_assoc]

/-- Binds in the order of their clauses. -/
theorem Fits.append (h : Fits db cs bs p) (h' : Fits db ds es r) :
    Fits db (cs ++ ds) (bs ++ es) fun f => p f ∧ r f := by
  intro more
  obtain ⟨left, hbind, hleft⟩ := h (es ++ more)
  obtain ⟨right, hbind', hright⟩ := h' more
  refine ⟨fun f => left f && right f, ?_, ?_⟩
  · simp [bindAll_append, hbind, hbind']
  · intro f
    simp only [Bool.and_eq_true, hleft, hright]

omit [Rating ρ] in
/-- An `IN` takes as many texts as it has placeholders. -/
theorem takeTexts_append (ss : List String) (more : List (Bind ρ)) :
    takeTexts ss.length (ss.map .text ++ more) = some (ss, more) := by
  induction ss with
  | nil => rfl
  | cons s ss ih => simp [takeTexts, ih]

/-! A clause by the kind of its parameters. -/

theorem Fits.plain {c : Clause} {cond : Condition}
    (h : ∀ binds : List (Bind ρ), c.bind db binds = some (cond, binds)) :
    Fits db [c] ([] : List (Bind ρ)) fun f => cond f = true := by
  apply Fits.clause
  intro more
  exact ⟨cond, h more, fun f => Iff.rfl⟩

theorem Fits.text {c : Clause} {cond : String → Condition}
    (h : ∀ binds : List (Bind ρ), c.bind db binds = withText cond binds) (s : String) :
    Fits db [c] [(.text s : Bind ρ)] fun f => cond s f = true := by
  apply Fits.clause
  intro more
  exact ⟨cond s, h _, fun f => Iff.rfl⟩

/-- A clause with a list of texts. -/
theorem Fits.texts {c : Clause} (cond : List String → Condition) (ss : List String)
    (h : ∀ binds : List (Bind ρ), c.bind db binds = withTexts ss.length cond binds) :
    Fits db [c] (ss.map (.text : String → Bind ρ)) fun f => cond ss f = true := by
  apply Fits.clause
  intro more
  refine ⟨cond ss, ?_, fun f => Iff.rfl⟩
  rw [h, withTexts, takeTexts_append, Option.map_some]

theorem Fits.real {c : Clause} {cond : ρ → Condition}
    (h : ∀ binds : List (Bind ρ), c.bind db binds = withReal cond binds) (v : Bound ρ) :
    Fits db [c] [.real v] fun f => ∃ x, v = some x ∧ cond x f = true := by
  apply Fits.clause
  intro more
  refine ⟨fun f => v.any fun x => cond x f, h _, ?_⟩
  intro f
  cases v <;> simp

/-- A word of the query that is compared when it is there. -/
theorem Fits.word {c : Clause} {cond : String → BrowseEntry → Prop} (word : Option String)
    (h : ∀ s, Fits db [c] [(.text s : Bind ρ)] (cond s)) :
    Fits db (if word.isSome then [c] else []) (word.map (.text : String → Bind ρ)).toList
      fun f => ∀ s, word = some s → cond s f := by
  cases word with
  | none => exact Fits.nil.congr (by simp)
  | some s => exact (h s).congr (by simp)

end Fits

/-! ## What the reader asked for

The filter, without statements and binds. -/

/-- The reference filter: what each field of the query asks of a card, with no SQL in
between. -/
structure Selected (db : BrowseDb) (q : BrowseQuery ρ) (f : BrowseEntry) : Prop where
  nsfw_gate : q.showNsfw = false → f.isNsfw = false
  nsfw_only : q.nsfwOnly = true → f.isNsfw = true
  format : ∀ t, q.typeWord = some t → f.comicType = some t
  status : ∀ s, q.statusWord = some s → f.status = some s
  content_rating : ∀ rs, q.ratings = some rs → f.contentRating ∈ rs
  chapters : q.hasChapters = some true → 0 < f.enChapterCount
  no_chapters : q.hasChapters = some false → f.enChapterCount = 0
  /-- Any of the genres, from any source of tags. -/
  genres : q.genres ≠ [] → ∃ t ∈ db.workTag, t.workId = f.workId ∧ t.tag ∈ q.genres
  min_rating : ∀ v, q.minRating = some v → ∃ x, v = some x ∧ x ≤ ratingOf db f.workId
  max_rating : ∀ v, q.maxRating = some v → ∃ x, v = some x ∧ ratingOf db f.workId ≤ x

/-- The binds of the columns are pushed after all of their clauses, but in the
same order. -/
theorem fits_columns (db : BrowseDb) (q : BrowseQuery ρ) :
    Fits db (columnClauses q) (columnBinds q) fun f =>
      (((((q.showNsfw = false → f.isNsfw = false) ∧
        (q.nsfwOnly = true → f.isNsfw = true)) ∧
        (∀ t, q.typeWord = some t → f.comicType = some t)) ∧
        (∀ s, q.statusWord = some s → f.status = some s)) ∧
        (∀ rs, q.ratings = some rs → f.contentRating ∈ rs)) ∧
        ((q.hasChapters = some true → 0 < f.enChapterCount) ∧
          (q.hasChapters = some false → f.enChapterCount = 0)) := by
  have hgate : Fits db (if q.showNsfw then [] else [.isNsfw false]) ([] : List (Bind ρ))
      fun f => q.showNsfw = false → f.isNsfw = false := by
    cases q.showNsfw with
    | true => exact Fits.nil.congr (by simp)
    | false => exact (Fits.plain fun _ => rfl).congr (by simp)
  have honly : Fits db (if q.nsfwOnly then [.isNsfw true] else []) ([] : List (Bind ρ))
      fun f => q.nsfwOnly = true → f.isNsfw = true := by
    cases q.nsfwOnly with
    | true => exact (Fits.plain fun _ => rfl).congr (by simp)
    | false => exact Fits.nil.congr (by simp)
  have hformat : Fits db (if q.typeWord.isSome then [.comicTypeEq] else [])
      (q.typeWord.map (.text : String → Bind ρ)).toList
      fun f => ∀ t, q.typeWord = some t → f.comicType = some t :=
    Fits.word q.typeWord fun t => (Fits.text (fun _ => rfl) t).congr (by simp)
  have hstatus : Fits db (if q.statusWord.isSome then [.statusEq] else [])
      (q.statusWord.map (.text : String → Bind ρ)).toList
      fun f => ∀ s, q.statusWord = some s → f.status = some s :=
    Fits.word q.statusWord fun s => (Fits.text (fun _ => rfl) s).congr (by simp)
  have hratings : Fits db
      (match q.ratings with
        | some r => if r.length = 1 then [.contentRatingEq] else [.contentRatingIn r.length]
        | none => [])
      ((q.ratings.getD []).map (.text : String → Bind ρ))
      fun f => ∀ rs, q.ratings = some rs → f.contentRating ∈ rs := by
    cases q.ratings with
    | none => exact Fits.nil.congr (by simp)
    | some rs =>
        by_cases hone : rs.length = 1
        · obtain ⟨r, rfl⟩ := List.length_eq_one_iff.mp hone
          exact (Fits.text (fun _ => rfl) r).congr (by simp)
        · have hin : Fits db [.contentRatingIn rs.length]
              (rs.map (.text : String → Bind ρ))
              fun f => rs.contains f.contentRating = true :=
            Fits.texts (fun rs f => rs.contains f.contentRating) rs fun _ => rfl
          simp only [if_neg hone]
          exact hin.congr (by simp)
  have hchapters : Fits db
      (match q.hasChapters with
        | some true => [.enChapterCountPos]
        | some false => [.enChapterCountZero]
        | none => [])
      ([] : List (Bind ρ))
      fun f => (q.hasChapters = some true → 0 < f.enChapterCount) ∧
        (q.hasChapters = some false → f.enChapterCount = 0) := by
    cases q.hasChapters with
    | none => exact Fits.nil.congr (by simp)
    | some b =>
        cases b with
        | true => exact (Fits.plain fun _ => rfl).congr (by simp)
        | false => exact (Fits.plain fun _ => rfl).congr (by simp)
  have h := ((((hgate.append honly).append hformat).append hstatus).append hratings).append
    hchapters
  simp only [List.append_nil, List.nil_append] at h
  exact h

omit [Rating ρ] in
/-- None of the columns reads the averages. -/
theorem usesRated_columnClauses (q : BrowseQuery ρ) :
    (columnClauses q).any Clause.usesRated = false := by
  simp only [columnClauses, List.any_append, Bool.or_eq_false_iff]
  refine ⟨⟨⟨⟨⟨?_, ?_⟩, ?_⟩, ?_⟩, ?_⟩, ?_⟩ <;> (repeat' split) <;> rfl

/-- What has been pushed selects `p`, and its flag tells whether it reads
`rated_per_work`. -/
structure Where.Means (w : Where ρ) (db : BrowseDb) (p : BrowseEntry → Prop) : Prop where
  fits : Fits db w.parts w.binds p
  reads : w.parts.any Clause.usesRated = w.usesRated

variable {w : Where ρ} {db : BrowseDb} {p : BrowseEntry → Prop}

theorem Where.Means.pushGenres (h : w.Means db p) (genres : List String) :
    (w.pushGenres genres).Means db fun f =>
      p f ∧ (genres ≠ [] → ∃ t ∈ db.workTag, t.workId = f.workId ∧ t.tag ∈ genres) := by
  by_cases hnil : genres = []
  · subst hnil
    exact ⟨h.fits.congr (by simp), h.reads⟩
  · have htags : Fits db [.tagIn genres.length] (genres.map (.text : String → Bind ρ))
        fun f => (db.workTag.rows.any fun t =>
          t.workId == f.workId && genres.contains t.tag) = true :=
      Fits.texts
        (fun tags f => db.workTag.rows.any fun t =>
          t.workId == f.workId && tags.contains t.tag)
        genres fun _ => rfl
    have hpush : w.pushGenres genres =
        { w with
          parts := w.parts ++ [.tagIn genres.length]
          binds := w.binds ++ genres.map .text } :=
      if_neg (by simp [hnil])
    rw [hpush]
    refine ⟨(h.fits.append htags).congr ?_, ?_⟩
    · intro f
      simp [hnil, Table.mem_rows]
    · simp [h.reads, Clause.usesRated]

/-- A bound sets the flag, as it reads the averages. -/
theorem Where.Means.pushBound (h : w.Means db p) (bound : Option (Bound ρ)) {c : Clause}
    {cond : ρ → Condition} (hc : ∀ binds : List (Bind ρ), c.bind db binds = withReal cond binds)
    (hreads : c.usesRated = true) :
    (w.pushBound (bound, c)).Means db fun f =>
      p f ∧ ∀ v, bound = some v → ∃ x, v = some x ∧ cond x f = true := by
  cases bound with
  | none => exact ⟨h.fits.congr (by simp), h.reads⟩
  | some v =>
      refine ⟨(h.fits.append (Fits.real hc v)).congr (by simp), ?_⟩
      simp [Where.pushBound, hreads]

/-- The binds of `build_where` fit its clauses, and these select what the reader
asked for. -/
theorem buildWhere_means (db : BrowseDb) (q : BrowseQuery ρ) :
    (buildWhere q).Means db (Selected db q) := by
  have hcolumns : Where.Means ⟨columnClauses q, columnBinds q, false⟩ db _ :=
    ⟨fits_columns db q, usesRated_columnClauses q⟩
  have hgenres := hcolumns.pushGenres q.genres
  have hmin := hgenres.pushBound q.minRating (c := .ratingAtLeast) (fun _ => rfl) rfl
  have hmax := hmin.pushBound q.maxRating (c := .ratingAtMost) (fun _ => rfl) rfl
  refine ⟨hmax.fits.congr ?_, hmax.reads⟩
  intro f
  simp only [decide_eq_true_eq]
  constructor
  · rintro ⟨⟨⟨⟨⟨⟨⟨⟨hgate, honly⟩, hformat⟩, hstatus⟩, hratings⟩, hsome, hnone⟩, htags⟩,
      hlow⟩, hhigh⟩
    exact ⟨hgate, honly, hformat, hstatus, hratings, hsome, hnone, htags, hlow, hhigh⟩
  · intro h
    exact ⟨⟨⟨⟨⟨⟨⟨⟨h.nsfw_gate, h.nsfw_only⟩, h.format⟩, h.status⟩, h.content_rating⟩,
      h.chapters, h.no_chapters⟩, h.genres⟩, h.min_rating⟩, h.max_rating⟩

/-! ## Statements that succeed

Over clauses that fit, a statement is a listing of the rows that it selects. -/

theorem fits_workIdIn (db : BrowseDb) (ids : List Id) :
    Fits db [.workIdIn ids.length] (ids.map (.text : String → Bind ρ))
      fun f => f.workId ∈ ids :=
  (Fits.texts (fun ids f => ids.contains f.workId) ids fun _ => rfl).congr (by simp)

/-- The works outside of a list. -/
theorem fits_workIdNotIn (db : BrowseDb) (ids : List Id) :
    Fits db [.workIdNotIn ids.length] (ids.map (.text : String → Bind ρ))
      fun f => f.workId ∉ ids :=
  (Fits.texts (fun ids f => !ids.contains f.workId) ids fun _ => rfl).congr (by simp)

theorem fits_notRated (db : BrowseDb) :
    Fits db [.notRated] ([] : List (Bind ρ)) fun f => ¬Rated db f.workId := by
  apply (Fits.plain fun _ => rfl).congr
  intro f
  rw [← isSome_ratedPerWork (ρ := ρ), Bool.not_eq_true, Option.isSome_eq_false_iff]

variable {s : Select} {binds : List (Bind ρ)}

/-- The rows of a statement whose clauses fit its binds. -/
theorem Select.rows_spec (hdef : s.defined = true) (h : Fits db s.whereSql binds p) :
    ∃ rows, s.rows db binds = some rows ∧
      Lists (fun f => f ∈ db.browseCatalogue ∧
        (s.joinsRated = true → Rated db f.workId) ∧ p f) (fun _ _ => True) rows := by
  obtain ⟨cond, hbind, hcond⟩ := h []
  rw [List.append_nil] at hbind
  refine ⟨_, by rw [Select.rows, if_pos hdef, hbind], ?_, ?_, ?_⟩
  · exact (Table.nodup_rows db.browseCatalogue).filter _
  · intro f
    rw [List.mem_filter, Table.mem_rows, Bool.and_eq_true, Bool.or_eq_true, hcond,
      isSome_ratedPerWork, Bool.not_eq_true', imp_iff_not_or, Bool.not_eq_true]
  · exact List.pairwise_of_forall fun _ _ => trivial

/-- `COUNT(*)` is the length of every listing of the same rows. -/
theorem Select.count_eq (hdef : s.defined = true) (h : Fits db s.whereSql binds p)
    {r : BrowseEntry → BrowseEntry → Prop} {xs : List BrowseEntry}
    (hxs : Lists (fun f => f ∈ db.browseCatalogue ∧
      (s.joinsRated = true → Rated db f.workId) ∧ p f) r xs) :
    s.count db binds = some (xs.length : Int) := by
  obtain ⟨rows, hrows, hlists⟩ := Select.rows_spec hdef h
  rw [Select.count, hrows, Option.map_some, hlists.length_eq hxs]

/-- The windows of a statement are the slices of one listing, as long as its
order tells any two works apart. -/
theorem Select.fetch_spec {κ : Type} [LinearOrder κ] {order : BrowseEntry → κ}
    (horder : ∀ f g, order f = order g → f.workId = g.workId)
    (hdef : s.defined = true) (h : Fits db s.whereSql binds p) :
    ∃ xs, Lists (fun f => f ∈ db.browseCatalogue ∧
        (s.joinsRated = true → Rated db f.workId) ∧ p f)
        (Descends order) xs ∧
      ∀ limit offset : Nat, s.fetch db binds order limit offset =
        some ((slice offset limit xs).map browseCols) := by
  obtain ⟨rows, hrows, hlists⟩ := Select.rows_spec hdef h
  have hkey : ∀ f ∈ rows, ∀ g ∈ rows, order f = order g → f = g := by
    intro f hf g hg heq
    apply Table.eq_of_clash ((hlists.mem f).mp hf).1 ((hlists.mem g).mp hg).1
    exact decide_eq_true (horder f g heq)
  refine ⟨descending order rows, ?_, ?_⟩
  · exact (lists_descending hlists.nodup hkey).congr hlists.mem fun f g _ _ hfg => hfg
  · intro limit offset
    rw [Select.fetch, hrows, Option.map_some, limitOffset, if_neg (by omega)]
    rfl

/-- The orders tell any two works apart, so that their listings are unique. -/
theorem orderBy_injective (sort : BrowseSort) (f g : BrowseEntry)
    (h : orderBy sort f = orderBy sort g) : f.workId = g.workId := by
  cases sort <;> exact congrArg (fun key => (ofLex key).2) h

theorem orderByAvg_injective (db : BrowseDb) (f g : BrowseEntry)
    (h : orderByAvg (ρ := ρ) db f = orderByAvg db g) : f.workId = g.workId :=
  congrArg (fun key => (ofLex key).2) h

end Komika.Feed.BrowseSql
