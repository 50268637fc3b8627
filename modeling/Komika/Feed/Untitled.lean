import Komika.Feed.Constraints
import Komika.Catalog.Integrity

/-!
# Works without a title of their own

The catalogue's writers, the admin's retitling and the rebuild of the feeds, in
any order.  `refresh_feed_updates` inserts one row for each work with a released
English chapter, in one statement: a single row that it cannot insert rolls all
of them back, and the refreshes that it would start do not run.

A work has no title of its own if its upstream title map is empty; a merge keeps
the target's title, whatever the source is called, and the admin's title goes to
another column.

The rows that the rebuild reads are tied to the catalogue by `Reads`, so that a run may
change the catalogue between two rebuilds in any way.

* `inserts_iff`, `complete_iff` — the one `INSERT` that can fail, and at which work;
* `rebuildInserts_iff` — every run;
* `titled_step`, `rebuildInserts_of_bringsTitle` — ingests that all bring a title;
* `not_rebuildInserts_untitled` — one that does not.
-/

namespace Komika.Feed.Untitled

open Komika.Lib Komika.Lib.Machine
open Komika.Catalog.Schema (Id)
open Komika.Catalog.Database Komika.Catalog.Ingest Komika.Catalog.Ledger
open Komika.Catalog.Merge Komika.Catalog.Split Komika.Catalog.Runs
open Komika.Catalog.Effects Komika.Catalog.Integrity
open Komika.Feed.Schema Komika.Feed.Types Komika.Feed.Rebuild
open Komika.Feed.Publish Komika.Feed.Browse Komika.Feed.Constraints

/-! ## Titles from upstream

The title of an ingested work is picked from a map of languages, which may be empty. -/

/-- The entry of a language, if it has a text. -/
def localized (titles : List (String × String)) (lang : String) :
    Option (String × String) :=
  (titles.find? fun p => p.1 = lang).filter fun p => p.2 ≠ ""

/-- `pick_localized`: the language and the text. -/
def pickLocalized (titles : List (String × String)) : Option (String × String) :=
  (["en", "ja-ro", "ja"].findSome? (localized titles)).or
    (titles.find? fun p => p.2 ≠ "")

/-- `to_work_input`, the title of the work. -/
def withTitles (titles : List (String × String)) (input : WorkInput) : WorkInput :=
  { input with
    primaryLang := (pickLocalized titles).map Prod.fst
    primaryTitle := (pickLocalized titles).map Prod.snd }

/-! ## The rebuild

Its first transaction is one `DELETE` and one `INSERT`. -/

/-- The catalogue's columns of what the feeds are derived from. -/
structure Reads (db : Db) (base : Base) : Prop where
  work : base.work.rows.map (·.toWork) = db.work.rows
  sourceSeries : base.sourceSeries.rows = db.sourceSeries.rows
  chapter : base.chapter.rows.map (·.toChapter) = db.chapter.rows
  suwayomiSeries : base.suwayomiSeries.rows.map (·.toSuwayomiSeries) = db.suwayomiSeries.rows

instance (db : Db) (base : Base) : Decidable (Reads db base) :=
  decidable_of_iff (base.work.rows.map (·.toWork) = db.work.rows ∧
    base.sourceSeries.rows = db.sourceSeries.rows ∧
    base.chapter.rows.map (·.toChapter) = db.chapter.rows ∧
    base.suwayomiSeries.rows.map (·.toSuwayomiSeries) = db.suwayomiSeries.rows)
    ⟨fun h => ⟨h.1, h.2.1, h.2.2.1, h.2.2.2⟩,
      fun h => ⟨h.work, h.sourceSeries, h.chapter, h.suwayomiSeries⟩⟩

/-- The row of a work has its id. -/
theorem key_selected (base : Base) (now : String) (w : Work) (r : FeedUpdate)
    (h : (feedUpdatesSelect base now w).join = some r) : key r = key w :=
  workId_of_select (Option.join_eq_some_iff.mp h)

/-- The transaction of `refresh_feed_updates`; `none` where the `INSERT` fails. -/
def refreshFeedUpdates (base : Base) (now : String) : Option (Table FeedUpdate) :=
  if base.work.rows.all fun w =>
      (feedUpdateColumns base now w).all FeedUpdateColumns.complete then
    some (base.work.select (fun w => (feedUpdatesSelect base now w).join)
      (key_selected base now))
  else none

/-- `refresh_feed_updates`, with the refreshes that it starts when it has
succeeded. -/
def rebuilt (rules : FeedRules) (base : Base) (ready : Bool) (now : String)
    (feeds : Feeds) : Feeds :=
  match refreshFeedUpdates base now with
  | none => feeds
  | some t => refreshFeedSeriesUpdates rules base ready { feeds with feedUpdates := t }

/-! ## Runs

Any writer of the catalogue, the admin, and the rebuild. -/

/-- The catalogue, and the tables derived from it. -/
structure State where
  catalogue : CatalogState
  feeds : Feeds

/-- A write to the catalogue, the admin's title, or a rebuild. -/
inductive Event where
  | catalogue (op : Op)
  /-- `update_series_metadata`, the title. -/
  | retitle (workId : Id) (title : Option String)
  | rebuild (base : Base) (ready : Bool) (now : String)

/-- `SET title_override = ?`. -/
def setTitleOverride (title : Option String) (w : Catalog.Schema.Work) :
    Catalog.Schema.Work :=
  { w with titleOverride := title }

theorem keepsKeys_setTitleOverride (title : Option String) :
    Table.KeepsKeys (setTitleOverride title) := fun _ _ => rfl

/-- The admin's title of a work. -/
def retitle (db : Db) (workId : Id) (title : Option String) : Db :=
  { db with
    work := db.work.update (fun w => w.id = workId) (setTitleOverride title)
      (keepsKeys_setTitleOverride title) }

/-- A rebuild runs on what the catalogue holds; it writes only the derived tables. -/
def step (rules : Rules) (feedRules : FeedRules) (s : State) : Event → State
  | .catalogue op => { s with catalogue := s.catalogue.step rules op }
  | .retitle workId title =>
      { s with
        catalogue := { s.catalogue with db := retitle s.catalogue.db workId title } }
  | .rebuild base ready now =>
      if Reads s.catalogue.db base then
        { s with feeds := rebuilt feedRules base ready now s.feeds }
      else s

/-- Every `INSERT` of the rebuild offers a value for every `NOT NULL` column. -/
structure Inserts (rules : FeedRules) (base : Base) (now : String) : Prop where
  feedUpdates : ∀ w ∈ base.work, ∀ c, feedUpdateColumns base now w = some c →
    c.complete = true
  mirrorHalf : ∀ fu c, mirrorColumns rules base fu = some c → c.complete = true
  scannerHalf : ∀ w c, scannerColumns rules base w = some c → c.complete = true
  browse : ∀ feed w c, browseColumns rules base feed w = some c → c.complete = true
  facets : ∀ browse, ∀ tag ∈ facetTags base.workTag browse,
    (facetColumns base.workTag browse tag).1.isSome = true ∧
      (facetColumns base.workTag browse tag).2.isSome = true

/-- A rebuild of what the catalogue holds fails at no `NOT NULL` column. -/
def RebuildInserts (rules : FeedRules) (s : State) (e : Event) : Prop :=
  ∀ base ready now, e = .rebuild base ready now → Reads s.catalogue.db base →
    Inserts rules base now ∧ (refreshFeedUpdates base now).isSome = true

/-- At a rebuild, no work without a title of its own has a released English
chapter on a MangaDex source. -/
def NoneUntitled (s : State) (e : Event) : Prop :=
  ∀ base ready now, e = .rebuild base ready now → Reads s.catalogue.db base →
    ∀ w ∈ base.work, w.primaryTitle = none → newestReleased base now w.id = none

/-! ## One rebuild

The condition on what the catalogue holds at that moment. -/

section Rebuild

variable {rules : FeedRules} {base : Base} {now : String}

/-- The one `INSERT` that can fail is that of `feed_updates`. -/
theorem inserts_iff : Inserts rules base now ↔
    ∀ w ∈ base.work, ∀ c, feedUpdateColumns base now w = some c → c.complete = true := by
  constructor
  · exact fun h => h.feedUpdates
  · intro h
    constructor
    · exact h
    · intro fu c hc
      rw [mirrorColumns_eq] at hc
      obtain ⟨r, -, rfl⟩ := Option.map_eq_some_iff.mp hc
      exact complete_columnsOf r
    · intro w c hc
      rw [scannerColumns_eq] at hc
      obtain ⟨r, -, rfl⟩ := Option.map_eq_some_iff.mp hc
      exact complete_columnsOf r
    · intro feed w c hc
      rw [browseColumns_eq] at hc
      obtain ⟨r, -, rfl⟩ := Option.map_eq_some_iff.mp hc
      exact complete_columnsOfCard r
    · exact fun browse tag htag => isSome_facetColumns htag

/-- The one statement inserts all of its rows, or none. -/
theorem isSome_refreshFeedUpdates : (refreshFeedUpdates base now).isSome = true ↔
    ∀ w ∈ base.work, ∀ c, feedUpdateColumns base now w = some c → c.complete = true := by
  have hall : (base.work.rows.all fun w =>
      (feedUpdateColumns base now w).all FeedUpdateColumns.complete) = true ↔
      ∀ w ∈ base.work, ∀ c, feedUpdateColumns base now w = some c → c.complete = true := by
    simp only [List.all_eq_true, Option.all_eq_true, Table.mem_rows]
  unfold refreshFeedUpdates
  rw [← hall]
  split
  · next h => exact iff_of_true rfl h
  · next h => exact iff_of_false (by simp) h

/-- It fails exactly at a work without a title that has a released chapter. -/
theorem complete_iff :
    (∀ w ∈ base.work, ∀ c, feedUpdateColumns base now w = some c → c.complete = true) ↔
      ∀ w ∈ base.work, w.primaryTitle = none → newestReleased base now w.id = none := by
  constructor
  · intro h w hw htitle
    cases hreleased : newestReleased base now w.id with
    | none => rfl
    | some r =>
        have hoffered : (feedUpdateColumns base now w).isSome = true := by
          rw [feedUpdateColumns, hreleased]
          rfl
        obtain ⟨c, hc⟩ := Option.isSome_iff_exists.mp hoffered
        have hcomplete := h w hw c hc
        rw [complete_feedUpdateColumns hc, htitle] at hcomplete
        exact Bool.noConfusion hcomplete
  · intro h w hw c hc
    rw [complete_feedUpdateColumns hc]
    cases htitle : w.primaryTitle with
    | some t => rfl
    | none =>
        rw [feedUpdateColumns, h w hw htitle] at hc
        contradiction

end Rebuild

/-- **When a rebuild inserts its rows.**  Along every run of rebuilds and writers of the
base tables, from any state: each rebuild does exactly if it meets no work without a
title of its own that has a released English chapter.  The mirror half takes the work's
own title and no source's, so it has none for such a work, and the column refuses it;
every other row meets the constraints of its table. -/
theorem rebuildInserts_iff (rules : Rules) (feedRules : FeedRules) (s : State)
    (events : List Event) :
    EachStep (step rules feedRules) (RebuildInserts feedRules) s events ↔
      EachStep (step rules feedRules) NoneUntitled s events := by
  apply eachStep_congr_of_invariant (I := fun _ => True)
  · exact fun _ _ _ _ => trivial
  · intro s e _
    unfold RebuildInserts NoneUntitled
    simp only [inserts_iff, isSome_refreshFeedUpdates, and_self, complete_iff]
  · trivial

/-! ## Ingests that bring a title

A condition on the ingests alone, which is enough. -/

/-- Every work has a title of its own. -/
def Titled (db : Db) : Prop := ∀ w ∈ db.work, w.primaryTitle ≠ none

/-- The step ingests no work without a title. -/
def bringsTitle : Event → Prop
  | .catalogue (.createWork _ input) => input.primaryTitle ≠ none
  | .catalogue (.upsertWorkFromMangadex _ _ _ input _) => input.primaryTitle ≠ none
  | _ => True

section Titled

variable {rules : TextRules} {db db' : Db}

theorem Titled.of_work (h : Titled db) (hwork : ∀ w ∈ db'.work, w ∈ db.work) : Titled db' :=
  fun w hw => h w (hwork w hw)

/-- A new work has the title that it comes with. -/
theorem titled_createWork {newWorkId id : Id} {input : WorkInput} (h : Titled db)
    (htitle : input.primaryTitle ≠ none)
    (hok : createWork rules newWorkId input db = .ok (id, db')) : Titled db' := by
  obtain ⟨t, ht, rfl⟩ := createWork_ok hok
  intro w hw
  rcases (Table.mem_of_insert ht).mp hw with hw | rfl
  · exact h w hw
  · exact htitle

theorem titled_upsertWorkFromMangadex {newWorkId newSourceSeriesId id : Id}
    {mangadexId now : String} {input : WorkInput} (h : Titled db)
    (htitle : input.primaryTitle ≠ none)
    (hok : upsertWorkFromMangadex rules newWorkId newSourceSeriesId mangadexId input now db =
      .ok (id, db')) : Titled db' := by
  obtain ⟨-, sid, hss⟩ := upsertWorkFromMangadex_ok hok
  obtain ⟨t, rfl, -⟩ := ensureSourceSeries_ok hss
  intro w hw
  rcases Table.mem_upsert.mp hw with ⟨hw, -⟩ | ⟨rfl, -⟩ | ⟨old, -, -, rfl⟩
  · exact h w hw
  · exact htitle
  · exact htitle

/-- A merge keeps the title of each work that it leaves. -/
theorem titled_merged {source target : Id} (h : Titled db) :
    Titled (merged rules source target db) := by
  intro w hw
  have hfold : w ∈ (foldWorkRow source target db).work := (Table.mem_deleteWhere.mp hw).1
  unfold foldWorkRow at hfold
  dsimp only at hfold
  split at hfold
  · exact h w hfold
  · obtain ⟨old, hold, rfl⟩ := Table.mem_update.mp hfold
    split
    · exact h old hold
    · exact h old hold

/-- The new work of a split takes the title of the plan. -/
theorem titled_commitSplit {plan : SplitPlan} {newWorkId : Id} {actor : Option Id}
    {outcome : SplitOutcome} (h : Titled db)
    (hok : commitSplit rules plan newWorkId actor db = .ok (outcome, db')) : Titled db' := by
  unfold commitSplit at hok
  split at hok
  · contradiction
  · dsimp only at hok
    split at hok
    · contradiction
    · next work hinsert =>
        split at hok
        · contradiction
        · cases hok
          intro w hw
          rcases (Table.mem_of_insert hinsert).mp hw with hw | rfl
          · exact h w hw
          · exact Option.some_ne_none _

/-- The admin's title is another column. -/
theorem titled_retitle {workId : Id} {title : Option String} (h : Titled db) :
    Titled (retitle db workId title) := by
  intro w hw
  obtain ⟨old, hold, rfl⟩ :=
    (Table.mem_update (h := keepsKeys_setTitleOverride title)).mp hw
  split
  · exact h old hold
  · exact h old hold

end Titled

/-- Every write of the catalogue, whose ingests bring titles. -/
theorem titled_write {rules : Rules} {s : CatalogState} {op : Op} (h : Titled s.db)
    (htitle : bringsTitle (.catalogue op)) : Titled (s.write rules op) := by
  by_cases hkeep : keepsAnchors op = true
  · have hsame : anchors (s.write rules op) = anchors s.db := write_anchors hkeep
    have hwork : (s.write rules op).work = s.db.work := (Prod.mk.inj hsame).1
    exact h.of_work fun w hw => hwork ▸ hw
  cases op with
  | createWork newWorkId input =>
      exact commit_cases h fun id db' hok => titled_createWork h htitle hok
  | upsertWorkFromMangadex newWorkId newSourceSeriesId mangadexId input now =>
      exact commit_cases h fun id db' hok => titled_upsertWorkFromMangadex h htitle hok
  | upsertSourceSeries =>
      refine commit_cases h fun id db' hok => ?_
      obtain ⟨t, rfl, -⟩ := ensureSourceSeries_ok hok
      exact h
  | mergeWorks source target expected =>
      refine commit_cases h fun outcome db' hok => ?_
      obtain ⟨-, -, -, -, rfl⟩ := merge_ok hok
      exact titled_merged h
  | commitSplit i newWorkId actor =>
      exact write_commitSplit_cases h fun plan outcome db' _ hok => titled_commitSplit h hok
  | deleteWorkCascade workId =>
      exact h.of_work fun w hw => (Table.mem_deleteWhere.mp hw).1
  | purgeForeignLanguageSuwayomi =>
      refine commit_cases h fun ids db' hok => ?_
      unfold purgeForeignLanguageSuwayomi at hok
      dsimp only at hok
      split at hok
      · cases hok
        exact h
      · cases hok
        exact h.of_work fun w hw => (Table.mem_deleteWhere.mp hw).1
  | splitMismatchedRow row =>
      refine commit_cases h fun u db' hok => ?_
      rcases splitMismatchedRow_ok hok with ⟨-, rfl⟩ | ⟨_, -, -, _, rfl, rfl⟩
      · exact h
      · exact h
  | addWorkAlias | removeWorkAlias | planSplit | cacheSeries | upsertChapter
  | replaceSourceChapters | seedWork | recordSourceSeries =>
      exact absurd rfl hkeep

theorem titled_step {rules : Rules} {feedRules : FeedRules} {s : State} {e : Event}
    (h : Titled s.catalogue.db) (htitle : bringsTitle e) :
    Titled (step rules feedRules s e).catalogue.db := by
  cases e with
  | catalogue op =>
      show Titled (s.catalogue.step rules op).db
      unfold CatalogState.step
      split
      · exact titled_write h htitle
      · exact h
  | retitle workId title => exact titled_retitle h
  | rebuild base ready now =>
      simp only [step]
      split
      · exact h
      · exact h

/-- Where every ingest brings a title, no rebuild fails. -/
theorem rebuildInserts_of_bringsTitle {rules : Rules} {feedRules : FeedRules} {s : State}
    {events : List Event} (h : Titled s.catalogue.db)
    (htitles : ∀ e ∈ events, bringsTitle e) :
    EachStep (step rules feedRules) (RebuildInserts feedRules) s events := by
  apply EachStep.of_invariant (P := fun _ e => bringsTitle e)
    (I := fun s : State => Titled s.catalogue.db)
  · exact fun s e h htitle => titled_step h htitle
  · rintro s e h - base ready now rfl hreads
    rw [inserts_iff, isSome_refreshFeedUpdates, and_self, complete_iff]
    intro w hw hnone
    have hmem : w.toWork ∈ s.catalogue.db.work := by
      rw [← Table.mem_rows, ← hreads.work]
      exact List.mem_map_of_mem hw
    exact absurd hnone (h w.toWork hmem)
  · exact h
  · exact eachStep_of_forall htitles

/-! ## An empty title map

What the admin sets does not reach the feed's own column. -/

/-- What the catalogue holds of a work that came without a title and was given one
by the admin, with one released chapter. -/
def untitledBase : Base :=
  { Base.empty with
    work := ⟨[{ bareWork "w" none with titleOverride := some "Dusk" }],
      List.pairwise_singleton _ _⟩
    sourceSeries := ⟨[⟨"m", "w", "mangadex", "mangadex", "uuid", none, false, some "t1"⟩],
      by decide⟩
    chapter := ⟨[{ id := "c", sourceSeriesId := "m", externalId := "e",
                   number := some "1", volume := none, lang := some "en",
                   title := none, publishedAt := none,
                   readableAt := some "1970-01-01T00:00:01Z",
                   externalUrl := none, scanlator := none, chapterKey := some "100",
                   label := some "1", createdAt := "t0" }], by decide⟩
    sourceSeries_work := by decide }

/-- Its chapter, in English and released. -/
def releasedChapter : ChapterInput where
  externalId := "e"
  number := some "1"
  volume := none
  lang := some "en"
  title := none
  publishedAt := none
  readableAt := some "1970-01-01T00:00:01Z"
  externalUrl := none
  scanlator := none

/-- The work is ingested from an empty title map, and its chapter is mirrored; that
the admin retitles it does not help. -/
theorem not_rebuildInserts_untitled :
    ¬EachStep (step Catalog.Runs.plainRules Types.plainRules) (RebuildInserts Types.plainRules)
      ⟨.init, Feeds.empty⟩
      [.catalogue (.upsertWorkFromMangadex "w" "m" "uuid" (withTitles [] (titled "dawn")) "t1"),
        .catalogue (.upsertChapter "c" "m" releasedChapter),
        .retitle "w" (some "Dusk"),
        .rebuild untitledBase true "2026"] := by
  rintro ⟨-, -, -, hinserts, -⟩
  obtain ⟨-, hrefreshed⟩ := hinserts untitledBase true "2026" rfl (by decide)
  exact absurd hrefreshed (by decide)

end Komika.Feed.Untitled
