import Komika.Feed.Untitled
import Komika.Lib.Difference

/-!
# What the reconciler reports

`reconcile_feed` of `catalog/ledger.rs` rebuilds the feeds, and reports how many
rows of the merged feed the rebuild had to change.  It keeps the release clock and
the label of every row in a map first, and compares each row of the rebuilt feed
with the map.

The rows that the rebuild removes are in the map, but no row of the rebuilt feed
asks for them, and the report does not count them.

* `foldl_compareRow` — the loop of the report;
* `isSome_lookup_rebuiltFeed` — the works that have a card after the rebuild;
* `driftExact_iff_gone` — the report counts all that moved but the rows that are gone;
* `driftExact_iff` — so it is exact as long as no card loses both of its halves.
-/

namespace Komika.Feed.Reconcile

open Komika.Lib Komika.Lib.Table
open Komika.Catalog.Schema (Id)
open Komika.Feed.Schema Komika.Feed.Types Komika.Feed.Rebuild
open Komika.Feed.Publish Komika.Feed.Browse Komika.Feed.Untitled

/-! ## The report

The snapshot, the rebuild, and the loop over its rows. -/

/-- What one pass found. -/
structure DriftReport where
  rowsBefore : Int
  rowsAfter : Int
  drifted : Int
  sample : List String
  durationMs : Int
deriving DecidableEq

/-- The row of `feed_reconcile_report`, whose `id` is 1. -/
structure StoredReport where
  ranAt : String
  durationMs : Int
  rowsBefore : Int
  rowsAfter : Int
  drifted : Int
  sample : Option String
deriving DecidableEq

/-- `DRIFT_COLUMNS`, but for the key. -/
def driftColumns (r : FeedSeriesUpdate) : Int × Option String :=
  (r.releasedAt, r.latestChapter)

/-- What the pass takes from the standard library and from the clock. -/
structure Printing where
  /-- `{:?}` of a label. -/
  debug : Option String → String
  /-- The time that the pass took. -/
  durationMs : Int
  /-- `Utc::now().to_rfc3339()` at its end. -/
  ranAt : String

/-- The line of a row that the rebuild changed. -/
def changedLine (printing : Printing) (r : FeedSeriesUpdate) (was : Int × Option String) :
    String :=
  r.workId ++ ": " ++ toString was.1 ++ "/" ++ printing.debug was.2 ++ " -> " ++
    toString r.releasedAt ++ "/" ++ printing.debug r.latestChapter

/-- The line of a row that the rebuild added. -/
def newLine (r : FeedSeriesUpdate) : String := r.workId ++ ": new row"

/-- What the loop has found so far. -/
structure Found where
  drifted : Int
  sample : List String

/-- One more row, and its line while there are fewer than 8. -/
def Found.push (found : Found) (line : String) : Found where
  drifted := found.drifted + 1
  sample := if found.sample.length < 8 then found.sample ++ [line] else found.sample

/-- The body of the loop over the rebuilt rows. -/
def compareRow (printing : Printing) (snapshot : Table FeedSeriesUpdate) (found : Found)
    (r : FeedSeriesUpdate) : Found :=
  match columns driftColumns snapshot r.workId with
  | some was => if was = driftColumns r then found else found.push (changedLine printing r was)
  | none => found.push (newLine r)

/-- What a pass returns, stores and leaves. -/
structure Reconciled where
  report : DriftReport
  stored : StoredReport
  feeds : Feeds

/-- `reconcile_feed`; `none` where the rebuild fails. -/
def reconcileFeed (rules : FeedRules) (printing : Printing) (base : Base) (ready : Bool)
    (now : String) (feeds : Feeds) : Option Reconciled :=
  let snapshot := feeds.feedSeriesUpdates
  (refreshFeedUpdates base now).map fun t =>
    let feeds := refreshFeedSeriesUpdates rules base ready { feeds with feedUpdates := t }
    let after := feeds.feedSeriesUpdates
    let found := after.rows.foldl (compareRow printing snapshot) ⟨0, []⟩
    { report :=
        { rowsBefore := snapshot.rows.length
          rowsAfter := after.rows.length
          drifted := found.drifted
          sample := found.sample
          durationMs := printing.durationMs }
      stored :=
        { ranAt := printing.ranAt
          durationMs := printing.durationMs
          rowsBefore := snapshot.rows.length
          rowsAfter := after.rows.length
          drifted := found.drifted
          sample := some (" | ".intercalate found.sample) }
      feeds := feeds }

/-! ## What it is to report

A drift of 0 is read as a feed that was up to date. -/

/-- The number of works whose row was added, removed or changed, which is 0 only
if the feed has the same rows as before. -/
structure DriftExact (report : DriftReport) (before after : Table FeedSeriesUpdate) :
    Prop where
  zero_iff : report.drifted = 0 ↔ entries driftColumns before = entries driftColumns after
  count : report.drifted = (moved driftColumns before after).card

/-- Every work with a card still has a mirrored chapter with a release time, or a
library source with one. -/
def StillPublished (rules : FeedRules) (base : Base) (now : String) (feeds : Feeds) : Prop :=
  ∀ r ∈ feeds.feedSeriesUpdates, (mirrorTime rules base now r.workId).isSome = true ∨
    (newestSource rules base r.workId).isSome = true

section Report

variable {rules : FeedRules} {printing : Printing} {base : Base} {ready : Bool}
variable {now : String} {feeds : Feeds} {w : Id}

/-! ## The loop

The count and the sample are one pass over the rows. -/

/-- The line of a row that differs. -/
def driftLine (printing : Printing) (snapshot : Table FeedSeriesUpdate)
    (r : FeedSeriesUpdate) : String :=
  (columns driftColumns snapshot r.workId).elim (newLine r) (changedLine printing r)

/-- A row counts if the snapshot has it otherwise, or not at all. -/
theorem compareRow_eq (snapshot : Table FeedSeriesUpdate) (found : Found)
    (r : FeedSeriesUpdate) : compareRow printing snapshot found r =
      if columns driftColumns snapshot r.workId = some (driftColumns r) then found
      else found.push (driftLine printing snapshot r) := by
  unfold compareRow driftLine
  cases columns driftColumns snapshot r.workId with
  | none => simp
  | some was => simp

/-- The loop counts the rows that the snapshot has not, and keeps the first lines. -/
theorem foldl_compareRow (printing : Printing) (snapshot : Table FeedSeriesUpdate)
    (rows : List FeedSeriesUpdate) (found : Found) (hshort : found.sample.length ≤ 8) :
    let differing := rows.filter fun r =>
      columns driftColumns snapshot r.workId ≠ some (driftColumns r)
    rows.foldl (compareRow printing snapshot) found =
      ⟨found.drifted + differing.length,
        (found.sample ++ differing.map (driftLine printing snapshot)).take 8⟩ := by
  induction rows generalizing found with
  | nil => simp [List.take_of_length_le hshort]
  | cons r rows ih =>
      by_cases hsame : columns driftColumns snapshot r.workId = some (driftColumns r)
      · simp only [List.foldl_cons, compareRow_eq, hsame, if_true]
        rw [ih found hshort]
        simp [hsame]
      · simp only [List.foldl_cons, compareRow_eq, hsame, if_false]
        have hpush : (found.push (driftLine printing snapshot r)).sample.length ≤ 8 := by
          unfold Found.push
          split
          · rw [List.length_append, List.length_singleton]
            omega
          · exact hshort
        rw [ih _ hpush]
        by_cases hroom : found.sample.length < 8
        · simp [Found.push, hsame, hroom]
          omega
        · have hfull : found.sample.length = 8 := by omega
          simp [Found.push, hsame, hfull]
          omega

/-- What a pass reports and leaves. -/
theorem reconcileFeed_ok {reconciled : Reconciled}
    (h : reconcileFeed rules printing base ready now feeds = some reconciled) :
    ∃ t, refreshFeedUpdates base now = some t ∧
      reconciled.feeds.feedSeriesUpdates = rebuiltFeed rules base ready t ∧
      reconciled.report.drifted = (unlike driftColumns feeds.feedSeriesUpdates
        reconciled.feeds.feedSeriesUpdates).length := by
  obtain ⟨t, ht, rfl⟩ := Option.map_eq_some_iff.mp h
  have hloop := foldl_compareRow printing feeds.feedSeriesUpdates
    (rebuiltFeed rules base ready t).rows ⟨0, []⟩ (Nat.zero_le 8)
  have hdrifted := congrArg Found.drifted hloop
  simp only [Int.zero_add] at hdrifted
  exact ⟨t, ht, rfl, hdrifted⟩

/-! ## The rows that are gone

A work has a card as long as it has one of the halves. -/

/-- The rebuilt `feed_updates` has the mirror half of every work. -/
theorem mirrorHalf_refreshFeedUpdates {t : Table FeedUpdate}
    (h : refreshFeedUpdates base now = some t) :
    mirrorHalf rules base t w = freshMirror rules base now w := by
  unfold refreshFeedUpdates at h
  split at h
  · cases h
    rw [mirrorHalf, lookup_select, freshMirror]
    congr 1
    cases base.work.lookup w with
    | none => rfl
    | some work => rfl
  · contradiction

/-- Where the rebuild succeeds, a mirror half is a release time. -/
theorem isSome_freshMirror {t : Table FeedUpdate} (h : refreshFeedUpdates base now = some t) :
    (freshMirror rules base now w).isSome = (mirrorTime rules base now w).isSome := by
  have htitled : ∀ work ∈ base.work, work.primaryTitle = none →
      newestReleased base now work.id = none := by
    rw [← complete_iff, ← isSome_refreshFeedUpdates, h, Option.isSome_some]
  unfold freshMirror mirrorTime
  cases hnewest : newestReleased base now w with
  | none =>
      cases hwork : base.work.lookup w with
      | none => rfl
      | some work =>
          have hid : work.id = w := key_of_lookup hwork
          simp [feedUpdatesSelect, hid, hnewest]
  | some r =>
      obtain ⟨work, hwork⟩ := exists_work_of_newestReleased hnewest
      have hid : work.id = w := key_of_lookup hwork
      cases htitle : work.primaryTitle with
      | none =>
          have hnone := htitled work (mem_of_lookup hwork) htitle
          rw [hid, hnewest] at hnone
          contradiction
      | some title =>
          simp [feedUpdatesSelect, mirrorRow, hwork, hid, hnewest, htitle]

/-- A work with a library source has a scanner half. -/
theorem isSome_scannerHalf :
    (scannerHalf rules base w).isSome = (newestSource rules base w).isSome := by
  unfold scannerHalf
  cases hwork : base.work.lookup w with
  | some work =>
      have hid : work.id = w := key_of_lookup hwork
      rw [Option.bind_some, scannerRow, hid, Option.isSome_map]
  | none =>
      cases hnewest : newestSource rules base w with
      | none => rfl
      | some s =>
          have hsource := (mem_librarySources.mp (mem_of_newestSource hnewest)).1
          obtain ⟨work, hmem⟩ := exists_work_of_source hsource
          rw [hwork] at hmem
          contradiction

/-- The rebuilt feed has a row of a work exactly if it has one of the halves. -/
theorem isSome_lookup_rebuiltFeed {t : Table FeedUpdate}
    (h : refreshFeedUpdates base now = some t) :
    ((rebuiltFeed rules base ready t).lookup w).isSome = true ↔
      (mirrorTime rules base now w).isSome = true ∨
        (newestSource rules base w).isSome = true := by
  rw [lookup_rebuiltFeed, Option.isSome_map, mirrorHalf_refreshFeedUpdates h,
    ← isSome_freshMirror h, ← isSome_scannerHalf]
  cases scannerHalf rules base w <;> simp [mergedWith]

/-! ## When the report is exact

The difference is a number of rows, so it is 0 exactly if there are none. -/

/-- The report falls short of what moved by the rows that are gone. -/
theorem driftExact_iff_gone {reconciled : Reconciled}
    (h : reconcileFeed rules printing base ready now feeds = some reconciled) :
    DriftExact reconciled.report feeds.feedSeriesUpdates
        reconciled.feeds.feedSeriesUpdates ↔
      gone feeds.feedSeriesUpdates reconciled.feeds.feedSeriesUpdates = ∅ := by
  obtain ⟨t, -, -, hdrifted⟩ := reconcileFeed_ok h
  have hcard : (moved driftColumns feeds.feedSeriesUpdates
      reconciled.feeds.feedSeriesUpdates).card = _ := card_moved
  constructor
  · intro hexact
    have hcount := hexact.count
    rw [← Finset.card_eq_zero]
    omega
  · intro hgone
    rw [hgone, Finset.card_empty, Nat.add_zero] at hcard
    constructor
    · rw [← moved_eq_empty, ← Finset.card_eq_zero]
      omega
    · omega

/-- **What the report is worth.**  It is exact exactly where no card loses both of the
halves that it was made from: the report counts the rows after the rebuild that differ
from those before, so a row that is gone is counted by nobody
(`driftExact_iff_gone`). -/
theorem driftExact_iff {reconciled : Reconciled}
    (h : reconcileFeed rules printing base ready now feeds = some reconciled) :
    DriftExact reconciled.report feeds.feedSeriesUpdates
        reconciled.feeds.feedSeriesUpdates ↔
      StillPublished rules base now feeds := by
  rw [driftExact_iff_gone h, gone_eq_empty]
  obtain ⟨t, ht, hfeed, -⟩ := reconcileFeed_ok h
  rw [hfeed]
  simp only [isSome_lookup_rebuiltFeed ht]
  rfl

end Report

/-! ## A card without a chapter

The one kind of row that is not reported. -/

/-- A work whose sources have lost their chapters. -/
def emptiedWork : Base :=
  { Base.empty with
    work := oneWork (some "Dusk")
    sourceSeries_work := by decide }

/-- Its card, from when it had one. -/
def staleFeeds : Feeds :=
  { Feeds.empty with
    feedSeriesUpdates := ⟨[{ workId := "w", readerId := "w", title := "Dusk",
                             coverUrl := none, suwayomiThumbnail := none,
                             comicType := some "MANGA", latestChapter := some "12",
                             latestChapterTitle := none, chapterCount := none,
                             releasedAt := 1000, detectedAt := none, isNsfw := false,
                             status := some "UNKNOWN", contentRating := "safe",
                             enChapterCount := 12 }], List.pairwise_singleton _ _⟩ }

/-- A clock that stands still. -/
def plainPrinting : Printing where
  debug label := label.getD "None"
  durationMs := 0
  ranAt := "t1"

/-- The rebuild removes the card, and the pass reports no drift. -/
theorem not_driftExact_stale :
    ∃ reconciled, reconcileFeed plainRules plainPrinting emptiedWork true "2026" staleFeeds =
        some reconciled ∧ reconciled.report.drifted = 0 ∧
      ¬DriftExact reconciled.report staleFeeds.feedSeriesUpdates
        reconciled.feeds.feedSeriesUpdates := by
  have hmissed : (reconcileFeed plainRules plainPrinting emptiedWork true "2026"
      staleFeeds).any fun r => decide (r.report.drifted = 0 ∧
        gone staleFeeds.feedSeriesUpdates r.feeds.feedSeriesUpdates ≠ ∅) := by decide
  obtain ⟨reconciled, hreconciled, hgone⟩ := (Option.any_eq_true _ _).mp hmissed
  obtain ⟨hzero, hgone⟩ := of_decide_eq_true hgone
  exact ⟨reconciled, hreconciled, hzero, mt (driftExact_iff_gone hreconciled).mp hgone⟩

/-- A pass over a feed whose one card is up to date is exact. -/
theorem driftExact_mirrored :
    ∃ reconciled, reconcileFeed plainRules plainPrinting mirroredWork true "2026"
        flaggedFeeds = some reconciled ∧
      DriftExact reconciled.report flaggedFeeds.feedSeriesUpdates
        reconciled.feeds.feedSeriesUpdates := by
  have hsome : (reconcileFeed plainRules plainPrinting mirroredWork true "2026"
      flaggedFeeds).isSome = true := by decide
  have hreconciled := (Option.some_get hsome).symm
  have hpublished : StillPublished plainRules mirroredWork "2026" flaggedFeeds := by
    intro r hr
    have hr : r.workId = "w" := by
      rw [List.mem_singleton.mp hr]
    rw [hr]
    decide
  exact ⟨_, hreconciled, (driftExact_iff hreconciled).mpr hpublished⟩

end Komika.Feed.Reconcile
