import Komika.Feed.Reconcile

/-!
# One work's caches

`reproject_work_caches` of `catalog/mod.rs`, which a split calls for both of its
works instead of waiting for the rebuild.  It points the feed row of the work at a
reader, selects the work's card for Browse, and writes its row of the index.

What it does not do is to compute the feed row again: the card is copied from the
row that was there.  And it takes the reader of the first Suwayomi source, where the
rebuild takes the one with the newest release.  So the three rows are those of the
next rebuild only if the sources of the work leave the feed row as it is and agree
on the reader: `Settled`.

The call is compared with the rebuild that comes next, work by work.  The feed rows
differ in their reader only (`sameReader_iff`), the cards in what they are copied from
(`sameCard_iff`), and the rows of the index not at all.

* `rebuilt_row` — the rebuilt feed row of a work in terms of its sources;
* `readerId_repointed`, `readerId_rebuilt_iff` — the reader of either;
* `sameCard_iff` — the card, for a work that is published and for one that is not;
* `reproject_converges_iff` — when all three agree;
* `settled_of_untouched` — a split that takes nothing the row is made from;
* `not_reproject_converges_threeSources` — a card that moves back and forth.
-/

namespace Komika.Feed.Reproject

open Komika.Lib Komika.Lib.Table
open Komika.Catalog.Schema (Id SourceSeries)
open Komika.Feed.Schema Komika.Feed.Types Komika.Feed.Rebuild Komika.Feed.Publish
open Komika.Feed.Browse Komika.Feed.Untitled Komika.Feed.Reconcile
open Komika.Catalog.Database Komika.Catalog.Split

/-! ## The re-projection

Three statements, for one work. -/

/-- `COALESCE(CASE … END, feed_series_updates.reader_id)`. -/
def repointed (base : Base) (r : FeedSeriesUpdate) : FeedSeriesUpdate :=
  { r with
    readerId :=
      (if anchored base r.workId then some r.workId
        else (sourcesOf base "suwayomi" r.workId).head?.map SourceSeries.sourceKey).getD
          r.readerId }

theorem keepsKeys_repointed (base : Base) : KeepsKeys (repointed base) :=
  .of_key fun _ => rfl

/-- The first statement: a new reader for the feed row of the work, and nothing else of
it. -/
def repoint (base : Base) (workId : Id) (t : Table FeedSeriesUpdate) :
    Table FeedSeriesUpdate :=
  t.update (fun r => r.workId = workId) (repointed base) (keepsKeys_repointed base)

/-- The upsert of `browse_catalogue_select_for`, which may select nothing. -/
def upsertBrowse (rules : FeedRules) (base : Base) (feed : Table FeedSeriesUpdate)
    (workId : Id) (t : Table BrowseEntry) : Table BrowseEntry :=
  match (base.work.lookup workId).bind (browseRow rules base feed) with
  | none => t
  | some r => t.upsert r browseMerge (keepsKeys_browseMerge r)

/-- The delete from the index, and the insert. -/
def rewriteFts (base : Base) (workId : Id) (rows : List FtsRow) : List FtsRow :=
  (rows.filter fun r => r.workId ≠ workId) ++
    ((base.work.lookup workId).bind (ftsRow base)).toList

/-- `reproject_work_caches`: the reader, then the card, its type, and the rows of the
index. -/
def reprojectWorkCaches (rules : FeedRules) (base : Base) (workId : Id) (feeds : Feeds) :
    Feeds :=
  let feed := repoint base workId feeds.feedSeriesUpdates
  { feeds with
    feedSeriesUpdates := feed
    browseCatalogue :=
      fillComicTypes rules base workId
        (upsertBrowse rules base feed workId feeds.browseCatalogue)
    workFts := rewriteFts base workId feeds.workFts }

/-! ## What it is to converge

The state before the call that makes them the rows of the next rebuild. -/

/-- The reader of the work's feed row, its card and its row of the index. -/
structure SameCaches (w : Id) (a b : Feeds) : Prop where
  readerId : (a.feedSeriesUpdates.lookup w).map (·.readerId) =
    (b.feedSeriesUpdates.lookup w).map (·.readerId)
  card : a.browseCatalogue.lookup w = b.browseCatalogue.lookup w
  search : (a.workFts.filter fun r => r.workId = w) = b.workFts.filter fun r => r.workId = w

/-- What Browse copies from a feed row, but for the reader. -/
@[ext] structure Card where
  title : String
  coverUrl : Option String
  suwayomiThumbnail : Option String
  status : Option String
  contentRating : String
  isNsfw : Bool
  latestChapter : Option String
  releasedAt : Option Int
deriving DecidableEq

/-- What Browse copies of a feed row. -/
def feedCard (f : FeedSeriesUpdate) : Card where
  title := f.title
  coverUrl := f.coverUrl
  suwayomiThumbnail := f.suwayomiThumbnail
  status := f.status
  contentRating := f.contentRating
  isNsfw := f.isNsfw
  latestChapter := f.latestChapter
  releasedAt := some f.releasedAt

/-- The same columns of a card. -/
def entryCard (b : BrowseEntry) : Card where
  title := b.title
  coverUrl := b.coverUrl
  suwayomiThumbnail := b.suwayomiThumbnail
  status := b.status
  contentRating := b.contentRating
  isNsfw := b.isNsfw
  latestChapter := b.latestChapter
  releasedAt := b.releasedAt

section Condition

variable (rules : FeedRules) (base : Base) (ready : Bool) (now : String)

/-- The label of the newest chapter, where the ledger has no event: the mirrored
chapter, or else that of the newest source. -/
def newestLabel (w : Id) : Option String :=
  if (mirrorTime rules base now w).isSome then
    (newestReleased base now w).bind (·.2.number)
  else
    (newestSource rules base w).map fun s =>
      rules.formatG (((topChapter rules base s.series.id).map (·.chapterNumber)).getD 0)

/-- The later one of the two halves, where the ledger has no event. -/
def newestTime (w : Id) : Option Int :=
  ((mirrorTime rules base now w).toList ++
    ((newestSource rules base w).map (·.releasedAt)).toList).max?

/-- What the sources of a work and the ledger say now. -/
def currentCard (w : Work) : Card where
  title := (w.titleOverride.or w.primaryTitle).getD
    (((newestSource rules base w.id).map (·.series.title)).getD "")
  coverUrl := if (mirrorTime rules base now w.id).isSome then workCover w else cachedCover w
  suwayomiThumbnail := (newestSource rules base w.id).bind (·.series.thumbnailUrl)
  status := some (fsuStatus w)
  contentRating := ratingOf w
  isNsfw := w.effectiveNsfw
  latestChapter := (clockEvent base ready w.id).elim (newestLabel rules base now w.id)
    fun e => some e.label
  releasedAt := (clockEvent base ready w.id).elim (newestTime rules base now w.id)
    fun e => some e.firstSeenAt

/-- Where the card of a work leads. -/
def destination (w : Id) : String :=
  if anchored base w then w
  else ((firstSuwayomi rules base w).map (·.1.sourceKey)).getD ""

/-- A card of Browse that needs no change. -/
structure ShowsCurrent (work : Work) (b : BrowseEntry) : Prop where
  readerId : b.readerId = destination rules base work.id
  card : entryCard b = currentCard rules base ready now work
  enChapterCount : b.enChapterCount = max (englishCount base work.id)
    ((suwayomiCount rules base work.id).getD 0)
  createdAt : b.createdAt = work.createdAt

/-- The feed has a row of the work exactly if a source publishes it. -/
def Published (feeds : Feeds) (w : Id) : Prop :=
  (feeds.feedSeriesUpdates.lookup w).isSome = true ↔
    (mirrorTime rules base now w).isSome = true ∨ (newestSource rules base w).isSome = true

/-- The first Suwayomi source is the newest, as far as the reader goes. -/
def OneReader (w : Id) : Prop :=
  anchored base w = false → ∀ s ∈ newestSource rules base w,
    destination rules base w = toString s.series.id

/-- What Browse copies from the feed row is what the sources say now.  A feed row
without a title is not copied, and then the card that is there has to be up to date. -/
def Current (feeds : Feeds) (work : Work) (f : FeedSeriesUpdate) : Prop :=
  openable rules base work.id = true → (currentCard rules base ready now work).title ≠ "" →
    feedCard f = currentCard rules base ready now work ∨
      f.title = "" ∧ ∃ b ∈ feeds.browseCatalogue.lookup work.id,
        ShowsCurrent rules base ready now work b

/-- The caches of a work are up to date but for what the call writes. -/
structure Settled (feeds : Feeds) (w : Id) : Prop where
  published : Published rules base now feeds w
  oneReader : OneReader rules base w
  current : ∀ work ∈ base.work.lookup w, ∀ f ∈ feeds.feedSeriesUpdates.lookup w,
    Current rules base ready now feeds work f
  /-- A work without a source has no card. -/
  pruned : sourced base w = false → feeds.browseCatalogue.lookup w = none

end Condition

/-! ## The rows of the rebuild

A work that is published has one feed row, out of one half or of two. -/

section Rows

variable {rules : FeedRules} {base : Base} {ready : Bool} {now : String} {feeds : Feeds}
variable {w : Id} {work : Work} {t : Table FeedUpdate}

/-- A mirrored chapter has a MangaDex source. -/
theorem anchored_of_newestReleased {r : SourceSeries × Chapter}
    (h : newestReleased base now w = some r) : anchored base w = true := by
  have hr := (List.mem_filter.mp (List.maxOn?_mem h)).1
  obtain ⟨hss, hon, htype⟩ := mem_sourcesOf.mp (source_of_englishChapter hr)
  rw [anchored, List.any_eq_true]
  exact ⟨r.1, hss, by simp [hon, htype]⟩

/-- The passes change two of these columns. -/
theorem feedCard_finish (r : FeedSeriesUpdate) :
    feedCard (finish rules base ready r) =
      { feedCard r with
        latestChapter := (clockEvent base ready r.workId).elim r.latestChapter
          fun e => some e.label
        releasedAt := (clockEvent base ready r.workId).elim (some r.releasedAt)
          fun e => some e.firstSeenAt } := by
  rw [finish_eq]
  cases clockEvent base ready r.workId <;> rfl

theorem readerId_finish (r : FeedSeriesUpdate) :
    (finish rules base ready r).readerId = r.readerId := by
  rw [finish_eq]

/-- The two halves merged, where there is a mirror half. -/
theorem card_of_mirror {m both : FeedSeriesUpdate} (hwork : base.work.lookup w = some work)
    (hmirror : freshMirror rules base now w = some m)
    (hboth : mergedWith scannerMerge (some m) (scannerRow rules base work) = some both) :
    feedCard (finish rules base ready both) = currentCard rules base ready now work ∧
      both.readerId = w ∧ anchored base w = true := by
  have hid : work.id = w := key_of_lookup hwork
  obtain ⟨r, title, seconds, hnewest, hprimary, hseconds, hm, hreader, htitle, hlabel, htime⟩ :=
    freshMirror_eq_some hwork hmirror
  have hmirrored : mirrorTime rules base now w = some (seconds * 1000) := by
    rw [mirrorTime, hnewest, Option.bind_some, hseconds, Option.map_some]
  have hmid : m.workId = w := hm.workId.trans hid
  have hshown : work.titleOverride.getD title =
      (work.titleOverride.or work.primaryTitle).getD
        (((newestSource rules base w).map (·.series.title)).getD "") := by
    rw [hprimary]
    cases work.titleOverride <;> rfl
  have hlabels : m.latestChapter = newestLabel rules base now w := by
    rw [hlabel, newestLabel, hmirrored, if_pos Option.isSome_some, hnewest, Option.bind_some]
  have htimes : some ((newestSource rules base w).elim m.releasedAt
      (max m.releasedAt ·.releasedAt)) = newestTime rules base now w := by
    rw [newestTime, hmirrored, htime]
    cases newestSource rules base w <;> simp [List.max?]
  rw [rebuilt_eq hm, Option.some.injEq, hid] at hboth
  subst hboth
  refine ⟨?_, hreader, anchored_of_newestReleased hnewest⟩
  rw [feedCard_finish, Card.ext_iff]
  simp only [feedCard, currentCard, hid, hmid, hmirrored, Option.isSome_some, if_true]
  refine ⟨htitle.trans hshown, hm.cover, trivial, hm.status, hm.rating, hm.nsfw, ?_, ?_⟩
  · rw [hlabels]
  · rw [htimes]

/-- The scanner half alone. -/
theorem card_of_scanner {both : FeedSeriesUpdate} (hwork : base.work.lookup w = some work)
    (hmirrored : mirrorTime rules base now w = none)
    (hboth : scannerRow rules base work = some both) :
    feedCard (finish rules base ready both) = currentCard rules base ready now work ∧
      both.readerId = if anchored base w then w
        else ((newestSource rules base w).map fun s => toString s.series.id).getD "" := by
  have hid : work.id = w := key_of_lookup hwork
  rw [scannerRow, hid] at hboth
  cases hnewest : newestSource rules base w with
  | none => simp [hnewest] at hboth
  | some s =>
      rw [hnewest, Option.map_some, Option.some.injEq] at hboth
      subst hboth
      refine ⟨?_, rfl⟩
      rw [feedCard_finish, Card.ext_iff]
      simp [feedCard, currentCard, newestLabel, newestTime, hid, hmirrored, hnewest]

/-- The row that the rebuild has of a work. -/
theorem rebuilt_row (h : refreshFeedUpdates base now = some t)
    (hwork : base.work.lookup w = some work) {f : FeedSeriesUpdate}
    (hf : (rebuiltFeed rules base ready t).lookup w = some f) :
    feedCard f = currentCard rules base ready now work ∧
      f.readerId = if anchored base w then w
        else ((newestSource rules base w).map fun s => toString s.series.id).getD "" := by
  rw [lookup_rebuiltFeed, mirrorHalf_refreshFeedUpdates h, scannerHalf, hwork,
    Option.bind_some] at hf
  obtain ⟨both, hboth, rfl⟩ := Option.map_eq_some_iff.mp hf
  rw [readerId_finish]
  cases hmirror : freshMirror rules base now w with
  | some m =>
      rw [hmirror] at hboth
      obtain ⟨hcard, hreader, hanchored⟩ := card_of_mirror hwork hmirror hboth
      exact ⟨hcard, by rw [hreader, if_pos hanchored]⟩
  | none =>
      have hmirrored : mirrorTime rules base now w = none := by
        rw [← Option.not_isSome_iff_eq_none, ← isSome_freshMirror h, hmirror]
        exact Bool.false_ne_true
      rw [hmirror] at hboth
      apply card_of_scanner hwork hmirrored
      cases hscanner : scannerRow rules base work with
      | none => simp [mergedWith, hscanner] at hboth
      | some r => simpa [mergedWith, hscanner] using hboth

/-! ## The rows of the call

Each statement on the row of the work. -/

/-- The first statement changes the row of the work. -/
theorem lookup_repoint {feed : Table FeedSeriesUpdate} :
    (repoint base w feed).lookup w = (feed.lookup w).map (repointed base) := by
  rw [repoint, lookup_update]
  cases hrow : feed.lookup w with
  | none => rfl
  | some f =>
      have hid : f.workId = w := key_of_lookup hrow
      simp [hid]

/-- The upsert selects the card of the work, or leaves what there is. -/
theorem lookup_upsertBrowse {feed : Table FeedSeriesUpdate} {browse : Table BrowseEntry} :
    (upsertBrowse rules base feed w browse).lookup w =
      ((base.work.lookup w).bind (browseRow rules base feed)).elim (browse.lookup w)
        fun r => some (merged browseMerge (browse.lookup w) r) := by
  unfold upsertBrowse
  cases hrow : (base.work.lookup w).bind (browseRow rules base feed) with
  | none => rfl
  | some r =>
      obtain ⟨work, hwork, hselected⟩ := Option.bind_eq_some_iff.mp hrow
      have hkey : key r = w :=
        (key_browseRow rules base feed work r hselected).trans (key_of_lookup hwork)
      rw [Option.elim_some, lookup_upsert, if_pos hkey]

/-- The index has at most one row of a work, that of the rebuild. -/
theorem filter_refreshWorkFts :
    ((refreshWorkFts base).filter fun r => r.workId = w) =
      ((base.work.lookup w).bind (ftsRow base)).toList := by
  have hscoped : ((base.work.lookup w).bind fun a => (ftsRow base a).filter fun r =>
      decide (r.workId = w)) = (base.work.lookup w).bind (ftsRow base) := by
    cases hwork : base.work.lookup w with
    | none => rfl
    | some work =>
        have hid : work.id = w := key_of_lookup hwork
        rw [Option.bind_some, Option.bind_some]
        cases hrow : ftsRow base work with
        | none => rfl
        | some r => simp [Option.filter, (workId_ftsRow hrow).trans hid]
  rw [refreshWorkFts, List.filter_filterMap, ← hscoped]
  apply filterMap_of_key
  intro work _ hne
  rw [Option.filter_eq_none_iff]
  intro r hr
  rw [decide_eq_true_eq, workId_ftsRow hr]
  exact hne

/-- The row of the index is that of the work, whatever there was. -/
theorem filter_rewriteFts {rows : List FtsRow} :
    ((rewriteFts base w rows).filter fun r => r.workId = w) =
      ((base.work.lookup w).bind (ftsRow base)).toList := by
  have hold : (rows.filter fun r => r.workId ≠ w).filter (fun r => r.workId = w) = [] := by
    rw [List.filter_filter, List.filter_eq_nil_iff]
    intro r _
    simp
  rw [rewriteFts, List.filter_append, hold, List.nil_append, List.filter_eq_self]
  intro r hr
  obtain ⟨work, hwork, hrow⟩ := Option.bind_eq_some_iff.mp (Option.mem_toList.mp hr)
  exact decide_eq_true ((workId_ftsRow hrow).trans (key_of_lookup hwork))

/-! ## Cards

A card copies a feed row, or falls back on the work and on its first source; the types
come behind it. -/

/-- A card of a work that is there gets its type. -/
theorem typed_eq {b : BrowseEntry} (hwork : base.work.lookup b.workId = some work) :
    typed rules base b =
      { b with comicType := some (comicTypeWord rules work (tieredGenres rules base work.id)
          b.title) } := by
  unfold typed
  rw [key_browseEntry, hwork]
  rfl

theorem typed_typed (b : BrowseEntry) :
    typed rules base (typed rules base b) = typed rules base b := by
  cases hwork : base.work.lookup b.workId with
  | none =>
      have hsame : typed rules base b = b := by
        unfold typed
        rw [key_browseEntry, hwork]
      rw [hsame, hsame]
  | some work =>
      rw [typed_eq hwork]
      exact typed_eq hwork

/-- The type of a row does not depend on the row that it replaces. -/
theorem typed_merged {old : Option BrowseEntry} {b : BrowseEntry}
    (hwork : base.work.lookup b.workId = some work) (hold : ∀ o ∈ old, o.workId = b.workId) :
    typed rules base (merged browseMerge old b) = typed rules base b := by
  cases old with
  | none => rfl
  | some o =>
      have hid : o.workId = b.workId := hold o rfl
      rw [merged_some, typed_eq hwork, browseMerge, hid]
      exact typed_eq hwork

/-- Two cards of a work are the same once they have a type. -/
theorem typed_eq_typed_iff {b c : BrowseEntry} (hwork : base.work.lookup b.workId = some work)
    (hid : b.workId = c.workId) : typed rules base b = typed rules base c ↔
      b.readerId = c.readerId ∧ entryCard b = entryCard c ∧
        b.enChapterCount = c.enChapterCount ∧ b.createdAt = c.createdAt := by
  rw [typed_eq hwork, typed_eq (hid ▸ hwork), BrowseEntry.mk.injEq, Card.ext_iff]
  simp only [entryCard]
  constructor
  · intro h
    tauto
  · rintro ⟨hreader, ⟨htitle, hcard⟩, hcount, hcreated⟩
    rw [htitle]
    tauto

/-- The card of a work that has a feed row. -/
def publishedCard (rules : FeedRules) (base : Base) (f : FeedSeriesUpdate) (work : Work) :
    BrowseEntry where
  workId := work.id
  readerId := if anchored base work.id then work.id else f.readerId
  title := f.title
  coverUrl := f.coverUrl
  suwayomiThumbnail := f.suwayomiThumbnail
  comicType := none
  status := f.status
  contentRating := f.contentRating
  isNsfw := f.isNsfw
  enChapterCount := max (englishCount base work.id) ((suwayomiCount rules base work.id).getD 0)
  latestChapter := f.latestChapter
  releasedAt := some f.releasedAt
  createdAt := work.createdAt

theorem entryCard_publishedCard {f : FeedSeriesUpdate} :
    entryCard (publishedCard rules base f work) = feedCard f := rfl

/-- What the select makes of a work that has a feed row. -/
theorem browseRow_of_published {feed : Table FeedSeriesUpdate} {f : FeedSeriesUpdate}
    (hf : feed.lookup work.id = some f) : browseRow rules base feed work =
      if openable rules base work.id = true ∧ f.title ≠ "" then
        some (publishedCard rules base f work)
      else none := by
  have htitle : browseTitle rules base (some f) work = f.title := rfl
  unfold browseRow
  dsimp only
  rw [hf, htitle]
  simp only [Bool.and_eq_true, decide_eq_true_eq]
  rfl

/-- The pass types the card of the work. -/
theorem lookup_fillComicTypes {browse : Table BrowseEntry} :
    (fillComicTypes rules base (some w) browse).lookup w =
      (browse.lookup w).map (typed rules base) := by
  rw [fillComicTypes, lookup_update]
  cases hrow : browse.lookup w with
  | none => rfl
  | some b =>
      have hid : b.workId = w := key_of_lookup hrow
      simp [inScope, hid]

/-- The select reads one row of the feed. -/
theorem browseRow_congr {feed feed' : Table FeedSeriesUpdate}
    (h : feed.lookup work.id = feed'.lookup work.id) :
    browseRow rules base feed work = browseRow rules base feed' work := by
  unfold browseRow
  rw [h]

/-- The card of the call is that of the rebuild after it: where the rebuild selects a
card, the call has selected or left the same. -/
theorem card_settles {feed feed' : Table FeedSeriesUpdate} {browse : Table BrowseEntry}
    (hwork : base.work.lookup w = some work) (hsourced : sourced base w = true) :
    (fillComicTypes rules base (some w) (upsertBrowse rules base feed w browse)).lookup w =
        (refreshBrowseCatalogue rules base feed' (fillComicTypes rules base (some w)
          (upsertBrowse rules base feed w browse))).lookup w ↔
      ∀ c ∈ browseRow rules base feed' work,
        ((browseRow rules base feed work).or (browse.lookup w)).map (typed rules base) =
          some (typed rules base c) := by
  have hid : work.id = w := key_of_lookup hwork
  have hon {feed : Table FeedSeriesUpdate} {b : BrowseEntry}
      (hb : browseRow rules base feed work = some b) : b.workId = w :=
    (key_browseRow rules base feed work b hb).trans hid
  have hcall : (fillComicTypes rules base (some w)
      (upsertBrowse rules base feed w browse)).lookup w =
        ((browseRow rules base feed work).or (browse.lookup w)).map (typed rules base) := by
    rw [lookup_fillComicTypes, lookup_upsertBrowse, hwork, Option.bind_some]
    cases hrow : browseRow rules base feed work with
    | none => rfl
    | some b =>
        have hb : b.workId = w := hon hrow
        have hold : ∀ o ∈ browse.lookup w, o.workId = b.workId := by
          intro o ho
          exact (key_of_lookup ho).trans hb.symm
        rw [Option.elim_some, Option.some_or, Option.map_some, Option.map_some,
          typed_merged (hb ▸ hwork) hold]
  rw [lookup_refreshBrowseCatalogue, hcall, if_pos hsourced, hwork, Option.bind_some]
  cases hrow : browseRow rules base feed' work with
  | none =>
      rw [Option.elim_none, Option.map_map]
      have hagain : (typed rules base : BrowseEntry → BrowseEntry) ∘ typed rules base =
          typed rules base := funext typed_typed
      simp [hagain]
  | some c =>
      have hc : c.workId = w := hon hrow
      have hold : ∀ o ∈ ((browseRow rules base feed work).or (browse.lookup w)).map
          (typed rules base), o.workId = c.workId := by
        intro o ho
        rw [← hcall] at ho
        exact (key_of_lookup ho).trans hc.symm
      rw [Option.elim_some, Option.map_some, typed_merged (hc ▸ hwork) hold]
      simp

/-! ## When the call converges

Reader, card and index, each as a condition of its own. -/

/-- A row of the rebuilt feed is a row of a work. -/
theorem exists_work_of_rebuilt (h : refreshFeedUpdates base now = some t)
    {f : FeedSeriesUpdate} (hf : (rebuiltFeed rules base ready t).lookup w = some f) :
    ∃ work, base.work.lookup w = some work := by
  cases hwork : base.work.lookup w with
  | some work => exact ⟨work, rfl⟩
  | none =>
      rw [lookup_rebuiltFeed, mirrorHalf_refreshFeedUpdates h, freshMirror, scannerHalf,
        hwork] at hf
      contradiction

/-- A newest source is one of the Suwayomi sources, of which there is a first. -/
theorem destination_eq_first (hanchored : anchored base w = false) {s : LibrarySource}
    (hs : newestSource rules base w = some s) :
    ∃ first, (sourcesOf base "suwayomi" w).head? = some first ∧
      destination rules base w = first.sourceKey := by
  have hss := (mem_librarySources.mp (mem_of_newestSource hs)).1
  cases hfirst : (sourcesOf base "suwayomi" w).head? with
  | none => simp [List.head?_eq_none_iff.mp hfirst] at hss
  | some first =>
      refine ⟨first, rfl, ?_⟩
      simp [destination, hanchored, firstSuwayomi, hfirst]

/-- A published work without a MangaDex source has a library source. -/
theorem exists_newestSource (h : refreshFeedUpdates base now = some t)
    (hanchored : anchored base w = false) {g : FeedSeriesUpdate}
    (hg : (rebuiltFeed rules base ready t).lookup w = some g) :
    ∃ s, newestSource rules base w = some s := by
  rw [← Option.isSome_iff_exists]
  rcases (isSome_lookup_rebuiltFeed h).mp (Option.isSome_of_eq_some hg) with hmirror | hnewest
  · obtain ⟨time, htime⟩ := Option.isSome_iff_exists.mp hmirror
    obtain ⟨r, hr, -⟩ := Option.bind_eq_some_iff.mp htime
    rw [anchored_of_newestReleased hr] at hanchored
    contradiction
  · exact hnewest

/-- The reader of the call is the destination of the work. -/
theorem readerId_repointed (h : refreshFeedUpdates base now = some t)
    {f g : FeedSeriesUpdate} (hid : f.workId = w)
    (hg : (rebuiltFeed rules base ready t).lookup w = some g) :
    (repointed base f).readerId = destination rules base w := by
  by_cases hanchored : anchored base w = true
  · simp [repointed, destination, hid, hanchored]
  · rw [Bool.not_eq_true] at hanchored
    obtain ⟨s, hs⟩ := exists_newestSource h hanchored hg
    obtain ⟨first, hfirst, hdestination⟩ := destination_eq_first hanchored hs
    simp [repointed, hid, hanchored, hfirst, hdestination]

/-- The reader of the rebuild is the destination exactly if the first source is the
newest. -/
theorem readerId_rebuilt_iff (h : refreshFeedUpdates base now = some t)
    {g : FeedSeriesUpdate} (hg : (rebuiltFeed rules base ready t).lookup w = some g) :
    destination rules base w = g.readerId ↔ OneReader rules base w := by
  unfold OneReader
  obtain ⟨work, hwork⟩ := exists_work_of_rebuilt h hg
  rw [(rebuilt_row h hwork hg).2]
  by_cases hanchored : anchored base w = true
  · simp [destination, hanchored]
  · rw [Bool.not_eq_true] at hanchored
    obtain ⟨s, hs⟩ := exists_newestSource h hanchored hg
    simp [hanchored, hs]

/-- When the readers of the two feed rows are the same, or there is none. -/
theorem sameReader_iff (h : refreshFeedUpdates base now = some t) :
    ((repoint base w feeds.feedSeriesUpdates).lookup w).map (·.readerId) =
        ((rebuiltFeed rules base ready t).lookup w).map (·.readerId) ↔
      Published rules base now feeds w ∧ OneReader rules base w := by
  have hpublished : ((rebuiltFeed rules base ready t).lookup w).isSome = true ↔ _ :=
    isSome_lookup_rebuiltFeed h
  rw [lookup_repoint, Published, ← hpublished]
  cases hf : feeds.feedSeriesUpdates.lookup w with
  | none =>
      cases hg : (rebuiltFeed rules base ready t).lookup w with
      | some g => simp
      | none =>
          have hnone : ∀ s, newestSource rules base w ≠ some s := by
            intro s hs
            have hsome := hpublished.mpr (Or.inr (Option.isSome_of_eq_some hs))
            rw [hg] at hsome
            contradiction
          simp [OneReader, hnone]
  | some f =>
      cases hg : (rebuiltFeed rules base ready t).lookup w with
      | none => simp
      | some g =>
          have hid : f.workId = w := key_of_lookup hf
          rw [Option.map_some, Option.map_some, Option.map_some, Option.some.injEq,
            readerId_repointed h hid hg, readerId_rebuilt_iff h hg]
          simp

theorem readerId_publishedCard {g : FeedSeriesUpdate} (hid : work.id = w)
    (hreader : destination rules base w = g.readerId) :
    (publishedCard rules base g work).readerId = destination rules base work.id := by
  rw [publishedCard, hid, ← hreader]
  unfold destination
  split <;> rfl

/-- The card that the rebuild selects is up to date, and so is one like it. -/
theorem typed_eq_publishedCard_iff {b : BrowseEntry} {g : FeedSeriesUpdate}
    (hwork : base.work.lookup w = some work) (hb : b.workId = w)
    (hcard : feedCard g = currentCard rules base ready now work)
    (hreader : destination rules base w = g.readerId) :
    typed rules base b = typed rules base (publishedCard rules base g work) ↔
      ShowsCurrent rules base ready now work b := by
  have hid : work.id = w := key_of_lookup hwork
  rw [typed_eq_typed_iff (hb ▸ hwork) (hb.trans hid.symm), entryCard_publishedCard, hcard,
    readerId_publishedCard hid hreader]
  exact ⟨fun h => ⟨h.1, h.2.1, h.2.2.1, h.2.2.2⟩,
    fun h => ⟨h.readerId, h.card, h.enChapterCount, h.createdAt⟩⟩

/-- A card that the call leaves is the one that the rebuild selects. -/
theorem leftCard_iff {g : FeedSeriesUpdate} (hwork : base.work.lookup w = some work)
    (hcard : feedCard g = currentCard rules base ready now work)
    (hreader : destination rules base w = g.readerId) :
    (feeds.browseCatalogue.lookup w).map (typed rules base) =
        some (typed rules base (publishedCard rules base g work)) ↔
      ∃ b ∈ feeds.browseCatalogue.lookup w, ShowsCurrent rules base ready now work b := by
  rw [Option.map_eq_some_iff]
  apply exists_congr
  intro b
  apply and_congr_right
  intro hb
  exact typed_eq_publishedCard_iff hwork (key_of_lookup hb) hcard hreader

/-- A card that the call selects is the one that the rebuild selects. -/
theorem selectedCard_iff {f g : FeedSeriesUpdate} (h : refreshFeedUpdates base now = some t)
    (hwork : base.work.lookup w = some work) (hf : f.workId = w)
    (hg : (rebuiltFeed rules base ready t).lookup w = some g)
    (hreader : destination rules base w = g.readerId) :
    typed rules base (publishedCard rules base (repointed base f) work) =
        typed rules base (publishedCard rules base g work) ↔
      feedCard f = currentCard rules base ready now work := by
  have hid : work.id = w := key_of_lookup hwork
  have hcalled : destination rules base w = (repointed base f).readerId :=
    (readerId_repointed h hf hg).symm
  rw [typed_eq_publishedCard_iff hwork hid (rebuilt_row h hwork hg).1 hreader]
  constructor
  · intro hshows
    exact hshows.card
  · intro heq
    exact ⟨readerId_publishedCard hid hcalled, heq, rfl, rfl⟩

/-- When the two cards of a published work are the same. -/
theorem sameCard_iff_of_published {f g : FeedSeriesUpdate}
    (h : refreshFeedUpdates base now = some t) (hwork : base.work.lookup w = some work)
    (hf : feeds.feedSeriesUpdates.lookup w = some f)
    (hg : (rebuiltFeed rules base ready t).lookup w = some g)
    (hreader : destination rules base w = g.readerId) :
    (∀ c ∈ browseRow rules base (rebuiltFeed rules base ready t) work,
        ((browseRow rules base (repoint base w feeds.feedSeriesUpdates) work).or
          (feeds.browseCatalogue.lookup w)).map (typed rules base) =
            some (typed rules base c)) ↔
      Current rules base ready now feeds work f := by
  have hid : work.id = w := key_of_lookup hwork
  have hcard := (rebuilt_row h hwork hg).1
  have htitle : g.title = (currentCard rules base ready now work).title :=
    congrArg Card.title hcard
  have hcall : (repoint base w feeds.feedSeriesUpdates).lookup work.id =
      some (repointed base f) := by
    rw [hid, lookup_repoint, hf, Option.map_some]
  have hsame : (repointed base f).title = f.title := rfl
  rw [Current, browseRow_of_published (hid ▸ hg), browseRow_of_published hcall, htitle, hid,
    hsame]
  by_cases hopen : openable rules base w = true
  case neg => simp [hopen]
  by_cases hcurrent : (currentCard rules base ready now work).title = ""
  case pos => simp [hcurrent]
  by_cases hempty : f.title = ""
  · -- the call selects nothing, and a card that is there stays
    have hdiffer : feedCard f ≠ currentCard rules base ready now work := by
      intro heq
      exact hcurrent ((congrArg Card.title heq).symm.trans hempty)
    simpa [hopen, hcurrent, hempty, hdiffer] using leftCard_iff hwork hcard hreader
  · simp [hopen, hcurrent, hempty, selectedCard_iff h hwork (key_of_lookup hf) hg hreader]

/-- A work without a source has no card after the rebuild. -/
theorem sameCard_iff_of_unsourced {feed : Table FeedSeriesUpdate}
    (hsourced : sourced base w = false) :
    (reprojectWorkCaches rules base w feeds).browseCatalogue.lookup w =
        (refreshBrowseCatalogue rules base feed
          (reprojectWorkCaches rules base w feeds).browseCatalogue).lookup w ↔
      feeds.browseCatalogue.lookup w = none := by
  have hunselected : ((base.work.lookup w).bind
      (browseRow rules base (repoint base w feeds.feedSeriesUpdates))) = none := by
    cases hwork : base.work.lookup w with
    | none => rfl
    | some work =>
        have hid : work.id = w := key_of_lookup hwork
        rw [Option.bind_some, ← Option.not_isSome_iff_eq_none, isSome_browseRow, hid]
        intro hselected
        rw [sourced_of_openable hselected.1] at hsourced
        contradiction
  rw [lookup_refreshBrowseCatalogue, hsourced, if_neg Bool.false_ne_true,
    reprojectWorkCaches, lookup_fillComicTypes, lookup_upsertBrowse, hunselected,
    Option.elim_none, Option.map_eq_none_iff]

/-- When the two cards are the same, of a work whose readers are. -/
theorem sameCard_iff (h : refreshFeedUpdates base now = some t)
    (hpublished : Published rules base now feeds w) (hreader : OneReader rules base w) :
    (reprojectWorkCaches rules base w feeds).browseCatalogue.lookup w =
        (refreshBrowseCatalogue rules base (rebuiltFeed rules base ready t)
          (reprojectWorkCaches rules base w feeds).browseCatalogue).lookup w ↔
      (∀ work ∈ base.work.lookup w, ∀ f ∈ feeds.feedSeriesUpdates.lookup w,
        Current rules base ready now feeds work f) ∧
      (sourced base w = false → feeds.browseCatalogue.lookup w = none) := by
  cases hsourced : sourced base w with
  | false =>
      rw [sameCard_iff_of_unsourced hsourced]
      have hcurrent : ∀ work ∈ base.work.lookup w, ∀ f ∈ feeds.feedSeriesUpdates.lookup w,
          Current rules base ready now feeds work f := by
        intro work hwork f _ hopen
        rw [show work.id = w from key_of_lookup hwork] at hopen
        rw [sourced_of_openable hopen] at hsourced
        contradiction
      constructor
      · intro hnone
        exact ⟨hcurrent, fun _ => hnone⟩
      · intro hsettled
        exact hsettled.2 rfl
  | true =>
      obtain ⟨work, hwork⟩ := exists_work_of_sourced hsourced
      have hrebuilt : ((rebuiltFeed rules base ready t).lookup w).isSome = true ↔ _ :=
        isSome_lookup_rebuiltFeed h
      rw [reprojectWorkCaches, card_settles hwork hsourced, hwork]
      rw [Published, ← hrebuilt] at hpublished
      cases hf : feeds.feedSeriesUpdates.lookup w with
      | none =>
          rw [hf] at hpublished
          have hgone : (rebuiltFeed rules base ready t).lookup w = none := by
            rw [← Option.not_isSome_iff_eq_none, ← hpublished]
            exact Bool.false_ne_true
          have hid : work.id = w := key_of_lookup hwork
          have hsame : browseRow rules base (repoint base w feeds.feedSeriesUpdates) work =
              browseRow rules base (rebuiltFeed rules base ready t) work := by
            apply browseRow_congr
            rw [hid, lookup_repoint, hf, hgone, Option.map_none]
          rw [hsame]
          cases browseRow rules base (rebuiltFeed rules base ready t) work <;> simp
      | some f =>
          rw [hf] at hpublished
          obtain ⟨g, hg⟩ := Option.isSome_iff_exists.mp (hpublished.mp rfl)
          rw [sameCard_iff_of_published h hwork hf hg ((readerId_rebuilt_iff h hg).mpr hreader)]
          simp

end Rows

/-- What the feed row of a work is made from is the same in both. -/
structure Untouched (rules : FeedRules) (before after : Base) (ready : Bool)
    (past now : String) (w : Id) : Prop where
  work : after.work.lookup w = before.work.lookup w
  sourced : sourced after w = sourced before w
  mirrored : newestReleased after now w = newestReleased before past w
  newest : newestSource rules after w = newestSource rules before w
  chapters : after.suwayomiChapter = before.suwayomiChapter
  event : clockEvent after ready w = clockEvent before ready w

section Split

variable {rules : FeedRules} {before after : Base} {ready : Bool} {past now : String}
variable {feeds : Feeds} {w : Id} {work : Work}

/-- The time of the mirror half is the same. -/
theorem Untouched.mirrorTime (h : Untouched rules before after ready past now w) :
    mirrorTime rules after now w = mirrorTime rules before past w := by
  rw [Publish.mirrorTime, Publish.mirrorTime, h.mirrored]

/-- What the sources say now is the same. -/
theorem Untouched.currentCard (h : Untouched rules before after ready past now w)
    (hid : work.id = w) : currentCard rules after ready now work =
      currentCard rules before ready past work := by
  have htop : topChapter rules after = topChapter rules before := by
    funext mangaId
    rw [topChapter, topChapter, h.chapters]
  unfold Reproject.currentCard newestLabel newestTime
  rw [hid, h.mirrorTime, h.mirrored, h.newest, h.event, htop]

/-- A split that takes nothing the feed row is made from leaves the caches settled, if the
rebuild before it completed and the first source of the work is the newest. -/
theorem settled_of_untouched (h : Untouched rules before after ready past now w)
    (hcomplete : (refreshFeedUpdates before past).isSome = true)
    (hreader : OneReader rules after w) :
    Settled rules after ready now (rebuilt rules before ready past feeds) w := by
  obtain ⟨t, ht⟩ := Option.isSome_iff_exists.mp hcomplete
  have hrebuilt : rebuilt rules before ready past feeds =
      refreshFeedSeriesUpdates rules before ready { feeds with feedUpdates := t } := by
    rw [rebuilt, ht]
  have hrow : ((rebuiltFeed rules before ready t).lookup w).isSome = true ↔ _ :=
    isSome_lookup_rebuiltFeed ht
  rw [hrebuilt]
  constructor
  case published =>
      rw [Published, h.mirrorTime, h.newest]
      exact hrow
  case oneReader => exact hreader
  case current =>
      intro work hwork f hf _ _
      rw [h.work] at hwork
      left
      rw [h.currentCard (key_of_lookup hwork)]
      exact (rebuilt_row ht hwork hf).1
  case pruned =>
      intro hsourced
      rw [h.sourced] at hsourced
      rw [refreshFeedSeriesUpdates, lookup_refreshBrowseCatalogue, hsourced,
        if_neg Bool.false_ne_true]

end Split

/-! ## A card that leads elsewhere until the rebuild

Three sources, of which the second is the newest. -/

/-- The rules that read the digits of a number. -/
def decimalRules : FeedRules :=
  { plainRules with
    castInteger t := t.toList.foldl (fun n c => 10 * n + (c.toNat - 48)) 0 }

/-- Three series of the library, of which the second has the newest release. -/
def threeSeries : Table SuwayomiSeries :=
  ⟨[librarySeries 7 "Dawn" 1 (some "100"), librarySeries 8 "Dawn" 2 (some "200"),
    librarySeries 9 "Dusk" 1 (some "50")], by decide⟩

/-- A work that was merged from two, with three sources. -/
def mergedBase : Base :=
  { Base.empty with
    work := oneWork (some "Dawn")
    sourceSeries := ⟨[⟨"s1", "w", "suwayomi", "1", "7", none, false, none⟩,
                      ⟨"s2", "w", "suwayomi", "2", "8", none, false, none⟩,
                      ⟨"s3", "w", "suwayomi", "3", "9", none, false, none⟩], by decide⟩
    suwayomiSeries := threeSeries
    sourceSeries_work := by decide }

/-- The third source is detached. -/
def splitBase : Base :=
  { Base.empty with
    work := ⟨[bareWork "w" (some "Dawn"),
              { bareWork "n" (some "Dusk") with
                primaryLang := some "en"
                status := some "ONGOING" }], by decide⟩
    sourceSeries := ⟨[⟨"s1", "w", "suwayomi", "1", "7", none, false, none⟩,
                      ⟨"s2", "w", "suwayomi", "2", "8", none, false, none⟩,
                      ⟨"s3", "n", "suwayomi", "3", "9", none, false, none⟩], by decide⟩
    suwayomiSeries := threeSeries
    workAlias := ⟨[⟨"n", "Dusk", "Dusk", some "en"⟩], by decide⟩
    sourceSeries_work := by decide }

/-- The catalogue before the split. -/
def mergedDb : Db :=
  { Db.empty with
    work := ⟨mergedBase.work.rows.map (·.toWork), by decide⟩
    sourceSeries := mergedBase.sourceSeries
    suwayomiSeries := ⟨threeSeries.rows.map (·.toSuwayomiSeries), by decide⟩ }

/-- The caches were rebuilt before the split, and the call follows it. -/
def reprojected : Feeds :=
  reprojectWorkCaches decimalRules splitBase "w"
    (rebuilt decimalRules mergedBase true "2026" Feeds.empty)

end Komika.Feed.Reproject
