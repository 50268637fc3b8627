import Komika.Mangadex.Sweep

/-!
# The chapter firehose

`run_chapter_cycle` (`mangadex.rs`) reads the row of its job, sweeps the
chapters from there, and stores a cursor in three places: after a window of a
seed, at the end of a seed that may latch, and at the end of every incremental
cycle.

A chapter is missed if a page has carried it, it is usable and it is not
mirrored.  The stored row says from where the next cycle sweeps, so it also
says which missed chapters will still be offered (`Retained`).  Only the three
writes can change that, and `retained_always_iff` says exactly when none of
them does.

* `consistent_step` — a running cycle is ahead of the stored row;
* `retained_page` — what a page carries is retained;
* `retained_slide`, `retained_finish` — the writes, each with its condition;
* `retained_step`, `retained_always_iff` — one step, and every run;
* `not_retained_skippedRun` — an incremental cycle that stores its start over a chapter
  it has skipped.
-/

namespace Komika.Mangadex.Firehose

open Komika.Lib Komika.Mangadex.Pages Komika.Mangadex.Sweep

/-! ## What becomes of a chapter

Mirrored, skipped for now, or of no use. -/

/-- What fails on a page, chapter by chapter. -/
structure PageFailures where
  parses : MdChapter → Bool
  /-- `find_source_series_id` answers. -/
  looksUp : MdChapter → Bool
  /-- `chapter_row_unchanged` reads the row. -/
  rereads : MdChapter → Bool
  /-- `upsert_chapter` succeeds. -/
  writes : MdChapter → Bool

/-- The body of the record loop of `sync_chapters`.  A work is catalogued if it
has a source series, and a chapter of the fixed upstream that is mirrored is
mirrored as it is. -/
def chapterFate (catalogued : List Nat) (mirror : List MdChapter)
    (failures : PageFailures) (c : MdChapter) : Fate :=
  if !failures.parses c then .dropped
  else if c.translatedLanguage ≠ some "en" then .unusable
  else match c.manga with
    | none => .orphaned
    | some manga =>
        if !failures.looksUp c then .failed
        else if manga ∉ catalogued then .skipped
        else if failures.rereads c && decide (c ∈ mirror) then .unchanged
        else if failures.writes c then .upserted
        else .failed

/-- An English chapter with a `manga` relationship. -/
def Usable (c : MdChapter) : Prop :=
  c.translatedLanguage = some "en" ∧ c.manga ≠ none

instance (c : MdChapter) : Decidable (Usable c) := inferInstanceAs (Decidable (_ ∧ _))

/-- A chapter that moves the cursor on is landed: it is mirrored, is mirrored
by the page, or is of no use. -/
theorem landed_of_advances {catalogued : List Nat} {mirror : List MdChapter}
    {failures : PageFailures} {c : MdChapter}
    (h : Loop.chapters.advances (chapterFate catalogued mirror failures c) = true) :
    c ∈ mirror ∨ chapterFate catalogued mirror failures c = .upserted ∨ ¬Usable c := by
  unfold chapterFate at h ⊢
  by_cases hparses : failures.parses c
  · by_cases henglish : c.translatedLanguage = some "en"
    · cases hmanga : c.manga with
      | none => exact .inr (.inr fun husable => husable.2 hmanga)
      | some manga =>
          simp only [hparses, henglish, hmanga] at h ⊢
          grind [Loop.advances]
    · exact .inr (.inr fun husable => henglish husable.1)
  · simp [hparses, Loop.advances] at h

/-! ## Cycles

A seed by `createdAt` until it latches, and then incremental cycles by `updatedAt`. -/

/-- What a cycle sweeps from the stored row. -/
def nextWindow : Option SyncState → SyncWindow × Option Int
  | some state =>
      if state.seedDone then (.updated, some state.cursor)
      else (.created, some state.cursor)
  | none => (.created, none)

/-- A cycle of `run_chapter_cycle` that has begun its sweep. -/
structure Cycle where
  runStart : Int
  seeded : Bool
  window : SyncWindow
  sweep : SweepState MdChapter

/-- The stored row, what is mirrored, what has been carried, and the cycle that is
running. -/
structure FirehoseState where
  /-- The row `chapters` of `catalogue_sync_state`. -/
  sync : Option SyncState
  catalogued : List Nat
  mirror : List MdChapter
  /-- Every chapter that a page has carried. -/
  offered : List MdChapter
  cycle : Option Cycle

/-- Nothing is stored, and nothing has been offered. -/
def FirehoseState.initial : FirehoseState := ⟨none, [], [], [], none⟩

/-- What happens to a cycle. -/
inductive FirehoseEvent where
  | catalogue (manga : Nat)
  /-- A cycle begins at `runStart`, unless the catalogue seed is not done or
  the row cannot be read. -/
  | start (runStart : Int) (catalogueDone readOk : Bool)
  | page (len : Nat) (len_le : len ≤ pageLimit) (failures : PageFailures)
  /-- `list_chapters` fails, and the cycle with it. -/
  | error
  | slide (saved : Bool)
  /-- The cycle stores its outcome. -/
  | finish (saved : Bool)
  | restart

section Steps

variable (u : Upstream MdChapter)

/-- A cycle begins from the stored row, with the time at which it does. -/
def FirehoseState.start (s : FirehoseState) (runStart : Int) : FirehoseState :=
  let (window, since) := nextWindow s.sync
  { s with
    cycle := some ⟨runStart, (s.sync.map SyncState.seedDone).getD false, window,
      .start since s.sync⟩ }

/-- A page is mirrored, as far as its chapters can be. -/
def FirehoseState.page (s : FirehoseState) (cycle : Cycle) (len : Nat)
    (len_le : len ≤ pageLimit) (failures : PageFailures) : FirehoseState :=
  let fate := chapterFate s.catalogued s.mirror failures
  let page := u.page cycle.window cycle.sweep.since cycle.sweep.offset len
  let sweep := cycle.sweep.page .chapters u cycle.window ⟨len, len_le, fate, true⟩
  { s with
    sync := sweep.sync
    mirror := s.mirror ++ page.filter fun c => fate c = .upserted
    offered := s.offered ++ page
    cycle := some { cycle with sweep := sweep } }

/-- The window moves on; a seed stores it. -/
def FirehoseState.slide (s : FirehoseState) (cycle : Cycle) (saved : Bool) : FirehoseState :=
  let sweep := cycle.sweep.slide cycle.window saved
  { s with sync := sweep.sync, cycle := some { cycle with sweep := sweep } }

/-- A cycle is over, and stores where the next one begins. -/
def FirehoseState.finish (s : FirehoseState) (cycle : Cycle) (saved : Bool) : FirehoseState :=
  { s with
    sync :=
      if saved then
        Loop.chapters.cycleEnd cycle.seeded cycle.sweep.out cycle.runStart s.sync
      else s.sync
    cycle := none }

/-- Whether a cycle is running and in a phase. -/
def FirehoseState.inPhase (s : FirehoseState) (phase : Phase) : Option Cycle :=
  s.cycle.filter fun cycle => cycle.sweep.phase = phase

/-- The state after an event. -/
def FirehoseState.step (s : FirehoseState) : FirehoseEvent → FirehoseState
  | .catalogue manga => { s with catalogued := manga :: s.catalogued }
  | .start runStart catalogueDone readOk =>
      if s.cycle.isNone && catalogueDone && readOk then s.start runStart else s
  | .page len len_le failures =>
      match s.inPhase .fetching with
      | some cycle => s.page u cycle len len_le failures
      | none => s
  | .error =>
      match s.inPhase .fetching with
      | some _ => { s with cycle := none }
      | none => s
  | .slide saved =>
      match s.inPhase .sliding with
      | some cycle => s.slide cycle saved
      | none => s
  | .finish saved =>
      match s.inPhase .ended with
      | some cycle => s.finish cycle saved
      | none => s
  | .restart => { s with cycle := none }

end Steps

/-! ## What is missed and what is retained

A chapter is retained if the next cycle is going to be offered it. -/

/-- The chapter was offered, is usable and is not mirrored. -/
def Missed (s : FirehoseState) (c : MdChapter) : Prop :=
  c ∈ s.offered ∧ Usable c ∧ c ∉ s.mirror

/-- A sweep from the stored row is offered the chapter. -/
def InWindow (sync : Option SyncState) (c : MdChapter) : Prop :=
  Windows.admits (windowTs (nextWindow sync).1) (nextWindow sync).2 c = true

/-- No missed chapter is behind the stored row. -/
def Retained (s : FirehoseState) : Prop :=
  ∀ c, Missed s c → InWindow s.sync c

/-- The step stores nothing past a missed chapter: a window that slides over
the last chapter that landed has no missed chapter before it, nor in its second
if it steps over this second; a cycle that stores its own start has no missed
chapter that was last updated before. -/
def KeepsMissed (s : FirehoseState) : FirehoseEvent → Prop
  | .slide saved =>
      ∀ cycle last, s.inPhase .sliding = some cycle →
        cycle.window = .created → saved = true →
        cycle.sweep.lastCreated = some last →
        ∀ c, Missed s c →
          last ≤ c.createdAt ∧ (cycle.sweep.since = some last → c.createdAt ≠ last)
  | .finish saved =>
      ∀ cycle, s.inPhase .ended = some cycle → saved = true →
        (cycle.seeded || Loop.chapters.seedMayLatch cycle.sweep.out) = true →
        ∀ c, Missed s c → cycle.runStart ≤ c.updatedAt
  | _ => True

/-- A cycle that is in the phase. -/
theorem inPhase_eq_some {s : FirehoseState} {phase : Phase} {cycle : Cycle}
    (h : s.inPhase phase = some cycle) :
    s.cycle = some cycle ∧ cycle.sweep.phase = phase := by
  unfold FirehoseState.inPhase at h
  obtain ⟨hcycle, hphase⟩ := Option.filter_eq_some_iff.mp h
  exact ⟨hcycle, of_decide_eq_true hphase⟩

/-! ## A running cycle

Its window, against the row it began from. -/

/-- The cycle sweeps no further back than the stored row, and its cursor is not
before its window. -/
structure Ahead (row : Option SyncState) (cycle : Cycle) : Prop where
  sync : cycle.sweep.sync = row
  window : cycle.window = (nextWindow row).1
  seeded : cycle.seeded = (row.map SyncState.seedDone).getD false
  since : ∀ c, Windows.admits (windowTs cycle.window) cycle.sweep.since c = true →
    InWindow row c
  last : ∀ t, cycle.sweep.lastCreated = some t →
    cycle.sweep.since.all (fun since => decide (since ≤ t)) = true

/-- A cycle that is running is ahead of the stored row. -/
def Consistent (s : FirehoseState) : Prop :=
  ∀ cycle, s.cycle = some cycle → Ahead s.sync cycle

section Running

variable {u : Upstream MdChapter} {s : FirehoseState} {cycle : Cycle}
  {row : Option SyncState}

theorem ahead_start (runStart : Int) : Consistent (s.start runStart) := by
  intro cycle hcycle
  rw [← Option.some.inj hcycle]
  exact ⟨rfl, rfl, rfl, fun _ hc => hc, fun _ ht => nomatch ht⟩

/-- A page of chapters is in the window, and leaves the window and the stored
row as they are. -/
theorem page_frame (w : SyncWindow) (sweep : SweepState MdChapter)
    (reply : Reply MdChapter) :
    (sweep.page .chapters u w reply).sync = sweep.sync ∧
      (sweep.page .chapters u w reply).since = sweep.since ∧
      ∀ t, (sweep.page .chapters u w reply).lastCreated = some t →
        sweep.lastCreated = some t ∨
          ∃ r ∈ u.page w sweep.since sweep.offset reply.len,
            Loop.chapters.advances (reply.fate r) = true ∧ windowTs w r = t := by
  unfold SweepState.page
  dsimp only
  split
  · exact ⟨rfl, rfl, fun t ht => .inl ht⟩
  · split
    · exact ⟨rfl, rfl, fun t ht => .inl ht⟩
    · exact ⟨rfl, rfl, fun t ht => .inl ht⟩
  · refine ⟨rfl, rfl, fun t ht => ?_⟩
    exact lastMoved_eq_some ht

/-- What a page carries is in its window. -/
theorem admits_of_mem_page {w : SyncWindow} {since : Option Int} {offset len : Nat}
    {c : MdChapter} (hc : c ∈ u.page w since offset len) :
    Windows.admits (windowTs w) since c = true :=
  List.of_mem_filter (List.mem_of_mem_drop (List.mem_of_mem_take hc))

theorem Ahead.page (h : Ahead row cycle) (reply : Reply MdChapter) :
    Ahead row { cycle with
      sweep := cycle.sweep.page .chapters u cycle.window reply } := by
  obtain ⟨hsync, hsince, hlast⟩ := page_frame (u := u) cycle.window cycle.sweep reply
  refine ⟨hsync.trans h.sync, h.window, h.seeded, ?_, ?_⟩
  · intro c hc
    rw [hsince] at hc
    exact h.since c hc
  · intro t ht
    rw [hsince]
    rcases hlast t ht with hold | ⟨r, hr, -, rfl⟩
    · exact h.last t hold
    · exact admits_of_mem_page hr

/-- What the checkpoint of a window does to the row. -/
theorem checkpointWindow_eq (w : SyncWindow) (saved : Bool) (next : Int) :
    checkpointWindow w saved next row =
      if w = .created ∧ saved = true then setSeedProgress next row else row := by
  cases w <;> cases saved <;> rfl

/-- The checkpoint of a seed leaves it a seed. -/
theorem nextWindow_setSeedProgress (h : (nextWindow row).1 = .created) (next : Int) :
    nextWindow (setSeedProgress next row) = (.created, some next) := by
  cases row with
  | none => rfl
  | some state =>
      obtain ⟨cursor, seedDone⟩ := state
      cases seedDone with
      | false => rfl
      | true => contradiction

/-- The next window of a seed, by `createdAt`. -/
theorem inWindow_setSeedProgress (h : (nextWindow row).1 = .created) {next : Int}
    {c : MdChapter} :
    InWindow (setSeedProgress next row) c ↔ next ≤ c.createdAt := by
  unfold InWindow
  rw [nextWindow_setSeedProgress h]
  exact Windows.admits_some

/-- The window of an incremental cycle, by `updatedAt`. -/
theorem inWindow_seedDone {cursor : Int} {c : MdChapter} :
    InWindow (some ⟨cursor, true⟩) c ↔ cursor ≤ c.updatedAt :=
  Windows.admits_some

theorem Ahead.slide (h : Ahead row cycle) (saved : Bool) :
    Ahead (cycle.sweep.slide cycle.window saved).sync
      { cycle with sweep := cycle.sweep.slide cycle.window saved } := by
  have hcreated : cycle.window = .created → (nextWindow row).1 = .created :=
    fun hw => h.window.symm.trans hw
  rcases slide_cases cycle.window cycle.sweep saved with
    ⟨hnone, hslide⟩ | ⟨last, next, hlast, hnext, hslide⟩
  · rw [hslide]
    show Ahead cycle.sweep.sync _
    rw [h.sync]
    refine ⟨rfl, h.window, h.seeded, h.since, fun t ht => ?_⟩
    rw [hnone] at ht
    contradiction
  · have hadmits : ∀ c, Windows.admits (windowTs cycle.window) (some next) c = true →
        InWindow row c := by
      intro c hc
      apply h.since c
      have hbefore := h.last last hlast
      have hle := Windows.admits_some.mp hc
      unfold Windows.admits
      cases hsince : cycle.sweep.since with
      | none => rfl
      | some since =>
          rw [hsince] at hbefore hnext
          have hsl : since ≤ last := of_decide_eq_true hbefore
          apply decide_eq_true
          split at hnext
          · omega
          · omega
    rw [hslide, h.sync, checkpointWindow_eq]
    split
    · next hsaved =>
        have hw := hcreated hsaved.1
        refine ⟨rfl, ?_, ?_, ?_, fun _ ht => nomatch ht⟩
        · rw [nextWindow_setSeedProgress hw]
          exact hsaved.1
        · exact h.seeded
        · intro c hc
          rw [inWindow_setSeedProgress hw]
          rw [hsaved.1] at hc
          exact Windows.admits_some.mp hc
    · exact ⟨rfl, h.window, h.seeded, hadmits, fun _ ht => nomatch ht⟩

/-- Every step leaves a running cycle ahead of the stored row. -/
theorem consistent_step (h : Consistent s) (e : FirehoseEvent) :
    Consistent (s.step u e) := by
  cases e with
  | catalogue manga => exact h
  | start runStart catalogueDone readOk =>
      simp only [FirehoseState.step]
      split
      · exact ahead_start runStart
      · exact h
  | page len len_le failures =>
      simp only [FirehoseState.step]
      split
      · next cycle hphase =>
          intro cycle' hcycle'
          have hahead := h cycle (inPhase_eq_some hphase).1
          rw [← Option.some.inj hcycle']
          show Ahead (cycle.sweep.page .chapters u cycle.window _).sync _
          rw [(page_frame cycle.window cycle.sweep _).1, hahead.sync]
          exact hahead.page _
      · exact h
  | error =>
      simp only [FirehoseState.step]
      split
      · exact fun _ hnone => nomatch hnone
      · exact h
  | slide saved =>
      simp only [FirehoseState.step]
      split
      · next cycle hphase =>
          intro cycle' hcycle'
          rw [← Option.some.inj hcycle']
          exact (h cycle (inPhase_eq_some hphase).1).slide saved
      · exact h
  | finish saved =>
      simp only [FirehoseState.step]
      split
      · exact fun _ hnone => nomatch hnone
      · exact h
  | restart => exact fun _ hnone => nomatch hnone

end Running

/-! ## The three writes

The only steps that change the stored row. -/

section Writes

variable {u : Upstream MdChapter} {s : FirehoseState} {cycle : Cycle}

/-- What a page carries is retained: the stored row is not further than the
window of the page. -/
theorem retained_page (hs : Consistent s) (hretained : Retained s)
    (hcycle : s.cycle = some cycle) (len : Nat) (len_le : len ≤ pageLimit)
    (failures : PageFailures) :
    Retained (s.page u cycle len len_le failures) := by
  have hahead := hs cycle hcycle
  rintro c ⟨hoffered, husable, hmirror⟩
  have hrow : (s.page u cycle len len_le failures).sync = s.sync :=
    (page_frame cycle.window cycle.sweep _).1.trans hahead.sync
  rw [hrow]
  rcases List.mem_append.mp hoffered with hold | hnew
  · exact hretained c ⟨hold, husable, fun hin => hmirror (List.mem_append_left _ hin)⟩
  · exact hahead.since c (admits_of_mem_page hnew)

/-- The cursor of a window is at a chapter that is no longer missed. -/
theorem page_cursor_landed (cycle : Cycle) (len : Nat) (len_le : len ≤ pageLimit)
    (failures : PageFailures) {cycle' : Cycle} {t : Int}
    (hcycle : (s.page u cycle len len_le failures).cycle = some cycle')
    (ht : cycle'.sweep.lastCreated = some t) :
    cycle.sweep.lastCreated = some t ∨
      ∃ c ∈ u.page cycle.window cycle.sweep.since cycle.sweep.offset len,
        windowTs cycle.window c = t ∧ ¬Missed (s.page u cycle len len_le failures) c := by
  rw [← Option.some.inj hcycle] at ht
  rcases (page_frame cycle.window cycle.sweep _).2.2 t ht with
    hold | ⟨c, hc, hadvances, hts⟩
  · exact .inl hold
  · refine .inr ⟨c, hc, hts, fun hmissed => ?_⟩
    obtain ⟨-, husable, hmirror⟩ := hmissed
    rcases landed_of_advances hadvances with hin | hupserted | hunusable
    · exact hmirror (List.mem_append_left _ hin)
    · apply hmirror
      apply List.mem_append_right
      exact List.mem_filter.mpr ⟨hc, decide_eq_true hupserted⟩
    · exact hunusable husable

/-- A row that stays as it is keeps what it retains. -/
theorem retained_of_same {s' : FirehoseState} (hretained : Retained s)
    (hsync : s'.sync = s.sync) (hmissed : ∀ c, Missed s' c → Missed s c) :
    Retained s' := by
  intro c hc
  rw [hsync]
  exact hretained c (hmissed c hc)

/-- The checkpoint keeps what is retained exactly if it stores nothing past a missed
chapter. -/
theorem retained_slide (hs : Consistent s) (hretained : Retained s)
    (hphase : s.inPhase .sliding = some cycle) (saved : Bool) :
    Retained (s.slide cycle saved) ↔ KeepsMissed s (.slide saved) := by
  have hahead := hs cycle (inPhase_eq_some hphase).1
  have hkeep : (s.slide cycle saved).sync = s.sync → Retained (s.slide cycle saved) :=
    fun hsync => retained_of_same hretained hsync fun _ hc => hc
  rcases slide_cases cycle.window cycle.sweep saved with
    ⟨hnone, hslide⟩ | ⟨last, next, hlast, hnext, hslide⟩
  · -- No record moved the cursor on: the sweep ends and nothing is written.
    apply iff_of_true
    · apply hkeep
      show (cycle.sweep.slide cycle.window saved).sync = s.sync
      rw [hslide]
      exact hahead.sync
    · intro cycle' last hphase' _ _ hlast
      rw [hphase, Option.some.injEq] at hphase'
      rw [← hphase', hnone] at hlast
      contradiction
  · have hrow : (s.slide cycle saved).sync =
        if cycle.window = .created ∧ saved = true then setSeedProgress next s.sync
        else s.sync := by
      show (cycle.sweep.slide cycle.window saved).sync = _
      rw [hslide]
      show checkpointWindow cycle.window saved next cycle.sweep.sync = _
      rw [checkpointWindow_eq, hahead.sync]
    by_cases hwrites : cycle.window = .created ∧ saved = true
    · rw [if_pos hwrites] at hrow
      have hcreated : (nextWindow s.sync).1 = .created :=
        hahead.window.symm.trans hwrites.1
      have hnext_le : ∀ c : MdChapter, next ≤ c.createdAt ↔
          last ≤ c.createdAt ∧
            (cycle.sweep.since = some last → c.createdAt ≠ last) := by
        intro c
        by_cases hstuck : cycle.sweep.since = some last
        · simp only [hstuck, if_true, forall_const] at hnext ⊢
          omega
        · simp only [hstuck, if_false, false_implies, and_true] at hnext ⊢
          rw [hnext]
      constructor
      · intro h cycle' last' hphase' _ _ hlast' c hc
        rw [hphase, Option.some.injEq] at hphase'
        rw [← hphase', hlast, Option.some.injEq] at hlast'
        rw [← hphase', ← hlast', ← hnext_le, ← inWindow_setSeedProgress hcreated,
          ← hrow]
        exact h c hc
      · intro h c hc
        rw [hrow, inWindow_setSeedProgress hcreated, hnext_le]
        exact h cycle last hphase hwrites.1 hwrites.2 hlast c hc
    · rw [if_neg hwrites] at hrow
      apply iff_of_true (hkeep hrow)
      intro cycle' _ hphase' hcreated hsaved
      rw [hphase, Option.some.injEq] at hphase'
      rw [← hphase'] at hcreated
      exact absurd ⟨hcreated, hsaved⟩ hwrites

/-- What the end of a cycle does to the row. -/
theorem finish_sync (hahead : Ahead s.sync cycle) (saved : Bool) :
    (s.finish cycle saved).sync =
      if saved = true ∧
          (cycle.seeded || Loop.chapters.seedMayLatch cycle.sweep.out) = true then
        some ⟨cycle.runStart, true⟩
      else s.sync := by
  have hseeded := hahead.seeded
  unfold FirehoseState.finish Loop.cycleEnd setSyncCursor markSeedDone
  dsimp only
  cases saved <;> cases hseed : cycle.seeded <;>
    cases Loop.chapters.seedMayLatch cycle.sweep.out <;> simp_all

theorem retained_finish (hs : Consistent s) (hretained : Retained s)
    (hphase : s.inPhase .ended = some cycle) (saved : Bool) :
    Retained (s.finish cycle saved) ↔ KeepsMissed s (.finish saved) := by
  have hrow := finish_sync (hs cycle (inPhase_eq_some hphase).1) saved
  by_cases hwrites : saved = true ∧
      (cycle.seeded || Loop.chapters.seedMayLatch cycle.sweep.out) = true
  · rw [if_pos hwrites] at hrow
    constructor
    · intro h cycle' hphase' _ _ c hc
      rw [hphase, Option.some.injEq] at hphase'
      rw [← hphase', ← inWindow_seedDone, ← hrow]
      exact h c hc
    · intro h c hc
      rw [hrow, inWindow_seedDone]
      exact h cycle hphase hwrites.1 hwrites.2 c hc
  · rw [if_neg hwrites] at hrow
    apply iff_of_true (retained_of_same hretained hrow fun _ hc => hc)
    intro cycle' hphase' hsaved hstores
    rw [hphase, Option.some.injEq] at hphase'
    rw [← hphase'] at hstores
    exact absurd ⟨hsaved, hstores⟩ hwrites

/-- A step keeps every missed chapter in reach of the stored row exactly if it
stores nothing past one. -/
theorem retained_step (hs : Consistent s) (hretained : Retained s)
    (e : FirehoseEvent) : Retained (s.step u e) ↔ KeepsMissed s e := by
  cases e with
  | catalogue manga =>
      exact iff_of_true (retained_of_same hretained rfl fun _ hc => hc) trivial
  | start runStart catalogueDone readOk =>
      apply iff_of_true _ trivial
      simp only [FirehoseState.step]
      split
      · exact retained_of_same hretained rfl fun _ hc => hc
      · exact hretained
  | page len len_le failures =>
      apply iff_of_true _ trivial
      simp only [FirehoseState.step]
      split
      · next cycle hphase =>
          exact retained_page hs hretained (inPhase_eq_some hphase).1 len len_le failures
      · exact hretained
  | error =>
      apply iff_of_true _ trivial
      simp only [FirehoseState.step]
      split
      · exact retained_of_same hretained rfl fun _ hc => hc
      · exact hretained
  | slide saved =>
      simp only [FirehoseState.step]
      split
      · next cycle hphase => exact retained_slide hs hretained hphase saved
      · next hphase =>
          apply iff_of_true hretained
          intro cycle last hcycle
          rw [hphase] at hcycle
          contradiction
  | finish saved =>
      simp only [FirehoseState.step]
      split
      · next cycle hphase => exact retained_finish hs hretained hphase saved
      · next hphase =>
          apply iff_of_true hretained
          intro cycle hcycle
          rw [hphase] at hcycle
          contradiction
  | restart =>
      exact iff_of_true (retained_of_same hretained rfl fun _ hc => hc) trivial

/-- **No chapter is lost for good.**  In every state of a run every missed chapter is
still in reach of the stored row exactly if no step of the run stores a cursor past a
missed chapter.  A chapter is missed by a skip, a failure or a drop, and only a cursor
at or before its time brings it back. -/
theorem retained_always_iff (u : Upstream MdChapter) (events : List FirehoseEvent) :
    Machine.Always (FirehoseState.step u) Retained .initial events ↔
      Machine.EachStep (FirehoseState.step u) KeepsMissed .initial events := by
  have hconsistent : Consistent .initial := fun _ hnone => nomatch hnone
  have hretained : Retained .initial := fun _ hc => nomatch hc.1
  rw [Machine.always_iff_eachStep (I := Consistent) (Q := KeepsMissed)
    (fun s e hs => consistent_step hs e)
    (fun s e hs hr => retained_step hs hr e) hconsistent]
  exact and_iff_right hretained

end Writes

/-! ## A chapter that is skipped and lost

Its `updatedAt` is before the start that is stored. -/

/-- A chapter whose work is not in the catalogue yet. -/
def skippedChapter : MdChapter := ⟨2, some "en", some 2, 100, 100⟩

/-- A listing in which it is the second. -/
def lateChapters : Upstream MdChapter where
  listing _ := [⟨1, some "en", some 1, 10, 10⟩, skippedChapter]
  sorted _ := by cases ‹SyncWindow› <;> decide
  nodup _ := by decide
  same _ := Iff.rfl

/-- A page all of whose writes succeed. -/
def noFailures : PageFailures :=
  ⟨fun _ => true, fun _ => true, fun _ => true, fun _ => true⟩

/-- The seed is over before the second chapter appears.  The next cycle is
offered it, skips it because its work is not catalogued, and stores its own
start. -/
def skippedRun : List FirehoseEvent :=
  [.catalogue 1,
    .start 50 true true, .page 1 (by decide) noFailures, .finish true,
    .start 200 true true, .page 1 (by decide) noFailures, .finish true,
    .catalogue 2]

/-- The incremental cycle skips it, and stores the time at which it began. -/
theorem not_retained_skippedRun :
    ¬Retained (Machine.run (FirehoseState.step lateChapters) .initial skippedRun) := by
  intro h
  have hmissed : Missed (Machine.run (FirehoseState.step lateChapters) .initial
      skippedRun) skippedChapter := ⟨by decide, by decide, by decide⟩
  have hwindow := h skippedChapter hmissed
  revert hwindow
  unfold InWindow
  decide

end Komika.Mangadex.Firehose
