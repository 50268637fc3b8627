import Komika.Mangadex.Pages
import Komika.Lib.Machine

/-!
# The catalogue and the chapter sweep

`sync_catalogue` and `sync_chapters` (`mangadex.rs`) are one loop: they walk
the windows of the upstream page by page, and differ in the records that move
the cursor on, in the test that ends a window, and in the counters that keep a
seed from latching.  What becomes of a record (`Fate`), which pages the API
serves, and which writes of the cursor fail, is up to the environment.

The loop makes one step for each answer of the API, and one to move the
window.

A window that ends with empty pages, or with a short page, before its total
ends the sweep as if it were done.  `seed_latched_received_all_iff` says when
a latched seed has received the whole upstream.

* `walked_process`, `walked_slide`, `walked_step` — how far in the listing a sweep has
  come;
* `receivedAll_of_reachesTotal`, `Short.not_receivedAll` — the total of a window,
  reached or not;
* `receivedAll_iff` — what a sweep that is over has received;
* `seed_latched_received_all_iff` — what a sweep that latched has;
* `not_seed_latched_received_all` — empty pages and a short page.
-/

namespace Komika.Mangadex.Sweep

open Komika.Lib Komika.Mangadex.Pages

/-! ## Records

What becomes of a record, and what is counted of it. -/

/-- What becomes of a record of a page. -/
inductive Fate where
  /-- It does not parse. -/
  | dropped
  /-- A chapter in another language. -/
  | unusable
  /-- A chapter without a `manga` relationship. -/
  | orphaned
  /-- A chapter whose work is not catalogued. -/
  | skipped
  /-- A lookup or the write fails. -/
  | failed
  /-- A chapter that is mirrored as it is. -/
  | unchanged
  | upserted
deriving DecidableEq, Repr

/-- `SweepOutcome`, without the count of feed rows. -/
structure SweepOutcome where
  upserted : Nat
  dropped : Nat
  failed : Nat
  skipped : Nat
  unchanged : Nat
deriving DecidableEq, Repr

/-- The counters of a sweep that begins. -/
def SweepOutcome.default : SweepOutcome := ⟨0, 0, 0, 0, 0⟩

/-- One record more, under what became of it; an unusable one is not counted. -/
def SweepOutcome.count (out : SweepOutcome) : Fate → SweepOutcome
  | .dropped => { out with dropped := out.dropped + 1 }
  | .unusable => out
  | .orphaned => { out with dropped := out.dropped + 1 }
  | .skipped => { out with skipped := out.skipped + 1 }
  | .failed => { out with failed := out.failed + 1 }
  | .unchanged => { out with unchanged := out.unchanged + 1 }
  | .upserted => { out with upserted := out.upserted + 1 }

/-! ## The two loops

Their differences, as functions of the loop. -/

/-- Which of the two loops. -/
inductive Loop where
  /-- `sync_catalogue`. -/
  | catalogue
  /-- `sync_chapters`. -/
  | chapters
deriving DecidableEq, Repr

/-- Where a sweep is. -/
inductive Phase where
  | fetching
  /-- The window is over and the next one is to start. -/
  | sliding
  /-- `Ok(out)`. -/
  | ended
  /-- `Err`. -/
  | aborted
deriving DecidableEq, Repr

/-- Whether a record moves `last_created` on: in the catalogue every record
that parses does. -/
def Loop.advances : Loop → Fate → Bool
  | .catalogue, fate => fate ≠ .dropped
  | .chapters, fate =>
      fate = .unusable || fate = .orphaned || fate = .unchanged || fate = .upserted

/-- What follows a page that was processed. -/
def Loop.afterPage (rawLen offset total : Nat) : Loop → Phase
  | .catalogue =>
      if total ≤ offset then .ended
      else if windowOffsetCap ≤ offset then .sliding
      else .fetching
  | .chapters =>
      if rawLen < pageLimit then .ended
      else if windowOffsetCap ≤ offset then .sliding
      else .fetching

/-- `catalogue_seed_may_latch`, `chapter_seed_may_latch`: the chapters ask for no skip
either. -/
def Loop.seedMayLatch (out : SweepOutcome) : Loop → Bool
  | .catalogue => out.dropped = 0 && out.failed = 0
  | .chapters => out.dropped = 0 && out.failed = 0 && out.skipped = 0

/-! ## A sweep

A state machine, of which the API's answers are the events. -/

/-- The window, the cursor, the counters, and the stored row. -/
structure SweepState (ρ : Type) where
  since : Option Int
  offset : Nat
  lastCreated : Option Int
  emptyRetries : Nat
  out : SweepOutcome
  phase : Phase
  /-- The job's row of `catalogue_sync_state`. -/
  sync : Option SyncState
  /-- Every record that a page has carried. -/
  received : List ρ

/-- A sweep begins at `since`. -/
def SweepState.start {ρ : Type} (since : Option Int) (sync : Option SyncState) :
    SweepState ρ :=
  ⟨since, 0, none, 0, .default, .fetching, sync, []⟩

/-- An answer of the API: the first `len` records of what is left of the
window. -/
structure Reply (ρ : Type) where
  len : Nat
  len_le : len ≤ pageLimit
  fate : ρ → Fate
  /-- The checkpoint after the page is written. -/
  saved : Bool

/-- An answer, or the window moves. -/
inductive SweepEvent (ρ : Type) where
  | page (reply : Reply ρ)
  /-- `list_manga` or `list_chapters` fails. -/
  | error
  /-- The next window starts; `saved` if its checkpoint is written. -/
  | slide (saved : Bool)

section Steps

variable {ρ : Type} [Stamped ρ] (loop : Loop) (u : Upstream ρ) (w : SyncWindow)

/-- The checkpoint that the catalogue seed writes after every page. -/
def checkpointPage (saved : Bool) (last : Option Int) (sync : Option SyncState) :
    Option SyncState :=
  match loop, w, last with
  | .catalogue, .created, some t => if saved then setSeedProgress t sync else sync
  | _, _, _ => sync

/-- The checkpoint that both seeds write after every window. -/
def checkpointWindow (saved : Bool) (since : Int) (sync : Option SyncState) :
    Option SyncState :=
  match w with
  | .created => if saved then setSeedProgress since sync else sync
  | .updated => sync

/-- An answer is read. -/
def SweepState.page (s : SweepState ρ) (reply : Reply ρ) : SweepState ρ :=
  let page := u.page w s.since s.offset reply.len
  let total := u.total w s.since
  match classifyPage page.length s.offset total with
  | .endWindow => { s with phase := .ended }
  | .retryEmpty =>
      if s.emptyRetries < emptyPageRetries then
        { s with emptyRetries := s.emptyRetries + 1 }
      else { s with phase := .ended }
  | .process =>
      let last := lastMoved w (fun r => loop.advances (reply.fate r)) page s.lastCreated
      let offset := nextOffset s.offset page.length
      { s with
        offset := offset
        lastCreated := last
        emptyRetries := 0
        out := page.foldl (fun out r => out.count (reply.fate r)) s.out
        phase := loop.afterPage page.length offset total
        sync := checkpointPage loop w reply.saved last s.sync
        received := s.received ++ page }

/-- The window moves, and a checkpoint may be stored. -/
def SweepState.slide (s : SweepState ρ) (saved : Bool) : SweepState ρ :=
  match nextSince s.since s.lastCreated with
  | none => { s with phase := .ended }
  | some t =>
      { s with
        since := some t
        offset := 0
        lastCreated := none
        emptyRetries := 0
        phase := .fetching
        sync := checkpointWindow w saved t s.sync }

/-- The state after an event. -/
def SweepState.step (s : SweepState ρ) : SweepEvent ρ → SweepState ρ
  | .page reply => if s.phase = .fetching then s.page loop u w reply else s
  | .error => if s.phase = .fetching then { s with phase := .aborted } else s
  | .slide saved => if s.phase = .sliding then s.slide w saved else s

end Steps

/-- Where a window that slides goes on. -/
theorem slide_cases {ρ : Type} (w : SyncWindow) (s : SweepState ρ) (saved : Bool) :
    (s.lastCreated = none ∧ s.slide w saved = { s with phase := .ended }) ∨
      ∃ last next, s.lastCreated = some last ∧
        next = (if s.since = some last then last + 1 else last) ∧
        s.slide w saved = { s with
          since := some next
          offset := 0
          lastCreated := none
          emptyRetries := 0
          phase := .fetching
          sync := checkpointWindow w saved next s.sync } := by
  unfold SweepState.slide
  cases hlast : s.lastCreated with
  | none => exact .inl ⟨rfl, by rw [nextSince_none]⟩
  | some last => exact .inr ⟨last, _, rfl, rfl, by rw [nextSince_some]⟩

/-- What a cycle stores when its sweep is over: `run_one_cycle`,
`run_chapter_cycle`. -/
def Loop.cycleEnd (loop : Loop) (seeded : Bool) (out : SweepOutcome)
    (runStart : Int) (sync : Option SyncState) : Option SyncState :=
  if seeded then setSyncCursor runStart sync
  else if loop.seedMayLatch out then markSeedDone runStart sync
  else sync

/-! ## How far a sweep has come

As a position in the listing. -/

section Walk

variable {ρ : Type} [Stamped ρ] {loop : Loop} {u : Upstream ρ} {w : SyncWindow}
  {s : SweepState ρ}

/-- The sweep has received the first `n` records of the listing, and neither
the page it is at nor the cursor is further. -/
structure Walked (u : Upstream ρ) (w : SyncWindow) (s : SweepState ρ) (n : Nat) :
    Prop where
  received : ∀ r, r ∈ s.received ↔ r ∈ (u.listing w).take n
  come : u.before w s.since + s.offset ≤ n
  le : n ≤ (u.listing w).length
  last : ∀ t, s.lastCreated = some t →
    u.before w (some t) ≤ u.before w s.since + s.offset
  sliding : s.phase = .sliding → windowOffsetCap ≤ s.offset

theorem walked_start (sync : Option SyncState) :
    Walked u w (.start none sync) 0 where
  received r := by simp [SweepState.start]
  come := by simp [SweepState.start]
  le := Nat.zero_le _
  last t ht := nomatch ht
  sliding h := nomatch h

/-- A phase that is not the end of a window. -/
theorem Walked.withPhase {n : Nat} (h : Walked u w s n) {phase : Phase}
    (hphase : phase ≠ .sliding) : Walked u w { s with phase := phase } n :=
  ⟨h.received, h.come, h.le, h.last, fun hsliding => absurd hsliding hphase⟩

theorem Walked.ended {n : Nat} (h : Walked u w s n) :
    Walked u w { s with phase := .ended } n :=
  h.withPhase (fun hended => nomatch hended)

theorem Walked.aborted {n : Nat} (h : Walked u w s n) :
    Walked u w { s with phase := .aborted } n :=
  h.withPhase (fun haborted => nomatch haborted)

/-- An empty page is asked for again. -/
theorem Walked.retried {n : Nat} (h : Walked u w s n) :
    Walked u w { s with emptyRetries := s.emptyRetries + 1 } n :=
  ⟨h.received, h.come, h.le, h.last, h.sliding⟩

/-- A page that is processed. -/
theorem walked_process {n : Nat} (h : Walked u w s n) {reply : Reply ρ}
    (hstep : classifyPage (u.page w s.since s.offset reply.len).length s.offset
      (u.total w s.since) = .process) :
    Walked u w (s.page loop u w reply)
      (max n (u.before w s.since +
        (s.offset + (u.page w s.since s.offset reply.len).length))) := by
  unfold SweepState.page
  simp only [hstep]
  generalize hpage : u.page w s.since s.offset reply.len = page
  have hstretch : page =
      ((u.listing w).drop (u.before w s.since + s.offset)).take page.length := by
    rw [← hpage]
    exact u.page_eq_stretch w s.since s.offset reply.len
  have hlength : u.before w s.since + (s.offset + page.length) ≤
      (u.listing w).length := by
    have hle : page.length ≤
        (u.listing w).length - (u.before w s.since + s.offset) := by
      rw [← List.length_drop]
      conv => lhs; rw [hstretch]
      exact List.length_take_le' _ _
    have hcome := h.come
    have hn := h.le
    omega
  constructor
  · intro r
    show r ∈ s.received ++ page ↔ _
    rw [List.mem_append, h.received r, ← Nat.add_assoc,
      ← Windows.mem_take_or_mem_stretch h.come, ← hstretch]
  · exact Nat.le_max_right _ _
  · exact Nat.max_le.mpr ⟨h.le, hlength⟩
  · show ∀ t, lastMoved w (fun r => loop.advances (reply.fate r)) page
        s.lastCreated = some t →
      u.before w (some t) ≤ u.before w s.since + (s.offset + page.length)
    intro t ht
    rcases lastMoved_eq_some ht with hold | ⟨r, hr, -, rfl⟩
    · have hlast := h.last t hold
      omega
    · rw [← hpage] at hr ⊢
      exact u.before_le_of_mem_page w hr
  · intro hphase
    show windowOffsetCap ≤ nextOffset s.offset page.length
    have hafter : loop.afterPage page.length (nextOffset s.offset page.length)
        (u.total w s.since) = .sliding := hphase
    unfold Loop.afterPage at hafter
    split at hafter
    all_goals
      split at hafter
      · contradiction
      · split at hafter
        · assumption
        · contradiction

/-- The next window starts no further than the sweep has come. -/
theorem walked_slide {u : BoundedUpstream ρ} {n : Nat}
    (h : Walked u.toUpstream .created s n) (hphase : s.phase = .sliding)
    (saved : Bool) : Walked u.toUpstream .created (s.slide .created saved) n := by
  rcases slide_cases .created s saved with
    ⟨-, hslide⟩ | ⟨last, next, hlast, hnext, hslide⟩
  · rw [hslide]
    exact h.ended
  · rw [hslide]
    refine ⟨h.received, ?_, h.le, (fun _ ht => nomatch ht),
      (fun hsliding => nomatch hsliding)⟩
    show u.before .created (some next) + 0 ≤ n
    have hcome := h.come
    by_cases hstuck : s.since = some last
    · -- The window was on one second: the cap lets it pass the whole of it.
      have hcap := u.before_next_second (s := last) (h.sliding hphase)
      rw [hstuck] at hcome
      rw [if_pos hstuck] at hnext
      rw [hnext]
      omega
    · have hle := h.last last hlast
      rw [if_neg hstuck] at hnext
      rw [hnext]
      omega

/-- A page reaches the total of its window: after it the offset is at the total
that the API reports. -/
def ReachesTotal (u : Upstream ρ) (w : SyncWindow) (s : SweepState ρ) :
    SweepEvent ρ → Prop
  | .page reply =>
      s.phase = .fetching ∧
        u.total w s.since ≤
          s.offset + (u.page w s.since s.offset reply.len).length
  | .error => False
  | .slide _ => False

end Walk

/-! ## What a seed receives

A window that is served to its total is the rest of the listing. -/

section Seed

variable {ρ : Type} [Stamped ρ] {loop : Loop} {u : BoundedUpstream ρ}
  {s : SweepState ρ}

/-- Every record of the upstream was on some page. -/
def ReceivedAll (u : Upstream ρ) (s : SweepState ρ) : Prop :=
  ∀ r ∈ u.listing .created, r ∈ s.received

/-- A page that is not processed leaves all but the phase and the count of
retries, and reaches no total unless it ends the window. -/
theorem page_cases (s : SweepState ρ) (reply : Reply ρ) :
    classifyPage (u.page .created s.since s.offset reply.len).length s.offset
        (u.total .created s.since) = .process ∨
      (s.page loop u.toUpstream .created reply = { s with phase := .ended } ∧
        u.total .created s.since ≤ s.offset) ∨
      (s.offset < u.total .created s.since ∧
        (u.page .created s.since s.offset reply.len).length = 0 ∧
        (s.page loop u.toUpstream .created reply =
            { s with emptyRetries := s.emptyRetries + 1 } ∨
          s.page loop u.toUpstream .created reply = { s with phase := .ended })) := by
  cases hstep : classifyPage (u.page .created s.since s.offset reply.len).length
      s.offset (u.total .created s.since) with
  | process => exact .inl rfl
  | endWindow =>
      have hended : s.page loop u.toUpstream .created reply =
          { s with phase := .ended } := by
        simp only [SweepState.page, hstep]
      unfold classifyPage at hstep
      split at hstep
      · contradiction
      · split at hstep
        · exact .inr (.inl ⟨hended, by omega⟩)
        · contradiction
  | retryEmpty =>
      have hretry : s.page loop u.toUpstream .created reply =
          if s.emptyRetries < emptyPageRetries then
            { s with emptyRetries := s.emptyRetries + 1 }
          else { s with phase := .ended } := by
        simp only [SweepState.page, hstep]
      unfold classifyPage at hstep
      split at hstep
      · contradiction
      · split at hstep
        · contradiction
        · refine .inr (.inr ⟨by omega, by omega, ?_⟩)
          rw [hretry]
          by_cases hleft : s.emptyRetries < emptyPageRetries
          · exact .inl (if_pos hleft)
          · exact .inr (if_neg hleft)

/-- How far the sweep has come, it can tell after every step. -/
theorem walked_step {n : Nat} (h : Walked u.toUpstream .created s n)
    (e : SweepEvent ρ) :
    ∃ m, Walked u.toUpstream .created (s.step loop u.toUpstream .created e) m := by
  cases e with
  | page reply =>
      simp only [SweepState.step]
      split
      · rcases page_cases s reply with
          hprocess | ⟨heq, -⟩ | ⟨-, -, heq | heq⟩
        · exact ⟨_, walked_process h hprocess⟩
        · exact ⟨n, heq ▸ h.ended⟩
        · exact ⟨n, heq ▸ h.retried⟩
        · exact ⟨n, heq ▸ h.ended⟩
      · exact ⟨n, h⟩
  | error =>
      simp only [SweepState.step]
      split
      · exact ⟨n, h.aborted⟩
      · exact ⟨n, h⟩
  | slide saved =>
      simp only [SweepState.step]
      split
      · next hphase => exact ⟨n, walked_slide h hphase saved⟩
      · exact ⟨n, h⟩

/-- At the end of the listing. -/
theorem Walked.receivedAll {n : Nat} (h : Walked u.toUpstream .created s n)
    (hn : (u.listing .created).length ≤ n) : ReceivedAll u.toUpstream s := by
  intro r hr
  rw [h.received, List.take_of_length_le hn]
  exact hr

/-- The sweep that has received everything keeps it. -/
theorem receivedAll_step (h : ReceivedAll u.toUpstream s) (e : SweepEvent ρ) :
    ReceivedAll u.toUpstream (s.step loop u.toUpstream .created e) := by
  have hgrows : ∀ r ∈ s.received,
      r ∈ (s.step loop u.toUpstream .created e).received := by
    intro r hr
    cases e with
    | page reply =>
        simp only [SweepState.step]
        split
        · unfold SweepState.page
          dsimp only
          split
          · exact hr
          · split <;> exact hr
          · exact List.mem_append_left _ hr
        · exact hr
    | error =>
        simp only [SweepState.step]
        split <;> exact hr
    | slide saved =>
        simp only [SweepState.step]
        split
        · unfold SweepState.slide
          split <;> exact hr
        · exact hr
  exact fun r hr => hgrows r (h r hr)

/-- At the total of a window the sweep has come to the end of the listing. -/
theorem receivedAll_of_reachesTotal {n : Nat}
    (h : Walked u.toUpstream .created s n) {e : SweepEvent ρ}
    (hreach : ReachesTotal u.toUpstream .created s e) :
    ReceivedAll u.toUpstream (s.step loop u.toUpstream .created e) := by
  have hlength := u.before_add_total .created s.since
  have hcome := h.come
  cases e with
  | page reply =>
      obtain ⟨hphase, htotal⟩ := hreach
      simp only [SweepState.step, if_pos hphase]
      rcases page_cases s reply with
        hprocess | ⟨heq, hle⟩ | ⟨hlt, hempty, -⟩
      · apply (walked_process h hprocess).receivedAll
        omega
      · rw [heq]
        exact h.receivedAll (by omega)
      · omega
  | error => exact hreach.elim
  | slide saved => exact hreach.elim

/-- The sweep has not come to the end of the listing, or has not begun. -/
def Short (u : Upstream ρ) (s : SweepState ρ) : Prop :=
  ∃ n, Walked u .created s n ∧
    (n < (u.listing .created).length ∨ n = 0 ∧ s.phase ≠ .ended)

/-- A step that reaches no total. -/
theorem short_step (h : Short u.toUpstream s) {e : SweepEvent ρ}
    (hreach : ¬ReachesTotal u.toUpstream .created s e) :
    Short u.toUpstream (s.step loop u.toUpstream .created e) := by
  obtain ⟨n, hwalked, hshort⟩ := h
  have hlength := u.before_add_total .created s.since
  have hcome := hwalked.come
  cases e with
  | page reply =>
      simp only [SweepState.step]
      split
      · next hphase =>
          have hlt : s.offset + (u.page .created s.since s.offset reply.len).length <
              u.total .created s.since := by
            by_contra hge
            exact hreach ⟨hphase, Nat.le_of_not_lt hge⟩
          rcases page_cases s reply with
            hprocess | ⟨heq, hle⟩ | ⟨-, -, heq | heq⟩
          · refine ⟨_, walked_process hwalked hprocess, .inl ?_⟩
            omega
          · omega
          · rw [heq]
            exact ⟨n, hwalked.retried, hshort⟩
          · rw [heq]
            exact ⟨n, hwalked.ended, .inl (by omega)⟩
      · exact ⟨n, hwalked, hshort⟩
  | error =>
      simp only [SweepState.step]
      split
      · refine ⟨n, hwalked.aborted, ?_⟩
        exact hshort.imp_right fun hzero => ⟨hzero.1, (fun hp => nomatch hp)⟩
      · exact ⟨n, hwalked, hshort⟩
  | slide saved =>
      simp only [SweepState.step]
      split
      · next hphase =>
          have hcap := hwalked.sliding hphase
          unfold windowOffsetCap at hcap
          have hlt : n < (u.listing .created).length := by omega
          exact ⟨n, walked_slide hwalked hphase saved, .inl hlt⟩
      · exact ⟨n, hwalked, hshort⟩

/-- A sweep that is short has missed the next record of the listing. -/
theorem Short.not_receivedAll (h : Short u.toUpstream s) (hphase : s.phase = .ended) :
    ¬ReceivedAll u.toUpstream s := by
  obtain ⟨n, hwalked, hlt | ⟨-, hnot⟩⟩ := h
  · intro hall
    have hmem := hall _ (List.getElem_mem hlt)
    rw [hwalked.received] at hmem
    obtain ⟨i, hi, heq⟩ := List.mem_take_iff_getElem.mp hmem
    have hin : i = n := (List.getElem_inj (u.nodup .created)).mp heq
    omega
  · exact absurd hphase hnot

/-- **What a sweep receives.**  A sweep that began with nothing stored and is
over has received the whole upstream exactly if one of its pages reached the
total of its window. -/
theorem receivedAll_iff (events : List (SweepEvent ρ))
    (hphase : (Machine.run (SweepState.step loop u.toUpstream .created)
      (.start none none) events).phase = .ended) :
    ReceivedAll u.toUpstream
        (Machine.run (SweepState.step loop u.toUpstream .created)
          (.start none none) events) ↔
      Machine.Sometime (SweepState.step loop u.toUpstream .created)
        (ReachesTotal u.toUpstream .created) (.start none none) events := by
  have hwalked : ∃ n, Walked u.toUpstream .created (.start none none) n :=
    ⟨0, walked_start none⟩
  constructor
  · intro hall
    by_contra hnever
    have hshort : Short u.toUpstream (.start none none) :=
      ⟨0, walked_start none, .inr ⟨rfl, (fun hp => nomatch hp)⟩⟩
    have hend : Short u.toUpstream (Machine.run
        (SweepState.step loop u.toUpstream .created) (.start none none) events) :=
      Machine.run_invariant_of_each
        (P := fun s e => ¬ReachesTotal u.toUpstream .created s e)
        (fun s e hs hreach => short_step hs hreach) hshort
        (Machine.not_sometime.mp hnever)
    exact hend.not_receivedAll hphase hall
  · intro hreach
    apply Machine.run_of_sometime (I := fun s => ∃ n, Walked u.toUpstream .created s n)
      _ _ _ hwalked hreach
    · rintro s e ⟨n, hs⟩
      exact walked_step hs e
    · exact fun s e hs => receivedAll_step hs e
    · rintro s e ⟨n, hs⟩ hq
      exact receivedAll_of_reachesTotal hs hq

/-- The cycle of this sweep marks `seed_done`. -/
def MarksSeedDone (loop : Loop) (runStart : Int) (s : SweepState ρ) : Prop :=
  s.phase = .ended ∧
    ((loop.cycleEnd false s.out runStart s.sync).map SyncState.seedDone) = some true

/-- **What a latched seed has received.**  A sweep that began with nothing stored and
marks `seed_done` has received every record of the upstream exactly if one of its pages
reached the total of its window.  Any other end of the loop leaves open what lies behind
it. -/
theorem seed_latched_received_all_iff (loop : Loop) (u : BoundedUpstream ρ)
    (runStart : Int) (events : List (SweepEvent ρ)) :
    (MarksSeedDone loop runStart (Machine.run
        (SweepState.step loop u.toUpstream .created) (.start none none) events) →
      ReceivedAll u.toUpstream (Machine.run
        (SweepState.step loop u.toUpstream .created) (.start none none) events)) ↔
    (MarksSeedDone loop runStart (Machine.run
        (SweepState.step loop u.toUpstream .created) (.start none none) events) →
      Machine.Sometime (SweepState.step loop u.toUpstream .created)
        (ReachesTotal u.toUpstream .created) (.start none none) events) := by
  refine forall_congr' fun hmarks => ?_
  exact receivedAll_iff events hmarks.1

end Seed

/-- Two records of the catalogue. -/
def twoManga : BoundedUpstream MdManga where
  listing _ := [⟨1, 10, 10⟩, ⟨2, 11, 11⟩]
  sorted _ := by cases ‹SyncWindow› <;> decide
  nodup _ := by decide
  same _ := Iff.rfl
  bounded _ := Nat.le_trans List.countP_le_length
    (show 2 ≤ windowOffsetCap by decide)

/-- Two chapters, in either window. -/
def twoChapters : BoundedUpstream MdChapter where
  listing _ := [⟨1, some "en", some 1, 10, 10⟩, ⟨2, some "en", some 1, 11, 11⟩]
  sorted _ := by cases ‹SyncWindow› <;> decide
  nodup _ := by decide
  same _ := Iff.rfl
  bounded _ := Nat.le_trans List.countP_le_length
    (show 2 ≤ windowOffsetCap by decide)

/-- A page of `len` records that are all stored. -/
def storedPage {ρ : Type} (len : Nat) (h : len ≤ pageLimit) : SweepEvent ρ :=
  .page ⟨len, h, fun _ => .upserted, true⟩

/-- A catalogue seed that is answered with four empty pages after its first
record, and a chapter seed that is answered with one short page, mark
`seed_done` without their second record. -/
theorem not_seed_latched_received_all :
    (MarksSeedDone .catalogue 20 (Machine.run
        (SweepState.step .catalogue twoManga.toUpstream .created) (.start none none)
        (storedPage 1 (by decide) ::
          List.replicate 4 (storedPage 0 (by decide)))) ∧
      ¬ReceivedAll twoManga.toUpstream (Machine.run
        (SweepState.step .catalogue twoManga.toUpstream .created) (.start none none)
        (storedPage 1 (by decide) ::
          List.replicate 4 (storedPage 0 (by decide))))) ∧
    (MarksSeedDone .chapters 20 (Machine.run
        (SweepState.step .chapters twoChapters.toUpstream .created) (.start none none)
        [storedPage 1 (by decide)]) ∧
      ¬ReceivedAll twoChapters.toUpstream (Machine.run
        (SweepState.step .chapters twoChapters.toUpstream .created) (.start none none)
        [storedPage 1 (by decide)])) := by
  refine ⟨⟨⟨by decide, by decide⟩, ?_⟩, ⟨⟨by decide, by decide⟩, ?_⟩⟩
  · intro h
    have hmem := h ⟨2, 11, 11⟩ (by decide)
    revert hmem
    decide
  · intro h
    have hmem := h ⟨2, some "en", some 1, 11, 11⟩ (by decide)
    revert hmem
    decide

end Komika.Mangadex.Sweep
