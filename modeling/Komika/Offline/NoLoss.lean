import Komika.Lib.Machine
import Komika.Offline.Queue

/-!
# When an accepted write may leave the queue

Runs of one `OfflineWriteQueue` under any interleaving of `enqueue`,
`dropForeign`, `drain` and the settlements of the flushes that drains in
flight await.  Any number of drains may be in flight at once.

An op may leave the queue for four reasons (`Excused`).  A run in which every
op that leaves has one of them loses nothing (`NoAcceptedWriteLost`).  The
code does not ensure this: a settlement shifts whatever is at the head, and
`enqueue` supersedes across owners.  `Orderly` is the condition on a step
under which neither happens.

* `Counted` — the failures an object carries are those it was read with and those
  counted since;
* `excused_of_orderly` — from the counts: at an orderly step whatever leaves has a
  reason;
* `noAcceptedWriteLost_of_orderly` — so a run of orderly steps loses nothing;
* `not_noAcceptedWriteLost_enqueue_during_flush` — an `enqueue` during a flush makes the
  settlement shift out an op that nobody flushed.
-/

namespace Komika.Offline.NoLoss

open Komika.Lib
open Komika.Offline.Queue

/-- A queue and, for each drain in flight, the object whose flush it awaits. -/
structure QueueRun where
  queue : OfflineWriteQueue
  awaiting : List Ref

/-- The three methods of the queue, and a flush that settles; nothing else touches the
array. -/
inductive QueueEvent where
  | enqueue (op : EnqueueOp) (now : Int)
  | dropForeign (userId : Option Id)
  | drain (currentUserId : Option Id)
  /-- The flush awaited by the `i`-th drain in flight resolves or rejects. -/
  | settle (i : Nat) (resolved : Bool)

/-- A queue over what storage holds, before any drain. -/
def QueueRun.start (stored : List WriteOp) : QueueRun :=
  ⟨OfflineWriteQueue.open stored, []⟩

/-- The methods run to their end, a drain up to its flush, and a settlement goes on with
the drain that awaits it. -/
def QueueRun.step (s : QueueRun) : QueueEvent → QueueRun
  | .enqueue op now => { s with queue := s.queue.enqueue op now }
  | .dropForeign userId => { s with queue := s.queue.dropForeign userId }
  | .drain currentUserId =>
      let (queue, flush) := s.queue.drain currentUserId
      ⟨queue, s.awaiting ++ flush.toList⟩
  | .settle i resolved =>
      match s.awaiting[i]? with
      | none => s
      | some op =>
          let (queue, flush) := s.queue.settle op resolved
          ⟨queue, s.awaiting.eraseIdx i ++ flush.toList⟩

/-- The flush that settles at an event, with its outcome. -/
def QueueRun.settled (s : QueueRun) : QueueEvent → Option (Ref × Bool)
  | .settle i resolved => s.awaiting[i]?.map fun op => (op, resolved)
  | _ => none

/-- All flushes that settle in a run, in order. -/
def settlements (s : QueueRun) (events : List QueueEvent) : List (Ref × Bool) :=
  Machine.observations QueueRun.step QueueRun.settled s events

/-- The flushes of a longer run are those so far and the one that settles last, if any. -/
theorem settlements_concat (s : QueueRun) (es : List QueueEvent)
    (e : QueueEvent) :
    settlements s (es ++ [e]) =
      settlements s es ++
        ((Machine.run QueueRun.step s es).settled e).toList :=
  Machine.observations_concat QueueRun.step QueueRun.settled s es e

/-- The failures an object already carried when it was read from storage. -/
def triesAtOpen (stored : List WriteOp) (r : Ref) : Nat :=
  (stored[r]?.map WriteOp.tries).getD 0

/-- Why the object `r` may leave the queue at the event `e` that follows
`before`. -/
inductive Excused (stored : List WriteOp) (before : List QueueEvent)
    (e : QueueEvent) (r : Ref) : Prop where
  /-- A flush of this very op resolved. -/
  | flushed
      (h : (r, true) ∈ settlements (QueueRun.start stored) (before ++ [e]))
  /-- An `enqueue` for the same target by the same user superseded it. -/
  | superseded (op : EnqueueOp) (now : Int) (he : e = .enqueue op now)
      (htarget : sameTarget
        ((Machine.run QueueRun.step (.start stored) before).queue.heap r)
        (op.full now) = true)
      (huser :
        ((Machine.run QueueRun.step (.start stored) before).queue.heap r).userId
          = (op.full now).userId)
  /-- This very op's own flush attempts failed `MAX_TRIES` times. -/
  | poisoned
      (h : MAX_TRIES ≤ triesAtOpen stored r +
        (settlements (QueueRun.start stored) (before ++ [e])).count (r, false))
  /-- It does not belong to the user passed to `dropForeign` or `drain`. -/
  | foreign (userId : Option Id)
      (he : e = .dropForeign userId ∨ e = .drain userId)
      (howner : ¬(userId ≠ none ∧
        ((Machine.run QueueRun.step (.start stored) before).queue.heap r).userId
          = some userId))

/-- Every op that leaves the queue anywhere in the run is excused. -/
def NoAcceptedWriteLost (stored : List WriteOp) (events : List QueueEvent) :
    Prop :=
  ∀ before e after, events = before ++ e :: after →
    ∀ r ∈ (Machine.run QueueRun.step (.start stored) before).queue.ops,
      r ∉ (Machine.run QueueRun.step (.start stored)
        (before ++ [e])).queue.ops →
      Excused stored before e r

/-- The condition on a step: an `enqueue` finds no op of another owner for its
target, and a settlement that shifts the array finds the op it settles at the
head, or nothing at all. -/
def Orderly (s : QueueRun) : QueueEvent → Prop
  | .enqueue op now => ∀ r ∈ s.queue.ops,
      sameTarget (s.queue.heap r) (op.full now) = true →
        (s.queue.heap r).userId = (op.full now).userId
  | .settle i resolved => ∀ op, s.awaiting[i]? = some op →
      s.queue.Shifts op resolved →
        s.queue.ops = [] ∨ s.queue.ops.head? = some op
  | _ => True

/-! ## What a step can do

The queue after each event, and the drains that wait then. -/

/-- An `enqueue` leaves the drains alone. -/
@[simp] theorem step_enqueue (s : QueueRun) (op : EnqueueOp) (now : Int) :
    s.step (.enqueue op now) = { s with queue := s.queue.enqueue op now } := rfl

@[simp] theorem step_dropForeign (s : QueueRun) (userId : Option Id) :
    s.step (.dropForeign userId) =
      { s with queue := s.queue.dropForeign userId } := rfl

/-- A drain that hands an op to `flush` is one more to wait for. -/
@[simp] theorem step_drain (s : QueueRun) (userId : Option Id) :
    s.step (.drain userId) =
      ⟨(s.queue.drain userId).1,
        s.awaiting ++ (s.queue.drain userId).2.toList⟩ := rfl

/-- A settlement goes on with the drain that was waiting, which may hand over the next
op. -/
theorem step_settle {s : QueueRun} {i : Nat} {op : Ref} (resolved : Bool)
    (h : s.awaiting[i]? = some op) :
    s.step (.settle i resolved) =
      ⟨(s.queue.settle op resolved).1,
        s.awaiting.eraseIdx i ++ (s.queue.settle op resolved).2.toList⟩ := by
  simp [QueueRun.step, h]

/-- No drain waits under that number. -/
theorem step_settle_none {s : QueueRun} {i : Nat} (resolved : Bool)
    (h : s.awaiting[i]? = none) : s.step (.settle i resolved) = s := by
  simp [QueueRun.step, h]

/-! ## The failure counts

`tries` is the number an object was opened with plus the flushes of that
object that have rejected since. -/

/-- The invariant, over the events so far and the state they lead to. -/
structure Counted (stored : List WriteOp) (before : List QueueEvent)
    (s : QueueRun) : Prop where
  opened : stored.length ≤ s.queue.next
  awaited : ∀ r ∈ s.awaiting, r < s.queue.next
  settled : ∀ x ∈ settlements (.start stored) before, x.1 < s.queue.next
  tries : ∀ r, r < s.queue.next →
    (s.queue.heap r).tries = triesAtOpen stored r +
      (settlements (.start stored) before).count (r, false)

/-- What storage holds carries its own counts. -/
theorem counted_start (stored : List WriteOp) :
    Counted stored [] (.start stored) where
  opened := Nat.le_refl _
  awaited := by simp [QueueRun.start]
  settled := by simp [settlements]
  tries := by
    intro r hr
    simp only [QueueRun.start, OfflineWriteQueue.open] at hr ⊢
    simp [triesAtOpen, settlements, hr]

section CountedSteps

variable {stored : List WriteOp} {before after : List QueueEvent} {s : QueueRun}

/-- A new object has no failures, and none of its flushes has settled. -/
theorem Counted.enqueue (h : Counted stored before s)
    (hlog : settlements (.start stored) after = settlements (.start stored) before)
    (op : EnqueueOp) (now : Int) : Counted stored after (s.step (.enqueue op now)) where
  opened := Nat.le_succ_of_le h.opened
  awaited r hr := Nat.lt_succ_of_lt (h.awaited r hr)
  settled := by
    rw [hlog]
    exact fun x hx => Nat.lt_succ_of_lt (h.settled x hx)
  tries := by
    intro r hr
    rw [hlog]
    rcases Nat.lt_succ_iff_lt_or_eq.mp hr with hlt | heq
    · have hne : r ≠ s.queue.next := Nat.ne_of_lt hlt
      simpa [Function.update_of_ne hne] using h.tries r hlt
    · have hcount : (settlements (.start stored) before).count (r, false) = 0 :=
        List.count_eq_zero.mpr fun hmem =>
          absurd (h.settled _ hmem) (by rw [heq]; exact Nat.lt_irrefl _)
      have hopen : stored[r]? = none :=
        List.getElem?_eq_none (heq ▸ h.opened)
      rw [hcount, triesAtOpen, hopen, heq]
      simp [EnqueueOp.full]

/-- A drain counts nothing and settles nothing. -/
theorem Counted.drain (h : Counted stored before s)
    (hlog : settlements (.start stored) after = settlements (.start stored) before)
    (userId : Option Id) : Counted stored after (s.step (.drain userId)) where
  opened := by simpa using h.opened
  awaited := by
    intro r hr
    simp only [step_drain, drain_next, List.mem_append,
      Option.mem_toList] at hr ⊢
    rcases hr with hr | hr
    · exact h.awaited r hr
    · exact s.queue.allocated r (drain_flush_mem hr)
  settled := by rw [hlog]; simpa using h.settled
  tries := by rw [hlog]; simpa using h.tries

/-- A settlement counts one failure, of the object whose flush it is. -/
theorem Counted.settle (h : Counted stored before s) {i : Nat} {op : Ref}
    {resolved : Bool} (hi : s.awaiting[i]? = some op)
    (hlog : settlements (.start stored) after =
      settlements (.start stored) before ++ [(op, resolved)]) :
    Counted stored after (s.step (.settle i resolved)) := by
  have hop : op < s.queue.next := h.awaited op (List.mem_of_getElem? hi)
  rw [step_settle resolved hi]
  refine
    { opened := by simpa using h.opened
      awaited := ?_
      settled := ?_
      tries := ?_ }
  · intro r hr
    simp only [settle_next, List.mem_append, Option.mem_toList] at hr ⊢
    rcases hr with hr | hr
    · exact h.awaited r (List.mem_of_mem_eraseIdx hr)
    · exact s.queue.allocated r
        ((settle_ops_sublist _ _ _).subset (settle_flush_mem hr))
  · rw [hlog]
    intro x hx
    rcases List.mem_append.mp hx with hx | hx
    · simpa using h.settled x hx
    · rw [List.mem_singleton.mp hx]
      simpa using hop
  · intro r hr
    rw [settle_next] at hr
    rw [hlog, settle_tries, h.tries r hr, List.count_append]
    cases resolved with
    | true => simp
    | false =>
        by_cases hr : r = op
        · subst hr; simp; omega
        · simp [hr, Ne.symm hr]

end CountedSteps

theorem Counted.next {stored : List WriteOp} {before : List QueueEvent}
    {e : QueueEvent}
    (h : Counted stored before
      (Machine.run QueueRun.step (.start stored) before)) :
    Counted stored (before ++ [e])
      ((Machine.run QueueRun.step (.start stored) before).step e) := by
  set s := Machine.run QueueRun.step (.start stored) before with hs
  have hlog := settlements_concat (.start stored) before e
  rw [← hs] at hlog
  cases e with
  | enqueue op now =>
      simp only [QueueRun.settled, Option.toList_none, List.append_nil] at hlog
      exact h.enqueue hlog op now
  | dropForeign userId =>
      simp only [QueueRun.settled, Option.toList_none, List.append_nil] at hlog
      refine
        { opened := by simpa using h.opened
          awaited := by simpa using h.awaited
          settled := by rw [hlog]; simpa using h.settled
          tries := by rw [hlog]; simpa using h.tries }
  | drain userId =>
      simp only [QueueRun.settled, Option.toList_none, List.append_nil] at hlog
      exact h.drain hlog userId
  | settle i resolved =>
      cases hi : s.awaiting[i]? with
      | none =>
          simp only [QueueRun.settled, hi, Option.map_none, Option.toList_none,
            List.append_nil] at hlog
          rw [step_settle_none resolved hi]
          exact
            { opened := h.opened
              awaited := h.awaited
              settled := by rw [hlog]; exact h.settled
              tries := by rw [hlog]; exact h.tries }
      | some op =>
          simp only [QueueRun.settled, hi, Option.map_some,
            Option.toList_some] at hlog
          exact h.settle hi hlog

/-! ## The steps that lose nothing

Where the settled op is the head, or the queue is empty, the shift takes off what was
flushed; where an `enqueue` finds no op of another owner, what it replaces is
superseded. -/

/-- At an orderly step every op that leaves the queue is excused. -/
theorem excused_of_orderly {stored : List WriteOp} {before : List QueueEvent}
    {e : QueueEvent} {r : Ref}
    (hcount : Counted stored before
      (Machine.run QueueRun.step (.start stored) before))
    (horderly : Orderly (Machine.run QueueRun.step (.start stored) before) e)
    (hbefore :
      r ∈ (Machine.run QueueRun.step (.start stored) before).queue.ops)
    (hafter : r ∉ ((Machine.run QueueRun.step (.start stored) before).step
      e).queue.ops) :
    Excused stored before e r := by
  have hlog := settlements_concat (.start stored) before e
  have hnext := hcount.next (e := e)
  set s := Machine.run QueueRun.step (.start stored) before with hs
  cases e with
  | enqueue op now =>
      simp only [step_enqueue, enqueue_ops, List.mem_append, not_or] at hafter
      have htarget : sameTarget (s.queue.heap r) (op.full now) = true := by
        by_contra hne
        exact hafter.1 ((mem_others s.queue).mpr
          ⟨hbefore, by simpa [sameTarget] using hne⟩)
      exact .superseded op now rfl (hs ▸ htarget)
        (hs ▸ horderly r hbefore htarget)
  | dropForeign userId =>
      refine .foreign userId (.inl rfl) ?_
      intro howner
      exact hafter (by
        simpa using (mem_ownedBy s.queue).mpr ⟨hbefore, hs ▸ howner⟩)
  | drain userId =>
      refine .foreign userId (.inr rfl) ?_
      intro howner
      cases userId with
      | none => exact howner.1 rfl
      | some u =>
          exact hafter (by
            simpa using (mem_ownedBy s.queue).mpr ⟨hbefore, hs ▸ howner⟩)
  | settle i resolved =>
      cases hi : s.awaiting[i]? with
      | none =>
          rw [step_settle_none resolved hi] at hafter
          exact absurd hbefore hafter
      | some op =>
          rw [step_settle resolved hi] at hafter hnext
          simp only [QueueRun.settled, hi, Option.map_some,
            Option.toList_some] at hlog
          by_cases hshift : s.queue.Shifts op resolved
          · rw [(settle_of_shifts hshift).1] at hafter
            -- only the head leaves, and the condition says who that is
            rcases horderly op hi hshift with hnil | hhead
            · rw [hnil] at hbefore
              contradiction
            · obtain ⟨rest, hops⟩ := List.head?_eq_some_iff.mp hhead
              rw [hops, List.tail_cons] at hafter
              rw [hops] at hbefore
              have hr : r = op := (List.mem_cons.mp hbefore).resolve_right hafter
              subst hr
              cases resolved with
              | true => exact .flushed (by rw [hlog]; simp)
              | false =>
                  refine .poisoned ?_
                  have hlt : r < s.queue.next :=
                    hcount.awaited r (List.mem_of_getElem? hi)
                  have htries := hnext.tries r (by simpa using hlt)
                  rw [settle_tries] at htries
                  simp only [and_self, if_true] at htries
                  have hmax : MAX_TRIES ≤ (s.queue.heap r).tries + 1 := by
                    simpa [OfflineWriteQueue.Shifts] using hshift
                  omega
          · rw [(settle_of_not_shifts hshift).1] at hafter
            exact absurd hbefore hafter

/-- **No accepted write is lost in an orderly run.**  Whatever the storage held when the
queue was opened, and however drains, enqueues and settlements interleave: an op that
leaves the queue has one of the four reasons of `Excused`.  A settlement takes the op it
settles only where that op is at the head, and an enqueue supersedes the same user's ops
only where no others are queued for the target; `Orderly` asks for no more than these
two. -/
theorem noAcceptedWriteLost_of_orderly (stored : List WriteOp)
    (events : List QueueEvent)
    (h : Machine.EachStep QueueRun.step Orderly (.start stored) events) :
    NoAcceptedWriteLost stored events := by
  rintro before e after rfl r hbefore hafter
  obtain ⟨hinit, hrest⟩ := Machine.eachStep_append.mp h
  have hcount : Counted stored before
      (Machine.run QueueRun.step (.start stored) before) :=
    Machine.run_history_invariant (I := Counted stored) (counted_start stored)
      (fun _ _ hI _ => hI.next) hinit
  rw [Machine.run_concat] at hafter
  exact excused_of_orderly hcount (Machine.eachStep_cons.mp hrest).1 hbefore
    hafter

/-- The condition is met by a run in which a drain flushes two ops, one of
them after a rejection, and `enqueue` adds a third meanwhile. -/
theorem noAcceptedWriteLost_of_orderly_run :
    NoAcceptedWriteLost
      [⟨.mark "s1" true, 0, 0, some (some "u1")⟩,
        ⟨.progress "c1" 3 false, 0, 0, some (some "u1")⟩]
      [.drain (some "u1"), .settle 0 false, .drain (some "u1"),
        .enqueue ⟨.mark "s2" true, none, some (some "u1")⟩ 7,
        .settle 0 true, .settle 0 true] :=
  noAcceptedWriteLost_of_orderly _ _ (by
    simp only [Machine.eachStep_cons, Machine.eachStep_nil, Orderly]
    refine ⟨trivial, ?_, trivial, ?_, ?_, ?_, trivial⟩
    · intro op hop _
      exact .inr (by rw [← hop]; decide)
    · decide
    · intro op hop _
      exact .inr (by rw [← hop]; decide)
    · intro op hop _
      exact .inr (by rw [← hop]; decide))

/-- An `enqueue` for the target in flight replaces the head while its flush is
awaited; the settlement then shifts out the next op, which nobody flushed. -/
theorem not_noAcceptedWriteLost_enqueue_during_flush :
    ¬NoAcceptedWriteLost
      [⟨.mark "s1" true, 0, 0, some (some "u1")⟩,
        ⟨.mark "s2" true, 0, 0, some (some "u1")⟩]
      [.drain (some "u1"),
        .enqueue ⟨.mark "s1" false, none, some (some "u1")⟩ 7,
        .settle 0 true] := by
  intro h
  have hlost := h
    [.drain (some "u1"), .enqueue ⟨.mark "s1" false, none, some (some "u1")⟩ 7]
    (.settle 0 true) [] rfl 1 (by decide) (by decide)
  cases hlost with
  | flushed hflushed => exact absurd hflushed (by decide)
  | superseded op now he => cases he
  | poisoned hpoisoned => exact absurd hpoisoned (by decide)
  | foreign userId he => rcases he with he | he <;> cases he

end Komika.Offline.NoLoss
