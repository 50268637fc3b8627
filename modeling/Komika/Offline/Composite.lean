import Komika.Lib.Machine
import Komika.Offline.Queue

/-!
# The composite backend with a queue

`CompositeBackend` (`packages/api/src/composite-backend.ts`), the part that
writes: `mark`, `setProgress`, `flushQueue`, the `online` listener and
`setCurrentUser`, over one `OfflineWriteQueue` and a hosted backend.

A write is sent to `hosted`, and its promise settles later, in any order with
respect to everything else.  Each event below runs one synchronous piece: up
to the next `await`, or to the end of the call.  At most one request leaves in
each, and the event says whether `hosted` accepts that request.  A request
that is accepted may still reject (the answer is lost); one that is not
accepted never resolves.

`issued`, `origin`, `Call.startedBy` and `sent` are history: no branch of the
code reads them.  `sent` is what `hosted` has seen, and `hostedValue` is what a
server that stores the last value it was sent then holds.

The first half is the machine.  The second half is about what the server holds: `latest`
picks the last write for a target out of a list of writes, `hostedValue` does so out of
the requests that were accepted, and both are computed from the end of the list.

* `latest_concat`, `hostedValue_concat` — one more write, or one more request, decides
  for its own target and for no other;
* `exists_isLatest` — the latest write has a place in the list of writes, which is how a
  pending call is told from the calls after it;
* `flushQueue_eq` — a flush is a drain of the queue with at most one replay;
* `step_callSettles_cases`, `step_flushSettles_cases` — all that a settlement can do,
  for the invariants of `Isolation` and `LatestIntent` to go through.
-/

namespace Komika.Offline.Composite

open Komika.Lib
open Komika.Offline.Queue

/-- A `mark` or `setProgress` call that awaits `hosted`. -/
structure Call where
  /-- Its place among the calls made, in order. -/
  seq : Nat
  body : WriteBody
  /-- `currentUserId` when the call was made. -/
  startedBy : Option Id
  accepted : Bool

/-- A drain that awaits the flush of `op`. -/
structure Flight where
  op : Ref
  accepted : Bool

/-- A request sent to `hosted`. -/
structure Sent where
  body : WriteBody
  /-- The queued op it replays, if it is a replay. -/
  replayOf : Option Ref
  /-- `currentUserId` when it was sent. -/
  currentUserId : Option Id
  /-- Who was current when the user made the write. -/
  startedBy : Option Id
  accepted : Bool

/-- The backend with its queue, the calls and drains that await an answer, and the
history of writes and requests. -/
structure CompositeBackend where
  currentUserId : Option Id
  queue : OfflineWriteQueue
  calls : List Call
  flights : List Flight
  /-- The writes of all calls made, in order. -/
  issued : List WriteBody
  /-- Who was current when the write in a queued op was made. -/
  origin : Ref → Option Id
  sent : List Sent

/-- `new CompositeBackend({ hosted, queue })`.  The constructor's
`flushQueue()` runs with no current user yet, and defers. -/
def CompositeBackend.new (queue : OfflineWriteQueue) : CompositeBackend :=
  { currentUserId := none
    queue := queue
    calls := []
    flights := []
    issued := []
    origin := fun r => (queue.heap r).userId.join
    sent := [] }

/-- The arrow that `flushQueue` gives to `drain`, applied to the op the drain
flushes next, if any. -/
def CompositeBackend.replay (b : CompositeBackend) (flush : Option Ref)
    (accepted : Bool) : CompositeBackend :=
  match flush with
  | none => b
  | some op =>
      { b with
        flights := b.flights ++ [⟨op, accepted⟩]
        sent := b.sent ++
          [⟨(b.queue.heap op).body, some op, b.currentUserId, b.origin op,
            accepted⟩] }

/-- `flushQueue()`: starts a drain under the user of the moment. -/
def CompositeBackend.flushQueue (b : CompositeBackend) (accepted : Bool) :
    CompositeBackend :=
  let (queue, flush) := b.queue.drain b.currentUserId
  { b with queue := queue }.replay flush accepted

/-- The shared shape of `mark` and `setProgress`, up to the `await`. -/
def CompositeBackend.write (b : CompositeBackend) (body : WriteBody)
    (accepted : Bool) : CompositeBackend :=
  { b with
    calls := b.calls ++ [⟨b.issued.length, body, b.currentUserId, accepted⟩]
    issued := b.issued ++ [body]
    sent := b.sent ++ [⟨body, none, b.currentUserId, b.currentUserId, accepted⟩] }

/-- `mark(seriesId, marked)`, which follows or unfollows a series. -/
def CompositeBackend.mark (b : CompositeBackend) (seriesId : Id)
    (marked : Bool) (accepted : Bool) : CompositeBackend :=
  b.write (.mark seriesId marked) accepted

/-- `setProgress(chapterId, lastPageRead, read)`, the reading position in a chapter. -/
def CompositeBackend.setProgress (b : CompositeBackend) (chapterId : Id)
    (lastPageRead : Int) (read : Bool) (accepted : Bool) : CompositeBackend :=
  b.write (.progress chapterId lastPageRead read) accepted

/-- The `catch` of `mark` and `setProgress`: the op is stamped with the user
who is current *now*. -/
def CompositeBackend.capture (b : CompositeBackend) (call : Call) (now : Int) :
    CompositeBackend :=
  { b with
    queue := b.queue.enqueue ⟨call.body, none, some b.currentUserId⟩ now
    origin := Function.update b.origin b.queue.next call.startedBy }

/-- `setCurrentUser(userId)`: drops what belongs to others, and drains for the one who
signs in. -/
def CompositeBackend.setCurrentUser (b : CompositeBackend)
    (userId : Option Id) (accepted : Bool) : CompositeBackend :=
  if userId = b.currentUserId then b
  else
    let b' := { b with
      currentUserId := userId
      queue := b.queue.dropForeign userId }
    if userId ≠ none then b'.flushQueue accepted else b'

/-- The user's two writes. -/
inductive WriteCall where
  | mark (seriesId : Id) (marked : Bool)
  | setProgress (chapterId : Id) (lastPageRead : Int) (read : Bool)

/-- What may happen next: a call of the user, a promise that settles, the browser that
comes back online, a change of identity. -/
inductive Event where
  | call (write : WriteCall) (accepted : Bool)
  /-- The hosted write of the `i`-th pending call settles. -/
  | callSettles (i : Nat) (resolved : Bool) (now : Int) (accepted : Bool)
  /-- The flush of the `i`-th drain in flight settles. -/
  | flushSettles (i : Nat) (resolved : Bool) (accepted : Bool)
  | online (accepted : Bool)
  | setCurrentUser (userId : Option Id) (accepted : Bool)

/-- A hosted promise can only resolve for a request that was accepted. -/
def canSettle (accepted resolved : Bool) : Bool := accepted || !resolved

/-- One synchronous piece of the code.  A settlement that cannot be, because there is no
such promise or its request was not accepted, changes nothing. -/
def CompositeBackend.step (b : CompositeBackend) : Event → CompositeBackend
  | .call (.mark seriesId marked) accepted => b.mark seriesId marked accepted
  | .call (.setProgress chapterId lastPageRead read) accepted =>
      b.setProgress chapterId lastPageRead read accepted
  | .callSettles i resolved now accepted =>
      match b.calls[i]? with
      | none => b
      | some call =>
          if canSettle call.accepted resolved then
            let b' := { b with calls := b.calls.eraseIdx i }
            if resolved then b'.flushQueue accepted else b'.capture call now
          else b
  | .flushSettles i resolved accepted =>
      match b.flights[i]? with
      | none => b
      | some flight =>
          if canSettle flight.accepted resolved then
            let (queue, flush) := b.queue.settle flight.op resolved
            { b with
              queue := queue
              flights := b.flights.eraseIdx i }.replay flush accepted
          else b
  | .online accepted => b.flushQueue accepted
  | .setCurrentUser userId accepted => b.setCurrentUser userId accepted

/-! ## Last values

The last write for a target, of all the user made and of all the server was sent. -/

/-- The last write for `t` in a list of writes, oldest first. -/
def latest (writes : List WriteBody) (t : Target) : Option WriteBody :=
  writes.reverse.find? fun body => body.target = t

/-- What a server holds that stores the last value it was sent. -/
def hostedValue (sent : List Sent) (t : Target) : Option WriteBody :=
  latest ((sent.filter Sent.accepted).map Sent.body) t

@[simp] theorem latest_nil (t : Target) : latest [] t = none := rfl

/-- The newest write decides for its own target and leaves the others alone. -/
theorem latest_concat (writes : List WriteBody) (body : WriteBody)
    (t : Target) :
    latest (writes ++ [body]) t =
      if body.target = t then some body else latest writes t := by
  by_cases h : body.target = t <;> simp [latest, h]

/-- The latest write for a target is a write for that target. -/
theorem latest_target {writes : List WriteBody} {t : Target} {body : WriteBody}
    (h : latest writes t = some body) : body.target = t := by
  simpa using List.find?_some h

/-- The `i`-th write is for `t`, and no later one is. -/
structure IsLatest (writes : List WriteBody) (t : Target) (i : Nat)
    (body : WriteBody) : Prop where
  written : writes[i]? = some body
  target : body.target = t
  last : ∀ j, i < j → ∀ other, writes[j]? = some other → other.target ≠ t

/-- A write that has just been made is the latest for its target. -/
theorem isLatest_concat_self (writes : List WriteBody) (body : WriteBody) :
    IsLatest (writes ++ [body]) body.target writes.length body where
  written := by simp
  target := rfl
  last := by
    intro j hj other hother
    rw [List.getElem?_eq_none (by simp; omega)] at hother
    contradiction

/-- A later write for another target changes nothing for `t`. -/
theorem IsLatest.concat {writes : List WriteBody} {t : Target} {i : Nat}
    {body other : WriteBody} (h : IsLatest writes t i body)
    (hne : other.target ≠ t) : IsLatest (writes ++ [other]) t i body where
  written := by
    have hi : i < writes.length := (List.getElem?_eq_some_iff.mp h.written).1
    rw [List.getElem?_append_left hi]
    exact h.written
  target := h.target
  last := by
    intro j hj x hx
    rcases Nat.lt_trichotomy j writes.length with hlt | heq | hgt
    · exact h.last j hj x (by rwa [List.getElem?_append_left hlt] at hx)
    · subst heq
      simp only [List.getElem?_concat_length, Option.some.injEq] at hx
      rwa [← hx]
    · rw [List.getElem?_eq_none (by simp; omega)] at hx
      contradiction

/-- The latest write for a target stands somewhere in the list. -/
theorem exists_isLatest {writes : List WriteBody} {t : Target}
    {body : WriteBody} (h : latest writes t = some body) :
    ∃ i, IsLatest writes t i body := by
  induction writes using List.reverseRecOn with
  | nil => simp at h
  | append_singleton writes other ih =>
      rw [latest_concat] at h
      split at h
      · next heq =>
          cases h
          exact ⟨writes.length, heq ▸ isLatest_concat_self writes body⟩
      · next hne =>
          obtain ⟨i, hi⟩ := ih h
          exact ⟨i, hi.concat hne⟩

/-- One more request changes what the server holds exactly if it is accepted, and then
only at its own target. -/
theorem hostedValue_concat (sent : List Sent) (x : Sent) (t : Target) :
    hostedValue (sent ++ [x]) t =
      if x.accepted = true ∧ x.body.target = t then some x.body
      else hostedValue sent t := by
  cases hx : x.accepted <;>
    simp [hostedValue, List.filter_append, hx, latest_concat]

/-! ## What a step does

Each event again, by what it may change.  The invariants are proved from these and do
not unfold the machine. -/

section Projections

variable (b : CompositeBackend)

/-- Nothing to flush, nothing to replay. -/
@[simp] theorem replay_none (accepted : Bool) : b.replay none accepted = b := rfl

/-- A flush drains the queue, replays the op at its head and awaits that flush. -/
theorem flushQueue_eq (accepted : Bool) :
    b.flushQueue accepted =
      { b with queue := (b.queue.drain b.currentUserId).1 }.replay
        (b.queue.drain b.currentUserId).2 accepted := rfl

/-- With nobody signed in the queue is not touched. -/
theorem flushQueue_of_none (h : b.currentUserId = none) (accepted : Bool) :
    b.flushQueue accepted = b := by
  have hdrain : b.queue.drain b.currentUserId = (b.queue, none) := by
    rw [h, drain_none]
  rw [flushQueue_eq, hdrain, replay_none]

/-- With a user signed in, foreign ops are dropped and the head is replayed. -/
theorem flushQueue_of_some {u : Id} (h : b.currentUserId = some u)
    (accepted : Bool) :
    b.flushQueue accepted =
      { b with queue := b.queue.purge (some u) }.replay
        (b.queue.ownedBy (some u)).head? accepted := by
  have hdrain : b.queue.drain b.currentUserId =
      (b.queue.purge (some u), (b.queue.ownedBy (some u)).head?) := by
    rw [h, drain_some]
  rw [flushQueue_eq, hdrain]

/-- The body a call writes. -/
def WriteCall.body : WriteCall → WriteBody
  | .mark seriesId marked => .mark seriesId marked
  | .setProgress chapterId lastPageRead read =>
      .progress chapterId lastPageRead read

/-- Both writes of the user go through the shared shape. -/
theorem step_call (write : WriteCall) (accepted : Bool) :
    b.step (.call write accepted) = b.write write.body accepted := by
  cases write <;> rfl

/-- A call settles: nothing, a flush of the queue, or a capture. -/
theorem step_callSettles_cases (i : Nat) (resolved : Bool) (now : Int)
    (accepted : Bool) :
    b.step (.callSettles i resolved now accepted) = b ∨
      ∃ call, b.calls[i]? = some call ∧
        ((resolved = true ∧ call.accepted = true ∧
          b.step (.callSettles i resolved now accepted) =
            { b with calls := b.calls.eraseIdx i }.flushQueue accepted) ∨
        (resolved = false ∧
          b.step (.callSettles i resolved now accepted) =
            { b with calls := b.calls.eraseIdx i }.capture call now)) := by
  cases hi : b.calls[i]? with
  | none => exact .inl (by simp [CompositeBackend.step, hi])
  | some call =>
      cases resolved with
      | false =>
          refine .inr ⟨call, rfl, .inr ⟨rfl, ?_⟩⟩
          simp [CompositeBackend.step, hi, canSettle]
      | true =>
          cases hacc : call.accepted with
          | false =>
              exact .inl (by simp [CompositeBackend.step, hi, canSettle, hacc])
          | true =>
              refine .inr ⟨call, rfl, .inl ⟨rfl, hacc, ?_⟩⟩
              simp [CompositeBackend.step, hi, canSettle, hacc]

/-- A flush settles: nothing, or the drain goes on with the queue it left. -/
theorem step_flushSettles_cases (i : Nat) (resolved accepted : Bool) :
    b.step (.flushSettles i resolved accepted) = b ∨
      ∃ flight, b.flights[i]? = some flight ∧
        (resolved = true → flight.accepted = true) ∧
        b.step (.flushSettles i resolved accepted) =
          { b with
            queue := (b.queue.settle flight.op resolved).1
            flights := b.flights.eraseIdx i }.replay
              (b.queue.settle flight.op resolved).2 accepted := by
  cases hi : b.flights[i]? with
  | none => exact .inl (by simp [CompositeBackend.step, hi])
  | some flight =>
      by_cases hcan : canSettle flight.accepted resolved = true
      · refine .inr ⟨flight, rfl, ?_, ?_⟩
        · rintro rfl
          simpa [canSettle] using hcan
        · simp [CompositeBackend.step, hi, hcan]
      · exact .inl (by simp [CompositeBackend.step, hi, hcan])

end Projections

end Komika.Offline.Composite
