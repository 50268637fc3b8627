import Komika.Offline.Composite

/-!
# Latest intent wins

One user, signed in throughout, makes `mark` and `setProgress` calls while
the hosted backend accepts some requests and refuses others.  Once the queue
is empty and nothing is in flight, the hosted value of every target should be
that of the user's latest write for it (`LatestIntentWins`).

Nothing removes a queued op when a newer write for its target goes through
directly, so a drain may replay the older write on top of the newer one.
`Timely` is the condition on a step under which the latest write prevails.
The invariant (`Tracked`) says, for every target the user wrote, where its
latest write is: with the server, in the queue, or refused and not yet
captured.

* `Tracked.resolveCall` — the call that goes through leaves the others where they are;
* `Tracked.captureCall` — the call that fails is queued, or superseded by a later one;
* `Tracked.settleFlight` — the drain takes off the queue what the server has taken;
* `latestIntentWins_of_timely` — after every run of timely steps the latest intent wins;
* `not_latestIntentWins_direct_write_over_backlog` — the backlog that is replayed over a
  newer write.
-/

namespace Komika.Offline.LatestIntent

open Komika.Lib
open Komika.Offline.Queue Komika.Offline.Composite

/-- A session of `user` over a queue that storage left behind. -/
def signedIn (stored : List WriteOp) (user : Id) (accepted : Bool) :
    CompositeBackend :=
  (CompositeBackend.new (.open stored)).setCurrentUser (some user) accepted

/-- The event leaves `user` signed in. -/
def StaysSignedIn (user : Id) : Event → Prop
  | .setCurrentUser userId _ => userId = some user
  | _ => True

/-- The queue is empty and nothing is in flight. -/
structure Quiescent (b : CompositeBackend) : Prop where
  ops : b.queue.ops = []
  calls : b.calls = []
  flights : b.flights = []

/-- In a quiescent state the server holds the latest write for each target. -/
def LatestIntentWins (b : CompositeBackend) : Prop :=
  Quiescent b → ∀ t body, latest b.issued t = some body →
    hostedValue b.sent t = some body

/-- No queued op addresses `t`. -/
def Clear (b : CompositeBackend) (t : Target) : Prop :=
  ∀ r ∈ b.queue.ops, (b.queue.heap r).body.target ≠ t

/-- The condition on a step:
* a write that `hosted` accepts finds no queued op for its target;
* when a write fails, every later write for its target is still pending and
  was not accepted;
* the flush of an op resolves while it is at the head (or nothing is queued),
  and no rejection is its `MAX_TRIES`-th. -/
def Timely (b : CompositeBackend) : Event → Prop
  | .call write accepted => accepted = true → Clear b write.body.target
  | .callSettles i resolved _ _ => resolved = false →
      ∀ call, b.calls[i]? = some call →
        ∀ j, call.seq < j → ∀ later, b.issued[j]? = some later →
          later.target = call.body.target →
            ∃ c ∈ b.calls, c.seq = j ∧ c.accepted = false
  | .flushSettles i resolved _ => ∀ flight, b.flights[i]? = some flight →
      b.queue.Shifts flight.op resolved →
        resolved = true ∧
          (b.queue.ops = [] ∨ b.queue.ops.head? = some flight.op)
  | _ => True

/-! ## The invariant -/

/-- Where the latest write for a target is. -/
inductive Accounted (b : CompositeBackend) (t : Target) (body : WriteBody) :
    Prop
  /-- The server holds it and no queued op can overwrite it. -/
  | stored (hosted : hostedValue b.sent t = some body) (clear : Clear b t)
  /-- It is the only queued op for its target; a replay of it in flight that
  was accepted has reached the server. -/
  | queued (r : Ref) (mem : r ∈ b.queue.ops)
      (holds : (b.queue.heap r).body = body)
      (only : ∀ r' ∈ b.queue.ops, (b.queue.heap r').body.target = t → r' = r)
      (replayed : ∀ f ∈ b.flights, f.op = r → f.accepted = true →
        hostedValue b.sent t = some body)
  /-- `hosted` refused it and the call has not settled yet. -/
  | refused (call : Call) (mem : call ∈ b.calls) (accepted : call.accepted = false)
      (isLatest : IsLatest b.issued t call.seq body)

/-- The invariant of a session: the queue is the user's own, every drain awaits an op
that was there, every pending call stands in the history at its number, and `accounted`
places the latest write for each target. -/
structure Tracked (user : Id) (b : CompositeBackend) : Prop where
  current : b.currentUserId = some user
  owned : ∀ r ∈ b.queue.ops, (b.queue.heap r).userId = some (some user)
  flying : ∀ f ∈ b.flights, f.op < b.queue.next
  issued : ∀ c ∈ b.calls, b.issued[c.seq]? = some c.body
  accounted : ∀ t body, latest b.issued t = some body → Accounted b t body

/-- With nothing queued or pending the latest write can only be with the server. -/
theorem Tracked.latestIntentWins {user : Id} {b : CompositeBackend}
    (h : Tracked user b) : LatestIntentWins b := by
  intro hquiet t body hlatest
  cases h.accounted t body hlatest with
  | stored hosted _ => exact hosted
  | queued r mem => rw [hquiet.ops] at mem; contradiction
  | refused call mem => rw [hquiet.calls] at mem; contradiction

/-! ## What the steps keep -/

/-- Sending a queued op to the server keeps the invariant. -/
theorem Tracked.replay {user : Id} {b : CompositeBackend}
    (h : Tracked user b) {flush : Option Ref} (accepted : Bool)
    (hflush : ∀ r, flush = some r → r ∈ b.queue.ops) :
    Tracked user (b.replay flush accepted) := by
  cases flush with
  | none => exact h
  | some op =>
      have hop : op ∈ b.queue.ops := hflush op rfl
      refine
        { current := h.current
          owned := h.owned
          flying := ?_
          issued := h.issued
          accounted := ?_ }
      · intro f hf
        rcases List.mem_append.mp hf with hf | hf
        · exact h.flying f hf
        · rw [List.mem_singleton.mp hf]
          exact b.queue.allocated op hop
      · intro t body hlatest
        cases h.accounted t body hlatest with
        | stored hosted clear =>
            refine .stored ?_ clear
            simp only [CompositeBackend.replay, hostedValue_concat]
            rw [if_neg fun hsame => clear op hop hsame.2]
            exact hosted
        | queued r mem holds only replayed =>
            have htarget : (b.queue.heap r).body.target = t := by
              rw [holds]; exact latest_target hlatest
            refine .queued r mem holds only ?_
            intro f hf hfr hacc
            simp only [CompositeBackend.replay, hostedValue_concat]
            by_cases hsame :
                accepted = true ∧ (b.queue.heap op).body.target = t
            · rw [if_pos hsame, only op hop hsame.2, holds]
            · rw [if_neg hsame]
              rcases List.mem_append.mp hf with hf | hf
              · exact replayed f hf hfr hacc
              · -- the flight just started is the op sent
                rw [List.mem_singleton.mp hf] at hfr hacc
                have hsent : op = r := hfr
                exact absurd ⟨hacc, hsent ▸ htarget⟩ hsame
        | refused call mem hrefused isLatest =>
            exact .refused call mem hrefused isLatest

/-- The user owns every queued op, so a drain starts with the whole queue. -/
theorem Tracked.ownedBy_eq {user : Id} {b : CompositeBackend}
    (h : Tracked user b) : b.queue.ownedBy (some user) = b.queue.ops :=
  List.filter_eq_self.mpr fun r hr => by simpa using h.owned r hr

/-- A flush sends the head of the queue and accounts for nothing else. -/
theorem Tracked.flushQueue {user : Id} {b : CompositeBackend}
    (h : Tracked user b) (accepted : Bool) :
    Tracked user (b.flushQueue accepted) := by
  rw [flushQueue_of_some b h.current, h.ownedBy_eq]
  refine Tracked.replay ?_ accepted ?_
  · refine
      { current := h.current
        owned := by simpa [h.ownedBy_eq] using h.owned
        flying := by simpa using h.flying
        issued := h.issued
        accounted := ?_ }
    intro t body hlatest
    cases h.accounted t body hlatest with
    | stored hosted clear =>
        exact .stored hosted (by simpa [Clear, h.ownedBy_eq] using clear)
    | queued r mem holds only replayed =>
        exact .queued r (by simpa [h.ownedBy_eq] using mem) (by simpa using holds)
          (by simpa [h.ownedBy_eq] using only) replayed
    | refused call mem hrefused isLatest =>
        exact .refused call mem hrefused isLatest
  · intro r hr
    simpa [h.ownedBy_eq] using List.mem_of_head? hr

/-- A call that is not the settled one stays pending. -/
private theorem mem_eraseIdx_of_ne {calls : List Call} {i : Nat} {c call : Call}
    (hc : c ∈ calls) (hi : calls[i]? = some call) (hne : c ≠ call) :
    c ∈ calls.eraseIdx i := by
  obtain ⟨k, hk⟩ := List.mem_iff_getElem?.mp hc
  refine List.mem_eraseIdx_iff_getElem?.mpr ⟨k, ?_, hk⟩
  rintro rfl
  exact hne (Option.some.inj (hk.symm.trans hi))

/-- A write that resolves had been accepted, so it is nobody's refusal. -/
theorem Tracked.resolveCall {user : Id} {b : CompositeBackend}
    (h : Tracked user b) {i : Nat} {call : Call} (hi : b.calls[i]? = some call)
    (hacc : call.accepted = true) :
    Tracked user { b with calls := b.calls.eraseIdx i } := by
  refine
    { current := h.current
      owned := h.owned
      flying := h.flying
      issued := fun c hc => h.issued c (List.mem_of_mem_eraseIdx hc)
      accounted := ?_ }
  intro t body hlatest
  cases h.accounted t body hlatest with
  | stored hosted clear => exact .stored hosted clear
  | queued r mem holds only replayed => exact .queued r mem holds only replayed
  | refused c mem hrefused isLatest =>
      refine .refused c (mem_eraseIdx_of_ne mem hi ?_) hrefused isLatest
      rintro rfl
      rw [hacc] at hrefused
      contradiction

section Capture

variable {user : Id} {b : CompositeBackend} {i : Nat} {call : Call}

/-- An object in the queue is not the one allocated next. -/
theorem old_ne_next {r : Ref} (hr : r ∈ b.queue.ops) : r ≠ b.queue.next :=
  Nat.ne_of_lt (b.queue.allocated r hr)

/-- Capturing a call leaves the writes for the other targets where they are. -/
theorem Tracked.accounted_captureCall_other (h : Tracked user b)
    (hi : b.calls[i]? = some call) (now : Int) {t : Target} {body : WriteBody}
    (hlatest : latest b.issued t = some body) (ht : call.body.target ≠ t) :
    Accounted ({ b with calls := b.calls.eraseIdx i }.capture call now) t body := by
  have hkept : ∀ r ∈ b.queue.ops, (b.queue.heap r).body.target = t →
      r ∈ b.queue.others
        (EnqueueOp.full ⟨call.body, none, some b.currentUserId⟩ now) := by
    intro r hr htarget
    refine (mem_others b.queue).mpr ⟨hr, ?_⟩
    rw [htarget]
    exact fun hsame => ht hsame.symm
  have hthere : ∀ r,
      r ∈ ({ b with calls := b.calls.eraseIdx i }.capture call now).queue.ops →
      ((({ b with calls := b.calls.eraseIdx i }.capture call now).queue.heap
        r).body.target = t) →
      r ∈ b.queue.ops ∧ (b.queue.heap r).body.target = t := by
    intro r hr htarget
    simp only [CompositeBackend.capture, enqueue_ops, enqueue_heap,
      List.mem_append, List.mem_singleton] at hr htarget
    rcases hr with hr | rfl
    · have hmem := ((mem_others b.queue).mp hr).1
      rw [Function.update_of_ne (old_ne_next hmem)] at htarget
      exact ⟨hmem, htarget⟩
    · rw [Function.update_self] at htarget
      exact absurd htarget ht
  cases h.accounted t body hlatest with
  | stored hosted clear =>
      exact .stored hosted fun r hr htarget =>
        clear r (hthere r hr htarget).1 (hthere r hr htarget).2
  | queued r mem holds only replayed =>
      have htarget : (b.queue.heap r).body.target = t := by
        rw [holds]; exact latest_target hlatest
      refine .queued r ?_ ?_ ?_ replayed
      · simp only [CompositeBackend.capture, enqueue_ops, List.mem_append]
        exact .inl (hkept r mem htarget)
      · simp only [CompositeBackend.capture, enqueue_heap]
        rw [Function.update_of_ne (old_ne_next mem)]
        exact holds
      · intro r' hr' htarget'
        exact only r' (hthere r' hr' htarget').1 (hthere r' hr' htarget').2
  | refused c mem hrefused isLatest =>
      refine .refused c (mem_eraseIdx_of_ne mem hi ?_) hrefused isLatest
      rintro rfl
      have hwritten := isLatest.written
      rw [h.issued c mem] at hwritten
      exact ht ((Option.some.inj hwritten) ▸ isLatest.target)

/-- A call that was the latest write for its target is the queued one. -/
theorem Tracked.accounted_captureCall_latest (h : Tracked user b) (now : Int)
    {t : Target} (ht : call.body.target = t) :
    Accounted ({ b with calls := b.calls.eraseIdx i }.capture call now) t call.body := by
  refine .queued b.queue.next (by simp [CompositeBackend.capture]) ?_ ?_ ?_
  · simp [CompositeBackend.capture, EnqueueOp.full]
  · -- `enqueue` collapsed every older op for the target
    intro r hr htarget
    simp only [CompositeBackend.capture, enqueue_ops, enqueue_heap,
      List.mem_append, List.mem_singleton] at hr htarget
    rcases hr with hr | rfl
    · obtain ⟨hmem, hne⟩ := (mem_others b.queue).mp hr
      rw [Function.update_of_ne (old_ne_next hmem)] at htarget
      exact absurd (htarget.trans ht.symm) hne
    · rfl
  · intro f hf hfop
    exact absurd hfop (Nat.ne_of_lt (h.flying f hf))

/-- A write that fails in time is captured; it is the latest for its target,
or a later one is still to be captured. -/
theorem Tracked.captureCall (h : Tracked user b) (hi : b.calls[i]? = some call)
    (htimely : ∀ j, call.seq < j → ∀ later, b.issued[j]? = some later →
      later.target = call.body.target →
        ∃ c ∈ b.calls, c.seq = j ∧ c.accepted = false) (now : Int) :
    Tracked user ({ b with calls := b.calls.eraseIdx i }.capture call now) := by
  have hcall : call ∈ b.calls := List.mem_of_getElem? hi
  refine
    { current := h.current
      owned := ?_
      flying := fun f hf => Nat.lt_succ_of_lt (h.flying f hf)
      issued := fun c hc => h.issued c (List.mem_of_mem_eraseIdx hc)
      accounted := ?_ }
  · intro r hr
    simp only [CompositeBackend.capture, enqueue_ops, enqueue_heap,
      List.mem_append, List.mem_singleton] at hr ⊢
    rcases hr with hr | rfl
    · have hmem := ((mem_others b.queue).mp hr).1
      rw [Function.update_of_ne (old_ne_next hmem)]
      exact h.owned r hmem
    · rw [Function.update_self]
      simp [EnqueueOp.full, h.current]
  · intro t body hlatest
    have hlatest : latest b.issued t = some body := hlatest
    by_cases ht : call.body.target = t
    · obtain ⟨j, hj⟩ := exists_isLatest hlatest
      rcases Nat.lt_trichotomy j call.seq with hlt | heq | hgt
      · exact absurd ht (hj.last _ hlt _ (h.issued call hcall))
      · have hbody : call.body = body := by
          have hwritten := hj.written
          rw [heq, h.issued call hcall] at hwritten
          exact Option.some.inj hwritten
        rw [← hbody]
        exact h.accounted_captureCall_latest now ht
      · obtain ⟨c, hc, hseq, hrefused⟩ :=
          htimely j hgt body hj.written (hj.target.trans ht.symm)
        refine .refused c (mem_eraseIdx_of_ne hc hi ?_) hrefused (hseq ▸ hj)
        rintro rfl
        exact absurd hseq (Nat.ne_of_lt hgt)
    · exact h.accounted_captureCall_other hi now hlatest ht

end Capture

/-- A new write: the server takes it, or refuses it and the call is pending. -/
theorem Tracked.write {user : Id} {b : CompositeBackend}
    (h : Tracked user b) {body : WriteBody} {accepted : Bool}
    (hclear : accepted = true → Clear b body.target) :
    Tracked user (b.write body accepted) := by
  refine
    { current := h.current
      owned := h.owned
      flying := h.flying
      issued := ?_
      accounted := ?_ }
  · intro c hc
    simp only [CompositeBackend.write, List.mem_append,
      List.mem_singleton] at hc ⊢
    rcases hc with hc | rfl
    · have hissued := h.issued c hc
      rw [List.getElem?_append_left (List.getElem?_eq_some_iff.mp hissued).1]
      exact hissued
    · simp
  · intro t latestBody hlatest
    simp only [CompositeBackend.write, latest_concat] at hlatest
    by_cases ht : body.target = t
    · subst ht
      rw [if_pos rfl] at hlatest
      cases hlatest
      cases accepted with
      | true =>
          refine .stored ?_ (hclear rfl)
          simp [CompositeBackend.write, hostedValue_concat]
      | false =>
          exact .refused ⟨b.issued.length, body, b.currentUserId, false⟩
            (by simp [CompositeBackend.write]) rfl
            (isLatest_concat_self b.issued body)
    · rw [if_neg ht] at hlatest
      have hhosted :
          hostedValue (b.write body accepted).sent t = hostedValue b.sent t := by
        simp [CompositeBackend.write, hostedValue_concat, ht]
      cases h.accounted t latestBody hlatest with
      | stored hosted clear => exact .stored (hhosted.trans hosted) clear
      | queued r mem holds only replayed =>
          exact .queued r mem holds only fun f hf hfr hacc =>
            hhosted.trans (replayed f hf hfr hacc)
      | refused c mem hrefused isLatest =>
          exact .refused c (List.mem_append_left _ mem) hrefused
            (isLatest.concat ht)

/-- A flush settles in time: either the op the server now holds leaves the
head of the queue, or nothing leaves. -/
theorem Tracked.settleFlight {user : Id} {b : CompositeBackend}
    (h : Tracked user b) {i : Nat} {flight : Flight} {resolved : Bool}
    (hi : b.flights[i]? = some flight)
    (hacc : resolved = true → flight.accepted = true)
    (htimely : b.queue.Shifts flight.op resolved → resolved = true ∧
      (b.queue.ops = [] ∨ b.queue.ops.head? = some flight.op)) :
    Tracked user { b with
      queue := (b.queue.settle flight.op resolved).1
      flights := b.flights.eraseIdx i } := by
  have hsub := settle_ops_sublist b.queue flight.op resolved
  refine
    { current := h.current
      owned := fun r hr => by simpa using h.owned r (hsub.subset hr)
      flying := fun f hf => by
        simpa using h.flying f (List.mem_of_mem_eraseIdx hf)
      issued := h.issued
      accounted := ?_ }
  intro t body hlatest
  cases h.accounted t body hlatest with
  | stored hosted clear =>
      exact .stored hosted fun r hr => by
        simpa using clear r (hsub.subset hr)
  | queued r mem holds only replayed =>
      by_cases hstays : r ∈ (b.queue.settle flight.op resolved).1.ops
      · refine .queued r hstays (by simpa using holds) ?_ ?_
        · intro r' hr' htarget
          exact only r' (hsub.subset hr') (by simpa using htarget)
        · intro f hf
          exact replayed f (List.mem_of_mem_eraseIdx hf)
      · -- the op left: it is the head, and its flush resolved
        have hshift : b.queue.Shifts flight.op resolved := by
          by_contra hnot
          rw [(settle_of_not_shifts hnot).1] at hstays
          exact hstays mem
        rw [(settle_of_shifts hshift).1] at hstays
        obtain ⟨hresolved, hnil | hhead⟩ := htimely hshift
        · rw [hnil] at mem
          contradiction
        · obtain ⟨rest, hops⟩ := List.head?_eq_some_iff.mp hhead
          rw [hops, List.tail_cons] at hstays
          rw [hops] at mem
          have hr : flight.op = r :=
            ((List.mem_cons.mp mem).resolve_right hstays).symm
          have hmem : flight ∈ b.flights := List.mem_of_getElem? hi
          refine .stored (replayed flight hmem hr (hacc hresolved)) ?_
          intro r' hr' htarget
          have hr'' := only r' (hsub.subset hr') (by simpa using htarget)
          rw [hr'', (settle_of_shifts hshift).1, hops, List.tail_cons] at hr'
          exact hstays hr'
  | refused c mem hrefused isLatest =>
      exact .refused c mem hrefused isLatest

/-- Every timely event of the user's session keeps the invariant. -/
theorem Tracked.step {user : Id} {b : CompositeBackend} {e : Event}
    (h : Tracked user b) (hstays : StaysSignedIn user e) (htimely : Timely b e) :
    Tracked user (b.step e) := by
  cases e with
  | call write accepted =>
      rw [step_call]
      exact h.write htimely
  | callSettles i resolved now accepted =>
      rcases step_callSettles_cases b i resolved now accepted with
        heq | ⟨call, hi, ⟨_, hacc, heq⟩ | ⟨hresolved, heq⟩⟩
      · rwa [heq]
      · rw [heq]
        exact (h.resolveCall hi hacc).flushQueue accepted
      · rw [heq]
        exact h.captureCall hi (htimely hresolved call hi) now
  | flushSettles i resolved accepted =>
      rcases step_flushSettles_cases b i resolved accepted with
        heq | ⟨flight, hi, hacc, heq⟩
      · rwa [heq]
      · rw [heq]
        refine (h.settleFlight hi hacc (htimely flight hi)).replay accepted ?_
        intro r hr
        exact settle_flush_mem hr
  | online accepted => exact h.flushQueue accepted
  | setCurrentUser userId accepted =>
      have hsame : userId = b.currentUserId := hstays.trans h.current.symm
      simpa [CompositeBackend.step, CompositeBackend.setCurrentUser, hsame]
        using h

/-- A session starts with what storage left behind and with no write of its own. -/
theorem tracked_signedIn (stored : List WriteOp) (user : Id) (accepted : Bool) :
    Tracked user (signedIn stored user accepted) := by
  have hstart : Tracked user
      { CompositeBackend.new (.open stored) with
        currentUserId := some user
        queue := (OfflineWriteQueue.open stored).dropForeign (some user) } :=
    { current := rfl
      owned := by
        intro r hr
        simp only [dropForeign_ops, mem_ownedBy] at hr
        simpa using hr.2.2
      flying := by simp [CompositeBackend.new]
      issued := by simp [CompositeBackend.new]
      accounted := by simp [CompositeBackend.new] }
  exact hstart.flushQueue accepted

/-- **The latest intent wins in a timely run.**  One user is signed in throughout, from
any stored queue; once nothing is queued or in flight, the hosted value of each target
that the user wrote is that of the latest write.  The invariant is `Tracked`, which
every timely step keeps; with nothing queued or pending the only place left for the
latest write is the server. -/
theorem latestIntentWins_of_timely (stored : List WriteOp) (user : Id)
    (accepted : Bool) (events : List Event)
    (huser : ∀ e ∈ events, StaysSignedIn user e)
    (htimely : Machine.EachStep CompositeBackend.step Timely
      (signedIn stored user accepted) events) :
    LatestIntentWins
      (Machine.run CompositeBackend.step (signedIn stored user accepted)
        events) := by
  have hboth := (Machine.eachStep_of_forall huser).and htimely
  exact (Machine.run_invariant_of_each (I := Tracked user)
    (fun _ _ hI hstep => hI.step hstep.1 hstep.2)
    (tracked_signedIn stored user accepted) hboth).latestIntentWins

/-- A timely session: a backlog and a refused write are replayed, and then a
newer write for the same series goes through directly. -/
theorem latestIntentWins_of_timely_run :
    LatestIntentWins
      (Machine.run CompositeBackend.step
        (signedIn [⟨.mark "s0" true, 0, 0, some (some "u1")⟩] "u1" true)
        [.call (.mark "s1" true) false, .callSettles 0 false 7 false,
          .flushSettles 0 true true, .flushSettles 0 true false,
          .call (.mark "s1" false) true, .callSettles 0 true 8 false]) :=
  latestIntentWins_of_timely _ _ _ _ (by simp [StaysSignedIn]) (by
    simp only [Machine.eachStep_cons, Machine.eachStep_nil, Timely]
    refine ⟨fun h => absurd h (by decide), ?_, ?_, ?_, ?_,
      fun h => absurd h (by decide), trivial⟩
    · intro _ call hcall j hj later hlater
      have hseq : call.seq = 0 := by
        rw [← Option.some.inj hcall]
        rfl
      rw [hseq] at hj
      rw [List.getElem?_eq_none (Nat.succ_le_of_lt hj)] at hlater
      contradiction
    · intro flight hflight _
      rw [← Option.some.inj hflight]
      exact ⟨trivial, .inr (by decide)⟩
    · intro flight hflight _
      rw [← Option.some.inj hflight]
      exact ⟨trivial, .inr (by decide)⟩
    · intro _ r hr
      have hempty : r ∈ ([] : List Ref) := hr
      contradiction)

/-- The user marks a series while offline, unmarks it once the server answers
again, and the drain that this success starts replays the older mark. -/
theorem not_latestIntentWins_direct_write_over_backlog :
    ¬LatestIntentWins
      (Machine.run CompositeBackend.step (signedIn [] "u1" false)
        [.call (.mark "s1" true) false, .callSettles 0 false 7 false,
          .call (.mark "s1" false) true, .callSettles 0 true 8 true,
          .flushSettles 0 true false]) := by
  intro h
  have hwins := h ⟨rfl, rfl, rfl⟩ (.mark "s1") (.mark "s1" false) (by decide)
  exact absurd hwins (by decide)

end Komika.Offline.LatestIntent
