import Komika.Offline.Composite

/-!
# Isolation of accounts

The identity bound to a `CompositeBackend` changes at any time: sign-in,
logout, sign-in as someone else.  A write made by one user must never be
replayed while another is signed in, and an `enqueue` must not remove an op
whose owner is not the current user (`Isolated`).

The owner of an op is stamped when the failure is caught, not when the write
is made, and `enqueue` collapses by target alone.  `Attributed` is the
condition on a step under which the stamp is the right one and nobody else's
op is collapsed.  `Scoped` is the invariant: with a user signed in, every
queued op is stamped with that user, and a stamped op was made by its owner.

* `Scoped.withQueue`, `Scoped.replay` — removing ops, and replaying one, keep the
  invariant whatever the step is;
* `Scoped.capture` — the one place where an op gets an owner, and the only use of the
  condition;
* `isolated_of_attributed` — in a run whose steps are all attributed no write is
  replayed under another user and no op is removed under another identity;
* `not_isolated_failure_under_other_identity` — without the condition both happen.
-/

namespace Komika.Offline.Isolation

open Komika.Lib
open Komika.Offline.Queue Komika.Offline.Composite

/-- A request is a replay of a write that another user made. -/
def CrossReplay (x : Sent) : Prop :=
  x.replayOf ≠ none ∧ ∃ a b, x.startedBy = some a ∧ x.currentUserId = some b ∧
    a ≠ b

/-- At the event, an `enqueue` removes an op owned by someone who is not the
current user. -/
def StealsOp (b : CompositeBackend) (e : Event) : Prop :=
  ∃ i now accepted, e = .callSettles i false now accepted ∧
    ∃ r ∈ b.queue.ops, r ∉ (b.step e).queue.ops ∧
      ∃ a, (b.queue.heap r).userId = some (some a) ∧ b.currentUserId ≠ some a

/-- No write is replayed under another user, and no op is removed by an
`enqueue` under another identity, anywhere in the run. -/
def Isolated (b : CompositeBackend) (events : List Event) : Prop :=
  (∀ x ∈ (Machine.run CompositeBackend.step b events).sent, ¬CrossReplay x) ∧
    Machine.EachStep CompositeBackend.step (fun b e => ¬StealsOp b e) b events

/-- The condition on a step: when a write fails, no *other* user is signed in
than the one who made it, and with nobody signed in no owned op is queued for
its target. -/
def Attributed (b : CompositeBackend) : Event → Prop
  | .callSettles i false _ _ => ∀ call, b.calls[i]? = some call →
      (call.startedBy = none ∨ b.currentUserId = none ∨
        call.startedBy = b.currentUserId) ∧
      (b.currentUserId = none → ∀ r ∈ b.queue.ops,
        (b.queue.heap r).body.target = call.body.target →
          ∀ a, (b.queue.heap r).userId ≠ some (some a))
  | _ => True

/-! ## The invariant -/

/-- What attributed steps keep.  `stamped` speaks of the queue while a user is signed
in, `madeByOwner` of the stamp against the history of who made the write, `sent` of
every request so far. -/
structure Scoped (b : CompositeBackend) : Prop where
  stamped : ∀ u, b.currentUserId = some u →
    ∀ r ∈ b.queue.ops, (b.queue.heap r).userId = some (some u)
  madeByOwner : ∀ r ∈ b.queue.ops, ∀ u,
    (b.queue.heap r).userId = some (some u) →
      b.origin r = none ∨ b.origin r = some u
  sent : ∀ x ∈ b.sent, ¬CrossReplay x

/-- The queue that storage left behind has no history, so nothing in it is
misattributed. -/
theorem scoped_new (stored : List WriteOp) :
    Scoped (CompositeBackend.new (.open stored)) where
  stamped := by simp [CompositeBackend.new]
  madeByOwner := by
    intro r _ u hu
    exact .inr (by
      rw [show (CompositeBackend.new (.open stored)).origin r =
        ((OfflineWriteQueue.open stored).heap r).userId.join from rfl]
      rw [show ((OfflineWriteQueue.open stored).heap r).userId = some (some u)
        from hu]
      rfl)
  sent := by simp [CompositeBackend.new]

/-- A step that only removes ops from the queue, and not stamps from the ops,
keeps the invariant. -/
theorem Scoped.withQueue {b : CompositeBackend} (h : Scoped b)
    {queue : OfflineWriteQueue} {currentUserId : Option Id}
    (hops : ∀ r ∈ queue.ops, r ∈ b.queue.ops)
    (huser : ∀ r, (queue.heap r).userId = (b.queue.heap r).userId)
    (hstamped : ∀ u, currentUserId = some u →
      ∀ r ∈ queue.ops, (queue.heap r).userId = some (some u))
    (calls : List Call) (flights : List Flight) :
    Scoped { b with
      queue := queue
      currentUserId := currentUserId
      calls := calls
      flights := flights } where
  stamped := hstamped
  madeByOwner := by
    intro r hr u hu
    exact h.madeByOwner r (hops r hr) u ((huser r).symm.trans hu)
  sent := h.sent

/-- A replay of a queued op is sent under the user who made the write. -/
theorem Scoped.replay {b : CompositeBackend} (h : Scoped b)
    {flush : Option Ref} (accepted : Bool)
    (hflush : ∀ r, flush = some r → r ∈ b.queue.ops) :
    Scoped (b.replay flush accepted) := by
  cases flush with
  | none => exact h
  | some op =>
      have hop : op ∈ b.queue.ops := hflush op rfl
      refine
        { stamped := h.stamped
          madeByOwner := h.madeByOwner
          sent := ?_ }
      intro x hx
      rcases List.mem_append.mp hx with hx | hx
      · exact h.sent x hx
      · rw [List.mem_singleton.mp hx]
        rintro ⟨-, a, u, hstarted, hcurrent, hne⟩
        have howner := h.stamped u hcurrent op hop
        rcases h.madeByOwner op hop u howner with hnone | hsome
        · rw [hnone] at hstarted
          contradiction
        · exact hne (Option.some.inj (hstarted.symm.trans hsome))

/-- A flush replays under the current user what that user owns. -/
theorem Scoped.flushQueue {b : CompositeBackend} (h : Scoped b)
    (accepted : Bool) : Scoped (b.flushQueue accepted) := by
  cases hcurrent : b.currentUserId with
  | none => rwa [flushQueue_of_none b hcurrent]
  | some u =>
      rw [flushQueue_of_some b hcurrent]
      have hsub := ownedBy_sublist b.queue (some u)
      refine Scoped.replay ?_ accepted ?_
      · refine h.withQueue ?_ ?_ ?_ b.calls b.flights
        · intro r hr
          rw [purge_ops] at hr
          exact hsub.subset hr
        · simp
        · intro v hv r hr
          rw [purge_ops] at hr
          simpa using h.stamped v hv r (hsub.subset hr)
      · intro r hr
        simpa using List.mem_of_head? hr

/-- The captured op is stamped with the current user, who made it. -/
theorem Scoped.capture {b : CompositeBackend} (h : Scoped b) {call : Call}
    (hcall : call.startedBy = none ∨ b.currentUserId = none ∨
      call.startedBy = b.currentUserId) (now : Int) :
    Scoped (b.capture call now) := by
  have hold : ∀ r ∈ b.queue.ops, r ≠ b.queue.next := fun r hr =>
    Nat.ne_of_lt (b.queue.allocated r hr)
  refine
    { stamped := ?_
      madeByOwner := ?_
      sent := h.sent }
  · intro u hu r hr
    simp only [CompositeBackend.capture, enqueue_ops, enqueue_heap,
      List.mem_append, List.mem_singleton] at hr ⊢
    rcases hr with hr | rfl
    · have hmem := ((mem_others b.queue).mp hr).1
      rw [Function.update_of_ne (hold r hmem)]
      exact h.stamped u hu r hmem
    · have hu : b.currentUserId = some u := hu
      rw [Function.update_self]
      simp [EnqueueOp.full, hu]
  · intro r hr u hu
    simp only [CompositeBackend.capture, enqueue_ops, enqueue_heap,
      List.mem_append, List.mem_singleton] at hr hu ⊢
    rcases hr with hr | rfl
    · have hmem := ((mem_others b.queue).mp hr).1
      rw [Function.update_of_ne (hold r hmem)] at hu ⊢
      exact h.madeByOwner r hmem u hu
    · have hu : b.currentUserId = some u := by
        simpa [EnqueueOp.full] using hu
      rw [Function.update_self]
      rcases hcall with hnone | hnone | hsame
      · exact .inl hnone
      · rw [hnone] at hu
        contradiction
      · exact .inr (hsame.trans hu)

/-- A change of identity drops what the new user does not own before it flushes. -/
theorem Scoped.setCurrentUser {b : CompositeBackend} (h : Scoped b)
    (userId : Option Id) (accepted : Bool) :
    Scoped (b.setCurrentUser userId accepted) := by
  unfold CompositeBackend.setCurrentUser
  split
  · exact h
  · have hdropped : Scoped { b with
        currentUserId := userId
        queue := b.queue.dropForeign userId } := by
      refine h.withQueue ?_ ?_ ?_ b.calls b.flights
      · intro r hr
        rw [dropForeign_ops] at hr
        exact (ownedBy_sublist _ _).subset hr
      · simp
      · rintro u rfl r hr
        rw [dropForeign_ops] at hr
        simpa using ((mem_ownedBy _).mp hr).2.2
    dsimp only
    split
    · exact hdropped.flushQueue accepted
    · exact hdropped

/-- Every event keeps the invariant if it is attributed. -/
theorem Scoped.step {b : CompositeBackend} {e : Event} (h : Scoped b)
    (hattr : Attributed b e) : Scoped (b.step e) := by
  cases e with
  | call write accepted =>
      rw [step_call]
      refine
        { stamped := h.stamped
          madeByOwner := h.madeByOwner
          sent := ?_ }
      intro x hx
      rcases List.mem_append.mp hx with hx | hx
      · exact h.sent x hx
      · rw [List.mem_singleton.mp hx]
        exact fun hcross => hcross.1 rfl
  | callSettles i resolved now accepted =>
      rcases step_callSettles_cases b i resolved now accepted with
        heq | ⟨call, hi, ⟨_, _, heq⟩ | ⟨rfl, heq⟩⟩
      · rwa [heq]
      · rw [heq]
        exact (h.withQueue (fun _ hr => hr) (fun _ => rfl) h.stamped _
          _).flushQueue accepted
      · rw [heq]
        exact (h.withQueue (fun _ hr => hr) (fun _ => rfl) h.stamped
          (b.calls.eraseIdx i) _).capture (hattr call hi).1 now
  | flushSettles i resolved accepted =>
      rcases step_flushSettles_cases b i resolved accepted with
        heq | ⟨flight, _, _, heq⟩
      · rwa [heq]
      · rw [heq]
        have hsub := settle_ops_sublist b.queue flight.op resolved
        refine Scoped.replay ?_ accepted (fun r hr => settle_flush_mem hr)
        refine h.withQueue (fun r hr => hsub.subset hr) (by simp) ?_ _ _
        intro u hu r hr
        simpa using h.stamped u hu r (hsub.subset hr)
  | online accepted => exact h.flushQueue accepted
  | setCurrentUser userId accepted => exact h.setCurrentUser userId accepted

/-- An attributed capture removes only ops of the current user, or of nobody. -/
theorem Scoped.not_stealsOp {b : CompositeBackend} {e : Event} (h : Scoped b)
    (hattr : Attributed b e) : ¬StealsOp b e := by
  rintro ⟨i, now, accepted, rfl, r, hr, hgone, a, howner, hother⟩
  rcases step_callSettles_cases b i false now accepted with
    heq | ⟨call, hi, ⟨hfalse, _⟩ | ⟨_, heq⟩⟩
  · rw [heq] at hgone
    exact hgone hr
  · contradiction
  · rw [heq] at hgone
    cases hcurrent : b.currentUserId with
    | some u =>
        have hu := h.stamped u hcurrent r hr
        rw [howner] at hu
        cases hu
        exact hother hcurrent
    | none =>
        have htarget : (b.queue.heap r).body.target = call.body.target := by
          by_contra hne
          exact hgone (List.mem_append_left _ ((mem_others b.queue).mpr ⟨hr, hne⟩))
        exact (hattr call hi).2 hcurrent r hr htarget a howner

/-- **The accounts are kept apart in an attributed run.**  No request is replayed under
a user other than the one who made it, and no enqueue removes an op of another identity,
in any state of a run in which no write fails under another user than it began under. -/
theorem isolated_of_attributed (stored : List WriteOp) (events : List Event)
    (h : Machine.EachStep CompositeBackend.step Attributed
      (CompositeBackend.new (.open stored)) events) :
    Isolated (CompositeBackend.new (.open stored)) events := by
  constructor
  · exact (Machine.run_invariant_of_each (fun _ _ hI hstep => hI.step hstep)
      (scoped_new stored) h).sent
  · exact Machine.EachStep.of_invariant (fun _ _ hI hstep => hI.step hstep)
      (fun _ _ hI hstep => hI.not_stealsOp hstep) (scoped_new stored) h

/-- An attributed run: a write made before sign-in is captured without an
owner and dropped at sign-in, one made by the user is captured and replayed,
and then another user signs in. -/
theorem isolated_of_attributed_run :
    Isolated (CompositeBackend.new (.open []))
      [.call (.mark "s1" true) false, .callSettles 0 false 3 false,
        .setCurrentUser (some "u1") true, .call (.mark "s1" true) false,
        .callSettles 0 false 7 false, .online true,
        .setCurrentUser none false, .setCurrentUser (some "u2") true] :=
  isolated_of_attributed _ _ (by
    simp only [Machine.eachStep_cons, Machine.eachStep_nil, Attributed]
    refine ⟨trivial, ?_, trivial, trivial, ?_, trivial, trivial, trivial,
      trivial⟩
    · intro call hcall
      rw [← Option.some.inj hcall]
      refine ⟨.inl rfl, ?_⟩
      intro _ r hr
      have hempty : r ∈ ([] : List Ref) := hr
      contradiction
    · intro call hcall
      rw [← Option.some.inj hcall]
      exact ⟨.inr (.inr rfl), fun hfalse => absurd hfalse (by decide)⟩)

/-- A write of `u1` is in flight when `u1` logs out and `u2` signs in; its
failure is stamped with `u2` and replayed under that account.  And before the
owner of a stored op has signed in, the failure of an anonymous write for the
same series removes it. -/
theorem not_isolated_failure_under_other_identity :
    ¬Isolated (CompositeBackend.new (.open []))
        [.setCurrentUser (some "u1") false, .call (.mark "s1" true) false,
          .setCurrentUser none false, .setCurrentUser (some "u2") false,
          .callSettles 0 false 7 false, .online true] ∧
      ¬Isolated
        (CompositeBackend.new
          (.open [⟨.mark "s1" true, 0, 0, some (some "u1")⟩]))
        [.call (.mark "s1" false) false, .callSettles 0 false 7 false] := by
  constructor
  · intro h
    refine h.1 ⟨.mark "s1" true, some 0, some "u2", some "u1", true⟩ ?_ ?_
    · exact List.mem_cons_of_mem _ List.mem_cons_self
    · exact ⟨nofun, "u1", "u2", rfl, rfl, by decide⟩
  · intro h
    refine h.2.2.1 ⟨0, 7, false, rfl, 0, ?_, ?_, "u1", rfl, nofun⟩
    · exact List.mem_cons_self
    · decide

end Komika.Offline.Isolation
