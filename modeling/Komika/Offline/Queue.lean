import Mathlib.Data.List.Nodup
import Mathlib.Logic.Function.Basic

/-!
# The offline write queue

`OfflineWriteQueue` (`packages/api/src/offline-queue.ts`): an ordered,
persisted list of library and progress writes, collapsed per target on
`enqueue` and flushed oldest first by `drain`.

`this.ops` is an array of *objects*.  `drain` keeps a reference to the head
while it awaits `flush`, increments `tries` through that reference, and then
calls `this.ops.shift()`, whatever object is at the head by then.  The model
therefore keeps references: `heap` holds the op objects, `ops` the array of
references to them.

`drain` is an `async` function with one `await`.  It is cut there into the
three synchronous pieces that the event loop runs without interruption:
`drain` up to its first `await flush(op)`, and the continuation after a flush
that resolved or rejected.  Each piece returns the queue and, when it ends in
another `await flush(op)`, the reference it hands to `flush`.

What follows the definitions is the interface that the runs over the queue use: for each
operation, what it does to the array, to the objects and to the next reference.
`Shifts` says when a settlement takes the head off, and `settle_of_shifts` and
`settle_of_not_shifts` are the two ways a drain goes on.
-/

namespace Komika.Offline.Queue

/-- `Id` of `@komika/types`, a text. -/
abbrev Id := String

/-- The reconciliation target of a write: what `sameTarget` compares. -/
inductive Target where
  | progress (chapterId : Id)
  | mark (seriesId : Id)
deriving DecidableEq, Repr

/-- What a write says, by `kind`, with the fields of `ProgressOp` and `MarkOp`
that the caller supplies. -/
inductive WriteBody where
  | progress (chapterId : Id) (lastPageRead : Int) (read : Bool)
  | mark (seriesId : Id) (marked : Bool)
deriving DecidableEq, Repr

/-- What a write is about: a chapter for progress, a series for a mark. -/
def WriteBody.target : WriteBody → Target
  | .progress chapterId _ _ => .progress chapterId
  | .mark seriesId _ => .mark seriesId

/-- `WriteOp`.  `userId` is `undefined` (`none`) on ops persisted before the
field existed, `null` (`some none`) on ops enqueued while anonymous. -/
structure WriteOp where
  body : WriteBody
  ts : Int
  tries : Nat
  userId : Option (Option Id)
deriving DecidableEq, Repr

/-- `EnqueueOp`: a write without the fields the queue owns. -/
structure EnqueueOp where
  body : WriteBody
  ts : Option Int
  userId : Option (Option Id)
deriving DecidableEq, Repr

/-- `MAX_TRIES`: an op whose flush has rejected so often is dropped as poison. -/
def MAX_TRIES : Nat := 5

/-- A reference to an op object. -/
abbrev Ref := Nat

/-- An `OfflineWriteQueue` and its storage adapter.  `next` is the first
reference not yet allocated; `stored` is the list last saved.  No object is
listed twice, and only allocated objects are. -/
structure OfflineWriteQueue where
  heap : Ref → WriteOp
  next : Ref
  ops : List Ref
  stored : List WriteOp
  nodup : ops.Nodup
  allocated : ∀ r ∈ ops, r < next

/-- `sameTarget(a, b)`.  The owners are not compared. -/
def sameTarget (a b : WriteOp) : Bool :=
  a.body.target = b.body.target

/-- `persist()`: the ops as they are now go to the storage, in the order of the
queue. -/
def OfflineWriteQueue.persist (q : OfflineWriteQueue) : OfflineWriteQueue :=
  { q with stored := q.ops.map q.heap }

/-- `this.ops = ops` for an array of some of the present objects. -/
def OfflineWriteQueue.withOps (q : OfflineWriteQueue) (ops : List Ref)
    (h : ops.Sublist q.ops) : OfflineWriteQueue :=
  { q with
    ops := ops
    nodup := q.nodup.sublist h
    allocated := fun r hr => q.allocated r (h.subset hr) }

/-- The value of an object that was never allocated; nothing reads it. -/
def unallocated : WriteOp := ⟨.mark "" false, 0, 0, none⟩

/-- `new OfflineWriteQueue(adapter)` over an adapter that holds `stored`:
`read()` parses one fresh object for every stored op. -/
def OfflineWriteQueue.open (stored : List WriteOp) : OfflineWriteQueue :=
  { heap := fun r => stored.getD r unallocated
    next := stored.length
    ops := List.range stored.length
    stored := stored
    nodup := List.nodup_range
    allocated := fun _ => List.mem_range.mp }

/-- The `full` op that `enqueue` builds at time `now`. -/
def EnqueueOp.full (op : EnqueueOp) (now : Int) : WriteOp :=
  { body := op.body
    ts := op.ts.getD now
    tries := 0
    userId := some (op.userId.getD none) }

/-- The pending ops that do not address the target of `full`. -/
def OfflineWriteQueue.others (q : OfflineWriteQueue) (full : WriteOp) :
    List Ref :=
  q.ops.filter fun r => !sameTarget (q.heap r) full

/-- `enqueue` keeps the order of the ops it keeps. -/
theorem others_sublist (q : OfflineWriteQueue) (full : WriteOp) :
    (q.others full).Sublist q.ops :=
  List.filter_sublist

/-- `enqueue(op)`, with `now` for `Date.now()`: drop what it supersedes, push
the new object, persist. -/
def OfflineWriteQueue.enqueue (q : OfflineWriteQueue) (op : EnqueueOp)
    (now : Int) : OfflineWriteQueue :=
  let full := op.full now
  let ops := q.others full ++ [q.next]
  OfflineWriteQueue.persist
    { q with
      heap := Function.update q.heap q.next full
      next := q.next + 1
      ops := ops
      nodup := by
        have hfresh : q.next ∉ q.others full := fun h =>
          absurd (q.allocated _ ((others_sublist q full).subset h))
            (Nat.lt_irrefl _)
        exact List.nodup_append.mpr
          ⟨q.nodup.sublist (others_sublist q full), List.nodup_singleton _,
            fun _ ha _ hb hab =>
              hfresh (List.mem_singleton.mp hb ▸ hab ▸ ha)⟩
      allocated := by
        intro r hr
        rcases List.mem_append.mp hr with hr | hr
        · exact Nat.lt_succ_of_lt
            (q.allocated r ((others_sublist q full).subset hr))
        · rw [List.mem_singleton.mp hr]
          exact Nat.lt_succ_self _ }

/-- The pending ops an identity keeps: none without a user, else those stamped
with it. -/
def OfflineWriteQueue.ownedBy (q : OfflineWriteQueue) (userId : Option Id) :
    List Ref :=
  match userId with
  | none => []
  | some u => q.ops.filter fun r => (q.heap r).userId = some (some u)

/-- A purge keeps the order of the ops it keeps. -/
theorem ownedBy_sublist (q : OfflineWriteQueue) (userId : Option Id) :
    (q.ownedBy userId).Sublist q.ops := by
  cases userId with
  | none => exact List.nil_sublist _
  | some u => exact List.filter_sublist

/-- Keep only what `userId` owns, and persist if that changed anything. -/
def OfflineWriteQueue.purge (q : OfflineWriteQueue) (userId : Option Id) :
    OfflineWriteQueue :=
  let q' := q.withOps (q.ownedBy userId) (ownedBy_sublist q userId)
  if q'.ops.length ≠ q.ops.length then q'.persist else q'

/-- `dropForeign(userId)`: `null` clears the queue. -/
def OfflineWriteQueue.dropForeign (q : OfflineWriteQueue)
    (userId : Option Id) : OfflineWriteQueue :=
  q.purge userId

/-- `drain` up to its first `await`: defer without an identity, purge what the
user does not own, then flush the head. -/
def OfflineWriteQueue.drain (q : OfflineWriteQueue)
    (currentUserId : Option Id) : OfflineWriteQueue × Option Ref :=
  match currentUserId with
  | none => (q, none)
  | some u => (q.purge (some u), (q.purge (some u)).ops.head?)

/-- `this.ops.shift(); this.persist()`: whatever is at the head goes. -/
def OfflineWriteQueue.shift (q : OfflineWriteQueue) : OfflineWriteQueue :=
  (q.withOps q.ops.tail (List.tail_sublist q.ops)).persist

/-- The continuation after `await flush(op)` resolved: shift, persist, and
around the loop again. -/
def OfflineWriteQueue.flushResolved (q : OfflineWriteQueue) :
    OfflineWriteQueue × Option Ref :=
  (q.shift, q.shift.ops.head?)

/-- `op.tries += 1` through the reference the drain holds. -/
def OfflineWriteQueue.countFailure (q : OfflineWriteQueue) (op : Ref) :
    OfflineWriteQueue :=
  { q with
    heap := Function.update q.heap op
      { q.heap op with tries := (q.heap op).tries + 1 } }

/-- The `catch` branch: a poison op is shifted out and the loop continues,
otherwise the drain ends. -/
def OfflineWriteQueue.flushRejected (q : OfflineWriteQueue) (op : Ref) :
    OfflineWriteQueue × Option Ref :=
  let q' := q.countFailure op
  if MAX_TRIES ≤ (q'.heap op).tries then
    (q'.shift, q'.shift.ops.head?)
  else
    (q'.persist, none)

/-- The continuation of a drain once the flush of `op` has settled. -/
def OfflineWriteQueue.settle (q : OfflineWriteQueue) (op : Ref) (resolved : Bool) :
    OfflineWriteQueue × Option Ref :=
  if resolved then q.flushResolved else q.flushRejected op

/-! ## What one operation does to the array and the objects

`ops` is the array, `heap` the objects, `next` the next reference; every operation but
`enqueue` leaves the last alone. -/

section Projections

variable (q : OfflineWriteQueue)

@[simp] theorem persist_ops : q.persist.ops = q.ops := rfl

@[simp] theorem shift_ops : q.shift.ops = q.ops.tail := rfl

@[simp] theorem enqueue_ops (op : EnqueueOp) (now : Int) :
    (q.enqueue op now).ops = q.others (op.full now) ++ [q.next] := rfl

@[simp] theorem enqueue_heap (op : EnqueueOp) (now : Int) :
    (q.enqueue op now).heap = Function.update q.heap q.next (op.full now) := rfl

/-- The ops that `enqueue` keeps are those for other targets, whoever owns them. -/
theorem mem_others {full : WriteOp} {r : Ref} :
    r ∈ q.others full ↔
      r ∈ q.ops ∧ (q.heap r).body.target ≠ full.body.target := by
  simp [OfflineWriteQueue.others, sameTarget]

/-- The ops that an identity keeps are those stamped with it. -/
theorem mem_ownedBy {userId : Option Id} {r : Ref} :
    r ∈ q.ownedBy userId ↔
      r ∈ q.ops ∧ userId ≠ none ∧ (q.heap r).userId = some userId := by
  cases userId <;> simp [OfflineWriteQueue.ownedBy]

@[simp] theorem purge_ops (userId : Option Id) :
    (q.purge userId).ops = q.ownedBy userId := by
  unfold OfflineWriteQueue.purge
  dsimp only
  split <;> rfl

@[simp] theorem purge_heap (userId : Option Id) :
    (q.purge userId).heap = q.heap := by
  unfold OfflineWriteQueue.purge
  dsimp only
  split <;> rfl

@[simp] theorem purge_next (userId : Option Id) :
    (q.purge userId).next = q.next := by
  unfold OfflineWriteQueue.purge
  dsimp only
  split <;> rfl

@[simp] theorem dropForeign_ops (userId : Option Id) :
    (q.dropForeign userId).ops = q.ownedBy userId := purge_ops q userId

@[simp] theorem dropForeign_heap (userId : Option Id) :
    (q.dropForeign userId).heap = q.heap := purge_heap q userId

@[simp] theorem dropForeign_next (userId : Option Id) :
    (q.dropForeign userId).next = q.next := purge_next q userId

/-- Without an identity a drain defers. -/
@[simp] theorem drain_none : q.drain none = (q, none) := rfl

/-- A drain of a user purges and flushes the first op that is left. -/
@[simp] theorem drain_some (u : Id) :
    q.drain (some u) = (q.purge (some u), (q.ownedBy (some u)).head?) := by
  simp [OfflineWriteQueue.drain]

@[simp] theorem drain_heap (userId : Option Id) :
    (q.drain userId).1.heap = q.heap := by
  cases userId <;> simp

@[simp] theorem drain_next (userId : Option Id) :
    (q.drain userId).1.next = q.next := by
  cases userId <;> simp

@[simp] theorem countFailure_ops (op : Ref) :
    (q.countFailure op).ops = q.ops := rfl

/-- A failure changes nothing about an object but its count. -/
@[simp] theorem countFailure_body (op r : Ref) :
    ((q.countFailure op).heap r).body = (q.heap r).body := by
  by_cases h : r = op
  · subst h; simp [OfflineWriteQueue.countFailure]
  · simp [OfflineWriteQueue.countFailure, Function.update_of_ne h]

@[simp] theorem countFailure_userId (op r : Ref) :
    ((q.countFailure op).heap r).userId = (q.heap r).userId := by
  by_cases h : r = op
  · subst h; simp [OfflineWriteQueue.countFailure]
  · simp [OfflineWriteQueue.countFailure, Function.update_of_ne h]

/-- A failure is counted on the object whose flush it is, wherever that stands by now. -/
theorem countFailure_tries (op r : Ref) :
    ((q.countFailure op).heap r).tries =
      (q.heap r).tries + if r = op then 1 else 0 := by
  by_cases h : r = op
  · subst h; simp [OfflineWriteQueue.countFailure]
  · simp [OfflineWriteQueue.countFailure, h]

end Projections

/-! ## The continuation of a drain

Both continuations either leave the array alone and end the drain, or shift
it and flush the next head; `Shifts` says which. -/

/-- The settlement of `op` makes the drain call `this.ops.shift()`. -/
def OfflineWriteQueue.Shifts (q : OfflineWriteQueue) (op : Ref) (resolved : Bool) : Prop :=
  resolved = true ∨ MAX_TRIES ≤ (q.heap op).tries + 1

instance (q : OfflineWriteQueue) (op : Ref) (resolved : Bool) :
    Decidable (q.Shifts op resolved) := by
  unfold OfflineWriteQueue.Shifts
  infer_instance

/-- The head is taken off and the next one is flushed. -/
theorem settle_of_shifts {q : OfflineWriteQueue} {op : Ref} {resolved : Bool}
    (h : q.Shifts op resolved) :
    (q.settle op resolved).1.ops = q.ops.tail ∧
      (q.settle op resolved).2 = q.ops.tail.head? := by
  cases resolved with
  | true => exact ⟨rfl, rfl⟩
  | false =>
      have hmax : MAX_TRIES ≤ ((q.countFailure op).heap op).tries := by
        simpa [OfflineWriteQueue.Shifts, countFailure_tries] using h
      simp [OfflineWriteQueue.settle, OfflineWriteQueue.flushRejected, hmax]

/-- The drain ends and leaves the array as it is. -/
theorem settle_of_not_shifts {q : OfflineWriteQueue} {op : Ref} {resolved : Bool}
    (h : ¬q.Shifts op resolved) :
    (q.settle op resolved).1.ops = q.ops ∧ (q.settle op resolved).2 = none := by
  cases resolved with
  | true => exact absurd (Or.inl rfl) h
  | false =>
      have hmax : ¬MAX_TRIES ≤ ((q.countFailure op).heap op).tries := by
        simpa [OfflineWriteQueue.Shifts, countFailure_tries] using h
      simp [OfflineWriteQueue.settle, OfflineWriteQueue.flushRejected, hmax]

@[simp] theorem settle_next (q : OfflineWriteQueue) (op : Ref) (resolved : Bool) :
    (q.settle op resolved).1.next = q.next := by
  cases resolved with
  | true => rfl
  | false =>
      simp only [OfflineWriteQueue.settle, OfflineWriteQueue.flushRejected, Bool.false_eq_true,
        if_false]
      split <;> rfl

/-- The objects after a settlement: only the failure count of `op` moves. -/
theorem settle_heap (q : OfflineWriteQueue) (op : Ref) (resolved : Bool) :
    (q.settle op resolved).1.heap =
      if resolved then q.heap else (q.countFailure op).heap := by
  cases resolved with
  | true => rfl
  | false =>
      simp only [OfflineWriteQueue.settle, OfflineWriteQueue.flushRejected, Bool.false_eq_true,
        if_false]
      split <;> rfl

@[simp] theorem settle_body (q : OfflineWriteQueue) (op r : Ref) (resolved : Bool) :
    ((q.settle op resolved).1.heap r).body = (q.heap r).body := by
  rw [settle_heap]
  split <;> simp

@[simp] theorem settle_userId (q : OfflineWriteQueue) (op r : Ref) (resolved : Bool) :
    ((q.settle op resolved).1.heap r).userId = (q.heap r).userId := by
  rw [settle_heap]
  split <;> simp

/-- Only a rejection of the op's own flush counts. -/
theorem settle_tries (q : OfflineWriteQueue) (op r : Ref) (resolved : Bool) :
    ((q.settle op resolved).1.heap r).tries =
      (q.heap r).tries + if r = op ∧ resolved = false then 1 else 0 := by
  rw [settle_heap]
  cases resolved <;> simp [countFailure_tries]

/-- A settlement never adds to the array. -/
theorem settle_ops_sublist (q : OfflineWriteQueue) (op : Ref) (resolved : Bool) :
    (q.settle op resolved).1.ops.Sublist q.ops := by
  by_cases h : q.Shifts op resolved
  · rw [(settle_of_shifts h).1]
    exact List.tail_sublist q.ops
  · rw [(settle_of_not_shifts h).1]

/-- What a drain hands to `flush` is in the array at that moment. -/
theorem drain_flush_mem {q : OfflineWriteQueue} {userId : Option Id} {r : Ref}
    (h : (q.drain userId).2 = some r) : r ∈ q.ops := by
  cases userId with
  | none => simp at h
  | some u =>
      simp only [drain_some] at h
      exact (ownedBy_sublist q (some u)).subset (List.mem_of_head? h)

/-- What a continued drain hands to `flush` is in the array it left. -/
theorem settle_flush_mem {q : OfflineWriteQueue} {op r : Ref} {resolved : Bool}
    (h : (q.settle op resolved).2 = some r) :
    r ∈ (q.settle op resolved).1.ops := by
  by_cases hshift : q.Shifts op resolved
  · rw [(settle_of_shifts hshift).2] at h
    rw [(settle_of_shifts hshift).1]
    exact List.mem_of_head? h
  · rw [(settle_of_not_shifts hshift).2] at h
    contradiction

end Komika.Offline.Queue
