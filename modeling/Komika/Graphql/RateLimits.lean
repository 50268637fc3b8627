import Komika.Lib.Lookup
import Komika.Lib.Machine
import Komika.Lib.SlidingWindow

/-!
# The rate limiter

`RateLimiter` of `graphql/mod.rs`, and the calls that ask it: `check`, which
`record_view` and `register` go through, and `login`.  An `Instant` and a
`Duration` are nanoseconds.

A call asks first and records later, in two critical sections; `login` verifies
a password in between.  The limiter prunes stamps wherever it meets them, and
what it drops is never live again, so for one key it answers as if it kept
every stamp of the key and no others: `view_step`.  But it counts the stamps
and not the calls that are yet to record theirs, so calls that ask together are
let in together.

* `isLimited_fst`, `live_isLimited`, `live_record`, `live_swept` — what each operation
  answers, and what it leaves of the stamps that may still count;
* `view_step`, `view_run` — for one key a run is a run of a limiter that keeps every
  stamp;
* `run_keyStep_filter` — the events of other keys do not matter;
* `bounded_act`, `bounded_run` — no more than `max` calls in a window, if none is let in
  on top of stamps and calls in flight;
* `limits_of_letsIn` — every run;
* `not_limits_together` — two calls that ask before either has recorded.
-/

namespace Komika.Graphql.RateLimits

open Komika.Lib Komika.Lib.Machine Komika.Lib.SlidingWindow

/-! ## The limiter

Two operations and a sweep; each drops stamps that have left the window. -/

/-- A key of the map, with its stamps. -/
structure Entry where
  key : String
  stamps : List Nat
deriving DecidableEq

instance : Keyed Entry := .ofKey Entry.key

instance : ByKey Entry String where
  key := Entry.key
  clash_iff _ _ := decide_eq_true_iff

@[simp] theorem key_entry (e : Entry) : key e = e.key := rfl

/-- `RateLimiter`, whose map has an entry for each key with a stamp. -/
structure RateLimiter where
  hits : Table Entry
  max : UInt32
  window : Nat

/-- `RateLimiter::new`: no stamp under any key, and the window in nanoseconds. -/
def new (max : UInt32) (windowSecs : Nat) : RateLimiter := ⟨.empty, max, windowSecs * 10 ^ 9⟩

/-- `v.retain(|t| now.duration_since(*t) < self.window)`. -/
def prune (window now : Nat) (e : Entry) : Entry := { e with stamps := live window now e.stamps }

theorem keepsKeys_prune (window now : Nat) : Table.KeepsKeys (prune window now) :=
  fun _ _ => rfl

/-- Whether the stamps that are still live are `max`, and the seconds to wait. -/
def answer (max : UInt32) (window now : Nat) (stamps : List Nat) : Option Nat :=
  let kept := live window now stamps
  if kept = [] then none
  else if max ≤ UInt32.ofNat kept.length then
    let oldest := kept.headD now
    some (Nat.max ((window - (now - oldest)) / 10 ^ 9) 1)
  else none

/-- `is_limited`: the answer, and the map with the stale stamps of the key
dropped. -/
def RateLimiter.isLimited (self : RateLimiter) (now : Nat) (key : String) :
    Option Nat × RateLimiter :=
  match self.hits.lookup key with
  | none => (none, self)
  | some entry =>
      (answer self.max self.window now entry.stamps,
        if live self.window now entry.stamps = [] then
          { self with hits := self.hits.deleteWhere fun e => e.key = key }
        else
          { self with
            hits := self.hits.update (fun e => e.key = key) (prune self.window now)
              (keepsKeys_prune _ _) })

/-- The sweep of a map of 4096 keys or more. -/
def RateLimiter.swept (self : RateLimiter) (now : Nat) : Table Entry :=
  if 4096 ≤ self.hits.rows.length then
    (self.hits.update (fun _ => true) (prune self.window now)
      (keepsKeys_prune _ _)).deleteWhere fun e => e.stamps = []
  else self.hits

/-- `entry.retain(..)` and `entry.push(now)`: the stamps that are still live, and one
more. -/
def pushNow (window now : Nat) (old _ : Entry) : Entry :=
  { old with stamps := live window now old.stamps ++ [now] }

theorem keepsKeys_pushNow (window now : Nat) (r : Entry) :
    Table.KeepsKeys (pushNow window now · r) := fun _ _ => rfl

/-- `record`: a stamp under the key; where the table has grown large, the dead entries
go first. -/
def RateLimiter.record (self : RateLimiter) (now : Nat) (key : String) : RateLimiter :=
  { self with
    hits := (self.swept now).upsert ⟨key, [now]⟩ (pushNow self.window now)
      (keepsKeys_pushNow _ _ _) }

/-- The stamps of a key. -/
def RateLimiter.stampsOf (self : RateLimiter) (key : String) : List Nat :=
  (self.hits.lookup key).elim [] Entry.stamps

section Limiter

variable {self : RateLimiter} {now later : Nat} {key k : String}

@[simp] theorem window_isLimited : (self.isLimited now key).2.window = self.window := by
  unfold RateLimiter.isLimited
  split <;> [skip; split] <;> rfl

@[simp] theorem max_isLimited : (self.isLimited now key).2.max = self.max := by
  unfold RateLimiter.isLimited
  split <;> [skip; split] <;> rfl

@[simp] theorem answer_nil {max : UInt32} {window : Nat} : answer max window now [] = none := rfl

/-- A refusal says to wait for a second at least. -/
theorem one_le_of_answer {max : UInt32} {window retry : Nat} {stamps : List Nat}
    (h : answer max window now stamps = some retry) : 1 ≤ retry := by
  unfold answer at h
  dsimp only at h
  split at h
  · cases h
  · split at h
    · cases h
      exact Nat.le_max_right _ _
    · cases h

/-- Whom the limiter lets in found less than `max` live stamps, unless there are
more than an `u32` counts. -/
theorem length_lt_of_answer {max : UInt32} {window : Nat} {stamps : List Nat}
    (h : answer max window now stamps = none) (hlen : (live window now stamps).length ≤ max.toNat)
    (hmax : 0 < max.toNat) : (live window now stamps).length < max.toNat := by
  unfold answer at h
  dsimp only at h
  split at h
  · next hnil => rw [hnil]; exact hmax
  · split at h
    · cases h
    · next hle =>
        have hfits : (live window now stamps).length < 2 ^ 32 :=
          hlen.trans_lt max.toNat_lt
        rw [UInt32.le_iff_toNat_le, UInt32.toNat_ofNat', Nat.mod_eq_of_lt hfits] at hle
        omega

/-- The answer depends on the stamps of the key alone. -/
theorem isLimited_fst :
    (self.isLimited now key).1 = answer self.max self.window now (self.stampsOf key) := by
  unfold RateLimiter.isLimited RateLimiter.stampsOf
  cases self.hits.lookup key <;> rfl

/-- Asking drops no stamp that can be live again, of any key. -/
theorem live_isLimited (h : now ≤ later) :
    live self.window later ((self.isLimited now key).2.stampsOf k) =
      live self.window later (self.stampsOf k) := by
  unfold RateLimiter.isLimited
  cases hkey : self.hits.lookup key with
  | none => rfl
  | some entry =>
      have hentry : entry.key = key := Table.key_of_lookup hkey
      by_cases hk : k = key
      · subst hk
        have hthen : live self.window later (live self.window now entry.stamps) =
            live self.window later entry.stamps := live_live h
        by_cases hnil : live self.window now entry.stamps = []
        · rw [hnil] at hthen
          simp [RateLimiter.stampsOf, Option.filter_some, hkey, hentry, hnil, ← hthen]
        · simp [RateLimiter.stampsOf, hkey, hentry, hnil, prune, hthen]
      · cases hother : self.hits.lookup k with
        | none => by_cases hnil : live self.window now entry.stamps = [] <;>
            simp [RateLimiter.stampsOf, hother, hnil]
        | some other =>
            have hne : other.key ≠ key :=
              fun heq => hk ((Table.key_of_lookup hother).symm.trans heq)
            by_cases hnil : live self.window now entry.stamps = [] <;>
              simp [RateLimiter.stampsOf, Option.filter_some, hother, hnil, hne]

/-- The sweep drops no stamp that can be live again. -/
theorem live_swept (h : now ≤ later) :
    live self.window later (((self.swept now).lookup k).elim [] Entry.stamps) =
      live self.window later (self.stampsOf k) := by
  unfold RateLimiter.swept RateLimiter.stampsOf
  split
  · cases hlookup : self.hits.lookup k with
    | none => simp [hlookup]
    | some entry =>
        have hthen : live self.window later (live self.window now entry.stamps) =
            live self.window later entry.stamps := live_live h
        by_cases hnil : live self.window now entry.stamps = []
        · rw [hnil] at hthen
          simp [Option.filter_some, hlookup, prune, hnil, ← hthen]
        · simp [Option.filter_some, hlookup, prune, hnil, hthen]
  · rfl

/-- Recording adds the stamp to its key. -/
theorem live_record (h : now ≤ later) :
    live self.window later ((self.record now key).stampsOf k) =
      live self.window later
        (if k = key then self.stampsOf k ++ [now] else self.stampsOf k) := by
  have hstep : (self.record now key).stampsOf k =
      if key = k then
        live self.window now (((self.swept now).lookup k).elim [] Entry.stamps) ++ [now]
      else ((self.swept now).lookup k).elim [] Entry.stamps := by
    unfold RateLimiter.record RateLimiter.stampsOf
    rw [Table.lookup_upsert]
    simp only [key_entry]
    split
    · cases (self.swept now).lookup k <;> rfl
    · rfl
  rw [hstep]
  by_cases hk : k = key
  · rw [if_pos hk.symm, if_pos hk, live_append, live_append, live_live h, live_swept h]
  · rw [if_neg (Ne.symm hk), if_neg hk, live_swept h]

end Limiter

/-! ## Calls

A call asks, may be refused, does its work, and records its stamp or not. -/

/-- What `login` reads of a `users` row. -/
structure User where
  passwordHash : String
  isBanned : Bool
deriving DecidableEq

/-- What `login` takes from `auth`: the check of a password, and a hash to check against
where there is no user. -/
structure LoginRules where
  /-- `auth::verify_password`. -/
  verifyPassword : String → String → Bool
  dummyPasswordHash : String

/-- `MAX_PASSWORD_LEN`, in bytes; a longer password is never hashed. -/
def maxPasswordLen : Nat := 1024

/-- `has_user && verified`: the hash is checked in any case, so that both answers take
as long. -/
def passwordOk (rules : LoginRules) (password : String) (row : Option User) : Bool :=
  row.isSome && rules.verifyPassword password (row.elim rules.dummyPasswordHash User.passwordHash)

/-- How far a call that was let in has come. -/
inductive Stage where
  /-- `check`, before `record`. -/
  | checked
  /-- `login`, after the password was refused for its length. -/
  | tooLong
  | admitted (password : String)
  | loaded (password : String) (row : Option User)
  /-- `login`, after a password was verified wrong. -/
  | failed
deriving DecidableEq

/-- A call that has asked and has not recorded yet. -/
structure Flight where
  call : Nat
  stage : Stage
deriving DecidableEq

/-- What a call answers. -/
inductive Response where
  | limited (retry : Nat)
  | admitted
  | passed
  | invalid
  | suspended
  | session
deriving DecidableEq

/-- The calls of one key, and what they have done. -/
structure Threads where
  flights : List Flight
  /-- The instants of every `record`. -/
  recorded : List Nat
  /-- The instants at which a `check` succeeded. -/
  passed : List Nat
  /-- The instants at which a wrong password was verified. -/
  verified : List Nat
  answers : List (Nat × Response)

/-- No call is in flight, and none has answered. -/
def Threads.idle : Threads := ⟨[], [], [], [], []⟩

/-- The next statement of a call, or its end. -/
inductive Action where
  | check (call : Nat)
  | login (call : Nat) (password : String)
  /-- The row that `login` reads. -/
  | load (call : Nat) (row : Option User)
  | verify (call : Nat)
  | record (call : Nat)
  /-- The read of the row or the task that hashes fails, and the call with it. -/
  | abort (call : Nat)

/-- The call, if it is in flight. -/
def Threads.flight? (t : Threads) (call : Nat) : Option Flight :=
  t.flights.find? fun f => f.call = call

/-- The stage of the call that this action starts by asking the limiter. -/
def Threads.entering (t : Threads) : Action → Option Flight
  | .check call => if (t.flight? call).isSome then none else some ⟨call, .checked⟩
  | .login call password =>
      if (t.flight? call).isSome then none
      else some ⟨call, if maxPasswordLen < password.utf8ByteSize then .tooLong
        else .admitted password⟩
  | _ => none

/-- The call goes to `record` next. -/
def Flight.records (f : Flight) : Bool :=
  match f.stage with
  | .checked | .tooLong | .failed => true
  | _ => false

/-- The call whose stamp this action records. -/
def Threads.recording (t : Threads) : Action → Option Flight
  | .record call => (t.flight? call).filter Flight.records
  | _ => none

/-- The call has been answered by the limiter. -/
def Threads.enter (t : Threads) (f : Flight) : Option Nat → Threads
  | some retry => { t with answers := t.answers ++ [(f.call, .limited retry)] }
  | none =>
      { t with
        flights := t.flights ++ [f]
        answers := t.answers ++ [(f.call, .admitted)] }

/-- The call has recorded its stamp and ends. -/
def Threads.close (t : Threads) (now : Nat) (f : Flight) : Threads :=
  { t with
    flights := t.flights.erase f
    recorded := t.recorded ++ [now]
    passed := if f.stage = .checked then t.passed ++ [now] else t.passed
    answers := t.answers ++ [(f.call, if f.stage = .checked then .passed else .invalid)] }

/-- The steps of a call that do not touch the limiter. -/
def Threads.advance (rules : LoginRules) (now : Nat) (t : Threads) (f : Flight) : Action → Threads
  | .load _ row =>
      match f.stage with
      | .admitted password =>
          { t with flights := t.flights.erase f ++ [⟨f.call, .loaded password row⟩] }
      | _ => t
  | .verify _ =>
      match f.stage with
      | .loaded password row =>
          if passwordOk rules password row then
            { t with
              flights := t.flights.erase f
              answers := t.answers ++
                [(f.call, if row.any User.isBanned then .suspended else .session)] }
          else
            { t with
              flights := t.flights.erase f ++ [⟨f.call, .failed⟩]
              verified := t.verified ++ [now] }
      | _ => t
  | .abort _ =>
      match f.stage with
      | .admitted _ | .loaded _ _ => { t with flights := t.flights.erase f }
      | _ => t
  | _ => t

/-- The call that the action belongs to. -/
def Action.call : Action → Nat
  | .check call | .login call _ | .load call _ | .verify call | .record call | .abort call => call

/-- What an action makes of the calls of its key, given the answer of the
limiter where it asks. -/
def Threads.act (rules : LoginRules) (now : Nat) (limited : Option Nat) (t : Threads)
    (a : Action) : Threads :=
  match t.entering a with
  | some f => t.enter f limited
  | none =>
      match t.recording a with
      | some f => t.close now f
      | none =>
          match t.flight? a.call with
          | some f => t.advance rules now f a
          | none => t

/-! ## Runs

Calls of any keys, in any order, and time. -/

/-- The limiter, the clock, and the calls by key. -/
structure State where
  limiter : RateLimiter
  now : Nat
  threads : String → Threads

/-- No call has come yet. -/
def start (limiter : RateLimiter) : State := ⟨limiter, 0, fun _ => .idle⟩

/-- Time that goes by, or a call under a key: one that begins, or one that goes on. -/
inductive Event where
  | tick (elapsed : Nat)
  | act (key : String) (a : Action)
  | recordView (clientIp seriesId : String) (call : Nat)
  | login (clientIp : String) (call : Nat) (password : String)

/-- `MAX_SERIES_ID_LEN`, in bytes; a longer id is refused before it is a key. -/
def maxSeriesIdLen : Nat := 64

/-- The key that `record_view` checks, if it does not refuse the id. -/
def viewKey (clientIp seriesId : String) : Except String String :=
  if seriesId = "" ∨ maxSeriesIdLen < seriesId.utf8ByteSize then .error "invalid seriesId"
  else .ok ("view:" ++ clientIp ++ ":" ++ seriesId)

/-- The key that `login` asks for. -/
def loginKey (clientIp : String) : String := "login:" ++ clientIp

/-- The key and the action of an event, where it has one. -/
def Event.target : Event → Option (String × Action)
  | .tick _ => none
  | .act key a => some (key, a)
  | .recordView clientIp seriesId call =>
      (viewKey clientIp seriesId).toOption.map fun key => (key, .check call)
  | .login clientIp call password => some (loginKey clientIp, .login call password)

/-- How much time goes by. -/
def Event.elapsed : Event → Nat
  | .tick elapsed => elapsed
  | _ => 0

/-- What the limiter answers the action, and what becomes of it. -/
def State.consult (s : State) (key : String) (a : Action) : Option Nat × RateLimiter :=
  if ((s.threads key).entering a).isSome then s.limiter.isLimited s.now key
  else if ((s.threads key).recording a).isSome then (none, s.limiter.record s.now key)
  else (none, s.limiter)

/-- An action of a call, which asks the limiter and takes its place among the calls of
its key. -/
def State.on (rules : LoginRules) (s : State) (key : String) (a : Action) : State :=
  { s with
    limiter := (s.consult key a).2
    threads := Function.update s.threads key
      ((s.threads key).act rules s.now (s.consult key a).1 a) }

/-- The state after an event. -/
def step (rules : LoginRules) (s : State) (e : Event) : State :=
  match e.target with
  | some (key, a) => s.on rules key a
  | none => { s with now := s.now + e.elapsed }

/-! ## One key

The limiter with its pruning is compared with one that forgets nothing. -/

/-- The calls of one key, with the clock. -/
structure KeyState where
  now : Nat
  threads : Threads

/-- What the state shows of one key. -/
def State.view (key : String) (s : State) : KeyState := ⟨s.now, s.threads key⟩

/-- The answer of a limiter that has dropped no stamp of the key, and knows of no
other key. -/
def KeyState.limited (max : UInt32) (window : Nat) (s : KeyState) (a : Action) : Option Nat :=
  if (s.threads.entering a).isSome then answer max window s.now s.threads.recorded else none

/-- What an event does to one key, with a limiter that keeps every stamp. -/
def keyStep (rules : LoginRules) (max : UInt32) (window : Nat) (key : String) (s : KeyState)
    (e : Event) : KeyState :=
  match e.target with
  | some (k, a) =>
      if k = key then
        { s with threads := s.threads.act rules s.now (s.limited max window a) a }
      else s
  | none => { s with now := s.now + e.elapsed }

/-- The event is of no other key. -/
def Event.concerns (key : String) (e : Event) : Bool := e.target.all fun t => t.1 = key

section Act

variable {rules : LoginRules} {now : Nat} {limited : Option Nat} {t : Threads} {a : Action}

/-- What an action can make of the calls of its key. -/
theorem act_cases {P : Threads → Prop} (hstay : P t)
    (henter : ∀ f, t.entering a = some f → P (t.enter f limited))
    (hclose : ∀ f ∈ t.flights, f.records = true → P (t.close now f))
    (hload : ∀ f ∈ t.flights, ∀ password row, f.stage = .admitted password →
      P { t with flights := t.flights.erase f ++ [⟨f.call, .loaded password row⟩] })
    (hright : ∀ f ∈ t.flights, f.stage ≠ .failed → ∀ r, (∀ retry, r ≠ .limited retry) →
      P { t with flights := t.flights.erase f, answers := t.answers ++ [(f.call, r)] })
    (hwrong : ∀ f ∈ t.flights, ∀ password row, f.stage = .loaded password row →
      P { t with
          flights := t.flights.erase f ++ [⟨f.call, .failed⟩]
          verified := t.verified ++ [now] })
    (habort : ∀ f ∈ t.flights, f.stage ≠ .failed → P { t with flights := t.flights.erase f }) :
    P (t.act rules now limited a) := by
  have hmem : ∀ {call f}, t.flight? call = some f → f ∈ t.flights := List.mem_of_find?_eq_some
  unfold Threads.act
  cases hentering : t.entering a with
  | some f => exact henter f hentering
  | none =>
      cases hrecording : t.recording a with
      | some f =>
          cases a with
          | record call =>
              obtain ⟨hf, hrecords⟩ := Option.filter_eq_some_iff.mp hrecording
              exact hclose f (hmem hf) hrecords
          | _ => cases hrecording
      | none =>
          cases hflight : t.flight? a.call with
          | none => exact hstay
          | some f =>
              have hf := hmem hflight
              cases a with
              | load call row =>
                  show P (t.advance rules now f (.load call row))
                  unfold Threads.advance
                  cases hstage : f.stage with
                  | admitted password => exact hload f hf password row hstage
                  | _ => exact hstay
              | verify call =>
                  show P (t.advance rules now f (.verify call))
                  unfold Threads.advance
                  cases hstage : f.stage with
                  | loaded password row =>
                      dsimp only
                      split
                      · refine hright f hf (by rw [hstage]; nofun) _ fun retry => ?_
                        split <;> nofun
                      · exact hwrong f hf password row hstage
                  | _ => exact hstay
              | abort call =>
                  show P (t.advance rules now f (.abort call))
                  unfold Threads.advance
                  cases hstage : f.stage with
                  | admitted => exact habort f hf (by rw [hstage]; nofun)
                  | loaded => exact habort f hf (by rw [hstage]; nofun)
                  | _ => exact hstay
              | _ => exact hstay

/-- Only `record` adds a stamp. -/
theorem recorded_act :
    (t.act rules now limited a).recorded =
      if (t.entering a).isSome then t.recorded
      else if (t.recording a).isSome then t.recorded ++ [now]
      else t.recorded := by
  cases hentering : t.entering a with
  | some f => cases limited <;> simp [Threads.act, hentering, Threads.enter]
  | none =>
      cases hrecording : t.recording a with
      | some f => simp [Threads.act, hentering, hrecording, Threads.close]
      | none =>
          have hsame : (t.act rules now limited a).recorded = t.recorded := by
            unfold Threads.act
            rw [hentering, hrecording]
            cases t.flight? a.call with
            | none => rfl
            | some f =>
                cases a with
                | load => cases hstage : f.stage <;> simp [Threads.advance, hstage]
                | abort => cases hstage : f.stage <;> simp [Threads.advance, hstage]
                | verify =>
                    cases hstage : f.stage <;> simp only [Threads.advance, hstage]
                    split <;> rfl
                | _ => rfl
          simp [hsame]

end Act

/-- Where no stamp that is live now was dropped, and none is live that was not
recorded. -/
def Agrees (s : State) : Prop :=
  ∀ key later, s.now ≤ later →
    live s.limiter.window later (s.limiter.stampsOf key) =
      live s.limiter.window later (s.threads key).recorded

section Refinement

variable {rules : LoginRules} {s : State} {e : Event} {key k : String} {a : Action}

theorem consult_window : (s.consult key a).2.window = s.limiter.window := by
  unfold State.consult
  split
  · exact window_isLimited
  · split <;> rfl

theorem consult_max : (s.consult key a).2.max = s.limiter.max := by
  unfold State.consult
  split
  · exact max_isLimited
  · split <;> rfl

theorem answer_congr {max : UInt32} {window now : Nat} {xs ys : List Nat}
    (h : live window now xs = live window now ys) :
    answer max window now xs = answer max window now ys := by
  unfold answer
  rw [h]

/-- The limiter answers from the log of the key. -/
theorem consult_fst (h : Agrees s) :
    (s.consult key a).1 = (s.view key).limited s.limiter.max s.limiter.window a := by
  unfold State.consult KeyState.limited State.view
  dsimp only
  split
  · rw [isLimited_fst]
    exact answer_congr (h key s.now le_rfl)
  · split <;> rfl

/-- An action touches the calls of its key and no others. -/
theorem view_on (h : Agrees s) :
    (s.on rules key a).view k =
      if key = k then
        { s.view k with
          threads := (s.view k).threads.act rules s.now
            ((s.view k).limited s.limiter.max s.limiter.window a) a }
      else s.view k := by
  by_cases hk : key = k
  · subst hk
    rw [if_pos rfl, ← consult_fst h]
    simp [State.on, State.view]
  · simp [State.on, State.view, hk, Function.update_of_ne (Ne.symm hk)]

/-- The step lemma: pruning is not seen. -/
theorem view_step (h : Agrees s) :
    (step rules s e).view k = keyStep rules s.limiter.max s.limiter.window k (s.view k) e := by
  unfold step keyStep
  cases e.target with
  | none => rfl
  | some target =>
      obtain ⟨key, a⟩ := target
      exact view_on h

theorem limiter_step :
    (step rules s e).limiter.max = s.limiter.max ∧
      (step rules s e).limiter.window = s.limiter.window := by
  unfold step
  cases e.target with
  | none => exact ⟨rfl, rfl⟩
  | some target => exact ⟨consult_max, consult_window⟩

/-- The stamps that the limiter keeps are those of the log that may still count. -/
theorem agrees_step (h : Agrees s) : Agrees (step rules s e) := by
  intro k later hlater
  rw [limiter_step.2]
  unfold step at hlater ⊢
  cases htarget : e.target with
  | none =>
      rw [htarget] at hlater
      dsimp only at hlater ⊢
      exact h k later (by omega)
  | some target =>
      obtain ⟨key, a⟩ := target
      rw [htarget] at hlater
      have hnow : s.now ≤ later := hlater
      have hthreads : ((s.on rules key a).threads k).recorded =
          if key = k then ((s.threads k).act rules s.now (s.consult key a).1 a).recorded
          else (s.threads k).recorded := by
        by_cases hk : key = k
        · subst hk
          simp [State.on]
        · simp [State.on, hk, Function.update_of_ne (Ne.symm hk)]
      show live _ later ((s.consult key a).2.stampsOf k) = live _ later _
      rw [hthreads, recorded_act]
      unfold State.consult
      by_cases hentering : ((s.threads key).entering a).isSome = true
      · rw [if_pos hentering, live_isLimited hnow, h k later hnow]
        split
        · next hk => rw [← hk, if_pos hentering]
        · rfl
      · rw [if_neg hentering]
        by_cases hrecording : ((s.threads key).recording a).isSome = true
        · rw [if_pos hrecording, live_record hnow]
          by_cases hk : key = k
          · subst hk
            rw [if_pos rfl, if_pos rfl, if_neg hentering, if_pos hrecording, live_append,
              live_append, h key later hnow]
          · rw [if_neg (Ne.symm hk), if_neg hk]
            exact h k later hnow
        · rw [if_neg hrecording, h k later hnow]
          split
          · next hk => rw [← hk, if_neg hentering, if_neg hrecording]
          · rfl

theorem agrees_start (limiter : RateLimiter) (hempty : limiter.hits = .empty) :
    Agrees (start limiter) := by
  intro key later _
  simp [start, RateLimiter.stampsOf, hempty, Threads.idle]

/-- For one key, a run is a run of the limiter that keeps every stamp. -/
theorem view_run (h : Agrees s) (events : List Event) :
    (run (step rules) s events).view k =
      run (keyStep rules s.limiter.max s.limiter.window k) (s.view k) events := by
  induction events generalizing s with
  | nil => rfl
  | cons e es ih =>
      rw [run_cons, run_cons, ih (agrees_step h), view_step h, limiter_step.1, limiter_step.2]

theorem keyStep_of_not_concerns {max : UInt32} {window : Nat} {v : KeyState}
    (h : e.concerns k = false) : keyStep rules max window k v e = v := by
  unfold Event.concerns at h
  unfold keyStep
  cases htarget : e.target with
  | none => simp [htarget] at h
  | some target =>
      rw [htarget, Option.all_some, decide_eq_false_iff_not] at h
      exact if_neg h

/-- For one key, the events of the others are as if they were not there. -/
theorem run_keyStep_filter {max : UInt32} {window : Nat} (v : KeyState) (events : List Event) :
    run (keyStep rules max window k) v events =
      run (keyStep rules max window k) v (events.filter (Event.concerns k)) := by
  induction events generalizing v with
  | nil => rfl
  | cons e es ih =>
      by_cases hconcerns : e.concerns k = true
      · rw [List.filter_cons_of_pos hconcerns, run_cons, run_cons, ih]
      · rw [List.filter_cons_of_neg hconcerns, run_cons,
          keyStep_of_not_concerns (Bool.not_eq_true _ ▸ hconcerns), ih]

end Refinement

/-! ## The log of a key

Bounds on the stamps and on the calls in flight, which every action keeps. -/

/-- The calls that have verified a wrong password and not recorded it. -/
def failing (flights : List Flight) : Nat := flights.countP fun f => f.stage = .failed

/-- What holds of the log of a key in every run. -/
structure Logged (s : KeyState) : Prop where
  recorded_le : ∀ x ∈ s.threads.recorded, x ≤ s.now
  verified_le : ∀ x ∈ s.threads.verified, x ≤ s.now
  passed : s.threads.passed.Sublist s.threads.recorded
  /-- A wrong password is recorded, or its call is yet to record it. -/
  covers : Covers s.threads.recorded (failing s.threads.flights) s.threads.verified
  retry : ∀ call retry, (call, Response.limited retry) ∈ s.threads.answers → 1 ≤ retry

/-- The stamps that are live and the calls in flight together are `cap` at
most. -/
structure Bounded (cap w : Nat) (s : KeyState) : Prop where
  crowd : (live w s.now s.threads.recorded).length + s.threads.flights.length ≤ cap
  recorded : Within w cap s.threads.recorded
  verified : Within w cap s.threads.verified

/-- Where fewer stamps than `cap` are live when a call asks, the calls in flight
do not make up for it. -/
def Uncrowded (cap w : Nat) (s : KeyState) (a : Action) : Prop :=
  (s.threads.entering a).isSome = true →
    (live w s.now s.threads.recorded).length < cap →
      (live w s.now s.threads.recorded).length + s.threads.flights.length < cap

section Log

variable {rules : LoginRules} {max : UInt32} {w : Nat} {s : KeyState} {a : Action}

theorem failing_cons_erase {flights : List Flight} {f : Flight} (hf : f ∈ flights) :
    failing (f :: flights.erase f) = failing flights :=
  ((List.perm_cons_erase hf).countP_eq _).symm

/-- A call that has recorded its wrong password is one less to do so. -/
theorem failing_erase_failed {flights : List Flight} {f : Flight} (hf : f ∈ flights)
    (hstage : f.stage = .failed) : failing (flights.erase f) + 1 = failing flights := by
  rw [← failing_cons_erase hf]
  simp [failing, hstage]

theorem failing_erase {flights : List Flight} {f : Flight} (hf : f ∈ flights)
    (hstage : f.stage ≠ .failed) : failing (flights.erase f) = failing flights := by
  rw [← failing_cons_erase hf]
  simp [failing, hstage]

theorem failing_concat (flights : List Flight) (f : Flight) :
    failing (flights ++ [f]) = failing flights + (if f.stage = .failed then 1 else 0) := by
  simp [failing, List.countP_append, List.countP_cons]

theorem failing_lt {flights : List Flight} {f : Flight} (hf : f ∈ flights)
    (hstage : f.stage ≠ .failed) : failing flights < flights.length := by
  have hle : failing (flights.erase f) ≤ (flights.erase f).length := List.countP_le_length
  have hrest := failing_erase hf hstage
  have hlen := List.length_erase_of_mem hf
  have hpos := List.length_pos_of_mem hf
  omega

theorem length_erase_concat {flights : List Flight} {f : Flight} (hf : f ∈ flights)
    (g : Flight) : (flights.erase f ++ [g]).length = flights.length := by
  have hpos := List.length_pos_of_mem hf
  simp [List.length_erase_of_mem hf]
  omega

theorem le_now_concat {now : Nat} {stamps : List Nat} (h : ∀ x ∈ stamps, x ≤ now) :
    ∀ x ∈ stamps ++ [now], x ≤ now := by
  intro x hx
  rcases List.mem_append.mp hx with hx | hx
  · exact h x hx
  · rw [List.mem_singleton.mp hx]

theorem logged_act (h : Logged s) :
    Logged { s with threads := s.threads.act rules s.now (s.limited max w a) a } := by
  obtain ⟨hrec, hver, hpass, hcov, hretry⟩ := h
  have hanswers : ∀ call r, (∀ retry, r ≠ Response.limited retry) →
      ∀ c retry, (c, Response.limited retry) ∈ s.threads.answers ++ [(call, r)] → 1 ≤ retry := by
    intro call r hr c retry hmem
    rw [List.mem_append, List.mem_singleton] at hmem
    rcases hmem with hmem | hmem
    · exact hretry c retry hmem
    · exact absurd (congrArg Prod.snd hmem).symm (hr retry)
  apply act_cases (P := fun t => Logged { s with threads := t })
  case hstay => exact ⟨hrec, hver, hpass, hcov, hretry⟩
  case henter =>
    intro f hf
    have hlimited : s.limited max w a = answer max w s.now s.threads.recorded := by
      unfold KeyState.limited
      rw [hf]
      rfl
    cases hanswer : s.limited max w a with
    | none =>
        refine ⟨hrec, hver, hpass, ?_, hanswers f.call .admitted nofun⟩
        show Covers _ (failing (s.threads.flights ++ [f])) _
        exact hcov.mono (by rw [failing_concat]; omega)
    | some retry =>
        refine ⟨hrec, hver, hpass, hcov, ?_⟩
        intro c r hmem
        rcases List.mem_append.mp hmem with hmem | hmem
        · exact hretry c r hmem
        · cases List.mem_singleton.mp hmem
          exact one_le_of_answer (hlimited.symm.trans hanswer)
  case hclose =>
    intro f hf _
    refine ⟨le_now_concat hrec, hver, ?_, ?_, ?_⟩
    · show (if f.stage = .checked then s.threads.passed ++ [s.now]
        else s.threads.passed).Sublist (s.threads.recorded ++ [s.now])
      split
      · exact hpass.append (List.Sublist.refl _)
      · exact hpass.trans (List.sublist_append_left _ _)
    · show Covers (s.threads.recorded ++ [s.now]) (failing (s.threads.flights.erase f)) _
      by_cases hstage : f.stage = .failed
      · rw [← failing_erase_failed hf hstage] at hcov
        exact hcov.follow hver
      · rw [failing_erase hf hstage]
        exact hcov.append _
    · exact hanswers f.call _ fun retry => by split <;> nofun
  case hload =>
    intro f hf password row hstage
    refine ⟨hrec, hver, hpass, ?_, hretry⟩
    have hcount := failing_erase hf (by rw [hstage]; nofun)
    show Covers _ (failing (s.threads.flights.erase f ++ [⟨f.call, .loaded password row⟩])) _
    rw [failing_concat, hcount]
    exact hcov
  case hright =>
    intro f hf hstage r hr
    refine ⟨hrec, hver, hpass, ?_, hanswers f.call r hr⟩
    show Covers _ (failing (s.threads.flights.erase f)) _
    rw [failing_erase hf hstage]
    exact hcov
  case hwrong =>
    intro f hf password row hstage
    refine ⟨hrec, le_now_concat hver, hpass, ?_, hretry⟩
    have hcount := failing_erase hf (by rw [hstage]; nofun)
    show Covers _ (failing (s.threads.flights.erase f ++ [⟨f.call, .failed⟩])) _
    rw [failing_concat, if_pos rfl, hcount]
    exact hcov.concat s.now
  case habort =>
    intro f hf hstage
    refine ⟨hrec, hver, hpass, ?_, hretry⟩
    show Covers _ (failing (s.threads.flights.erase f)) _
    rw [failing_erase hf hstage]
    exact hcov

/-- A call that is let in is one of less than `cap` in the window or in flight,
and so is every stamp and every wrong password after it. -/
theorem bounded_act (hmax : 0 < max.toNat) (hlog : Logged s) (h : Bounded max.toNat w s)
    (huncrowded : Uncrowded max.toNat w s a) :
    Bounded max.toNat w
      { s with threads := s.threads.act rules s.now (s.limited max w a) a } := by
  obtain ⟨hcrowd, hrec, hver⟩ := h
  have hshrink : ∀ {f}, f ∈ s.threads.flights →
      (live w s.now s.threads.recorded).length + (s.threads.flights.erase f).length ≤
        max.toNat := by
    intro f hf
    have := List.length_erase_of_mem hf
    omega
  apply act_cases (P := fun t => Bounded max.toNat w { s with threads := t })
  case hstay => exact ⟨hcrowd, hrec, hver⟩
  case henter =>
    intro f hf
    cases hanswer : s.limited max w a with
    | some retry => exact ⟨hcrowd, hrec, hver⟩
    | none =>
        have hentering : (s.threads.entering a).isSome = true := by rw [hf]; rfl
        have hnone : answer max w s.now s.threads.recorded = none := by
          rw [← hanswer, KeyState.limited, if_pos hentering]
        refine ⟨?_, hrec, hver⟩
        show (live w s.now s.threads.recorded).length + (s.threads.flights ++ [f]).length ≤ _
        rw [List.length_append, List.length_singleton]
        have hlive := length_lt_of_answer hnone (by omega) hmax
        have := huncrowded hentering hlive
        omega
  case hclose =>
    intro f hf _
    have hpos := List.length_pos_of_mem hf
    have herase := List.length_erase_of_mem hf
    refine ⟨?_, hrec.concat (by omega), hver⟩
    show (live w s.now (s.threads.recorded ++ [s.now])).length +
      (s.threads.flights.erase f).length ≤ _
    have hadd : (live w s.now (s.threads.recorded ++ [s.now])).length ≤
        (live w s.now s.threads.recorded).length + 1 := length_live_concat_le
    omega
  case hload =>
    intro f hf password row _
    refine ⟨?_, hrec, hver⟩
    show _ + (s.threads.flights.erase f ++ [_]).length ≤ _
    rw [length_erase_concat hf]
    exact hcrowd
  case hright => exact fun f hf _ _ _ => ⟨hshrink hf, hrec, hver⟩
  case hwrong =>
    intro f hf password row hstage
    refine ⟨?_, hrec, ?_⟩
    · show _ + (s.threads.flights.erase f ++ [_]).length ≤ _
      rw [length_erase_concat hf]
      exact hcrowd
    · have hbehind : (live w s.now s.threads.verified).length ≤
          (live w s.now s.threads.recorded).length + failing s.threads.flights :=
        hlog.covers.length_live_le
      have hfailing : failing s.threads.flights < s.threads.flights.length :=
        failing_lt hf (by rw [hstage]; nofun)
      exact hver.concat (by omega)
  case habort => exact fun f hf _ => ⟨hshrink hf, hrec, hver⟩

theorem logged_tick (h : Logged s) (elapsed : Nat) : Logged { s with now := s.now + elapsed } where
  recorded_le x hx := (h.recorded_le x hx).trans (Nat.le_add_right _ _)
  verified_le x hx := (h.verified_le x hx).trans (Nat.le_add_right _ _)
  passed := h.passed
  covers := h.covers
  retry := h.retry

theorem bounded_tick {cap : Nat} (h : Bounded cap w s) (elapsed : Nat) :
    Bounded cap w { s with now := s.now + elapsed } where
  crowd := by
    have hage : (live w (s.now + elapsed) s.threads.recorded).length ≤
        (live w s.now s.threads.recorded).length := length_live_anti (Nat.le_add_right _ _)
    have := h.crowd
    show (live w (s.now + elapsed) s.threads.recorded).length + s.threads.flights.length ≤ cap
    omega
  recorded := h.recorded
  verified := h.verified

end Log

/-! ## Every run

The bounds hold in every state, so every answer is the right one. -/

/-- No call is let in on top of calls that have yet to record their stamp. -/
def LetsIn (s : State) (e : Event) : Prop :=
  match e.target with
  | some (key, a) => Uncrowded s.limiter.max.toNat s.limiter.window (s.view key) a
  | none => True

instance (cap w : Nat) (s : KeyState) (a : Action) : Decidable (Uncrowded cap w s a) :=
  inferInstanceAs (Decidable (_ → _ → _))

instance (s : State) (e : Event) : Decidable (LetsIn s e) :=
  match h : e.target with
  | some (key, a) =>
      decidable_of_iff (Uncrowded s.limiter.max.toNat s.limiter.window (s.view key) a)
        (by rw [LetsIn, h])
  | none => .isTrue (by rw [LetsIn, h]; trivial)

section Runs

variable {rules : LoginRules} {s : State} {e : Event}

theorem logged_step (hagrees : Agrees s) (h : ∀ key, Logged (s.view key)) (key : String) :
    Logged ((step rules s e).view key) := by
  rw [view_step hagrees, keyStep]
  cases e.target with
  | none => exact logged_tick (h key) _
  | some target =>
      dsimp only
      split
      · exact logged_act (h key)
      · exact h key

theorem bounded_step (hagrees : Agrees s) (hmax : 0 < s.limiter.max.toNat)
    (hlog : ∀ key, Logged (s.view key))
    (h : ∀ key, Bounded s.limiter.max.toNat s.limiter.window (s.view key))
    (hletsIn : LetsIn s e) (key : String) :
    Bounded s.limiter.max.toNat s.limiter.window ((step rules s e).view key) := by
  unfold LetsIn at hletsIn
  rw [view_step hagrees, keyStep]
  cases htarget : e.target with
  | none => exact bounded_tick (h key) _
  | some target =>
      obtain ⟨k, a⟩ := target
      rw [htarget] at hletsIn
      by_cases hk : k = key
      · subst hk
        dsimp only
        rw [if_pos rfl]
        exact bounded_act hmax (hlog k) (h k) hletsIn
      · dsimp only
        rw [if_neg hk]
        exact h key

/-- What every run keeps. -/
structure Sound (limiter : RateLimiter) (s : State) : Prop where
  agrees : Agrees s
  max : s.limiter.max = limiter.max
  window : s.limiter.window = limiter.window
  logged : ∀ key, Logged (s.view key)

theorem sound_start {limiter : RateLimiter} (hempty : limiter.hits = .empty) :
    Sound limiter (start limiter) where
  agrees := agrees_start limiter hempty
  max := rfl
  window := rfl
  logged _ :=
    { recorded_le := nofun
      verified_le := nofun
      passed := List.Sublist.refl _
      covers := covers_nil
      retry := nofun }

theorem sound_step {limiter : RateLimiter} (h : Sound limiter s) :
    Sound limiter (step rules s e) where
  agrees := agrees_step h.agrees
  max := limiter_step.1.trans h.max
  window := limiter_step.2.trans h.window
  logged := logged_step h.agrees h.logged

/-- The run lemma, for any key. -/
theorem bounded_run {limiter : RateLimiter} (hempty : limiter.hits = .empty)
    (hmax : 0 < limiter.max.toNat) {events : List Event}
    (hletsIn : EachStep (step rules) LetsIn (start limiter) events) (key : String) :
    Bounded limiter.max.toNat limiter.window
      ((run (step rules) (start limiter) events).view key) := by
  have hkeeps : ∀ s e, (Sound limiter s ∧
      ∀ key, Bounded limiter.max.toNat limiter.window (s.view key)) → LetsIn s e →
      (Sound limiter (step rules s e) ∧
        ∀ key, Bounded limiter.max.toNat limiter.window ((step rules s e).view key)) := by
    intro s e ⟨hsound, hbounded⟩ hstep
    refine ⟨sound_step hsound, ?_⟩
    rw [← hsound.max, ← hsound.window] at hbounded ⊢
    exact bounded_step hsound.agrees (hsound.max ▸ hmax) hsound.logged hbounded hstep
  have hstart : ∀ key, Bounded limiter.max.toNat limiter.window ((start limiter).view key) :=
    fun _ =>
      { crowd := Nat.zero_le _
        recorded := within_nil
        verified := within_nil }
  exact (run_invariant_of_each hkeeps ⟨sound_start hempty, hstart⟩ hletsIn).2 key

end Runs

/-- A run of a fresh limiter. -/
def final (rules : LoginRules) (max : UInt32) (windowSecs : Nat) (events : List Event) : State :=
  run (step rules) (start (new max windowSecs)) events

/-- What the limiter is for. -/
structure Limits (rules : LoginRules) (max : UInt32) (windowSecs : Nat) (events : List Event) :
    Prop where
  /-- No interval of the length of the window has more than `max` checks that
  succeed. -/
  checks : ∀ key, Within (windowSecs * 10 ^ 9) max.toNat
    ((final rules max windowSecs events).threads key).passed
  retry : ∀ key call retry, (call, .limited retry) ∈
    ((final rules max windowSecs events).threads key).answers → 1 ≤ retry
  /-- Without the calls for other keys, the answers are the same. -/
  isolated : ∀ key, ((final rules max windowSecs events).threads key).answers =
    ((final rules max windowSecs (events.filter (Event.concerns key))).threads key).answers
  /-- Nor more than `max` wrong passwords that are verified. -/
  logins : ∀ key, Within (windowSecs * 10 ^ 9) max.toNat
    ((final rules max windowSecs events).threads key).verified

/-- **The limiter limits.**  In every run that lets no call in on top of `max` stamps
and calls in flight: no window has more than `max` checks that succeed or wrong
passwords that are verified, an answer names at least one second to wait, and no key
sees the calls for another. -/
theorem limits_of_letsIn (rules : LoginRules) {max : UInt32} (windowSecs : Nat)
    {events : List Event} (hmax : 1 ≤ max)
    (hletsIn : EachStep (step rules) LetsIn (start (new max windowSecs)) events) :
    Limits rules max windowSecs events := by
  have hpos : 0 < max.toNat := UInt32.le_iff_toNat_le.mp hmax
  have hstart : Sound (new max windowSecs) (start (new max windowSecs)) := sound_start rfl
  have hsound : Sound (new max windowSecs) (final rules max windowSecs events) :=
    run_invariant (fun _ _ => sound_step) hstart events
  have hbounded : ∀ key, Bounded max.toNat (windowSecs * 10 ^ 9)
      ((final rules max windowSecs events).view key) := bounded_run rfl hpos hletsIn
  refine ⟨?_, ?_, ?_, ?_⟩
  · intro key
    exact (hbounded key).recorded.sublist (hsound.logged key).passed
  · intro key
    exact (hsound.logged key).retry
  · intro key
    have hview : (final rules max windowSecs events).view key =
        (final rules max windowSecs (events.filter (Event.concerns key))).view key := by
      unfold final
      rw [view_run hstart.agrees, view_run hstart.agrees]
      exact run_keyStep_filter _ _
    exact congrArg (fun v => v.threads.answers) hview
  · intro key
    exact (hbounded key).verified

/-- Hashes that are the passwords themselves. -/
def plainLogin : LoginRules := ⟨fun password phc => password = phc, "!"⟩

/-- One call a minute: it passes, the next is refused, and a minute later a wrong
password is verified and the next login refused. -/
def oneAMinute : List Event :=
  [.act "k" (.check 0), .act "k" (.record 0), .tick (30 * 10 ^ 9), .act "k" (.check 1),
    .tick (31 * 10 ^ 9), .login "ip" 2 "guess", .act "login:ip" (.load 2 none),
    .act "login:ip" (.verify 2), .act "login:ip" (.record 2), .login "ip" 3 "guess"]

theorem limits_oneAMinute :
    Limits plainLogin 1 60 oneAMinute ∧
      ((final plainLogin 1 60 oneAMinute).threads "k").answers =
        [(0, .admitted), (0, .passed), (1, .limited 30)] ∧
      ((final plainLogin 1 60 oneAMinute).threads "login:ip").answers =
        [(2, .admitted), (2, .invalid), (3, .limited 60)] :=
  ⟨limits_of_letsIn plainLogin 60 (by decide) (by decide +kernel), by decide +kernel,
    by decide +kernel⟩

/-- Two calls that ask before either records. -/
def twoChecks : List Event :=
  [.act "k" (.check 0), .act "k" (.check 1), .act "k" (.record 0), .act "k" (.record 1)]

/-- Two attempts whose passwords are hashed at the same time. -/
def twoLogins : List Event :=
  [.login "ip" 0 "guess", .login "ip" 1 "again", .act "login:ip" (.load 0 none),
    .act "login:ip" (.load 1 none), .act "login:ip" (.verify 0), .act "login:ip" (.verify 1)]

/-- A limit of one lets both through. -/
theorem not_limits_together :
    ¬Limits plainLogin 1 60 twoChecks ∧ ¬Limits plainLogin 1 60 twoLogins := by
  have hpassed : inWindow (60 * 10 ^ 9) 0
      ((final plainLogin 1 60 twoChecks).threads "k").passed = 2 := by decide +kernel
  have hverified : inWindow (60 * 10 ^ 9) 0
      ((final plainLogin 1 60 twoLogins).threads "login:ip").verified = 2 := by decide +kernel
  constructor
  · intro h
    have hle := h.checks "k" 0
    rw [hpassed] at hle
    exact absurd hle (by decide)
  · intro h
    have hle := h.logins "login:ip" 0
    rw [hverified] at hle
    exact absurd hle (by decide)

end Komika.Graphql.RateLimits
