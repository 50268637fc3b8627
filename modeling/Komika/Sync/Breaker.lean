import Komika.Lib.Lookup
import Komika.Lib.Machine
import Komika.Sync.Walk

/-!
# The subscription breaker

`extension_subscription` and the statements that write it: the mark a pass
leaves, the admin's reset, the probe of a stale breaker and the trip from the
scanner.  A run is any sequence of them.

Next to the rows stands, for each extension, a history of what has been
recorded; no code reads it.  It counts a pass as clean only if the pass walked
every source to its end.  The code also records a pass that was cut short, so
the two agree as long as no such pass changes anything.

* `lookup_storeMark`, `passed_of_sourceError`, `passed_of_unrecorded`, `passed_of_clean`
  — the row that a pass leaves, by what the pass met;
* `Counted`, `agrees_step` — the count of an armed breaker is that of its history;
* `countsOwnFailures_iff`, `passCounts_iff` — one pass;
* `passCounts_run_iff` — every run;
* `not_passCounts_cut` — a probe that a shutdown cuts short.
-/

namespace Komika.Sync.Breaker

open Komika.Lib Komika.Lib.Machine
open Komika.Sync.Walk

/-- A row of `extension_subscription`. -/
structure Subscription where
  pkgName : String
  createdAt : Int
  lastSyncedAt : Option Int
  lastAdded : Int
  lastError : Option String
  consecutiveFailures : Int
  disabledAt : Option Int
deriving DecidableEq

instance : Keyed Subscription := .ofKey Subscription.pkgName

instance : ByKey Subscription String where
  key := Subscription.pkgName
  clash_iff _ _ := decide_eq_true_iff

@[simp] theorem key_subscription (r : Subscription) : key r = r.pkgName := rfl

/-- `SUBSCRIPTION_FAILURE_LIMIT`: so many failures in a row trip the breaker. -/
def subscriptionFailureLimit : Int := 5

/-! ## The statements

Four writers, each with its own `UPDATE`. -/

/-- `UPDATE extension_subscription … WHERE pkg_name = ?`. -/
def updatePkg (t : Table Subscription) (pkg : String) (f : Subscription → Subscription)
    (h : Table.KeepsKeys f) : Table Subscription :=
  t.update (fun r => r.pkgName = pkg) f h

/-- The row of a clean pass. -/
def Subscription.markClean (now added : Int) (r : Subscription) : Subscription :=
  { r with
    lastSyncedAt := some now
    lastAdded := added
    lastError := none
    consecutiveFailures := 0 }

/-- The row of a failing pass.  A breaker that has tripped keeps its stamp. -/
def Subscription.markFailed (now added : Int) (error : String) (r : Subscription) :
    Subscription :=
  { r with
    lastSyncedAt := some now
    lastAdded := added
    lastError := some error
    consecutiveFailures := r.consecutiveFailures + 1
    disabledAt :=
      match r.disabledAt with
      | some stamp => some stamp
      | none =>
          if subscriptionFailureLimit ≤ r.consecutiveFailures + 1 then some now else none }

/-- The row a mark leaves. -/
def Subscription.mark (now : Int) (m : Mark) (r : Subscription) : Subscription :=
  match m.error with
  | none => r.markClean now m.added
  | some error => r.markFailed now m.added error

theorem keepsKeys_mark (now : Int) (m : Mark) : Table.KeepsKeys (Subscription.mark now m) :=
  .of_key fun r => by
    unfold Subscription.mark
    split <;> rfl

/-- `mark_subscription_synced`, and whether it reports that it disabled the
subscription. -/
def markSubscriptionSynced (t : Table Subscription) (pkg : String) (now : Int) (m : Mark) :
    Table Subscription × Bool :=
  let marked := updatePkg t pkg (Subscription.mark now m) (keepsKeys_mark now m)
  (marked, m.error.isSome &&
    (marked.lookup pkg).any fun r => decide (r.disabledAt = some now))

/-- The row after the admin's reset. -/
def Subscription.reset (r : Subscription) : Subscription :=
  { r with
    disabledAt := none
    consecutiveFailures := 0
    lastError := none }

/-- `reset_subscription_breaker`: closed again, with no failure counted. -/
def resetSubscriptionBreaker (t : Table Subscription) (pkg : String) : Table Subscription :=
  updatePkg t pkg Subscription.reset (.of_key fun _ => rfl)

/-- The row of a breaker that is armed again, one failure short of the limit. -/
def Subscription.probe (r : Subscription) : Subscription :=
  { r with
    disabledAt := none
    consecutiveFailures := max (subscriptionFailureLimit - 1) 0 }

/-- `rearm_subscription_breaker_probe`: closed for one try; the next failure trips it
again. -/
def rearmSubscriptionBreakerProbe (t : Table Subscription) (pkg : String) :
    Table Subscription :=
  updatePkg t pkg Subscription.probe (.of_key fun _ => rfl)

/-- `WHERE disabled_at IS NULL`. -/
def Subscription.trip (now : Int) (reason : String) (r : Subscription) : Subscription :=
  match r.disabledAt with
  | some _ => r
  | none =>
      { r with
        disabledAt := some now
        lastError := some reason }

theorem keepsKeys_trip (now : Int) (reason : String) :
    Table.KeepsKeys (Subscription.trip now reason) :=
  .of_key fun r => by
    unfold Subscription.trip
    split <;> rfl

/-- `trip_subscription_breaker`: open, with the reason; one that is open keeps its
own. -/
def tripSubscriptionBreaker (t : Table Subscription) (pkg : String) (now : Int)
    (reason : String) : Table Subscription :=
  updatePkg t pkg (Subscription.trip now reason) (keepsKeys_trip now reason)

/-- A subscription as it is first made. -/
def subscribed (pkg : String) (now : Int) : Subscription where
  pkgName := pkg
  createdAt := now
  lastSyncedAt := none
  lastAdded := 0
  lastError := none
  consecutiveFailures := 0
  disabledAt := none

/-- `set_extension_subscription`: a subscription that is there keeps its breaker;
without it the row goes. -/
def setExtensionSubscription (t : Table Subscription) (pkg : String) (now : Int) :
    Bool → Table Subscription
  | true => t.insertOrIgnore (subscribed pkg now)
  | false => t.deleteWhere fun r => r.pkgName = pkg

/-! ## Runs

Any sequence of the statements, next to what they are to be remembered as. -/

/-- What has been recorded of a subscription. -/
inductive Note where
  | failed
  | clean
  | reset
  | probe
deriving DecidableEq

/-- The rows, and what has been recorded of them. -/
structure State where
  subscriptions : Table Subscription
  /-- By extension, the newest note first. -/
  history : String → List Note

/-- What writes to the subscriptions. -/
inductive Event where
  /-- The admin's toggle; switched on, it also resets the breaker. -/
  | setSubscription (pkg : String) (now : Int) (on : Bool)
  /-- A pass, and when its mark is stored; `none` if the pass is dropped before
  that or the database refuses. -/
  | pass (pkg : String) (p : Pass) (stored : Option Int)
  /-- `rearm_stale_breakers` comes to a subscription that it has found stale. -/
  | rearm (pkg : String)
  /-- The scanner finds the whole source failing. -/
  | trip (pkg : String) (now : Int) (reason : String)

/-- What a pass is to be remembered as. -/
def noteOf (pkg : String) (p : Pass) : Option Note :=
  if metSourceError pkg p then some .failed
  else if metInfraError pkg p || interrupted pkg p || !runs pkg p then none
  else some .clean

/-- The notes are added to the history of the extension. -/
def State.noted (s : State) (pkg : String) (notes : List Note) : State :=
  { s with history := Function.update s.history pkg (notes ++ s.history pkg) }

/-- The mark of a pass, if it leaves one. -/
def storeMark (t : Table Subscription) (pkg : String) (p : Pass) (now : Int) :
    Table Subscription :=
  match syncExtensionInner pkg p with
  | none => t
  | some m => (markSubscriptionSynced t pkg now m).1

/-- The state after an event. -/
def step (s : State) : Event → State
  | .setSubscription pkg now true =>
      { s with
        subscriptions :=
          resetSubscriptionBreaker (setExtensionSubscription s.subscriptions pkg now true) pkg
      }.noted pkg [.reset]
  | .setSubscription pkg now false =>
      { s with subscriptions := setExtensionSubscription s.subscriptions pkg now false }
  | .pass _ _ none => s
  | .pass pkg p (some now) =>
      { s with subscriptions := storeMark s.subscriptions pkg p now }.noted pkg
        (noteOf pkg p).toList
  | .rearm pkg =>
      { s with subscriptions := rearmSubscriptionBreakerProbe s.subscriptions pkg }.noted pkg
        [.probe]
  | .trip pkg now reason =>
      { s with subscriptions := tripSubscriptionBreaker s.subscriptions pkg now reason }

/-- No subscription yet, and no pass over any source. -/
def start : State where
  subscriptions := .empty
  history _ := []

/-! ## What is asked of a pass

The breaker counts failures of the source in a row, so the count has to be that of the
history. -/

/-- The failures recorded since the last clean pass or reset. -/
def strikes : List Note → Nat
  | .failed :: notes => strikes notes + 1
  | .probe :: notes => strikes notes
  | .clean :: _ | .reset :: _ | [] => 0

/-- A failure recorded now is the last that the limit allows, or the first since
a probe. -/
def Due (notes : List Note) : Prop :=
  (strikes notes : Int) + 1 = subscriptionFailureLimit ∨ notes.head? = some .probe

/-- The pass finds the breaker armed and leaves it tripped. -/
def Trips (r r' : Subscription) : Prop :=
  r.disabledAt = none ∧ r'.disabledAt ≠ none

/-- The columns of the breaker. -/
def Subscription.breaker (r : Subscription) : Int × Option Int × Option String :=
  (r.consecutiveFailures, r.disabledAt, r.lastError)

/-- What the breaker owes a subscription when a pass ends, the row before and
after it. -/
structure CountsOwnFailures (notes : List Note) (pkg : String) (p : Pass)
    (stored : Option Int) (r r' : Subscription) : Prop where
  /-- An armed breaker trips exactly if the pass records a failure that is due. -/
  trips : Trips r r' ↔
    r.disabledAt = none ∧ stored.isSome ∧ metSourceError pkg p ∧ Due notes
  /-- A pass that met only infrastructure errors, or was cut short, changes nothing. -/
  untouched : (metInfraError pkg p ∧ metSourceError pkg p = false) ∨ interrupted pkg p →
    r'.breaker = r.breaker

/-- Every pass over a subscription counts the source's own failures. -/
def PassCounts (s : State) (e : Event) : Prop :=
  ∀ pkg p stored r, e = .pass pkg p stored → s.subscriptions.lookup pkg = some r →
    ∃ r', (step s e).subscriptions.lookup pkg = some r' ∧
      CountsOwnFailures (s.history pkg) pkg p stored r r'

/-- The pass has met no source error, and it has met an infrastructure error or
finds neither strikes nor an error to clear. -/
def Harmless (pkg : String) (p : Pass) (r : Subscription) : Prop :=
  metSourceError pkg p = false ∧
    (metInfraError pkg p ∨ (r.consecutiveFailures = 0 ∧ r.lastError = none))

/-- A pass that is cut short and stored is harmless. -/
def CutHarmless (s : State) (e : Event) : Prop :=
  ∀ pkg p now r, e = .pass pkg p (some now) → s.subscriptions.lookup pkg = some r →
    interrupted pkg p → Harmless pkg p r

/-! ## What a statement does to one row

Each statement is about one extension. -/

section Rows

variable {t : Table Subscription} {pkg other : String} {now : Int} {p : Pass}

/-- The statement updates the row of its extension. -/
theorem lookup_updatePkg {f : Subscription → Subscription} {h : Table.KeepsKeys f} :
    (updatePkg t pkg f h).lookup other =
      if other = pkg then (t.lookup other).map f else t.lookup other := by
  rw [updatePkg, Table.lookup_update]
  cases hrow : t.lookup other with
  | none => simp
  | some r =>
      have hkey : r.pkgName = other := Table.key_of_lookup hrow
      simp only [Option.map_some, hkey, decide_eq_true_eq]
      split <;> rfl

/-- The row a pass leaves. -/
def Subscription.passed (pkg : String) (p : Pass) (now : Int) (r : Subscription) :
    Subscription :=
  (syncExtensionInner pkg p).elim r fun m => r.mark now m

theorem lookup_storeMark :
    (storeMark t pkg p now).lookup other =
      if other = pkg then (t.lookup other).map (Subscription.passed pkg p now)
      else t.lookup other := by
  unfold storeMark Subscription.passed
  cases syncExtensionInner pkg p with
  | none => simp
  | some m => exact lookup_updatePkg (h := keepsKeys_mark now m)

/-- A mark reports a trip exactly if it leaves its own stamp. -/
theorem reports_markSubscriptionSynced {m : Mark} :
    (markSubscriptionSynced t pkg now m).2 = true ↔
      m.error.isSome ∧ ∃ r, t.lookup pkg = some r ∧ (r.mark now m).disabledAt = some now := by
  simp only [markSubscriptionSynced, Bool.and_eq_true, Option.any_eq_true, lookup_updatePkg,
    if_pos, Option.map_eq_some_iff, decide_eq_true_eq]
  constructor
  · rintro ⟨herror, _, ⟨r, hr, rfl⟩, hstamp⟩
    exact ⟨herror, r, hr, hstamp⟩
  · rintro ⟨herror, r, hr, hstamp⟩
    exact ⟨herror, _, ⟨r, hr, rfl⟩, hstamp⟩

/-- A pass that the source has failed. -/
theorem passed_of_sourceError (now : Int) (r : Subscription) (h : metSourceError pkg p = true) :
    ∃ added error, r.passed pkg p now = r.markFailed now added error := by
  have hmark := @syncExtensionInner_eq pkg p
  rw [if_pos h, Option.map_eq_some_iff] at hmark
  obtain ⟨⟨added, error⟩, hm, herror⟩ := hmark
  obtain ⟨error, rfl⟩ := Option.isSome_iff_exists.mp herror
  exact ⟨added, error, by rw [Subscription.passed, hm]; rfl⟩

/-- A pass that is not the source's doing, or that did not run. -/
theorem passed_of_unrecorded (r : Subscription) (hsource : metSourceError pkg p = false)
    (h : (metInfraError pkg p || !runs pkg p) = true) : r.passed pkg p now = r := by
  have hmark := @syncExtensionInner_eq pkg p
  rw [if_neg (ne_true_of_eq_false hsource), if_pos h, Option.map_eq_none_iff] at hmark
  rw [Subscription.passed, hmark]
  rfl

theorem passed_of_clean (now : Int) (r : Subscription) (hsource : metSourceError pkg p = false)
    (h : (metInfraError pkg p || !runs pkg p) = false) :
    ∃ added, r.passed pkg p now = r.markClean now added := by
  have hmark := @syncExtensionInner_eq pkg p
  rw [if_neg (ne_true_of_eq_false hsource), if_neg (ne_true_of_eq_false h),
    Option.map_eq_some_iff] at hmark
  obtain ⟨⟨added, error⟩, hm, herror⟩ := hmark
  obtain rfl : error = none := by simpa using herror
  exact ⟨added, by rw [Subscription.passed, hm]; rfl⟩

end Rows

/-! ## The count

A probe leaves a count that is no number of strikes, so the history tells it apart. -/

/-- A probe since the last clean pass or reset. -/
def probed : List Note → Bool
  | .failed :: notes => probed notes
  | .probe :: _ => true
  | .clean :: _ | .reset :: _ | [] => false

/-- The count of an armed breaker: one short of the limit right after a probe, and
the strikes if there has been none. -/
def Counted (failures : Int) (notes : List Note) : Prop :=
  (notes.head? = some .probe ∧ failures = subscriptionFailureLimit - 1) ∨
    (probed notes = false ∧ failures = strikes notes ∧ failures < subscriptionFailureLimit)

/-- The count of every armed breaker is that of its history. -/
def Agrees (s : State) : Prop :=
  ∀ pkg r, s.subscriptions.lookup pkg = some r → r.disabledAt = none →
    Counted r.consecutiveFailures (s.history pkg)

variable {failures : Int} {notes : List Note} {pkg : String} {p : Pass} {now : Int}
variable {r : Subscription}

/-- No history ends in a probe without having one. -/
theorem head?_ne_probe (h : probed notes = false) : notes.head? ≠ some .probe := by
  cases notes with
  | nil => exact fun h => nomatch h
  | cons note notes =>
      rintro ⟨⟩
      have htrue : true = false := h
      exact Bool.noConfusion htrue

/-- The next failure reaches the limit exactly if it is due. -/
theorem limit_le_iff (h : Counted failures notes) :
    subscriptionFailureLimit ≤ failures + 1 ↔ Due notes := by
  unfold Due
  rcases h with ⟨hprobe, hfailures⟩ | ⟨hprobed, hfailures, hlt⟩
  · exact iff_of_true (by omega) (Or.inr hprobe)
  · have hne := head?_ne_probe hprobed
    constructor
    · intro hle
      exact Or.inl (by omega)
    · rintro (hlast | hprobe)
      · omega
      · exact absurd hprobe hne

/-- A failure that does not trip the breaker is one more strike. -/
theorem counted_failed (h : Counted failures notes)
    (hlt : failures + 1 < subscriptionFailureLimit) :
    Counted (failures + 1) (.failed :: notes) := by
  rcases h with ⟨-, hfailures⟩ | ⟨hprobed, hfailures, -⟩
  · omega
  · refine Or.inr ⟨hprobed, ?_, hlt⟩
    show failures + 1 = ((strikes notes + 1 : Nat) : Int)
    push_cast
    omega

theorem counted_probe : Counted (max (subscriptionFailureLimit - 1) 0) (.probe :: notes) :=
  Or.inl ⟨rfl, rfl⟩

/-- No strikes after a clean pass. -/
theorem counted_clean : Counted 0 (.clean :: notes) := Or.inr ⟨rfl, rfl, by decide⟩

theorem counted_reset : Counted 0 (.reset :: notes) := Or.inr ⟨rfl, rfl, by decide⟩

/-! ## One pass

A pass leaves a mark for what it met, or none. -/

/-- A failure trips the breaker at the limit. -/
theorem trips_markFailed {added : Int} {error : String} :
    Trips r (r.markFailed now added error) ↔
      r.disabledAt = none ∧ subscriptionFailureLimit ≤ r.consecutiveFailures + 1 := by
  unfold Trips Subscription.markFailed
  cases hstamp : r.disabledAt with
  | some stamp => simp
  | none =>
      simp only [true_and]
      split <;> simp_all

/-- A failing pass adds a strike, so it never leaves the columns as they were. -/
theorem breaker_markFailed_ne {added : Int} {error : String} :
    (r.markFailed now added error).breaker ≠ r.breaker := by
  intro h
  have hfailures : r.consecutiveFailures + 1 = r.consecutiveFailures := congrArg Prod.fst h
  omega

/-- A clean pass leaves the columns if there is nothing to clear. -/
theorem breaker_markClean {added : Int} :
    (r.markClean now added).breaker = r.breaker ↔
      r.consecutiveFailures = 0 ∧ r.lastError = none := by
  simp only [Subscription.breaker, Subscription.markClean, Prod.mk.injEq, true_and]
  exact and_congr eq_comm eq_comm

/-- Only a pass that is under way can be cut short. -/
theorem runs_of_interrupted (h : interrupted pkg p = true) : runs pkg p = true := by
  unfold interrupted outcomes at h
  unfold runs
  split at h
  · exact absurd h (by decide)
  · next hkept => rw [eq_false_of_ne_true hkept]; rfl

/-- Without a source error the stamp stays as it is. -/
theorem disabledAt_passed (hsource : metSourceError pkg p = false) :
    (r.passed pkg p now).disabledAt = r.disabledAt := by
  cases hkept : metInfraError pkg p || !runs pkg p with
  | true => rw [passed_of_unrecorded r hsource hkept]
  | false =>
      obtain ⟨added, hpassed⟩ := passed_of_clean now r hsource hkept
      rw [hpassed]
      rfl

/-- An armed breaker trips exactly at a failure that is due. -/
theorem trips_passed_iff (h : r.disabledAt = none → Counted r.consecutiveFailures notes) :
    Trips r (r.passed pkg p now) ↔
      r.disabledAt = none ∧ metSourceError pkg p ∧ Due notes := by
  cases hsource : metSourceError pkg p with
  | false =>
      unfold Trips
      rw [disabledAt_passed hsource]
      simp
  | true =>
      obtain ⟨added, error, hpassed⟩ := passed_of_sourceError now r hsource
      rw [hpassed, trips_markFailed]
      simp only [true_and]
      exact and_congr_right fun harmed => limit_le_iff (h harmed)

/-- A pass that is cut short leaves the columns as they were exactly if it is
harmless. -/
theorem breaker_passed_iff (now : Int) (hcut : interrupted pkg p = true) :
    (r.passed pkg p now).breaker = r.breaker ↔ Harmless pkg p r := by
  have hruns := runs_of_interrupted hcut
  unfold Harmless
  cases hsource : metSourceError pkg p with
  | true =>
      obtain ⟨added, error, hpassed⟩ := passed_of_sourceError now r hsource
      rw [hpassed]
      exact iff_of_false breaker_markFailed_ne (by simp)
  | false =>
      cases hinfra : metInfraError pkg p with
      | true =>
          rw [passed_of_unrecorded r hsource (by rw [hinfra, Bool.true_or])]
          simp
      | false =>
          have hkept : (metInfraError pkg p || !runs pkg p) = false := by
            rw [hinfra, hruns]
            rfl
          obtain ⟨added, hpassed⟩ := passed_of_clean now r hsource hkept
          rw [hpassed, breaker_markClean]
          simp

/-- A stored pass counts the source's own failures exactly if it is harmless or
was not cut short. -/
theorem countsOwnFailures_iff
    (h : r.disabledAt = none → Counted r.consecutiveFailures notes) :
    CountsOwnFailures notes pkg p (some now) r (r.passed pkg p now) ↔
      (interrupted pkg p → Harmless pkg p r) := by
  constructor
  · intro hcounts hcut
    exact (breaker_passed_iff _ hcut).mp (hcounts.untouched (Or.inr hcut))
  · intro hharmless
    constructor
    · rw [trips_passed_iff h]
      simp
    · rintro (⟨hinfra, hsource⟩ | hcut)
      · rw [passed_of_unrecorded r hsource (by rw [hinfra, Bool.true_or])]
      · exact (breaker_passed_iff _ hcut).mpr (hharmless hcut)

/-- A pass that stores nothing owes nothing. -/
theorem countsOwnFailures_dropped : CountsOwnFailures notes pkg p none r r := by
  constructor
  · exact iff_of_false (fun h => h.2 h.1) (by simp)
  · exact fun _ => rfl

/-- One step of a run whose counts agree. -/
theorem passCounts_iff {s : State} (h : Agrees s) (e : Event) :
    PassCounts s e ↔ CutHarmless s e := by
  constructor
  · rintro hcounts pkg p now r rfl hr hcut
    obtain ⟨r', hr', hown⟩ := hcounts pkg p (some now) r rfl hr
    have hrow : (storeMark s.subscriptions pkg p now).lookup pkg = some r' := hr'
    rw [lookup_storeMark, if_pos rfl, hr, Option.map_some, Option.some.injEq] at hrow
    rw [← hrow] at hown
    exact (countsOwnFailures_iff (h pkg r hr)).mp hown hcut
  · rintro hharmless pkg p stored r rfl hr
    cases stored with
    | none => exact ⟨r, hr, countsOwnFailures_dropped⟩
    | some now =>
        refine ⟨r.passed pkg p now, ?_, ?_⟩
        · show (storeMark s.subscriptions pkg p now).lookup pkg = _
          rw [lookup_storeMark, if_pos rfl, hr]
          rfl
        · exact (countsOwnFailures_iff (h pkg r hr)).mpr (hharmless pkg p now r rfl hr)

/-! ## Along a run

The invariant, one event after the other, and the equivalence over a run. -/

section Steps

variable {s : State} {other : String}

/-- A step that writes one row and notes it keeps the count of the others. -/
theorem agrees_noted {t : Table Subscription} {written : List Note} (h : Agrees s)
    (hother : ∀ other, other ≠ pkg → t.lookup other = s.subscriptions.lookup other)
    (hpkg : ∀ r, t.lookup pkg = some r → r.disabledAt = none →
      Counted r.consecutiveFailures (written ++ s.history pkg)) :
    Agrees (State.noted { s with subscriptions := t } pkg written) := by
  intro other r hr harmed
  show Counted r.consecutiveFailures
    (Function.update s.history pkg (written ++ s.history pkg) other)
  by_cases heq : other = pkg
  · rw [heq, Function.update_self]
    exact hpkg r (heq ▸ hr) harmed
  · rw [Function.update_of_ne heq]
    exact h other r ((hother other heq).symm.trans hr) harmed

/-- The same, with nothing to note. -/
theorem agrees_of_lookup {t : Table Subscription} (h : Agrees s)
    (hrow : ∀ other r, t.lookup other = some r → r.disabledAt = none →
      s.subscriptions.lookup other = some r) :
    Agrees { s with subscriptions := t } :=
  fun other r hr harmed => h other r (hrow other r hr harmed) harmed

/-- What a statement does to the row of an extension it does to no other. -/
theorem lookup_updatePkg_of_ne {t : Table Subscription} {f : Subscription → Subscription}
    {hf : Table.KeepsKeys f} (h : other ≠ pkg) :
    (updatePkg t pkg f hf).lookup other = t.lookup other := by
  rw [lookup_updatePkg, if_neg h]

/-- The row of an extension behind a statement on it. -/
theorem exists_of_lookup_updatePkg {t : Table Subscription}
    {f : Subscription → Subscription} {hf : Table.KeepsKeys f}
    (h : (updatePkg t pkg f hf).lookup pkg = some r) :
    ∃ old, t.lookup pkg = some old ∧ f old = r := by
  rw [lookup_updatePkg, if_pos rfl] at h
  exact Option.map_eq_some_iff.mp h

theorem agrees_subscribed (h : Agrees s) (now : Int) :
    Agrees (step s (.setSubscription pkg now true)) := by
  apply agrees_noted h
  · intro other hne
    rw [resetSubscriptionBreaker, lookup_updatePkg_of_ne hne]
    apply Table.lookup_congr
    intro r hr
    have hkey : r ≠ subscribed pkg now := by
      rintro rfl
      exact hne hr.symm
    rw [setExtensionSubscription, Table.mem_insertOrIgnore]
    exact or_iff_left fun hnew => hkey hnew.1
  · intro r hr _
    obtain ⟨old, -, rfl⟩ := exists_of_lookup_updatePkg hr
    exact counted_reset

/-- Switched off, the subscription is gone. -/
theorem agrees_unsubscribed (h : Agrees s) (now : Int) :
    Agrees (step s (.setSubscription pkg now false)) := by
  apply agrees_of_lookup h
  intro other r hr _
  rw [setExtensionSubscription, Table.lookup_deleteWhere, Option.filter_eq_some_iff] at hr
  exact hr.1

theorem agrees_rearmed (h : Agrees s) : Agrees (step s (.rearm pkg)) := by
  apply agrees_noted h
  · exact fun other hne => lookup_updatePkg_of_ne hne
  · intro r hr _
    obtain ⟨old, -, rfl⟩ := exists_of_lookup_updatePkg hr
    exact counted_probe

/-- The scanner's trip leaves no new breaker armed. -/
theorem agrees_tripped (h : Agrees s) (reason : String) :
    Agrees (step s (.trip pkg now reason)) := by
  apply agrees_of_lookup h
  intro other r hr harmed
  by_cases heq : other = pkg
  · subst heq
    obtain ⟨old, -, rfl⟩ := exists_of_lookup_updatePkg hr
    unfold Subscription.trip at harmed
    split at harmed
    · next hstamp => exact absurd harmed (by simp [hstamp])
    · exact absurd harmed (by simp)
  · exact (lookup_updatePkg_of_ne heq).symm.trans hr

/-- The count of an armed breaker after a pass. -/
theorem counted_passed (h : r.disabledAt = none → Counted r.consecutiveFailures notes)
    (hcut : interrupted pkg p → Harmless pkg p r)
    (harmed : (r.passed pkg p now).disabledAt = none) :
    Counted (r.passed pkg p now).consecutiveFailures ((noteOf pkg p).toList ++ notes) := by
  unfold noteOf
  cases hsource : metSourceError pkg p with
  | true =>
      obtain ⟨added, error, hpassed⟩ := passed_of_sourceError now r hsource
      rw [hpassed] at harmed ⊢
      have hbefore : r.disabledAt = none := by
        unfold Subscription.markFailed at harmed
        cases hstamp : r.disabledAt with
        | none => rfl
        | some stamp => simp [hstamp] at harmed
      have hquiet : ¬Trips r (r.markFailed now added error) := fun ht => ht.2 harmed
      rw [trips_markFailed, not_and] at hquiet
      exact counted_failed (h hbefore) (not_le.mp (hquiet hbefore))
  | false =>
      rw [disabledAt_passed hsource] at harmed
      have hcounted := h harmed
      cases hkept : metInfraError pkg p || !runs pkg p with
      | true =>
          rw [passed_of_unrecorded r hsource hkept]
          rw [Bool.or_right_comm, hkept]
          exact hcounted
      | false =>
          obtain ⟨added, hpassed⟩ := passed_of_clean now r hsource hkept
          cases hinterrupted : interrupted pkg p with
          | true =>
              -- the pass is recorded as clean, but there was nothing to clear
              rw [Bool.or_right_comm, hkept]
              have hbreaker := (breaker_passed_iff now hinterrupted).mpr
                (hcut hinterrupted)
              have hfailures := congrArg Prod.fst hbreaker
              simp only [Subscription.breaker] at hfailures
              rw [hfailures]
              exact hcounted
          | false =>
              rw [Bool.or_right_comm, hkept, hpassed]
              exact counted_clean

/-- A pass that was not cut short, or is harmless. -/
theorem agrees_passed (h : Agrees s) {stored : Option Int}
    (hcut : CutHarmless s (.pass pkg p stored)) : Agrees (step s (.pass pkg p stored)) := by
  cases stored with
  | none => exact h
  | some now =>
      apply agrees_noted h
      · intro other hne
        rw [lookup_storeMark, if_neg hne]
      · intro r hr harmed
        rw [lookup_storeMark, if_pos rfl, Option.map_eq_some_iff] at hr
        obtain ⟨old, hold, rfl⟩ := hr
        exact counted_passed (h pkg old hold) (hcut pkg p now old rfl hold) harmed

theorem agrees_step (h : Agrees s) (e : Event) (hcut : CutHarmless s e) :
    Agrees (step s e) := by
  cases e with
  | setSubscription pkg now on =>
      cases on with
      | true => exact agrees_subscribed h now
      | false => exact agrees_unsubscribed h now
  | pass pkg p stored => exact agrees_passed h hcut
  | rearm pkg => exact agrees_rearmed h
  | trip pkg now reason => exact agrees_tripped h reason

end Steps

theorem agrees_start : Agrees start :=
  fun _ _ hr => absurd (Table.mem_of_lookup hr) (Table.not_mem_empty _)

/-- From a state whose counts agree, the passes of a run count exactly if those
that are cut short and stored are harmless. -/
theorem eachStep_passCounts_iff {s : State} (h : Agrees s) (events : List Event) :
    EachStep step PassCounts s events ↔ EachStep step CutHarmless s events := by
  apply eachStep_congr_of_invariant (I := Agrees)
  · exact fun s e h hcut => agrees_step h e hcut
  · exact fun s e h => passCounts_iff h e
  · exact h

/-- **When every pass counts.**  Along every run each pass counts the source's own
failures, and neither the engine's nor a shutdown's, exactly if each stored pass that a
shutdown cut short is harmless: its source has not erred, and it finds no streak that
the pass would have ended. -/
theorem passCounts_run_iff (events : List Event) :
    EachStep step PassCounts start events ↔ EachStep step CutHarmless start events :=
  eachStep_passCounts_iff agrees_start events

/-- Where nobody asks for a shutdown every pass counts. -/
theorem passCounts_of_no_shutdown {events : List Event}
    (h : ∀ e ∈ events, ∀ pkg p stored, e = .pass pkg p stored → p.shutdown = none) :
    EachStep step PassCounts start events := by
  rw [eachStep_passCounts_iff agrees_start]
  apply EachStep.mono _ (eachStep_of_forall h)
  rintro s e he pkg p now r rfl - hcut
  rw [not_interrupted_of_none (he pkg p (some now) rfl)] at hcut
  exact Bool.noConfusion hcut

/-- A pass over one source that finds the shutdown flag set. -/
def cutPass : Pass where
  busy := false
  excluded := some []
  listing := .ok [⟨"1", some "ext", "en", []⟩]
  maxPages := 5
  shutdown := some 0

/-- The probe of a breaker that the scanner had tripped is cut short before it
walks anything, and the breaker is back at no strikes. -/
theorem not_passCounts_cut :
    ¬EachStep step PassCounts start
      [.setSubscription "ext" 0 true, .trip "ext" 1 "outage", .rearm "ext",
        .pass "ext" cutPass (some 2)] := by
  rw [eachStep_passCounts_iff agrees_start]
  rintro ⟨-, -, -, hcut, -⟩
  obtain ⟨-, hinfra | ⟨hfailures, -⟩⟩ := hcut "ext" cutPass 2 _ rfl rfl (by decide)
  · exact absurd hinfra (by decide)
  · exact absurd hfailures (by decide)

end Komika.Sync.Breaker
