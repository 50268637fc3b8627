import Komika.Catalog.PhaseF
import Mathlib.Data.List.Infix

/-!
# One pass over an extension

`sync_source_latest` and `sync_extension_inner` of `sync.rs`: the walk over the
newest listing of a source, page by page, the fold of the walks of an
extension's sources, and what the pass hands to `mark_subscription_synced`.

Of a walk only what the pass reads is kept: the number of series enrolled, or
the error.  The parked series that it wakes are not.  `cut` is an observation
that no code makes: the walk ended because of a shutdown.

The outcomes of a pass are defined next to the code, source by source
(`sourceOutcomes`), and `syncExtensionInner_eq` says what the pass makes of them: a
failure, no record, or a clean pass.
-/

namespace Komika.Sync.Walk

open Komika.Catalog.PhaseF (isRetiredPkg)

/-- How often the shutdown flag is still read as unset; `none` when nobody asks
for a shutdown. -/
abbrev Shutdown := Option Nat

/-- The flag is read as set. -/
def stopping : Shutdown → Bool
  | some 0 => true
  | _ => false

/-- The flag has been read once more. -/
def polled : Shutdown → Shutdown
  | some (n + 1) => some n
  | shutdown => shutdown

/-- `STOP_AFTER_KNOWN_PAGES`: so many pages in a row without anything new end a walk. -/
def stopAfterKnownPages : Nat := 2

/-- `LATEST_TRIGGER_WINDOW`: so many entries a walk observes before it may stop
early. -/
def latestTriggerWindow : Nat := 30

/-- The needles of `is_infrastructure_error`. -/
def infrastructureNeedles : List String :=
  ["flaresolverr", "name resolution", "dns error", "connection refused",
   "connection reset", "connection closed", "broken pipe", "timed out", "timeout",
   "os error 111", "os error 113", "error sending request", "tcp connect error",
   "channel closed", "no route to host", "network is unreachable", "suwayomi error 5"]

/-- `is_infrastructure_error`: one of the phrases occurs in the message, in any case. -/
def isInfrastructureError (msg : String) : Bool :=
  infrastructureNeedles.any fun needle =>
    needle.toList <:+: msg.toList.map Char.toLower

/-- What the engine and the database answer for one page. -/
structure Page where
  /-- `browse_source`: whether there is a next page, and the ids. -/
  fetched : Except String (Bool × List Int)
  /-- `existing_source_keys`: the ids that are enrolled. -/
  known : Except String (List Int)
  /-- The ids that `ingest_source_series` fails on. -/
  refused : List Int

/-- A source of the extension, and its listing. -/
structure Source where
  id : String
  pkgName : Option String
  lang : String
  /-- The pages of its listing.  Behind the last one the listing is empty. -/
  pages : List Page

/-- Where the enrolment of a page has ended. -/
structure Enrolled where
  added : Int
  shutdown : Shutdown
  cut : Bool

/-- The enrolment of the ids of a page that are not known. -/
def enrol (refused : List Int) : List Int → Int → Shutdown → Enrolled
  | [], added, shutdown => ⟨added, shutdown, false⟩
  | id :: ids, added, shutdown =>
      if stopping shutdown then ⟨added, shutdown, true⟩
      else enrol refused ids (if id ∈ refused then added else added + 1) (polled shutdown)

/-- Where a walk has ended. -/
structure Walked where
  result : Except String Int
  shutdown : Shutdown
  cut : Bool

/-- What the walk carries from page to page. -/
structure Cursor where
  page : Int
  consecutiveKnown : Nat
  observed : List Int
  added : Int
  shutdown : Shutdown

/-- `sync_source_latest`, from a page on. -/
def syncSourceLatest (maxPages : Int) : List Page → Cursor → Walked
  | [], c =>
      if stopping c.shutdown then ⟨.ok c.added, c.shutdown, true⟩
      else ⟨.ok c.added, polled c.shutdown, false⟩
  | p :: pages, c =>
      if stopping c.shutdown then ⟨.ok c.added, c.shutdown, true⟩
      else
        let shutdown := polled c.shutdown
        match p.fetched with
        | .error e => ⟨.error e, shutdown, false⟩
        | .ok (hasNext, mangas) =>
            if mangas.isEmpty then ⟨.ok c.added, shutdown, false⟩
            else
              match p.known with
              | .error e => ⟨.error e, shutdown, false⟩
              | .ok known =>
                  let newIds := mangas.filter (· ∉ known)
                  let observed := mangas ∪ c.observed
                  if newIds.isEmpty then
                    if stopAfterKnownPages ≤ c.consecutiveKnown + 1 ∧
                        latestTriggerWindow ≤ observed.length then
                      ⟨.ok c.added, shutdown, false⟩
                    else if !hasNext || decide (maxPages ≤ c.page) then
                      ⟨.ok c.added, shutdown, false⟩
                    else
                      syncSourceLatest maxPages pages
                        ⟨c.page + 1, c.consecutiveKnown + 1, observed, c.added, shutdown⟩
                  else
                    let enrolled := enrol p.refused newIds c.added shutdown
                    if !hasNext || decide (maxPages ≤ c.page) then
                      ⟨.ok enrolled.added, enrolled.shutdown, enrolled.cut⟩
                    else
                      syncSourceLatest maxPages pages
                        ⟨c.page + 1, 0, observed, enrolled.added, enrolled.shutdown⟩

/-- A walk that has yet to begin. -/
def Cursor.start (shutdown : Shutdown) : Cursor where
  page := 1
  consecutiveKnown := 0
  observed := []
  added := 0
  shutdown := shutdown

/-- What the loop over the sources has gathered. -/
structure Walks where
  added : Int
  error : Option String
  infraError : Option String

/-- The message that the pass keeps of a failed walk. -/
def walkFailed (s : Source) (e : String) : String := "source " ++ s.id ++ ": " ++ e

/-- The loop over the sources. -/
def walkSources (maxPages : Int) : List Source → Shutdown → Walks → Walks
  | [], _, w => w
  | s :: sources, shutdown, w =>
      if stopping shutdown then w
      else
        let walked := syncSourceLatest maxPages s.pages (.start (polled shutdown))
        match walked.result with
        | .ok n => walkSources maxPages sources walked.shutdown { w with added := w.added + n }
        | .error e =>
            let msg := walkFailed s e
            if isInfrastructureError msg then
              walkSources maxPages sources walked.shutdown { w with infraError := some msg }
            else walkSources maxPages sources walked.shutdown { w with error := some msg }

/-- A pass, as its surroundings answer it. -/
structure Pass where
  /-- Another pass over the extension is in flight. -/
  busy : Bool
  /-- `enrolment_excluded_source_ids`, unless it fails. -/
  excluded : Option (List String)
  /-- `list_sources`. -/
  listing : Except String (List Source)
  maxPages : Int
  shutdown : Shutdown

/-- What `mark_subscription_synced` is called with. -/
structure Mark where
  added : Int
  error : Option String
deriving DecidableEq

/-- The sources that the pass walks. -/
def walkedSources (pkg : String) (p : Pass) (sources : List Source) : List Source :=
  sources.filter fun s =>
    s.pkgName == some pkg && !(p.excluded.getD []).contains s.id && s.lang == "en"

/-- The message that the pass keeps of a failed listing. -/
def listingFailed (e : String) : String := "list_sources failed: " ++ e

/-- `sync_extension_inner`, up to the mark that it leaves on the subscription. -/
def syncExtensionInner (pkg : String) (p : Pass) : Option Mark :=
  if p.busy || isRetiredPkg pkg then none
  else
    match p.listing with
    | .error e =>
        let msg := listingFailed e
        if isInfrastructureError msg then none else some ⟨0, some msg⟩
    | .ok sources =>
        let w := walkSources p.maxPages (walkedSources pkg p sources) p.shutdown ⟨0, none, none⟩
        if w.error.isNone && w.infraError.isSome then none else some ⟨w.added, w.error⟩

/-! ## What becomes of each source

The reference: what a pass meets, before the folds of the code put it together. -/

/-- What a pass meets at one source. -/
inductive Outcome where
  | clean
  | sourceError (msg : String)
  | infraError (msg : String)
  | cutShort
deriving DecidableEq

/-- A failure, by its message. -/
def failure (msg : String) : Outcome :=
  if isInfrastructureError msg then .infraError msg else .sourceError msg

/-- What one walk comes to. -/
def Walked.outcome (s : Source) (w : Walked) : Outcome :=
  match w.result with
  | .error e => failure (walkFailed s e)
  | .ok _ => if w.cut then .cutShort else .clean

/-- The sources in turn, the first that a shutdown keeps from being walked the
last. -/
def sourceOutcomes (maxPages : Int) : List Source → Shutdown → List Outcome
  | [], _ => []
  | s :: sources, shutdown =>
      if stopping shutdown then [.cutShort]
      else
        let walked := syncSourceLatest maxPages s.pages (.start (polled shutdown))
        walked.outcome s :: sourceOutcomes maxPages sources walked.shutdown

/-- What a pass meets. -/
def outcomes (pkg : String) (p : Pass) : List Outcome :=
  if p.busy || isRetiredPkg pkg then []
  else
    match p.listing with
    | .error e => [failure (listingFailed e)]
    | .ok sources => sourceOutcomes p.maxPages (walkedSources pkg p sources) p.shutdown

/-- The pass is neither kept out by another one nor by the retirement. -/
def runs (pkg : String) (p : Pass) : Bool := !(p.busy || isRetiredPkg pkg)

/-- The source's own failure. -/
def Outcome.isSourceError : Outcome → Bool
  | .sourceError _ => true
  | _ => false

/-- The engine's failure, which is not to count against the source. -/
def Outcome.isInfraError : Outcome → Bool
  | .infraError _ => true
  | _ => false

/-- The source itself failed. -/
def metSourceError (pkg : String) (p : Pass) : Bool :=
  (outcomes pkg p).any Outcome.isSourceError

/-- The engine failed at some source. -/
def metInfraError (pkg : String) (p : Pass) : Bool :=
  (outcomes pkg p).any Outcome.isInfraError

/-- A shutdown kept the pass from walking every source to its end. -/
def interrupted (pkg : String) (p : Pass) : Bool :=
  (outcomes pkg p).contains .cutShort

/-! ## The mark, by what the pass met

The counters and messages of the folds, told by the outcomes. -/

/-- A failure is the source's unless its message is one of the engine's. -/
theorem isSourceError_failure (msg : String) :
    (failure msg).isSourceError = !isInfrastructureError msg := by
  unfold failure
  cases isInfrastructureError msg <;> rfl

theorem isInfraError_failure (msg : String) :
    (failure msg).isInfraError = isInfrastructureError msg := by
  unfold failure
  cases isInfrastructureError msg <;> rfl

/-- A walk that fails leaves a failure. -/
theorem outcome_of_error {s : Source} {w : Walked} {e : String} (h : w.result = .error e) :
    w.outcome s = failure (walkFailed s e) := by
  simp only [Walked.outcome, h]

/-- A walk that does not fail leaves none, even if it was cut short. -/
theorem outcome_of_ok {s : Source} {w : Walked} {n : Int} (h : w.result = .ok n) :
    (w.outcome s).isSourceError = false ∧ (w.outcome s).isInfraError = false := by
  simp only [Walked.outcome, h]
  cases w.cut <;> exact ⟨rfl, rfl⟩

variable {maxPages : Int} {pkg : String} {p : Pass}

/-- The loop ends with an error of each kind exactly if it met one. -/
theorem walkSources_errors (maxPages : Int) (sources : List Source) (shutdown : Shutdown)
    (w : Walks) :
    (walkSources maxPages sources shutdown w).error.isSome =
        (w.error.isSome || (sourceOutcomes maxPages sources shutdown).any Outcome.isSourceError) ∧
      (walkSources maxPages sources shutdown w).infraError.isSome =
        (w.infraError.isSome ||
          (sourceOutcomes maxPages sources shutdown).any Outcome.isInfraError) := by
  induction sources generalizing shutdown w with
  | nil => simp [walkSources, sourceOutcomes]
  | cons s sources ih =>
      simp only [walkSources, sourceOutcomes]
      split
      · simp [Outcome.isSourceError, Outcome.isInfraError]
      · split
        · next n hresult =>
            obtain ⟨hsource, hinfra⟩ := outcome_of_ok (s := s) hresult
            have hih := ih (syncSourceLatest maxPages s.pages (.start (polled shutdown))).shutdown
              { w with added := w.added + n }
            rw [List.any_cons, List.any_cons, hsource, hinfra, Bool.false_or, Bool.false_or]
            exact hih
        · next e hresult =>
            rw [List.any_cons, List.any_cons, outcome_of_error hresult, isSourceError_failure,
              isInfraError_failure]
            cases hmsg : isInfrastructureError (walkFailed s e) with
            | true =>
                have hih := ih
                  (syncSourceLatest maxPages s.pages (.start (polled shutdown))).shutdown
                  { w with infraError := some (walkFailed s e) }
                simpa using hih
            | false =>
                have hih := ih
                  (syncSourceLatest maxPages s.pages (.start (polled shutdown))).shutdown
                  { w with error := some (walkFailed s e) }
                simpa using hih

/-- What the pass leaves, by what it met: a source error makes it a failure; an
infrastructure error alone keeps it from being recorded; and all else is a clean
pass, a walk that was cut short among them. -/
theorem syncExtensionInner_eq :
    (syncExtensionInner pkg p).map (fun m => m.error.isSome) =
      if metSourceError pkg p then some true
      else if metInfraError pkg p || !runs pkg p then none
      else some false := by
  unfold syncExtensionInner metSourceError metInfraError outcomes runs
  by_cases hkept : (p.busy || isRetiredPkg pkg) = true
  · simp [hkept]
  · rw [if_neg hkept, if_neg hkept]
    cases hlisting : p.listing with
    | error e =>
        cases hmsg : isInfrastructureError (listingFailed e) <;>
          simp [isSourceError_failure, isInfraError_failure, hmsg, hkept]
    | ok sources =>
        obtain ⟨herror, hinfra⟩ := walkSources_errors p.maxPages
          (walkedSources pkg p sources) p.shutdown ⟨0, none, none⟩
        simp only [Option.isSome_none, Bool.false_or] at herror hinfra
        simp only [← herror, ← hinfra, eq_false_of_ne_true hkept]
        generalize walkSources p.maxPages (walkedSources pkg p sources) p.shutdown
          ⟨0, none, none⟩ = w
        cases w.error <;> cases w.infraError <;> rfl

/-! ## Without a shutdown

The walks then end by themselves. -/

/-- Nobody asks for a shutdown, so the enrolment is not cut. -/
theorem enrol_none (refused ids : List Int) (added : Int) :
    (enrol refused ids added none).shutdown = none ∧
      (enrol refused ids added none).cut = false := by
  induction ids generalizing added with
  | nil => exact ⟨rfl, rfl⟩
  | cons id ids ih => exact ih _

theorem syncSourceLatest_none (maxPages : Int) (pages : List Page) (c : Cursor)
    (hc : c.shutdown = none) :
    (syncSourceLatest maxPages pages c).shutdown = none ∧
      (syncSourceLatest maxPages pages c).cut = false := by
  induction pages generalizing c with
  | nil => simp [syncSourceLatest, hc, stopping, polled]
  | cons p pages ih =>
      simp only [syncSourceLatest, hc, stopping, polled, Bool.false_eq_true, if_false]
      split
      · exact ⟨rfl, rfl⟩
      · split
        · exact ⟨rfl, rfl⟩
        · split
          · exact ⟨rfl, rfl⟩
          · split
            · split
              · exact ⟨rfl, rfl⟩
              · split
                · exact ⟨rfl, rfl⟩
                · exact ih _ rfl
            · split
              · exact enrol_none _ _ _
              · exact ih _ (enrol_none _ _ _).1

theorem cutShort_not_mem_of_none (sources : List Source) :
    Outcome.cutShort ∉ sourceOutcomes maxPages sources none := by
  induction sources with
  | nil => exact List.not_mem_nil
  | cons s sources ih =>
      obtain ⟨hshutdown, hcut⟩ := syncSourceLatest_none maxPages s.pages
        (.start none) rfl
      simp only [sourceOutcomes, stopping, polled, Bool.false_eq_true, if_false, hshutdown]
      intro hmem
      rcases List.mem_cons.mp hmem with heq | hrest
      · unfold Walked.outcome failure at heq
        simp only [hcut] at heq
        split at heq
        · split at heq <;> cases heq
        · cases heq
      · exact ih hrest

/-- A pass that nobody asks to stop is not interrupted. -/
theorem not_interrupted_of_none (h : p.shutdown = none) : interrupted pkg p = false := by
  unfold interrupted outcomes
  rw [h, ← Bool.not_eq_true, List.contains_iff_mem]
  split
  · exact List.not_mem_nil
  · split
    · unfold failure
      split <;> exact fun hmem => nomatch List.mem_singleton.mp hmem
    · exact cutShort_not_mem_of_none _

end Komika.Sync.Walk
