import Mathlib.Data.List.Basic
import Mathlib.Data.List.Nodup
import Mathlib.Order.Lattice

/-!
# Bulk-ingest jobs

`run_job` of `ingest.rs` and what it is made of: a listing is walked page by
page, the next page fetched while the items of this one run, and every manga id
is dispatched once over both listings.

A `Source` says what it answers: to every attempt at every page of every
listing, for every item, and in what order the items of a page are done.  The
database is taken to answer.  A job keeps the log of its requests, of the pages
that it received and of the ids that it dispatched, next to what the code keeps.

* `attempts_spec`, `browsePage_spec` — one page: at most three requests, and what is
  received is the answer to one of them;
* `process_spec`, `recordDecision_text` — its items: each id once over the whole job,
  and every outcome in one bucket;
* `walkPages_spec`, `walkListing_spec` — a listing: up to a page that is a place to
  stop, or to one that did not come;
* `runListings_spec` — the two listings, one after the other;
* `accounted_of_running` — the whole job, unless it is cancelled.
-/

namespace Komika.Ingest.Jobs

/-! ## Constants

The bounds of a walk. -/

/-- The listings of a source. -/
inductive FetchType where
  | popular
  | latest
deriving DecidableEq, Repr

/-- `LISTINGS`, in the order in which a job walks them. -/
def listings : List (FetchType × String) := [(.popular, "popular"), (.latest, "latest")]

/-- `MAX_PAGES`: no listing is walked any further. -/
def maxPages : Nat := 1000

/-- `MAX_EMPTY_PAGES`: a listing goes on past so many empty pages in a row, and ends at
the next. -/
def maxEmptyPages : Nat := 2

/-- `PAGE_FETCH_ATTEMPTS`, the requests for one page before its listing fails. -/
def pageFetchAttempts : Nat := 3

/-- `PROGRESS_FLUSH_EVERY`: the row of the job is written every so many items. -/
def progressFlushEvery : Nat := 5

/-! ## Progress

A bucket for each outcome of an item. -/

/-- The decisions of `ingest_source_series`. -/
inductive MatchDecision where
  | new
  | autoMerge
  | mangadexId
  | review
  | reviewConsolidated
  | existing
deriving DecidableEq, Repr

/-- `MatchResult::decision`, the word by which the counters tell the results apart. -/
def MatchDecision.text : MatchDecision → String
  | .new => "new"
  | .autoMerge => "auto_merge"
  | .mangadexId => "mangadex_id"
  | .review => "review"
  | .reviewConsolidated => "review_consolidated"
  | .existing => "existing"

/-- What the task of an item ends in. -/
inductive ItemOutcome where
  | ok (decision : MatchDecision)
  | error
  | panicked
deriving DecidableEq, Repr

/-- `Progress`: the counters of a job, as they are stored. -/
structure Progress where
  pagesDone : Nat
  itemsSeen : Nat
  succeeded : Nat
  failed : Nat
  newWorks : Nat
  autoMerged : Nat
  queuedForReview : Nat
  alreadyExisting : Nat
deriving DecidableEq, Repr

/-- `Progress::default`: nothing seen and nothing decided. -/
def Progress.zero : Progress := ⟨0, 0, 0, 0, 0, 0, 0, 0⟩

/-- `record_decision`: one more success, and one more of its kind; an unknown word is
only a success. -/
def Progress.recordDecision (p : Progress) (decision : String) : Progress :=
  let p := { p with succeeded := p.succeeded + 1 }
  if decision = "new" then { p with newWorks := p.newWorks + 1 }
  else if decision = "auto_merge" ∨ decision = "mangadex_id" then
    { p with autoMerged := p.autoMerged + 1 }
  else if decision = "review" ∨ decision = "review_consolidated" then
    { p with queuedForReview := p.queuedForReview + 1 }
  else if decision = "existing" then { p with alreadyExisting := p.alreadyExisting + 1 }
  else p

/-- `record_failure`: one more item that could not be ingested. -/
def Progress.recordFailure (p : Progress) : Progress := { p with failed := p.failed + 1 }

/-- A round of the loop over the tasks that are done. -/
def Progress.join (p : Progress) (outcome : ItemOutcome) : Progress :=
  let p := { p with itemsSeen := p.itemsSeen + 1 }
  match outcome with
  | .ok decision => p.recordDecision decision.text
  | .error | .panicked => p.recordFailure

/-! ## Sources

Everything that the engine answers is a function of the request. -/

/-- What a fetched page says: whether there is a next one, and its manga ids. -/
structure Page where
  hasNext : Bool
  mangas : List Int
deriving DecidableEq, Repr

/-- What a source answers. -/
structure Source where
  /-- `browse_source`: the answer to an attempt at a page of a listing. -/
  browse : FetchType → Nat → Nat → Except String Page
  /-- `ingest_source_series`. -/
  ingest : Int → ItemOutcome
  /-- The order in which the items of a page are done. -/
  joined : List Int → List Int
  joined_perm : ∀ ids, (joined ids).Perm ids
  /-- Whether the job is found cancelled before a page is processed. -/
  cancelled : FetchType → Nat → Bool

/-- A page that a job received. -/
structure Received where
  listing : FetchType
  number : Nat
  page : Page
deriving DecidableEq, Repr

/-- The counters, the ids seen so far, and the log. -/
structure Job where
  progress : Progress
  /-- The counters of the job's row. -/
  row : Progress
  seen : List Int
  requests : List (FetchType × Nat × Nat)
  received : List Received
  dispatched : List Int

/-- A job that has not begun. -/
def Job.fresh : Job := ⟨.zero, .zero, [], [], [], []⟩

/-! ## Pages

An attempt, the retries, and the page that is fetched ahead. -/

/-- The loop of `browse_page`, from an attempt on, with so many left after it:
its result, and the attempts it made. -/
def attempts (source : Source) (ty : FetchType) (page : Nat) :
    Nat → Nat → Except String Page × List (FetchType × Nat × Nat)
  | attempt, left =>
      match source.browse ty page attempt, left with
      | .ok p, _ => (.ok p, [(ty, page, attempt)])
      | .error e, 0 => (.error e, [(ty, page, attempt)])
      | .error _, left + 1 =>
          let rest := attempts source ty page (attempt + 1) left
          (rest.1, (ty, page, attempt) :: rest.2)

/-- Requests are logged as they are made. -/
def Job.ask (job : Job) (requests : List (FetchType × Nat × Nat)) : Job :=
  { job with requests := job.requests ++ requests }

/-- And pages as they come. -/
def Job.receive (job : Job) (r : Received) : Job := { job with received := job.received ++ [r] }

/-- `browse_page`: a page, or the error of the last attempt.  Every request is counted,
and a page that comes is noted as received. -/
def browsePage (source : Source) (ty : FetchType) (page : Nat) (job : Job) :
    Except String Page × Job :=
  let result := attempts source ty page 1 (pageFetchAttempts - 1)
  let job := job.ask result.2
  match result.1 with
  | .ok p => (.ok p, job.receive ⟨ty, page, p⟩)
  | .error e => (.error e, job)

/-- The ids of a page that `seen.insert` finds new, in order. -/
def newIds : List Int → List Int → List Int
  | _, [] => []
  | seen, id :: ids => if id ∈ seen then newIds seen ids else id :: newIds (id :: seen) ids

/-- An item is done. -/
def Job.join (source : Source) (job : Job) (id : Int) : Job :=
  let progress := job.progress.join (source.ingest id)
  { job with
    progress := progress
    row := if progress.itemsSeen % progressFlushEvery = 0 then progress else job.row }

/-- The items of a page: dispatched, done, and the page counted. -/
def Job.process (source : Source) (job : Job) (ids : List Int) : Job :=
  let fresh := newIds job.seen ids
  let job := { job with seen := fresh.reverse ++ job.seen, dispatched := job.dispatched ++ fresh }
  let job := (source.joined fresh).foldl (Job.join source) job
  let progress := { job.progress with pagesDone := job.progress.pagesDone + 1 }
  { job with progress := progress, row := progress }

/-! ## Walks

From the first page of a listing to the last that is asked for. -/

/-- How the walk over a listing ends. -/
inductive ListingOutcome where
  | done
  | cancelled
deriving DecidableEq, Repr

/-- The loop of `walk_listing`: `page` is buffered, `left` pages may follow it, and
`emptyStreak` blank ones came before it. -/
def walkPages (source : Source) (ty : FetchType) :
    Nat → Page → Nat → Job → Except String ListingOutcome × Job
  | left, page, emptyStreak, job =>
      let number := maxPages - left
      if source.cancelled ty number then
        (.ok .cancelled, { job with row := job.progress })
      else
        let emptyStreak := if page.mangas = [] then emptyStreak + 1 else 0
        let job := job.process source page.mangas
        match left with
        | 0 => (.ok .done, job)
        | left + 1 =>
            if page.hasNext && decide (emptyStreak ≤ maxEmptyPages) then
              match browsePage source ty (number + 1) job with
              | (.ok next, job) => walkPages source ty left next emptyStreak job
              | (.error e, job) => (.error e, job)
            else (.ok .done, job)

/-- `walk_listing`: the first page has to come; the others follow while there are
more. -/
def walkListing (source : Source) (ty : FetchType) (job : Job) :
    Except String ListingOutcome × Job :=
  match browsePage source ty 1 job with
  | (.error e, job) => (.error e, job)
  | (.ok page, job) => walkPages source ty (maxPages - 1) page 0 job

/-! ## Jobs

Latest and popular, and the state that is stored at the end. -/

/-- How the run ends. -/
inductive RunOutcome where
  | completed (warning : Option String)
  | cancelled
deriving DecidableEq, Repr

/-- What the loop over the listings carries. -/
structure Walks where
  walked : Nat
  warning : Option String
  lastError : Option String

/-- The warning with the failure of a listing added. -/
def addWarning (warning : Option String) (label e : String) : String :=
  match warning with
  | some prev => prev ++ "; " ++ label ++ " listing failed: " ++ e
  | none => label ++ " listing failed: " ++ e

/-- The loop of `run_job` and its result. -/
def runListings (source : Source) :
    List (FetchType × String) → Walks → Job → Except String RunOutcome × Job
  | [], walks, job =>
      if walks.walked = 0 then
        (.error (walks.lastError.getD "no listing produced any pages"), job)
      else (.ok (.completed walks.warning), job)
  | (ty, label) :: rest, walks, job =>
      match walkListing source ty job with
      | (.ok .cancelled, job) => (.ok .cancelled, job)
      | (.ok .done, job) => runListings source rest { walks with walked := walks.walked + 1 } job
      | (.error e, job) =>
          runListings source rest
            { walks with
              warning := some (addWarning walks.warning label e)
              lastError := some e } job

/-- `run_job`: one listing after the other, from an empty row. -/
def runJob (source : Source) : Except String RunOutcome × Job :=
  runListings source listings ⟨0, none, none⟩ .fresh

/-- The state of the job that is stored. -/
inductive JobState where
  | completed
  | cancelled
  | failed
deriving DecidableEq, Repr

/-- The state and the error that `spawn_runner` finishes the row with. -/
def finish : Except String RunOutcome → JobState × Option String
  | .ok (.completed warning) => (.completed, warning)
  | .ok .cancelled => (.cancelled, none)
  | .error e => (.failed, some e)

/-! ## What a job keeps

The log is that of the source's answers, and the counters are those of the log. -/

section Keeps

variable {source : Source} {ty : FetchType} {job : Job}

/-- Every decision has a bucket. -/
theorem recordDecision_text (p : Progress) (decision : MatchDecision) :
    let q := p.recordDecision decision.text
    q.itemsSeen = p.itemsSeen ∧ q.failed = p.failed ∧ q.succeeded = p.succeeded + 1 ∧
      q.newWorks + q.autoMerged + q.queuedForReview + q.alreadyExisting =
        p.newWorks + p.autoMerged + p.queuedForReview + p.alreadyExisting + 1 := by
  cases decision <;> simp [Progress.recordDecision, MatchDecision.text] <;> omega

/-- The counters of so many items add up. -/
structure Tallied (p : Progress) (items : Nat) : Prop where
  itemsSeen : p.itemsSeen = items
  outcomes : p.succeeded + p.failed = items
  decisions : p.newWorks + p.autoMerged + p.queuedForReview + p.alreadyExisting = p.succeeded

theorem Tallied.join {p : Progress} {items : Nat} (h : Tallied p items) (outcome : ItemOutcome) :
    Tallied (p.join outcome) (items + 1) := by
  obtain ⟨hitems, houtcomes, hdecisions⟩ := h
  have hfailure : Tallied { p with itemsSeen := p.itemsSeen + 1, failed := p.failed + 1 }
      (items + 1) :=
    ⟨congrArg (· + 1) hitems, by show p.succeeded + (p.failed + 1) = items + 1; omega, hdecisions⟩
  cases outcome with
  | ok decision =>
      obtain ⟨hseen, hfailed, hsucceeded, hbuckets⟩ :=
        recordDecision_text { p with itemsSeen := p.itemsSeen + 1 } decision
      dsimp only at hseen hfailed hsucceeded hbuckets
      constructor
      · show (Progress.recordDecision _ _).itemsSeen = _
        omega
      · show (Progress.recordDecision _ _).succeeded + (Progress.recordDecision _ _).failed = _
        omega
      · show _ = (Progress.recordDecision _ _).succeeded
        rw [hsucceeded, ← hdecisions]
        exact hbuckets
  | error => exact hfailure
  | panicked => exact hfailure

/-- The ids of a page that were not seen, each once. -/
theorem mem_newIds {seen ids : List Int} {id : Int} :
    id ∈ newIds seen ids ↔ id ∈ ids ∧ id ∉ seen := by
  induction ids generalizing seen with
  | nil => simp [newIds]
  | cons first ids ih =>
      unfold newIds
      by_cases hfirst : first ∈ seen
      · rw [if_pos hfirst, ih, List.mem_cons]
        constructor
        · exact fun h => ⟨.inr h.1, h.2⟩
        · intro h
          refine ⟨h.1.resolve_left ?_, h.2⟩
          rintro rfl
          exact h.2 hfirst
      · rw [if_neg hfirst, List.mem_cons, ih, List.mem_cons, List.mem_cons]
        by_cases hid : id = first
        · simp [hid, hfirst]
        · simp [hid]

theorem nodup_newIds (seen ids : List Int) : (newIds seen ids).Nodup := by
  induction ids generalizing seen with
  | nil => exact List.nodup_nil
  | cons first ids ih =>
      unfold newIds
      split
      · exact ih seen
      · refine List.nodup_cons.mpr ⟨?_, ih _⟩
        rw [mem_newIds]
        exact fun h => h.2 List.mem_cons_self

/-- The items of a page add up, and touch nothing but the counters. -/
theorem foldl_join (source : Source) (job : Job) (ids : List Int) {items : Nat}
    (h : Tallied job.progress items) :
    ∃ p row, ids.foldl (Job.join source) job = { job with progress := p, row := row } ∧
      Tallied p (items + ids.length) := by
  induction ids generalizing job items with
  | nil => exact ⟨job.progress, job.row, rfl, h⟩
  | cons id ids ih =>
      obtain ⟨p, row, heq, htallied⟩ := ih (job.join source id) (h.join (source.ingest id))
      refine ⟨p, row, ?_, ?_⟩
      · rw [List.foldl_cons, heq]
        rfl
      · rw [List.length_cons, Nat.add_comm ids.length, ← Nat.add_assoc]
        exact htallied

/-- The log and the counters of a job agree, with each other and with the
source. -/
structure Sound (source : Source) (job : Job) : Prop where
  tallied : Tallied job.progress job.dispatched.length
  row : job.row = job.progress
  nodup : job.dispatched.Nodup
  seen : ∀ id, id ∈ job.seen ↔ id ∈ job.dispatched
  answers : ∀ r ∈ job.received, ∃ attempt ≤ pageFetchAttempts,
    source.browse r.listing r.number attempt = .ok r.page

/-- The ids received are those dispatched and those of the page in the buffer. -/
def Dispatches (job : Job) (buffered : List Int) : Prop :=
  ∀ id, (∃ r ∈ job.received, id ∈ r.page.mangas) ↔ id ∈ job.dispatched ∨ id ∈ buffered

/-- The log of a job that has not begun is that of no request. -/
theorem sound_fresh : Sound source .fresh :=
  ⟨⟨rfl, rfl, rfl⟩, rfl, List.nodup_nil, fun _ => Iff.rfl, nofun⟩

theorem dispatches_fresh : Dispatches .fresh [] := by
  intro id
  simp [Job.fresh]

/-- A page is processed: its new ids are dispatched. -/
theorem process_spec (h : Sound source job) (ids : List Int) :
    Sound source (job.process source ids) ∧
      (job.process source ids).received = job.received ∧
      (job.process source ids).requests = job.requests ∧
      (job.process source ids).dispatched = job.dispatched ++ newIds job.seen ids := by
  obtain ⟨htallied, _, hnodup, hseen, hanswers⟩ := h
  obtain ⟨p, row, heq, hp⟩ := foldl_join source
    { job with
      seen := (newIds job.seen ids).reverse ++ job.seen
      dispatched := job.dispatched ++ newIds job.seen ids }
    (source.joined (newIds job.seen ids)) htallied
  rw [(source.joined_perm _).length_eq] at hp
  have hprocess : job.process source ids =
      { job with
        seen := (newIds job.seen ids).reverse ++ job.seen
        dispatched := job.dispatched ++ newIds job.seen ids
        progress := { p with pagesDone := p.pagesDone + 1 }
        row := { p with pagesDone := p.pagesDone + 1 } } := by
    unfold Job.process
    dsimp only
    rw [heq]
  rw [hprocess]
  refine ⟨⟨?_, rfl, ?_, ?_, hanswers⟩, rfl, rfl, rfl⟩
  · show Tallied _ (job.dispatched ++ newIds job.seen ids).length
    rw [List.length_append]
    exact ⟨hp.itemsSeen, hp.outcomes, hp.decisions⟩
  · refine List.Nodup.append hnodup (nodup_newIds _ _) ?_
    intro id hdispatched hnew
    exact (mem_newIds.mp hnew).2 ((hseen id).mpr hdispatched)
  · intro id
    show id ∈ (newIds job.seen ids).reverse ++ job.seen ↔ id ∈ job.dispatched ++ _
    rw [List.mem_append, List.mem_append, List.mem_reverse, hseen id, or_comm]

theorem dispatches_process {ids : List Int} (hsound : Sound source job)
    (h : Dispatches job ids) : Dispatches (job.process source ids) [] := by
  obtain ⟨-, hreceived, -, hdispatched⟩ := process_spec hsound ids
  intro id
  rw [hreceived, hdispatched, h id, List.mem_append, mem_newIds, hsound.seen id]
  by_cases hid : id ∈ job.dispatched
  · simp [hid]
  · simp [hid]

/-- The attempts at a page: at most so many, and what they find is the answer to
one of them. -/
theorem attempts_spec (source : Source) (ty : FetchType) (page attempt left : Nat) :
    (attempts source ty page attempt left).2.length ≤ left + 1 ∧
      ∀ p, (attempts source ty page attempt left).1 = .ok p →
        ∃ n ≤ attempt + left, source.browse ty page n = .ok p := by
  induction left generalizing attempt with
  | zero =>
      unfold attempts
      cases hbrowse : source.browse ty page attempt with
      | ok q =>
          refine ⟨by simp, fun p hp => ⟨attempt, by omega, ?_⟩⟩
          cases hp
          exact hbrowse
      | error e => exact ⟨by simp, nofun⟩
  | succ left ih =>
      unfold attempts
      cases hbrowse : source.browse ty page attempt with
      | ok q =>
          refine ⟨by simp, fun p hp => ⟨attempt, by omega, ?_⟩⟩
          cases hp
          exact hbrowse
      | error e =>
          obtain ⟨hlen, hfound⟩ := ih (attempt + 1)
          refine ⟨by simpa using hlen, fun p hp => ?_⟩
          obtain ⟨n, hn, hok⟩ := hfound p hp
          exact ⟨n, by omega, hok⟩

theorem Sound.ask (h : Sound source job) (requests : List (FetchType × Nat × Nat)) :
    Sound source (job.ask requests) := ⟨h.tallied, h.row, h.nodup, h.seen, h.answers⟩

theorem Sound.receive {r : Received} (h : Sound source job)
    (hr : ∃ attempt ≤ pageFetchAttempts, source.browse r.listing r.number attempt = .ok r.page) :
    Sound source (job.receive r) := by
  refine ⟨h.tallied, h.row, h.nodup, h.seen, ?_⟩
  intro r' hr'
  rcases List.mem_append.mp hr' with hr' | hr'
  · exact h.answers r' hr'
  · rw [List.mem_singleton.mp hr']
    exact hr

theorem Dispatches.receive {r : Received} (h : Dispatches job []) :
    Dispatches (job.receive r) r.page.mangas := by
  intro id
  have hold := h id
  simp only [List.not_mem_nil, or_false] at hold
  show (∃ r' ∈ job.received ++ [r], id ∈ r'.page.mangas) ↔ id ∈ job.dispatched ∨ _
  rw [← hold]
  simp only [List.mem_append, List.mem_singleton, or_and_right, exists_or, exists_eq_left]

/-- A page is asked for: three requests at most, and if it comes it is logged. -/
theorem browsePage_spec (h : Sound source job) (ty : FetchType) (number : Nat) :
    (∃ requests p, requests.length ≤ pageFetchAttempts ∧
      browsePage source ty number job =
        (.ok p, (job.ask requests).receive ⟨ty, number, p⟩) ∧
      Sound source ((job.ask requests).receive ⟨ty, number, p⟩)) ∨
    (∃ requests e, requests.length ≤ pageFetchAttempts ∧
      browsePage source ty number job = (.error e, job.ask requests) ∧
      Sound source (job.ask requests)) := by
  obtain ⟨hlen, hfound⟩ := attempts_spec source ty number 1 (pageFetchAttempts - 1)
  unfold browsePage
  dsimp only
  cases hresult : (attempts source ty number 1 (pageFetchAttempts - 1)).1 with
  | error e => exact .inr ⟨_, e, hlen, rfl, h.ask _⟩
  | ok p => exact .inl ⟨_, p, hlen, rfl, (h.ask _).receive (hfound p hresult)⟩

end Keeps

/-! ## What a walk covers

A walk that ends by itself has seen a page to stop at. -/

/-- The pages of a listing that were received, in order. -/
def Job.pagesOf (job : Job) (ty : FetchType) : List Received :=
  job.received.filter fun r => r.listing = ty

/-- How many blank pages come last. -/
def blanks (pages : List Received) : Nat :=
  (pages.reverse.takeWhile fun r => r.page.mangas = []).length

/-- The last page denies a next one, ends more blank pages than are tolerated, or
is the last that a walk may ask for. -/
def Stops (pages : List Received) : Prop :=
  (∃ r ∈ pages.getLast?, r.page.hasNext = false) ∨ maxEmptyPages < blanks pages ∨
    maxPages ≤ pages.length

/-- No page so far is a place to stop. -/
def Open (pages : List Received) : Prop :=
  ∀ before, before <+: pages → before ≠ [] → ¬Stops before

/-- The pages from the first to the first that is a place to stop. -/
structure Covered (pages : List Received) : Prop where
  numbered : pages.map Received.number = List.range' 1 pages.length
  stops : Stops pages
  before : ∀ before, before <+: pages → before ≠ [] → before ≠ pages → ¬Stops before

theorem blanks_concat (pages : List Received) (r : Received) :
    blanks (pages ++ [r]) = if r.page.mangas = [] then blanks pages + 1 else 0 := by
  unfold blanks
  rw [List.reverse_append, List.reverse_singleton, List.singleton_append]
  by_cases hblank : r.page.mangas = []
  · rw [List.takeWhile_cons_of_pos (by simpa using hblank), if_pos hblank, List.length_cons]
  · rw [List.takeWhile_cons_of_neg (by simpa using hblank), if_neg hblank, List.length_nil]

theorem stops_concat {pages : List Received} {r : Received} :
    Stops (pages ++ [r]) ↔
      r.page.hasNext = false ∨ maxEmptyPages < blanks (pages ++ [r]) ∨
        maxPages ≤ pages.length + 1 := by
  simp [Stops]

theorem open_nil : Open [] := by
  intro before hbefore hne
  exact absurd (List.prefix_nil.mp hbefore) hne

theorem open_concat {pages : List Received} {r : Received} (h : Open pages)
    (hr : ¬Stops (pages ++ [r])) : Open (pages ++ [r]) := by
  intro before hbefore hne
  rcases List.prefix_concat_iff.mp hbefore with rfl | hbefore
  · exact hr
  · exact h before hbefore hne

theorem covered_concat {pages : List Received} {r : Received} (h : Open pages)
    (hnumbered : (pages ++ [r]).map Received.number = List.range' 1 (pages ++ [r]).length)
    (hr : Stops (pages ++ [r])) : Covered (pages ++ [r]) := by
  refine ⟨hnumbered, hr, ?_⟩
  intro before hbefore hne hne'
  rcases List.prefix_concat_iff.mp hbefore with rfl | hbefore
  · exact absurd rfl hne'
  · exact h before hbefore hne

/-- A listing whose pages go on is not covered. -/
theorem not_covered_of_open {pages : List Received} (h : Open pages) : ¬Covered pages := by
  intro hcovered
  by_cases hnil : pages = []
  · subst hnil
    rcases hcovered.stops with ⟨r, hr, -⟩ | hblank | hlong
    · cases hr
    · exact absurd hblank (by decide)
    · exact absurd hlong (by decide)
  · exact h pages List.prefix_rfl hnil hcovered.stops

/-- What a walk of a listing leaves. -/
structure Walked (source : Source) (ty : FetchType) (job : Job) (budget : Nat)
    (result : Except String ListingOutcome × Job) : Prop where
  sound : Sound source result.2
  dispatches : Dispatches result.2 []
  requests : result.2.requests.length ≤ job.requests.length + pageFetchAttempts * budget
  others : ∀ other, other ≠ ty → result.2.pagesOf other = job.pagesOf other
  outcome : (result.1 = .ok .done ∧ Covered (result.2.pagesOf ty)) ∨
    ∃ e, result.1 = .error e ∧ Open (result.2.pagesOf ty)

section Walk

variable {source : Source} {ty : FetchType}

theorem pagesOf_receive (job : Job) (r : Received) (ty' : FetchType) :
    (job.receive r).pagesOf ty' =
      if r.listing = ty' then job.pagesOf ty' ++ [r] else job.pagesOf ty' := by
  unfold Job.pagesOf Job.receive
  rw [List.filter_append]
  split
  · next h => simp [h]
  · next h => simp [h]

/-- A page of a walk: it is in the buffer, and the pages before it go on. -/
structure Buffered (source : Source) (ty : FetchType) (job : Job) (prior : List Received)
    (r : Received) : Prop where
  sound : Sound source job
  dispatches : Dispatches job r.page.mangas
  listing : r.listing = ty
  pages : job.pagesOf ty = prior ++ [r]
  numbered : (prior ++ [r]).map Received.number = List.range' 1 (prior ++ [r]).length
  goesOn : Open prior

theorem pagesOf_process {job : Job} (h : Sound source job) (ids : List Int) (ty' : FetchType) :
    (job.process source ids).pagesOf ty' = job.pagesOf ty' := by
  rw [Job.pagesOf, (process_spec h ids).2.1, Job.pagesOf]

/-- The walk is done with a page that is a place to stop. -/
theorem walked_done {job : Job} {prior : List Received} {r : Received}
    (h : Buffered source ty job prior r) (hstops : Stops (prior ++ [r])) (left : Nat) :
    Walked source ty job left (.ok .done, job.process source r.page.mangas) := by
  obtain ⟨hsound', -, hrequests, -⟩ := process_spec h.sound r.page.mangas
  refine ⟨hsound', dispatches_process h.sound h.dispatches, ?_,
    fun other _ => pagesOf_process h.sound _ other, .inl ⟨rfl, ?_⟩⟩
  · rw [hrequests]
    omega
  · rw [pagesOf_process h.sound, h.pages]
    exact covered_concat h.goesOn h.numbered hstops

/-- A walk that receives its next page leaves what the rest of it leaves. -/
theorem walked_of_receive {job done : Job} {requests : List (FetchType × Nat × Nat)} {r : Received}
    {left : Nat} {result : Except String ListingOutcome × Job} (hlisting : r.listing = ty)
    (hlen : requests.length ≤ pageFetchAttempts) (hrequests : done.requests = job.requests)
    (hpages : ∀ other, done.pagesOf other = job.pagesOf other)
    (hrest : Walked source ty ((done.ask requests).receive r) left result) :
    Walked source ty job (left + 1) result where
  sound := hrest.sound
  dispatches := hrest.dispatches
  requests := by
    have hrest := hrest.requests
    change _ ≤ (done.requests ++ requests).length + _ at hrest
    rw [List.length_append, hrequests] at hrest
    rw [Nat.mul_succ]
    omega
  others other hother := by
    rw [hrest.others other hother, pagesOf_receive, hlisting, if_neg (Ne.symm hother)]
    exact hpages other
  outcome := hrest.outcome

/-- A walk that does not receive its next page ends, and its listing is open. -/
theorem walked_of_failed {job done : Job} {requests : List (FetchType × Nat × Nat)} {left : Nat}
    (e : String) (hlen : requests.length ≤ pageFetchAttempts)
    (hrequests : done.requests = job.requests)
    (hpages : ∀ other, done.pagesOf other = job.pagesOf other)
    (hsound : Sound source (done.ask requests)) (hdispatches : Dispatches done [])
    (hopen : Open (job.pagesOf ty)) :
    Walked source ty job (left + 1) (.error e, done.ask requests) where
  sound := hsound
  dispatches := hdispatches
  requests := by
    show (done.requests ++ requests).length ≤ _
    rw [List.length_append, hrequests, Nat.mul_succ]
    omega
  others other _ := hpages other
  outcome := by
    refine .inr ⟨e, rfl, ?_⟩
    show Open (done.pagesOf ty)
    rw [hpages]
    exact hopen

/-- The walk, by induction on the pages that are left to it. -/
theorem walkPages_spec (hrunning : ∀ ty n, source.cancelled ty n = false) (left : Nat)
    {job : Job} {prior : List Received} {r : Received} (h : Buffered source ty job prior r)
    (hleft : prior.length + 1 + left = maxPages) :
    Walked source ty job left (walkPages source ty left r.page (blanks prior) job) := by
  induction left generalizing job prior r with
  | zero =>
      unfold walkPages
      dsimp only
      rw [hrunning, if_neg Bool.false_ne_true]
      exact walked_done h (stops_concat.mpr (.inr (.inr (by omega)))) 0
  | succ left ih =>
      have hnumber : maxPages - (left + 1) + 1 = prior.length + 2 := by omega
      unfold walkPages
      dsimp only
      rw [hrunning, if_neg Bool.false_ne_true, hnumber, ← blanks_concat]
      by_cases hnext : (r.page.hasNext && decide (blanks (prior ++ [r]) ≤ maxEmptyPages)) = true
      · rw [if_pos hnext]
        simp only [Bool.and_eq_true, decide_eq_true_eq] at hnext
        have hgoesOn : ¬Stops (prior ++ [r]) := by
          rw [stops_concat, hnext.1]
          simp only [Bool.true_eq_false, false_or]
          omega
        have hopen : Open (prior ++ [r]) := open_concat h.goesOn hgoesOn
        obtain ⟨hsound', -, hrequests, -⟩ := process_spec h.sound r.page.mangas
        have hdispatches' := dispatches_process h.sound h.dispatches
        have hpages' := pagesOf_process h.sound r.page.mangas
        generalize job.process source r.page.mangas = done
          at hsound' hrequests hdispatches' hpages' ⊢
        rcases browsePage_spec hsound' ty (prior.length + 2) with
          ⟨requests, next, hlen, hbrowse, hlogged⟩ | ⟨requests, e, hlen, hbrowse, hlogged⟩
        · rw [hbrowse]
          have hbuffered : Buffered source ty
              ((done.ask requests).receive ⟨ty, prior.length + 2, next⟩) (prior ++ [r])
              ⟨ty, prior.length + 2, next⟩ := by
            refine ⟨hlogged, Dispatches.receive hdispatches', rfl, ?_, ?_, hopen⟩
            · rw [pagesOf_receive, if_pos rfl]
              exact congrArg (· ++ [_]) ((hpages' ty).trans h.pages)
            · have hlast := h.numbered
              rw [List.map_append, hlast]
              simp [List.range'_concat]
              omega
          have hleft' : (prior ++ [r]).length + 1 + left = maxPages := by
            rw [List.length_append, List.length_singleton]
            omega
          exact walked_of_receive rfl hlen hrequests hpages' (ih hbuffered hleft')
        · rw [hbrowse]
          rw [← h.pages] at hopen
          exact walked_of_failed e hlen hrequests hpages' hlogged hdispatches' hopen
      · rw [if_neg hnext]
        have hstops : Stops (prior ++ [r]) := by
          rw [stops_concat]
          simp only [Bool.and_eq_true, decide_eq_true_eq, not_and] at hnext
          cases hhas : r.page.hasNext with
          | false => exact .inl rfl
          | true => exact .inr (.inl (by have := hnext hhas; omega))
        exact walked_done h hstops (left + 1)

/-- A listing none of whose pages was asked for is walked. -/
theorem walkListing_spec (ty : FetchType) (hrunning : ∀ ty n, source.cancelled ty n = false)
    {job : Job} (hsound : Sound source job) (hdispatches : Dispatches job [])
    (hnone : job.pagesOf ty = []) :
    Walked source ty job maxPages (walkListing source ty job) := by
  show Walked source ty job (maxPages - 1 + 1) _
  unfold walkListing
  rcases browsePage_spec hsound ty 1 with
    ⟨requests, page, hlen, hbrowse, hlogged⟩ | ⟨requests, e, hlen, hbrowse, hlogged⟩
  · rw [hbrowse]
    have hbuffered : Buffered source ty ((job.ask requests).receive ⟨ty, 1, page⟩) []
        ⟨ty, 1, page⟩ := by
      refine ⟨hlogged, Dispatches.receive hdispatches, rfl, ?_, rfl, open_nil⟩
      rw [pagesOf_receive, if_pos rfl]
      exact congrArg (· ++ [_]) hnone
    exact walked_of_receive rfl hlen rfl (fun _ => rfl)
      (walkPages_spec hrunning (maxPages - 1) hbuffered (by decide))
  · rw [hbrowse]
    have hopen : Open (job.pagesOf ty) := by
      rw [hnone]
      exact open_nil
    exact walked_of_failed e hlen rfl (fun _ => rfl) hlogged hdispatches hopen

end Walk

/-! ## What a job covers

All pages and items are accounted for, whatever fails. -/

/-- What the loop over the listings leaves, and what its result says of them. -/
structure Ended (source : Source) (rest : List (FetchType × String)) (walks : Walks) (job : Job)
    (result : Except String RunOutcome × Job) : Prop where
  sound : Sound source result.2
  dispatches : Dispatches result.2 []
  requests : result.2.requests.length ≤
    job.requests.length + pageFetchAttempts * maxPages * rest.length
  others : ∀ other, other ∉ rest.map Prod.fst → result.2.pagesOf other = job.pagesOf other
  completed : result.1 = .ok (.completed none) →
    walks.warning = none ∧ ∀ ty ∈ rest.map Prod.fst, Covered (result.2.pagesOf ty)
  failed : ∀ e, result.1 = .error e →
    walks.walked = 0 ∧ ∀ ty ∈ rest.map Prod.fst, ¬Covered (result.2.pagesOf ty)
  running : result.1 ≠ .ok .cancelled

/-- What the loop says of a listing and of the ones after it. -/
theorem Ended.cons {source : Source} {ty : FetchType} {label : String}
    {rest : List (FetchType × String)} {walks walks' : Walks} {job job' : Job}
    {outcome : Except String ListingOutcome} {result : Except String RunOutcome × Job}
    (hrest : Ended source rest walks' job' result)
    (hwalked : Walked source ty job maxPages (outcome, job')) (hty : ty ∉ rest.map Prod.fst)
    (hdone : walks'.warning = none → walks.warning = none ∧ Covered (job'.pagesOf ty))
    (hfailed : walks'.walked = 0 → walks.walked = 0 ∧ ¬Covered (job'.pagesOf ty)) :
    Ended source ((ty, label) :: rest) walks job result where
  sound := hrest.sound
  dispatches := hrest.dispatches
  requests := by
    have hearlier := hwalked.requests
    have hlater := hrest.requests
    rw [List.length_cons, Nat.mul_succ]
    dsimp only at hearlier
    omega
  others other hother := by
    rw [List.map_cons, List.mem_cons, not_or] at hother
    exact (hrest.others other hother.2).trans (hwalked.others other hother.1)
  completed h := by
    obtain ⟨hwarning, hcovered⟩ := hrest.completed h
    obtain ⟨hnone, hfirst⟩ := hdone hwarning
    refine ⟨hnone, ?_⟩
    rw [List.map_cons, List.forall_mem_cons, hrest.others ty hty]
    exact ⟨hfirst, hcovered⟩
  failed e h := by
    obtain ⟨hzero, hopen⟩ := hrest.failed e h
    obtain ⟨hnone, hfirst⟩ := hfailed hzero
    refine ⟨hnone, ?_⟩
    rw [List.map_cons, List.forall_mem_cons, hrest.others ty hty]
    exact ⟨hfirst, hopen⟩
  running := hrest.running

/-- The loop over the listings; one that fails does not keep the next from being
walked. -/
theorem runListings_spec {source : Source} (hrunning : ∀ ty n, source.cancelled ty n = false)
    (rest : List (FetchType × String)) (hnodup : (rest.map Prod.fst).Nodup) (walks : Walks)
    {job : Job} (hsound : Sound source job) (hdispatches : Dispatches job [])
    (hnone : ∀ ty ∈ rest.map Prod.fst, job.pagesOf ty = []) :
    Ended source rest walks job (runListings source rest walks job) := by
  induction rest generalizing walks job with
  | nil =>
      unfold runListings
      split
      · next hwalked =>
          exact ⟨hsound, hdispatches, le_rfl, fun _ _ => rfl, nofun,
            fun e _ => ⟨hwalked, nofun⟩, nofun⟩
      · refine ⟨hsound, hdispatches, le_rfl, fun _ _ => rfl, ?_, nofun, nofun⟩
        intro h
        simp only [Except.ok.injEq, RunOutcome.completed.injEq] at h
        exact ⟨h, nofun⟩
  | cons first rest ih =>
      obtain ⟨ty, label⟩ := first
      rw [List.map_cons, List.nodup_cons] at hnodup
      obtain ⟨hty, hnodup⟩ := hnodup
      have hwalked := walkListing_spec ty hrunning hsound hdispatches
        (hnone ty List.mem_cons_self)
      unfold runListings
      generalize walkListing source ty job = result at hwalked ⊢
      obtain ⟨outcome, job'⟩ := result
      have hnone' : ∀ ty' ∈ rest.map Prod.fst, job'.pagesOf ty' = [] := by
        intro ty' hty'
        have hne : ty' ≠ ty := fun heq => hty (heq ▸ hty')
        exact (hwalked.others ty' hne).trans (hnone ty' (List.mem_cons_of_mem _ hty'))
      rcases hwalked.outcome with ⟨hok, hcovered⟩ | ⟨e, herror, hopen⟩
      · cases hok
        apply (ih hnodup { walks with walked := walks.walked + 1 } hwalked.sound
          hwalked.dispatches hnone').cons hwalked hty
        · exact fun hwarning => ⟨hwarning, hcovered⟩
        · exact fun hzero => absurd hzero (Nat.succ_ne_zero _)
      · cases herror
        apply (ih hnodup
          { walks with warning := some (addWarning walks.warning label e), lastError := some e }
          hwalked.sound hwalked.dispatches hnone').cons hwalked hty
        · exact fun hwarning => absurd hwarning (Option.some_ne_none _)
        · exact fun hzero => ⟨hzero, not_covered_of_open hopen⟩

/-- The property of a job. -/
structure Accounted (source : Source) : Prop where
  /-- Two listings of a thousand pages, each asked for three times. -/
  requests : (runJob source).2.requests.length ≤ 6000
  /-- What it takes for an answer is an answer. -/
  answers : ∀ r ∈ (runJob source).2.received, ∃ attempt ≤ pageFetchAttempts,
    source.browse r.listing r.number attempt = .ok r.page
  once : (runJob source).2.dispatched.Nodup
  dispatched : ∀ id, id ∈ (runJob source).2.dispatched ↔
    ∃ r ∈ (runJob source).2.received, id ∈ r.page.mangas
  completed : finish (runJob source).1 = (.completed, none) →
    ∀ listing ∈ listings, Covered ((runJob source).2.pagesOf listing.1)
  failed : (finish (runJob source).1).1 = .failed →
    ∀ listing ∈ listings, ¬Covered ((runJob source).2.pagesOf listing.1)
  ended : (finish (runJob source).1).1 ≠ .cancelled
  itemsSeen : (runJob source).2.row.itemsSeen = (runJob source).2.dispatched.length
  outcomes : (runJob source).2.row.succeeded + (runJob source).2.row.failed =
    (runJob source).2.row.itemsSeen
  decisions : (runJob source).2.row.succeeded =
    (runJob source).2.row.newWorks + (runJob source).2.row.autoMerged +
      (runJob source).2.row.queuedForReview + (runJob source).2.row.alreadyExisting

/-- **A job accounts for every page and item.**  Whatever the source answers to whatever
attempt, a job that nobody cancels asks a bounded number of times, dispatches each item
of the pages it received once and no other, and counts what it dispatched.  It is
completed without a warning only if each listing was walked from its first page to the
first place to stop, and failed only if neither was. -/
theorem accounted_of_running {source : Source}
    (hrunning : ∀ ty n, source.cancelled ty n = false) : Accounted source := by
  have hended : Ended source listings ⟨0, none, none⟩ .fresh (runJob source) :=
    runListings_spec hrunning listings (by decide) _ sound_fresh dispatches_fresh fun _ _ => rfl
  have hfst : ∀ listing ∈ listings, listing.1 ∈ listings.map Prod.fst :=
    fun _ => List.mem_map_of_mem
  have htallied := hended.sound.tallied
  generalize hresult : runJob source = result at hended htallied
  refine ⟨?_, ?_, ?_, ?_, ?_, ?_, ?_, ?_, ?_, ?_⟩ <;> rw [hresult]
  · exact hended.requests
  · exact hended.sound.answers
  · exact hended.sound.nodup
  · intro id
    simpa using (hended.dispatches id).symm
  · intro h listing hlisting
    refine (hended.completed ?_).2 _ (hfst listing hlisting)
    cases houtcome : result.1 with
    | error e => simp [houtcome, finish] at h
    | ok outcome =>
        rw [houtcome] at h
        cases outcome with
        | completed warning =>
            cases h
            rfl
        | cancelled => cases h
  · intro h listing hlisting
    cases houtcome : result.1 with
    | error e => exact (hended.failed e houtcome).2 _ (hfst listing hlisting)
    | ok outcome =>
        rw [houtcome] at h
        cases outcome <;> cases h
  · intro h
    cases houtcome : result.1 with
    | error e => simp [houtcome, finish] at h
    | ok outcome =>
        rw [houtcome] at h
        cases outcome with
        | completed warning => cases h
        | cancelled => exact hended.running houtcome
  · rw [hended.sound.row]
    exact htallied.itemsSeen
  · rw [hended.sound.row, htallied.itemsSeen]
    exact htallied.outcomes
  · rw [hended.sound.row]
    exact htallied.decisions.symm

/-- Popular has three pages, the first fetched again after an error; latest
repeats an id and fails on its second page. -/
def unsteady : Source where
  browse
    | .popular, 1, 1 => .error "timeout"
    | .popular, 1, _ => .ok ⟨true, [1, 2, 1]⟩
    | .popular, 2, _ => .ok ⟨true, []⟩
    | .popular, _, _ => .ok ⟨false, [3]⟩
    | .latest, 1, _ => .ok ⟨true, [2, 4]⟩
    | .latest, _, _ => .error "502"
  ingest
    | 1 => .ok .new
    | 2 => .ok .mangadexId
    | 3 => .error
    | _ => .ok .existing
  joined := List.reverse
  joined_perm := List.reverse_perm
  cancelled _ _ := false

/-- A source whose second listing fails. -/
theorem accounted_unsteady :
    Accounted unsteady ∧
      finish (runJob unsteady).1 = (.completed, some "latest listing failed: 502") ∧
      (runJob unsteady).2.row = ⟨4, 4, 3, 1, 1, 1, 0, 1⟩ :=
  ⟨accounted_of_running fun _ _ => rfl, by decide +kernel, by decide +kernel⟩

end Komika.Ingest.Jobs
