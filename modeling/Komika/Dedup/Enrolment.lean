import Komika.Catalog.Candidates
import Komika.Catalog.Escalation
import Komika.Dedup.Resolve

/-!
# Adding a source series

`add_source_series_core_ex` of `graphql/mod.rs`: a call looks for the mapping of
its series, asks the matcher for a work, mints one if there is none, claims the
mapping, looks at who won the claim, and reclaims the work it minted if it lost.
Each of these is a commit of its own: calls run between each other's statements
and between merges, and any statement can fail.

A call is a phase, and the answers it gets from outside come with its step (`Oracle`).
What a run of calls loses or keeps is the subject of `Interleaving`.
-/

namespace Komika.Dedup.Enrolment

open Komika.Lib
open Komika.Catalog.Schema Komika.Catalog.Database Komika.Catalog.Ingest
open Komika.Catalog.Merge Komika.Catalog.Runs
open Komika.Catalog.Candidates (insertMergeCandidate)
open Komika.Catalog.Escalation (markWorkNsfw)
open Komika.Dedup.Similarity (pieces federatedMinTitleChars)
open Komika.Dedup.Resolve

/-! ## The series

What a source says of it, and what becomes of it in a work. -/

/-- `SuwayomiManga`, as far as the call reads it. -/
structure SuwayomiManga where
  id : Int
  title : String
  url : Option String
  author : Option String
  artist : Option String
  description : Option String
  genre : List String
  status : String
  sourceId : String

/-- The keys of `genre_is_nsfw`. -/
def adultGenres : List String :=
  ["hentai", "erotica", "smut", "pornographic", "adult", "mature", "18+", "nsfw", "r18",
   "r-18"]

/-- `genre_is_nsfw`: one of the words occurs in a genre, in any case. -/
def genreIsNsfw (genre : List String) : Bool :=
  genre.any fun g => adultGenres.any fun k => k.toList <:+: g.toList.map Char.toLower

/-- `is_uuid`.  A character outside ASCII is neither a digit nor a hyphen. -/
def isUuid (s : String) : Bool :=
  s.length = 36 && s.toList.zipIdx.all fun (ch, i) =>
    if [8, 13, 18, 23].contains i then ch = '-'
    else ch.isDigit || "abcdefABCDEF".toList.contains ch

/-- `mangadex_uuid`: the first segment of the URL that is a uuid, in lower case. -/
def mangadexUuid (rules : TextRules) (url : String) : Option String :=
  ((pieces (['/', '?', '#'].contains ·) url).find? fun seg => isUuid (rules.trim seg)).map
    fun seg => (rules.trim seg).map Char.toLower

/-- The arguments of a call. -/
structure Call where
  m : SuwayomiManga
  coverPhash : Option String
  consolidate : Bool

/-- The key of the mapping that the call is about. -/
def Call.key (call : Call) : String × String × String :=
  ("suwayomi", call.m.sourceId, toString call.m.id)

/-- `cand`: Suwayomi knows no external ids. -/
def Call.candidate (call : Call) : Candidate where
  title := call.m.title
  altTitles := []
  description := call.m.description
  author := call.m.author
  year := none
  coverPhash := call.coverPhash
  externalIds := []

/-- `make_work`: the new work, from what the source says; its flag is the source's. -/
def Call.makeWork (call : Call) (sourceNsfw : Bool) : WorkInput :=
  { titled call.m.title with
    description := call.m.description
    author := call.m.author
    artist := call.m.artist
    status := some call.m.status
    isNsfw := sourceNsfw
    coverPhash := call.coverPhash }

/-! ## What a call links to

The matcher's verdict, and whether its work is reused or a new one is minted. -/

/-- `MatchResult`, what the mutation returns. -/
structure MatchResult where
  decision : String
  workId : Id
  matchedWorkId : Option Id
  score : Option Float
  method : Option String
  sourceSeriesId : Id

/-- `federated_consolidate_ok`: above the middle of the scale, and under a title of some
length. -/
def federatedConsolidateOk (rules : TextRules) (score : Float) (title : String) : Bool :=
  score > mid + 1e-9 && federatedMinTitleChars ≤ (rules.normalizeTitle title).length

/-- What the call is going to link: `decision_str` and the rest of that tuple, with
`minted_work`. -/
structure Linkage where
  decision : String
  matchedWorkId : Option Id
  score : Option Float
  method : Option String
  workId : Id
  mintedWork : Option Id

/-- The arms that reuse a work. -/
def Call.reuse (rules : TextRules) (call : Call) : Decision → Option Linkage
  | .autoMerge workId score method =>
      some ⟨"auto_merge", some workId, some score, some method, workId, none⟩
  | .review workId score method =>
      if call.consolidate && federatedConsolidateOk rules score call.m.title then
        some ⟨"review_consolidated", some workId, some score, some method, workId, none⟩
      else none
  | .new => none

/-- The arms that mint one. -/
def provisional (newWorkId : Id) : Decision → Linkage
  | .review workId score method =>
      ⟨"review", some workId, some score, some method, newWorkId, some newWorkId⟩
  | _ => ⟨"new", none, none, none, newWorkId, some newWorkId⟩

/-- A concurrent call won the claim. -/
def Linkage.adopt (l : Linkage) (stored : Id) : Linkage :=
  { l with decision := "existing", workId := stored }

/-- The work to propose to a reviewer. -/
def Linkage.proposed (l : Linkage) : Option Id :=
  if l.decision = "review" then l.matchedWorkId else none

/-- What the call returns, once the mapping is its own. -/
def Linkage.result (l : Linkage) (ssid : Id) : MatchResult :=
  ⟨l.decision, l.workId, l.matchedWorkId, l.score, l.method, ssid⟩

/-! ## The statements of a call

Each is a commit; a call that fails stops where it is. -/

/-- How far a call has come, with what it will still use. -/
inductive Phase where
  | entered
  /-- The series has no mapping; the flag of its source is next. -/
  | unlinked
  | flagged (sourceNsfw : Bool)
  /-- MangaDex has the series, as this work. -/
  | anchored (sourceNsfw : Bool) (workId : Id)
  | anchorLinked (sourceNsfw : Bool) (workId ssid : Id)
  | anchorMarked (workId ssid : Id)
  | unanchored (sourceNsfw : Bool)
  /-- The verdict calls for a work of its own. -/
  | minting (sourceNsfw : Bool) (verdict : Decision)
  | linking (sourceNsfw : Bool) (l : Linkage)
  | linked (sourceNsfw : Bool) (l : Linkage) (ssid : Id)
  /-- The claim is lost; the minted work is still there. -/
  | lost (sourceNsfw : Bool) (l : Linkage) (ssid stored : Id)
  | settled (sourceNsfw : Bool) (l : Linkage) (ssid : Id)
  | marked (l : Linkage) (ssid : Id)
  /-- `Ok`, after a call that minted `mintedWork`. -/
  | returned (result : MatchResult) (mintedWork : Option Id)
  /-- `Err`. -/
  | failed (mintedWork : Option Id)

/-- What a statement gets from elsewhere: the ids `new_id` mints, the clock,
`source_extension.is_nsfw`, and the verdict of `resolve`, which reads the catalogue in
several statements and may have seen it at several times. -/
structure Oracle where
  newWorkId : Id
  newSourceSeriesId : Id
  newCandidateId : Id
  now : String
  sourceExtNsfw : Bool
  verdict : Decision

/-- `find_source_series`: the mapping of the key, and the work that it is on now. -/
def findSourceSeries (db : Db) (key : String × String × String) : Option (Id × Id) :=
  (db.sourceSeries.rows.find? fun r => r.key = key).map fun r => (r.id, r.workId)

/-- The work that MangaDex has the series as. -/
def Call.anchor (rules : TextRules) (call : Call) (db : Db) : Option Id :=
  (call.m.url.bind (mangadexUuid rules)).bind fun uuid =>
    (findSourceSeries db ("mangadex", "mangadex", uuid)).map Prod.snd

/-- `create_work`, as a step of the catalogue. -/
def Call.create (call : Call) (o : Oracle) (sourceNsfw : Bool) : Op :=
  .createWork o.newWorkId (call.makeWork sourceNsfw)

/-- `upsert_source_series`, as a step of the catalogue. -/
def Call.upsert (call : Call) (o : Oracle) (sourceNsfw : Bool) (workId : Id) : Op :=
  .upsertSourceSeries o.newSourceSeriesId workId "suwayomi" call.m.sourceId
    (toString call.m.id) none sourceNsfw o.now

/-- The mapping that it offers. -/
def Call.row (call : Call) (o : Oracle) (sourceNsfw : Bool) (workId : Id) : SourceSeries :=
  ⟨o.newSourceSeriesId, workId, "suwayomi", call.m.sourceId, toString call.m.id, none,
    sourceNsfw, some o.now⟩

/-- The claim of a call that waits in the phase `waiting`. -/
def Call.claim (rules : Rules) (call : Call) (o : Oracle) (catalog : CatalogState)
    (sourceNsfw : Bool) (workId : Id) (mintedWork : Option Id) (waiting : Phase)
    (next : Id → Phase) : CatalogState × Phase :=
  if catalog.fresh (call.upsert o sourceNsfw workId) then
    (catalog.step rules (call.upsert o sourceNsfw workId),
      match ensureSourceSeries (call.row o sourceNsfw workId) o.now catalog.db with
      | .ok (ssid, _) => next ssid
      | .error _ => .failed mintedWork)
  else (catalog, waiting)

/-- `mark_work_nsfw`, where the source is flagged.  `resync_feed_nsfw` only writes
copies of the flag. -/
def markIf (sourceNsfw : Bool) (workId : Id) (catalog : CatalogState) : CatalogState :=
  if sourceNsfw then { catalog with db := markWorkNsfw workId catalog.db } else catalog

/-- The H6 re-check: the mapping is read again after the upsert, and where another call
was first, the call adopts its work or gives its own up. -/
def Call.recheck (call : Call) (db : Db) (sourceNsfw : Bool) (l : Linkage) (ssid : Id) :
    Phase :=
  match findSourceSeries db call.key with
  | none => .settled sourceNsfw l ssid
  | some (_, stored) =>
      if stored = l.workId then .settled sourceNsfw l ssid
      else if l.mintedWork = some l.workId then .lost sourceNsfw l ssid stored
      else .settled sourceNsfw (l.adopt stored) ssid

/-- The next statement of a call. -/
def Call.advance (rules : Rules) (call : Call) (o : Oracle) (catalog : CatalogState) :
    Phase → CatalogState × Phase
  | .entered =>
      match findSourceSeries catalog.db call.key with
      | some (ssid, workId) =>
          (catalog, .returned ⟨"existing", workId, none, none, none, ssid⟩ none)
      | none => (catalog, .unlinked)
  | .unlinked => (catalog, .flagged (genreIsNsfw call.m.genre || o.sourceExtNsfw))
  | .flagged sourceNsfw =>
      match call.anchor rules.toTextRules catalog.db with
      | some workId => (catalog, .anchored sourceNsfw workId)
      | none => (catalog, .unanchored sourceNsfw)
  | .anchored sourceNsfw workId =>
      call.claim rules o catalog sourceNsfw workId none (.anchored sourceNsfw workId)
        (.anchorLinked sourceNsfw workId)
  | .anchorLinked sourceNsfw workId ssid =>
      (markIf sourceNsfw workId catalog, .anchorMarked workId ssid)
  | .anchorMarked workId ssid =>
      let linked := ((findSourceSeries catalog.db call.key).map Prod.snd).getD workId
      (catalog,
        .returned ⟨"mangadex_id", linked, none, none, some "mangadex_id", ssid⟩ none)
  | .unanchored sourceNsfw =>
      match call.reuse rules.toTextRules o.verdict with
      | some l => (catalog, .linking sourceNsfw l)
      | none => (catalog, .minting sourceNsfw o.verdict)
  | .minting sourceNsfw verdict =>
      if catalog.fresh (call.create o sourceNsfw) then
        (catalog.step rules (call.create o sourceNsfw),
          match createWork rules.toTextRules o.newWorkId (call.makeWork sourceNsfw)
              catalog.db with
          | .ok (workId, _) => .linking sourceNsfw (provisional workId verdict)
          | .error _ => .failed none)
      else (catalog, .minting sourceNsfw verdict)
  | .linking sourceNsfw l =>
      call.claim rules o catalog sourceNsfw l.workId l.mintedWork (.linking sourceNsfw l)
        (.linked sourceNsfw l)
  | .linked sourceNsfw l ssid => (catalog, call.recheck catalog.db sourceNsfw l ssid)
  | .lost sourceNsfw l ssid stored =>
      (catalog.step rules (.deleteWorkCascade l.workId),
        .settled sourceNsfw (l.adopt stored) ssid)
  | .settled sourceNsfw l ssid => (markIf sourceNsfw l.workId catalog, .marked l ssid)
  | .marked l ssid =>
      match l.proposed with
      | none => (catalog, .returned (l.result ssid) l.mintedWork)
      | some workId =>
          match insertMergeCandidate o.newCandidateId ssid workId catalog.db with
          | .ok (_, db) =>
              ({ catalog with db := db }, .returned (l.result ssid) l.mintedWork)
          | .error _ => (catalog, .failed l.mintedWork)
  | .returned result mintedWork => (catalog, .returned result mintedWork)
  | .failed mintedWork => (catalog, .failed mintedWork)

/-- The work that the call has minted. -/
def Phase.minted : Phase → Option Id
  | .linking _ l => l.mintedWork
  | .linked _ l _ => l.mintedWork
  | .lost _ l _ _ => l.mintedWork
  | .settled _ l _ => l.mintedWork
  | .marked l _ => l.mintedWork
  | .returned _ mintedWork => mintedWork
  | .failed mintedWork => mintedWork
  | _ => none

/-- The work that the next statement of the call deletes. -/
def Phase.reclaims : Phase → Option Id
  | .lost _ l _ _ => some l.workId
  | _ => none

/-- The claim is still to be settled. -/
def Phase.unsettled : Phase → Option Linkage
  | .linking _ l => some l
  | .linked _ l _ => some l
  | .lost _ l _ _ => some l
  | _ => none

/-- The series has a mapping, by this call or by another. -/
def Phase.claimed : Phase → Bool
  | .anchorLinked _ _ _ => true
  | .anchorMarked _ _ => true
  | .linked _ _ _ => true
  | _ => false

/-- The work that the call has found to own the mapping. -/
def Phase.owner : Phase → Option Id
  | .lost _ _ _ stored => some stored
  | .settled _ l _ => some l.workId
  | .marked l _ => some l.workId
  | .returned result _ => some result.workId
  | _ => none

/-- The call has returned. -/
def Phase.done : Phase → Bool
  | .returned _ _ => true
  | .failed _ => true
  | _ => false

/-- The phase after the next statement has failed. -/
def Phase.fail : Phase → Phase
  | .returned result mintedWork => .returned result mintedWork
  | p => .failed p.minted

theorem findSourceSeries_eq_none {db : Db} {key : String × String × String} :
    findSourceSeries db key = none ↔ ∀ r ∈ db.sourceSeries, r.key ≠ key := by
  simp [findSourceSeries, Table.mem_rows]

/-- The series has the mapping that is found. -/
theorem mem_of_findSourceSeries {db : Db} {key : String × String × String}
    {ssid workId : Id} (h : findSourceSeries db key = some (ssid, workId)) :
    ∃ r ∈ db.sourceSeries, r.key = key ∧ r.workId = workId := by
  obtain ⟨r, hfind, heq⟩ := Option.map_eq_some_iff.mp h
  obtain ⟨-, rfl⟩ := Prod.mk.inj heq
  exact ⟨r, List.mem_of_find?_eq_some hfind, by simpa using List.find?_some hfind, rfl⟩

/-- A work that is reused was not minted. -/
theorem mintedWork_of_reuse {rules : TextRules} {call : Call} {verdict : Decision} {l : Linkage}
    (h : call.reuse rules verdict = some l) : l.mintedWork = none := by
  unfold Call.reuse at h
  split at h
  · cases h
    rfl
  · split at h
    · cases h
      rfl
    · contradiction
  · contradiction

@[simp] theorem provisional_workId {w : Id} (verdict : Decision) :
    (provisional w verdict).workId = w := by
  cases verdict <;> rfl

@[simp] theorem provisional_mintedWork {w : Id} (verdict : Decision) :
    (provisional w verdict).mintedWork = some w := by
  cases verdict <;> rfl

theorem fail_of_not_done {phase : Phase} (h : phase.done = false) :
    phase.fail = .failed phase.minted := by
  cases phase <;> first | rfl | contradiction

/-- A call that has returned does not. -/
theorem fail_of_done {phase : Phase} (h : phase.done = true) : phase.fail = phase := by
  cases phase <;> first | rfl | contradiction

/-! ## Runs

Calls next to each other, and next to merges and splits. -/

/-- The catalogue, and the calls. -/
structure EnrolState where
  catalog : CatalogState
  calls : List (Call × Phase)

/-- No call has begun. -/
def start (catalog : CatalogState) (calls : List Call) : EnrolState :=
  ⟨catalog, calls.map fun call => (call, .entered)⟩

/-- A step of a call, its failure, or a write of the catalogue. -/
inductive EnrolEvent where
  /-- The next statement of the `i`-th call. -/
  | call (i : Nat) (o : Oracle)
  /-- It fails. -/
  | fail (i : Nat)
  | merge (source target : Id) (expected : Option (WorkIdentity × WorkIdentity))

/-- The state after an event. -/
def step (rules : Rules) (s : EnrolState) : EnrolEvent → EnrolState
  | .call i o =>
      match s.calls[i]? with
      | none => s
      | some (call, phase) =>
          let (catalog, phase) := call.advance rules o s.catalog phase
          ⟨catalog, s.calls.set i (call, phase)⟩
  | .fail i =>
      match s.calls[i]? with
      | none => s
      | some (call, phase) => { s with calls := s.calls.set i (call, phase.fail) }
  | .merge source target expected =>
      { s with catalog := s.catalog.step rules (.mergeWorks source target expected) }

section Steps

variable {rules : Rules} {s : EnrolState} {i : Nat} {call : Call} {phase : Phase}

theorem step_call {o : Oracle} (hcall : s.calls[i]? = some (call, phase)) :
    step rules s (.call i o) = ⟨(call.advance rules o s.catalog phase).1,
      s.calls.set i (call, (call.advance rules o s.catalog phase).2)⟩ := by
  simp [step, hcall]

theorem step_fail (hcall : s.calls[i]? = some (call, phase)) :
    step rules s (.fail i) = { s with calls := s.calls.set i (call, phase.fail) } := by
  simp [step, hcall]

end Steps

end Komika.Dedup.Enrolment
