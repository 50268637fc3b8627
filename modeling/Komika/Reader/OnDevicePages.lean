import Komika.Lib.Binary64
import Komika.Lib.Machine
import Komika.Reader.ResolveWork

/-!
# Pages from the engine on the device

`CompositeBackend` (`packages/api/src/composite-backend.ts`), the part that reads:
`canonicalChapters` reconciles the chapters of a work with those of the local engine, by
number, and `canonicalPages` serves what has been reconciled from the engine.

Any number of `canonicalChapters` calls run at once; an event below is the synchronous
piece that runs when the promise a call awaits settles.  `isReady` does not throw.
`canonicalPages` reads the map in one piece, once the engine has said that it is ready.

`last` and `home` are history: no branch of the code reads them.  They say what the last
reconciliation of a work to complete has compared, and which work that was whose list had
a chapter last.

* `step_cases` — what a piece may write;
* `servesOwn_iff` — the engine serves what the last reconciliation has matched exactly
  along the runs in which every reconciliation matches again what the map has of its work.
  The map is only ever added to.  `canonicalChapters` resolves to the hosted list along
  every run, whatever fails.

The map is only ever added to, so what a chapter is served from may be older than the
last reconciliation of its work.  `OwnChapter` says what it should be, and `Rematches`
when a reconciliation keeps it so.
-/

namespace Komika.Reader.OnDevicePages

open Komika.Lib
open Komika.Reader.ResolveWork (WorkSource SourceType Page)

/-! ## The code

A call in pieces, each from one `await` to the next. -/

/-- A chapter, hosted or of the engine. -/
structure Chapter where
  id : String
  number : Binary64
  scanlator : Option String
deriving DecidableEq

/-- `Math.abs(a - b)`, rounded as the difference of two numbers is. -/
def distance : Binary64 → Binary64 → Binary64
  | .finite s m, .finite t n =>
      let units := Binary64.roundUnits (Binary64.signed s m - Binary64.signed t n).natAbs
      if 2 ^ 1024 * Binary64.one ≤ units then .infinity false else .finite false units
  | .nan, _ => .nan
  | _, .nan => .nan
  | .infinity s, .infinity t => if s = t then .nan else .infinity false
  | .infinity _, .finite _ _ => .infinity false
  | .finite _ _, .infinity _ => .infinity false

/-- The binary64 number nearest to `1e-6`. -/
def tolerance : Binary64 := .finite false (4722366482869645 * 2 ^ 1002)

/-- The numbers of the two chapters are the same. -/
def sameNumber (e ch : Chapter) : Bool := (distance e.number ch.number).lt tolerance

/-- The engine's chapter for a canonical one. -/
def pick (engineChs : List Chapter) (ch : Chapter) : Option Chapter :=
  let candidates := engineChs.filter (sameNumber · ch)
  if 1 < candidates.length then
    (candidates.find? fun e => e.scanlator.isSome && e.scanlator = ch.scanlator).or
      candidates.head?
  else candidates.head?

/-- Which chapter of the engine a canonical chapter is served from. -/
abbrev ChapterMap := String → Option String

/-- The body of the loop over the canonical chapters. -/
def reconcileOne (engineChs : List Chapter) (chapterMap : ChapterMap) (ch : Chapter) :
    ChapterMap :=
  match pick engineChs ch with
  | none => chapterMap
  | some e => Function.update chapterMap ch.id (some e.id)

/-- The loop over the canonical chapters. -/
def reconcile (engineChs chs : List Chapter) (chapterMap : ChapterMap) : ChapterMap :=
  chs.foldl (reconcileOne engineChs) chapterMap

/-- `ws`: the mapping that the engine can resolve or provision. -/
def usableSource (sources : List WorkSource) : Option WorkSource :=
  sources.find? fun s => s.sourceType = .mangadex || s.pkgName.isSome

/-- What a call of `canonicalChapters` awaits, with `chs`. -/
inductive Awaiting where
  | hosted
  | ready (chs : List Chapter)
  | sources (chs : List Chapter)
  | ref (chs : List Chapter)
  | engine (chs : List Chapter)
  | resolved (chs : List Chapter)
  | rejected

/-- A call of `canonicalChapters` that waits for a promise. -/
structure Call where
  workId : String
  /-- What `hosted.canonicalChapters` has answered, if it has. -/
  hosted : Option (List Chapter)
  awaiting : Awaiting

/-- What a promise settles to; `none` is a rejection. -/
inductive Outcome where
  | hosted (chs : Option (List Chapter))
  | ready (isReady : Bool)
  | sources (sources : Option (List WorkSource))
  /-- Whether `refFor` finds a reference. -/
  | ref (found : Option Bool)
  | engine (engineChs : Option (List Chapter))

/-- A call begins, or the promise that one waits for settles. -/
inductive Event where
  | call (workId : String)
  | settle (n : Nat) (outcome : Outcome)

/-- What a reconciliation has compared. -/
structure Reconciliation where
  chs : List Chapter
  engineChs : List Chapter
deriving DecidableEq

/-- The calls, the map, and the history. -/
structure CompositeBackend where
  localUnusable : List String
  localChapterMap : ChapterMap
  calls : List Call
  last : String → Option Reconciliation
  home : String → Option String

/-- No call has been made. -/
def start : CompositeBackend := ⟨[], fun _ => none, [], fun _ => none, fun _ => none⟩

/-- What a piece writes. -/
inductive Effect where
  | nothing
  /-- `localUnusable.add(workId)`. -/
  | markUnusable
  /-- A reconciliation completes. -/
  | complete (chs engineChs : List Chapter)

/-- What a call does when what it awaits settles: what it writes, and what it awaits
then.  `refFor` says whether the local backend has that method. -/
def piece (refFor unusable : Bool) : Awaiting → Outcome → Option (Effect × Awaiting)
  | .hosted, .hosted none => some (.nothing, .rejected)
  | .hosted, .hosted (some chs) =>
      some (.nothing, if unusable then .resolved chs else .ready chs)
  | .ready chs, .ready isReady =>
      some (.nothing, if isReady then .sources chs else .resolved chs)
  | .sources chs, .sources none => some (.nothing, .resolved chs)
  | .sources chs, .sources (some sources) =>
      if !refFor then some (.nothing, .resolved chs)
      else if (usableSource sources).isNone then some (.markUnusable, .resolved chs)
      else some (.nothing, .ref chs)
  | .ref chs, .ref found =>
      if found = some true then some (.nothing, .engine chs)
      else some (.markUnusable, .resolved chs)
  | .engine chs, .engine none => some (.markUnusable, .resolved chs)
  | .engine chs, .engine (some engineChs) =>
      some (.complete chs engineChs, .resolved chs)
  | _, _ => none

/-- What `hosted` has answered, after an outcome. -/
def answered (hosted : Option (List Chapter)) : Awaiting → Outcome → Option (List Chapter)
  | .hosted, .hosted chs => chs
  | _, _ => hosted

namespace CompositeBackend

/-- What the piece of a call writes. -/
def write (s : CompositeBackend) (workId : String) : Effect → CompositeBackend
  | .nothing => s
  | .markUnusable => { s with localUnusable := workId :: s.localUnusable }
  | .complete chs engineChs =>
      { s with
        localChapterMap := reconcile engineChs chs s.localChapterMap
        last := Function.update s.last workId (some ⟨chs, engineChs⟩)
        home := fun id => if chs.any (·.id = id) then some workId else s.home id }

/-- The state after an event. -/
def step (refFor : Bool) (s : CompositeBackend) : Event → CompositeBackend
  | .call workId => { s with calls := s.calls ++ [⟨workId, none, .hosted⟩] }
  | .settle n outcome =>
      match s.calls[n]? with
      | none => s
      | some c =>
          match piece refFor (s.localUnusable.contains c.workId) c.awaiting outcome with
          | none => s
          | some (effect, awaiting) =>
              let c' := ⟨c.workId, answered c.hosted c.awaiting outcome, awaiting⟩
              { s.write c.workId effect with calls := s.calls.set n c' }

end CompositeBackend

/-- Where pages come from. -/
inductive Served (π : Type) where
  /-- The engine's chapter of this id. -/
  | engine (id : String) (pages : π)
  | hosted (pages : Option π)

/-- `canonicalPages`, from when the engine has said whether it is ready. -/
def canonicalPages {π : Type} (s : CompositeBackend) (isReady : Bool)
    (localPages : String → Option π) (hosted : Option π) (chapterId : String) : Served π :=
  match (if isReady then s.localChapterMap chapterId else none) with
  | none => .hosted hosted
  | some id =>
      match localPages id with
      | some pages => .engine id pages
      | none => .hosted hosted

/-! ## Reconciliation

What the loop leaves of the map. -/

/-- The lists have the chapter `id`, and the engine's chapter `e` with its number. -/
def Reconciliation.Matches (r : Reconciliation) (id e : String) : Prop :=
  ∃ ch ∈ r.chs, ch.id = id ∧ ∃ x ∈ r.engineChs, x.id = e ∧ sameNumber x ch = true

section Reconcile

variable {engineChs chs : List Chapter} {chapterMap : ChapterMap} {ch : Chapter} {id e : String}

theorem pick_spec {x : Chapter} (h : pick engineChs ch = some x) :
    x ∈ engineChs ∧ sameNumber x ch = true := by
  apply List.mem_filter.mp
  unfold pick at h
  dsimp only at h
  split at h
  · rcases Option.or_eq_some_iff.mp h with h | ⟨-, h⟩
    · exact List.mem_of_find?_eq_some h
    · exact List.mem_of_head? h
  · exact List.mem_of_head? h

theorem pick_eq_none (h : pick engineChs ch = none) :
    ∀ x ∈ engineChs, sameNumber x ch = false := by
  have hhead : (engineChs.filter (sameNumber · ch)).head? = none := by
    unfold pick at h
    dsimp only at h
    split at h
    · exact (Option.or_eq_none_iff.mp h).2
    · exact h
  intro x hx
  simpa using List.filter_eq_nil_iff.mp (List.head?_eq_none_iff.mp hhead) x hx

theorem reconcileOne_of_none (h : pick engineChs ch = none) :
    reconcileOne engineChs chapterMap ch = chapterMap := by
  rw [reconcileOne, h]

theorem reconcileOne_of_some {x : Chapter} (h : pick engineChs ch = some x) :
    reconcileOne engineChs chapterMap ch = Function.update chapterMap ch.id (some x.id) := by
  rw [reconcileOne, h]

/-- An entry is of a match, or it is an old one of a chapter without any. -/
theorem reconcile_spec (h : reconcile engineChs chs chapterMap id = some e) :
    (Reconciliation.mk chs engineChs).Matches id e ∨
      (chapterMap id = some e ∧ ∀ ch ∈ chs, ch.id = id → pick engineChs ch = none) := by
  induction chs generalizing chapterMap with
  | nil => exact Or.inr ⟨h, nofun⟩
  | cons ch chs ih =>
      rcases ih h with ⟨c, hc, hid, hx⟩ | ⟨hold, hnone⟩
      · exact Or.inl ⟨c, List.mem_cons_of_mem _ hc, hid, hx⟩
      · cases hpick : pick engineChs ch with
        | none =>
            rw [reconcileOne_of_none hpick] at hold
            exact Or.inr ⟨hold, List.forall_mem_cons.mpr ⟨fun _ => hpick, hnone⟩⟩
        | some x =>
            obtain ⟨hx, hsame⟩ := pick_spec hpick
            rw [reconcileOne_of_some hpick] at hold
            by_cases hid : id = ch.id
            · rw [hid, Function.update_self] at hold
              exact Or.inl ⟨ch, List.mem_cons_self, hid.symm, x, hx, Option.some.inj hold, hsame⟩
            · rw [Function.update_of_ne hid] at hold
              exact Or.inr ⟨hold, List.forall_mem_cons.mpr ⟨fun h => absurd h.symm hid, hnone⟩⟩

theorem isSome_reconcile (h : (chapterMap id).isSome = true) :
    (reconcile engineChs chs chapterMap id).isSome = true := by
  induction chs generalizing chapterMap with
  | nil => exact h
  | cons ch chs ih =>
      apply ih
      cases hpick : pick engineChs ch with
      | none => rwa [reconcileOne_of_none hpick]
      | some x =>
          rw [reconcileOne_of_some hpick]
          by_cases hid : id = ch.id
          · rw [hid, Function.update_self]
            rfl
          · rwa [Function.update_of_ne hid]

end Reconcile

/-! ## The property

What is served, against what was compared last. -/

/-- The last reconciliation of the chapter's work to complete has matched it to `e`. -/
def OwnChapter (s : CompositeBackend) (id e : String) : Prop :=
  ∃ workId r, s.home id = some workId ∧ s.last workId = some r ∧ r.Matches id e

/-- What the engine serves for a chapter is what that has matched. -/
def ServesOwn (s : CompositeBackend) : Prop :=
  ∀ isReady (localPages : String → Option (List Page)) hosted id e pages,
    canonicalPages s isReady localPages hosted id = .engine e pages → OwnChapter s id e

/-- `canonicalChapters` resolves to what `hosted` has answered, and rejects only with it. -/
def Resolves (s : CompositeBackend) : Prop :=
  ∀ c ∈ s.calls, (∀ chs, c.awaiting = .resolved chs → c.hosted = some chs) ∧
    (c.awaiting = .rejected → c.hosted = none)

/-- A reconciliation that completes matches every chapter of the map that its work's list
has, or had when it was last compared. -/
def Rematches (s : CompositeBackend) : Event → Prop
  | .settle n (.engine (some engineChs)) =>
      ∀ c chs, s.calls[n]? = some c → c.awaiting = .engine chs →
        ∀ id, (s.localChapterMap id).isSome = true →
          (s.home id = some c.workId ∨ ∃ ch ∈ chs, ch.id = id) →
            ∃ ch ∈ chs, ch.id = id ∧ ∃ x ∈ engineChs, sameNumber x ch = true
  | _ => True

section Runs

variable {refFor : Bool} {s : CompositeBackend} {e : Event}

theorem servesOwn_iff_map :
    ServesOwn s ↔ ∀ id e, s.localChapterMap id = some e → OwnChapter s id e := by
  constructor
  · intro h id e hmap
    apply h true (fun _ => some []) none id e []
    simp [canonicalPages, hmap]
  · intro h isReady localPages hosted id e pages hserved
    unfold canonicalPages at hserved
    split at hserved
    · cases hserved
    · next id' hid =>
        split at hserved
        · cases hserved
          exact h id _ (Option.ite_none_right_eq_some.mp hid).2
        · cases hserved

theorem complete_of_piece {unusable : Bool} {awaiting awaiting' : Awaiting} {outcome : Outcome}
    {chs engineChs : List Chapter}
    (h : piece refFor unusable awaiting outcome = some (.complete chs engineChs, awaiting')) :
    awaiting = .engine chs ∧ outcome = .engine (some engineChs) := by
  unfold piece at h
  split at h
  case h_5 =>
    split at h
    · cases h
    · split at h <;> cases h
  case h_6 => split at h <;> cases h
  case h_8 =>
    cases h
    exact ⟨rfl, rfl⟩
  all_goals cases h

/-- The list that a call has, if `hosted` has answered. -/
def Awaiting.chs : Awaiting → Option (List Chapter)
  | .hosted | .rejected => none
  | .ready chs | .sources chs | .ref chs | .engine chs | .resolved chs => some chs

theorem chs_of_piece {unusable : Bool} {awaiting awaiting' : Awaiting} {outcome : Outcome}
    {effect : Effect} (h : piece refFor unusable awaiting outcome = some (effect, awaiting')) :
    awaiting'.chs = answered awaiting.chs awaiting outcome := by
  unfold piece at h
  split at h
  case h_2 =>
    cases h
    cases unusable <;> rfl
  case h_3 =>
    cases h
    split <;> rfl
  case h_5 =>
    split at h
    · cases h
      rfl
    · split at h <;> cases h <;> rfl
  case h_6 => split at h <;> cases h <;> rfl
  case h_9 => cases h
  all_goals
    cases h
    rfl

/-- Every call has the list that `hosted` has answered. -/
def Carries (s : CompositeBackend) : Prop := ∀ c ∈ s.calls, c.hosted = c.awaiting.chs

theorem resolves_of_carries (h : Carries s) : Resolves s := by
  intro c hc
  have hcarries := h c hc
  constructor
  · intro chs hresolved
    rw [hcarries, hresolved]
    rfl
  · intro hrejected
    rw [hcarries, hrejected, Awaiting.chs]

theorem rematches_of_not_engine {n : Nat} {outcome : Outcome}
    (h : ∀ c chs engineChs, s.calls[n]? = some c → c.awaiting = .engine chs →
      outcome ≠ .engine (some engineChs)) : Rematches s (.settle n outcome) := by
  unfold Rematches
  split
  · next engineChs heq =>
      cases heq
      exact fun c chs hc hchs => absurd rfl (h c chs engineChs hc hchs)
  · trivial

/-- An outcome that completes no reconciliation of its call asks for nothing. -/
theorem rematches_of_incomplete {n : Nat} {c : Call} {outcome : Outcome} {unusable : Bool}
    (hc : s.calls[n]? = some c)
    (h : ∀ chs engineChs awaiting,
      piece refFor unusable c.awaiting outcome ≠ some (.complete chs engineChs, awaiting)) :
    Rematches s (.settle n outcome) := by
  apply rematches_of_not_engine
  rintro c' chs engineChs hsome hchs rfl
  obtain rfl := Option.some.inj (hc.symm.trans hsome)
  apply h chs engineChs (.resolved chs)
  rw [hchs]
  rfl

/-- A step writes nothing that pages are served by, or completes a reconciliation. -/
theorem step_cases (refFor : Bool) (s : CompositeBackend) (e : Event) :
    (∃ calls unusable, s.step refFor e = { s with calls := calls, localUnusable := unusable } ∧
        Rematches s e) ∨
      ∃ n c chs engineChs calls, e = .settle n (.engine (some engineChs)) ∧
        s.calls[n]? = some c ∧ c.awaiting = .engine chs ∧
          s.step refFor e = { s.write c.workId (.complete chs engineChs) with calls := calls } := by
  cases e with
  | call workId => exact Or.inl ⟨_, _, rfl, trivial⟩
  | settle n outcome =>
      unfold CompositeBackend.step
      dsimp only
      cases hc : s.calls[n]? with
      | none =>
          refine Or.inl ⟨s.calls, s.localUnusable, rfl, rematches_of_not_engine ?_⟩
          intro c chs engineChs hsome
          rw [hc] at hsome
          contradiction
      | some c =>
          dsimp only
          cases hpiece : piece refFor (s.localUnusable.contains c.workId) c.awaiting outcome with
          | none =>
              have hrematches : Rematches s (.settle n outcome) :=
                rematches_of_incomplete hc fun _ _ _ h => nomatch hpiece.symm.trans h
              exact Or.inl ⟨s.calls, s.localUnusable, rfl, hrematches⟩
          | some next =>
              obtain ⟨effect, awaiting⟩ := next
              cases effect with
              | nothing =>
                  have hrematches : Rematches s (.settle n outcome) :=
                    rematches_of_incomplete hc fun _ _ _ h => nomatch hpiece.symm.trans h
                  exact Or.inl ⟨_, _, rfl, hrematches⟩
              | markUnusable =>
                  have hrematches : Rematches s (.settle n outcome) :=
                    rematches_of_incomplete hc fun _ _ _ h => nomatch hpiece.symm.trans h
                  exact Or.inl ⟨_, _, rfl, hrematches⟩
              | complete chs engineChs =>
                  obtain ⟨hengine, rfl⟩ := complete_of_piece hpiece
                  exact Or.inr ⟨n, c, chs, engineChs, _, rfl, hc, hengine, rfl⟩

theorem carries_step (h : Carries s) (e : Event) : Carries (s.step refFor e) := by
  cases e with
  | call workId =>
      intro c hc
      rcases List.mem_append.mp hc with hc | hc
      · exact h c hc
      · rw [List.mem_singleton.mp hc]
        rfl
  | settle n outcome =>
      unfold CompositeBackend.step
      dsimp only
      split
      · exact h
      · next c hc =>
          split
          · exact h
          · next effect awaiting hpiece =>
              intro d hd
              rcases List.mem_or_eq_of_mem_set hd with hd | rfl
              · exact h d hd
              · show answered c.hosted c.awaiting outcome = awaiting.chs
                rw [chs_of_piece hpiece, h c (List.mem_of_getElem? hc)]

/-! ### A reconciliation that completes -/

section Complete

variable {workId id : String} {chs engineChs : List Chapter}

theorem home_of_listed (h : ∃ ch ∈ chs, ch.id = id) :
    (s.write workId (.complete chs engineChs)).home id = some workId := by
  obtain ⟨ch, hch, hid⟩ := h
  exact if_pos (List.any_eq_true.mpr ⟨ch, hch, decide_eq_true hid⟩)

theorem home_of_unlisted (h : ¬∃ ch ∈ chs, ch.id = id) :
    (s.write workId (.complete chs engineChs)).home id = s.home id := by
  apply if_neg
  intro hany
  obtain ⟨ch, hch, hid⟩ := List.any_eq_true.mp hany
  exact h ⟨ch, hch, of_decide_eq_true hid⟩

theorem last_self :
    (s.write workId (.complete chs engineChs)).last workId = some ⟨chs, engineChs⟩ :=
  Function.update_self ..

theorem last_of_ne {workId' : String} (h : workId' ≠ workId) :
    (s.write workId (.complete chs engineChs)).last workId' = s.last workId' :=
  Function.update_of_ne h ..

/-- A chapter of the work, before or by the lists, is of it after. -/
theorem home_of_work (h : s.home id = some workId ∨ ∃ ch ∈ chs, ch.id = id) :
    (s.write workId (.complete chs engineChs)).home id = some workId := by
  by_cases hlisted : ∃ ch ∈ chs, ch.id = id
  · exact home_of_listed hlisted
  · rw [home_of_unlisted hlisted]
    exact h.resolve_right hlisted

/-- A chapter that is not of the work keeps what it has. -/
theorem ownChapter_of_unlisted {e : String} (hunlisted : ¬∃ ch ∈ chs, ch.id = id)
    (hother : s.home id ≠ some workId) (h : OwnChapter s id e) :
    OwnChapter (s.write workId (.complete chs engineChs)) id e := by
  obtain ⟨workId', r, hhome, hlast, hmatches⟩ := h
  have hne : workId' ≠ workId := by
    rintro rfl
    exact hother hhome
  exact ⟨workId', r, (home_of_unlisted hunlisted).trans hhome, (last_of_ne hne).trans hlast,
    hmatches⟩

/-- A chapter that the lists match is of the work. -/
theorem ownChapter_of_matches {e : String} (h : (Reconciliation.mk chs engineChs).Matches id e) :
    OwnChapter (s.write workId (.complete chs engineChs)) id e := by
  have hlisted : ∃ ch ∈ chs, ch.id = id := by
    obtain ⟨ch, hch, hid, -⟩ := h
    exact ⟨ch, hch, hid⟩
  exact ⟨workId, ⟨chs, engineChs⟩, home_of_listed hlisted, last_self, h⟩

/-- A chapter of the work that is served is one that the lists match. -/
theorem matches_of_ownChapter {e : String}
    (hwork : s.home id = some workId ∨ ∃ ch ∈ chs, ch.id = id)
    (h : OwnChapter (s.write workId (.complete chs engineChs)) id e) :
    (Reconciliation.mk chs engineChs).Matches id e := by
  obtain ⟨workId', r, hhome, hlast, hmatches⟩ := h
  obtain rfl : workId' = workId := Option.some.inj (hhome.symm.trans (home_of_work hwork))
  obtain rfl : r = ⟨chs, engineChs⟩ := Option.some.inj (hlast.symm.trans last_self)
  exact hmatches

end Complete

/-- What a reconciliation that completes keeps. -/
theorem ownChapter_complete_iff {n : Nat} {c : Call} {chs engineChs : List Chapter}
    {calls : List Call} (hc : s.calls[n]? = some c) (hchs : c.awaiting = .engine chs)
    (hown : ServesOwn s) :
    ServesOwn { s.write c.workId (.complete chs engineChs) with calls := calls } ↔
      Rematches s (.settle n (.engine (some engineChs))) := by
  rw [servesOwn_iff_map] at hown ⊢
  constructor
  · -- an entry stays, so the reconciliation has matched its chapter
    intro h c' chs' hc' hchs' id hmapped hwork
    obtain rfl := Option.some.inj (hc.symm.trans hc')
    obtain rfl := Awaiting.engine.inj (hchs.symm.trans hchs')
    have hkept : (reconcile engineChs chs s.localChapterMap id).isSome = true :=
      isSome_reconcile hmapped
    obtain ⟨e, he⟩ := Option.isSome_iff_exists.mp hkept
    obtain ⟨ch, hch, hid, x, hx, -, hsame⟩ := matches_of_ownChapter hwork (h id e he)
    exact ⟨ch, hch, hid, x, hx, hsame⟩
  · intro h id e he
    rcases reconcile_spec he with hmatches | ⟨hold, hnone⟩
    · exact ownChapter_of_matches hmatches
    · -- the chapter is not of the work, so nothing about it changes
      have hunmatched : ¬(s.home id = some c.workId ∨ ∃ ch ∈ chs, ch.id = id) := by
        intro hwork
        obtain ⟨ch, hch, hid, x, hx, hsame⟩ := h c chs hc hchs id (by rw [hold]; rfl) hwork
        rw [pick_eq_none (hnone ch hch hid) x hx] at hsame
        contradiction
      obtain ⟨hother, hunlisted⟩ := not_or.mp hunmatched
      exact ownChapter_of_unlisted hunlisted hother (hown id e hold)

theorem servesOwn_step_iff (hown : ServesOwn s) (e : Event) :
    ServesOwn (s.step refFor e) ↔ Rematches s e := by
  rcases step_cases refFor s e with ⟨calls, unusable, hstep, hrematches⟩ |
    ⟨n, c, chs, engineChs, calls, rfl, hc, hchs, hstep⟩
  · rw [hstep]
    exact iff_of_true hown hrematches
  · rw [hstep]
    exact ownChapter_complete_iff hc hchs hown

/-- **The engine serves what the last reconciliation of its work has matched**, along a
run, exactly if every reconciliation matches again what the map has of the work.
`canonicalChapters` resolves to the hosted list along every run. -/
theorem servesOwn_iff (refFor : Bool) (events : List Event) :
    Machine.Always (CompositeBackend.step refFor) (fun s => Resolves s ∧ ServesOwn s) start
        events ↔
      Machine.EachStep (CompositeBackend.step refFor) Rematches start events := by
  have hcarries : Carries start := fun c hc => absurd hc List.not_mem_nil
  have hstart : Resolves start ∧ ServesOwn start :=
    ⟨resolves_of_carries hcarries, servesOwn_iff_map.mpr nofun⟩
  rw [Machine.always_iff_eachStep (I := Carries) (Q := Rematches)
    (fun s e h => carries_step h e) _ hcarries, and_iff_right hstart]
  intro s e hcarries hs
  rw [and_iff_right (resolves_of_carries (carries_step hcarries e)), servesOwn_step_iff hs.2]

/-- A work is reconciled, and again when the engine has lost its chapters. -/
def drifting : List Event :=
  let hosted : Outcome := .hosted (some [⟨"c1", .ofNat 1, none⟩])
  let sources : Outcome := .sources (some [⟨.mangadex, "", "m1", none, none⟩])
  [.call "w_1", .settle 0 hosted, .settle 0 (.ready true), .settle 0 sources,
    .settle 0 (.ref (some true)), .settle 0 (.engine (some [⟨"10", .ofNat 1, none⟩])),
    .call "w_1", .settle 1 hosted, .settle 1 (.ready true), .settle 1 sources,
    .settle 1 (.ref (some true)), .settle 1 (.engine (some []))]

/-- The old entry is served, though the last reconciliation has matched nothing. -/
theorem not_servesOwn_drifting :
    ¬ServesOwn (Machine.run (CompositeBackend.step true) start drifting) := by
  have hmap : (Machine.run (CompositeBackend.step true) start drifting).localChapterMap "c1" =
      some "10" := by decide +kernel
  have hhome : (Machine.run (CompositeBackend.step true) start drifting).home "c1" =
      some "w_1" := by decide +kernel
  have hlast : (Machine.run (CompositeBackend.step true) start drifting).last "w_1" =
      some ⟨[⟨"c1", .ofNat 1, none⟩], []⟩ := by decide +kernel
  intro h
  obtain ⟨workId, r, hworkId, hr, ch, -, -, x, hx, -⟩ := servesOwn_iff_map.mp h "c1" "10" hmap
  obtain rfl := Option.some.inj (hworkId.symm.trans hhome)
  rw [Option.some.inj (hr.symm.trans hlast)] at hx
  exact absurd hx List.not_mem_nil

end Runs
end Komika.Reader.OnDevicePages
