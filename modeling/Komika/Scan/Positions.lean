import Komika.Lib.Machine
import Komika.Lib.Recency

/-!
# What a position diff sees

`moved_up_or_entered` of `discovery.rs` compares two polls of a source's LATEST
order.  Publishing moves a series to the front of that order, so a series that
published stands behind those that published after it.  The diff flags it if
this is further up than it stood before, or if it was not on the page and now
is where the page was.

The module documents one series that is missed: the head that stays the head.
That is the case of one series that publishes alone.  A series is passed over
whenever enough others published after it to take it back to where it was, since
the two pages then show it at one rank, and the diff sees only the pages.

Nothing is flagged that did not publish: others only push a series back, and a
series that comes into view because the page grew stands below the depth that
the page had.

* `mem_movedUpOrEntered_iff` — the diff of distinct ids, by rank;
* `getElem?_published` — where a series stands that published;
* `missesOnlyTheHead_iff` — when nothing but the head is missed;
* `wakesOnlyPublished`, `flagged_published_run` — what is flagged did publish, over any
  run of polls.
-/

namespace Komika.Scan.Positions

open Komika.Lib Komika.Lib.Recency

/-- `SNAPSHOT_WINDOW`, the entries of a page that are remembered. -/
def snapshotWindow : Nat := 40

/-- The ids that a poll keeps of a page: `take(SNAPSHOT_WINDOW)`. -/
def snapshotOf (page : List Int) : List Int := page.take snapshotWindow

/-- `prev_rank.get(id)`.  Of two ranks of one id the map keeps the later. -/
def prevRank (prev : List Int) (id : Int) : Option Nat :=
  (prev.zipIdx.reverse.find? fun entry => entry.1 = id).map (·.2)

/-- Whether the diff keeps the id at `newRank` of the new order. -/
def flags (prev : List Int) (id : Int) (newRank : Nat) : Bool :=
  match prevRank prev id with
  | none => newRank < prev.length
  | some oldRank => newRank < oldRank

/-- `moved_up_or_entered`: the entries of the new page that stand higher than before, or
that are new at a rank the old page reached. -/
def movedUpOrEntered (prev curr : List Int) : List Int :=
  (curr.zipIdx.filter fun (id, newRank) => flags prev id newRank).map (·.1)

/-! ## The diff of distinct ids

Ranks are positions, as long as no id is there twice. -/

/-- The rank of a series on the page. -/
theorem prevRank_eq_some_iff {prev : List Int} (h : prev.Nodup) {id : Int} {k : Nat} :
    prevRank prev id = some k ↔ prev[k]? = some id := by
  have hmem : (id, k) ∈ prev.zipIdx ↔ prev[k]? = some id := by
    rw [List.mk_mem_zipIdx_iff_getElem?]
  unfold prevRank
  constructor
  · intro hk
    obtain ⟨⟨x, j⟩, hfind, rfl⟩ := Option.map_eq_some_iff.mp hk
    have hx : x = id := by simpa using List.find?_some hfind
    have hin := List.mem_reverse.mp (List.mem_of_find?_eq_some hfind)
    subst hx
    exact List.mk_mem_zipIdx_iff_getElem?.mp hin
  · intro hk
    have hin : (id, k) ∈ prev.zipIdx.reverse :=
      List.mem_reverse.mpr (hmem.mpr hk)
    have hfound : (prev.zipIdx.reverse.find? fun entry => entry.1 = id).isSome :=
      List.find?_isSome.mpr ⟨_, hin, by simp⟩
    obtain ⟨⟨x, j⟩, hfind⟩ := Option.isSome_iff_exists.mp hfound
    have hx : x = id := by simpa using List.find?_some hfind
    have hj := List.mk_mem_zipIdx_iff_getElem?.mp
      (List.mem_reverse.mp (List.mem_of_find?_eq_some hfind))
    have hjk : j = k := by
      rw [hx] at hj
      have hlt := (List.getElem?_eq_some_iff.mp hj).1
      exact (List.getElem?_inj hlt h).mp (hj.trans hk.symm)
    rw [hfind, hjk]
    rfl

/-- A series that was not on the page. -/
theorem prevRank_eq_none_iff {prev : List Int} {id : Int} :
    prevRank prev id = none ↔ id ∉ prev := by
  unfold prevRank
  rw [Option.map_eq_none_iff, List.find?_eq_none]
  constructor
  · intro hnone hin
    obtain ⟨k, hk⟩ := List.mem_iff_getElem?.mp hin
    have := hnone (id, k) (List.mem_reverse.mpr (List.mk_mem_zipIdx_iff_getElem?.mpr hk))
    simp at this
  · intro hnot entry hentry
    have hin := List.mem_reverse.mp hentry
    have hmem : entry.1 ∈ prev := List.fst_mem_of_mem_zipIdx hin
    intro heq
    exact hnot (by simpa [← of_decide_eq_true heq] using hmem)

/-- The loop asks for each series of the new page. -/
theorem mem_movedUpOrEntered {prev curr : List Int} (hcurr : curr.Nodup) {id : Int}
    {r : Nat} (hr : curr[r]? = some id) :
    id ∈ movedUpOrEntered prev curr ↔ flags prev id r := by
  unfold movedUpOrEntered
  simp only [List.mem_map, List.mem_filter]
  constructor
  · rintro ⟨⟨x, j⟩, ⟨hin, hflag⟩, rfl⟩
    have hj := List.mk_mem_zipIdx_iff_getElem?.mp hin
    have hlt := (List.getElem?_eq_some_iff.mp hj).1
    have hjr : j = r := (List.getElem?_inj hlt hcurr).mp (hj.trans hr.symm)
    exact hjr ▸ hflag
  · intro hflag
    exact ⟨(id, r), ⟨List.mk_mem_zipIdx_iff_getElem?.mpr hr, hflag⟩, rfl⟩

/-- A series at a covered rank is missed exactly if it was on the page before
and is no further up. -/
theorem mem_movedUpOrEntered_iff {prev curr : List Int} (hprev : prev.Nodup)
    (hcurr : curr.Nodup) {id : Int} {r : Nat} (hr : curr[r]? = some id)
    (hcovered : r < prev.length) :
    id ∈ movedUpOrEntered prev curr ↔ ∀ k, prev[k]? = some id → r < k := by
  rw [mem_movedUpOrEntered hcurr hr, flags]
  cases hrank : prevRank prev id with
  | none =>
      have habsent := prevRank_eq_none_iff.mp hrank
      simp only [hcovered, decide_true, true_iff]
      intro k hk
      exact absurd (List.mem_iff_getElem?.mpr ⟨k, hk⟩) habsent
  | some oldRank =>
      have hold := (prevRank_eq_some_iff hprev).mp hrank
      rw [decide_eq_true_iff]
      constructor
      · intro hlt k hk
        have hlen := (List.getElem?_eq_some_iff.mp hk).1
        rwa [(List.getElem?_inj hlen hprev).mp (hk.trans hold.symm)]
      · exact fun hall => hall oldRank hold

/-! ## Two polls with publications in between

The newest order after any number of publications, next to the one before. -/

/-- What a poll that sees the first `len` series of an order keeps of them. -/
def firstPage (len : Nat) (order : List Int) : List Int :=
  snapshotOf (order.take len)

/-- A page shows a series once. -/
theorem nodup_firstPage {order : List Int} (h : order.Nodup) (len : Nat) :
    (firstPage len order).Nodup :=
  (h.sublist (List.take_sublist ..)).sublist (List.take_sublist ..)

/-- A page is the beginning of the order. -/
theorem getElem?_firstPage {order : List Int} {len r : Nat} {id : Int} :
    (firstPage len order)[r]? = some id ↔
      r < min len snapshotWindow ∧ order[r]? = some id := by
  unfold firstPage snapshotOf
  rw [List.take_take, Nat.min_comm]
  by_cases hr : r < min len snapshotWindow
  · rw [List.getElem?_take_of_lt hr]
    exact (and_iff_right hr).symm
  · rw [List.getElem?_take, if_neg hr]
    simp [hr]

/-- The rank of a series that published is the number of those that published
after it. -/
theorem getElem?_published {order published : List Int} (h : order.Nodup) {id : Int}
    (hid : id ∈ published) {r : Nat} :
    (touchAll order published)[r]? = some id ↔ r = (overtakers published id).length := by
  have hnodup := nodup_touchAll h published
  have hmem : id ∈ touchAll order published := mem_touchAll.mpr (Or.inl hid)
  rw [← idxOf_touchAll hid order]
  constructor
  · intro hr
    obtain ⟨hlt, rfl⟩ := List.getElem?_eq_some_iff.mp hr
    exact (hnodup.idxOf_getElem r hlt).symm
  · rintro rfl
    exact List.getElem?_eq_some_iff.mpr
      ⟨List.idxOf_lt_length_of_mem hmem, List.getElem_idxOf _⟩

/-- Between a poll that saw `seen` series and one that sees `sees`, every series
that published and is on the new page, no deeper than the old page went, is
flagged, unless it was the head and is. -/
def MissesOnlyTheHead (order published : List Int) (seen sees : Nat) : Prop :=
  let prev := firstPage seen order
  let curr := firstPage sees (touchAll order published)
  ∀ id ∈ published, ∀ r, curr[r]? = some id → r < prev.length →
    id ∈ movedUpOrEntered prev curr ∨ (prev[0]? = some id ∧ curr[0]? = some id)

/-- Fewer series published after it than there were in front of it, or it was
the head and none did. -/
def FewOvertakers (published : List Int) (id : Int) (oldRank : Nat) : Prop :=
  (overtakers published id).length < oldRank ∨
    oldRank = 0 ∧ overtakers published id = []

/-- **The diff misses what returns to its old rank.**  Only the head is missed exactly
if too few series published after any other one to take it back to where it was. -/
theorem missesOnlyTheHead_iff (order : List Int) (hdistinct : order.Nodup)
    (published : List Int) (seen sees : Nat) :
    MissesOnlyTheHead order published seen sees ↔
      ∀ id ∈ published, ∀ oldRank, (firstPage seen order)[oldRank]? = some id →
        (overtakers published id).length < min sees snapshotWindow →
        (overtakers published id).length < (firstPage seen order).length →
        FewOvertakers published id oldRank := by
  have hprev := nodup_firstPage hdistinct seen
  have hcurr := nodup_firstPage (nodup_touchAll hdistinct published) sees
  constructor
  · intro hmisses id hid oldRank hold hsees hcovered
    have hr : (firstPage sees (touchAll order published))[
        (overtakers published id).length]? = some id :=
      getElem?_firstPage.mpr ⟨hsees, (getElem?_published hdistinct hid).mpr rfl⟩
    rcases hmisses id hid _ hr hcovered with hflagged | ⟨hhead, hstays⟩
    · exact Or.inl ((mem_movedUpOrEntered_iff hprev hcurr hr hcovered).mp hflagged _ hold)
    · have hzero := (getElem?_published hdistinct hid).mp (getElem?_firstPage.mp hstays).2
      have hlt := (List.getElem?_eq_some_iff.mp hhead).1
      have hrank : 0 = oldRank := (List.getElem?_inj hlt hprev).mp (hhead.trans hold.symm)
      exact Or.inr ⟨hrank.symm, List.eq_nil_of_length_eq_zero hzero.symm⟩
  · intro hfew id hid r hr hcovered
    have hrank := (getElem?_published hdistinct hid).mp (getElem?_firstPage.mp hr).2
    subst hrank
    by_cases hold : ∃ oldRank : Nat, (firstPage seen order)[oldRank]? = some id
    · obtain ⟨oldRank, hold⟩ := hold
      rcases hfew id hid oldRank hold (getElem?_firstPage.mp hr).1 hcovered with
        hlt | ⟨rfl, hnone⟩
      · apply Or.inl
        rw [mem_movedUpOrEntered_iff hprev hcurr hr hcovered]
        intro k hk
        have hlen := (List.getElem?_eq_some_iff.mp hk).1
        rwa [(List.getElem?_inj hlen hprev).mp (hk.trans hold.symm)]
      · rw [hnone] at hr
        exact Or.inr ⟨hold, hr⟩
    · apply Or.inl
      rw [mem_movedUpOrEntered_iff hprev hcurr hr hcovered]
      exact fun k hk => absurd ⟨k, hk⟩ hold

/-- The second series publishes, then the head does: both stand where they
stood, and the second is missed. -/
theorem not_missesOnlyTheHead_pair :
    ¬MissesOnlyTheHead [10, 20, 30] [20, 10] 3 3 := by
  intro h
  have := h 20 (by decide) 1 (by decide) (by decide)
  revert this
  decide

/-- One publication is never missed. -/
theorem missesOnlyTheHead_single : MissesOnlyTheHead [10, 20, 30] [30] 3 3 :=
  (missesOnlyTheHead_iff [10, 20, 30] (by decide) [30] 3 3).mpr (by
    intro id hid oldRank _ _ _
    rw [List.mem_singleton.mp hid]
    rcases Nat.eq_zero_or_pos oldRank with hzero | hpos
    · exact Or.inr ⟨hzero, rfl⟩
    · exact Or.inl hpos)

/-! ## What did not publish

It is only ever pushed back. -/

/-- A series of the new page that did not publish is no further up than it was. -/
theorem rank_of_unpublished {order published : List Int} (h : order.Nodup) {id : Int}
    (hid : id ∉ published) {r : Nat}
    (hr : (touchAll order published)[r]? = some id) :
    ∃ k, k ≤ r ∧ order[k]? = some id := by
  have hnew : id ∈ touchAll order published := List.mem_of_getElem? hr
  have hold : id ∈ order := by
    simpa [hid] using mem_touchAll.mp hnew
  have hidx : (touchAll order published).idxOf id = r := by
    obtain ⟨hlt, rfl⟩ := List.getElem?_eq_some_iff.mp hr
    exact (nodup_touchAll h published).idxOf_getElem r hlt
  refine ⟨order.idxOf id, ?_, ?_⟩
  · rw [← hidx]
    exact idxOf_le_touchAll hid order
  · exact List.getElem?_eq_some_iff.mpr
      ⟨List.idxOf_lt_length_of_mem hold, List.getElem_idxOf _⟩

/-- The depth of the old page decides for a series that was below it, its rank
for one that was on it. -/
theorem not_flags_of_unpublished {order published : List Int} (h : order.Nodup)
    {id : Int} (hid : id ∉ published) {seen r : Nat}
    (hr : (touchAll order published)[r]? = some id) :
    flags (firstPage seen order) id r = false := by
  obtain ⟨k, hkr, hk⟩ := rank_of_unpublished h hid hr
  have hprev := nodup_firstPage h seen
  unfold flags
  cases hrank : prevRank (firstPage seen order) id with
  | none =>
      have habsent := prevRank_eq_none_iff.mp hrank
      have hdeep : ¬k < (firstPage seen order).length := by
        intro hlt
        have hmin : k < min seen snapshotWindow := by
          simp only [firstPage, snapshotOf, List.length_take] at hlt
          omega
        exact habsent (List.mem_of_getElem? (getElem?_firstPage.mpr ⟨hmin, hk⟩))
      simp only [decide_eq_false_iff_not]
      omega
  | some oldRank =>
      have hold := (prevRank_eq_some_iff hprev).mp hrank
      have hklt := (List.getElem?_eq_some_iff.mp hk).1
      have hkold : k = oldRank :=
        (List.getElem?_inj hklt h).mp (hk.trans (getElem?_firstPage.mp hold).2.symm)
      simp only [decide_eq_false_iff_not]
      omega

/-- Between a poll that saw `seen` series and one that sees `sees`, only series
that published are flagged, and none if none did. -/
def WakesOnlyPublished (order published : List Int) (seen sees : Nat) : Prop :=
  let prev := firstPage seen order
  let curr := firstPage sees (touchAll order published)
  (∀ id ∈ movedUpOrEntered prev curr, id ∈ published) ∧
    (published = [] → movedUpOrEntered prev curr = [])

/-- A page of the later order flags nothing but what published. -/
theorem flagged_published {order : List Int} (h : order.Nodup) (published : List Int)
    (seen sees : Nat) :
    ∀ id ∈ movedUpOrEntered (firstPage seen order)
      (firstPage sees (touchAll order published)), id ∈ published := by
  intro id hflagged
  by_contra hid
  obtain ⟨⟨x, r⟩, hin, rfl⟩ := List.mem_map.mp hflagged
  obtain ⟨hpage, hflags⟩ := List.mem_filter.mp hin
  have hr := getElem?_firstPage.mp (List.mk_mem_zipIdx_iff_getElem?.mp hpage)
  have hnot : flags (firstPage seen order) x r = false :=
    not_flags_of_unpublished h hid hr.2
  simp [hnot] at hflags

/-- **Nothing is woken that did not publish**, whatever the lengths of the two pages.  A
series that did not publish is overtaken by those that did and overtakes none, so its
rank does not fall; and one that comes in at the end of a longer page is beyond the
ranks of the old one. -/
theorem wakesOnlyPublished (order : List Int) (hdistinct : order.Nodup)
    (published : List Int) (seen sees : Nat) :
    WakesOnlyPublished order published seen sees := by
  have hall := flagged_published hdistinct published seen sees
  refine ⟨hall, ?_⟩
  rintro rfl
  exact List.eq_nil_iff_forall_not_mem.mpr fun id hid => by simpa using hall id hid

/-- The tail of a page that grew is not news. -/
theorem wakesOnlyPublished_grown : WakesOnlyPublished [10, 20, 30, 40] [20] 2 4 :=
  wakesOnlyPublished [10, 20, 30, 40] (by decide) [20] 2 4

/-! ## A source polled again and again

The stored order is the page that the last poll has seen. -/

/-- A source's order, and what the polls keep of it. -/
structure Polled where
  order : List Int
  /-- `source_latest_snapshot`: nothing before the first page. -/
  snapshot : Option (List Int)
  /-- What published since the snapshot was stored, oldest first. -/
  published : List Int

/-- A publication, or a poll of a page of some length. -/
inductive Event where
  | publish (id : Int)
  /-- A poll to which the source shows its first `len` series. -/
  | poll (len : Nat)

/-- What `poll_source` flags on the page it reads: nothing on an empty page or a
first sighting. -/
def flagged (s : Polled) (len : Nat) : List Int :=
  if s.order.take len = [] then []
  else s.snapshot.elim [] fun prev => movedUpOrEntered prev (firstPage len s.order)

/-- An empty page leaves the snapshot as it is. -/
def step (s : Polled) : Event → Polled
  | .publish id =>
      { s with order := toFront s.order id, published := s.published ++ [id] }
  | .poll len =>
      if s.order.take len = [] then s
      else { s with snapshot := some (firstPage len s.order), published := [] }

/-- The snapshot is a first page of an order from which the publications since
have made the present one. -/
def Tracks (s : Polled) : Prop :=
  s.order.Nodup ∧ ∀ prev, s.snapshot = some prev →
    ∃ order seen, order.Nodup ∧ prev = firstPage seen order ∧
      s.order = touchAll order s.published

/-- The stored order is a page of an earlier order. -/
theorem tracks_step {s : Polled} (h : Tracks s) (e : Event) : Tracks (step s e) := by
  obtain ⟨hnodup, hsnap⟩ := h
  cases e with
  | publish id =>
      refine ⟨nodup_toFront hnodup id, fun prev hprev => ?_⟩
      obtain ⟨order, seen, hdistinct, rfl, horder⟩ := hsnap prev hprev
      refine ⟨order, seen, hdistinct, rfl, ?_⟩
      show toFront s.order id = touchAll order (s.published ++ [id])
      rw [touchAll_concat, ← horder]
  | poll len =>
      simp only [step]
      by_cases hempty : s.order.take len = []
      · rw [if_pos hempty]
        exact ⟨hnodup, hsnap⟩
      · rw [if_neg hempty]
        refine ⟨hnodup, fun prev hprev => ⟨s.order, len, hnodup, ?_, rfl⟩⟩
        exact (Option.some.inj hprev).symm

/-- Over any run of publications and polls of pages of any length, empty ones
included, a poll flags only series that published since the last snapshot. -/
theorem flagged_published_run {order : List Int} (h : order.Nodup)
    (events : List Event) (len : Nat) :
    let s := Machine.run step ⟨order, none, []⟩ events
    ∀ id ∈ flagged s len, id ∈ s.published := by
  intro s id hid
  have hstart : Tracks ⟨order, none, []⟩ := ⟨h, by simp⟩
  have htracks : Tracks s :=
    Machine.run_invariant (I := Tracks) (fun _ e hs => tracks_step hs e) hstart events
  unfold flagged at hid
  by_cases hempty : s.order.take len = []
  · simp [hempty] at hid
  · rw [if_neg hempty] at hid
    cases hsnap : s.snapshot with
    | none => simp [hsnap] at hid
    | some prev =>
        obtain ⟨before, seen, hdistinct, rfl, horder⟩ := htracks.2 prev hsnap
        rw [hsnap, horder] at hid
        exact flagged_published hdistinct s.published seen len id hid

end Komika.Scan.Positions
