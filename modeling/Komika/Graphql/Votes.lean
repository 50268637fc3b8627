import Mathlib.Data.Finset.Card
import Komika.Lib.Lookup
import Komika.Lib.Machine

/-!
# Votes on comments

`vote_comment` of `graphql/mod.rs` and `record_like_milestone` of `notify.rs`.
A call counts the likes, writes the vote, tallies, and announces the milestones
between the two counts; each is a statement of its own, so calls interleave.

A milestone that a like has just reached is announced by the call of that like,
unless the count falls below it again before the call tallies.  Whoever brings
the count back may have counted the first time, and then announces nothing: a
write that lowers the count has to find the milestone it leaves announced.

* `countVotes_eq_card` — a count is a count of users, by the primary key of the votes;
* `likes_write` — a vote moves the count of its comment by one at most;
* `owed_write`, `owed_move`, `complete_step` — a milestone that is reached is announced
  or owed by a call in flight;
* `grounded_step` — what is announced has been reached;
* `notifies_of_spares` — every run whose writes leave no milestone behind unannounced;
* `not_notifies_hiddenCrossing` — a milestone between two counts that both calls miss.
-/

namespace Komika.Graphql.Votes

open Komika.Lib Komika.Lib.Machine

/-! ## Tables

The primary key of a vote is the comment and the user. -/

/-- A comment, as far as votes read it. -/
structure Comment where
  id : String
  userId : String
  targetType : String
  targetId : String
deriving DecidableEq

instance : Keyed Comment := .ofKey Comment.id

instance : ByKey Comment String where
  key := Comment.id
  clash_iff _ _ := decide_eq_true_iff

/-- A row of `comment_votes`. -/
structure CommentVote where
  commentId : String
  userId : String
  value : Int
deriving DecidableEq

instance : Keyed CommentVote := .ofKey fun v => (v.commentId, v.userId)

instance : ByKey CommentVote (String × String) where
  key v := (v.commentId, v.userId)
  clash_iff _ _ := decide_eq_true_iff

@[simp] theorem key_commentVote (v : CommentVote) : key v = (v.commentId, v.userId) := rfl

/-- The kind of a notification; votes only write milestones. -/
inductive Kind where
  | reply
  | likeMilestone
deriving DecidableEq

/-- A row of `notifications`. -/
structure Notification where
  id : String
  userId : String
  kind : Kind
  actorId : Option String
  commentId : String
  targetType : String
  targetId : String
  count : Option Nat
deriving DecidableEq

/-- `idx_notifications_like_milestone`, `UNIQUE (comment_id, count)`. -/
def SameMilestone (a b : Notification) : Prop :=
  a.kind = .likeMilestone ∧ b.kind = .likeMilestone ∧ a.commentId = b.commentId ∧
    a.count = b.count ∧ a.count ≠ none

instance (a b : Notification) : Decidable (SameMilestone a b) :=
  inferInstanceAs (Decidable (_ ∧ _))

instance : Keyed Notification where
  clash a b := decide (a.id = b.id ∨ SameMilestone a b)
  clash_symm a b := by
    rw [decide_eq_decide]
    constructor <;>
      (rintro (h | ⟨ha, hb, hc, hn, hsome⟩)
       · exact .inl h.symm
       · exact .inr ⟨hb, ha, hc.symm, hn.symm, hn ▸ hsome⟩)

/-! ## Statements

The count, the vote, and the insert of a milestone. -/

/-- `LIKE_MILESTONES`, in rising order. -/
def likeMilestones : List Nat := [1, 5, 10, 25, 50, 100, 250, 500, 1000, 2500, 5000, 10000]

/-- `SELECT COUNT(*) FROM comment_votes WHERE comment_id = ? AND value = ?`. -/
def countVotes (votes : Table CommentVote) (comment : String) (value : Int) : Nat :=
  votes.rows.countP fun v => v.commentId = comment && v.value = value

/-- The conflict clause of a vote. -/
def setValue (old v : CommentVote) : CommentVote := { old with value := v.value }

theorem keepsKeys_setValue (v : CommentVote) : Table.KeepsKeys (setValue · v) := fun _ _ => rfl

/-- The vote is cleared, or inserted over the one of the same user. -/
def writeVote (votes : Table CommentVote) (comment user : String) (value : Int) :
    Table CommentVote :=
  if value = 0 then votes.deleteWhere fun v => v.commentId = comment && v.userId = user
  else votes.upsert ⟨comment, user, value⟩ setValue (keepsKeys_setValue _)

/-- `as i32`, which wraps around. -/
def asI32 (n : Nat) : Int := (n : Int).bmod (2 ^ 32)

/-- The notification of `record_like_milestone`. -/
def milestone (newId : String) (comment : Comment) (count : Nat) : Notification :=
  { id := newId
    userId := comment.userId
    kind := .likeMilestone
    actorId := none
    commentId := comment.id
    targetType := comment.targetType
    targetId := comment.targetId
    count := some count }

/-- The milestones that the call crossed. -/
def crossed (value : Int) (prior likes : Nat) : List Nat :=
  if value = 1 ∧ prior < likes then likeMilestones.filter fun m => prior < m && m ≤ likes
  else []

/-! ## Calls

Four statements, and the calls between whose statements those of others run. -/

/-- How far a call has come. -/
inductive Stage where
  | counted
  | written
  /-- The milestones that are yet to be announced. -/
  | announcing (todo : List Nat)
deriving DecidableEq

/-- A call under way, with what it has counted. -/
structure Flight where
  call : Nat
  comment : Comment
  user : String
  value : Int
  /-- `prior_likes`. -/
  prior : Nat
  stage : Stage
deriving DecidableEq

/-- What a call returns, with the votes that it tallied. -/
structure Returned where
  call : Nat
  comment : String
  likes : Int
  dislikes : Int
  myVote : Int
  tallied : Table CommentVote

/-- The tables, and the calls. -/
structure State where
  comments : Table Comment
  votes : Table CommentVote
  notifications : Table Notification
  flights : List Flight
  returned : List Returned

/-- Nobody has voted, and no call is in flight. -/
def start (comments : Table Comment) : State := ⟨comments, .empty, .empty, [], []⟩

/-- The likes of a comment. -/
def State.likes (s : State) (comment : String) : Nat := countVotes s.votes comment 1

/-- The call, if it is under way. -/
def State.flight? (s : State) (call : Nat) : Option Flight :=
  s.flights.find? fun f => f.call = call

/-- The comment that a call may vote on. -/
def votable (s : State) (user comment : String) (value : Int) : Except String Comment :=
  if ¬(-1 ≤ value ∧ value ≤ 1) then .error "value must be -1, 0, or 1"
  else
    match s.comments.lookup comment with
    | none => .error "comment not found"
    | some c =>
        if c.userId = user then .error "you can't vote on your own comment" else .ok c

/-- A call begins, or comes to its next statement. -/
inductive Event where
  | vote (call : Nat) (user comment : String) (value : Int)
  | write (call : Nat)
  | tally (call : Nat)
  /-- The id is a fresh uuid. -/
  | announce (call : Nat) (newId : String)

/-- The call goes on as `g`. -/
def State.move (s : State) (f g : Flight) : State :=
  { s with flights := s.flights.erase f ++ [g] }

/-- The vote is written. -/
def State.write (s : State) (f : Flight) : State :=
  { s.move f { f with stage := .written } with
    votes := writeVote s.votes f.comment.id f.user f.value }

/-- The likes are counted again, and what lies between the two counts is to be
announced. -/
def State.tally (s : State) (f : Flight) : State :=
  { s.move f { f with stage := .announcing (crossed f.value f.prior (s.likes f.comment.id)) } with
    returned := s.returned ++
      [⟨f.call, f.comment.id, asI32 (s.likes f.comment.id),
        asI32 (countVotes s.votes f.comment.id (-1)), f.value, s.votes⟩] }

/-- One row is inserted, if there is none of its milestone yet. -/
def State.announce (s : State) (f : Flight) (newId : String) : List Nat → State
  | [] => { s with flights := s.flights.erase f }
  | m :: todo =>
      { s.move f { f with stage := .announcing todo } with
        notifications := s.notifications.insertOrIgnore (milestone newId f.comment m) }

/-- The state after an event. -/
def step (s : State) : Event → State
  | .vote call user comment value =>
      match votable s user comment value with
      | .error _ => s
      | .ok c =>
          if (s.flight? call).isSome then s
          else { s with flights := s.flights ++ [⟨call, c, user, value, s.likes c.id, .counted⟩] }
  | .write call =>
      match s.flight? call with
      | none => s
      | some f =>
          if f.stage = .counted then s.write f else s
  | .tally call =>
      match s.flight? call with
      | none => s
      | some f => if f.stage = .written then s.tally f else s
  | .announce call newId =>
      if s.notifications.rows.any fun n => n.id = newId then s
      else
        match s.flight? call with
        | none => s
        | some f =>
            match f.stage with
            | .announcing todo => s.announce f newId todo
            | _ => s

/-! ## Counts

A count of rows, as a set of users. -/

/-- The users with this vote. -/
def voters (votes : Table CommentVote) (comment : String) (value : Int) : Finset String :=
  ((votes.rows.filter fun v => v.commentId = comment && v.value = value).map
    CommentVote.userId).toFinset

section Counts

variable {votes : Table CommentVote} {comment user c u : String} {value x : Int}

theorem mem_voters : u ∈ voters votes c x ↔ (⟨c, u, x⟩ : CommentVote) ∈ votes := by
  simp only [voters, List.mem_toFinset, List.mem_map, List.mem_filter, Bool.and_eq_true,
    decide_eq_true_eq]
  constructor
  · rintro ⟨⟨_, _, _⟩, ⟨hmem, rfl, rfl⟩, rfl⟩
    exact hmem
  · intro hmem
    exact ⟨_, ⟨hmem, rfl, rfl⟩, rfl⟩

theorem mem_voters_iff_lookup :
    u ∈ voters votes c x ↔ votes.lookup (c, u) = some ⟨c, u, x⟩ := by
  rw [mem_voters, Table.lookup_eq_some]
  simp

/-- The primary key makes the count one of users. -/
theorem countVotes_eq_card : countVotes votes c x = (voters votes c x).card := by
  have hnodup : ((votes.rows.filter fun v => v.commentId = c && v.value = x).map
      CommentVote.userId).Nodup := by
    rw [List.Nodup, List.pairwise_map, List.pairwise_filter]
    apply votes.unique.imp
    intro a b hab ha hb huser
    simp only [Bool.and_eq_true, decide_eq_true_eq] at ha hb
    have hclash : clash a b = true := by
      rw [ByKey.clash_iff, key_commentVote, key_commentVote, ha.1, hb.1, huser]
    rw [hclash] at hab
    contradiction
  rw [countVotes, List.countP_eq_length_filter, voters, List.toFinset_card_of_nodup hnodup,
    List.length_map]

/-- A user is never counted on both sides. -/
theorem disjoint_voters {y : Int} (hxy : x ≠ y) :
    Disjoint (voters votes c x) (voters votes c y) := by
  rw [Finset.disjoint_left]
  intro u hx hy
  rw [mem_voters_iff_lookup] at hx hy
  rw [hx] at hy
  exact hxy (by simpa using hy)

theorem lookup_writeVote :
    (writeVote votes comment user value).lookup (c, u) =
      if (comment, user) = (c, u) then
        if value = 0 then none else some ⟨comment, user, value⟩
      else votes.lookup (c, u) := by
  unfold writeVote
  by_cases hvalue : value = 0
  · rw [if_pos hvalue, if_pos hvalue, Table.lookup_deleteWhere]
    cases hlookup : votes.lookup (c, u) with
    | none => simp
    | some v =>
        have hkey := Table.key_of_lookup hlookup
        simp only [key_commentVote, Prod.mk.injEq] at hkey
        have hsame : (decide (v.commentId = comment) && decide (v.userId = user)) =
            decide ((comment, user) = (c, u)) := by
          rw [Bool.eq_iff_iff, hkey.1, hkey.2]
          simp only [Bool.and_eq_true, decide_eq_true_eq, Prod.mk.injEq]
          exact and_congr eq_comm eq_comm
        rw [Option.filter_some, hsame]
        by_cases hself : (comment, user) = (c, u)
        · rw [decide_eq_true hself, if_pos hself]
          rfl
        · rw [decide_eq_false hself, if_neg hself]
          rfl
  · rw [if_neg hvalue, if_neg hvalue, Table.lookup_upsert, key_commentVote]
    split
    · next hself =>
        cases hlookup : votes.lookup (c, u) with
        | none => rfl
        | some v =>
            have hkey := Table.key_of_lookup hlookup
            rw [← hself, key_commentVote, Prod.mk.injEq] at hkey
            rw [Table.merged_some, setValue, hkey.1, hkey.2]
    · rfl

/-- Votes on other comments stay. -/
theorem voters_writeVote_of_ne (hne : comment ≠ c) :
    voters (writeVote votes comment user value) c x = voters votes c x := by
  ext u
  rw [mem_voters_iff_lookup, mem_voters_iff_lookup, lookup_writeVote,
    if_neg (by simp [hne])]

theorem voters_writeVote_like :
    voters (writeVote votes c user 1) c 1 = insert user (voters votes c 1) := by
  ext u
  rw [Finset.mem_insert, mem_voters_iff_lookup, mem_voters_iff_lookup, lookup_writeVote]
  by_cases hu : user = u
  · simp [hu]
  · simp [hu, Ne.symm hu]

theorem voters_writeVote_other (hvalue : value ≠ 1) :
    voters (writeVote votes c user value) c 1 = (voters votes c 1).erase user := by
  ext u
  rw [Finset.mem_erase, mem_voters_iff_lookup, mem_voters_iff_lookup, lookup_writeVote]
  by_cases hu : user = u
  · by_cases hzero : value = 0
    · simp [hu, hzero]
    · simp [hu, hzero, hvalue]
  · simp [hu, Ne.symm hu]

end Counts

/-! ## Announcements

What is announced, what is owed, and what a step makes of both. -/

/-- A notification of the milestone is there. -/
def State.announced (s : State) (comment : String) (m : Nat) : Bool :=
  s.notifications.rows.any fun n =>
    n.kind = .likeMilestone && n.commentId = comment && n.count = some m

theorem announced_iff {s : State} {comment : String} {m : Nat} :
    s.announced comment m = true ↔
      ∃ n ∈ s.notifications, n.kind = .likeMilestone ∧ n.commentId = comment ∧
        n.count = some m := by
  simp [State.announced, and_assoc, Table.mem_rows]

/-- The call is going to announce the milestone. -/
def Announces (m : Nat) (f : Flight) : Prop :=
  match f.stage with
  | .counted => False
  | .written => f.value = 1 ∧ f.prior < m
  | .announcing todo => m ∈ todo

/-- Before the tally a call owes what lies above its first count. -/
theorem announces_written {m : Nat} {f : Flight} (h : f.stage = .written) :
    Announces m f ↔ f.value = 1 ∧ f.prior < m := by rw [Announces, h]

/-- After the tally it owes what it has left to insert. -/
theorem announces_announcing {m : Nat} {f : Flight} {todo : List Nat}
    (h : f.stage = .announcing todo) : Announces m f ↔ m ∈ todo := by rw [Announces, h]

theorem not_announces_counted {m : Nat} {f : Flight} (h : f.stage = .counted) :
    ¬Announces m f := by
  rw [Announces, h]
  exact id

/-- A milestone that is not announced has not been reached, or the call that
reached it is yet to announce it. -/
def Owed (s : State) (comment : String) (m : Nat) : Prop :=
  (s.likes comment < m ∧ ∀ f ∈ s.flights, f.comment.id = comment → f.prior < m) ∨
    (m ≤ s.likes comment ∧ ∃ f ∈ s.flights, f.comment.id = comment ∧ Announces m f)

/-- No milestone that is reached is lost. -/
def Complete (s : State) : Prop :=
  ∀ comment, ∀ m ∈ likeMilestones, s.announced comment m = true ∨ Owed s comment m

/-- A write that takes a like away leaves no milestone that is not announced. -/
def Spares (s : State) : Event → Prop
  | .write call =>
      ∀ f ∈ s.flight? call, f.stage = .counted → f.value ≠ 1 →
        (⟨f.comment.id, f.user, 1⟩ : CommentVote) ∈ s.votes →
          s.likes f.comment.id ∈ likeMilestones →
            s.announced f.comment.id (s.likes f.comment.id) = true
  | _ => True

section Steps

variable {s : State} {e : Event} {f g : Flight}

/-- What a step can be. -/
theorem step_cases {P : State → Prop} (hstay : P s)
    (hvote : ∀ call user comment value c, votable s user comment value = .ok c →
      P { s with flights := s.flights ++ [⟨call, c, user, value, s.likes c.id, .counted⟩] })
    (hwrite : ∀ call f, e = .write call → s.flight? call = some f → f.stage = .counted →
      P (s.write f))
    (htally : ∀ f ∈ s.flights, f.stage = .written → P (s.tally f))
    (hannounce : ∀ f ∈ s.flights, ∀ newId m todo, (∀ n ∈ s.notifications, n.id ≠ newId) →
      f.stage = .announcing (m :: todo) → P (s.announce f newId (m :: todo)))
    (hclose : ∀ f ∈ s.flights, f.stage = .announcing [] →
      P { s with flights := s.flights.erase f }) :
    P (step s e) := by
  have hmem : ∀ {call f}, s.flight? call = some f → f ∈ s.flights := List.mem_of_find?_eq_some
  cases e with
  | vote call user comment value =>
      simp only [step]
      cases hvotable : votable s user comment value with
      | error => exact hstay
      | ok c =>
          dsimp only
          split
          · exact hstay
          · exact hvote call user comment value c hvotable
  | write call =>
      simp only [step]
      cases hflight : s.flight? call with
      | none => exact hstay
      | some f =>
          dsimp only
          split
          · next hstage => exact hwrite call f rfl hflight hstage
          · exact hstay
  | tally call =>
      simp only [step]
      cases hflight : s.flight? call with
      | none => exact hstay
      | some f =>
          dsimp only
          split
          · next hstage => exact htally f (hmem hflight) hstage
          · exact hstay
  | announce call newId =>
      simp only [step]
      split
      · exact hstay
      · next hfresh =>
          cases hflight : s.flight? call with
          | none => exact hstay
          | some f =>
              dsimp only
              cases hstage : f.stage with
              | counted => exact hstay
              | written => exact hstay
              | announcing todo =>
                  cases todo with
                  | nil => exact hclose f (hmem hflight) hstage
                  | cons m todo =>
                      refine hannounce f (hmem hflight) newId m todo ?_ hstage
                      intro n hn hid
                      exact hfresh (List.any_eq_true.mpr ⟨n, hn, decide_eq_true hid⟩)

theorem mem_move {h : Flight} (hh : h ∈ s.flights) (hne : h ≠ f) : h ∈ (s.move f g).flights :=
  List.mem_append_left _ ((List.mem_erase_of_ne hne).mpr hh)

theorem mem_of_mem_move {h : Flight} (hh : h ∈ (s.move f g).flights) : h ∈ s.flights ∨ h = g := by
  rcases List.mem_append.mp hh with hh | hh
  · exact .inl (List.mem_of_mem_erase hh)
  · exact .inr (List.mem_singleton.mp hh)

theorem mem_move_self : g ∈ (s.move f g).flights :=
  List.mem_append_right _ (List.mem_singleton_self g)

/-- What the calls owe stays owed when one goes on, if it keeps what it owes. -/
theorem owed_move {t : State} {comment : String} {m : Nat} (hf : f ∈ s.flights)
    (hlikes : t.likes comment = s.likes comment) (hflights : t.flights = (s.move f g).flights)
    (hsame : g.comment = f.comment) (hprior : g.prior = f.prior)
    (hkeep : f.comment.id = comment → m ≤ s.likes comment → Announces m f → Announces m g)
    (h : Owed s comment m) : Owed t comment m := by
  unfold Owed
  rw [hlikes, hflights]
  rcases h with ⟨hlt, hpriors⟩ | ⟨hle, w, hw, hcomment, hannounces⟩
  · refine .inl ⟨hlt, fun w hw hcomment => ?_⟩
    rcases mem_of_mem_move hw with hw | rfl
    · exact hpriors w hw hcomment
    · rw [hprior]
      exact hpriors f hf (hsame ▸ hcomment)
  · by_cases hwf : w = f
    · subst hwf
      exact .inr ⟨hle, g, mem_move_self, hsame ▸ hcomment, hkeep hcomment hle hannounces⟩
    · exact .inr ⟨hle, w, mem_move hw hwf, hcomment, hannounces⟩

theorem announced_insert {newId : String} {comment : Comment} {m : Nat}
    (hfresh : ∀ n ∈ s.notifications, n.id ≠ newId) {t : State}
    (ht : t.notifications = s.notifications.insertOrIgnore (milestone newId comment m)) :
    t.announced comment.id m = true := by
  rw [announced_iff, ht]
  by_cases htaken : s.notifications.taken (milestone newId comment m) = false
  · exact ⟨_, Table.mem_insertOrIgnore.mpr (.inr ⟨rfl, Table.taken_eq_false.mp htaken⟩),
      rfl, rfl, rfl⟩
  · rw [Bool.not_eq_false] at htaken
    obtain ⟨n, hn, hclash⟩ := Table.taken_eq_true.mp htaken
    rcases of_decide_eq_true hclash with hid | hsame
    · exact absurd hid.symm (hfresh n hn)
    · exact ⟨n, Table.mem_insertOrIgnore.mpr (.inl hn), hsame.2.1, hsame.2.2.1.symm,
        hsame.2.2.2.1.symm⟩

theorem announced_of_subset {t : State} {comment : String} {m : Nat}
    (h : ∀ n ∈ s.notifications, n ∈ t.notifications) (hs : s.announced comment m = true) :
    t.announced comment m = true := by
  rw [announced_iff] at hs ⊢
  obtain ⟨n, hn, hrow⟩ := hs
  exact ⟨n, h n hn, hrow⟩

/-- A vote moves the count of its comment by one at most. -/
theorem likes_write (comment : String) :
    (comment ≠ f.comment.id ∧ (s.write f).likes comment = s.likes comment) ∨
    (comment = f.comment.id ∧ f.value = 1 ∧ s.likes comment ≤ (s.write f).likes comment) ∨
    (comment = f.comment.id ∧ f.value ≠ 1 ∧ (s.write f).likes comment ≤ s.likes comment ∧
      ((s.write f).likes comment < s.likes comment →
        (⟨f.comment.id, f.user, 1⟩ : CommentVote) ∈ s.votes ∧
          s.likes comment = (s.write f).likes comment + 1)) := by
  unfold State.likes State.write
  simp only [countVotes_eq_card]
  by_cases hne : comment = f.comment.id
  · subst hne
    by_cases hvalue : f.value = 1
    · refine .inr (.inl ⟨rfl, hvalue, ?_⟩)
      rw [hvalue, voters_writeVote_like]
      exact Finset.card_le_card (Finset.subset_insert _ _)
    · refine .inr (.inr ⟨rfl, hvalue, ?_, ?_⟩)
      · rw [voters_writeVote_other hvalue]
        exact Finset.card_le_card (Finset.erase_subset _ _)
      · rw [voters_writeVote_other hvalue]
        intro hlt
        by_cases hvoted : f.user ∈ voters s.votes f.comment.id 1
        · exact ⟨mem_voters.mp hvoted, (Finset.card_erase_add_one hvoted).symm⟩
        · rw [Finset.erase_eq_of_notMem hvoted] at hlt
          exact absurd hlt (lt_irrefl _)
  · refine .inl ⟨hne, ?_⟩
    rw [voters_writeVote_of_ne (Ne.symm hne)]

/-- Whoever reaches a milestone owes it, and a like that is taken away leaves none
behind. -/
theorem owed_write {comment : String} {m : Nat} (hf : f ∈ s.flights)
    (hstage : f.stage = .counted)
    (hspares : f.value ≠ 1 → (⟨f.comment.id, f.user, 1⟩ : CommentVote) ∈ s.votes →
      s.likes f.comment.id = m → s.announced f.comment.id m = true)
    (h : Owed s comment m) : s.announced comment m = true ∨ Owed (s.write f) comment m := by
  have hlikes := likes_write (s := s) (f := f) comment
  by_cases hreach : m ≤ (s.write f).likes comment
  · right
    rcases h with ⟨hlt, hpriors⟩ | ⟨hle, w, hw, hcomment, hannounces⟩
    · have hliked : comment = f.comment.id ∧ f.value = 1 := by
        rcases hlikes with ⟨-, hsame⟩ | ⟨hid, hvalue, -⟩ | ⟨-, -, hle, -⟩
        · omega
        · exact ⟨hid, hvalue⟩
        · omega
      have hprior : f.prior < m := hpriors f hf hliked.1.symm
      exact .inr ⟨hreach, { f with stage := .written }, mem_move_self, hliked.1.symm,
        (announces_written rfl).mpr ⟨hliked.2, hprior⟩⟩
    · have hwf : w ≠ f := fun heq => not_announces_counted hstage (heq ▸ hannounces)
      exact .inr ⟨hreach, w, mem_move hw hwf, hcomment, hannounces⟩
  · rcases h with ⟨hlt, hpriors⟩ | ⟨hle, -⟩
    · refine .inr (.inl ⟨by omega, fun w hw hcomment => ?_⟩)
      rcases mem_of_mem_move hw with hw | rfl
      · exact hpriors w hw hcomment
      · exact hpriors f hf hcomment
    · left
      rcases hlikes with ⟨-, hsame⟩ | ⟨-, -, hge⟩ | ⟨rfl, hvalue, -, hdrop⟩
      · omega
      · omega
      · obtain ⟨hvoted, hone⟩ := hdrop (by omega)
        exact hspares hvalue hvoted (by omega)

/-- A step that spares the milestones keeps each of them announced or owed. -/
theorem complete_step (h : Complete s) (hspares : Spares s e) : Complete (step s e) := by
  intro comment m hm
  have hnow := h comment m hm
  apply step_cases (P := fun t => t.announced comment m = true ∨ Owed t comment m)
  case hstay => exact hnow
  case hvote =>
    intro call user _ value c _
    refine hnow.imp_right fun howed => ?_
    rcases howed with ⟨hlt, hpriors⟩ | ⟨hle, w, hw, hcomment, hannounces⟩
    · refine .inl ⟨hlt, fun w hw hcomment => ?_⟩
      rcases List.mem_append.mp hw with hw | hw
      · exact hpriors w hw hcomment
      · rw [List.mem_singleton.mp hw] at hcomment ⊢
        show s.likes c.id < m
        rw [show c.id = comment from hcomment]
        exact hlt
    · exact .inr ⟨hle, w, List.mem_append_left _ hw, hcomment, hannounces⟩
  case hwrite =>
    intro call f hcall hflight hstage
    have hf : f ∈ s.flights := List.mem_of_find?_eq_some hflight
    rcases hnow with hannounced | howed
    · exact .inl hannounced
    · refine owed_write hf hstage ?_ howed
      intro hvalue hvoted hlikes
      rw [← hlikes]
      rw [hcall] at hspares
      exact hspares f hflight hstage hvalue hvoted (by rw [hlikes]; exact hm)
  case htally =>
    intro f hf hstage
    refine hnow.imp_right (owed_move hf rfl rfl rfl rfl ?_)
    intro hcomment hle hannounces
    obtain ⟨hvalue, hprior⟩ := (announces_written hstage).mp hannounces
    show m ∈ crossed f.value f.prior (s.likes f.comment.id)
    rw [hcomment, crossed, if_pos ⟨hvalue, by omega⟩]
    simp [hm, hprior, hle]
  case hannounce =>
    intro f hf newId k todo hfresh hstage
    by_cases hself : f.comment.id = comment ∧ m = k
    · left
      rw [← hself.1, hself.2]
      exact announced_insert hfresh rfl
    · refine hnow.imp (announced_of_subset fun n hn => Table.mem_insertOrIgnore.mpr (.inl hn))
        (owed_move hf rfl rfl rfl rfl ?_)
      intro hcomment _ hannounces
      rw [announces_announcing hstage, List.mem_cons] at hannounces
      exact hannounces.resolve_left fun hk => hself ⟨hcomment, hk⟩
  case hclose =>
    intro f hf hstage
    refine hnow.imp_right fun howed => ?_
    rcases howed with ⟨hlt, hpriors⟩ | ⟨hle, w, hw, hcomment, hannounces⟩
    · exact .inl ⟨hlt, fun w hw => hpriors w (List.mem_of_mem_erase hw)⟩
    · have hwf : w ≠ f := by
        rintro rfl
        exact absurd ((announces_announcing hstage).mp hannounces) List.not_mem_nil
      exact .inr ⟨hle, w, (List.mem_erase_of_ne hwf).mpr hw, hcomment, hannounces⟩

end Steps

/-! ## Every run

Nothing is announced that was not reached, nor twice, and nothing stays owed. -/

/-- The state that a run reaches. -/
def final (comments : Table Comment) (events : List Event) : State :=
  run step (start comments) events

/-- The like count of the comment has been `m` or more. -/
def Reached (comments : Table Comment) (events : List Event) (comment : String) (m : Nat) :
    Prop :=
  ∃ before, before <+: events ∧ m ≤ (final comments before).likes comment

theorem Reached.concat {comments : Table Comment} {events : List Event} {comment : String}
    {m : Nat} (h : Reached comments events comment m) (e : Event) :
    Reached comments (events ++ [e]) comment m := by
  obtain ⟨before, hbefore, hle⟩ := h
  exact ⟨before, hbefore.trans (List.prefix_append _ _), hle⟩

/-- What the rows and the calls say of the past. -/
structure Grounded (comments : Table Comment) (events : List Event) (s : State) : Prop where
  kept : s.comments = comments
  announced : ∀ n ∈ s.notifications, ∃ c ∈ comments, ∃ m ∈ likeMilestones,
    n = milestone n.id c m ∧ Reached comments events c.id m
  flights : ∀ f ∈ s.flights, f.comment ∈ comments
  owing : ∀ f ∈ s.flights, ∀ todo, f.stage = .announcing todo →
    ∀ m ∈ todo, m ∈ likeMilestones ∧ Reached comments events f.comment.id m
  returned : ∀ r ∈ s.returned, r.likes = asI32 (countVotes r.tallied r.comment 1) ∧
    r.dislikes = asI32 (countVotes r.tallied r.comment (-1))

theorem mem_of_votable {s : State} {user comment : String} {value : Int} {c : Comment}
    (h : votable s user comment value = .ok c) : c ∈ s.comments := by
  unfold votable at h
  split at h
  · cases h
  · cases hlookup : s.comments.lookup comment with
    | none => simp [hlookup] at h
    | some found =>
        rw [hlookup] at h
        dsimp only at h
        split at h
        · cases h
        · cases h
          exact Table.mem_of_lookup hlookup

/-- What a run bears out, a longer one does. -/
theorem Grounded.concat {comments : Table Comment} {events : List Event} {s : State}
    (h : Grounded comments events s) (e : Event) : Grounded comments (events ++ [e]) s where
  kept := h.kept
  announced n hn := by
    obtain ⟨c, hc, m, hm, hrow, hreached⟩ := h.announced n hn
    exact ⟨c, hc, m, hm, hrow, hreached.concat e⟩
  flights := h.flights
  owing f hf todo hstage m hm := by
    obtain ⟨hmilestone, hreached⟩ := h.owing f hf todo hstage m hm
    exact ⟨hmilestone, hreached.concat e⟩
  returned := h.returned

/-- A call that moves on stays with its comment, and owes only what the comment
reached. -/
theorem Grounded.move {comments : Table Comment} {events : List Event} {s : State}
    {f g : Flight} (h : Grounded comments events s) (hf : f ∈ s.flights)
    (hsame : g.comment = f.comment)
    (howes : ∀ todo, g.stage = .announcing todo → ∀ m ∈ todo,
      m ∈ likeMilestones ∧ Reached comments events f.comment.id m) :
    Grounded comments events (s.move f g) where
  kept := h.kept
  announced := h.announced
  flights w hw := by
    rcases mem_of_mem_move hw with hw | rfl
    · exact h.flights w hw
    · rw [hsame]
      exact h.flights f hf
  owing w hw := by
    rcases mem_of_mem_move hw with hw | rfl
    · exact h.owing w hw
    · rw [hsame]
      exact howes
  returned := h.returned

/-- Each milestone that is announced or owed has been reached by the likes of its
comment. -/
theorem grounded_step {comments : Table Comment} {events : List Event} (e : Event)
    (h : Grounded comments events (final comments events)) :
    Grounded comments (events ++ [e]) (step (final comments events) e) := by
  have hlater : Grounded comments (events ++ [e]) (final comments events) := h.concat e
  have hnow : ∀ comment m, m ≤ (final comments events).likes comment →
      Reached comments (events ++ [e]) comment m :=
    fun comment m hle => ⟨events, List.prefix_append _ _, hle⟩
  generalize final comments events = s at h hlater hnow
  apply step_cases (P := fun t => Grounded comments (events ++ [e]) t)
  case hstay => exact hlater
  case hvote =>
    intro call user comment value c hvotable
    have hc : c ∈ comments := hlater.kept ▸ mem_of_votable hvotable
    refine { hlater with flights := fun w hw => ?_, owing := fun w hw => ?_ }
    · rcases List.mem_append.mp hw with hw | hw
      · exact hlater.flights w hw
      · rw [List.mem_singleton.mp hw]
        exact hc
    · rcases List.mem_append.mp hw with hw | hw
      · exact hlater.owing w hw
      · rw [List.mem_singleton.mp hw]
        nofun
  case hwrite =>
    intro call f _ hflight _
    have hf : f ∈ s.flights := List.mem_of_find?_eq_some hflight
    have hmoved : Grounded comments (events ++ [e]) (s.move f { f with stage := .written }) :=
      hlater.move hf rfl nofun
    exact { hmoved with }
  case htally =>
    intro f hf _
    have howes : ∀ m ∈ crossed f.value f.prior (s.likes f.comment.id),
        m ∈ likeMilestones ∧ Reached comments (events ++ [e]) f.comment.id m := by
      intro m hm
      unfold crossed at hm
      split at hm
      · simp only [List.mem_filter, Bool.and_eq_true, decide_eq_true_eq] at hm
        exact ⟨hm.1, hnow _ m hm.2.2⟩
      · exact absurd hm List.not_mem_nil
    have hmoved : Grounded comments (events ++ [e]) (s.move f { f with
        stage := .announcing (crossed f.value f.prior (s.likes f.comment.id)) }) := by
      refine hlater.move hf rfl fun todo hstage => ?_
      cases hstage
      exact howes
    refine { hmoved with returned := fun r hr => ?_ }
    rcases List.mem_append.mp hr with hr | hr
    · exact hlater.returned r hr
    · rw [List.mem_singleton.mp hr]
      simp only [State.likes, and_self]
  case hannounce =>
    intro f hf newId m todo _ hstage
    have howes := hlater.owing f hf (m :: todo) hstage
    have hmoved : Grounded comments (events ++ [e])
        (s.move f { f with stage := .announcing todo }) := by
      refine hlater.move hf rfl fun rest hrest k hk => ?_
      cases hrest
      exact howes k (List.mem_cons_of_mem _ hk)
    refine { hmoved with announced := fun n hn => ?_ }
    rcases Table.mem_insertOrIgnore.mp hn with hn | ⟨rfl, -⟩
    · exact hlater.announced n hn
    · obtain ⟨hm, hreached⟩ := howes m List.mem_cons_self
      exact ⟨f.comment, hlater.flights f hf, m, hm, rfl, hreached⟩
  case hclose =>
    intro f hf _
    exact { hlater with
      flights := fun w hw => hlater.flights w (List.mem_of_mem_erase hw)
      owing := fun w hw => hlater.owing w (List.mem_of_mem_erase hw) }

theorem grounded_final (comments : Table Comment) (events : List Event) :
    Grounded comments events (final comments events) := by
  induction events using List.reverseRecOn with
  | nil => exact ⟨rfl, nofun, nofun, nofun, nofun⟩
  | append_singleton events e ih =>
      rw [show final comments (events ++ [e]) = step (final comments events) e from
        run_concat ..]
      exact grounded_step e ih

theorem complete_start (comments : Table Comment) : Complete (start comments) := by
  intro comment m hm
  have hpos : 0 < m := by
    revert m
    decide
  exact .inr (.inl ⟨hpos, nofun⟩)

/-- A milestone that is announced, once. -/
def AnnouncedOnce (s : State) (c : Comment) (m : Nat) : Prop :=
  ∃ n ∈ s.notifications, n = milestone n.id c m ∧
    ∀ n' ∈ s.notifications, n'.kind = .likeMilestone → n'.commentId = c.id →
      n'.count = some m → n' = n

/-- The property of a run. -/
structure Notifies (comments : Table Comment) (events : List Event) : Prop where
  /-- Once no call is in flight, every milestone that is not above the count. -/
  complete : (final comments events).flights = [] → ∀ c ∈ comments, ∀ m ∈ likeMilestones,
    m ≤ (final comments events).likes c.id → AnnouncedOnce (final comments events) c m
  /-- And none that was never reached. -/
  reached : ∀ n ∈ (final comments events).notifications, n.kind = .likeMilestone →
    ∃ m ∈ likeMilestones, n.count = some m ∧ Reached comments events n.commentId m
  /-- A tally is of users, and no user is on both sides. -/
  tallies : ∀ r ∈ (final comments events).returned,
    r.likes = asI32 (voters r.tallied r.comment 1).card ∧
      r.dislikes = asI32 (voters r.tallied r.comment (-1)).card ∧
      Disjoint (voters r.tallied r.comment 1) (voters r.tallied r.comment (-1))

/-- A row of the milestone is the only one. -/
theorem announcedOnce_of_announced {s : State} {c : Comment} {m : Nat}
    (hrow : ∀ n ∈ s.notifications, n.commentId = c.id → n.count = some m →
      n = milestone n.id c m) (h : s.announced c.id m = true) : AnnouncedOnce s c m := by
  obtain ⟨n, hn, hkind, hcomment, hcount⟩ := announced_iff.mp h
  refine ⟨n, hn, hrow n hn hcomment hcount, ?_⟩
  intro n' hn' hkind' hcomment' hcount'
  apply Table.eq_of_clash hn' hn
  apply decide_eq_true
  exact .inr ⟨hkind', hkind, hcomment'.trans hcomment.symm, hcount'.trans hcount.symm, by
    rw [hcount']
    nofun⟩

/-- **Every milestone is announced once.**  In every run of overlapping votes whose
writes leave no milestone behind that is not announced: once no call is in flight each
comment has one notification for each milestone up to its count, none for a milestone
that was never reached, and every tally returned is one of users. -/
theorem notifies_of_spares {comments : Table Comment} {events : List Event}
    (hspares : EachStep step Spares (start comments) events) : Notifies comments events := by
  have hcomplete : Complete (final comments events) :=
    run_invariant_of_each (fun _ _ => complete_step) (complete_start comments) hspares
  obtain ⟨-, hannounced, -, -, hreturned⟩ := grounded_final comments events
  refine ⟨?_, ?_, ?_⟩
  · intro hidle c hc m hm hle
    apply announcedOnce_of_announced
    · intro n hn hcomment hcount
      obtain ⟨d, hd, k, -, hrow, -⟩ := hannounced n hn
      rw [hrow] at hcomment hcount
      have hdc : d = c := Table.eq_of_clash hd hc (decide_eq_true hcomment)
      have hkm : k = m := Option.some.inj hcount
      rw [hrow, hdc, hkm]
      rfl
    · rcases hcomplete c.id m hm with h | ⟨hlt, -⟩ | ⟨-, f, hf, -⟩
      · exact h
      · omega
      · rw [hidle] at hf
        exact absurd hf List.not_mem_nil
  · intro n hn _
    obtain ⟨c, -, m, hm, hrow, hreached⟩ := hannounced n hn
    rw [hrow]
    exact ⟨m, hm, rfl, hreached⟩
  · intro r hr
    obtain ⟨hlikes, hdislikes⟩ := hreturned r hr
    rw [hlikes, hdislikes, countVotes_eq_card, countVotes_eq_card]
    exact ⟨rfl, rfl, disjoint_voters (by decide)⟩

/-! ## Runs on one comment

A like at a time, and two at once. -/

instance (s : State) (e : Event) : Decidable (Spares s e) :=
  match e with
  | .write call =>
      decidable_of_iff (∀ f ∈ s.flight? call, f.stage = .counted → f.value ≠ 1 →
        (⟨f.comment.id, f.user, 1⟩ : CommentVote) ∈ s.votes.rows →
          s.likes f.comment.id ∈ likeMilestones →
            s.announced f.comment.id (s.likes f.comment.id) = true) Iff.rfl
  | .vote .. => .isTrue trivial
  | .tally _ => .isTrue trivial
  | .announce .. => .isTrue trivial

/-- A comment by `a`. -/
def oneComment : Table Comment := Table.empty.insertOrIgnore ⟨"c", "a", "series", "w"⟩

/-- A like, announced, and the like of another user, who takes it back. -/
def likedTwice : List Event :=
  [.vote 0 "u" "c" 1, .write 0, .tally 0, .announce 0 "n", .announce 0 "-", .vote 1 "v" "c" 1,
    .write 1, .tally 1, .announce 1 "-", .vote 2 "v" "c" 0, .write 2, .tally 2, .announce 2 "-"]

theorem notifies_likedTwice :
    Notifies oneComment likedTwice ∧ (final oneComment likedTwice).flights = [] ∧
      (final oneComment likedTwice).notifications.rows.map Notification.count = [some 1] :=
  ⟨notifies_of_spares (by decide +kernel), by decide +kernel, by decide +kernel⟩

/-- `u` likes, `v` counts this like, `u` clears the vote before the first call has
tallied, and `v` likes. -/
def hiddenCrossing : List Event :=
  [.vote 0 "u" "c" 1, .write 0, .vote 1 "v" "c" 1, .vote 2 "u" "c" 0, .write 2, .tally 0,
    .announce 0 "-", .tally 2, .announce 2 "-", .write 1, .tally 1, .announce 1 "-"]

/-- No call is in flight, the comment has a like, and its author was told of
none. -/
theorem not_notifies_hiddenCrossing : ¬Notifies oneComment hiddenCrossing := by
  have hidle : (final oneComment hiddenCrossing).flights = [] := by decide +kernel
  have hlikes : (final oneComment hiddenCrossing).likes "c" = 1 := by decide +kernel
  have hnone : (final oneComment hiddenCrossing).notifications.rows = [] := by decide +kernel
  have hcomment : (⟨"c", "a", "series", "w"⟩ : Comment) ∈ oneComment := List.mem_singleton_self _
  intro h
  obtain ⟨n, hn, -⟩ := h.complete hidle _ hcomment 1 (by decide) hlikes.ge
  have hmem : n ∈ (final oneComment hiddenCrossing).notifications.rows := hn
  rw [hnone] at hmem
  exact absurd hmem List.not_mem_nil

end Komika.Graphql.Votes
