import Komika.Lib.Windows
import Mathlib.Data.Int.Order.Basic

/-!
# The upstream and its pages

What a sweep of `mangadex.rs` asks the API for, and how it reads an answer.
The upstream is fixed: a listing for each timestamp a window can be on, in the
order of this timestamp.  Timestamps are whole seconds, as `to_since` spells
them.

* `Upstream.page_eq_stretch` — a page is a stretch of the listing;
* `Upstream.before_le_of_mem_page` — a window that begins at one of its records;
* `BoundedUpstream.before_next_second` — a window that begins a second later;
* `lastMoved_eq_some`, `nextSince_some` — where a cursor comes from.
-/

namespace Komika.Mangadex.Pages

open Komika.Lib

/-- `SyncWindow`: by which of the two times the upstream filters and sorts. -/
inductive SyncWindow where
  | created
  | updated
deriving DecidableEq, Repr

/-- The timestamps of a record: `manga_window_ts`, `chapter_window_ts`. -/
class Stamped (ρ : Type) where
  windowTs : SyncWindow → ρ → Int

export Stamped (windowTs)

/-- `MdManga`, what a sweep reads of it. -/
structure MdManga where
  id : Nat
  createdAt : Int
  updatedAt : Int
deriving DecidableEq, Repr

/-- `manga_window_ts`. -/
instance : Stamped MdManga where
  windowTs
    | .created, m => m.createdAt
    | .updated, m => m.updatedAt

/-- `MdChapter`, what a sweep reads of it; `manga` is `chapter_manga_id`. -/
structure MdChapter where
  id : Nat
  translatedLanguage : Option String
  manga : Option Nat
  createdAt : Int
  updatedAt : Int
deriving DecidableEq, Repr

/-- `chapter_window_ts`. -/
instance : Stamped MdChapter where
  windowTs
    | .created, c => c.createdAt
    | .updated, c => c.updatedAt

/-- `PAGE_LIMIT`, the records of one page. -/
def pageLimit : Nat := 100

/-- `WINDOW_OFFSET_CAP`: the upstream serves no offset beyond it, so a window is begun
anew. -/
def windowOffsetCap : Nat := 9900

/-- `EMPTY_PAGE_RETRIES`, of a page that is empty though the total says there is
more. -/
def emptyPageRetries : Nat := 3

/-- What the API holds. -/
structure Upstream (ρ : Type) [Stamped ρ] where
  listing : SyncWindow → List ρ
  sorted : ∀ w, Windows.Sorted (windowTs w) (listing w)
  nodup : ∀ w, (listing w).Nodup
  same : ∀ r, r ∈ listing .created ↔ r ∈ listing .updated

/-- At most as many records in one `createdAt` second as a window can serve. -/
structure BoundedUpstream (ρ : Type) [Stamped ρ] extends Upstream ρ where
  bounded : ∀ second : Int,
    (listing .created).countP (fun r => windowTs .created r = second) ≤
      windowOffsetCap

section Serving

variable {ρ : Type} [Stamped ρ] (u : Upstream ρ) (w : SyncWindow)

/-- How many records the window has. -/
def Upstream.total (since : Option Int) : Nat :=
  (Windows.window (windowTs w) since (u.listing w)).length

/-- The first `len` records of the window at an offset. -/
def Upstream.page (since : Option Int) (offset len : Nat) : List ρ :=
  ((Windows.window (windowTs w) since (u.listing w)).drop offset).take len

/-- How many records are before the window. -/
def Upstream.before (since : Option Int) : Nat :=
  Windows.before (windowTs w) since (u.listing w)

/-- The page in the listing, from its beginning. -/
theorem Upstream.page_eq (since : Option Int) (offset len : Nat) :
    u.page w since offset len =
      ((u.listing w).drop (u.before w since + offset)).take len :=
  Windows.page_eq (u.sorted w) offset len

/-- A page is the stretch of the listing that it is as long as. -/
theorem Upstream.page_eq_stretch (since : Option Int) (offset len : Nat) :
    u.page w since offset len =
      ((u.listing w).drop (u.before w since + offset)).take
        (u.page w since offset len).length := by
  rw [u.page_eq, List.length_take, ← List.take_eq_take_min]

/-- What is in front of a window, and what is in it. -/
theorem Upstream.before_add_total (since : Option Int) :
    u.before w since + u.total w since = (u.listing w).length :=
  Windows.length_window (u.sorted w)

/-- The first window has nothing in front. -/
@[simp] theorem Upstream.before_none : u.before w none = 0 :=
  Windows.before_none

/-- A window from the timestamp of a record of a page does not start after the
page. -/
theorem Upstream.before_le_of_mem_page {since : Option Int} {offset len : Nat}
    {r : ρ} (hr : r ∈ u.page w since offset len) :
    u.before w (some (windowTs w r)) ≤
      u.before w since + (offset + (u.page w since offset len).length) := by
  obtain ⟨i, hi⟩ := List.mem_iff_getElem?.mp hr
  have hlt : i < (u.page w since offset len).length :=
    (List.getElem?_eq_some_iff.mp hi).1
  rw [u.page_eq, List.getElem?_take] at hi
  split at hi
  · rw [List.getElem?_drop] at hi
    have hle := Windows.before_le_of_getElem? (u.sorted w) hi
    unfold before at hle ⊢
    omega
  · contradiction

/-- After as many records as a second can hold, the next second does not start
any further. -/
theorem BoundedUpstream.before_next_second (u : BoundedUpstream ρ) {s : Int}
    {offset : Nat} (hcap : windowOffsetCap ≤ offset) :
    u.before .created (some (s + 1)) ≤ u.before .created (some s) + offset := by
  have hnext : Windows.before (windowTs .created) (some (s + 1))
      (u.listing .created) ≤ Windows.before (windowTs .created) (some s)
        (u.listing .created) + (u.listing .created).countP fun r =>
          windowTs .created r = s :=
    Windows.before_next_le fun k hk => Int.lt_add_one_iff.mp hk
  have hcount := u.bounded s
  unfold Upstream.before
  omega

end Serving

/-! ## Reading an answer

The cursor after a page, and the window after that. -/

/-- `PageStep`: what a page means for the loop. -/
inductive PageStep where
  | process
  | endWindow
  | retryEmpty
deriving DecidableEq, Repr

/-- `classify_page`: an empty page ends the window only where the total agrees. -/
def classifyPage (rawLen offset total : Nat) : PageStep :=
  if 0 < rawLen then .process
  else if total = 0 ∨ total ≤ offset then .endWindow
  else .retryEmpty

/-- `next_offset`: past the records that came, also those that could not be read. -/
def nextOffset (offset rawLen : Nat) : Nat := offset + rawLen

/-- `last_created` after a page: the timestamp of its last record that moves the
cursor on. -/
def lastMoved {ρ : Type} [Stamped ρ] (w : SyncWindow) (moves : ρ → Bool)
    (page : List ρ) (last : Option Int) : Option Int :=
  page.foldl (fun last r => if moves r then some (windowTs w r) else last) last

/-- The cursor is where it was or at a record of the page that moves it on. -/
theorem lastMoved_eq_some {ρ : Type} [Stamped ρ] {w : SyncWindow} {moves : ρ → Bool}
    {page : List ρ} {last : Option Int} {t : Int}
    (h : lastMoved w moves page last = some t) :
    last = some t ∨ ∃ r ∈ page, moves r = true ∧ windowTs w r = t := by
  unfold lastMoved at h
  induction page generalizing last with
  | nil => exact .inl h
  | cons r page ih =>
      rw [List.foldl_cons] at h
      rcases ih h with hlast | ⟨x, hx, hmoves, hts⟩
      · split at hlast
        · next hmoves => exact .inr ⟨r, List.mem_cons_self, hmoves, Option.some.inj hlast⟩
        · exact .inl hlast
      · exact .inr ⟨x, List.mem_cons_of_mem _ hx, hmoves, hts⟩

/-- Where the next window starts, `none` if it cannot be moved: at the last
timestamp, or one second further if that is where the window started. -/
def nextSince (since last : Option Int) : Option Int :=
  if last = none ∨ last = since then
    match last with
    | some t => if some (t + 1) = since then none else some (t + 1)
    | none => none
  else last

/-- A window that has moved no cursor stays. -/
theorem nextSince_none (since : Option Int) : nextSince since none = none := rfl

/-- A window that has moved the cursor on can always be moved. -/
theorem nextSince_some (since : Option Int) (last : Int) :
    nextSince since (some last) =
      some (if since = some last then last + 1 else last) := by
  unfold nextSince
  by_cases hsame : since = some last
  · rw [if_pos (.inr hsame.symm), if_pos hsame]
    have hmoves : ¬(some (last + 1) = since) := by
      rw [hsame]
      intro heq
      have hlast := Option.some.inj heq
      omega
    exact if_neg hmoves
  · have hmoves : ¬(some last = none ∨ some last = since) := by
      rintro (hnone | heq)
      · contradiction
      · exact hsame heq.symm
    rw [if_neg hmoves, if_neg hsame]

/-! ## The stored state of a sync job

One row, which a seed and an incremental cycle read in their own ways. -/

/-- `SyncState`, the row of a sync: how far it has come, and whether the seed is
done. -/
structure SyncState where
  cursor : Int
  seedDone : Bool
deriving DecidableEq, Repr

/-- `set_seed_progress`: a new row is not done, an old one stays as it is. -/
def setSeedProgress (since : Int) (state : Option SyncState) : Option SyncState :=
  some ⟨since, (state.map SyncState.seedDone).getD false⟩

/-- `mark_seed_done`: stores the cursor and latches the seed, whatever was there. -/
def markSeedDone (since : Int) (_state : Option SyncState) : Option SyncState :=
  some ⟨since, true⟩

/-- `set_sync_cursor`: stores the cursor and leaves the latch as it is. -/
def setSyncCursor (since : Int) (state : Option SyncState) : Option SyncState :=
  some ⟨since, (state.map SyncState.seedDone).getD false⟩

end Komika.Mangadex.Pages
