import Komika.Lib.Machine
import Komika.Lib.Windows
import Komika.Scan.Schema
import Mathlib.Data.List.Sort
import Mathlib.Data.List.Dedup
import Mathlib.Data.String.Basic

/-!
# The scan supervisor

`supervisor` of `scanner.rs` runs one loop for each of the first
`SOURCE_LOOP_SLOTS` source ids, in ascending order, and a sweeper for the rows
without a source id and for those above the last assigned one.  After every pass
the map of its children is a function of the ids it read (`mem_pass`), whatever
it was before, so no history of growth and shrinking matters.

Two things break the partition of the rows that this makes.  The map is keyed by
source id, and the sweeper sits in it under an id of its own, which a row may
have.  And a failed query for the ids reads as no ids.

* `mem_pass` — the children after a pass, whatever they were before;
* `assigned_or_above`, `not_above_of_assigned` — the cutoff splits the ids of the rows;
* `partitioned_of_not_assigned` — a pass that partitions the rows;
* `passPartitions_iff`, `passCovers_iff` — every run;
* `not_passPartitions_colliding`, `not_passCovers_failed` — an id that is the sweeper's,
  and a query that fails.
-/

namespace Komika.Scan.Supervisor

open Komika.Lib Komika.Lib.Machine Komika.Scan.Schema

/-- `MAX_SOURCE_SCANNERS`, the loops that run at a time. -/
def maxSourceScanners : Nat := 64

/-- `SOURCE_LOOP_SLOTS`: all but the one of the sweeper. -/
def sourceLoopSlots : Nat := maxSourceScanners - 1

/-- `UNASSIGNED_KEY`, under which the sweeper is kept among the loops. -/
def unassignedKey : String := "__unassigned__"

/-- `SourceSel`: the rows of one source, or those that no loop of a source takes. -/
inductive SourceSel where
  | id (sourceId : String)
  | unassigned (above : Option String)
deriving DecidableEq

/-- The condition on `source_id` that `due_series_ids_for_source` selects the rows of
a loop by. -/
def SourceSel.owns : SourceSel → Option String → Bool
  | .id own, sourceId => sourceId = some own
  | .unassigned none, sourceId => sourceId = none
  | .unassigned (some cutoff), sourceId => sourceId.elim true fun own => decide (cutoff < own)

/-- The rows of a loop. -/
def SourceSel.selects (sel : SourceSel) (r : ScanState) : Bool := sel.owns r.sourceId

/-- An entry of `children`: a running loop under its key. -/
structure Child where
  key : String
  sel : SourceSel
deriving DecidableEq

instance : Keyed Child := .ofKey Child.key

/-- The map has one child for a key. -/
theorem clash_child {a b : Child} : clash a b = true ↔ a.key = b.key :=
  decide_eq_true_iff

/-- `distinct_scan_source_ids`, when the query answers. -/
def distinctScanSourceIds (rows : Table ScanState) (limit : Nat) : List String :=
  ((rows.rows.filterMap ScanState.sourceId).dedup.insertionSort (· ≤ ·)).take limit

/-- `sweeper_cutoff`: the last assigned id where the slots are full, beyond which the
sweeper takes every id. -/
def sweeperCutoff (assigned : List String) (slots : Nat) : Option String :=
  if slots ≤ assigned.length then assigned.getLast? else none

/-- `reconcile_delta`: the keys to spawn and the keys to reap. -/
def reconcileDelta (running desired : List String) : List String × List String :=
  (desired.filter fun k => decide (k ∉ running),
    running.filter fun k => decide (k ∉ desired))

/-- `heal_null_source_ids`; `mapped` is the source of a series' mapping. -/
def ScanState.heal (mapped : String → Option String) (r : ScanState) : ScanState :=
  { r with sourceId := mapped r.seriesId }

theorem keepsKeys_heal (mapped : String → Option String) :
    Table.KeepsKeys (ScanState.heal mapped) := .of_key fun _ => rfl

/-- `heal_null_source_ids`: a row without an id takes the one that its series is mapped
to. -/
def healNullSourceIds (mapped : String → Option String) (rows : Table ScanState) :
    Table ScanState :=
  rows.update (fun r => r.sourceId = none && (mapped r.seriesId).isSome)
    (ScanState.heal mapped) (keepsKeys_heal mapped)

/-- The rows and the children, and what the sweeper sweeps. -/
structure Scanner where
  rows : Table ScanState
  children : Table Child
  sweeperAbove : Option String

/-- The supervisor as it starts, with its sweeper. -/
def start (rows : Table ScanState) : Scanner where
  rows := rows
  children := ⟨[⟨unassignedKey, .unassigned none⟩], List.pairwise_singleton _ _⟩
  sweeperAbove := none

/-- What is spawned under a key. -/
def spawned (above : Option String) (k : String) : Child where
  key := k
  sel := if k = unassignedKey then .unassigned above else .id k

/-- The children after a pass that is to run loops for `assigned`. -/
def reconcile (children : Table Child) (sweeperAbove : Option String)
    (assigned : List String) : Table Child :=
  let wantAbove := sweeperCutoff assigned sourceLoopSlots
  let desired := assigned.insert unassignedKey
  let kept :=
    if wantAbove ≠ sweeperAbove then children.deleteWhere fun c => c.key = unassignedKey
    else children
  let (toSpawn, toReap) := reconcileDelta (kept.rows.map Child.key) desired
  (toSpawn.foldl (fun t k => t.insertOrReplace (spawned wantAbove k)) kept).deleteWhere
    fun c => decide (c.key ∈ toReap)

/-- The ids that a pass reads; a failed query is an empty list. -/
def assignedIds (rows : Table ScanState) (listed : Bool) : List String :=
  if listed then distinctScanSourceIds rows sourceLoopSlots else []

/-- A pass, or a change of the rows between two passes. -/
inductive Event where
  /-- Other tasks write scan states. -/
  | rows (rows : Table ScanState)
  /-- A pass, and which of its queries are answered.  `reclaim_absurd_schedules`
  moves no row to another source. -/
  | pass (mapped : String → Option String) (healed listed : Bool)

/-- The rows that a pass works on. -/
def healedRows (s : Scanner) (mapped : String → Option String) (healed : Bool) :
    Table ScanState :=
  if healed then healNullSourceIds mapped s.rows else s.rows

/-- One turn of the loop of `supervisor`. -/
def pass (s : Scanner) (mapped : String → Option String) (healed listed : Bool) :
    Scanner :=
  let rows := healedRows s mapped healed
  let assigned := assignedIds rows listed
  { rows := rows
    children := reconcile s.children s.sweeperAbove assigned
    sweeperAbove := sweeperCutoff assigned sourceLoopSlots }

/-- The scanner after an event. -/
def step (s : Scanner) : Event → Scanner
  | .rows rows => { s with rows := rows }
  | .pass mapped healed listed => pass s mapped healed listed

/-! ## The children after a pass

The pass removes who is not wanted, and spawns who is missing; what remains is a
function of the ids. -/

/-- Each child is what would be spawned under its key now, and the sweeper
runs. -/
structure WellKeyed (children : Table Child) (above : Option String) : Prop where
  current : ∀ c ∈ children, c = spawned above c.key
  sweeper : spawned above unassignedKey ∈ children

theorem wellKeyed_start (rows : Table ScanState) :
    WellKeyed (start rows).children (start rows).sweeperAbove := by
  constructor
  · intro c hc
    obtain rfl := List.mem_singleton.mp (Table.mem_rows.mpr hc)
    rfl
  · exact List.mem_singleton.mpr rfl

/-- The children after the loop that spawns them. -/
theorem mem_foldl_spawned {above : Option String} {ks : List String} {t : Table Child}
    {c : Child} :
    c ∈ ks.foldl (fun t k => t.insertOrReplace (spawned above k)) t ↔
      (c.key ∈ ks ∧ c = spawned above c.key) ∨ (c ∈ t ∧ c.key ∉ ks) := by
  induction ks generalizing t with
  | nil => simp
  | cons k ks ih =>
      rw [List.foldl_cons, ih, Table.mem_insertOrReplace]
      have hclash : clash (spawned above k) c = false ↔ c.key ≠ k := by
        rw [← Bool.not_eq_true, clash_child]
        exact not_congr eq_comm
      have hspawned : c = spawned above k → c.key = k := fun h => by rw [h]; rfl
      rw [hclash, List.mem_cons]
      constructor
      · rintro (⟨hin, hc⟩ | ⟨⟨hold, hne⟩ | hnew, hout⟩)
        · exact Or.inl ⟨Or.inr hin, hc⟩
        · exact Or.inr ⟨hold, fun h => h.elim hne hout⟩
        · exact Or.inl ⟨Or.inl (hspawned hnew), by rw [hspawned hnew, ← hnew]⟩
      · rintro (⟨hkey | hin, hc⟩ | ⟨hold, hout⟩)
        · by_cases hlater : c.key ∈ ks
          · exact Or.inl ⟨hlater, hc⟩
          · exact Or.inr ⟨Or.inr (by rw [← hkey]; exact hc), hlater⟩
        · exact Or.inl ⟨hin, hc⟩
        · exact Or.inr ⟨Or.inl ⟨hold, fun h => hout (Or.inl h)⟩, fun h => hout (Or.inr h)⟩

/-- The sweeper is removed when it is to sweep another range. -/
theorem mem_kept {s : Scanner} (h : WellKeyed s.children s.sweeperAbove)
    (wantAbove : Option String) {c : Child}
    (hc : c ∈ (if wantAbove ≠ s.sweeperAbove then
        s.children.deleteWhere fun c => c.key = unassignedKey else s.children)) :
    c = spawned wantAbove c.key := by
  by_cases habove : wantAbove = s.sweeperAbove
  · rw [if_neg (not_not_intro habove)] at hc
    rw [habove]
    exact h.current c hc
  · rw [if_pos habove] at hc
    obtain ⟨hin, hother⟩ := Table.mem_deleteWhere.mp hc
    have hne : c.key ≠ unassignedKey := of_decide_eq_false hother
    have hold := h.current c hin
    rw [hold]
    simp [spawned, hne]

/-- After a pass the children are those of the ids it read, and the sweeper. -/
theorem mem_reconcile {s : Scanner} (h : WellKeyed s.children s.sweeperAbove)
    {assigned : List String} {c : Child} :
    c ∈ reconcile s.children s.sweeperAbove assigned ↔
      (c.key ∈ assigned ∨ c.key = unassignedKey) ∧
        c = spawned (sweeperCutoff assigned sourceLoopSlots) c.key := by
  unfold reconcile
  simp only [reconcileDelta, Table.mem_deleteWhere, mem_foldl_spawned]
  have hkept := fun c => mem_kept h (sweeperCutoff assigned sourceLoopSlots) (c := c)
  generalize (if sweeperCutoff assigned sourceLoopSlots ≠ s.sweeperAbove then
    s.children.deleteWhere fun c => decide (c.key = unassignedKey) else s.children) =
      kept at hkept ⊢
  have hdesired : c.key ∈ assigned.insert unassignedKey ↔
      c.key ∈ assigned ∨ c.key = unassignedKey := by
    rw [List.mem_insert_iff]
    exact or_comm
  have hrunning : c ∈ kept → c.key ∈ kept.rows.map Child.key :=
    fun hc => List.mem_map_of_mem hc
  simp only [List.mem_filter, decide_eq_true_eq, decide_eq_false_iff_not]
  rw [← hdesired]
  constructor
  · rintro ⟨⟨⟨hwant, -⟩, hc⟩ | ⟨hold, -⟩, hreap⟩
    · exact ⟨hwant, hc⟩
    · refine ⟨?_, hkept c hold⟩
      by_contra hnot
      exact hreap ⟨hrunning hold, hnot⟩
  · rintro ⟨hwant, hc⟩
    refine ⟨?_, fun hreap => hreap.2 hwant⟩
    by_cases hrun : c.key ∈ kept.rows.map Child.key
    · -- a loop that runs under the key is the one that would be spawned
      obtain ⟨old, hold, hkey⟩ := List.mem_map.mp hrun
      have hsame : old = c := by rw [hkept old hold, hkey, ← hc]
      exact Or.inr ⟨hsame ▸ hold, fun hspawn => hspawn.2 hrun⟩
    · exact Or.inl ⟨⟨hwant, hrun⟩, hc⟩

/-- No step leaves a child under another's key. -/
theorem wellKeyed_step {s : Scanner} (h : WellKeyed s.children s.sweeperAbove) (e : Event) :
    WellKeyed (step s e).children (step s e).sweeperAbove := by
  cases e with
  | rows rows => exact h
  | pass mapped healed listed =>
      constructor
      · exact fun c hc => ((mem_reconcile h).mp hc).2
      · exact (mem_reconcile h).mpr ⟨Or.inr rfl, rfl⟩

/-! ## The assigned ids

At most so many ids in ascending order; the last of them is the cutoff if there are
more. -/

/-- The query lists each id once, in order. -/
theorem ascending_sourceIds (rows : Table ScanState) :
    ((rows.rows.filterMap ScanState.sourceId).dedup.insertionSort (· ≤ ·)).Pairwise
      (· < ·) := by
  have hperm := List.perm_insertionSort (· ≤ ·) (rows.rows.filterMap ScanState.sourceId).dedup
  have hnodup := hperm.nodup_iff.mpr (List.nodup_dedup _)
  have hsorted := List.pairwise_insertionSort (· ≤ ·)
    (rows.rows.filterMap ScanState.sourceId).dedup
  exact (hsorted.and hnodup).imp fun hboth => lt_of_le_of_ne hboth.1 hboth.2

/-- The ids that it lists are those of the rows. -/
theorem mem_sourceIds {rows : Table ScanState} {k : String} :
    k ∈ (rows.rows.filterMap ScanState.sourceId).dedup.insertionSort (· ≤ ·) ↔
      ∃ r ∈ rows, r.sourceId = some k := by
  rw [List.mem_insertionSort, List.mem_dedup, List.mem_filterMap]
  rfl

/-- An id of a row is assigned, or there is a cutoff and it is above it. -/
theorem assigned_or_above {rows : Table ScanState} {r : ScanState} (hr : r ∈ rows)
    {k : String} (hk : r.sourceId = some k) :
    k ∈ distinctScanSourceIds rows sourceLoopSlots ∨
      ∃ cutoff, sweeperCutoff (distinctScanSourceIds rows sourceLoopSlots)
        sourceLoopSlots = some cutoff ∧ cutoff < k := by
  have hsplit := Windows.mem_take_or_above (ascending_sourceIds rows)
    (n := sourceLoopSlots) (by decide) (mem_sourceIds.mpr ⟨r, hr, hk⟩)
  rcases hsplit with hassigned | ⟨hlen, cutoff, hlast, hlt⟩
  · exact Or.inl hassigned
  · exact Or.inr ⟨cutoff, by rw [sweeperCutoff, distinctScanSourceIds, if_pos hlen, hlast], hlt⟩

/-- No assigned id is above the cutoff. -/
theorem not_above_of_assigned {rows : Table ScanState} {k cutoff : String}
    (hk : k ∈ distinctScanSourceIds rows sourceLoopSlots)
    (hcutoff : sweeperCutoff (distinctScanSourceIds rows sourceLoopSlots)
      sourceLoopSlots = some cutoff) : ¬cutoff < k := by
  unfold sweeperCutoff at hcutoff
  split at hcutoff
  · have hsorted := (ascending_sourceIds rows).sublist (List.take_sublist sourceLoopSlots _)
    exact not_lt_of_ge (Windows.le_getLast hsorted hcutoff hk)
  · contradiction

/-! ## Which rows a pass leaves to whom

A row is selected by the loop of its id, or by the sweeper. -/

/-- Every row is selected by one loop of the map, and by one only. -/
def Partitioned (s : Scanner) : Prop :=
  ∀ r ∈ s.rows, ∃! c, c ∈ s.children ∧ c.sel.selects r

/-- Every row is selected by some loop of the map. -/
def Covered (s : Scanner) : Prop :=
  ∀ r ∈ s.rows, ∃ c, c ∈ s.children ∧ c.sel.selects r

theorem Partitioned.covered {s : Scanner} (h : Partitioned s) : Covered s :=
  fun r hr => (h r hr).exists

/-- A loop other than the sweeper selects the rows of its key. -/
theorem selects_spawned {above : Option String} {k : String} (hk : k ≠ unassignedKey)
    {r : ScanState} : (spawned above k).sel.selects r ↔ r.sourceId = some k := by
  simp [spawned, hk, SourceSel.selects, SourceSel.owns]

/-- The sweeper selects the rows without an id, and those above the cutoff. -/
theorem selects_sweeper {above : Option String} {r : ScanState} :
    (spawned above unassignedKey).sel.selects r ↔
      ∀ k, r.sourceId = some k → ∃ cutoff, above = some cutoff ∧ cutoff < k := by
  have hsel : (spawned above unassignedKey).sel = .unassigned above := by simp [spawned]
  rw [hsel, SourceSel.selects]
  cases above with
  | none => cases r.sourceId <;> simp [SourceSel.owns]
  | some cutoff => cases r.sourceId <;> simp [SourceSel.owns]

section Pass

variable {s : Scanner} (h : WellKeyed s.children s.sweeperAbove)
variable (mapped : String → Option String) (healed : Bool)
include h

/-- A source with the sweeper's id has no loop. -/
theorem not_covered_of_assigned
    (hkey : unassignedKey ∈
      distinctScanSourceIds (healedRows s mapped healed) sourceLoopSlots) :
    ¬Covered (pass s mapped healed true) := by
  intro hcovered
  obtain ⟨r, hr, hid⟩ := mem_sourceIds.mp (List.mem_of_mem_take hkey)
  obtain ⟨c, hc, hselects⟩ := hcovered r hr
  have hspawned := ((mem_reconcile h).mp hc).2
  by_cases hsweeper : c.key = unassignedKey
  · rw [hspawned, hsweeper, selects_sweeper] at hselects
    obtain ⟨cutoff, hcutoff, habove⟩ := hselects unassignedKey hid
    exact not_above_of_assigned hkey hcutoff habove
  · rw [hspawned, selects_spawned hsweeper, hid] at hselects
    exact hsweeper (Option.some.inj hselects).symm

/-- Where no assigned id is the sweeper's, a pass partitions the rows. -/
theorem partitioned_of_not_assigned
    (hkey : unassignedKey ∉
      distinctScanSourceIds (healedRows s mapped healed) sourceLoopSlots) :
    Partitioned (pass s mapped healed true) := by
  intro r hr
  have hchildren : ∀ c, c ∈ (pass s mapped healed true).children ↔ _ :=
    fun c => mem_reconcile h
  have hr : r ∈ healedRows s mapped healed := hr
  generalize healedRows s mapped healed = rows at hkey hr hchildren
  simp only [assignedIds, if_true] at hchildren
  have hsweeper := (hchildren (spawned _ unassignedKey)).mpr ⟨Or.inr rfl, rfl⟩
  cases hid : r.sourceId with
  | none =>
      -- only the sweeper selects a row without an id
      refine ⟨_, ⟨hsweeper, selects_sweeper.mpr (by simp [hid])⟩, ?_⟩
      rintro c ⟨hc, hselects⟩
      have hspawned := ((hchildren c).mp hc).2
      by_cases hck : c.key = unassignedKey
      · rw [hspawned, hck]
      · rw [hspawned, selects_spawned hck, hid] at hselects
        contradiction
  | some k =>
      rcases assigned_or_above hr hid with hassigned | ⟨cutoff, hcutoff, habove⟩
      · have hne : k ≠ unassignedKey := fun heq => hkey (heq ▸ hassigned)
        have hloop := (hchildren (spawned _ k)).mpr ⟨Or.inl hassigned, rfl⟩
        refine ⟨_, ⟨hloop, (selects_spawned hne).mpr hid⟩, ?_⟩
        rintro c ⟨hc, hselects⟩
        have hspawned := ((hchildren c).mp hc).2
        by_cases hck : c.key = unassignedKey
        · rw [hspawned, hck, selects_sweeper] at hselects
          obtain ⟨cutoff, hcutoff, habove⟩ := hselects k hid
          exact absurd habove (not_above_of_assigned hassigned hcutoff)
        · rw [hspawned, selects_spawned hck, hid] at hselects
          rw [hspawned, ← Option.some.inj hselects]
      · have hselected : (spawned (sweeperCutoff (distinctScanSourceIds rows sourceLoopSlots)
            sourceLoopSlots) unassignedKey).sel.selects r := by
          rw [selects_sweeper]
          intro k' hk'
          rw [hid] at hk'
          exact ⟨cutoff, hcutoff, Option.some.inj hk' ▸ habove⟩
        refine ⟨_, ⟨hsweeper, hselected⟩, ?_⟩
        rintro c ⟨hc, hselects⟩
        obtain ⟨hwant, hspawned⟩ := (hchildren c).mp hc
        by_cases hck : c.key = unassignedKey
        · rw [hspawned, hck]
        · -- a loop of the row's own source would be an assigned one
          rw [hspawned, selects_spawned hck, hid] at hselects
          have hassigned := hwant.resolve_right hck
          rw [← Option.some.inj hselects] at hassigned
          exact absurd habove (not_above_of_assigned hassigned hcutoff)

/-- After a failed query only the rows without an id are selected. -/
theorem covered_of_failed_iff :
    Covered (pass s mapped healed false) ↔
      ∀ r ∈ healedRows s mapped healed, r.sourceId = none := by
  have hchildren : ∀ c, c ∈ (pass s mapped healed false).children ↔
      c.key = unassignedKey ∧ c = spawned none c.key := by
    intro c
    have hcutoff : sweeperCutoff [] sourceLoopSlots = none := by decide
    rw [pass, mem_reconcile h, assignedIds, if_neg Bool.false_ne_true, hcutoff]
    simp
  constructor
  · intro hcovered r hr
    obtain ⟨c, hc, hselects⟩ := hcovered r hr
    obtain ⟨hkey, hspawned⟩ := (hchildren c).mp hc
    rw [hspawned, hkey, selects_sweeper] at hselects
    by_contra hid
    obtain ⟨k, hk⟩ := Option.ne_none_iff_exists'.mp hid
    obtain ⟨cutoff, hcutoff, -⟩ := hselects k hk
    contradiction
  · intro hnone r hr
    refine ⟨spawned none unassignedKey, (hchildren _).mpr ⟨rfl, rfl⟩, ?_⟩
    rw [selects_sweeper]
    intro k hk
    rw [hnone r hr] at hk
    contradiction

end Pass

/-! ## Every run

Each pass on its own, and so each pass of a run. -/

/-- After a pass that has read the ids, the loops partition the rows. -/
def PassPartitions (s : Scanner) (e : Event) : Prop :=
  ∀ mapped healed, e = .pass mapped healed true → Partitioned (step s e)

/-- The sweeper's key is not among the ids that the pass assigns. -/
def KeyUnassigned (s : Scanner) (e : Event) : Prop :=
  ∀ mapped healed, e = .pass mapped healed true →
    unassignedKey ∉ distinctScanSourceIds (healedRows s mapped healed) sourceLoopSlots

/-- **When the loops partition the rows.**  Along every run they do after each pass that
reads the ids, exactly if no such pass assigns the sweeper's own key: a source of that
name would share the sweeper's place in the table of loops. -/
theorem passPartitions_iff (rows : Table ScanState) (events : List Event) :
    EachStep step PassPartitions (start rows) events ↔
      EachStep step KeyUnassigned (start rows) events := by
  apply eachStep_congr_of_invariant
    (I := fun s : Scanner => WellKeyed s.children s.sweeperAbove)
  · exact fun s e h _ => wellKeyed_step h e
  · intro s e h
    constructor
    · rintro hparts mapped healed rfl hkey
      exact not_covered_of_assigned h mapped healed hkey (hparts mapped healed rfl).covered
    · rintro hkey mapped healed rfl
      exact partitioned_of_not_assigned h mapped healed (hkey mapped healed rfl)
  · exact wellKeyed_start rows

/-- One row, whose source has the id that the sweeper is keyed by. -/
def collidingRows : Table ScanState :=
  ⟨[⟨"1", some unassignedKey, some 0, 0⟩], List.pairwise_singleton _ _⟩

/-- The only pass finds the sweeper under the key and spawns nothing. -/
theorem not_passPartitions_colliding :
    ¬EachStep step PassPartitions (start collidingRows) [.pass (fun _ => none) true true] := by
  rintro ⟨hparts, -⟩
  apply not_covered_of_assigned (wellKeyed_start collidingRows) (fun _ => none) true
  · exact List.mem_singleton.mpr rfl
  · exact (hparts (fun _ => none) true rfl).covered

/-- No pass leaves a row to no loop. -/
def PassCovers (s : Scanner) (e : Event) : Prop :=
  ∀ mapped healed listed, e = .pass mapped healed listed → Covered (step s e)

/-- The pass reads the ids, and the sweeper's key is not among those it assigns;
or it fails to, when no row has an id. -/
def Supervised (s : Scanner) (e : Event) : Prop :=
  ∀ mapped healed listed, e = .pass mapped healed listed →
    if listed then
      unassignedKey ∉ distinctScanSourceIds (healedRows s mapped healed) sourceLoopSlots
    else ∀ r ∈ healedRows s mapped healed, r.sourceId = none

/-- **When every row has a loop.**  Along every run no pass leaves a row to none,
exactly if each pass reads the ids and does not assign the sweeper's key, or no row has
an id.  A read that fails looks like a table without ids, and the loops of all sources
are ended. -/
theorem passCovers_iff (rows : Table ScanState) (events : List Event) :
    EachStep step PassCovers (start rows) events ↔
      EachStep step Supervised (start rows) events := by
  apply eachStep_congr_of_invariant
    (I := fun s : Scanner => WellKeyed s.children s.sweeperAbove)
  · exact fun s e h _ => wellKeyed_step h e
  · intro s e h
    constructor
    · rintro hcovers mapped healed listed rfl
      have hcovered := hcovers mapped healed listed rfl
      cases listed with
      | false => exact (covered_of_failed_iff h mapped healed).mp hcovered
      | true => exact fun hkey => not_covered_of_assigned h mapped healed hkey hcovered
    · rintro hsupervised mapped healed listed rfl
      have hpass := hsupervised mapped healed listed rfl
      cases listed with
      | false => exact (covered_of_failed_iff h mapped healed).mpr hpass
      | true => exact (partitioned_of_not_assigned h mapped healed hpass).covered
  · exact wellKeyed_start rows

/-- One row, of an ordinary source. -/
def mappedRows : Table ScanState :=
  ⟨[⟨"1", some "src", some 0, 0⟩], List.pairwise_singleton _ _⟩

/-- The first pass gives the source a loop, and the second, whose query fails,
takes it away. -/
theorem not_passCovers_failed :
    ¬EachStep step PassCovers (start mappedRows)
      [.pass (fun _ => none) true true, .pass (fun _ => none) true false] := by
  rintro ⟨-, hcovers, -⟩
  have hkeyed := wellKeyed_step (wellKeyed_start mappedRows) (.pass (fun _ => none) true true)
  have hnone := (covered_of_failed_iff hkeyed (fun _ => none) true).mp
    (hcovers (fun _ => none) true false rfl)
  exact absurd (hnone ⟨"1", some "src", some 0, 0⟩ (List.mem_singleton.mpr rfl)) (by decide)

end Komika.Scan.Supervisor
