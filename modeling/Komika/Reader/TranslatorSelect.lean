import Komika.Lib.Binary64
import Komika.Lib.SortBy
import Mathlib.Tactic.Positivity

/-!
# The default translator

`translator-select.ts`: which source of a work opens when no other has been
chosen.  Chapter numbers are binary64 numbers, and chapter counts are the
lengths of arrays.

* `isReach_maxSaneChapterNumber` — how far a source reaches;
* `leads_iff` — the guard against mis-merged sources, in exact arithmetic: its product
  with `0.1` is rounded, and rounds to the side of the exact one;
* `picked` — what `pickDefaultKey` returns, by the precedence of its fall-backs.  A
  preferred key that is empty is no preference.

The precedence is stated without the code's sorts and folds: `Prefers`, `Furthest` and
`Largest` say what is wanted of a source, and `IsFirst` that the one that is picked is
the first of these.
-/

namespace Komika.Reader.TranslatorSelect

open Komika.Lib Komika.Lib.SortBy

/-! ## The code

The numbers, the guard, and the precedence. -/

/-- A number that is not `NaN`. -/
abbrev Reach := { x : Binary64 // x ≠ .nan }

/-- What the selection reads of a source. -/
structure Selectable where
  key : String
  chapterCount : Nat
  maxChapterNumber : Option Reach
  redundant : Bool
  /-- The count is the length of an array. -/
  isLength : chapterCount < 2 ^ 32
deriving DecidableEq

/-- `MANGADEX_EXT_PKG`, the extension that mirrors what the spine has natively. -/
def mangadexExtPkg : String := "eu.kanade.tachiyomi.extension.all.mangadex"

/-- `isRedundantMangadexExt`: a source of that extension, where the spine can be
read. -/
def isRedundantMangadexExt (pkgName : Option String) (hasReadableSpine : Bool) : Bool :=
  pkgName = some mangadexExtPkg && hasReadableSpine

/-- `SANE_MAX_CHAPTER`: a larger number is taken for corrupt data. -/
def saneMaxChapter : Nat := 5000

/-- `MIN_CHAPTERS_TO_LEAD`: a source with fewer does not win on its reach. -/
def minChaptersToLead : Nat := 3

/-- `MIN_SHARE_OF_LEADER`, the binary64 number nearest to 0.1. -/
def minShareOfLeader : Binary64 := .finite false (7205759403792794 * 2 ^ 1018)

/-- A chapter number that is not data corruption: finite, not negative, and not too
large. -/
def usable (n : Binary64) : Bool :=
  n.isFinite && !n.lt (.ofNat 0) && !(Binary64.ofNat saneMaxChapter).lt n

theorem ne_nan_of_usable {n : Binary64} (h : usable n = true) : n ≠ .nan := by
  rintro rfl
  contradiction

/-- The body of the loop of `maxSaneChapterNumber`. -/
def best (best : Option Reach) (n : Binary64) : Option Reach :=
  if h : usable n = true then
    if best.all fun b => b.val.lt n then some ⟨n, ne_nan_of_usable h⟩ else best
  else best

/-- `maxSaneChapterNumber`: one pass over the numbers, from none. -/
def maxSaneChapterNumber (numbers : List Binary64) : Option Reach := numbers.foldl best none

/-- The guard for a source that is to win on its reach. -/
def leads (largest : Nat) (c : Selectable) : Bool :=
  minChaptersToLead ≤ c.chapterCount &&
    (minShareOfLeader.timesNat largest).le (.ofNat c.chapterCount)

/-- `eligible`: the sources that are not redundant, in their order. -/
def eligible (ordered : List Selectable) : List Selectable :=
  ordered.filter fun c => !c.redundant

/-- A source that passes the guard, with its `maxChapterNumber as number`. -/
def contender (largest : Nat) (c : Selectable) : Option (Reach × Selectable) :=
  c.maxChapterNumber.bind fun n => if leads largest c then some (n, c) else none

/-- `contenders`: the eligible sources that may win on their reach, judged by the
largest of them. -/
def contenders (eligible : List Selectable) : List (Reach × Selectable) :=
  eligible.filterMap (contender (eligible.foldl (fun m c => max m c.chapterCount) 0))

/-- `b.maxChapterNumber - a.maxChapterNumber` is not positive. -/
def reachesAsFar (a b : Reach × Selectable) : Bool := b.1.val.le a.1.val

/-- `furthestAhead`: the first of those with the greatest reach. -/
def furthestAhead (eligible : List Selectable) : Option Selectable :=
  ((contenders eligible).mergeSort reachesAsFar).head?.map Prod.snd

/-- `byMostChapters`: the first of those with the most chapters. -/
def byMostChapters (eligible : List Selectable) : Option Selectable :=
  (eligible.mergeSort fun a b => b.chapterCount ≤ a.chapterCount).head?

/-- `preferred`; an empty key is falsy. -/
def preferred (eligible : List Selectable) (preferredKey : Option String) : Option Selectable :=
  (preferredKey.filter (· ≠ "")).bind fun key => eligible.find? fun c => c.key = key

/-- `pickDefaultKey`: the preference, the reach, the count, and last the first source
there is. -/
def pickDefaultKey (ordered : List Selectable) (preferredKey : Option String) : Option String :=
  let eligible := eligible ordered
  match preferred eligible preferredKey with
  | some c => some c.key
  | none =>
      (((furthestAhead eligible).or (byMostChapters eligible)).or
        (eligible.head?.or ordered.head?)).map Selectable.key

/-! ## The reach

The greatest sane number of a source. -/

theorem exists_spot (r : Reach) : ∃ p, r.val.spot = some p :=
  Option.ne_none_iff_exists'.mp fun h => r.property (Binary64.spot_eq_none.mp h)

theorem le_trans_reach {a b c : Reach} (hab : a.val.le b.val = true)
    (hbc : b.val.le c.val = true) : a.val.le c.val = true := by
  obtain ⟨p, hp⟩ := exists_spot a
  obtain ⟨q, hq⟩ := exists_spot b
  obtain ⟨r, hr⟩ := exists_spot c
  rw [Binary64.le_of_spot hp hq] at hab
  rw [Binary64.le_of_spot hq hr] at hbc
  rw [Binary64.le_of_spot hp hr]
  exact hab.trans hbc

theorem le_of_not_lt {a b : Reach} (h : ¬a.val.lt b.val = true) : b.val.le a.val = true := by
  obtain ⟨p, hp⟩ := exists_spot a
  obtain ⟨q, hq⟩ := exists_spot b
  rw [Binary64.lt_of_spot hp hq] at h
  rw [Binary64.le_of_spot hq hp]
  exact not_lt.mp h

theorem le_refl_reach (a : Reach) : a.val.le a.val = true := by
  obtain ⟨p, hp⟩ := exists_spot a
  exact (Binary64.le_of_spot hp hp).mpr le_rfl

theorem le_of_lt {a b : Reach} (h : a.val.lt b.val = true) : a.val.le b.val = true := by
  obtain ⟨p, hp⟩ := exists_spot a
  obtain ⟨q, hq⟩ := exists_spot b
  rw [Binary64.lt_of_spot hp hq] at h
  rw [Binary64.le_of_spot hp hq]
  exact h.le

/-- What `maxSaneChapterNumber` finds: the greatest of the numbers that are no corruption,
unless all are. -/
def IsReach (numbers : List Binary64) : Option Reach → Prop
  | none => ∀ n ∈ numbers, usable n = false
  | some r => (r.val ∈ numbers ∧ usable r.val = true) ∧
      ∀ n ∈ numbers, usable n = true → n.le r.val = true

theorem isReach_best {numbers : List Binary64} {found : Option Reach} (h : IsReach numbers found)
    (n : Binary64) : IsReach (numbers ++ [n]) (best found n) := by
  unfold best
  by_cases husable : usable n = true
  · rw [dif_pos husable]
    have hself : n.le n = true := le_refl_reach ⟨n, ne_nan_of_usable husable⟩
    cases found with
    | none =>
        refine ⟨⟨by simp, husable⟩, List.forall_mem_append.mpr ⟨fun m hm hmusable => ?_, ?_⟩⟩
        · rw [h m hm] at hmusable
          contradiction
        · simpa using fun _ => hself
    | some r =>
        obtain ⟨⟨hr, hrusable⟩, hgreatest⟩ := h
        by_cases hlt : r.val.lt n = true
        · rw [if_pos (by exact hlt)]
          refine ⟨⟨by simp, husable⟩, List.forall_mem_append.mpr ⟨fun m hm hmusable => ?_, ?_⟩⟩
          · exact le_trans_reach (a := ⟨m, ne_nan_of_usable hmusable⟩)
              (b := r) (c := ⟨n, ne_nan_of_usable husable⟩) (hgreatest m hm hmusable)
              (le_of_lt hlt)
          · simpa using fun _ => hself
        · rw [if_neg (by exact hlt)]
          refine ⟨⟨by simp [hr], hrusable⟩, List.forall_mem_append.mpr ⟨hgreatest, ?_⟩⟩
          have hle : n.le r.val = true :=
            le_of_not_lt (b := ⟨n, ne_nan_of_usable husable⟩) hlt
          simpa using fun _ => hle
  · rw [dif_neg husable]
    rw [Bool.not_eq_true] at husable
    cases found with
    | none => exact List.forall_mem_append.mpr ⟨h, by simpa using husable⟩
    | some r =>
        obtain ⟨⟨hr, hrusable⟩, hgreatest⟩ := h
        refine ⟨⟨by simp [hr], hrusable⟩, List.forall_mem_append.mpr ⟨hgreatest, ?_⟩⟩
        simp [husable]

theorem isReach_maxSaneChapterNumber (numbers : List Binary64) :
    IsReach numbers (maxSaneChapterNumber numbers) := by
  induction numbers using List.reverseRecOn with
  | nil => exact nofun
  | append_singleton numbers n ih =>
      rw [maxSaneChapterNumber, List.foldl_append]
      exact isReach_best ih n

/-! ## The guard

A source that has less than a tenth of the largest one's chapters is not trusted. -/

theorem roundUnits_share (n : Nat) :
    Binary64.roundUnits (7205759403792794 * 2 ^ 1018 * n) =
      Binary64.roundUnits (7205759403792794 * n) * 2 ^ 1018 := by
  by_cases hn : n = 0
  · rw [hn, Nat.mul_zero, Nat.mul_zero]
    decide +kernel
  · have hbig : 2 ^ 52 ≤ 7205759403792794 * n := by omega
    rw [Nat.mul_right_comm, Binary64.roundUnits_mul_two_pow hbig]

/-- The rounded product with `0.1` is on the side of a number where the exact one is. -/
theorem roundUnits_tenth {n c : Nat} (hn : n < 2 ^ 32) :
    Binary64.roundUnits (7205759403792794 * n) ≤ c * 2 ^ 56 ↔ n ≤ 10 * c := by
  by_cases hzero : n = 0
  · rw [hzero]
    exact iff_of_true (Nat.zero_le _) (Nat.zero_le _)
  · obtain ⟨s, a, hlow, hhigh, hround, hdown, hup⟩ :=
      Binary64.roundUnits_spec (n := 7205759403792794 * n) (by omega)
    have hs : s ≤ 56 := by
      by_contra hlarge
      have hpow : 2 ^ 57 ≤ 2 ^ s := Nat.pow_le_pow_right (by decide) (by omega)
      omega
    -- a number that is above `c` is so by a whole step
    obtain ⟨k, hk⟩ : 2 ^ s ∣ c * 2 ^ 56 := Dvd.dvd.mul_left (Nat.pow_dvd_pow 2 hs) c
    rw [Nat.mul_comm (2 ^ s) k] at hk
    have hstep : a * 2 ^ s ≤ k * 2 ^ s ∨ k * 2 ^ s + 2 ^ s ≤ a * 2 ^ s := by
      rcases Nat.lt_or_ge k a with hlt | hge
      · have hmul := Nat.mul_le_mul_right (2 ^ s) hlt
        rw [Nat.succ_mul] at hmul
        exact Or.inr hmul
      · exact Or.inl (Nat.mul_le_mul_right (2 ^ s) hge)
    rw [hround]
    constructor
    · intro hle
      omega
    · intro hle
      rcases hstep with hbelow | habove
      · rw [hk]
        exact hbelow
      · omega

/-- The guard in exact arithmetic, for counts of 32 bits. -/
theorem timesNat_share_le {n c : Nat} (hn : n < 2 ^ 32) :
    (minShareOfLeader.timesNat n).le (.ofNat c) = true ↔ n ≤ 10 * c := by
  have hbound : Binary64.roundUnits (7205759403792794 * n) ≤ 2 ^ 32 * 2 ^ 56 :=
    (roundUnits_tenth hn).mpr (by omega)
  have hone : Binary64.one = 2 ^ 56 * 2 ^ 1018 := by decide +kernel
  have hscale : 0 < 2 ^ 1018 := by positivity
  have hfinite : ¬2 ^ 1024 * Binary64.one ≤
      Binary64.roundUnits (7205759403792794 * n) * 2 ^ 1018 := by
    rw [hone, ← Nat.mul_assoc, Nat.mul_le_mul_right_iff hscale, Nat.not_le]
    exact hbound.trans_lt (by decide +kernel)
  have htimes : minShareOfLeader.timesNat n =
      .finite false (Binary64.roundUnits (7205759403792794 * n) * 2 ^ 1018) := by
    unfold minShareOfLeader Binary64.timesNat
    dsimp only
    rw [roundUnits_share, if_neg hfinite]
  rw [htimes, Binary64.ofNat, Binary64.le_finite, hone, ← Nat.mul_assoc, ← roundUnits_tenth hn]
  show ((_ : Nat) : Int) ≤ ((_ : Nat) : Int) ↔ _
  rw [Int.ofNat_le, Nat.mul_le_mul_right_iff hscale]

/-- The guard is that of exact arithmetic. -/
theorem leads_iff {largest : Nat} {c : Selectable} (h : largest < 2 ^ 32) :
    leads largest c = true ↔ 3 ≤ c.chapterCount ∧ largest ≤ 10 * c.chapterCount := by
  rw [leads, Bool.and_eq_true, decide_eq_true_eq, timesNat_share_le h]
  rfl

/-! ## The precedence

The preferred source, the one furthest ahead, the one with the most chapters, the
first. -/

/-- The first element of the list that `p` holds of. -/
def IsFirst {α : Type} (p : α → Prop) (xs : List α) (a : α) : Prop :=
  ∃ before after, xs = before ++ a :: after ∧ p a ∧ ∀ b ∈ before, ¬p b

/-- A source of the list that is not redundant. -/
def Eligible (ordered : List Selectable) (c : Selectable) : Prop :=
  c ∈ ordered ∧ c.redundant = false

/-- The reader has a preference, for an eligible source. -/
def Prefers (ordered : List Selectable) (preferredKey : Option String) (key : String) : Prop :=
  preferredKey = some key ∧ key ≠ "" ∧ ∃ c, Eligible ordered c ∧ c.key = key

/-- An eligible source that reaches a chapter number and passes the guard: three chapters,
and a tenth of what the largest eligible source has. -/
structure Trusted (ordered : List Selectable) (c : Selectable) (reach : Reach) : Prop where
  eligible : Eligible ordered c
  numbered : c.maxChapterNumber = some reach
  enough : 3 ≤ c.chapterCount
  share : ∀ d, Eligible ordered d → d.chapterCount ≤ 10 * c.chapterCount

/-- No trusted source reaches further. -/
def Furthest (ordered : List Selectable) (c : Selectable) : Prop :=
  ∃ reach, Trusted ordered c reach ∧
    ∀ d reach', Trusted ordered d reach' → reach'.val.le reach.val = true

/-- No eligible source has more chapters. -/
def Largest (ordered : List Selectable) (c : Selectable) : Prop :=
  Eligible ordered c ∧ ∀ d, Eligible ordered d → d.chapterCount ≤ c.chapterCount

/-- What `pickDefaultKey` returns. -/
structure Picked (ordered : List Selectable) (preferredKey : Option String)
    (picked : Option String) : Prop where
  preferred : ∀ key, Prefers ordered preferredKey key → picked = some key
  furthest : (¬∃ key, Prefers ordered preferredKey key) → (∃ c reach, Trusted ordered c reach) →
    ∃ c, IsFirst (Furthest ordered) ordered c ∧ picked = some c.key
  largest : (¬∃ key, Prefers ordered preferredKey key) → (¬∃ c reach, Trusted ordered c reach) →
    (∃ c, Eligible ordered c) → ∃ c, IsFirst (Largest ordered) ordered c ∧ picked = some c.key
  redundant : ∀ c ∈ ordered, c.redundant = true → picked = some c.key →
    ∀ d ∈ ordered, d.redundant = true
  empty : picked = none ↔ ordered = []
  stable : ∀ ordered', eligible ordered' = eligible ordered → (∃ c, Eligible ordered c) →
    pickDefaultKey ordered' preferredKey = picked

section Precedence

variable {ordered : List Selectable} {preferredKey : Option String} {c : Selectable}

theorem mem_eligible : c ∈ eligible ordered ↔ Eligible ordered c := by
  rw [eligible, List.mem_filter, Bool.not_eq_true']
  rfl

theorem isFirst_of_find? {α : Type} {p : α → Bool} {xs : List α} {a : α}
    (h : xs.find? p = some a) : IsFirst (fun b => p b = true) xs a := by
  obtain ⟨ha, before, after, hsplit, hbefore⟩ := List.find?_eq_some_iff_append.mp h
  exact ⟨before, after, hsplit, ha, fun b hb => by simpa using hbefore b hb⟩

/-- What a selection finds first is made of what the list has first. -/
theorem IsFirst.of_filterMap {α β : Type} {f : α → Option β} {p : β → Prop} {xs : List α} {b : β}
    (h : IsFirst p (xs.filterMap f) b) :
    ∃ a, f a = some b ∧ IsFirst (fun a => ∃ b, f a = some b ∧ p b) xs a := by
  obtain ⟨before, after, hsplit, hb, hbefore⟩ := h
  obtain ⟨l, r, rfl, rfl, hr⟩ := List.filterMap_eq_append_iff.mp hsplit
  obtain ⟨skipped, a, rest, rfl, hskipped, ha, -⟩ := List.filterMap_eq_cons_iff.mp hr
  refine ⟨a, ha, l ++ skipped, rest, by simp, ⟨b, ha, hb⟩, ?_⟩
  rintro c hc ⟨d, hd, hp⟩
  rcases List.mem_append.mp hc with hc | hc
  · exact hbefore d (List.mem_filterMap.mpr ⟨c, hc, hd⟩) hp
  · rw [hskipped c hc] at hd
    contradiction

theorem IsFirst.of_filter {α : Type} {p : α → Prop} {q : α → Bool} {xs : List α} {a : α}
    (h : IsFirst p (xs.filter q) a) : IsFirst (fun a => q a = true ∧ p a) xs a := by
  obtain ⟨before, after, hsplit, ha, hbefore⟩ := h
  obtain ⟨l, r, rfl, rfl, hr⟩ := List.filter_eq_append_iff.mp hsplit
  obtain ⟨skipped, rest, rfl, hskipped, hq, -⟩ := List.filter_eq_cons_iff.mp hr
  refine ⟨l ++ skipped, rest, by simp, ⟨hq, ha⟩, ?_⟩
  rintro c hc ⟨hqc, hpc⟩
  rcases List.mem_append.mp hc with hc | hc
  · exact hbefore c (List.mem_filter.mpr ⟨hc, hqc⟩) hpc
  · exact hskipped c hc hqc

theorem IsFirst.congr {α : Type} {p q : α → Prop} {xs : List α} {a : α} (h : IsFirst p xs a)
    (hpq : ∀ b ∈ xs, p b ↔ q b) : IsFirst q xs a := by
  obtain ⟨before, after, rfl, ha, hbefore⟩ := h
  exact ⟨before, after, rfl, (hpq a (by simp)).mp ha,
    fun b hb hq => hbefore b hb ((hpq b (by simp [hb])).mpr hq)⟩

theorem preferred_eq_some (h : preferred (eligible ordered) preferredKey = some c) :
    Prefers ordered preferredKey c.key := by
  obtain ⟨key, hkey, hfind⟩ := Option.bind_eq_some_iff.mp h
  obtain ⟨hsome, hne⟩ := Option.filter_eq_some_iff.mp hkey
  have hc := List.find?_some hfind
  rw [decide_eq_true_eq] at hc hne
  rw [hc]
  exact ⟨hsome, hne, c, mem_eligible.mp (List.mem_of_find?_eq_some hfind), hc⟩

theorem preferred_eq_none :
    preferred (eligible ordered) preferredKey = none ↔
      ¬∃ key, Prefers ordered preferredKey key := by
  constructor
  · rintro h ⟨key, rfl, hne, c, hc, hkey⟩
    rw [preferred, Option.filter_some_pos (by simpa using hne), Option.bind_some] at h
    exact List.find?_eq_none.mp h c (mem_eligible.mpr hc) (decide_eq_true hkey)
  · intro h
    rw [Option.eq_none_iff_forall_ne_some]
    intro c hc
    exact h ⟨c.key, preferred_eq_some hc⟩

theorem foldl_max_le {xs : List Selectable} {m b : Nat} :
    xs.foldl (fun m c => max m c.chapterCount) m ≤ b ↔
      m ≤ b ∧ ∀ c ∈ xs, c.chapterCount ≤ b := by
  induction xs generalizing m with
  | nil => simp
  | cons c xs ih =>
      rw [List.foldl_cons, ih, List.forall_mem_cons, Nat.max_le, and_assoc]

theorem mem_contenders {reach : Reach} :
    (reach, c) ∈ contenders (eligible ordered) ↔ Trusted ordered c reach := by
  have hlargest : (eligible ordered).foldl (fun m c => max m c.chapterCount) 0 < 2 ^ 32 := by
    rw [← Nat.le_sub_one_iff_lt (by decide), foldl_max_le]
    exact ⟨Nat.zero_le _, fun d _ => Nat.le_sub_one_of_lt d.isLength⟩
  simp only [contenders, contender, List.mem_filterMap, Option.bind_eq_some_iff,
    Option.ite_none_right_eq_some, Option.some.injEq, leads_iff hlargest, foldl_max_le]
  constructor
  · rintro ⟨c', hc', n, hn, ⟨henough, -, hshare⟩, hpair⟩
    obtain ⟨rfl, rfl⟩ := Prod.mk.inj hpair
    exact ⟨mem_eligible.mp hc', hn, henough, fun d hd => hshare d (mem_eligible.mpr hd)⟩
  · intro h
    exact ⟨c, mem_eligible.mpr h.eligible, reach, h.numbered,
      ⟨h.enough, Nat.zero_le _, fun d hd => h.share d (mem_eligible.mp hd)⟩, rfl⟩

theorem head?_eq_none_of_mergeSort {α : Type} {le : α → α → Bool} {xs : List α} :
    (xs.mergeSort le).head? = none ↔ xs = [] := by
  rw [List.head?_eq_none_iff, ← List.length_eq_zero_iff, List.length_mergeSort,
    List.length_eq_zero_iff]

theorem furthestAhead_eq_none :
    furthestAhead (eligible ordered) = none ↔ ¬∃ c reach, Trusted ordered c reach := by
  rw [furthestAhead, Option.map_eq_none_iff, head?_eq_none_of_mergeSort,
    List.eq_nil_iff_forall_not_mem]
  simp only [Prod.forall, mem_contenders, not_exists]
  exact forall_comm

theorem byMostChapters_eq_none :
    byMostChapters (eligible ordered) = none ↔ ¬∃ c, Eligible ordered c := by
  rw [byMostChapters, head?_eq_none_of_mergeSort, List.eq_nil_iff_forall_not_mem]
  simp only [mem_eligible, not_exists]

/-- The last fall-back is the source with the most chapters. -/
theorem isFirst_byMostChapters (h : byMostChapters (eligible ordered) = some c) :
    IsFirst (Largest ordered) ordered c := by
  rw [byMostChapters, head?_mergeSort (by simp; omega) (by simp; omega)] at h
  apply (isFirst_of_find? h).of_filter.congr
  intro b hb
  simp only [Bool.not_eq_true', List.all_eq_true, decide_eq_true_eq, mem_eligible]
  exact ⟨fun ⟨hred, hmax⟩ => ⟨⟨hb, hred⟩, hmax⟩, fun ⟨⟨_, hred⟩, hmax⟩ => ⟨hred, hmax⟩⟩

theorem reachesAsFar_trans (a b c : Reach × Selectable) (hab : reachesAsFar a b = true)
    (hbc : reachesAsFar b c = true) : reachesAsFar a c = true :=
  le_trans_reach hbc hab

theorem reachesAsFar_total (a b : Reach × Selectable) :
    (reachesAsFar a b || reachesAsFar b a) = true := by
  obtain ⟨p, hp⟩ := exists_spot a.1
  obtain ⟨q, hq⟩ := exists_spot b.1
  rw [Bool.or_eq_true, reachesAsFar, reachesAsFar, Binary64.le_of_spot hq hp,
    Binary64.le_of_spot hp hq]
  exact le_total q p

theorem snd_of_contender {largest : Nat} {x : Reach × Selectable}
    (h : contender largest c = some x) : x.2 = c := by
  obtain ⟨n, -, hx⟩ := Option.bind_eq_some_iff.mp h
  obtain ⟨-, hx⟩ := Option.ite_none_right_eq_some.mp hx
  rw [← Option.some.inj hx]

/-- The second is the one that reaches furthest, among those that are trusted. -/
theorem isFirst_furthestAhead (h : furthestAhead (eligible ordered) = some c) :
    IsFirst (Furthest ordered) ordered c := by
  rw [furthestAhead, head?_mergeSort reachesAsFar_trans reachesAsFar_total] at h
  obtain ⟨x, hfind, rfl⟩ := Option.map_eq_some_iff.mp h
  obtain ⟨c, hc, hfirst⟩ := (isFirst_of_find? hfind).of_filterMap
  rw [snd_of_contender hc]
  apply hfirst.of_filter.congr
  intro b hb
  simp only [List.all_eq_true, Prod.forall, mem_contenders]
  constructor
  · rintro ⟨hred, y, hy, hall⟩
    have hmem : y ∈ contenders (eligible ordered) :=
      List.mem_filterMap.mpr ⟨b, List.mem_filter.mpr ⟨hb, hred⟩, hy⟩
    have hsnd := snd_of_contender hy
    obtain ⟨reach, b'⟩ := y
    obtain rfl : b' = b := hsnd
    exact ⟨reach, mem_contenders.mp hmem, fun d reach' hd => hall reach' d hd⟩
  · rintro ⟨reach, htrusted, hall⟩
    obtain ⟨b', hb', hy⟩ := List.mem_filterMap.mp (mem_contenders.mpr htrusted)
    obtain rfl : b = b' := snd_of_contender hy
    exact ⟨(List.mem_filter.mp hb').2, _, hy, fun reach' d hd => hall d reach' hd⟩

theorem pickDefaultKey_of_prefers {key : String} (h : Prefers ordered preferredKey key) :
    pickDefaultKey ordered preferredKey = some key := by
  cases hpreferred : preferred (eligible ordered) preferredKey with
  | none => exact absurd ⟨key, h⟩ (preferred_eq_none.mp hpreferred)
  | some c =>
      have hkey := (preferred_eq_some hpreferred).1
      rw [h.1] at hkey
      unfold pickDefaultKey
      dsimp only
      rw [hpreferred]
      exact hkey.symm

theorem pickDefaultKey_of_not_prefers (h : ¬∃ key, Prefers ordered preferredKey key) :
    pickDefaultKey ordered preferredKey =
      (((furthestAhead (eligible ordered)).or (byMostChapters (eligible ordered))).or
        ((eligible ordered).head?.or ordered.head?)).map Selectable.key := by
  unfold pickDefaultKey
  dsimp only
  rw [preferred_eq_none.mpr h]

/-- A redundant source does not matter as long as there is another. -/
theorem pickDefaultKey_congr {ordered' : List Selectable}
    (h : eligible ordered' = eligible ordered) (hsome : ∃ c, Eligible ordered c) :
    pickDefaultKey ordered' preferredKey = pickDefaultKey ordered preferredKey := by
  obtain ⟨c, hc⟩ := hsome
  obtain ⟨first, hfirst⟩ : ∃ c, (eligible ordered).head? = some c := by
    rw [← Option.ne_none_iff_exists', ne_eq, List.head?_eq_none_iff]
    exact List.ne_nil_of_mem (mem_eligible.mpr hc)
  unfold pickDefaultKey
  dsimp only
  rw [h, hfirst, Option.some_or, Option.some_or]

theorem exists_eligible_of_picked (preferredKey : Option String) (hsome : ∃ c, Eligible ordered c) :
    ∃ c, Eligible ordered c ∧ pickDefaultKey ordered preferredKey = some c.key := by
  by_cases hprefers : ∃ key, Prefers ordered preferredKey key
  · obtain ⟨key, hkey⟩ := hprefers
    have hpicked := pickDefaultKey_of_prefers hkey
    obtain ⟨-, -, c, hc, rfl⟩ := hkey
    exact ⟨c, hc, hpicked⟩
  · rw [pickDefaultKey_of_not_prefers hprefers]
    cases hfurthest : furthestAhead (eligible ordered) with
    | some c =>
        obtain ⟨-, -, -, ⟨reach, htrusted, -⟩, -⟩ := isFirst_furthestAhead hfurthest
        exact ⟨c, htrusted.eligible, by rw [Option.some_or, Option.some_or, Option.map_some]⟩
    | none =>
        cases hlargest : byMostChapters (eligible ordered) with
        | some c =>
            obtain ⟨-, -, -, ⟨hc, -⟩, -⟩ := isFirst_byMostChapters hlargest
            exact ⟨c, hc, by rw [Option.none_or, Option.some_or, Option.map_some]⟩
        | none => exact absurd hsome (byMostChapters_eq_none.mp hlargest)

/-- Where all sources are redundant, the first of the list. -/
theorem pickDefaultKey_of_redundant (h : ¬∃ c, Eligible ordered c) :
    pickDefaultKey ordered preferredKey = ordered.head?.map Selectable.key := by
  have hprefers : ¬∃ key, Prefers ordered preferredKey key := by
    rintro ⟨key, -, -, c, hc, -⟩
    exact h ⟨c, hc⟩
  have htrusted : ¬∃ c reach, Trusted ordered c reach := by
    rintro ⟨c, reach, hc⟩
    exact h ⟨c, hc.eligible⟩
  have hnone : eligible ordered = [] := by
    rw [List.eq_nil_iff_forall_not_mem]
    exact fun c hc => h ⟨c, mem_eligible.mp hc⟩
  rw [pickDefaultKey_of_not_prefers hprefers, furthestAhead_eq_none.mpr htrusted,
    byMostChapters_eq_none.mpr h, hnone, List.head?_nil, Option.none_or, Option.none_or,
    Option.none_or]

/-- **The default is the furthest-ahead trustworthy source**, unless the reader prefers
another; without one that is trusted it is the largest, a redundant source is picked
only where all are, and sources that are not eligible change nothing. -/
theorem picked (ordered : List Selectable) (preferredKey : Option String)
    (hkeys : (ordered.map Selectable.key).Nodup) :
    Picked ordered preferredKey (pickDefaultKey ordered preferredKey) where
  preferred key h := pickDefaultKey_of_prefers h
  furthest hprefers htrusted := by
    rw [pickDefaultKey_of_not_prefers hprefers]
    cases hfurthest : furthestAhead (eligible ordered) with
    | some c =>
        refine ⟨c, isFirst_furthestAhead hfurthest, ?_⟩
        rw [Option.some_or, Option.some_or, Option.map_some]
    | none => exact absurd htrusted (furthestAhead_eq_none.mp hfurthest)
  largest hprefers htrusted hsome := by
    rw [pickDefaultKey_of_not_prefers hprefers, furthestAhead_eq_none.mpr htrusted]
    cases hlargest : byMostChapters (eligible ordered) with
    | some c =>
        refine ⟨c, isFirst_byMostChapters hlargest, ?_⟩
        rw [Option.none_or, Option.some_or, Option.map_some]
    | none => exact absurd hsome (byMostChapters_eq_none.mp hlargest)
  redundant c hc hredundant hpicked d hd := by
    by_contra hnot
    rw [Bool.not_eq_true] at hnot
    obtain ⟨c', hc', hkey⟩ := exists_eligible_of_picked preferredKey ⟨d, hd, hnot⟩
    rw [hpicked] at hkey
    have hsame : c = c' := List.inj_on_of_nodup_map hkeys hc hc'.1 (Option.some.inj hkey)
    rw [hsame, hc'.2] at hredundant
    contradiction
  empty := by
    constructor
    · intro hnone
      by_cases hsome : ∃ c, Eligible ordered c
      · obtain ⟨c, -, hkey⟩ := exists_eligible_of_picked preferredKey hsome
        rw [hnone] at hkey
        contradiction
      · rw [pickDefaultKey_of_redundant hsome, Option.map_eq_none_iff] at hnone
        exact List.head?_eq_none_iff.mp hnone
    · rintro rfl
      exact pickDefaultKey_of_redundant fun ⟨c, hc, _⟩ => List.not_mem_nil hc
  stable ordered' h hsome := pickDefaultKey_congr h hsome

/-- A source with the key that a reader may not prefer, and one that is further ahead. -/
def unkeyed : List Selectable :=
  [⟨"", 1, none, false, by decide⟩, ⟨"mangadex:spine", 3, some ⟨.ofNat 3, nofun⟩, false, by decide⟩]

theorem picked_unkeyed :
    (unkeyed.map Selectable.key).Nodup ∧
      Picked unkeyed (some "mangadex:spine") (pickDefaultKey unkeyed (some "mangadex:spine")) :=
  ⟨by decide, picked unkeyed (some "mangadex:spine") (by decide)⟩

/-- An empty key is not honoured, though it names a source. -/
theorem not_preferred_empty :
    (unkeyed.map Selectable.key).Nodup ∧ (∃ c, Eligible unkeyed c ∧ c.key = "") ∧
      pickDefaultKey unkeyed (some "") ≠ some "" :=
  ⟨by decide, ⟨_, ⟨List.mem_cons_self, rfl⟩, rfl⟩, by decide +kernel⟩

end Precedence

end Komika.Reader.TranslatorSelect
