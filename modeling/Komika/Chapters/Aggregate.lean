import Komika.Chapters.WorkChapters
import Komika.Lib.Grouping

/-!
# One row for a chapter

`group_aggregated_chapters` (`graphql/mod.rs`) folds the rows of all the sources
of a work into one row for each chapter.  Its map is ordered by the number and
the key of a row, so that it lists the chapters in order; but the key rounds the
number to hundredths, and two numbers with one key are two entries.
`onePerKey_iff` says when that does not happen.

The fold is a grouping by a comparator (`Lib.Grouping`); what one group makes of its
rows is the same for all of them (`absorbed_summary`).

* `ordered_entries`, `absorbed_of_mem_entries` — the entries of the map;
* `mem_keys_iff` — no key is lost;
* `NumberPerKey.members_eq`, `OnePerKey.numberPerKey` — one number for each key;
* `onePerKey_iff` — every list of rows;
* `not_onePerKey_twoWidths` — one number, parsed and widened.
-/

namespace Komika.Chapters.Aggregate

open Std (TransCmp)
open Komika.Lib
open Komika.Catalog.Database (Db)
open Komika.Catalog.SpineKeys (Coherent)
open Komika.Chapters.Label Komika.Chapters.WorkChapters

/-! ## The order of the map

By number and then by key, with no number last. -/

/-- `OrderedNumber::cmp`: unnumbered chapters come last. -/
def orderedNumberCmp : Option ChapterNumber → Option ChapterNumber → Ordering
  | some a, some b => (a.val.partialCmp b.val).getD .eq
  | some _, none => .lt
  | none, some _ => .gt
  | none, none => .eq

/-- The order of `(OrderedNumber, String)`. -/
def entryCmp (a b : Option ChapterNumber × String) : Ordering :=
  (orderedNumberCmp a.1 b.1).then (compare a.2 b.2)

/-- The place of a number among the chapter numbers, in units. -/
def rank : Option ChapterNumber → Int
  | some n =>
      match n.val with
      | .finite negative units => Binary64.signed negative units
      | _ => 0
  | none => saneMaxChapter * Binary64.one + 1

theorem exists_finite (n : ChapterNumber) : ∃ negative units,
    n.val = .finite negative units ∧
      Binary64.signed negative units ≤ saneMaxChapter * Binary64.one := by
  obtain ⟨n, hn⟩ := n
  cases n with
  | nan => contradiction
  | infinity negative => contradiction
  | finite negative units =>
      refine ⟨negative, units, rfl, ?_⟩
      rw [isSaneNumber, Bool.and_eq_true, Bool.and_eq_true] at hn
      have hle := Binary64.le_finite.mp hn.2.2
      have hmax : Binary64.signed false (saneMaxChapter * Binary64.one) =
          saneMaxChapter * Binary64.one := Nat.cast_mul _ _
      rwa [hmax] at hle

/-- The order is the order of the ranks. -/
theorem orderedNumberCmp_eq (a b : Option ChapterNumber) :
    orderedNumberCmp a b = compare (rank a) (rank b) := by
  cases a with
  | none =>
      cases b with
      | none => exact (compare_eq_iff_eq.mpr rfl).symm
      | some b =>
          obtain ⟨t, n, hb, hbound⟩ := exists_finite b
          refine (compare_gt_iff_gt.mpr ?_).symm
          rw [rank, rank, hb]
          dsimp only
          omega
  | some a =>
      obtain ⟨s, m, ha, hbound⟩ := exists_finite a
      cases b with
      | none =>
          refine (compare_lt_iff_lt.mpr ?_).symm
          rw [rank, rank, ha]
          dsimp only
          omega
      | some b =>
          obtain ⟨t, n, hb, -⟩ := exists_finite b
          rw [orderedNumberCmp, rank, rank, ha, hb, Binary64.partialCmp_finite]
          rfl

instance : TransCmp orderedNumberCmp := by
  have hcmp : orderedNumberCmp = compareOn rank := by
    funext a b
    exact orderedNumberCmp_eq a b
  rw [hcmp]
  infer_instance

instance : TransCmp entryCmp := by
  have hcmp : entryCmp = compareLex (compareOn fun e => rank e.1)
      (compareOn fun e => e.2) := by
    funext a b
    rw [entryCmp, orderedNumberCmp_eq]
    rfl
  rw [hcmp]
  infer_instance

theorem entryCmp_eq_iff {a b : Option ChapterNumber × String} :
    entryCmp a b = .eq ↔ orderedNumberCmp a.1 b.1 = .eq ∧ a.2 = b.2 := by
  rw [entryCmp, Ordering.then_eq_eq, compare_eq_iff_eq]

/-! ## The groups

What the fold keeps of the rows of an entry. -/

/-- A source of an aggregated chapter. -/
structure ChapterSource where
  sourceType : String
  sourceId : String
  suwayomiMangaId : Option String
  chapterId : String
  scanlator : Option String
deriving DecidableEq, Repr

/-- A row of the list. -/
structure AggregatedChapter where
  number : Binary64
  label : String
  key : String
  title : Option String
  firstReleasedAt : Option String
  sources : List ChapterSource
deriving DecidableEq, Repr

/-- The source of a row. -/
def chapterSource (r : WorkChapterRow) : ChapterSource :=
  ⟨r.sourceType, r.sourceId, r.suwayomiMangaId, r.chapterId, r.scanlator⟩

/-- `or_insert_with`; an unnumbered chapter shows as 0. -/
def freshGroup (r : WorkChapterRow) : AggregatedChapter where
  number := (r.number.map Subtype.val).getD (.ofNat 0)
  label := r.label
  key := r.key
  title := r.title
  firstReleasedAt := none
  sources := []

/-- The earlier of two release times. -/
def earlier (current released : Option String) : Option String :=
  match released with
  | none => current
  | some t => if current.all fun c => t < c then some t else current

/-- The body of the loop, for the group of the row. -/
def absorb (g : AggregatedChapter) (r : WorkChapterRow) : AggregatedChapter :=
  { g with
    title := if g.title.getD "" = "" then r.title else g.title
    firstReleasedAt := earlier g.firstReleasedAt r.releasedAt
    sources := g.sources ++ [chapterSource r] }

/-- The key of the map. -/
def entryKey (r : WorkChapterRow) : Option ChapterNumber × String := (r.number, r.key)

/-- `group_aggregated_chapters`: one row for each entry of the map, in the order of its
keys. -/
def groupAggregatedChapters (rows : List WorkChapterRow) : List AggregatedChapter :=
  (Grouping.collect entryCmp entryKey freshGroup absorb rows).toList.map Prod.snd

/-! ## What a group is

The first title, the earliest release, and all sources. -/

/-- The first of some release times; none when there is none. -/
def Earliest (first : Option String) (times : List String) : Prop :=
  match first with
  | none => times = []
  | some t => t ∈ times ∧ ∀ u ∈ times, ¬u < t

/-- The title says something. -/
def hasTitle (title : Option String) : Prop := title.getD "" ≠ ""

section Groups

variable {rows : List WorkChapterRow} {r : WorkChapterRow} {g : AggregatedChapter}

theorem earliest_earlier {current : Option String} {times : List String}
    (h : Earliest current times) (released : Option String) :
    Earliest (earlier current released) (times ++ released.toList) := by
  cases released with
  | none => rwa [Option.toList_none, List.append_nil]
  | some t =>
      cases current with
      | none =>
          have hnil : times = [] := h
          rw [hnil]
          exact ⟨List.mem_singleton_self t, fun u hu => by
            rw [List.mem_singleton.mp hu]; exact lt_irrefl t⟩
      | some c =>
          obtain ⟨hc, hfirst⟩ := h
          by_cases hlt : t < c
          · have hearlier : earlier (some c) (some t) = some t :=
              if_pos (decide_eq_true hlt)
            rw [hearlier]
            refine ⟨by simp, fun u hu hut => ?_⟩
            rcases List.mem_append.mp hu with hu | hu
            · exact hfirst u hu (lt_trans hut hlt)
            · have hsame : t = u := Option.some.inj (Option.mem_toList.mp hu)
              exact lt_irrefl t (hsame ▸ hut)
          · have hearlier : earlier (some c) (some t) = some c :=
              if_neg fun h => hlt (of_decide_eq_true h)
            rw [hearlier]
            refine ⟨List.mem_append_left _ hc, fun u hu huc => ?_⟩
            rcases List.mem_append.mp hu with hu | hu
            · exact hfirst u hu huc
            · have hsame : t = u := Option.some.inj (Option.mem_toList.mp hu)
              exact hlt (hsame ▸ huc)

/-- Two earliest times of the same times are one. -/
theorem earliest_unique {a b : Option String} {xs ys : List String}
    (ha : Earliest a xs) (hb : Earliest b ys) (hperm : xs.Perm ys) : a = b := by
  cases a with
  | none =>
      have hnil : xs = [] := ha
      rw [hnil] at hperm
      cases b with
      | none => rfl
      | some y =>
          have hy := hperm.symm.subset hb.1
          contradiction
  | some x =>
      cases b with
      | none =>
          have hnil : ys = [] := hb
          have hx := hperm.subset ha.1
          rw [hnil] at hx
          contradiction
      | some y =>
          have hxy := hb.2 x (hperm.subset ha.1)
          have hyx := ha.2 y (hperm.symm.subset hb.1)
          rw [le_antisymm (not_lt.mp hyx) (not_lt.mp hxy)]

/-- What the loop has made of a group: the rows it has absorbed. -/
structure Absorbed (rows : List WorkChapterRow) (g : AggregatedChapter) : Prop where
  key : ∀ r ∈ rows, r.key = g.key
  sources : g.sources = rows.map chapterSource
  earliest : Earliest g.firstReleasedAt (rows.filterMap WorkChapterRow.releasedAt)
  titled : ∀ r ∈ rows, hasTitle r.title → hasTitle g.title

theorem absorbed_freshGroup (r : WorkChapterRow) : Absorbed [] (freshGroup r) where
  key _ hr := absurd hr List.not_mem_nil
  sources := rfl
  earliest := rfl
  titled _ hr := absurd hr List.not_mem_nil

/-- One row more of a key. -/
theorem absorbed_absorb (h : Absorbed rows g) (hkey : r.key = g.key) :
    Absorbed (rows ++ [r]) (absorb g r) where
  key q hq := by
    rcases List.mem_append.mp hq with hq | hq
    · exact h.key q hq
    · rw [List.mem_singleton.mp hq]
      exact hkey
  sources := by
    show g.sources ++ [_] = _
    rw [h.sources, List.map_append]
    rfl
  earliest := by
    have htimes : (rows ++ [r]).filterMap WorkChapterRow.releasedAt =
        rows.filterMap WorkChapterRow.releasedAt ++ r.releasedAt.toList := by
      rw [List.filterMap_append]
      congr 1
    rw [htimes]
    exact earliest_earlier h.earliest r.releasedAt
  titled q hq htitle := by
    show hasTitle (ite _ _ _)
    split
    · next hempty =>
        rcases List.mem_append.mp hq with hq | hq
        · exact absurd hempty (h.titled q hq htitle)
        · exact List.mem_singleton.mp hq ▸ htitle
    · next hne => exact hne

theorem absorbed_foldl {done : List WorkChapterRow} (h : Absorbed done g)
    (hkey : ∀ r ∈ rows, r.key = g.key) :
    Absorbed (done ++ rows) (rows.foldl absorb g) := by
  induction rows generalizing done g with
  | nil => rwa [List.append_nil]
  | cons r rows ih =>
      have hstep := absorbed_absorb h (hkey r List.mem_cons_self)
      have hrest : ∀ q ∈ rows, q.key = (absorb g r).key := fun q hq =>
        hkey q (List.mem_cons_of_mem _ hq)
      have hall := ih hstep hrest
      rwa [List.append_assoc] at hall

/-- The group of some rows with one key. -/
theorem absorbed_summary {k : String}
    (h : Grouping.summary freshGroup absorb rows = some g)
    (hkey : ∀ r ∈ rows, r.key = k) :
    rows ≠ [] ∧ g.key = k ∧ Absorbed rows g := by
  cases rows with
  | nil => contradiction
  | cons r rows =>
      have hg : (r :: rows).foldl absorb (freshGroup r) = g := Option.some.inj h
      have hfresh : (freshGroup r).key = k := hkey r List.mem_cons_self
      have hall : Absorbed ([] ++ r :: rows) g :=
        hg ▸ absorbed_foldl (absorbed_freshGroup r) fun q hq =>
          (hkey q hq).trans hfresh.symm
      rw [List.nil_append] at hall
      refine ⟨List.cons_ne_nil _ _, ?_, hall⟩
      rw [← hall.key r List.mem_cons_self]
      exact hfresh

end Groups

/-! ## One row for each key

When two numbers have one key. -/

/-- The rows of a key. -/
def rowsOf (rows : List WorkChapterRow) (key : String) : List WorkChapterRow :=
  rows.filter fun r => r.key = key

/-- Each chapter key has one row, which stands for all the rows of its key; the
list is in the order of the numbers, and does not depend on the order of the
rows. -/
structure OnePerKey (rows : List WorkChapterRow) : Prop where
  once : ((groupAggregatedChapters rows).map AggregatedChapter.key).Nodup
  keys : ∀ key, key ∈ (groupAggregatedChapters rows).map AggregatedChapter.key ↔
    key ∈ rows.map WorkChapterRow.key
  sources : ∀ g ∈ groupAggregatedChapters rows,
    g.sources = (rowsOf rows g.key).map chapterSource
  ordered : (groupAggregatedChapters rows).Pairwise fun g g' =>
    ∀ r ∈ rowsOf rows g.key, ∀ r' ∈ rowsOf rows g'.key,
      orderedNumberCmp r.number r'.number ≠ .gt
  earliest : ∀ g ∈ groupAggregatedChapters rows, Earliest g.firstReleasedAt
    ((rowsOf rows g.key).filterMap WorkChapterRow.releasedAt)
  titled : ∀ g ∈ groupAggregatedChapters rows, ∀ r ∈ rowsOf rows g.key,
    hasTitle r.title → hasTitle g.title
  permuted : ∀ rows', rows'.Perm rows →
    (∀ key, key ∈ (groupAggregatedChapters rows').map AggregatedChapter.key ↔
      key ∈ (groupAggregatedChapters rows).map AggregatedChapter.key) ∧
    ∀ g ∈ groupAggregatedChapters rows, ∀ g' ∈ groupAggregatedChapters rows',
      g'.key = g.key → g'.firstReleasedAt = g.firstReleasedAt

/-- Rows with one key have numbers that compare equal. -/
def NumberPerKey (rows : List WorkChapterRow) : Prop :=
  ∀ r ∈ rows, ∀ r' ∈ rows, r.key = r'.key →
    orderedNumberCmp r.number r'.number = .eq

section Entries

variable {rows rows' : List WorkChapterRow} {g : AggregatedChapter}
  {e : Option ChapterNumber × String}

/-- The entries of the map. -/
def entries (rows : List WorkChapterRow) :
    List ((Option ChapterNumber × String) × AggregatedChapter) :=
  (Grouping.collect entryCmp entryKey freshGroup absorb rows).toList

theorem ordered_entries (rows : List WorkChapterRow) :
    (entries rows).Pairwise fun a b => entryCmp a.1 b.1 = .lt :=
  Std.TreeMap.ordered_keys_toList

theorem mem_members_entryKey {r : WorkChapterRow} :
    r ∈ Grouping.members entryCmp entryKey rows e ↔
      r ∈ rows ∧ orderedNumberCmp r.number e.1 = .eq ∧ r.key = e.2 := by
  rw [Grouping.mem_members, entryCmp_eq_iff]
  rfl

/-- An entry has the rows of its number and its key, and there are some. -/
theorem absorbed_of_mem_entries (h : (e, g) ∈ entries rows) :
    (∃ r ∈ rows, orderedNumberCmp r.number e.1 = .eq ∧ r.key = e.2) ∧ g.key = e.2 ∧
      Absorbed (Grouping.members entryCmp entryKey rows e) g := by
  have hsummary := Grouping.mem_toList_collect h
  obtain ⟨hne, hkey, habsorbed⟩ := absorbed_summary hsummary fun r hr =>
    (mem_members_entryKey.mp hr).2.2
  obtain ⟨r, hr⟩ := List.exists_mem_of_ne_nil _ hne
  exact ⟨⟨r, mem_members_entryKey.mp hr⟩, hkey, habsorbed⟩

theorem exists_entry_of_mem {r : WorkChapterRow} (hr : r ∈ rows) :
    ∃ e g, (e, g) ∈ entries rows ∧ orderedNumberCmp r.number e.1 = .eq ∧
      r.key = e.2 := by
  have hentry : ∃ e g, (e, g) ∈ entries rows ∧ entryCmp (entryKey r) e = .eq :=
    Grouping.exists_mem_toList_collect hr
  obtain ⟨e, g, hin, hcmp⟩ := hentry
  exact ⟨e, g, hin, entryCmp_eq_iff.mp hcmp⟩

/-- The keys are those of the rows, whatever the numbers. -/
theorem mem_keys_iff {key : String} :
    key ∈ (groupAggregatedChapters rows).map AggregatedChapter.key ↔
      key ∈ rows.map WorkChapterRow.key := by
  constructor
  · intro h
    obtain ⟨g, hg, rfl⟩ := List.mem_map.mp h
    obtain ⟨⟨e, g⟩, he, rfl⟩ := List.mem_map.mp hg
    obtain ⟨⟨r, hr, -, hkey⟩, hgkey, -⟩ := absorbed_of_mem_entries he
    exact List.mem_map.mpr ⟨r, hr, hkey.trans hgkey.symm⟩
  · intro h
    obtain ⟨r, hr, rfl⟩ := List.mem_map.mp h
    obtain ⟨e, g, he, -, hkey⟩ := exists_entry_of_mem hr
    refine List.mem_map.mpr ⟨g, List.mem_map.mpr ⟨(e, g), he, rfl⟩, ?_⟩
    exact (absorbed_of_mem_entries he).2.1.trans hkey.symm

/-- With one number for each key, an entry has all the rows of its key. -/
theorem NumberPerKey.members_eq (h : NumberPerKey rows) (he : (e, g) ∈ entries rows) :
    Grouping.members entryCmp entryKey rows e = rowsOf rows g.key := by
  obtain ⟨⟨q, hq, hqcmp, hqkey⟩, hgkey, -⟩ := absorbed_of_mem_entries he
  apply List.filter_congr
  intro r hr
  rw [decide_eq_decide, entryCmp_eq_iff, hgkey]
  refine ⟨And.right, fun hkey => ⟨?_, hkey⟩⟩
  have hrq := h r hr q hq (hkey.trans hqkey.symm)
  show orderedNumberCmp r.number e.1 = .eq
  rwa [TransCmp.congr_left hrq]

theorem NumberPerKey.perm (h : NumberPerKey rows) (hperm : rows'.Perm rows) :
    NumberPerKey rows' :=
  fun r hr r' hr' => h r (hperm.subset hr) r' (hperm.subset hr')

/-- Each row of the list stands for all the rows of its key. -/
theorem NumberPerKey.absorbed (h : NumberPerKey rows)
    (hg : g ∈ groupAggregatedChapters rows) : Absorbed (rowsOf rows g.key) g := by
  obtain ⟨⟨e, g⟩, he, rfl⟩ := List.mem_map.mp hg
  have hall := (absorbed_of_mem_entries he).2.2
  rwa [h.members_eq he] at hall

/-- Two entries with one key have one number. -/
theorem NumberPerKey.pairwise_key_ne (h : NumberPerKey rows) :
    (entries rows).Pairwise fun a b => a.2.key ≠ b.2.key := by
  refine (ordered_entries rows).imp_of_mem ?_
  intro a b ha hb hlt heq
  obtain ⟨⟨r, hr, hrcmp, hrkey⟩, hakey, -⟩ := absorbed_of_mem_entries ha
  obtain ⟨⟨q, hq, hqcmp, hqkey⟩, hbkey, -⟩ := absorbed_of_mem_entries hb
  have hkeys : a.1.2 = b.1.2 := hakey.symm.trans (heq.trans hbkey)
  have hrq := h r hr q hq (hrkey.trans (hkeys.trans hqkey.symm))
  have hsame : entryCmp a.1 b.1 = .eq := by
    refine entryCmp_eq_iff.mpr ⟨?_, hkeys⟩
    rw [← TransCmp.congr_left hrcmp, TransCmp.congr_left hrq]
    exact hqcmp
  rw [hsame] at hlt
  contradiction

end Entries

/-- Two numbers of one key are two entries, and two rows of the list. -/
theorem OnePerKey.numberPerKey {rows : List WorkChapterRow} (h : OnePerKey rows) :
    NumberPerKey rows := by
  intro r hr r' hr' hkey
  obtain ⟨e, g, he, hcmp, hekey⟩ := exists_entry_of_mem hr
  obtain ⟨e', g', he', hcmp', hekey'⟩ := exists_entry_of_mem hr'
  have hgkey : g.key = g'.key := by
    rw [(absorbed_of_mem_entries he).2.1, (absorbed_of_mem_entries he').2.1, ← hekey,
      ← hekey', hkey]
  have honce : ((entries rows).map fun p => p.2.key).Nodup := by
    have hnodup := h.once
    rwa [groupAggregatedChapters, List.map_map] at hnodup
  have hsame : (e, g) = (e', g') := List.inj_on_of_nodup_map honce he he' hgkey
  have heq : e = e' := congrArg Prod.fst hsame
  rw [← heq] at hcmp'
  rw [TransCmp.congr_left hcmp]
  exact Std.OrientedCmp.eq_symm hcmp'

/-- **When a chapter has one row.**  The list has one row for each key, which stands for
all the rows of its key, exactly if rows with one key have numbers that compare equal.
The rows are grouped by the number first and the key second, so two numbers that are
rounded to one key make two groups of it. -/
theorem onePerKey_iff (rows : List WorkChapterRow) :
    OnePerKey rows ↔ NumberPerKey rows := by
  constructor
  · exact OnePerKey.numberPerKey
  · intro h
    constructor
    · rw [groupAggregatedChapters, List.map_map]
      exact List.pairwise_map.mpr h.pairwise_key_ne
    · exact fun key => mem_keys_iff
    · exact fun g hg => (h.absorbed hg).sources
    · refine List.pairwise_map.mpr ((ordered_entries rows).imp_of_mem ?_)
      intro a b ha hb hlt r hr r' hr' hgt
      have hrcmp := (mem_members_entryKey.mp
        ((h.members_eq ha).symm ▸ hr : r ∈ Grouping.members _ _ _ a.1)).2.1
      have hrcmp' := (mem_members_entryKey.mp
        ((h.members_eq hb).symm ▸ hr' : r' ∈ Grouping.members _ _ _ b.1)).2.1
      rw [TransCmp.congr_left hrcmp, TransCmp.congr_right hrcmp'] at hgt
      rw [entryCmp, hgt] at hlt
      contradiction
    · exact fun g hg => (h.absorbed hg).earliest
    · exact fun g hg => (h.absorbed hg).titled
    · intro rows' hperm
      refine ⟨fun key => ?_, fun g hg g' hg' hkey => ?_⟩
      · rw [mem_keys_iff, mem_keys_iff]
        exact (hperm.map WorkChapterRow.key).mem_iff
      · have hrows : (rowsOf rows' g'.key).Perm (rowsOf rows g.key) := by
          rw [hkey]
          exact hperm.filter _
        exact earliest_unique ((h.perm hperm).absorbed hg').earliest
          (h.absorbed hg).earliest (hrows.filterMap _)

/-! ## One number in two widths

The spine stores a text, the cache a number. -/

/-- `10.1`, and the `f32` nearest to it as an `f64`. -/
def tenPointOne : Binary64 := .finite false (5685794529555251 * 2 ^ 1025)

/-- 10.1, out of a `f32`. -/
def widenedTenPointOne : Binary64 := .finite false (5295309 * 2 ^ 1055)

/-- A parser that reads `10.1`. -/
def tenFormats : Formats where
  parse text :=
    if text = "10.1" then some tenPointOne
    else if text = "10.100000381469727" then some widenedTenPointOne
    else none
  print n := if n = tenPointOne then "10.1" else "10.100000381469727"
  timestampMillis _ := none

/-- A work with the chapter from two sources, one of which sends `f32` numbers. -/
def twoWidths : Db :=
  { Db.empty with
    sourceSeries := ⟨[⟨"s1", "w", "suwayomi", "src1", "7", none, false, none⟩,
      ⟨"s2", "w", "suwayomi", "src2", "8", none, false, none⟩], by decide⟩
    chapter := ⟨[
      ⟨"c1", "s1", "70", some "10.1", none, some "en", some "Chapter", none, none, none,
        none, some "1010", some "10.1"⟩,
      ⟨"c2", "s2", "80", some "10.100000381469727", none, some "en", some "Chapter", none,
        none, none, none, some "1010", some "10.1"⟩], by decide⟩ }

/-- Both have the key and the label that the spine's writers give them, and
they are two rows of the list. -/
theorem not_onePerKey_twoWidths :
    (∀ c ∈ twoWidths.chapter.rows, Coherent
      (labelRules tenFormats.parse) c) ∧
      ¬OnePerKey (workSourceChapters tenFormats twoWidths "w") := by
  constructor
  · intro c hc _
    revert c
    decide +kernel
  · intro h
    have hnumber := h.numberPerKey
    unfold NumberPerKey at hnumber
    revert hnumber
    decide +kernel

end Komika.Chapters.Aggregate
