import Mathlib.Data.List.Pairwise
import Mathlib.Algebra.BigOperators.Group.List.Basic
import Mathlib.Tactic.Ring

/-!
# Keyed tables

A table of a relational database, with the statements a program runs on it.
Its unique keys are one relation: `clash a b` says that `a` and `b` agree on
some unique key, so that no table holds both.  Compound keys, several keys,
partial indices and NULLs that count as distinct are all instances of `clash`.

The statements are `INSERT`, `INSERT OR IGNORE`, `INSERT OR REPLACE`, upserts,
`DELETE`, `UPDATE` of columns outside every key, and `UPDATE OR IGNORE`, which
visits the rows in order and skips each update that would break a key.

`updateOrIgnore_rows` is the rule for the repointing idiom: when the updated
rows can only clash with rows that are not updated, the visiting order does
not matter and the whole statement is a `map`.

Each statement is defined once, on any row type with its keys, and known by the rows
that it leaves:

* `mem_insertOrIgnore`, `mem_upsert`, `mem_update`, `mem_deleteWhere`,
  `mem_insertOrReplace` — for one statement;
* `mem_foldl_update_apart`, `mem_insertAllOrIgnore_iff`, `filter_upsertAll` — for
  statements in a row;
* `mem_updateOrIgnore_deleteWhere` — for the repointing update with the delete that
  follows it;
* `total_upsertAll`, `total_fold` — for the sum of a column.
-/

namespace Komika.Lib

universe u v

/-- The unique keys of a row type. -/
class Keyed (ρ : Type u) where
  clash : ρ → ρ → Bool
  clash_symm : ∀ a b, clash a b = clash b a

export Keyed (clash clash_symm)

/-- One key, possibly compound. -/
@[reducible] def Keyed.ofKey {ρ : Type u} {κ : Type v} [DecidableEq κ]
    (key : ρ → κ) : Keyed ρ where
  clash a b := decide (key a = key b)
  clash_symm a b := by simp [eq_comm]

/-- A list of rows, no two of which agree on a unique key. -/
structure Table (ρ : Type u) [Keyed ρ] where
  rows : List ρ
  unique : rows.Pairwise fun a b => clash a b = false

variable {ρ : Type u} [Keyed ρ]

namespace Table

instance : Membership ρ (Table ρ) where
  mem t r := r ∈ t.rows

theorem mem_rows {t : Table ρ} {r : ρ} : r ∈ t.rows ↔ r ∈ t := Iff.rfl

/-- The rows of one table agree on a key only if they are one row. -/
theorem eq_of_clash {t : Table ρ} {a b : ρ} (ha : a ∈ t) (hb : b ∈ t)
    (h : clash a b = true) : a = b := by
  by_contra hne
  have : Std.Symm fun a b : ρ => clash a b = false :=
    ⟨fun a b hab => by rw [clash_symm, hab]⟩
  have hfalse := t.unique.forall ha hb hne
  rw [h] at hfalse
  contradiction

/-- A `SELECT` by a condition that only one row can meet. -/
theorem find?_eq_some_iff {t : Table ρ} {p : ρ → Bool} {r : ρ}
    (hp : ∀ a b, p a = true → p b = true → clash a b = true) :
    t.rows.find? p = some r ↔ r ∈ t ∧ p r = true := by
  constructor
  · intro h
    exact ⟨List.mem_of_find?_eq_some h, List.find?_some h⟩
  · rintro ⟨hr, hpr⟩
    cases hfind : t.rows.find? p with
    | none =>
        exact absurd hpr (List.find?_eq_none.mp hfind r hr)
    | some x =>
        have hx := List.mem_of_find?_eq_some hfind
        rw [eq_of_clash hx hr (hp x r (List.find?_some hfind) hpr)]

/-! ## Statements

What each statement does to the list of rows; the proof that keys stay unique is part of
the definition. -/

/-- A table without rows. -/
def empty : Table ρ := ⟨[], List.Pairwise.nil⟩

instance : Inhabited (Table ρ) := ⟨empty⟩

/-- Some row agrees with `r` on a key. -/
def taken (t : Table ρ) (r : ρ) : Bool := t.rows.any (clash r)

/-- No row agrees with `r` on a key. -/
theorem taken_eq_false {t : Table ρ} {r : ρ} :
    t.taken r = false ↔ ∀ y ∈ t, clash r y = false := by
  simp [taken, ← mem_rows]

theorem taken_eq_true {t : Table ρ} {r : ρ} :
    t.taken r = true ↔ ∃ y ∈ t, clash r y = true := by
  simp [taken, ← mem_rows]

/-- Append a row whose keys are free. -/
def push (t : Table ρ) (r : ρ) (h : t.taken r = false) : Table ρ where
  rows := t.rows ++ [r]
  unique := by
    refine List.pairwise_append.mpr
      ⟨t.unique, List.pairwise_singleton _ _, ?_⟩
    intro a ha b hb
    rw [List.mem_singleton.mp hb, clash_symm]
    exact taken_eq_false.mp h a ha

/-- `INSERT`: fails when a key is taken. -/
def insert (t : Table ρ) (r : ρ) : Option (Table ρ) :=
  if h : t.taken r = false then some (t.push r h) else none

/-- `INSERT` of several rows: fails as a whole when a key is taken. -/
def insertAll (t : Table ρ) (rs : List ρ) : Option (Table ρ) :=
  rs.foldlM insert t

/-- `INSERT OR IGNORE`: a row that clashes with one that is there is passed over. -/
def insertOrIgnore (t : Table ρ) (r : ρ) : Table ρ :=
  if h : t.taken r = false then t.push r h else t

/-- `INSERT OR IGNORE … SELECT`, the selected rows in order. -/
def insertAllOrIgnore (t : Table ρ) (rs : List ρ) : Table ρ :=
  rs.foldl insertOrIgnore t

/-- `DELETE … WHERE p`. -/
def deleteWhere (t : Table ρ) (p : ρ → Bool) : Table ρ where
  rows := t.rows.filter fun r => !p r
  unique := t.unique.sublist List.filter_sublist

/-- Deleting what clashes frees the keys. -/
theorem taken_deleteWhere_clash (t : Table ρ) (r : ρ) :
    (t.deleteWhere (clash r)).taken r = false := by
  simp [taken_eq_false, deleteWhere, ← mem_rows]

/-- `INSERT OR REPLACE`: the rows that it clashes with go first. -/
def insertOrReplace (t : Table ρ) (r : ρ) : Table ρ :=
  (t.deleteWhere (clash r)).push r (taken_deleteWhere_clash t r)

/-- `f` leaves every unique key as it is. -/
def KeepsKeys (f : ρ → ρ) : Prop :=
  ∀ a b, clash (f a) b = clash a b

/-- `UPDATE … SET f WHERE p`, for columns outside every key. -/
def update (t : Table ρ) (p : ρ → Bool) (f : ρ → ρ) (h : KeepsKeys f) :
    Table ρ where
  rows := t.rows.map fun r => if p r then f r else r
  unique := by
    refine List.pairwise_map.mpr (t.unique.imp ?_)
    intro a b hab
    have hkeep : ∀ x y : ρ, clash (if p x then f x else x) y = clash x y := by
      intro x y
      split
      · exact h x y
      · rfl
    rw [hkeep, clash_symm, hkeep, clash_symm, hab]

/-- `INSERT … ON CONFLICT DO UPDATE SET merge`: `merge old new` replaces the
row whose key is taken. -/
def upsert (t : Table ρ) (r : ρ) (merge : ρ → ρ → ρ)
    (h : KeepsKeys (merge · r)) : Table ρ :=
  if hfree : t.taken r = false then t.push r hfree
  else t.update (clash r) (merge · r) h

/-- `INSERT … SELECT … ON CONFLICT DO UPDATE`. -/
def upsertAll (t : Table ρ) (rs : List ρ) (merge : ρ → ρ → ρ)
    (h : ∀ r, KeepsKeys (merge · r)) : Table ρ :=
  rs.foldl (fun t r => t.upsert r merge (h r)) t

/-- One pass of `UPDATE OR IGNORE`: `done` has been visited. -/
def updateOrIgnoreRows (p : ρ → Bool) (f : ρ → ρ) : List ρ → List ρ → List ρ
  | done, [] => done
  | done, r :: rest =>
      if p r && (done ++ rest).all (fun y => !clash (f r) y) then
        updateOrIgnoreRows p f (done ++ [f r]) rest
      else
        updateOrIgnoreRows p f (done ++ [r]) rest

/-- At no point of the pass do two rows share a key. -/
theorem updateOrIgnoreRows_unique (p : ρ → Bool) (f : ρ → ρ) (done rest : List ρ)
    (h : (done ++ rest).Pairwise fun a b => clash a b = false) :
    (updateOrIgnoreRows p f done rest).Pairwise fun a b => clash a b = false := by
  induction rest generalizing done with
  | nil => simpa [updateOrIgnoreRows] using h
  | cons r rest ih =>
      unfold updateOrIgnoreRows
      split
      · next hfree =>
          refine ih (done ++ [f r]) ?_
          have hrest : (done ++ rest).Pairwise fun a b => clash a b = false :=
            h.sublist (List.Sublist.append_left (List.sublist_cons_self r rest) done)
          have hclash : ∀ y ∈ done ++ rest, clash (f r) y = false := by
            intro y hy
            simpa using List.all_eq_true.mp (Bool.and_eq_true_iff.mp hfree).2 y hy
          rw [List.append_assoc]
          obtain ⟨hd, hr, hcross⟩ := List.pairwise_append.mp hrest
          refine List.pairwise_append.mpr
            ⟨hd, List.pairwise_cons.mpr ⟨?_, hr⟩, ?_⟩
          · exact fun y hy => hclash y (List.mem_append_right _ hy)
          · intro a ha b hb
            rcases List.mem_cons.mp hb with rfl | hb
            · rw [clash_symm]
              exact hclash a (List.mem_append_left _ ha)
            · exact hcross a ha b hb
      · exact ih (done ++ [r]) (by simpa using h)

/-- `UPDATE OR IGNORE … SET f WHERE p`. -/
def updateOrIgnore (t : Table ρ) (p : ρ → Bool) (f : ρ → ρ) : Table ρ where
  rows := updateOrIgnoreRows p f [] t.rows
  unique := updateOrIgnoreRows_unique p f [] t.rows (by simpa using t.unique)

/-! ## Which rows a statement leaves

The rows after a statement, by those before it.  The order of the rows is left to
`rows_of_insertAll`. -/

theorem not_mem_empty (r : ρ) : r ∉ (empty : Table ρ) := List.not_mem_nil

@[simp] theorem mem_push {t : Table ρ} {r x : ρ} {h : t.taken r = false} :
    x ∈ t.push r h ↔ x ∈ t ∨ x = r := by
  simp [push, ← mem_rows]

/-- A successful `INSERT` adds the row. -/
theorem mem_of_insert {t t' : Table ρ} {r : ρ} (h : t.insert r = some t')
    {x : ρ} : x ∈ t' ↔ x ∈ t ∨ x = r := by
  unfold insert at h
  split at h
  · rw [← Option.some.inj h]
    exact mem_push
  · contradiction

theorem mem_of_insertAll {t t' : Table ρ} {rs : List ρ}
    (h : t.insertAll rs = some t') {x : ρ} : x ∈ t' ↔ x ∈ t ∨ x ∈ rs := by
  unfold insertAll at h
  induction rs generalizing t with
  | nil => simp_all
  | cons r rs ih =>
      rw [List.foldlM_cons] at h
      obtain ⟨t'', hinsert, hrest⟩ := Option.bind_eq_some_iff.mp h
      rw [ih hrest, mem_of_insert hinsert, List.mem_cons, or_assoc]

/-- Several rows can be inserted if they keep apart from each other and from the rows
that are there. -/
theorem isSome_insertAll {t : Table ρ} {rs : List ρ} : (t.insertAll rs).isSome = true ↔
    (rs.Pairwise fun a b => clash a b = false) ∧ ∀ r ∈ rs, ∀ y ∈ t, clash r y = false := by
  unfold insertAll
  induction rs generalizing t with
  | nil => simp
  | cons r rs ih =>
      rw [List.foldlM_cons, List.pairwise_cons, List.forall_mem_cons]
      by_cases hfree : t.taken r = false
      · have hinsert : t.insert r = some (t.push r hfree) := dif_pos hfree
        have hr := taken_eq_false.mp hfree
        rw [hinsert]
        show (rs.foldlM insert (t.push r hfree)).isSome = true ↔ _
        rw [ih]
        simp only [mem_push, or_imp, forall_and, forall_eq, clash_symm (b := r)]
        tauto
      · have hinsert : t.insert r = none := dif_neg hfree
        have hr : ¬∀ y ∈ t, clash r y = false := mt taken_eq_false.mpr hfree
        rw [hinsert]
        show (none : Option (Table ρ)).isSome = true ↔ _
        simp [hr]

/-- Inserted rows come after those that were there. -/
theorem rows_of_insertAll {t t' : Table ρ} {rs : List ρ} (h : t.insertAll rs = some t') :
    t'.rows = t.rows ++ rs := by
  unfold insertAll at h
  induction rs generalizing t with
  | nil =>
      rw [Option.some.inj h, List.append_nil]
  | cons r rs ih =>
      rw [List.foldlM_cons] at h
      obtain ⟨t'', hinsert, hrest⟩ := Option.bind_eq_some_iff.mp h
      have hrows : t''.rows = t.rows ++ [r] := by
        unfold insert at hinsert
        split at hinsert
        · rw [← Option.some.inj hinsert]
          rfl
        · contradiction
      rw [ih hrest, hrows, List.append_assoc]
      rfl

/-- It succeeds only over free keys. -/
theorem free_of_insert {t t' : Table ρ} {r : ρ} (h : t.insert r = some t') :
    ∀ y ∈ t, clash r y = false := by
  unfold insert at h
  split at h
  · next hfree => exact taken_eq_false.mp hfree
  · contradiction

/-- The row is added if its keys are free. -/
theorem mem_insertOrIgnore {t : Table ρ} {r x : ρ} :
    x ∈ t.insertOrIgnore r ↔
      x ∈ t ∨ (x = r ∧ ∀ y ∈ t, clash r y = false) := by
  unfold insertOrIgnore
  split
  · next h =>
      have hfree := taken_eq_false.mp h
      rw [mem_push]
      exact or_congr_right ⟨fun hx => ⟨hx, hfree⟩, And.left⟩
  · next h =>
      have htaken : ¬∀ y ∈ t, clash r y = false := fun hfree =>
        h (taken_eq_false.mpr hfree)
      simp [htaken]

@[simp] theorem insertAllOrIgnore_cons (t : Table ρ) (r : ρ) (rs : List ρ) :
    t.insertAllOrIgnore (r :: rs) =
      (t.insertOrIgnore r).insertAllOrIgnore rs := rfl

/-- `INSERT OR IGNORE` deletes nothing. -/
theorem mem_insertAllOrIgnore_of_mem {t : Table ρ} {rs : List ρ} {x : ρ}
    (h : x ∈ t) : x ∈ t.insertAllOrIgnore rs := by
  induction rs generalizing t with
  | nil => exact h
  | cons r rs ih => exact ih (mem_insertOrIgnore.mpr (.inl h))

/-- It adds nothing but the selected rows, and those only over free keys. -/
theorem mem_of_mem_insertAllOrIgnore {t : Table ρ} {rs : List ρ} {x : ρ}
    (h : x ∈ t.insertAllOrIgnore rs) :
    x ∈ t ∨ (x ∈ rs ∧ ∀ y ∈ t, clash x y = false) := by
  induction rs generalizing t with
  | nil => exact .inl h
  | cons r rs ih =>
      rcases ih h with hx | ⟨hx, hfree⟩
      · rcases mem_insertOrIgnore.mp hx with hx | ⟨rfl, hfree⟩
        · exact .inl hx
        · exact .inr ⟨List.mem_cons_self, hfree⟩
      · exact .inr ⟨List.mem_cons_of_mem _ hx, fun y hy =>
          hfree y (mem_insertOrIgnore.mpr (.inl hy))⟩

/-- Selected rows that keep apart from each other are added one and all, where
their keys are free. -/
theorem mem_insertAllOrIgnore_iff {t : Table ρ} {rs : List ρ}
    (hrs : rs.Pairwise fun a b => clash a b = false) {x : ρ} :
    x ∈ t.insertAllOrIgnore rs ↔
      x ∈ t ∨ (x ∈ rs ∧ ∀ y ∈ t, clash x y = false) := by
  refine ⟨mem_of_mem_insertAllOrIgnore, ?_⟩
  rintro (hx | ⟨hx, hfree⟩)
  · exact mem_insertAllOrIgnore_of_mem hx
  · induction rs generalizing t with
    | nil => contradiction
    | cons r rs ih =>
        obtain ⟨hr, hrs⟩ := List.pairwise_cons.mp hrs
        rw [insertAllOrIgnore_cons]
        rcases List.mem_cons.mp hx with rfl | htail
        · exact mem_insertAllOrIgnore_of_mem
            (mem_insertOrIgnore.mpr (.inr ⟨rfl, hfree⟩))
        · refine ih hrs htail fun y hy => ?_
          rcases mem_insertOrIgnore.mp hy with hy | ⟨rfl, -⟩
          · exact hfree y hy
          · rw [clash_symm]
            exact hr x htail

/-- A selected row is there afterwards, or a row that has one of its keys. -/
theorem insertAllOrIgnore_covers {t : Table ρ} {rs : List ρ} {r : ρ}
    (h : r ∈ rs) :
    r ∈ t.insertAllOrIgnore rs ∨
      ∃ y ∈ t.insertAllOrIgnore rs, clash r y = true := by
  induction rs generalizing t with
  | nil => contradiction
  | cons x rs ih =>
      rcases List.mem_cons.mp h with rfl | h
      · by_cases hfree : t.taken r = false
        · have hr : r ∈ t.insertOrIgnore r :=
            mem_insertOrIgnore.mpr (.inr ⟨rfl, taken_eq_false.mp hfree⟩)
          have hkept : r ∈ (t.insertOrIgnore r).insertAllOrIgnore rs :=
            mem_insertAllOrIgnore_of_mem hr
          exact .inl hkept
        · obtain ⟨y, hy, hclash⟩ :=
            taken_eq_true.mp (Bool.not_eq_false _ ▸ hfree)
          have hy : y ∈ t.insertOrIgnore r := mem_insertOrIgnore.mpr (.inl hy)
          have hkept : y ∈ (t.insertOrIgnore r).insertAllOrIgnore rs :=
            mem_insertAllOrIgnore_of_mem hy
          exact .inr ⟨y, hkept, hclash⟩
      · exact ih h

/-- Nothing is added over keys that are taken. -/
theorem insertAllOrIgnore_of_taken {t : Table ρ} {rs : List ρ}
    (h : ∀ r ∈ rs, t.taken r = true) : t.insertAllOrIgnore rs = t := by
  induction rs with
  | nil => rfl
  | cons r rs ih =>
      have hr : t.insertOrIgnore r = t := by
        have htaken := h r List.mem_cons_self
        simp [insertOrIgnore, htaken]
      rw [insertAllOrIgnore_cons, hr]
      exact ih fun x hx => h x (List.mem_cons_of_mem _ hx)

/-- Where a row is its own key, a selected row is there afterwards. -/
theorem mem_insertAllOrIgnore_of_eq {t : Table ρ} {rs : List ρ}
    (heq : ∀ a b : ρ, clash a b = true → a = b) {x : ρ} :
    x ∈ t.insertAllOrIgnore rs ↔ x ∈ t ∨ x ∈ rs := by
  constructor
  · exact fun hx => (mem_of_mem_insertAllOrIgnore hx).imp_right And.left
  · rintro (hx | hx)
    · exact mem_insertAllOrIgnore_of_mem hx
    · rcases insertAllOrIgnore_covers (t := t) hx with hx | ⟨y, hy, hclash⟩
      · exact hx
      · rwa [heq x y hclash]

/-- `DELETE` leaves the rows that do not meet the condition. -/
@[simp] theorem mem_deleteWhere {t : Table ρ} {p : ρ → Bool} {x : ρ} :
    x ∈ t.deleteWhere p ↔ x ∈ t ∧ p x = false := by
  simp [deleteWhere, ← mem_rows]

/-- What clashes with the new row is gone. -/
theorem mem_insertOrReplace {t : Table ρ} {r x : ρ} :
    x ∈ t.insertOrReplace r ↔ (x ∈ t ∧ clash r x = false) ∨ x = r := by
  unfold insertOrReplace
  rw [mem_push, mem_deleteWhere]

/-- Each row is updated or left. -/
theorem mem_update {t : Table ρ} {p : ρ → Bool} {f : ρ → ρ} {h : KeepsKeys f}
    {x : ρ} :
    x ∈ t.update p f h ↔ ∃ r ∈ t, x = if p r then f r else r := by
  simp only [← mem_rows, update, List.mem_map]
  exact exists_congr fun r => and_congr_right fun _ => eq_comm

/-- An update changes nothing exactly if it changes no row that it finds. -/
theorem update_eq_self_iff {t : Table ρ} {p : ρ → Bool} {f : ρ → ρ}
    {h : KeepsKeys f} : t.update p f h = t ↔ ∀ r ∈ t, p r = true → f r = r := by
  have hrows : t.rows.map (fun r => if p r then f r else r) = t.rows.map id ↔
      ∀ r ∈ t.rows, p r = true → f r = r := by
    rw [List.map_inj_left]
    refine forall₂_congr fun r _ => ?_
    by_cases hr : p r = true <;> simp [hr]
  rw [List.map_id] at hrows
  cases t
  simpa [update, ← mem_rows] using hrows

/-- An update that finds no row. -/
theorem update_of_forall_eq_false {t : Table ρ} {p : ρ → Bool} {f : ρ → ρ}
    {h : KeepsKeys f} (hp : ∀ r ∈ t, p r = false) : t.update p f h = t :=
  update_eq_self_iff.mpr fun r hr htrue => by simp [hp r hr] at htrue

/-- A sequence of updates that all set the same columns is one update. -/
theorem mem_foldl_update {α : Type v} {rs : List α} {p : α → ρ → Bool}
    {f : ρ → ρ} {h : KeepsKeys f} (hidem : ∀ x, f (f x) = f x) {t : Table ρ}
    {x : ρ} :
    x ∈ rs.foldl (fun t r => t.update (p r) f h) t ↔
      ∃ old ∈ t, x = if rs.any fun r => p r old then f old else old := by
  induction rs generalizing t with
  | nil => simp
  | cons r rs ih =>
      rw [List.foldl_cons, ih]
      constructor
      · rintro ⟨old, hold, rfl⟩
        obtain ⟨row, hrow, rfl⟩ := mem_update.mp hold
        refine ⟨row, hrow, ?_⟩
        cases hp : p r row <;> simp [hp, hidem]
      · rintro ⟨row, hrow, rfl⟩
        refine ⟨_, mem_update.mpr ⟨row, hrow, rfl⟩, ?_⟩
        cases hp : p r row <;> simp [hp, hidem]

/-- Updates of rows that no two of them share, by columns that none of them
sets: each row is updated once or not at all. -/
theorem mem_foldl_update_apart {α : Type v} {rs : List α} {p : α → ρ → Bool}
    {f : α → ρ → ρ} {h : ∀ a, KeepsKeys (f a)} (hkeep : ∀ a b x, p b (f a x) = p b x)
    (hrs : rs.Pairwise fun a b => ∀ x, p a x = true → p b x = false) {t : Table ρ}
    {x : ρ} :
    x ∈ rs.foldl (fun t a => t.update (p a) (f a) (h a)) t ↔ ∃ old ∈ t,
      (∃ a ∈ rs, p a old = true ∧ x = f a old) ∨
        ((∀ a ∈ rs, p a old = false) ∧ x = old) := by
  induction rs generalizing t with
  | nil => simp
  | cons r rs ih =>
      obtain ⟨hr, hrs⟩ := List.pairwise_cons.mp hrs
      rw [List.foldl_cons, ih hrs]
      have hone : ∀ old : ρ, (∃ a ∈ rs, p a (if p r old then f r old else old) = true ∧
            x = f a (if p r old then f r old else old)) ∨
          ((∀ a ∈ rs, p a (if p r old then f r old else old) = false) ∧
            x = if p r old then f r old else old) ↔
          (∃ a ∈ r :: rs, p a old = true ∧ x = f a old) ∨
            ((∀ a ∈ r :: rs, p a old = false) ∧ x = old) := by
        intro old
        by_cases hold : p r old = true
        · have hrest : ∀ a ∈ rs, p a old = false := fun a ha => hr a ha old hold
          simp only [hold, if_true, hkeep, List.mem_cons, exists_eq_or_imp,
            forall_eq_or_imp]
          constructor
          · rintro (⟨a, ha, hpa, -⟩ | ⟨-, rfl⟩)
            · rw [hrest a ha] at hpa
              contradiction
            · exact .inl (.inl ⟨trivial, rfl⟩)
          · rintro ((⟨-, rfl⟩ | ⟨a, ha, hpa, -⟩) | ⟨⟨hfalse, -⟩, -⟩)
            · exact .inr ⟨hrest, rfl⟩
            · rw [hrest a ha] at hpa
              contradiction
            · cases hfalse
        · rw [Bool.not_eq_true] at hold
          simp [hold]
      constructor
      · rintro ⟨_, hmem, hcase⟩
        obtain ⟨old, hold, rfl⟩ := mem_update.mp hmem
        exact ⟨old, hold, (hone old).mp hcase⟩
      · rintro ⟨old, hold, hcase⟩
        exact ⟨_, mem_update.mpr ⟨old, hold, rfl⟩, (hone old).mpr hcase⟩

/-- At most one row meets a condition that fixes a key. -/
theorem countP_le_one {t : Table ρ} {p : ρ → Bool}
    (hp : ∀ a b, p a = true → p b = true → clash a b = true) :
    t.rows.countP p ≤ 1 := by
  have hle : ∀ rows : List ρ, (rows.Pairwise fun a b => clash a b = false) →
      rows.countP p ≤ 1 := by
    intro rows hrows
    induction rows with
    | nil => simp
    | cons r rows ih =>
        obtain ⟨hr, htail⟩ := List.pairwise_cons.mp hrows
        rw [List.countP_cons]
        split
        · next hpr =>
            have hzero : rows.countP p = 0 := by
              refine List.countP_eq_zero.mpr fun y hy hpy => ?_
              have hclash := hr y hy
              rw [hp r y hpr hpy] at hclash
              contradiction
            omega
        · exact ih htail
  exact hle t.rows t.unique

/-- A row that meets such a condition is all that a `SELECT` by it returns. -/
theorem filter_eq_singleton {t : Table ρ} {p : ρ → Bool} {r : ρ} (hr : r ∈ t)
    (hpr : p r = true) (hp : ∀ a b, p a = true → p b = true → clash a b = true) :
    t.rows.filter p = [r] := by
  have hmem : r ∈ t.rows.filter p := List.mem_filter.mpr ⟨hr, hpr⟩
  have hle : (t.rows.filter p).length ≤ 1 := by
    rw [← List.countP_eq_length_filter]
    exact countP_le_one hp
  have hpos : 0 < (t.rows.filter p).length := List.length_pos_of_mem hmem
  obtain ⟨x, hx⟩ := List.length_eq_one_iff.mp (show (t.rows.filter p).length = 1 by omega)
  rw [hx] at hmem ⊢
  rw [List.mem_singleton.mp hmem]

/-- The rows an upsert leaves: the other keys' rows, and one row for the key
of `r`. -/
theorem mem_upsert {t : Table ρ} {r x : ρ} {merge : ρ → ρ → ρ}
    {h : KeepsKeys (merge · r)} :
    x ∈ t.upsert r merge h ↔
      (x ∈ t ∧ clash r x = false) ∨
        (x = r ∧ ∀ y ∈ t, clash r y = false) ∨
        ∃ old ∈ t, clash r old = true ∧ x = merge old r := by
  unfold upsert
  split
  · next hfree =>
      have hfree := taken_eq_false.mp hfree
      rw [mem_push]
      constructor
      · rintro (hx | rfl)
        · exact .inl ⟨hx, hfree x hx⟩
        · exact .inr (.inl ⟨rfl, hfree⟩)
      · rintro (⟨hx, -⟩ | ⟨rfl, -⟩ | ⟨old, hold, hclash, -⟩)
        · exact .inl hx
        · exact .inr rfl
        · rw [hfree old hold] at hclash
          contradiction
  · next htaken =>
      obtain ⟨y, hy, hyclash⟩ := taken_eq_true.mp (Bool.not_eq_false _ ▸ htaken)
      rw [mem_update]
      constructor
      · rintro ⟨old, hold, rfl⟩
        cases hclash : clash r old with
        | true => exact .inr (.inr ⟨old, hold, hclash, by simp⟩)
        | false => exact .inl (by simp [hold, hclash])
      · rintro (⟨hx, hclash⟩ | ⟨-, hfree⟩ | ⟨old, hold, hclash, rfl⟩)
        · exact ⟨x, hx, by simp [hclash]⟩
        · rw [hfree y hy] at hyclash
          contradiction
        · exact ⟨old, hold, by simp [hclash]⟩

@[simp] theorem upsertAll_nil (t : Table ρ) (merge : ρ → ρ → ρ)
    (h : ∀ r, KeepsKeys (merge · r)) : t.upsertAll [] merge h = t := rfl

@[simp] theorem upsertAll_cons (t : Table ρ) (r : ρ) (rs : List ρ)
    (merge : ρ → ρ → ρ) (h : ∀ r, KeepsKeys (merge · r)) :
    t.upsertAll (r :: rs) merge h =
      (t.upsert r merge (h r)).upsertAll rs merge h := rfl

/-! ## Rows that upserts leave alone

A selection that no offered row meets, before or after its merge, is not touched by the
upserts. -/

/-- An upsert of a row off `p` into rows off `p` leaves the rows on `p`. -/
theorem filter_upsert {t : Table ρ} {r : ρ} {merge : ρ → ρ → ρ}
    {h : KeepsKeys (merge · r)} {p : ρ → Bool} (hr : p r = false)
    (hoff : ∀ old, clash r old = true → p old = false ∧ p (merge old r) = false) :
    (t.upsert r merge h).rows.filter p = t.rows.filter p := by
  unfold upsert
  split
  · simp [push, hr]
  · have hsame : ∀ rows : List ρ,
        (rows.map fun x => if clash r x then merge x r else x).filter p =
          rows.filter p := by
      intro rows
      induction rows with
      | nil => rfl
      | cons x rows ih =>
          cases hclash : clash r x with
          | false => simp [hclash, List.filter_cons, ih]
          | true =>
              obtain ⟨hx, hmerge⟩ := hoff x hclash
              simp [hclash, hx, hmerge, ih]
    exact hsame t.rows

theorem filter_upsertAll {t : Table ρ} {rs : List ρ} {merge : ρ → ρ → ρ}
    {h : ∀ r, KeepsKeys (merge · r)} {p : ρ → Bool} (hrs : ∀ r ∈ rs, p r = false)
    (hoff : ∀ r ∈ rs, ∀ old, clash r old = true →
      p old = false ∧ p (merge old r) = false) :
    (t.upsertAll rs merge h).rows.filter p = t.rows.filter p := by
  induction rs generalizing t with
  | nil => rfl
  | cons r rs ih =>
      have htail := ih (t := t.upsert r merge (h r))
        (fun x hx => hrs x (List.mem_cons_of_mem r hx))
        fun x hx => hoff x (List.mem_cons_of_mem r hx)
      rw [upsertAll_cons, htail,
        filter_upsert (hrs r List.mem_cons_self) (hoff r List.mem_cons_self)]

/-- In particular a row on `p` is there if it was. -/
theorem mem_upsertAll_of_off {t : Table ρ} {rs : List ρ} {merge : ρ → ρ → ρ}
    {h : ∀ r, KeepsKeys (merge · r)} {p : ρ → Bool} (hrs : ∀ r ∈ rs, p r = false)
    (hoff : ∀ r ∈ rs, ∀ old, clash r old = true →
      p old = false ∧ p (merge old r) = false)
    {x : ρ} (hx : p x = true) : x ∈ t.upsertAll rs merge h ↔ x ∈ t := by
  have hfilter := filter_upsertAll (t := t) (h := h) hrs hoff
  calc x ∈ t.upsertAll rs merge h
      ↔ x ∈ (t.upsertAll rs merge h).rows.filter p := by
        simp [List.mem_filter, hx, mem_rows]
    _ ↔ x ∈ t.rows.filter p := by rw [hfilter]
    _ ↔ x ∈ t := by simp [List.mem_filter, hx, mem_rows]

/-! ## Upserts that choose

An upsert whose merge keeps one of the two rows leaves, for each key, one of
the rows offered for it; and one of least rank, if that is what it keeps. -/

/-- All unique keys are one key. -/
structure OneKey (ρ : Type u) [Keyed ρ] : Prop where
  refl : ∀ a : ρ, clash a a = true
  trans : ∀ a b c : ρ, clash a b = true → clash b c = true → clash a c = true

/-- A table with one key by construction. -/
theorem OneKey.ofKey {κ : Type v} (key : ρ → κ)
    (h : ∀ a b : ρ, clash a b = true ↔ key a = key b) : OneKey ρ where
  refl a := (h a a).mpr rfl
  trans a b c hab hbc := (h a c).mpr (((h a b).mp hab).trans ((h b c).mp hbc))

/-- Nothing is there afterwards but rows that were there or offered. -/
theorem mem_of_mem_upsertAll {t : Table ρ} {rs : List ρ} {merge : ρ → ρ → ρ}
    {h : ∀ r, KeepsKeys (merge · r)}
    (hchoose : ∀ old r : ρ, clash r old = true →
      merge old r = old ∨ merge old r = r)
    {x : ρ} (hx : x ∈ t.upsertAll rs merge h) : x ∈ t ∨ x ∈ rs := by
  induction rs generalizing t with
  | nil => exact .inl hx
  | cons r rs ih =>
      rcases ih hx with hx | hx
      · rcases mem_upsert.mp hx with ⟨hx, -⟩ | ⟨rfl, -⟩ | ⟨old, hold, hclash, rfl⟩
        · exact .inl hx
        · exact .inr List.mem_cons_self
        · rcases hchoose old r hclash with heq | heq <;> rw [heq]
          · exact .inl hold
          · exact .inr List.mem_cons_self
      · exact .inr (List.mem_cons_of_mem r hx)

/-- For every row there is one of its key with no greater rank. -/
theorem exists_le_upsert {t : Table ρ} {r : ρ} {merge : ρ → ρ → ρ}
    {h : KeepsKeys (merge · r)} {rank : ρ → Int} (hkey : OneKey ρ)
    (hrank : ∀ old, clash r old = true →
      rank (merge old r) ≤ rank old ∧ rank (merge old r) ≤ rank r)
    {y : ρ} (hy : y ∈ t ∨ y = r) :
    ∃ x ∈ t.upsert r merge h, clash y x = true ∧ rank x ≤ rank y := by
  have hsame : ∀ old, clash (merge old r) old = true := by
    intro old
    rw [h]
    exact hkey.refl old
  rcases hy with hy | rfl
  · cases hclash : clash r y with
    | true =>
        refine ⟨merge y r, mem_upsert.mpr (.inr (.inr ⟨y, hy, hclash, rfl⟩)), ?_,
          (hrank y hclash).1⟩
        rw [clash_symm]
        exact hsame y
    | false =>
        exact ⟨y, mem_upsert.mpr (.inl ⟨hy, hclash⟩), hkey.refl y, Int.le_refl _⟩
  · by_cases hfree : t.taken y = false
    · exact ⟨y, mem_upsert.mpr (.inr (.inl ⟨rfl, taken_eq_false.mp hfree⟩)),
        hkey.refl y, Int.le_refl _⟩
    · obtain ⟨old, hold, hclash⟩ :=
        taken_eq_true.mp (Bool.not_eq_false _ ▸ hfree)
      refine ⟨merge old y, mem_upsert.mpr (.inr (.inr ⟨old, hold, hclash, rfl⟩)),
        ?_, (hrank old hclash).2⟩
      refine hkey.trans _ _ _ hclash ?_
      rw [clash_symm]
      exact hsame old

theorem exists_le_upsertAll {t : Table ρ} {rs : List ρ} {merge : ρ → ρ → ρ}
    {h : ∀ r, KeepsKeys (merge · r)} (rank : ρ → Int) (hkey : OneKey ρ)
    (hrank : ∀ old r : ρ, clash r old = true →
      rank (merge old r) ≤ rank old ∧ rank (merge old r) ≤ rank r)
    {y : ρ} (hy : y ∈ t ∨ y ∈ rs) :
    ∃ x ∈ t.upsertAll rs merge h, clash y x = true ∧ rank x ≤ rank y := by
  induction rs generalizing t y with
  | nil =>
      rcases hy with hy | hy
      · exact ⟨y, hy, hkey.refl y, Int.le_refl _⟩
      · contradiction
  | cons r rs ih =>
      rw [upsertAll_cons]
      have hhead : y ∈ t ∨ y = r → ∃ x ∈ (t.upsert r merge (h r)).upsertAll rs
          merge h, clash y x = true ∧ rank x ≤ rank y := by
        intro hy
        obtain ⟨x, hx, hclash, hle⟩ :=
          exists_le_upsert (h := h r) hkey (fun old => hrank old r) hy
        obtain ⟨z, hz, hclash', hle'⟩ := ih (.inl hx)
        exact ⟨z, hz, hkey.trans _ _ _ hclash hclash', Int.le_trans hle' hle⟩
      rcases hy with hy | hy
      · exact hhead (.inl hy)
      · rcases List.mem_cons.mp hy with hy | hy
        · exact hhead (.inr hy)
        · exact ih (.inr hy)

/-! ## Repointing

An update that moves rows from one owner to another.  A row it visits can
clash only with a row it does not visit. -/

/-- The updated rows keep apart from each other and from those not yet
updated. -/
structure Repoints (p : ρ → Bool) (f : ρ → ρ) : Prop where
  both : ∀ a b, p a = true → p b = true → clash (f a) (f b) = true →
    clash a b = true
  one : ∀ a b, p a = true → p b = true → clash (f a) b = true →
    clash a b = true

/-- No row that stays has a key of the updated `r`. -/
def movable (t : Table ρ) (p : ρ → Bool) (f : ρ → ρ) (r : ρ) : Bool :=
  p r && t.rows.all fun y => p y || !clash (f r) y

/-- A row moves if no row that stays is in its way. -/
theorem movable_iff {t : Table ρ} {p : ρ → Bool} {f : ρ → ρ} {r : ρ} :
    t.movable p f r = true ↔
      p r = true ∧ ∀ y ∈ t, p y = false → clash (f r) y = false := by
  simp only [movable, Bool.and_eq_true, List.all_eq_true, mem_rows,
    Bool.or_eq_true, Bool.not_eq_true', and_congr_right_iff]
  intro _
  refine forall₂_congr fun y _ => ?_
  cases p y <;> simp

/-- The pass moves each row as it would by itself, whatever has been visited. -/
private theorem updateOrIgnoreRows_eq (t : Table ρ) {p : ρ → Bool} {f : ρ → ρ}
    (h : Repoints p f) (visited rest : List ρ)
    (hrows : t.rows = visited ++ rest) :
    updateOrIgnoreRows p f
        (visited.map fun r => if t.movable p f r then f r else r) rest =
      t.rows.map fun r => if t.movable p f r then f r else r := by
  induction rest generalizing visited with
  | nil => simp [updateOrIgnoreRows, hrows]
  | cons r rest ih =>
      have hnext := ih (visited ++ [r]) (by simpa using hrows)
      have hr : r ∈ t := by rw [← mem_rows, hrows]; simp
      -- the rows visited or still to visit are other rows than `r`
      have hother : ∀ y ∈ visited ++ rest, clash r y = false := by
        have hunique := t.unique
        rw [hrows] at hunique
        obtain ⟨-, hrest, hcross⟩ := List.pairwise_append.mp hunique
        intro y hy
        rcases List.mem_append.mp hy with hy | hy
        · rw [clash_symm]
          exact hcross y hy r List.mem_cons_self
        · exact (List.pairwise_cons.mp hrest).1 y hy
      have htest : (p r && (visited.map (fun r =>
            if t.movable p f r then f r else r) ++ rest).all
              (fun y => !clash (f r) y)) = t.movable p f r := by
        rw [Bool.eq_iff_iff, movable_iff, Bool.and_eq_true]
        refine and_congr_right fun hp => ?_
        simp only [List.all_eq_true, List.mem_append, List.mem_map,
          Bool.not_eq_true']
        constructor
        · intro hall y hy hpy
          by_cases hyr : y = r
          · rw [hyr, hp] at hpy
            contradiction
          · rw [← mem_rows, hrows] at hy
            rcases List.mem_append.mp hy with hy | hy
            · refine hall y (.inl ⟨y, hy, ?_⟩)
              rw [if_neg]
              rw [movable_iff, hpy]
              simp
            · exact hall y (.inr ((List.mem_cons.mp hy).resolve_left hyr))
        · intro hfree y hy
          by_contra hclash
          rw [Bool.not_eq_false] at hclash
          have hoff : ∀ x ∈ visited ++ rest, x ∈ t := by
            intro x hx
            rw [← mem_rows, hrows]
            rcases List.mem_append.mp hx with hx | hx
            · exact List.mem_append_left _ hx
            · exact List.mem_append_right _ (List.mem_cons_of_mem _ hx)
          have hstuck : ∀ x ∈ visited ++ rest, clash (f r) x = true → False := by
            intro x hx hfx
            cases hpx : p x with
            | true =>
                have := h.one r x hp hpx hfx
                rw [hother x hx] at this
                contradiction
            | false =>
                rw [hfree x (hoff x hx) hpx] at hfx
                contradiction
          rcases hy with ⟨x, hx, rfl⟩ | hy
          · have hx' : x ∈ visited ++ rest := List.mem_append_left _ hx
            split at hclash
            · next hmove =>
                have hpx := (movable_iff.mp hmove).1
                have := h.both r x hp hpx hclash
                rw [hother x hx'] at this
                contradiction
            · exact hstuck x hx' hclash
          · exact hstuck y (List.mem_append_right _ hy) hclash
      unfold updateOrIgnoreRows
      rw [htest]
      cases hmove : t.movable p f r with
      | true => simpa [hmove] using hnext
      | false => simpa [hmove] using hnext

/-- A repointing `UPDATE OR IGNORE` moves the rows it can and leaves the rest. -/
theorem updateOrIgnore_rows {t : Table ρ} {p : ρ → Bool} {f : ρ → ρ}
    (h : Repoints p f) :
    (t.updateOrIgnore p f).rows =
      t.rows.map fun r => if t.movable p f r then f r else r := by
  simpa [updateOrIgnore] using updateOrIgnoreRows_eq t h [] t.rows rfl

/-- The rows after a repointing update. -/
theorem mem_updateOrIgnore {t : Table ρ} {p : ρ → Bool} {f : ρ → ρ}
    (h : Repoints p f) {x : ρ} :
    x ∈ t.updateOrIgnore p f ↔
      ∃ r ∈ t, x = if t.movable p f r then f r else r := by
  rw [← mem_rows, updateOrIgnore_rows h, List.mem_map]
  exact exists_congr fun r => and_congr_right fun _ => eq_comm

/-- An update outside every key never has to skip a row. -/
theorem KeepsKeys.repoints {f : ρ → ρ} (h : KeepsKeys f) (p : ρ → Bool) :
    Repoints p f where
  both a b _ _ hab := by rwa [h, clash_symm, h, clash_symm] at hab
  one a b _ _ hab := by rwa [h] at hab

/-- No row is in the way of an update outside the keys. -/
theorem KeepsKeys.movable {f : ρ → ρ} (h : KeepsKeys f) {t : Table ρ}
    {p : ρ → Bool} {r : ρ} (hr : r ∈ t) : t.movable p f r = p r := by
  rw [Bool.eq_iff_iff, movable_iff]
  refine ⟨And.left, fun hp => ⟨hp, fun y hy hpy => ?_⟩⟩
  rw [h]
  by_contra hclash
  rw [Bool.not_eq_false] at hclash
  rw [← eq_of_clash hr hy hclash, hp] at hpy
  contradiction

/-- What a repointing `UPDATE OR IGNORE` leaves once the rows it skipped are
deleted: the rows that were not to move, and the movable ones, moved. -/
theorem mem_updateOrIgnore_deleteWhere {t : Table ρ} {p : ρ → Bool} {f : ρ → ρ}
    (h : Repoints p f) (hleaves : ∀ r, p r = true → p (f r) = false) {x : ρ} :
    x ∈ (t.updateOrIgnore p f).deleteWhere p ↔
      (x ∈ t ∧ p x = false) ∨
        ∃ r ∈ t, t.movable p f r = true ∧ x = f r := by
  rw [mem_deleteWhere, mem_updateOrIgnore h]
  constructor
  · rintro ⟨⟨r, hr, rfl⟩, hp⟩
    cases hmove : t.movable p f r with
    | true => exact .inr ⟨r, hr, hmove, by simp⟩
    | false => exact .inl (by simpa [hmove, hr] using hp)
  · rintro (⟨hx, hp⟩ | ⟨r, hr, hmove, rfl⟩)
    · refine ⟨⟨x, hx, ?_⟩, hp⟩
      rw [if_neg]
      rw [movable_iff, hp]
      simp
    · exact ⟨⟨r, hr, by simp [hmove]⟩, hleaves r (movable_iff.mp hmove).1⟩

/-! ## Totals

A column that is summed over the table, for rows that are moved or added up and then
deleted. -/

/-- The sum of a column over the table. -/
def total (t : Table ρ) (weight : ρ → Int) : Int := (t.rows.map weight).sum

theorem total_push {t : Table ρ} {r : ρ} {h : t.taken r = false}
    (weight : ρ → Int) : (t.push r h).total weight = t.total weight + weight r := by
  simp [total, push]

/-- Deleting rows takes their sum out of the total. -/
theorem total_deleteWhere (t : Table ρ) (p : ρ → Bool) (weight : ρ → Int) :
    t.total weight = (t.deleteWhere p).total weight +
      ((t.rows.filter p).map weight).sum := by
  have hsplit : ∀ rows : List ρ, (rows.map weight).sum =
      ((rows.filter fun r => !p r).map weight).sum +
        ((rows.filter p).map weight).sum := by
    intro rows
    induction rows with
    | nil => rfl
    | cons r rows ih =>
        cases hp : p r <;> simp [hp, ih] <;> ring
  exact hsplit t.rows

/-- With one key, at most one row has the key of `r`. -/
private theorem split_of_taken {t : Table ρ} {r : ρ}
    (hkey : ∀ a b, clash r a = true → clash r b = true → clash a b = true)
    (htaken : t.taken r = true) :
    ∃ before old after, t.rows = before ++ old :: after ∧
      clash r old = true ∧ ∀ y ∈ before ++ after, clash r y = false := by
  obtain ⟨old, hold, hclash⟩ := taken_eq_true.mp htaken
  obtain ⟨before, after, hrows⟩ := List.mem_iff_append.mp (mem_rows.mpr hold)
  refine ⟨before, old, after, hrows, hclash, ?_⟩
  have hunique := t.unique
  rw [hrows] at hunique
  obtain ⟨-, hafter, hcross⟩ := List.pairwise_append.mp hunique
  intro y hy
  by_contra hy'
  rw [Bool.not_eq_false] at hy'
  rcases List.mem_append.mp hy with hy | hy
  · have hfalse := hcross y hy old List.mem_cons_self
    rw [hkey y old hy' hclash] at hfalse
    contradiction
  · have hfalse := (List.pairwise_cons.mp hafter).1 y hy
    rw [hkey old y hclash hy'] at hfalse
    contradiction

/-- An upsert that adds up the column adds the new row to the total. -/
theorem total_upsert {t : Table ρ} {r : ρ} {merge : ρ → ρ → ρ}
    {h : KeepsKeys (merge · r)} {weight : ρ → Int}
    (hkey : ∀ a b, clash r a = true → clash r b = true → clash a b = true)
    (hmerge : ∀ old, clash r old = true →
      weight (merge old r) = weight old + weight r) :
    (t.upsert r merge h).total weight = t.total weight + weight r := by
  unfold upsert
  split
  · exact total_push weight
  · next htaken =>
      obtain ⟨before, old, after, hrows, hclash, hother⟩ :=
        split_of_taken hkey (Bool.not_eq_false _ ▸ htaken)
      have hsame : ∀ rows : List ρ, (∀ y ∈ rows, clash r y = false) →
          rows.map (fun y => if clash r y then merge y r else y) = rows := by
        intro rows hrows
        calc rows.map (fun y => if clash r y then merge y r else y)
            = rows.map id := by
              refine List.map_congr_left fun y hy => ?_
              rw [hrows y hy]
              rfl
          _ = rows := List.map_id rows
      have hbefore := hsame before fun y hy =>
        hother y (List.mem_append_left _ hy)
      have hafter := hsame after fun y hy =>
        hother y (List.mem_append_right _ hy)
      simp only [total, update, hrows, List.map_append, List.map_cons, hbefore,
        hafter, hclash, if_true, List.sum_append, List.sum_cons, hmerge old hclash]
      ring

/-- Upserts that add up a column add all of it. -/
theorem total_upsertAll {t : Table ρ} {rs : List ρ} {merge : ρ → ρ → ρ}
    {h : ∀ r, KeepsKeys (merge · r)} {weight : ρ → Int}
    (hkey : ∀ r a b : ρ, clash r a = true → clash r b = true → clash a b = true)
    (hmerge : ∀ old r : ρ, clash r old = true →
      weight (merge old r) = weight old + weight r) :
    (t.upsertAll rs merge h).total weight =
      t.total weight + (rs.map weight).sum := by
  induction rs generalizing t with
  | nil => simp
  | cons r rs ih =>
      rw [upsertAll_cons, ih, total_upsert (hkey r) fun old => hmerge old r,
        List.map_cons, List.sum_cons]
      ring

/-- Rows that are added up elsewhere, with the same sum, and then deleted: the
total stays. -/
theorem total_fold {t : Table ρ} {rs : List ρ} {merge : ρ → ρ → ρ}
    {h : ∀ r, KeepsKeys (merge · r)} {weight : ρ → Int} {p : ρ → Bool}
    (hkey : ∀ r a b : ρ, clash r a = true → clash r b = true → clash a b = true)
    (hmerge : ∀ old r : ρ, clash r old = true →
      weight (merge old r) = weight old + weight r)
    (hrs : ∀ r ∈ rs, p r = false)
    (hoff : ∀ r ∈ rs, ∀ old, clash r old = true →
      p old = false ∧ p (merge old r) = false)
    (hsum : (rs.map weight).sum = ((t.rows.filter p).map weight).sum) :
    ((t.upsertAll rs merge h).deleteWhere p).total weight = t.total weight := by
  have hdelete := total_deleteWhere (t.upsertAll rs merge h) p weight
  rw [total_upsertAll hkey hmerge, filter_upsertAll hrs hoff, hsum] at hdelete
  omega

end Table

end Komika.Lib
