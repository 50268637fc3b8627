import Komika.Catalog.Redirects

/-!
# A merge conserves

Everything that hangs off the two works of a merge is on `target` afterwards.
The tables come in three kinds.

* `Moved`: the rows on `source` change hands.  Where `target` has a row in the
  same place (the same reader, the same alias), that one stays.  In a table
  whose keys leave the work out no row is ever in the way.
* `Respelled`: the alias tokens are an index over the aliases, and the merge
  writes the tokens of the aliases it folds.  A token of `source` that no alias
  of `source` spells is not among them.
* `Summed`: the view counters of `source` are added to those of `target`.

`Moved`, `Respelled` and `Summed` are stated of two states of one table and say which
rows the later one has, row by row and in both directions, so that nothing lost and
nothing invented follows from them.  The theorems about `UPDATE OR IGNORE` and `INSERT
OR IGNORE` are for any table whose rows yield to rows in the same place (`Yields`); what
remains for each table is which rows these are.

* `Yields.moved_repoint`, `Yields.moved_insertCopies`, `summed_upsertCopies` — the three
  idioms of the merge;
* `mergeConserves_merged` — every table by its kind;
* `merge_conserves` — for a merge that succeeds, and for one that fails.
-/

namespace Komika.Catalog.Conservation

open Komika.Lib
open Komika.Catalog.Schema Komika.Catalog.Database Komika.Catalog.Ingest
open Komika.Catalog.Ledger Komika.Catalog.Merge Komika.Catalog.Effects
open Komika.Catalog.Redirects

/-! ## Rows that change hands -/

section Moved

variable {ρ : Type} [OnWork ρ] [Keyed ρ] {source target : Id}
variable {same : ρ → ρ → Prop}

/-- The rows on `source` have moved to `target`, unless a row of `target` is in
the same place: that one stays.  All other rows are as before. -/
structure Moved (source target : Id) (same : ρ → ρ → Prop)
    (before after : Table ρ) : Prop where
  rows : ∀ x, x ∈ after ↔
    (x ∈ before ∧ onWork source x = false) ∨
      ∃ r ∈ before, onWork source r = true ∧
        (∀ own ∈ before, onWork target own = true → ¬same own r) ∧
        x = move target r
  arrives : ∀ r ∈ before, onWork source r = true →
    ∃ x ∈ after, onWork target x = true ∧
      (x = move target r ∨ (x ∈ before ∧ same x r))
  gone : ∀ x ∈ after, onWork source x = false

/-- No row of `target` is ever in the way. -/
abbrev MovedAll (source target : Id) (before after : Table ρ) : Prop :=
  Moved source target (fun _ _ => False) before after

/-- That every row arrives, and that none stays behind, follows. -/
theorem Moved.of_rows {before after : Table ρ} (hne : source ≠ target)
    (h : ∀ x, x ∈ after ↔ (x ∈ before ∧ onWork source x = false) ∨
      ∃ r ∈ before, onWork source r = true ∧
        (∀ own ∈ before, onWork target own = true → ¬same own r) ∧
        x = move target r) : Moved source target same before after where
  rows := h
  arrives r hr hsource := by
    by_cases hfree : ∀ own ∈ before, onWork target own = true → ¬same own r
    · exact ⟨move target r, (h _).mpr (.inr ⟨r, hr, hsource, hfree, rfl⟩),
        onWork_moved hsource, .inl rfl⟩
    · push Not at hfree
      obtain ⟨own, hown, htarget, hsame⟩ := hfree
      have hstays : own ∈ after :=
        (h own).mpr (.inl ⟨hown, onWork_ne htarget (Ne.symm hne)⟩)
      exact ⟨own, hstays, htarget, .inr ⟨hown, hsame⟩⟩
  gone x hx := by
    rcases (h x).mp hx with ⟨-, hoff⟩ | ⟨r, -, hsource, -, rfl⟩
    · exact hoff
    · exact onWork_ne (onWork_moved hsource) (Ne.symm hne)

/-- A statement that moves each row where it stands. -/
theorem MovedAll.of_map {before after : Table ρ} (hne : source ≠ target)
    (h : ∀ x, x ∈ after ↔ ∃ r ∈ before,
      x = if onWork source r then move target r else r) :
    MovedAll source target before after := by
  refine .of_rows hne fun x => ?_
  rw [h]
  constructor
  · rintro ⟨r, hr, rfl⟩
    cases hsource : onWork source r with
    | true => exact .inr ⟨r, hr, hsource, fun _ _ _ => id, by simp⟩
    | false => exact .inl (by simpa [hsource] using hr)
  · rintro (⟨hx, hoff⟩ | ⟨r, hr, hsource, -, rfl⟩)
    · exact ⟨x, hx, by simp [hoff]⟩
    · exact ⟨r, hr, by simp [hsource]⟩

/-- A row that moves to `target` clashes with those rows of `target` that are in
the same place, and with no others. -/
structure Yields (source target : Id) (same : ρ → ρ → Prop) : Prop where
  pair : ∀ a b : ρ, onWork source a = true → onWork source b = true →
    clash (move target a) (move target b) = true → clash a b = true
  own : ∀ r own : ρ, onWork source r = true → clash r own = false →
    (clash (move target r) own = true ↔ onWork target own = true ∧ same own r)

/-- One row for each user and work. -/
theorem Yields.ofUser {user : ρ → Id}
    (hclash : ∀ a b : ρ, clash a b = true ↔ user a = user b ∧ on? a = on? b)
    (hmove : ∀ w (r : ρ), user (move w r) = user r) :
    Yields source target fun a b : ρ => user a = user b where
  pair a b ha hb hab := by
    rw [hclash, hmove, hmove] at hab
    rw [hclash, onWork_iff.mp ha, onWork_iff.mp hb]
    exact ⟨hab.1, rfl⟩
  own r own hr _ := by
    rw [hclash, hmove, onWork_move hr, onWork_iff]
    constructor
    · rintro ⟨huser, hwork⟩
      exact ⟨hwork.symm, huser.symm⟩
    · rintro ⟨hwork, huser⟩
      exact ⟨huser.symm, hwork.symm⟩

/-- Such a move is a repointing update. -/
theorem Yields.repoints (h : Yields source target same) (hne : source ≠ target) :
    Table.Repoints (onWork source : ρ → Bool) (move target) where
  both := h.pair
  one a b ha hb hab := by
    by_contra hclash
    rw [Bool.not_eq_true] at hclash
    have htarget := ((h.own a b ha hclash).mp hab).1
    rw [onWork_ne hb hne] at htarget
    contradiction

/-- Rows of one table, one on `source` and the other not, are two rows. -/
theorem clash_eq_false_of_off {t : Table ρ} {r y : ρ} (hr : r ∈ t) (hy : y ∈ t)
    (hsource : onWork source r = true) (hoff : onWork source y = false) :
    clash r y = false := by
  by_contra hclash
  rw [Bool.not_eq_false] at hclash
  rw [Table.eq_of_clash hr hy hclash, hoff] at hsource
  contradiction

/-- A row moves unless the target has a row in its place. -/
theorem Yields.movable_iff (h : Yields source target same) (hne : source ≠ target)
    {t : Table ρ} {r : ρ} (hr : r ∈ t) :
    t.movable (onWork source) (move target) r = true ↔
      onWork source r = true ∧
        ∀ own ∈ t, onWork target own = true → ¬same own r := by
  rw [Table.movable_iff]
  refine and_congr_right fun hsource => forall₂_congr fun own hown => ?_
  constructor
  · intro hfree htarget hsame
    have hoff := onWork_ne htarget (Ne.symm hne)
    have hclash := (h.own r own hsource
      (clash_eq_false_of_off hr hown hsource hoff)).mpr ⟨htarget, hsame⟩
    rw [hfree hoff] at hclash
    contradiction
  · intro hfree hoff
    by_contra hclash
    rw [Bool.not_eq_false] at hclash
    obtain ⟨htarget, hsame⟩ := (h.own r own hsource
      (clash_eq_false_of_off hr hown hsource hoff)).mp hclash
    exact hfree htarget hsame

/-- `UPDATE OR IGNORE`, and the skipped rows deleted. -/
theorem Yields.moved_repoint (h : Yields source target same)
    (hne : source ≠ target) (t : Table ρ) :
    Moved source target same t (deleteOn source (repoint source target t)) := by
  refine .of_rows hne fun x => ?_
  unfold deleteOn repoint
  rw [Table.mem_updateOrIgnore_deleteWhere (h.repoints hne) fun r hr =>
    onWork_ne (onWork_moved hr) (Ne.symm hne)]
  refine or_congr_right (exists_congr fun r => and_congr_right fun hr => ?_)
  rw [h.movable_iff hne hr, and_assoc]

/-- `INSERT OR IGNORE … SELECT`, and the copied rows deleted. -/
theorem Yields.moved_insertCopies (h : Yields source target same)
    (hne : source ≠ target)
    (hfresh : ∀ r : ρ, onWork source r = true → clash (move target r) r = false)
    (t : Table ρ) :
    Moved source target same t
      (deleteOn source (t.insertAllOrIgnore (copiesTo source target t))) := by
  have hpairwise : (copiesTo source target t).Pairwise fun a b =>
      clash a b = false := by
    refine List.pairwise_map.mpr ?_
    refine (t.unique.sublist List.filter_sublist).imp_of_mem ?_
    intro a b ha hb hab
    by_contra hclash
    rw [Bool.not_eq_false] at hclash
    rw [h.pair a b (List.mem_filter.mp ha).2 (List.mem_filter.mp hb).2 hclash] at hab
    contradiction
  refine .of_rows hne fun x => ?_
  rw [deleteOn, Table.mem_deleteWhere, Table.mem_insertAllOrIgnore_iff hpairwise,
    mem_copiesTo]
  constructor
  · rintro ⟨hx | ⟨⟨r, hr, hsource, rfl⟩, hfree⟩, hoff⟩
    · exact .inl ⟨hx, hoff⟩
    · have hsource := onWork_iff.mpr hsource
      refine .inr ⟨r, hr, hsource, fun own hown htarget hsame => ?_, rfl⟩
      have hclash := (h.own r own hsource (clash_eq_false_of_off hr hown hsource
        (onWork_ne htarget (Ne.symm hne)))).mpr ⟨htarget, hsame⟩
      rw [hfree own hown] at hclash
      contradiction
  · rintro (⟨hx, hoff⟩ | ⟨r, hr, hsource, hfree, rfl⟩)
    · exact ⟨.inl hx, hoff⟩
    · refine ⟨.inr ⟨⟨r, hr, onWork_iff.mp hsource, rfl⟩, fun own hown => ?_⟩,
        onWork_ne (onWork_moved hsource) (Ne.symm hne)⟩
      by_contra hclash
      rw [Bool.not_eq_false] at hclash
      cases hsame : clash r own with
      | true =>
          rw [← Table.eq_of_clash hr hown hsame, hfresh r hsource] at hclash
          contradiction
      | false =>
          obtain ⟨htarget, hsame⟩ := (h.own r own hsource hsame).mp hclash
          exact hfree own hown htarget hsame

end Moved

/-! ## Counters that are added up -/

section Summed

variable {ρ : Type} [OnWork ρ] [Keyed ρ] {source target : Id}

/-- The total of a column is unchanged, and so are the rows on other works. -/
structure Summed (source target : Id) (weight : ρ → Int)
    (before after : Table ρ) : Prop where
  total : after.total weight = before.total weight
  others : ∀ x, onWork source x = false → onWork target x = false →
    (x ∈ after ↔ x ∈ before)
  gone : ∀ x ∈ after, onWork source x = false

/-- `INSERT … SELECT … ON CONFLICT DO UPDATE SET v = v + excluded.v`, and the
copied rows deleted. -/
theorem summed_upsertCopies {merge : ρ → ρ → ρ}
    {h : ∀ r, Table.KeepsKeys (merge · r)} {weight : ρ → Int}
    (hne : source ≠ target) (hkey : Table.OneKey ρ)
    (hon : ∀ r old : ρ, clash r old = true →
      on? old = on? r ∧ on? (merge old r) = on? r)
    (hmerge : ∀ old r : ρ, clash r old = true →
      weight (merge old r) = weight old + weight r)
    (hmove : ∀ r : ρ, weight (move target r) = weight r) (t : Table ρ) :
    Summed source target weight t
      (deleteOn source (t.upsertAll (copiesTo source target t) merge h)) := by
  have htarget : ∀ r ∈ copiesTo source target t, on? r = some target := by
    intro r hr
    obtain ⟨old, -, hsource, rfl⟩ := mem_copiesTo.mp hr
    exact onWork_move (onWork_iff.mpr hsource)
  -- a copy meets rows of the target only
  have hmeets : ∀ r ∈ copiesTo source target t, ∀ old, clash r old = true →
      on? old = some target ∧ on? (merge old r) = some target := by
    intro r hr old hclash
    rw [← htarget r hr]
    exact hon r old hclash
  have hoff : ∀ {r : ρ}, on? r = some target → onWork source r = false :=
    fun hr => onWork_ne (onWork_iff.mpr hr) (Ne.symm hne)
  have hsum : ((copiesTo source target t).map weight).sum =
      ((t.rows.filter (onWork source)).map weight).sum := by
    unfold copiesTo
    rw [List.map_map]
    exact congrArg List.sum (List.map_congr_left fun r _ => hmove r)
  refine ⟨?_, fun x hsource htarget' => ?_, fun x hx => ?_⟩
  · exact Table.total_fold
      (fun r a b ha hb => hkey.trans _ _ _ (by rwa [clash_symm]) hb) hmerge
      (fun r hr => hoff (htarget r hr))
      (fun r hr old hclash => (hmeets r hr old hclash).imp hoff hoff) hsum
  · have hupsert : x ∈ t.upsertAll (copiesTo source target t) merge h ↔ x ∈ t :=
      Table.mem_upsertAll_of_off (p := fun x => !onWork target x)
        (fun r hr => by simp [onWork, htarget r hr])
        (fun r hr old hclash => by simp [onWork, hmeets r hr old hclash])
        (by simp [htarget'])
    rw [deleteOn, Table.mem_deleteWhere, hupsert]
    exact and_iff_left hsource
  · exact (Table.mem_deleteWhere.mp hx).2

end Summed

/-! ## The tables that hang off a work

Which rows of each table are in one place, and which table is of which kind. -/

variable {rules : TextRules} {source target : Id} {db : Db}

/-- Two aliases of one work that are one key. -/
def SameAlias (a b : WorkAlias) : Prop :=
  a.normalizedTitle = b.normalizedTitle ∧ a.lang = b.lang ∧
    (a.lang = none → a.rawTitle = b.rawTitle)

/-- Aliases of one normalised title and language are in one place. -/
theorem yields_workAlias : Yields source target SameAlias where
  pair a b ha hb hab := by
    simp only [onWork, on?, Option.some.injEq, decide_eq_true_eq] at ha hb
    simp only [clash, move, true_and, decide_eq_true_eq] at hab ⊢
    exact ⟨ha.trans hb.symm, hab⟩
  own r own _ _ := by
    simp only [onWork, on?, clash, move, SameAlias, decide_eq_true_eq,
      Option.some.injEq]
    grind

theorem yields_userLibrary :
    Yields source target fun a b : UserLibrary => a.userId = b.userId :=
  .ofUser (by simp [clash, on?]) fun _ _ => rfl

theorem yields_canonicalLibrary :
    Yields source target fun a b : CanonicalLibrary => a.userId = b.userId :=
  .ofUser (by simp [clash, on?]) fun _ _ => rfl

/-- A review has an id besides. -/
theorem yields_reviews :
    Yields source target fun a b : Review => a.userId = b.userId where
  pair a b ha hb hab := by
    simp only [onWork, on?, Option.some.injEq, decide_eq_true_eq] at ha hb
    simpa [clash, move, ha, hb] using hab
  own r own _ hclash := by
    simp only [onWork, on?, clash, move, decide_eq_true_eq, decide_eq_false_iff_not,
      Option.some.injEq] at hclash ⊢
    grind


/-- An alias of `w` has the word `token`. -/
def Spells (rules : TextRules) (db : Db) (w : Id) (token : String) : Prop :=
  ∃ a ∈ db.workAlias, onWork w a = true ∧
    token ∈ rules.aliasWordTokens a.normalizedTitle

/-- The tokens off `source` stay, and `target` has those that the aliases of
`source` spell. -/
structure Respelled (rules : TextRules) (source target : Id)
    (before after : Db) : Prop where
  rows : ∀ x, x ∈ after.workAliasToken ↔
    (x ∈ before.workAliasToken ∧ onWork source x = false) ∨
      (onWork target x = true ∧ Spells rules before source x.token)
  arrives : ∀ x ∈ before.workAliasToken,
    onWork target x = true ∨
      (onWork source x = true ∧ Spells rules before source x.token) →
    (⟨target, x.token⟩ : WorkAliasToken) ∈ after.workAliasToken
  gone : ∀ x ∈ after.workAliasToken, onWork source x = false

/-- The tokens that the merge writes are those of the aliases it folds. -/
theorem mem_tokenRows_copiesTo {x : WorkAliasToken} :
    x ∈ tokenRows rules (copiesTo source target db.workAlias) ↔
      onWork target x = true ∧ Spells rules db source x.token := by
  simp only [tokenRows, List.mem_flatMap, List.mem_map, mem_copiesTo, Spells,
    onWork_iff]
  constructor
  · rintro ⟨_, ⟨a, ha, hsource, rfl⟩, token, htoken, rfl⟩
    exact ⟨rfl, a, ha, hsource, htoken⟩
  · rintro ⟨htarget, a, ha, hsource, htoken⟩
    refine ⟨_, ⟨a, ha, hsource, rfl⟩, x.token, htoken, ?_⟩
    cases x
    simpa [on?, move, eq_comm] using htarget

theorem respelled_merged (hne : source ≠ target) :
    Respelled rules source target db (merged rules source target db) := by
  have hrows : ∀ x, x ∈ (merged rules source target db).workAliasToken ↔
      (x ∈ db.workAliasToken ∧ onWork source x = false) ∨
        (onWork target x = true ∧ Spells rules db source x.token) := by
    intro x
    have hwrite : (merged rules source target db).workAliasToken =
        ((db.workAliasToken.insertAllOrIgnore
          (tokenRows rules (copiesTo source target db.workAlias))).deleteWhere
            fun r => r.workId = source).deleteWhere fun r => r.workId = source :=
      rfl
    have hwhole : ∀ a b : WorkAliasToken, clash a b = true → a = b := by
      intro a b hab
      cases a
      cases b
      simpa [clash] using hab
    have hdelete : (decide (x.workId = source) = false) ↔
        onWork source x = false := by
      simp [onWork, on?]
    rw [hwrite, Table.mem_deleteWhere, Table.mem_deleteWhere,
      Table.mem_insertAllOrIgnore_of_eq hwhole, mem_tokenRows_copiesTo, hdelete,
      and_assoc, and_self, or_and_right]
    refine or_congr_right (and_iff_left_of_imp ?_)
    exact fun h => onWork_ne h.1 (Ne.symm hne)
  refine ⟨hrows, fun x hx h => (hrows _).mpr ?_, fun x hx => ?_⟩
  · rcases h with htarget | ⟨-, hspells⟩
    · have hself : (⟨target, x.token⟩ : WorkAliasToken) = x := by
        cases x
        simpa [onWork, on?, eq_comm] using htarget
      rw [hself]
      exact .inl ⟨hx, onWork_ne htarget (Ne.symm hne)⟩
    · exact .inr ⟨by simp [onWork, on?], hspells⟩
  · rcases (hrows x).mp hx with ⟨-, hoff⟩ | ⟨htarget, -⟩
    · exact hoff
    · exact onWork_ne htarget (Ne.symm hne)

/-- The views of one hour. -/
def viewsAt (hour : Int) (r : SeriesViewBucket) : Int :=
  if r.hourTs = hour then r.views else 0

/-- The total of the views stays. -/
theorem summed_seriesViews (hne : source ≠ target) :
    Summed source target SeriesViews.total db.seriesViews
      (merged rules source target db).seriesViews := by
  have hclash : ∀ a b : SeriesViews,
      clash a b = true ↔ a.seriesKey = b.seriesKey := by simp [clash]
  refine summed_upsertCopies hne (.ofKey _ hclash) (fun r old h => ?_)
    (fun _ _ _ => rfl) (fun _ => rfl) db.seriesViews
  have hkey : on? old = on? r := congrArg some ((hclash r old).mp h).symm
  exact ⟨hkey, hkey⟩

theorem summed_seriesViewBucket (hne : source ≠ target) (hour : Int) :
    Summed source target (viewsAt hour) db.seriesViewBucket
      (merged rules source target db).seriesViewBucket := by
  have hclash : ∀ a b : SeriesViewBucket, clash a b = true ↔
      (a.seriesKey, a.hourTs) = (b.seriesKey, b.hourTs) := by simp [clash]
  refine summed_upsertCopies hne (.ofKey _ hclash) (fun r old h => ?_)
    (fun old r h => ?_) (fun _ => rfl) db.seriesViewBucket
  · have hkey : on? old = on? r :=
      congrArg some (Prod.mk.inj ((hclash r old).mp h)).1.symm
    exact ⟨hkey, hkey⟩
  · have hhour : r.hourTs = old.hourTs := (Prod.mk.inj ((hclash r old).mp h)).2
    by_cases hold : old.hourTs = hour <;> simp [viewsAt, addBucket, hhour, hold]

theorem moved_workAlias (hne : source ≠ target) :
    Moved source target SameAlias db.workAlias
      (merged rules source target db).workAlias := by
  have hfresh : ∀ r : WorkAlias, onWork source r = true →
      clash (move target r) r = false := by
    intro r hr
    have hwork : r.workId = source := by simpa [onWork, on?] using hr
    simp [clash, move, hwork, Ne.symm hne]
  have hmoved := yields_workAlias.moved_insertCopies hne hfresh db.workAlias
  have hwrite : (merged rules source target db).workAlias =
      ((db.workAlias.insertAllOrIgnore
        (copiesTo source target db.workAlias)).deleteWhere
          fun r => r.workId = source).deleteWhere fun r => r.workId = source :=
    rfl
  refine .of_rows hne fun x => ?_
  have hdelete : (decide (x.workId = source) = false) ↔
      onWork source x = false := by
    simp [onWork, on?]
  rw [hwrite, Table.mem_deleteWhere, Table.mem_deleteWhere, hdelete, and_assoc,
    and_self, ← Table.mem_deleteWhere]
  exact hmoved.rows x

/-! ## The merge -/

/-- What a merge of `source` into `target` makes of the tables. -/
structure MergeConserves (rules : TextRules) (source target : Id)
    (before after : Db) : Prop where
  sourceSeries : MovedAll source target before.sourceSeries after.sourceSeries
  workExternalId :
    MovedAll source target before.workExternalId after.workExternalId
  workAlias : Moved source target SameAlias before.workAlias after.workAlias
  workAliasToken : Respelled rules source target before after
  userLibrary : Moved source target (fun a b => a.userId = b.userId)
    before.userLibrary after.userLibrary
  reviews : Moved source target (fun a b => a.userId = b.userId)
    before.reviews after.reviews
  canonicalLibrary : Moved source target (fun a b => a.userId = b.userId)
    before.canonicalLibrary after.canonicalLibrary
  canonicalProgress :
    MovedAll source target before.canonicalProgress after.canonicalProgress
  comments : MovedAll source target before.comments after.comments
  userActivity : MovedAll source target before.userActivity after.userActivity
  notifications :
    MovedAll source target before.notifications after.notifications
  seriesViews : Summed source target SeriesViews.total
    before.seriesViews after.seriesViews
  seriesViewBucket : ∀ hour, Summed source target (viewsAt hour)
    before.seriesViewBucket after.seriesViewBucket
  workRedirect : redirectWorkId after source = some target

/-- Table by table, by the kinds of the module. -/
theorem mergeConserves_merged (hne : source ≠ target) :
    MergeConserves rules source target db (merged rules source target db) where
  sourceSeries := .of_map hne fun _ => mem_sourceSeries_merged hne
  workExternalId := .of_map hne fun _ => mem_workExternalId_merged hne
  workAlias := moved_workAlias hne
  workAliasToken := respelled_merged hne
  userLibrary := yields_userLibrary.moved_repoint hne db.userLibrary
  reviews := yields_reviews.moved_repoint hne db.reviews
  canonicalLibrary :=
    yields_canonicalLibrary.moved_repoint hne db.canonicalLibrary
  canonicalProgress := .of_map hne fun _ =>
    Table.mem_update (h := moveProgress_keepsKeys target)
  comments := .of_map hne fun _ => mem_repoint_of_keepsKeys fun _ _ _ => rfl
  userActivity := .of_map hne fun _ =>
    Table.mem_update (h := moveActivity_keepsKeys target)
  notifications := .of_map hne fun _ =>
    Table.mem_update (h := moveNotification_keepsKeys target)
  seriesViews := summed_seriesViews hne
  seriesViewBucket := summed_seriesViewBucket hne
  workRedirect := by rw [redirectWorkId_merged, Forwarding.forward_self]

/-- A work of which only the id is known. -/
def untitledWork (id : Id) : Work :=
  { id, primaryTitle := none, primaryLang := none, description := none
    year := none, originalLanguage := none, status := none
    demographic := none, contentRating := none, isNsfw := false
    author := none, artist := none, coverPhash := none, coverFileName := none
    titleOverride := none, isNsfwOverride := none }

/-- One reader has both works in the library, and both have been viewed. -/
def sharedReader : Db :=
  { Db.empty with
    work := ⟨[untitledWork "v", untitledWork "w"], by decide⟩
    userLibrary := ⟨[⟨"u1", "v", "t1", none, true⟩, ⟨"u1", "w", "t2", none, false⟩,
      ⟨"u2", "v", "t3", none, false⟩], by decide⟩
    seriesViews := ⟨[⟨"v", 3, "t1"⟩, ⟨"w", 4, "t2"⟩], by decide⟩ }

/-- A token of the source that none of its aliases spells. -/
def strayToken : Db :=
  { Db.empty with
    work := ⟨[untitledWork "v", untitledWork "w"], by decide⟩
    workAliasToken := ⟨[⟨"v", "dawn"⟩], by decide⟩ }

end Komika.Catalog.Conservation
