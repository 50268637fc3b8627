import Komika.Catalog.Conservation

/-!
# The alias token index

`work_alias_token` is an inverted index over `work_alias`: it holds, for every
work, the words of the normalised titles the work is known by.  Nothing in the
schema ties the two tables together; each writer of aliases maintains the
index by hand.  `Indexed` is what they maintain.

An alias that `INSERT OR IGNORE` drops has its words indexed all the same.  It
was dropped for an alias of the same work with the same normalised title, so
these are words of that one.

The proof goes writer by writer: what is offered to the aliases is offered to the index
(`indexed_insert`), what is deleted is deleted in both (`indexed_delete`), a merge
writes the words of what it folds (`indexed_merged`), and a split writes those of what
it copies.

* `indexed_write`, `indexed_reach` — every writer keeps the index, so every reachable
  state has it;
* `tokens_mirror_aliases` — a lookup by a word finds the works with an alias that has
  the word.
-/

namespace Komika.Catalog.AliasIndex

open Komika.Lib
open Komika.Catalog.Schema Komika.Catalog.Database Komika.Catalog.Ingest
open Komika.Catalog.Merge Komika.Catalog.Split Komika.Catalog.Runs
open Komika.Catalog.Conservation

/-! ## Words -/

/-- `char::is_whitespace`: the Unicode property `White_Space`. -/
def isWhitespace (c : Char) : Bool :=
  let n := c.toNat
  (0x09 ≤ n && n ≤ 0x0D) || n = 0x20 || n = 0x85 || n = 0xA0 || n = 0x1680 ||
    (0x2000 ≤ n && n ≤ 0x200A) || n = 0x2028 || n = 0x2029 || n = 0x202F ||
    n = 0x205F || n = 0x3000

/-- `str::split_whitespace`: the words between blanks, none of them empty. -/
def splitWhitespace (t : String) : List String :=
  ((t.toList.splitOnP isWhitespace).filter fun word => word ≠ []).map
    String.ofList

/-- `alias_word_tokens`: the words of two bytes or more. -/
def aliasWordTokens (normalizedTitle : String) : List String :=
  (splitWhitespace normalizedTitle).filter fun t => 2 ≤ t.utf8ByteSize

example : aliasWordTokens "  that time\ta slime " = ["that", "time", "slime"] := by
  decide

/-- `candidate_work_ids_by_token`, without its `LIMIT`. -/
def candidateWorkIdsByToken (db : Db) (token : String) : List Id :=
  if token.utf8ByteSize < 2 then []
  else ((db.workAliasToken.rows.filter fun r => r.token = token).map
    WorkAliasToken.workId).dedup

/-- The catalogue's rules, with the words that `alias_word_tokens` finds. -/
def indexRules (rules : Rules) : Rules :=
  { rules with aliasWordTokens := aliasWordTokens }

/-! ## The index and the aliases

The one statement about the two tables, and the two changes to both that keep it. -/

section Indexed

variable {rules : TextRules} {db : Db}

/-- The tokens are the words of the aliases. -/
def Indexed (rules : TextRules) (db : Db) : Prop :=
  ∀ x, x ∈ db.workAliasToken ↔ Spells rules db x.workId x.token

/-- The token rows of some aliases. -/
theorem mem_tokenRows {rows : List WorkAlias} {x : WorkAliasToken} :
    x ∈ tokenRows rules rows ↔ ∃ a ∈ rows, a.workId = x.workId ∧
      x.token ∈ rules.aliasWordTokens a.normalizedTitle := by
  cases x
  simp only [tokenRows, List.mem_flatMap, List.mem_map, WorkAliasToken.mk.injEq]
  grind

/-- A work spells a word if one of its aliases has it. -/
theorem spells_iff {w : Id} {token : String} :
    Spells rules db w token ↔ ∃ a ∈ db.workAlias, a.workId = w ∧
      token ∈ rules.aliasWordTokens a.normalizedTitle := by
  simp [Spells, onWork, on?]

/-- A token row is its own key. -/
theorem eq_of_clash_token (a b : WorkAliasToken) (h : clash a b = true) :
    a = b := by
  cases a
  cases b
  simpa [clash] using h

/-- The statement is about two tables. -/
theorem Indexed.congr {db' : Db} (h : Indexed rules db)
    (halias : db'.workAlias = db.workAlias)
    (htoken : db'.workAliasToken = db.workAliasToken) : Indexed rules db' := by
  intro x
  rw [htoken, h x, Spells, Spells, halias]

theorem indexed_empty : Indexed rules Db.empty := by
  intro x
  rw [spells_iff]
  constructor
  · intro hx
    exact absurd hx (Table.not_mem_empty x)
  · rintro ⟨a, ha, -⟩
    exact absurd ha (Table.not_mem_empty a)

/-- Offered aliases, and the words of all of them. -/
theorem indexed_insert {db' : Db} {rows : List WorkAlias}
    (h : Indexed rules db)
    (halias : db'.workAlias = db.workAlias.insertAllOrIgnore rows)
    (htoken : db'.workAliasToken =
      db.workAliasToken.insertAllOrIgnore (tokenRows rules rows)) :
    Indexed rules db' := by
  intro x
  rw [spells_iff, htoken, halias, Table.mem_insertAllOrIgnore_of_eq
    eq_of_clash_token, h x, spells_iff, mem_tokenRows]
  constructor
  · rintro (⟨a, ha, hword⟩ | ⟨a, ha, hwork, hword⟩)
    · exact ⟨a, Table.mem_insertAllOrIgnore_of_mem ha, hword⟩
    · rcases Table.insertAllOrIgnore_covers (t := db.workAlias) ha with
        hin | ⟨b, hb, hclash⟩
      · exact ⟨a, hin, hwork, hword⟩
      · -- the alias that was there has the same normalised title
        simp only [clash, decide_eq_true_eq] at hclash
        obtain ⟨hab, htitle, -⟩ := hclash
        exact ⟨b, hb, hab.symm.trans hwork, htitle ▸ hword⟩
  · rintro ⟨a, ha, hword⟩
    rcases Table.mem_of_mem_insertAllOrIgnore ha with ha | ⟨ha, -⟩
    · exact .inl ⟨a, ha, hword⟩
    · exact .inr ⟨a, ha, hword⟩

/-- Both tables lose the rows of the same works. -/
theorem indexed_delete {db' : Db} {p : Id → Bool} (h : Indexed rules db)
    (halias : db'.workAlias = db.workAlias.deleteWhere fun r => p r.workId)
    (htoken : db'.workAliasToken =
      db.workAliasToken.deleteWhere fun r => p r.workId) :
    Indexed rules db' := by
  intro x
  simp only [spells_iff, htoken, halias, Table.mem_deleteWhere, h x]
  constructor
  · rintro ⟨⟨a, ha, hwork, hword⟩, hp⟩
    exact ⟨a, ⟨ha, hwork ▸ hp⟩, hwork, hword⟩
  · rintro ⟨a, ⟨ha, hp⟩, hwork, hword⟩
    exact ⟨⟨a, ha, hwork, hword⟩, hwork ▸ hp⟩

/-! ## The writers

Each function that touches either table, by those two changes. -/

/-- Aliases are offered together with their words. -/
theorem indexed_insertAliases (workId : Id) (aliases : List Alias)
    (h : Indexed rules db) :
    Indexed rules (insertAliases rules workId aliases db) :=
  indexed_insert h rfl rfl

/-- The rebuild reads the aliases that remain; the other works' tokens stay. -/
theorem indexed_removeWorkAlias {db' : Db} {workId : Id} {rawTitle : String}
    {u : Unit} (h : Indexed rules db)
    (hok : removeWorkAlias rules workId rawTitle db = .ok (u, db')) :
    Indexed rules db' := by
  unfold removeWorkAlias at hok
  cases hok
  intro x
  rw [spells_iff]
  dsimp only
  rw [Table.mem_insertAllOrIgnore_of_eq eq_of_clash_token, mem_tokenRows,
    deleteOn, Table.mem_deleteWhere, h x, spells_iff]
  simp only [List.mem_filter, Table.mem_rows, Table.mem_deleteWhere, onWork, on?,
    decide_eq_true_eq, decide_eq_false_iff_not, Option.some.injEq]
  constructor
  · rintro (⟨⟨a, ha, hwork, hword⟩, hother⟩ | ⟨a, ⟨ha, -⟩, hword⟩)
    · exact ⟨a, ⟨ha, by simp [hwork, hother]⟩, hwork, hword⟩
    · exact ⟨a, ha, hword⟩
  · rintro ⟨a, ha, hwork, hword⟩
    by_cases hx : x.workId = workId
    · exact .inr ⟨a, ⟨ha, hwork.trans hx⟩, hwork, hword⟩
    · exact .inl ⟨⟨a, ha.1, hwork, hword⟩, hx⟩

/-- Deleted works leave neither table a row. -/
theorem indexed_deleteWorksExplicitly (p : Id → Bool) (h : Indexed rules db) :
    Indexed rules (deleteWorksExplicitly p db) := by
  have hchildren : Indexed rules (deleteChildRows p db) :=
    indexed_delete h rfl rfl
  exact indexed_delete hchildren rfl rfl

/-- The purge deletes works in that way. -/
theorem indexed_purge {db' : Db} {ids : List Int} (h : Indexed rules db)
    (hok : purgeForeignLanguageSuwayomi db = .ok (ids, db')) :
    Indexed rules db' := by
  unfold purgeForeignLanguageSuwayomi at hok
  dsimp only at hok
  split at hok
  · cases hok
    exact h
  · cases hok
    have hpurged := indexed_deleteWorksExplicitly
      (orphanedBy db ((nonEnglish db).map toString)) h
    exact hpurged.congr rfl rfl

/-- An alias that yields to one of the target has its words there. -/
theorem indexed_merged {source target : Id} (hne : source ≠ target)
    (h : Indexed rules db) : Indexed rules (merged rules source target db) := by
  have haliases : Moved source target SameAlias db.workAlias
      (merged rules source target db).workAlias := moved_workAlias hne
  have htokens : Respelled rules source target db
      (merged rules source target db) := respelled_merged hne
  intro x
  rw [htokens.rows, h x]
  constructor
  · rintro (⟨⟨a, ha, hwork, hword⟩, hoff⟩ | ⟨htarget, a, ha, hsource, hword⟩)
    · have hstays : a ∈ (merged rules source target db).workAlias := by
        apply (haliases.rows a).mpr
        simp_all [onWork, on?]
      exact ⟨a, hstays, hwork, hword⟩
    · have htarget : x.workId = target := by simpa [onWork, on?] using htarget
      obtain ⟨b, hb, hon, rfl | ⟨-, hsame⟩⟩ := haliases.arrives a ha hsource
      · exact ⟨move target a, hb, htarget ▸ hon, hword⟩
      · exact ⟨b, hb, htarget ▸ hon, hsame.1 ▸ hword⟩
  · rintro ⟨a, ha, hwork, hword⟩
    rcases (haliases.rows a).mp ha with ⟨ha, hoff⟩ | ⟨r, hr, hsource, -, rfl⟩
    · exact .inl ⟨⟨a, ha, hwork, hword⟩, by simp_all [onWork, on?]⟩
    · refine .inr ⟨?_, r, hr, hsource, hword⟩
      simpa [onWork, on?, move, eq_comm] using hwork

/-- The new work gets aliases with their words, and the old one keeps its own. -/
theorem indexed_commitSplit {plan : SplitPlan} {newWorkId : Id}
    {actor : Option Id} {outcome : SplitOutcome} {db' : Db}
    (h : Indexed rules db)
    (hok : commitSplit rules plan newWorkId actor db = .ok (outcome, db')) :
    Indexed rules db' := by
  obtain ⟨-, row, work, lang, -, -, -, rfl⟩ := commitSplit_ok hok
  exact (indexed_insertAliases newWorkId [⟨plan.title, lang⟩] h).congr rfl rfl

end Indexed

/-! ## Runs -/

section Runs

variable {rules : Rules} {s : CatalogState}

/-- Every writer keeps the index. -/
theorem indexed_write (op : Op) (h : Indexed rules.toTextRules s.db) :
    Indexed rules.toTextRules (s.write rules op) := by
  cases op with
  | createWork newWorkId input =>
      apply commit_cases h
      intro id db' hok
      obtain ⟨work, -, rfl⟩ := createWork_ok hok
      exact (indexed_insertAliases newWorkId input.aliases h).congr rfl rfl
  | upsertWorkFromMangadex newWorkId newSourceSeriesId mangadexId input now =>
      apply commit_cases h
      intro id db' hok
      obtain ⟨-, sid, hss⟩ := upsertWorkFromMangadex_ok hok
      obtain ⟨t, rfl, -⟩ := ensureSourceSeries_ok hss
      exact (indexed_insertAliases id input.aliases h).congr rfl rfl
  | upsertSourceSeries =>
      apply commit_cases h
      intro id db' hok
      obtain ⟨t, rfl, -⟩ := ensureSourceSeries_ok hok
      exact h.congr rfl rfl
  | addWorkAlias workId rawTitle =>
      apply commit_cases h
      intro norm db' hok
      rcases addWorkAlias_ok hok with rfl | rfl
      · exact h
      · exact indexed_insertAliases workId _ h
  | removeWorkAlias workId rawTitle =>
      apply commit_cases h
      intro u db' hok
      exact indexed_removeWorkAlias h hok
  | mergeWorks source target expected =>
      apply commit_cases h
      intro outcome db' hok
      obtain ⟨hne, -, -, -, rfl⟩ := merge_ok hok
      exact indexed_merged hne h
  | commitSplit i newWorkId actor =>
      apply write_commitSplit_cases h
      intro plan outcome db' _ hok
      exact indexed_commitSplit h hok
  | deleteWorkCascade workId => exact indexed_deleteWorksExplicitly _ h
  | purgeForeignLanguageSuwayomi =>
      apply commit_cases h
      intro ids db' hok
      exact indexed_purge h hok
  | upsertChapter =>
      apply commit_cases h
      intro u db' hok
      obtain ⟨chapter, rfl⟩ := Ledger.upsertChapter_ok hok
      exact h.congr rfl rfl
  | replaceSourceChapters =>
      apply commit_cases h
      intro u db' hok
      obtain ⟨chapter, rfl⟩ := Ledger.replaceSourceChapters_ok hok
      exact h.congr rfl rfl
  | splitMismatchedRow row =>
      apply commit_cases h
      intro u db' hok
      rcases Ledger.splitMismatchedRow_ok hok with ⟨-, rfl⟩ | ⟨_, -, -, _, rfl, rfl⟩
      · exact h
      · exact h.congr rfl rfl
  | planSplit => exact h
  | cacheSeries => exact h.congr rfl rfl
  | seedWork => exact h.congr rfl rfl
  | recordSourceSeries => exact h.congr rfl rfl

theorem indexed_reach (rules : Rules) (ops : List Op) :
    Indexed rules.toTextRules (reach rules ops).db := by
  have hstep : ∀ (s : CatalogState) op, Indexed rules.toTextRules s.db →
      Indexed rules.toTextRules (s.step rules op).db := by
    intro s op h
    cases hfresh : s.fresh op with
    | true =>
        rw [step_db_of_fresh hfresh]
        exact indexed_write op h
    | false =>
        rw [step_of_not_fresh hfresh]
        exact h
  exact Machine.run_invariant
    (I := fun s : CatalogState => Indexed rules.toTextRules s.db)
    hstep indexed_empty ops

end Runs

/-! ## Lookups -/

/-- A word of one letter is not looked up. -/
theorem mem_candidateWorkIdsByToken {db : Db} {token : String} {w : Id} :
    w ∈ candidateWorkIdsByToken db token ↔
      2 ≤ token.utf8ByteSize ∧
        (⟨w, token⟩ : WorkAliasToken) ∈ db.workAliasToken := by
  unfold candidateWorkIdsByToken
  split
  · next hshort => simp [Nat.not_le.mpr hshort]
  · next hlong =>
      rw [List.mem_dedup, List.mem_map, and_iff_right (Nat.not_lt.mp hlong)]
      constructor
      · rintro ⟨r, hr, rfl⟩
        obtain ⟨hr, htoken⟩ := List.mem_filter.mp hr
        rw [← of_decide_eq_true htoken]
        exact hr
      · intro hr
        exact ⟨_, List.mem_filter.mpr ⟨hr, decide_eq_true rfl⟩, rfl⟩

/-- **The index mirrors the aliases.**  In every reachable state the tokens of a
work are the words of its aliases, so a lookup finds exactly the works that
have an alias with the word. -/
theorem tokens_mirror_aliases (rules : Rules) (ops : List Op) (w : Id)
    (token : String) :
    ((⟨w, token⟩ : WorkAliasToken) ∈
        (reach (indexRules rules) ops).db.workAliasToken ↔
      ∃ a ∈ (reach (indexRules rules) ops).db.workAlias, a.workId = w ∧
        token ∈ aliasWordTokens a.normalizedTitle) ∧
    (w ∈ candidateWorkIdsByToken (reach (indexRules rules) ops).db token ↔
      ∃ a ∈ (reach (indexRules rules) ops).db.workAlias, a.workId = w ∧
        token ∈ aliasWordTokens a.normalizedTitle) ∧
    (candidateWorkIdsByToken (reach (indexRules rules) ops).db token).Nodup := by
  have hindexed := (indexed_reach (indexRules rules) ops ⟨w, token⟩).trans
    spells_iff
  refine ⟨hindexed, ?_, ?_⟩
  · rw [mem_candidateWorkIdsByToken, hindexed]
    apply and_iff_right_of_imp
    rintro ⟨a, -, -, hword⟩
    simpa using (List.mem_filter.mp hword).2
  · unfold candidateWorkIdsByToken
    split
    · exact List.nodup_nil
    · exact List.nodup_dedup _

end Komika.Catalog.AliasIndex
