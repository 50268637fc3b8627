import Mathlib.Data.List.Basic

/-!
# Words

The words of a text: its maximal pieces without a separator.  Words that are joined by one
separator each are read back as they were, which is what makes a normal form of a text normal.

* `tokens_intercalate` — reading back what was joined;
* `tokens_eq_nil_iff` — a text without words holds separators only;
* `idempotent_of_read_back` — rendering an idempotent rewriting of what was read is idempotent.
-/

namespace Komika.Lib.Tokens

variable {α : Type*} {p : α → Bool}

/-- The non-empty pieces of `l` between the letters that satisfy `p`. -/
def tokens (p : α → Bool) (l : List α) : List (List α) :=
  (l.splitOnP p).filter fun w => !w.isEmpty

/-- The words are the pieces that are not empty. -/
theorem mem_tokens {l w : List α} : w ∈ tokens p l ↔ w ∈ l.splitOnP p ∧ w ≠ [] := by
  simp [tokens]

/-- A piece holds letters of the text that are no separators. -/
theorem of_mem_splitOnP {l w : List α} (hw : w ∈ l.splitOnP p) :
    ∀ c ∈ w, c ∈ l ∧ p c = false := by
  induction l generalizing w with
  | nil =>
    rw [List.splitOnP_nil, List.mem_singleton] at hw
    simp [hw]
  | cons x l ih =>
    rw [List.splitOnP_cons_eq_if_modifyHead] at hw
    by_cases hx : p x = true
    · rw [if_pos hx] at hw
      rcases List.mem_cons.mp hw with rfl | hw
      · simp
      · exact fun c hc => ⟨List.mem_cons_of_mem _ (ih hw c hc).1, (ih hw c hc).2⟩
    · rw [if_neg hx] at hw
      obtain ⟨v, vs, hsplit⟩ := List.exists_cons_of_ne_nil (List.splitOnP_ne_nil p l)
      rw [hsplit, List.modifyHead_cons] at hw
      rcases List.mem_cons.mp hw with rfl | hw
      · intro c hc
        rcases List.mem_cons.mp hc with rfl | hc
        · exact ⟨List.mem_cons_self, Bool.not_eq_true _ ▸ hx⟩
        · have hv := ih (w := v) (by rw [hsplit]; exact List.mem_cons_self) c hc
          exact ⟨List.mem_cons_of_mem _ hv.1, hv.2⟩
      · have hv := ih (w := w) (by rw [hsplit]; exact List.mem_cons_of_mem _ hw)
        exact fun c hc => ⟨List.mem_cons_of_mem _ (hv c hc).1, (hv c hc).2⟩

/-- A text has no words if it is all separators. -/
theorem tokens_eq_nil_iff {l : List α} : tokens p l = [] ↔ ∀ c ∈ l, p c = true := by
  induction l with
  | nil => simp [tokens]
  | cons x l ih =>
    rw [tokens, List.splitOnP_cons_eq_if_modifyHead]
    by_cases hx : p x = true
    · rw [if_pos hx, List.filter_cons_of_neg (by simp)]
      rw [List.forall_mem_cons]
      exact ih.trans ⟨fun h => ⟨hx, h⟩, fun h => h.2⟩
    · rw [if_neg hx]
      obtain ⟨v, vs, hsplit⟩ := List.exists_cons_of_ne_nil (List.splitOnP_ne_nil p l)
      rw [hsplit, List.modifyHead_cons, List.filter_cons_of_pos (by simp)]
      exact ⟨fun h => absurd h (by simp), fun h => absurd (h x List.mem_cons_self) hx⟩

/-- Words joined by one separator each are read back. -/
theorem tokens_intercalate {sep : α} (hsep : p sep = true) {ws : List (List α)}
    (hne : ∀ w ∈ ws, w ≠ []) (hp : ∀ w ∈ ws, ∀ c ∈ w, p c = false) :
    tokens p ([sep].intercalate ws) = ws := by
  induction ws with
  | nil => simp [tokens]
  | cons w ws ih =>
    have hrest := ih (fun v hv => hne v (List.mem_cons_of_mem _ hv))
      (fun v hv => hp v (List.mem_cons_of_mem _ hv))
    have hw : ∀ c ∈ w, p c = false := hp w List.mem_cons_self
    have hkeep : (!w.isEmpty) = true := by
      simpa using hne w List.mem_cons_self
    cases ws with
    | nil =>
      rw [List.intercalate_singleton, tokens, List.splitOnP_eq_singleton hw,
        List.filter_cons, if_pos hkeep, List.filter_nil]
    | cons v vs =>
      rw [List.intercalate_cons_cons, List.append_assoc, List.singleton_append, tokens,
        List.splitOnP_append_cons_of_forall_mem hw sep hsep,
        List.filter_cons, if_pos hkeep]
      exact congrArg (w :: ·) hrest

/-- A letter of a joined text is the separator or stands in a word. -/
theorem mem_intercalate {sep : α} {ws : List (List α)} {c : α}
    (hc : c ∈ [sep].intercalate ws) : c = sep ∨ ∃ w ∈ ws, c ∈ w := by
  induction ws with
  | nil => exact absurd hc (by simp)
  | cons w ws ih =>
    cases ws with
    | nil =>
      rw [List.intercalate_singleton] at hc
      exact Or.inr ⟨w, List.mem_cons_self, hc⟩
    | cons v vs =>
      rw [List.intercalate_cons_cons, List.mem_append, List.mem_append] at hc
      rcases hc with (hw | hsep) | hrest
      · exact Or.inr ⟨w, List.mem_cons_self, hw⟩
      · exact Or.inl (List.mem_singleton.mp hsep)
      · rcases ih hrest with h | ⟨x, hx, hcx⟩
        · exact Or.inl h
        · exact Or.inr ⟨x, List.mem_cons_of_mem _ hx, hcx⟩

/-- A text is read, rewritten and rendered.  If what is rendered is read back as it was, and
rewriting twice is rewriting once, a second pass changes nothing. -/
theorem idempotent_of_read_back {τ β : Type*} {read : τ → β} {render : β → τ} {f : β → β}
    {G : β → Prop} (hread : ∀ t, G (read t)) (hf : ∀ x, G x → G (f x))
    (hback : ∀ x, G x → read (render x) = x) (hff : ∀ x, f (f x) = f x) (t : τ) :
    render (f (read (render (f (read t))))) = render (f (read t)) := by
  rw [hback _ (hf _ (hread t)), hff]

end Komika.Lib.Tokens
