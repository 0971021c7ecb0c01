import Mathlib.Tactic

/-!
Splitting a list into words.

The separators are the elements that satisfy `p`; the words are what lies between them, without the
empty ones.

* `words_cons_word`, `words_single`: the words of a list that is given word by word.
* `prefix_words`: what becomes of the words when the list is cut off: every word of what is left is
  the beginning of a word there was.
-/

namespace Split

variable {α : Type*} {p : α → Bool} {l l1 l2 w : List α} {x : α}

def words (p : α → Bool) (l : List α) : List (List α) := (l.splitOnP p).filter fun w => !w.isEmpty

@[simp] lemma words_nil : words p [] = [] := rfl

lemma words_cons_word (hw : ∀ x ∈ w, p x = false) (hne : w ≠ []) (hx : p x = true) :
    words p (w ++ x :: l) = w :: words p l := by
  rw [words, List.splitOnP_append_cons_of_forall_mem hw x hx,
    List.filter_cons_of_pos (by simpa using hne)]
  rfl

lemma words_single (hw : ∀ x ∈ w, p x = false) (hne : w ≠ []) : words p w = [w] := by
  rw [words, List.splitOnP_eq_singleton hw, List.filter_cons_of_pos (by simpa using hne)]
  rfl

lemma forall_of_all {P : α → Prop} [DecidablePred P] (h : w.all (fun x => decide (P x)) = true) :
    ∀ x ∈ w, P x :=
  fun x hx => of_decide_eq_true (List.all_eq_true.mp h x hx)

/-- The parts of a list that is cut off are those there were, up to the last one. -/
lemma splitOnP_prefix (h : l1 <+: l2) : ∃ A t w B,
    l1.splitOnP p = A ++ [t] ∧ l2.splitOnP p = A ++ w :: B ∧ t <+: w := by
  induction l1 generalizing l2 with
  | nil =>
    obtain ⟨w, B, hw⟩ := List.exists_cons_of_ne_nil (List.splitOnP_ne_nil p l2)
    exact ⟨[], [], w, B, List.splitOnP_nil .., hw, List.nil_prefix⟩
  | cons x l1 ih =>
    obtain ⟨l3, rfl⟩ := h
    obtain ⟨A, t, w, B, h1, h2, ht⟩ := ih (List.prefix_append l1 l3)
    rw [List.cons_append, List.splitOnP_cons_eq_if_modifyHead,
      List.splitOnP_cons_eq_if_modifyHead, h1, h2]
    cases hx : p x with
    | true => exact ⟨[] :: A, t, w, B, rfl, rfl, ht⟩
    | false =>
      cases A with
      | nil => exact ⟨[], x :: t, x :: w, B, rfl, rfl, (List.cons_prefix_cons).mpr ⟨rfl, ht⟩⟩
      | cons a A => exact ⟨(x :: a) :: A, t, w, B, rfl, rfl, ht⟩

/-- **A list that is cut off** has no new words, only one that may be cut off. -/
lemma prefix_words (h : l1 <+: l2) {t : List α} (ht : t ∈ words p l1) :
    ∃ w ∈ words p l2, t <+: w := by
  obtain ⟨A, t', w, B, h1, h2, hpre⟩ := splitOnP_prefix (p := p) h
  rw [words, List.mem_filter, h1, List.mem_append, List.mem_singleton] at ht
  obtain ⟨ht | rfl, hne⟩ := ht
  · refine ⟨t, ?_, List.prefix_rfl⟩
    rw [words, List.mem_filter, h2]
    exact ⟨List.mem_append_left _ ht, hne⟩
  · refine ⟨w, ?_, hpre⟩
    rw [words, List.mem_filter, h2]
    refine ⟨List.mem_append_right _ List.mem_cons_self, ?_⟩
    cases w with
    | nil =>
      rw [List.prefix_nil.mp hpre] at hne
      cases hne
    | cons _ _ => rfl

end Split
