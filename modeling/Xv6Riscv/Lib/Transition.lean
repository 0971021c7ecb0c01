import Mathlib.Tactic

/-!
Runs of transition systems and history variables.

A system has states `σ` and labels `α`, the operations it performs one after another. Two
kinds of system occur: a total function `app : σ → α → σ` with a guard saying when a label is
enabled, and a relation `step : σ → List α → σ → Prop` whose steps each perform a list of
labels of a coarser system.

* `Legal`: every label of a list is enabled when its turn comes; `legal_append` splits it.
* `track`: a history variable, folded over the labels of a run together with the states in
  which they were performed; `track_append` splits it, `track_invariant` is the rule by which
  an invariant of state and history variable is carried along a legal run.
* `Steps`: the runs of a relation, collecting the labels performed; `Steps.invariant` is the
  induction on runs, and `Steps.refines` the rule that a system whose steps perform enabled
  labels of a coarser one performs legal runs of it.
* `run_of_foldlM`, `runOk_invariant`: a list of labels that a partial function performs is a run.
-/

namespace Transition

variable {σ τ α γ : Type*}

/-! ### Runs of a guarded function -/

section Guarded

variable (ok : σ → α → Prop) (app : σ → α → σ)

/-- Every label of the list is enabled in the state reached by the labels before it. -/
def Legal : σ → List α → Prop
  | _, [] => True
  | s, a :: as => ok s a ∧ Legal (app s a) as

/-- A history variable: `upd` sees the value so far, the state before the label and the
label. -/
def track (upd : γ → σ → α → γ) : γ → σ → List α → γ
  | g, _, [] => g
  | g, s, a :: as => track upd (upd g s a) (app s a) as

@[simp] lemma legal_nil (s : σ) : Legal ok app s [] := trivial

@[simp] lemma legal_cons (s : σ) (a : α) (as : List α) :
    Legal ok app s (a :: as) ↔ ok s a ∧ Legal ok app (app s a) as := Iff.rfl

@[simp] lemma track_nil (upd : γ → σ → α → γ) (g : γ) (s : σ) : track app upd g s [] = g := rfl

@[simp] lemma track_cons (upd : γ → σ → α → γ) (g : γ) (s : σ) (a : α) (as : List α) :
    track app upd g s (a :: as) = track app upd (upd g s a) (app s a) as := rfl

variable {ok app}

variable {as : List α} {s : σ}

lemma legal_append {bs : List α} :
    Legal ok app s (as ++ bs) ↔ Legal ok app s as ∧ Legal ok app (as.foldl app s) bs := by
  induction as generalizing s with
  | nil => simp
  | cons a as ih => simp [ih, and_assoc]

lemma track_append {upd : γ → σ → α → γ} {g : γ} {bs : List α} :
    track app upd g s (as ++ bs) = track app upd (track app upd g s as) (as.foldl app s) bs := by
  induction as generalizing g s with
  | nil => rfl
  | cons a as ih => exact ih

/-- A run that is legal for two guards is legal for both together. -/
lemma Legal.and {ok' : σ → α → Prop} (h : Legal ok app s as) (h' : Legal ok' app s as) :
    Legal (fun s a => ok s a ∧ ok' s a) app s as := by
  induction as generalizing s with
  | nil => trivial
  | cons a as ih => exact ⟨⟨h.1, h'.1⟩, ih h.2 h'.2⟩

lemma legal_of_forall (h : ∀ a ∈ as, ∀ s, ok s a) : Legal ok app s as := by
  induction as generalizing s with
  | nil => trivial
  | cons a as ih => exact ⟨h a (by simp) s, ih fun b hb => h b (by simp [hb])⟩

/-- **The invariant rule for history variables**: what one enabled label preserves, a legal
run preserves. -/
theorem track_invariant {upd : γ → σ → α → γ} {I : σ → γ → Prop}
    (hstep : ∀ s g a, I s g → ok s a → I (app s a) (upd g s a)) {g : γ} (h0 : I s g)
    (h : Legal ok app s as) : I (as.foldl app s) (track app upd g s as) := by
  induction as generalizing s g with
  | nil => exact h0
  | cons a as ih => exact ih (hstep s g a h0 h.1) h.2

/-- The invariant rule without a history variable. -/
theorem legal_invariant {I : σ → Prop} (hstep : ∀ s a, I s → ok s a → I (app s a)) (h0 : I s)
    (h : Legal ok app s as) : I (as.foldl app s) := by
  induction as generalizing s with
  | nil => exact h0
  | cons a as ih => exact ih (hstep s a h0 h.1) h.2

end Guarded

/-! ### Runs of a relation -/

/-- The runs of `step` from `s`, with the labels performed along them. -/
inductive Steps (step : σ → List α → σ → Prop) (s : σ) : List α → σ → Prop
  | nil : Steps step s [] s
  | snoc {as bs : List α} {t u : σ} (h : Steps step s as t) (h' : step t bs u) :
      Steps step s (as ++ bs) u

namespace Steps

variable {step : σ → List α → σ → Prop} {s t : σ} {as : List α}

/-- A state property that every step preserves holds along every run. -/
theorem invariant {I : σ → Prop} (h : Steps step s as t) (h0 : I s)
    (hstep : ∀ t bs u, I t → step t bs u → I u) : I t := by
  induction h with
  | nil => exact h0
  | snoc _ h' ih => exact hstep _ _ _ ih h'

/-- **The refinement rule**: if every step from a state satisfying the invariant performs
enabled labels of the coarser system and reaches their result, every run does. -/
theorem refines {ok : τ → α → Prop} {app : τ → α → τ} (f : σ → τ) {I : σ → Prop}
    (h : Steps step s as t) (h0 : I s) (hstep : ∀ t bs u, I t → step t bs u → I u)
    (hsim : ∀ t bs u, I t → step t bs u → Legal ok app (f t) bs ∧ f u = bs.foldl app (f t)) :
    Legal ok app (f s) as ∧ f t = as.foldl app (f s) := by
  induction h with
  | nil => exact ⟨trivial, rfl⟩
  | snoc h h' ih =>
    obtain ⟨hl, he⟩ := ih
    obtain ⟨hl', he'⟩ := hsim _ _ _ (h.invariant h0 hstep) h'
    rw [he] at hl' he'
    exact ⟨legal_append.mpr ⟨hl, hl'⟩, by rw [he', List.foldl_append]⟩

end Steps

/-! ### Runs of a partial function -/

/-- Labels that are performed one after another are a run of every relation with their steps. -/
theorem run_of_foldlM {act : σ → α → Option σ} {R : σ → σ → Prop} {as : List α} {s t : σ}
    (hR : ∀ a ∈ as, ∀ s t, act s a = some t → R s t) (h : as.foldlM act s = some t) :
    Relation.ReflTransGen R s t := by
  induction as generalizing s with
  | nil =>
    cases h
    exact .refl
  | cons a as ih =>
    rw [List.foldlM_cons] at h
    obtain ⟨u, hu, hrest⟩ := Option.bind_eq_some_iff.mp h
    exact .head (hR a List.mem_cons_self s u hu)
      (ih (fun b hb => hR b (List.mem_cons_of_mem _ hb)) hrest)

/-- The state after a list of labels, if each is possible and none fails. -/
def runOk {ε : Type*} (step : σ → α → Option (Except ε σ)) (s : σ) (as : List α) : Option σ :=
  as.foldlM (fun s a => (step s a).bind Except.toOption) s

theorem runOk_invariant {ε : Type*} {step : σ → α → Option (Except ε σ)} {I : σ → Prop} {s t : σ}
    {as : List α} (hstep : ∀ s a t, I s → step s a = some (.ok t) → I t) (h0 : I s)
    (h : runOk step s as = some t) : I t := by
  induction as generalizing s with
  | nil =>
    cases h
    exact h0
  | cons a as ih =>
    obtain ⟨u, hu, hrest⟩ := Option.bind_eq_some_iff.mp h
    obtain ⟨_ | _, hv, hok⟩ := Option.bind_eq_some_iff.mp hu <;> cases hok
    exact ih (hstep s a u h0 hv) hrest

end Transition
