import Mathlib.Tactic

/-!
Weakest preconditions of programs with a state and exceptions.

`wp m Q E s`: the program `m` started in the state `s` either returns a value and a state that meet
`Q`, or stops with an exception in a state that meets `E`. An exception keeps the state it was
thrown in. The equations below compute `wp` along the structure of a program; `wp_mono` and
`wp_bind_of` apply the specification of a part, and `wp_forM` is the rule for loops over a list.
-/

namespace Wp

variable {σ ε α β : Type}

/-- The result and the final state of a program. -/
def runFrom (m : ExceptT ε (StateM σ) α) (s : σ) : Except ε α × σ := StateT.run (ExceptT.run m) s

/-- The weakest precondition of `m` for `Q` on return and `E` on an exception. -/
def wp (m : ExceptT ε (StateM σ) α) (Q : α → σ → Prop) (E : ε → σ → Prop) (s : σ) : Prop :=
  match runFrom m s with
  | (.ok a, s') => Q a s'
  | (.error e, s') => E e s'

variable {m : ExceptT ε (StateM σ) α} {f : α → ExceptT ε (StateM σ) β} {Q Q' : α → σ → Prop}
  {R : β → σ → Prop} {E E' : ε → σ → Prop} {s s' : σ} {a : α} {e : ε}

lemma runFrom_bind : runFrom (m >>= f) s =
    match runFrom m s with
    | (.ok a, s') => runFrom (f a) s'
    | (.error e, s') => (.error e, s') := by
  change (StateT.run (ExceptT.run m >>= ExceptT.bindCont f) s) = _
  rw [runFrom]
  simp only [StateT.run_bind]
  rcases StateT.run (ExceptT.run m) s with ⟨r, s'⟩
  cases r <;> rfl

lemma runFrom_bind_ok (h : runFrom m s = (.ok a, s')) : runFrom (m >>= f) s = runFrom (f a) s' := by
  rw [runFrom_bind, h]

lemma runFrom_get_bind {f : σ → ExceptT ε (StateM σ) β} :
    runFrom (get >>= f) s = runFrom (f s) s := rfl

@[simp] lemma wp_pure : wp (pure a : ExceptT ε (StateM σ) α) Q E s ↔ Q a s := Iff.rfl

@[simp] lemma wp_get {Q : σ → σ → Prop} : wp (get : ExceptT ε (StateM σ) σ) Q E s ↔ Q s s := Iff.rfl

@[simp] lemma wp_bind : wp (m >>= f) R E s ↔ wp m (fun a => wp (f a) R E) E s := by
  rw [wp, wp, runFrom_bind]
  rcases runFrom m s with ⟨r, s'⟩
  cases r <;> rfl

lemma wp_ite {c : Prop} [Decidable c] {m' : ExceptT ε (StateM σ) α} :
    wp (if c then m else m') Q E s ↔ (c → wp m Q E s) ∧ (¬ c → wp m' Q E s) := by
  by_cases hc : c <;> simp [hc]

lemma wp_mono (h : wp m Q E s) (hQ : ∀ a s', Q a s' → Q' a s') (hE : ∀ e s', E e s' → E' e s') :
    wp m Q' E' s := by
  rw [wp] at h ⊢
  generalize runFrom m s = x at h ⊢
  obtain ⟨r, s'⟩ := x
  cases r with
  | ok a => exact hQ a s' h
  | error e => exact hE e s' h

/-- A part with a specification, and the rest from any state that meets it. -/
lemma wp_bind_of (h : wp m Q E s) (hf : ∀ a s', Q a s' → wp (f a) R E s') : wp (m >>= f) R E s :=
  wp_bind.mpr (wp_mono h hf fun _ _ he => he)

lemma wp_of_error (h : runFrom m s = (.error e, s')) : wp m Q E s ↔ E e s' := by rw [wp, h]

lemma wp_of_eq (h : runFrom m s = (.ok a, s')) : wp m Q E s ↔ Q a s' := by
  rw [wp, h]

lemma wp_forM_append {f : α → ExceptT ε (StateM σ) PUnit} (I : List α → σ → Prop) :
    ∀ (l pre : List α) (s : σ), (∀ pre' x s, pre' ++ [x] <+: pre ++ l → I pre' s →
        wp (f x) (fun _ s' => I (pre' ++ [x]) s') E s) →
      I pre s → wp (forM l f) (fun _ s' => I (pre ++ l) s') E s
  | [], pre, s, _, hI => by
      rw [List.forM_nil, wp_pure, List.append_nil]
      exact hI
  | x :: l, pre, s, hstep, hI => by
      have hx : pre ++ [x] <+: pre ++ x :: l := (List.prefix_append_right_inj pre).mpr ⟨l, rfl⟩
      have hsplit : pre ++ x :: l = pre ++ [x] ++ l := by simp
      rw [List.forM_cons]
      refine wp_bind_of (hstep pre x s hx hI) fun _ s' hs' => ?_
      rw [hsplit] at hstep ⊢
      exact wp_forM_append I l (pre ++ [x]) s' hstep hs'

/-- A loop over a list: `I` speaks of the part of the list already treated. -/
lemma wp_forM {l : List α} {f : α → ExceptT ε (StateM σ) PUnit} (I : List α → σ → Prop)
    (hstep : ∀ pre x s, pre ++ [x] <+: l → I pre s → wp (f x) (fun _ s' => I (pre ++ [x]) s') E s)
    (h0 : I [] s) : wp (forM l f) (fun _ s' => I l s') E s :=
  wp_forM_append I l [] s hstep h0

end Wp
