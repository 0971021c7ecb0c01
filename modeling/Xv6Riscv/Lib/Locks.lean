import Mathlib.Tactic

/-!
Tables of spinlocks.

A lock table `t : L → Option ι` says for every lock which agent holds it. What an agent does to
the table in one step is an `Act`: nothing, a critical section that begins and ends within the
step (`within`), an acquisition or a release. In a program the locks an agent holds can be read
off its program counter; `Act.Typed` says that a step changes them as it changes the table, and
`Agrees` that table and program counters tell the same story.

* `Agrees.step`: an enabled, typed step of one agent keeps the agreement.
* `Agrees.unique`: two agents never hold the same lock.
-/

namespace Locks

open Function (update update_apply update_of_ne)

variable {ι L : Type*}

/-- What one step does to the lock table. -/
inductive Act (L : Type*)
  | none
  | within (l : L)
  | acquire (l : L)
  | release (l : L)

/-- A lock can be taken only when it is free. -/
def Act.Enabled (t : L → Option ι) : Act L → Prop
  | within l | acquire l => t l = Option.none
  | none | release _ => True

/-- The locks held `before` and `after` a step. -/
def Act.Typed (before after : L → Prop) : Act L → Prop
  | none | within _ => ∀ l, after l ↔ before l
  | acquire l => ∀ l', after l' ↔ before l' ∨ l' = l
  | release l => before l ∧ ∀ l', after l' ↔ before l' ∧ l' ≠ l

/-- The table says who holds what. -/
def Agrees (t : L → Option ι) (holds : ι → L → Prop) : Prop :=
  ∀ l c, t l = some c ↔ holds c l

section

variable [DecidableEq L]

/-- The table after a step of `c`. -/
def Act.run (c : ι) (t : L → Option ι) : Act L → L → Option ι
  | none | within _ => t
  | acquire l => update t l (some c)
  | release l => update t l Option.none

variable {t : L → Option ι} {holds holds' : ι → L → Prop} {a : Act L} {c c' : ι} {l : L}

omit [DecidableEq L] in
/-- **Mutual exclusion.** -/
theorem Agrees.unique (h : Agrees t holds) (hc : holds c l) (hc' : holds c' l) : c = c' := by
  have h1 := (h l c).mpr hc
  have h2 := (h l c').mpr hc'
  exact Option.some.inj (h1.symm.trans h2)

omit [DecidableEq L] in
lemma Agrees.not_holds_of_free (h : Agrees t holds) (hl : t l = none) (c : ι) : ¬ holds c l := by
  intro hc
  rw [(h l c).mpr hc] at hl
  cases hl

lemma Act.run_of_enabled_ne (h : a.Enabled t) (hl : t l = some c') (hc : c' ≠ c)
    (hrel : ∀ l', a = .release l' → t l' = some c) : a.run c t l = some c' := by
  cases a with
  | none | within _ => exact hl
  | acquire l' =>
    have hne : l ≠ l' := by
      rintro rfl
      rw [show t l = Option.none from h] at hl
      cases hl
    rw [Act.run, update_of_ne hne, hl]
  | release l' =>
    have hne : l ≠ l' := by
      rintro rfl
      rw [hrel l rfl] at hl
      exact hc (Option.some.inj hl).symm
    rw [Act.run, update_of_ne hne, hl]

/-- **A typed step keeps the agreement.** -/
theorem Agrees.step (h : Agrees t holds) (hen : a.Enabled t) (hself : a.Typed (holds c) (holds' c))
    (hother : ∀ c', c' ≠ c → ∀ l, holds' c' l ↔ holds c' l) : Agrees (a.run c t) holds' := by
  intro l c'
  by_cases hc : c' = c
  · subst hc
    cases a with
    | none | within _ => exact (h l c').trans (hself l).symm
    | acquire l' =>
      rw [Act.run, hself l]
      by_cases hl : l = l'
      · subst hl
        simp
      · rw [update_of_ne hl, h l c']
        simp [hl]
    | release l' =>
      rw [Act.run, hself.2 l]
      by_cases hl : l = l'
      · subst hl
        simp
      · rw [update_of_ne hl, h l c']
        simp [hl]
  · rw [hother c' hc l, ← h l c']
    constructor
    · -- a lock of another agent was not touched
      intro hl
      cases a with
      | none | within _ => exact hl
      | acquire l' =>
        rw [Act.run, update_apply] at hl
        split_ifs at hl
        · exact absurd (Option.some.inj hl).symm hc
        · exact hl
      | release l' =>
        rw [Act.run, update_apply] at hl
        split_ifs at hl
        exact hl
    · intro hl
      refine Act.run_of_enabled_ne hen hl hc fun l' ha => ?_
      subst ha
      exact (h l' c).mpr hself.1

end

end Locks
