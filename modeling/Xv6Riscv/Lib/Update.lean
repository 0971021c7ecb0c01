import Mathlib.Algebra.BigOperators.Group.Finset.Basic
import Mathlib.Algebra.GroupWithZero.Nat

/-!
Tables in which one entry changes.
-/

namespace Upd

open Function

variable {ι α β : Type*} [DecidableEq ι] {g : ι → α} {p q : ι} {x : α}

/-- What the new entry has in common with the old one stays in the whole table. -/
lemma map (f : α → β) (h : f x = f (g p)) (q : ι) : f (update g p x q) = f (g q) := by
  rcases eq_or_ne q p with rfl | hq
  · rw [update_self, h]
  · rw [update_of_ne hq]

lemma cases (f : α → β) {b : β} (h : f (update g p x q) = b) :
    q = p ∧ f x = b ∨ q ≠ p ∧ f (g q) = b := by
  rcases eq_or_ne q p with rfl | hq
  · rw [update_self] at h
    exact .inl ⟨rfl, h⟩
  · rw [update_of_ne hq] at h
    exact .inr ⟨hq, h⟩

lemma unique {K : α → β → Prop} (h : ∀ q r b, K (g q) b → K (g r) b → q = r)
    (hx : ∀ b, K x b → ∀ q ≠ p, ¬ K (g q) b) {r : ι} {b : β} (hq : K (update g p x q) b)
    (hr : K (update g p x r) b) : q = r := by
  rcases eq_or_ne q p with hqp | hqp <;> rcases eq_or_ne r p with hrp | hrp
  · exact hqp.trans hrp.symm
  · rw [hqp, update_self] at hq
    rw [update_of_ne hrp] at hr
    exact absurd hr (hx b hq r hrp)
  · rw [update_of_ne hqp] at hq
    rw [hrp, update_self] at hr
    exact absurd hq (hx b hr q hqp)
  · rw [update_of_ne hqp] at hq
    rw [update_of_ne hrp] at hr
    exact h q r b hq hr

/-! ### Sums -/

variable {M : Type*} [AddCommMonoid M] [Fintype ι]

open Finset

lemma sum_of_ne {f g : ι → M} {p : ι} (h : ∀ i, i ≠ p → g i = f i) :
    ∑ i, g i + f p = ∑ i, f i + g p := by
  have hrest : ∑ i ∈ univ.erase p, g i = ∑ i ∈ univ.erase p, f i :=
    sum_congr rfl fun i hi => h i (ne_of_mem_erase hi)
  rw [← add_sum_erase _ g (mem_univ p), ← add_sum_erase _ f (mem_univ p), hrest]
  ac_rfl

lemma sum (f : α → M) : ∑ q, f (update g p x q) + f (g p) = ∑ q, f (g q) + f x := by
  have h := sum_of_ne (f := fun q => f (g q)) (g := fun q => f (update g p x q)) (p := p)
    fun q hq => by rw [update_of_ne hq]
  rwa [update_self] at h

end Upd
