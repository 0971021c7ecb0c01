import Mathlib.Data.Set.Card
import Mathlib.Tactic
import Xv6Riscv.Lib.Update

/-!
Counting references.

A table of optional references has, for each thing, a number of places that refer to it. A store
into one place changes the count of what it referred to before and of what it refers to afterwards.

* `one`, `tally`: the count of one place, and of a table.
* `tally_update`: the count after a store, and `sum_update`, a sum after a store.
-/

namespace Tally

open Function (update)
open Finset

variable {ι β : Type*} [Fintype ι] [DecidableEq β]

/-- The count of one place. -/
def one (v : Option β) : β → ℤ := fun b => if v = some b then 1 else 0

/-- How many places of the table refer to each thing. -/
def tally (f : ι → Option β) : β → ℤ := ∑ i, one (f i)

@[simp] lemma one_none : one (none : Option β) = 0 := by
  funext b
  exact if_neg (by simp)

@[simp] lemma one_some (b : β) : one (some b) = Pi.single b 1 := by
  funext c
  rw [one, Pi.single_apply]
  by_cases h : c = b
  · simp [h]
  · simp [h, Ne.symm h]

variable {b : β}

lemma one_of_ne {v : Option β} (h : v ≠ some b) : one v b = 0 := if_neg h

lemma one_nonneg (v : Option β) (b : β) : 0 ≤ one v b := by
  rw [one]
  split_ifs <;> decide

lemma single_nonneg (b c : β) : 0 ≤ (Pi.single b 1 : β → ℤ) c :=
  (Pi.single_nonneg.mpr zero_le_one : (0 : β → ℤ) ≤ Pi.single b 1) c

lemma tally_apply (f : ι → Option β) (b : β) : tally f b = ∑ i, one (f i) b := by
  rw [tally, Finset.sum_apply]

lemma tally_nonneg (f : ι → Option β) (b : β) : 0 ≤ tally f b := by
  rw [tally_apply]
  exact sum_nonneg fun i _ => one_nonneg (f i) b

lemma one_le_tally {f : ι → Option β} {i : ι} (h : f i = some b) : 1 ≤ tally f b := by
  rw [tally_apply]
  calc (1 : ℤ) = one (f i) b := by rw [h, one_some, Pi.single_eq_same]
    _ ≤ ∑ i, one (f i) b := single_le_sum (fun j _ => one_nonneg (f j) b) (mem_univ i)

lemma exists_of_tally_ne {f : ι → Option β} (h : tally f b ≠ 0) : ∃ i, f i = some b := by
  by_contra hno
  push Not at hno
  refine h ?_
  rw [tally_apply]
  exact sum_eq_zero fun i _ => if_neg (hno i)

@[simp] lemma tally_none : tally (fun _ : ι => (none : Option β)) = 0 := by
  rw [tally]
  simp only [one_none, sum_const_zero]

lemma tally_eq_ncard (f : ι → Option β) (b : β) : tally f b = {i | f i = some b}.ncard := by
  have hset : {i | f i = some b} = (univ.filter fun i => f i = some b : Finset ι) := by
    ext i
    simp
  rw [tally_apply, hset, Set.ncard_coe_finset]
  simp only [one, sum_boole]

variable [DecidableEq ι]

/-- **The count after a store** into one place. -/
theorem tally_update (f : ι → Option β) (i : ι) (v : Option β) :
    tally (update f i v) = tally f - one (f i) + one v :=
  (eq_sub_of_add_eq (Upd.sum one)).trans (add_sub_right_comm ..)

omit [DecidableEq β] in
/-- A sum after a store into one place. -/
theorem sum_update (f : β → ℤ) (v : ι → β) (i : ι) (x : β) :
    ∑ j, f (update v i x j) = ∑ j, f (v j) - f (v i) + f x :=
  (eq_sub_of_add_eq (Upd.sum f)).trans (add_sub_right_comm ..)

end Tally
