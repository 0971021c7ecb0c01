import Mathlib.Tactic

/-!
Functions that the kernel and the user library each have a copy of.

`memmove` (`kernel/string.c` and `user/ulib.c`) copies byte by byte in place, upwards or downwards;
the two copies choose the direction by different tests. Neither range wraps around, so an address is
a natural number: `s + n` can only be the end of the address space itself, and then the test for it
is not made, since `d` is not above `s`.

* `memmove_snapshot`: whatever the overlap, both copy what the source held before the call.
* `printint_canonical`: `printint` (`kernel/printk.c` and `user/printf.c`) prints the digits of
  every 64-bit value, in at most twenty characters.
-/

namespace Xv6Riscv

namespace Memmove

open Function (update update_apply)

abbrev Bytes := ℕ → UInt8

/-- `while (n-- > 0) *d++ = *s++`. -/
def copyUp : ℕ → ℕ → ℕ → Bytes → Bytes
  | 0, _, _, m => m
  | n + 1, d, s, m => copyUp n (d + 1) (s + 1) (update m d (m s))

/-- `while (n-- > 0) *--d = *--s`. -/
def copyDown : ℕ → ℕ → ℕ → Bytes → Bytes
  | 0, _, _, m => m
  | n + 1, d, s, m => copyDown n (d - 1) (s - 1) (update m (d - 1) (m (s - 1)))

/-- `memmove` of the kernel. -/
def kernel (m : Bytes) (d s : ℕ) (n : UInt32) : Bytes :=
  if n = 0 then m
  else if s < d ∧ s + n.toNat > d then copyDown n.toNat (d + n.toNat) (s + n.toNat) m
  else copyUp n.toNat d s m

/-- `memmove` of the user library. Nothing is copied if `n` is negative. -/
def user (m : Bytes) (d s : ℕ) (n : Int32) : Bytes :=
  if s > d then copyUp n.toNatClampNeg d s m
  else copyDown n.toNatClampNeg (d + n.toNatClampNeg) (s + n.toNatClampNeg) m

/-- The memory with the `n` bytes from `d` on as they are from `s` on. -/
def moved (m : Bytes) (d s n : ℕ) : Bytes := fun a =>
  if d ≤ a ∧ a < d + n then m (s + (a - d)) else m a

variable {m : Bytes} {d s : ℕ}

lemma moved_update {n : ℕ} (h : d ≤ s ∨ s + (n + 1) ≤ d) :
    moved (update m d (m s)) (d + 1) (s + 1) n = moved m d s (n + 1) := by
  funext a
  simp only [moved, update_apply]
  split_ifs <;> first | omega | (congr 1 <;> omega)

lemma moved_update_last {n : ℕ} (h : s ≤ d) :
    moved (update m (d + n) (m (s + n))) d s n = moved m d s (n + 1) := by
  funext a
  simp only [moved, update_apply]
  split_ifs <;> first | omega | (congr 1 <;> omega)

lemma copyUp_eq {n : ℕ} (h : d ≤ s ∨ s + n ≤ d) : copyUp n d s m = moved m d s n := by
  induction n generalizing d s m with
  | zero =>
    funext a
    exact (if_neg (by omega)).symm
  | succ n ih => rw [copyUp, ih (by omega), moved_update h]

lemma copyDown_eq {n : ℕ} (h : s ≤ d) : copyDown n (d + n) (s + n) m = moved m d s n := by
  induction n generalizing m with
  | zero =>
    funext a
    exact (if_neg (by omega)).symm
  | succ n ih => exact ih.trans (moved_update_last h)

lemma kernel_eq (m : Bytes) (d s : ℕ) (n : UInt32) : kernel m d s n = moved m d s n.toNat := by
  rw [kernel]
  split_ifs with h0 h
  · subst h0
    exact copyUp_eq (n := 0) (by omega)
  · exact copyDown_eq h.1.le
  · exact copyUp_eq (by omega)

lemma user_eq (m : Bytes) (d s : ℕ) (n : Int32) : user m d s n = moved m d s n.toNatClampNeg := by
  rw [user]
  split_ifs with h
  · exact copyUp_eq (.inl h.le)
  · exact copyDown_eq (not_lt.mp h)

/-- **`memmove` is a snapshot copy**, in the kernel and in the user library: the destination holds
what the source held before the call and no other byte changes. So both agree on every length. -/
theorem memmove_snapshot (m : Bytes) (d s : ℕ) :
    (∀ n : UInt32, kernel m d s n = moved m d s n.toNat) ∧
    (∀ n : Int32, user m d s n = moved m d s n.toNatClampNeg) ∧
    ∀ n : Int32, 0 ≤ n → kernel m d s n.toUInt32 = user m d s n := by
  refine ⟨kernel_eq m d s, user_eq m d s, fun n hn => ?_⟩
  rw [kernel_eq, user_eq, Int32.toNat_toUInt32_of_le hn]

/-- Four bytes are moved up by two, over their own end. -/
theorem memmove_snapshot_overlap : kernel UInt8.ofNat 6 4 4 = user UInt8.ofNat 6 4 4 :=
  (memmove_snapshot UInt8.ofNat 6 4).2.2 4 (by decide)

end Memmove

/-! ### Integers -/

/-- The bases that numbers are printed in. -/
inductive Base
  | dec
  | hex
  deriving DecidableEq

def Base.val : Base → ℕ
  | .dec => 10
  | .hex => 16

lemma Base.one_lt (b : Base) : 1 < b.val := by cases b <;> decide

lemma Base.ten_le (b : Base) : 10 ≤ b.val := by cases b <;> decide

lemma Base.le_hex (b : Base) : b.val ≤ 16 := by cases b <;> decide

/-- `do buf[i++] = digits[x % base]; while ((x /= base) != 0)`, from `buf[i]` on. -/
def printintLoop (digits : List Char) (base : Base) (x : ℕ) : List Char :=
  digits.getD (x % base.val) '\x00' ::
    if 0 < x / base.val then printintLoop digits base (x / base.val) else []
termination_by x
decreasing_by exact Nat.div_lt_self (Nat.pos_of_div_pos ‹_›) base.one_lt

/-- The characters that `printint` leaves in `buf`. The kernel has `sign` for `neg`. -/
def printintBuf (digits : List Char) (xx : Int64) (base : Base) (sgn : Bool) : List Char :=
  let neg : Bool := sgn ∧ xx < 0
  let x : UInt64 := if neg then (-xx).toUInt64 else xx.toUInt64
  printintLoop digits base x.toNat ++ if neg then ['-'] else []

/-- `while (--i >= 0) putc(buf[i])`. -/
def printint (digits : List Char) (xx : Int64) (base : Base) (sgn : Bool) : List Char :=
  (printintBuf digits xx base sgn).reverse

def Printk.digits : List Char := "0123456789abcdef".toList

def Printf.digits : List Char := "0123456789ABCDEF".toList

/-- The value that is printed: signed if the flag is set. -/
def printed (xx : Int64) (sgn : Bool) : ℤ := if sgn then xx.toInt else xx.toUInt64.toNat

/-- The representation of a number without leading zeros. -/
def canonical (base : Base) (v : ℤ) : List Char :=
  if v < 0 then '-' :: base.val.toDigits v.natAbs else base.val.toDigits v.natAbs

lemma printintLoop_reverse {digits : List Char} {f : Char → Char}
    (hd : ∀ i < 16, digits.getD i '\x00' = f i.digitChar) (base : Base) (x : ℕ) :
    (printintLoop digits base x).reverse = (base.val.toDigits x).map f := by
  induction x using Nat.strong_induction_on with
  | _ x ih =>
    rw [printintLoop, hd _ ((Nat.mod_lt _ base.one_lt.le).trans_le base.le_hex), List.reverse_cons]
    split_ifs with h
    · have hlt := Nat.div_lt_self (Nat.pos_of_div_pos h) base.one_lt
      rw [ih _ hlt, Nat.toDigits_of_base_le base.one_lt ((Nat.div_pos_iff.mp h).2), List.map_append]
      rfl
    · have hlt : x < base.val := by
        by_contra hle
        exact h (Nat.div_pos (not_lt.mp hle) base.one_lt.le)
      rw [Nat.toDigits_of_lt_base hlt, Nat.mod_eq_of_lt hlt]
      rfl

lemma toNat_neg_of_neg {xx : Int64} (h : xx.toInt < 0) :
    (-xx).toUInt64.toNat = xx.toInt.natAbs := by
  have hx : xx.toInt = xx.toUInt64.toBitVec.toInt := rfl
  have hlt := xx.toUInt64.toNat_lt
  rw [Int64.toUInt64_neg, UInt64.toNat_neg, UInt64.size]
  rw [hx, BitVec.toInt_eq_toNat_cond, UInt64.toNat_toBitVec] at h ⊢
  split_ifs at h ⊢ <;> omega

lemma toNat_of_nonneg {xx : Int64} (h : 0 ≤ xx.toInt) : xx.toUInt64.toNat = xx.toInt.natAbs := by
  rw [Int64.toNat_toUInt64_of_le (Int64.le_iff_toInt_le.mpr h), ← Int64.toNat_toInt]
  omega

variable {digits : List Char} {f : Char → Char} (xx : Int64) (base : Base) (sgn : Bool)

lemma printint_eq (hd : ∀ i < 16, digits.getD i '\x00' = f i.digitChar) (hf : f '-' = '-') :
    printint digits xx base sgn = (canonical base (printed xx sgn)).map f := by
  have hneg : (sgn ∧ xx < 0) ↔ printed xx sgn < 0 := by
    rw [printed, Int64.lt_iff_toInt_lt]
    cases sgn <;> simp
  rw [printint, printintBuf, canonical]
  by_cases h : printed xx sgn < 0
  · have hs := hneg.mpr h
    rw [decide_eq_true hs, printed, if_pos hs.1]
    rw [printed, if_pos hs.1] at h
    rw [if_pos rfl, if_pos rfl, if_pos h, toNat_neg_of_neg h, List.reverse_append,
      printintLoop_reverse hd, List.map_cons, hf]
    rfl
  · have hx : xx.toUInt64.toNat = (printed xx sgn).natAbs := by
      rw [printed] at h ⊢
      split_ifs at h ⊢
      · exact toNat_of_nonneg (not_lt.mp h)
      · rfl
    rw [decide_eq_false (hneg.not.mpr h), if_neg h, ← hx, ← printintLoop_reverse hd]
    simp

lemma length_canonical : (canonical base (printed xx sgn)).length ≤ 20 := by
  have hlt := xx.toUInt64.toNat_lt
  have hmin := Int64.le_toInt xx
  have hmax := Int64.toInt_lt xx
  have hdigits : ∀ {k n}, 0 < k → n < 10 ^ k → (base.val.toDigits n).length ≤ k := fun hk hn =>
    (Nat.length_toDigits_le_iff base.one_lt hk).mpr
      (hn.trans_le (Nat.pow_le_pow_left base.ten_le _))
  rw [canonical]
  split_ifs with h
  · refine Nat.succ_le_succ (hdigits (by decide) ?_)
    rw [printed] at h ⊢
    split_ifs at h ⊢ <;> omega
  · refine hdigits (by decide) ?_
    rw [printed]
    split_ifs <;> omega

/-- **`printint` is exact and stays in its buffer**, in the kernel and, with capital letters, in the
user library. -/
theorem printint_canonical :
    printint Printk.digits xx base sgn = canonical base (printed xx sgn) ∧
    printint Printf.digits xx base sgn = (canonical base (printed xx sgn)).map Char.toUpper ∧
    (printintBuf Printk.digits xx base sgn).length ≤ 20 ∧
    (printintBuf Printf.digits xx base sgn).length ≤ 20 := by
  have hk : printint Printk.digits xx base sgn = canonical base (printed xx sgn) :=
    (printint_eq xx base sgn (f := id) (by decide) rfl).trans (List.map_id _)
  have hu : printint Printf.digits xx base sgn =
      (canonical base (printed xx sgn)).map Char.toUpper :=
    printint_eq xx base sgn (by decide) rfl
  have hlen := length_canonical xx base sgn
  refine ⟨hk, hu, ?_, ?_⟩
  · rwa [← List.length_reverse, ← printint, hk]
  · rwa [← List.length_reverse, ← printint, hu, List.length_map]

end Xv6Riscv
