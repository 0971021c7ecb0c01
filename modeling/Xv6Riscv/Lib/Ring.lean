import Mathlib.Tactic

/-!
Ring buffers with free-running counters.

The buffer has `N` slots and is used through 32-bit counters that are only ever compared and reduced
modulo `N`; `N` divides `2 ^ 32`, so that the reduction is not disturbed when a counter wraps
around. `queue N data r w` is the sequence of elements from the counter `r` up to the counter `w`.

* `queue_push`, `queue_pop`, `queue_unpush`: one element more at the end, one less at the front, one
  less at the end.
* `queue_split`: a counter in between splits the sequence.
* `Holds.store`, `Holds.push`, `Holds.head`, `Holds.pop`: the same for counters of 16 bits. Their
  values are given by natural numbers that do not wrap around, and the ring holds a list from one of
  them on.
-/

namespace Ring

variable {α : Type*} {N : ℕ} {data : ℕ → α} {r w e : UInt32}

/-- The slot that belongs to a value of a counter. -/
def slot (N : ℕ) (c : UInt32) : ℕ := c.toNat % N

/-- How far the counter `w` is ahead of `r`. -/
def count (r w : UInt32) : ℕ := (w - r).toNat

/-- The `n` elements from the counter `r` on. -/
def window (N : ℕ) (data : ℕ → α) (r : UInt32) (n : ℕ) : List α :=
  (List.range n).map fun i => data (slot N (r + UInt32.ofNat i))

/-- The elements from the counter `r` up to the counter `w`. -/
def queue (N : ℕ) (data : ℕ → α) (r w : UInt32) : List α := window N data r (count r w)

/-! ### Counters -/

@[simp] lemma count_self (r : UInt32) : count r r = 0 := by simp [count]

lemma add_count (r w : UInt32) : r + UInt32.ofNat (count r w) = w := by
  rw [count, UInt32.ofNat_toNat, UInt32.add_comm, UInt32.sub_add_cancel]

lemma count_eq_zero : count r w = 0 ↔ r = w := by
  constructor
  · intro h
    have := add_count r w
    rw [h] at this
    simpa using this
  · rintro rfl
    exact count_self r

variable {n : ℕ}

lemma count_add_nat (h : n < 2 ^ 32) : count r (r + UInt32.ofNat n) = n := by
  rw [count, UInt32.add_comm, UInt32.add_sub_cancel]
  exact UInt32.toNat_ofNat_of_lt' h

lemma count_lt (r w : UInt32) : count r w < 2 ^ 32 := UInt32.toNat_lt _

lemma count_trans (h : count r w + count w e < 2 ^ 32) : count r e = count r w + count w e := by
  have he : r + UInt32.ofNat (count r w + count w e) = e := by
    rw [UInt32.ofNat_add, ← UInt32.add_assoc, add_count, add_count]
  rw [← count_add_nat (r := r) h, he]

lemma count_succ_right (h : count r w + 1 < 2 ^ 32) : count r (w + 1) = count r w + 1 := by
  have hone : count w (w + 1) = 1 := count_add_nat (r := w) (n := 1) (by norm_num)
  rw [count_trans (by rwa [hone]), hone]

lemma count_succ_left (h : r ≠ w) : count r w = count (r + 1) w + 1 := by
  have hpos : count r w ≠ 0 := fun h0 => h (count_eq_zero.mp h0)
  have hlt := count_lt r w
  have hw : (r + 1) + UInt32.ofNat (count r w - 1) = w := by
    rw [UInt32.add_assoc, ← UInt32.ofNat_one, ← UInt32.ofNat_add, Nat.add_sub_of_le (by omega),
      add_count]
  have hcount := count_add_nat (r := r + 1) (n := count r w - 1) (by omega)
  rw [hw] at hcount
  omega

lemma count_pred_right (h : r ≠ w) : count r w = count r (w - 1) + 1 := by
  have hback : w - 1 + 1 = w := UInt32.sub_add_cancel w 1
  have hne : count r (w - 1) + 1 < 2 ^ 32 := by
    by_contra hge
    have hmax : count r (w - 1) = 2 ^ 32 - 1 := by
      have := count_lt r (w - 1)
      omega
    have hw := add_count r (w - 1)
    rw [hmax] at hw
    refine h ?_
    rw [← hback, ← hw, UInt32.add_assoc]
    simp
  have := count_succ_right hne
  rwa [hback] at this

/-! ### Slots -/

lemma slot_add (hN : N ∣ 2 ^ 32) (r : UInt32) (i : ℕ) :
    slot N (r + UInt32.ofNat i) = (r.toNat + i) % N := by
  rw [slot, UInt32.toNat_add, UInt32.toNat_ofNat', Nat.mod_mod_of_dvd _ hN, Nat.add_mod,
    Nat.mod_mod_of_dvd _ hN, ← Nat.add_mod]

/-- Different elements of a full buffer are in different slots. -/
lemma slot_injOn (hN : N ∣ 2 ^ 32) {i j : ℕ} (hi : i < N) (hj : j < N)
    (h : slot N (r + UInt32.ofNat i) = slot N (r + UInt32.ofNat j)) : i = j := by
  rw [slot_add hN, slot_add hN] at h
  have hmod : i ≡ j [MOD N] := Nat.ModEq.add_left_cancel' _ h
  rwa [Nat.ModEq, Nat.mod_eq_of_lt hi, Nat.mod_eq_of_lt hj] at hmod

/-! ### Sequences of elements -/

lemma window_succ (n : ℕ) : window N data r (n + 1) =
    window N data r n ++ [data (slot N (r + UInt32.ofNat n))] := by
  rw [window, window, List.range_succ, List.map_append, List.map_singleton]

lemma window_add (m n : ℕ) : window N data r (m + n) =
    window N data r m ++ window N data (r + UInt32.ofNat m) n := by
  induction n with
  | zero => simp [window]
  | succ n ih =>
    rw [← add_assoc, window_succ, window_succ, ih, List.append_assoc, UInt32.ofNat_add,
      ← UInt32.add_assoc]

lemma window_update (hN : N ∣ 2 ^ 32) {m : ℕ} (hmn : n ≤ m) (hm : m < N) (x : α) :
    window N (Function.update data (slot N (r + UInt32.ofNat m)) x) r n = window N data r n := by
  refine List.map_congr_left fun i hi => Function.update_of_ne (fun h => ?_) _ _
  have hi' := List.mem_range.mp hi
  have := slot_injOn hN (by omega) hm h
  omega

@[simp] lemma length_queue : (queue N data r w).length = count r w := by
  rw [queue, window, List.length_map, List.length_range]

lemma queue_eq_nil : queue N data r w = [] ↔ r = w := by
  rw [← List.length_eq_zero_iff, length_queue, count_eq_zero]

/-- **A counter in between** splits the sequence. -/
lemma queue_split (h : count r w + count w e < 2 ^ 32) :
    queue N data r e = queue N data r w ++ queue N data w e := by
  rw [queue, count_trans h, window_add, add_count]
  rfl

/-- **One element more** at the end. -/
lemma queue_push (hN : N ∣ 2 ^ 32) (h : count r w < N) (hlt : count r w + 1 < 2 ^ 32) (x : α) :
    queue N (Function.update data (slot N w) x) r (w + 1) = queue N data r w ++ [x] := by
  have hw : slot N w = slot N (r + UInt32.ofNat (count r w)) := by rw [add_count]
  rw [queue, count_succ_right hlt, window_succ, ← hw, Function.update_self]
  rw [hw, window_update hN le_rfl h]
  rfl

/-- A store at the counter `e` does not change what is before `w`. -/
lemma queue_update (hN : N ∣ 2 ^ 32) (h : count r w + count w e < N) (hlt : N ≤ 2 ^ 32) (x : α) :
    queue N (Function.update data (slot N e) x) r w = queue N data r w := by
  have he : slot N e = slot N (r + UInt32.ofNat (count r e)) := by rw [add_count]
  have hre : count r e = count r w + count w e := count_trans (by omega)
  rw [queue, he, window_update hN (by omega) (by omega)]
  rfl

/-- **One element less** at the front. -/
lemma queue_pop (h : r ≠ w) : queue N data r w = data (slot N r) :: queue N data (r + 1) w := by
  rw [queue, count_succ_left h, add_comm, window_add]
  simp [window, queue]

/-- **One element less** at the end. -/
lemma queue_unpush (h : r ≠ w) :
    queue N data r w = queue N data r (w - 1) ++ [data (slot N (w - 1))] := by
  rw [queue, count_pred_right h, window_succ, add_count]
  rfl

/-! ### Counters of 16 bits -/

/-- From the position `k` on, the ring holds the list `l`. -/
structure Holds (N : ℕ) (ring : ℕ → α) (k : ℕ) (l : List α) : Prop where
  small : l.length ≤ N
  get : ∀ (i : ℕ) (h : i < l.length), ring ((k + i) % N) = l[i]

section Holds

variable {ring : ℕ → α} {k : ℕ} {l : List α} {x : α}

lemma Holds.nil (N : ℕ) (ring : ℕ → α) (k : ℕ) : Holds N ring k [] := ⟨Nat.zero_le _, nofun⟩

/-- Positions that are less than `N` apart are in different slots. -/
lemma mod_ne {i j : ℕ} (hij : i < j) (hj : j < i + N) : i % N ≠ j % N := by
  intro he
  have hdvd : N ∣ j - i := (Nat.modEq_iff_dvd' hij.le).mp he
  have := Nat.le_of_dvd (by omega) hdvd
  omega

lemma Holds.store (h : Holds N ring k l) (hl : l.length < N) (x : α) :
    Holds N (Function.update ring ((k + l.length) % N) x) k l := by
  refine ⟨h.small, fun i hi => ?_⟩
  rw [Function.update_of_ne (mod_ne (by omega) (by omega)), h.get i hi]

lemma Holds.push (h : Holds N ring k l) (hl : l.length < N) (hx : ring ((k + l.length) % N) = x) :
    Holds N ring k (l ++ [x]) := by
  refine ⟨by rw [List.length_append, List.length_singleton]; omega, fun i hi => ?_⟩
  rw [List.length_append, List.length_singleton] at hi
  rcases Nat.lt_succ_iff_lt_or_eq.mp hi with hlt | rfl
  · rw [h.get i hlt, List.getElem_append_left hlt]
  · rw [hx, List.getElem_append_right le_rfl]
    simp

lemma Holds.head (h : Holds N ring k (x :: l)) : ring (k % N) = x := h.get 0 (by simp)

lemma Holds.pop (h : Holds N ring k (x :: l)) : Holds N ring (k + 1) l := by
  refine ⟨(Nat.le_succ _).trans h.small, fun i hi => ?_⟩
  have hshift : k + 1 + i = k + (i + 1) := by omega
  rw [hshift]
  exact h.get (i + 1) (by simpa using hi)

lemma ofNat_mod (hN : N ∣ 2 ^ 16) (k : ℕ) : (UInt16.ofNat k).toNat % N = k % N := by
  rw [UInt16.toNat_ofNat', Nat.mod_mod_of_dvd _ hN]

lemma ofNat_add_ne (hn : n < 2 ^ 16) : UInt16.ofNat k ≠ UInt16.ofNat (k + n) ↔ n ≠ 0 := by
  rw [not_iff_not, ← UInt16.toNat_inj, UInt16.toNat_ofNat', UInt16.toNat_ofNat']
  omega

end Holds

end Ring
