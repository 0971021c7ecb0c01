import Mathlib.Tactic

/-!
Cyclic order on `Fin n`, and scans for the first best element.

A scan that starts at a cursor `s` visits `place s 0, place s 1, …, place s (n-1)` and keeps the
first element of largest key. The facts needed are about two things.

* **Positions.** `dist s i` is the number of places from `s` forward to `i`; `place_dist` and
  `dist_place` make the two inverse to one another. `dist_next_lt_dist_next` says that a cursor
  moved behind an element outside the open arc `Between p q` meets `p` before `q`.
* **Scans.** `BestUpTo s m` is the loop invariant after `m` places, with one lemma for each
  branch of the loop body (`BestUpTo.skip`, `BestUpTo.take`); `BestUpTo.firstBest` reads off the
  finished scan.
* **Repeated scans.** `FirstBest.dist_next_lt_dist` is the measure by which an element that is
  never beaten comes to its turn, `FirstBest.rotation` the invariant by which two equally good
  elements take turns.
-/

namespace Cyclic

variable {n : ℕ} [NeZero n]

/-! ### Places and distances -/

/-- The element `k` places after `s`. -/
def place (s : Fin n) (k : ℕ) : Fin n := ⟨(s + k) % n, Nat.mod_lt _ (NeZero.pos n)⟩

/-- The element after `i`. -/
def next (i : Fin n) : Fin n := place i 1

/-- The number of places from `s` forward to `i`. -/
def dist (s i : Fin n) : ℕ := if s.val ≤ i.val then i.val - s.val else n + i.val - s.val

omit [NeZero n] in
lemma dist_lt (s i : Fin n) : dist s i < n := by
  have := s.isLt
  have := i.isLt
  rw [dist]
  split <;> omega

omit [NeZero n] in
@[simp] lemma dist_self (s : Fin n) : dist s s = 0 := by simp [dist]

lemma place_val (s : Fin n) {k : ℕ} (hk : k < n) :
    (place s k).val = if s.val + k < n then s.val + k else s.val + k - n := by
  have := s.isLt
  simp only [place]
  split
  · exact Nat.mod_eq_of_lt ‹_›
  · rw [Nat.mod_eq_sub_mod (by omega), Nat.mod_eq_of_lt (by omega)]

lemma next_val (i : Fin n) : (next i).val = if i.val + 1 < n then i.val + 1 else 0 := by
  have hi := i.isLt
  by_cases hn : n = 1
  · have : (next i).val < n := (next i).isLt
    split <;> omega
  · rw [next, place_val i (by omega)]
    split <;> omega

@[simp] lemma place_dist (s i : Fin n) : place s (dist s i) = i := by
  have := s.isLt
  have := i.isLt
  rw [Fin.ext_iff, place_val s (dist_lt s i)]
  rw [dist]
  split <;> split <;> omega

@[simp] lemma dist_place (s : Fin n) {k : ℕ} (hk : k < n) : dist s (place s k) = k := by
  have := s.isLt
  have h := place_val s hk
  rw [dist]
  split at h <;> split <;> omega

variable {i j p q r : Fin n}

omit [NeZero n] in
lemma dist_inj {s : Fin n} (h : dist s i = dist s j) : i = j := by
  have := s.isLt
  have := i.isLt
  have := j.isLt
  rw [Fin.ext_iff]
  rw [dist, dist] at h
  split at h <;> split at h <;> omega

/-! ### Moving a cursor -/

/-- `r` lies strictly between `p` and `q`, going forward from `p`. -/
def Between (p q r : Fin n) : Prop := 0 < dist p r ∧ dist p r < dist p q

instance (p q r : Fin n) : Decidable (Between p q r) :=
  inferInstanceAs (Decidable (_ ∧ _))

/-- A cursor moved behind an element `j` that the scan meets before `i` stands at the distance
from `j` to `i`, less one. -/
lemma dist_next (h : j ≠ i) : dist (next j) i + 1 = dist j i := by
  have := j.isLt
  have := i.isLt
  have hne : j.val ≠ i.val := fun hv => h (Fin.ext hv)
  have hj := next_val j
  rw [dist, dist]
  split at hj <;> split <;> split <;> omega

omit [NeZero n] in
lemma dist_add {s : Fin n} (h : dist s j ≤ dist s i) : dist s j + dist j i = dist s i := by
  have := s.isLt
  have := i.isLt
  have := j.isLt
  rw [dist, dist] at h
  rw [dist, dist, dist]
  split_ifs at h ⊢ <;> omega

/-- **A cursor moved behind an element outside the open arc from `p` to `q`, and other than `p`,
meets `p` before `q`.** -/
lemma dist_next_lt_dist_next (hpq : p ≠ q) (hr : r ≠ p) (h : ¬ Between p q r) :
    dist (next r) p < dist (next r) q := by
  have := p.isLt
  have := q.isLt
  have := r.isLt
  have h1 : p.val ≠ q.val := fun hv => hpq (Fin.ext hv)
  have h2 : r.val ≠ p.val := fun hv => hr (Fin.ext hv)
  have hn := next_val r
  rw [Between, dist, dist] at h
  rw [dist, dist]
  split at hn <;> split at h <;> split at h <;> split <;> split <;> omega

omit [NeZero n] in
/-- From a cursor that meets `r` before `p` and `p` before `q`, the element `r` is not between
`p` and `q`. -/
lemma not_between_of_dist_lt {c : Fin n} (h : dist c r < dist c p) (h' : dist c p < dist c q) :
    ¬ Between p q r := by
  have := c.isLt
  have := p.isLt
  have := q.isLt
  have := r.isLt
  intro ⟨h1, h2⟩
  simp only [dist] at h h' h1 h2
  split_ifs at h h' h1 h2 <;> omega

/-! ### Scans -/

section Scan

variable {κ : Type*} [LinearOrder κ] (s : Fin n) (ok : Fin n → Prop) (key : Fin n → κ)

/-- `b` is the first element of largest key, in the order of a scan from `s`, among the
elements satisfying `ok`. -/
def FirstBest (b : Fin n) : Prop :=
  ok b ∧ ∀ i, ok i → key i < key b ∨ (key i = key b ∧ dist s b ≤ dist s i)

/-- The invariant of the scan after `m` places, `best` being the candidate so far. -/
def BestUpTo (m : ℕ) : Option (Fin n) → Prop
  | none => ∀ k < m, ¬ ok (place s k)
  | some b => ok b ∧ dist s b < m ∧ ∀ k < m, ok (place s k) →
      key (place s k) < key b ∨ (key (place s k) = key b ∧ dist s b ≤ k)

variable {s ok key}

lemma bestUpTo_zero : BestUpTo s ok key 0 none := fun _ hk => absurd hk (Nat.not_lt_zero _)

variable {best : Option (Fin n)}

/-- The branch of the loop body that keeps the candidate. -/
lemma BestUpTo.skip {m : ℕ} (h : BestUpTo s ok key m best)
    (hm : ok (place s m) → ∃ b, best = some b ∧ key (place s m) ≤ key b) :
    BestUpTo s ok key (m + 1) best := by
  cases best with
  | none =>
    intro k hk hok
    rcases Nat.lt_succ_iff_lt_or_eq.mp hk with hk | rfl
    · exact h k hk hok
    · obtain ⟨b, hb, _⟩ := hm hok
      cases hb
  | some b =>
    refine ⟨h.1, Nat.lt_succ_of_lt h.2.1, fun k hk hok => ?_⟩
    rcases Nat.lt_succ_iff_lt_or_eq.mp hk with hk | rfl
    · exact h.2.2 k hk hok
    · obtain ⟨b', hb', hle⟩ := hm hok
      cases hb'
      rcases hle.lt_or_eq with hlt | heq
      · exact .inl hlt
      · exact .inr ⟨heq, h.2.1.le⟩

/-- The branch of the loop body that replaces the candidate. -/
lemma BestUpTo.take {m : ℕ} (h : BestUpTo s ok key m best) (hmn : m < n) (hok : ok (place s m))
    (hm : ∀ b, best = some b → key b < key (place s m)) :
    BestUpTo s ok key (m + 1) (some (place s m)) := by
  refine ⟨hok, by rw [dist_place s hmn]; omega, fun k hk hk' => ?_⟩
  rcases Nat.lt_succ_iff_lt_or_eq.mp hk with hk | rfl
  · cases best with
    | none => exact absurd hk' (h k hk)
    | some b =>
      have hb := hm b rfl
      rcases h.2.2 k hk hk' with hlt | ⟨heq, _⟩
      · exact .inl (hlt.trans hb)
      · exact .inl (heq ▸ hb)
  · exact .inr ⟨rfl, by rw [dist_place s hmn]⟩

/-- **The finished scan** has found nothing only if there is nothing to find. -/
theorem BestUpTo.none_iff (h : BestUpTo s ok key n best) : best = none ↔ ∀ i, ¬ ok i := by
  constructor
  · rintro rfl i hi
    have := h (dist s i) (dist_lt s i)
    rw [place_dist] at this
    exact this hi
  · intro hno
    cases best with
    | none => rfl
    | some b => exact absurd h.1 (hno b)

variable {b : Fin n}

/-- **The finished scan** has found the first best element. -/
theorem BestUpTo.firstBest (h : BestUpTo s ok key n (some b)) : FirstBest s ok key b := by
  refine ⟨h.1, fun i hi => ?_⟩
  have := h.2.2 (dist s i) (dist_lt s i)
  rw [place_dist] at this
  exact this hi

/-! ### Repeated scans

A selector that scans from its cursor, returns the first best element and puts the cursor behind
it. -/

omit [NeZero n] in
lemma FirstBest.dist_le (h : FirstBest s ok key b) (hi : ok i) (hkey : key b ≤ key i) :
    dist s b ≤ dist s i := by
  rcases h.2 i hi with hlt | ⟨_, hle⟩
  · exact absurd hlt (not_lt.mpr hkey)
  · exact hle

/-- **Approach**: an element passed over in favour of one no better is met sooner by the next
scan. -/
lemma FirstBest.dist_next_lt_dist (h : FirstBest s ok key b) (hi : ok i) (hne : b ≠ i)
    (hkey : key b ≤ key i) : dist (next b) i < dist b i ∧ dist b i ≤ dist s i := by
  have h1 := dist_next hne
  have h2 := dist_add (h.dist_le hi hkey)
  omega

/-- **Rotation, one scan**: while `p` waits and is met before `q`, it stays so, unless an
element between them, going forward from `p`, is better than `p`. -/
lemma FirstBest.rotation (h : FirstBest s ok key r) (hp : ok p) (hr : r ≠ p)
    (hpq : dist s p < dist s q) (hcond : ∀ i, Between p q i → ok i → key i ≤ key p) :
    dist (next r) p < dist (next r) q := by
  have hne : p ≠ q := fun he => by rw [he] at hpq; exact lt_irrefl _ hpq
  refine dist_next_lt_dist_next hne hr fun hbet => ?_
  -- an element of the arc that is no better than `p` would be met after `p`
  have hle : dist s r ≤ dist s p := h.dist_le hp (hcond r hbet h.1)
  have hlt : dist s r < dist s p := lt_of_le_of_ne hle fun he => hr (dist_inj he)
  exact not_between_of_dist_lt hlt hpq hbet

omit [NeZero n] in
/-- An element met after an equally good one is not returned. -/
lemma FirstBest.ne_of_dist_lt (h : FirstBest s ok key b) (hp : ok p) (hkey : key q ≤ key p)
    (hpq : dist s p < dist s q) : b ≠ q := by
  rintro rfl
  exact absurd (h.dist_le hp hkey) (not_le.mpr hpq)

/-- Behind `q` itself every other element is met before `q`. -/
lemma dist_next_self_lt (h : p ≠ q) : dist (next q) p < dist (next q) q :=
  dist_next_lt_dist_next h h.symm fun hbet => lt_irrefl _ hbet.2

end Scan

end Cyclic
