import Mathlib.Data.List.GetD
import Mathlib.Tactic

/-!
Stores of byte strings into a memory.

A record that is filled field by field is a list of stores. Its bytes then depend on what the memory
held before exactly at the addresses no store reaches: `patch_agree`.
-/

namespace Stores

variable {m m' : ℕ → UInt8} {j : ℕ}

/-- The bytes `bs` stored from the address `off` on. -/
def store (m : ℕ → UInt8) (off : ℕ) (bs : List UInt8) : ℕ → UInt8 := fun j =>
  if off ≤ j then bs.getD (j - off) (m j) else m j

/-- The address `j` is one of the `n` addresses from `off` on. -/
def Within (off n j : ℕ) : Prop := off ≤ j ∧ j < off + n

instance (off n j : ℕ) : Decidable (Within off n j) := by rw [Within]; infer_instance

lemma store_of_within {off : ℕ} {bs : List UInt8} (h : Within off bs.length j) :
    store m off bs j = store m' off bs j := by
  have hj : j - off < bs.length := by
    obtain ⟨h1, h2⟩ := h
    omega
  rw [store, store, if_pos h.1, if_pos h.1, List.getD_eq_getElem _ _ hj,
    List.getD_eq_getElem _ _ hj]

lemma store_of_not_within {off : ℕ} {bs : List UInt8} (h : ¬ Within off bs.length j) :
    store m off bs j = m j := by
  rw [store]
  split_ifs with hoff
  · have hj : bs.length ≤ j - off := by
      by_contra hlt
      exact h ⟨hoff, by omega⟩
    rw [List.getD_eq_default _ _ hj]
  · rfl

/-- A sequence of stores. -/
def patch (m : ℕ → UInt8) (ws : List (ℕ × List UInt8)) : ℕ → UInt8 :=
  ws.foldl (fun m w => store m w.1 w.2) m

/-- One of the stores reaches the address `j`. -/
def Covers (ws : List (ℕ × List UInt8)) (j : ℕ) : Prop := ∃ w ∈ ws, Within w.1 w.2.length j

variable {ws : List (ℕ × List UInt8)}

lemma patch_of_not_covers (h : ¬ Covers ws j) : patch m ws j = m j := by
  induction ws generalizing m with
  | nil => rfl
  | cons w ws ih =>
    have hw : ¬ Within w.1 w.2.length j := fun hw => h ⟨w, List.mem_cons_self, hw⟩
    have hws : ¬ Covers ws j := fun ⟨v, hv, hj⟩ => h ⟨v, List.mem_cons_of_mem _ hv, hj⟩
    rw [patch, List.foldl_cons]
    exact (ih hws).trans (store_of_not_within hw)

/-- The last store that reaches an address decides what it holds. -/
lemma patch_of_covers (h : Covers ws j) : patch m ws j = patch m' ws j := by
  induction ws generalizing m m' with
  | nil =>
    obtain ⟨w, hw, -⟩ := h
    exact absurd hw List.not_mem_nil
  | cons w ws ih =>
    rw [patch, patch, List.foldl_cons, List.foldl_cons]
    by_cases hws : Covers ws j
    · exact ih hws
    · have hw : Within w.1 w.2.length j := by
        obtain ⟨v, hv, hj⟩ := h
        rcases List.mem_cons.mp hv with rfl | hv
        · exact hj
        · exact absurd ⟨v, hv, hj⟩ hws
      change patch _ ws j = patch _ ws j
      rw [patch_of_not_covers hws, patch_of_not_covers hws]
      exact store_of_within hw

/-- The `n` bytes from address `0` on. -/
def bytes (m : ℕ → UInt8) (n : ℕ) : List UInt8 := (List.range n).map m

lemma bytes_eq_bytes {n : ℕ} : bytes m n = bytes m' n ↔ ∀ j < n, m j = m' j := by
  rw [bytes, bytes, List.map_inj_left]
  simp only [List.mem_range]

/-- **After the same stores** two memories agree exactly if they agreed at the addresses that no
store reaches. -/
theorem patch_agree {n : ℕ} :
    bytes (patch m ws) n = bytes (patch m' ws) n ↔ ∀ j < n, ¬ Covers ws j → m j = m' j := by
  rw [bytes_eq_bytes]
  refine forall₂_congr fun j _ => ?_
  by_cases h : Covers ws j
  · exact iff_of_true (patch_of_covers h) fun hn => absurd h hn
  · rw [patch_of_not_covers h, patch_of_not_covers h]
    simp only [h, not_false_eq_true, forall_const]

end Stores
