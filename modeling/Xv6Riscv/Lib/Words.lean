import Mathlib.Tactic

/-!
32-bit words in arrays of bytes, least significant byte first.

`word b i` is the word at byte `4 * i` of the array `b`, `setWord b i w` the array with that word
replaced. The two lemmas `word_setWord_self` and `word_setWord_of_ne` are all that is used of the
encoding.
-/

namespace Words

variable {n : ℕ}

/-- A byte of an array, `0` past its end. -/
def byte (b : Fin n → UInt8) (j : ℕ) : ℕ := if h : j < n then (b ⟨j, h⟩).toNat else 0

lemma byte_lt (b : Fin n → UInt8) (j : ℕ) : byte b j < 256 := by
  rw [byte]
  split_ifs with h
  · exact (b ⟨j, h⟩).toNat_lt
  · decide

def four (b : Fin n → UInt8) (j : ℕ) : ℕ :=
  byte b j + 256 * (byte b (j + 1) + 256 * (byte b (j + 2) + 256 * byte b (j + 3)))

lemma four_lt (b : Fin n → UInt8) (j : ℕ) : four b j < 2 ^ 32 := by
  have h0 := byte_lt b j
  have h1 := byte_lt b (j + 1)
  have h2 := byte_lt b (j + 2)
  have h3 := byte_lt b (j + 3)
  rw [four]
  omega

/-- The word at byte `4 * i`. -/
def word (b : Fin n → UInt8) (i : ℕ) : UInt32 := UInt32.ofNatLT (four b (4 * i)) (four_lt b _)

/-- The array with the word at byte `4 * i` replaced. -/
def setWord (b : Fin n → UInt8) (i : ℕ) (w : UInt32) : Fin n → UInt8 := fun j =>
  if j.val / 4 = i then UInt8.ofNat (w.toNat / 256 ^ (j.val % 4)) else b j

variable {b : Fin n → UInt8} {i j : ℕ} {w : UInt32}

lemma byte_setWord_of_ne (h : j / 4 ≠ i) : byte (setWord b i w) j = byte b j := by
  rw [byte, byte]
  split_ifs
  · rw [setWord, if_neg h]
  · rfl

lemma byte_setWord_self (hn : 4 * i + 3 < n) {r : ℕ} (hr : r < 4) :
    byte (setWord b i w) (4 * i + r) = w.toNat / 256 ^ r % 256 := by
  have hdiv : (4 * i + r) / 4 = i := by omega
  have hmod : (4 * i + r) % 4 = r := by omega
  rw [byte, dif_pos (by omega), setWord, if_pos hdiv, hmod, UInt8.toNat_ofNat']

@[simp] lemma word_setWord_self (hn : 4 * i + 3 < n) : word (setWord b i w) i = w := by
  have h0 : byte (setWord b i w) (4 * i) = w.toNat / 256 ^ 0 % 256 :=
    byte_setWord_self hn (r := 0) (by omega)
  have hw := w.toNat_lt
  apply UInt32.toNat_inj.mp
  rw [word, UInt32.toNat_ofNatLT, four, h0, byte_setWord_self hn (by omega),
    byte_setWord_self hn (by omega), byte_setWord_self hn (by omega)]
  norm_num
  omega

lemma word_setWord_of_ne (h : i ≠ j) : word (setWord b i w) j = word b j := by
  apply UInt32.toNat_inj.mp
  rw [word, word, UInt32.toNat_ofNatLT, UInt32.toNat_ofNatLT, four, four,
    byte_setWord_of_ne (by omega), byte_setWord_of_ne (by omega), byte_setWord_of_ne (by omega),
    byte_setWord_of_ne (by omega)]

end Words
