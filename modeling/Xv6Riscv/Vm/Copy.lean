import Mathlib.Data.List.TakeWhile
import Xv6Riscv.Vm.Fork

/-!
Copies between the kernel and user memory (`vm.c`).

A page below the size of a process that is not mapped will be mapped, filled with zeros, when it is
first used. So the user sees the page that is mapped, or a zero page if there is none below the
size.

* `user_copies`: the copies are exact.
-/

namespace Xv6Riscv

open Function (update update_of_ne update_self)
open Wp

/-! ### Bytes -/

def byteOf (page : Fin 512 → ℕ) (k : ℕ) : ℕ :=
  page (wordNo (k / 8)) / 256 ^ (k % 8) % 256

def putByte (page : Fin 512 → ℕ) (k b : ℕ) : Fin 512 → ℕ :=
  update page (wordNo (k / 8))
    (page (wordNo (k / 8)) - byteOf page k * 256 ^ (k % 8) + b * 256 ^ (k % 8))

/-- Bytes are put into a page from an offset on. -/
def putBytes (page : Fin 512 → ℕ) (off : ℕ) : List ℕ → Fin 512 → ℕ
  | [] => page
  | b :: bytes => putBytes (putByte page off b) (off + 1) bytes

def getBytes (page : Fin 512 → ℕ) (off n : ℕ) : List ℕ :=
  (List.range n).map fun k => byteOf page (off + k)

/-- `memmove` into a page. -/
def writeBytes (x off : ℕ) (bytes : List ℕ) : VmM Unit :=
  modify fun m => m.setPage x (putBytes (m.page x) off bytes)

/-- `memmove` from a page. -/
def readBytes (x off n : ℕ) : VmM (List ℕ) := do
  let m ← get
  pure (getBytes (m.page x) off n)

variable {b k off n len va : ℕ}

lemma setByte_byte (w : ℕ) (hb : b < 256) (i j : ℕ) :
    (w - w / 256 ^ i % 256 * 256 ^ i + b * 256 ^ i) / 256 ^ j % 256 =
      if j = i then b else w / 256 ^ j % 256 := by
  obtain ⟨q, l, hl, rfl⟩ : ∃ q l, l < 256 ^ i ∧ w = l + 256 ^ i * q :=
    ⟨w / 256 ^ i, w % 256 ^ i, Nat.mod_lt _ (by positivity), (Nat.mod_add_div _ _).symm⟩
  have hdiv : ∀ q', (l + 256 ^ i * q') / 256 ^ i = q' := fun q' => by
    rw [Nat.add_mul_div_left _ _ (by positivity), Nat.div_eq_of_lt hl, Nat.zero_add]
  have hmod : ∀ q', (l + 256 ^ i * q') % 256 ^ i = l := fun q' => by
    rw [Nat.add_mul_mod_self_left, Nat.mod_eq_of_lt hl]
  have hnew : l + 256 ^ i * q - q % 256 * 256 ^ i + b * 256 ^ i =
      l + 256 ^ i * (256 * (q / 256) + b) := by
    conv_lhs => rw [← Nat.div_add_mod q 256]
    rw [show (256 * (q / 256) + q % 256) % 256 = q % 256 by omega, Nat.mul_add, Nat.mul_add,
      Nat.mul_comm (q % 256), Nat.mul_comm b]
    omega
  rw [hdiv, hnew]
  rcases lt_trichotomy j i with hlt | rfl | hgt
  · -- the lower bytes are seen modulo `256 ^ i`
    obtain ⟨t, rfl⟩ := Nat.exists_eq_add_of_lt hlt
    have hlow : ∀ q', (l + 256 ^ (j + t + 1) * q') / 256 ^ j % 256 = l / 256 ^ j % 256 := by
      intro q'
      rw [← Nat.mod_mul_right_div_self, ← pow_succ, ← Nat.mod_mod_of_dvd _
        (pow_dvd_pow 256 (show j + 1 ≤ j + t + 1 by omega)), hmod, pow_succ,
        Nat.mod_mul_right_div_self]
    rw [if_neg hlt.ne, hlow, hlow]
  · rw [if_pos rfl, hdiv, Nat.mul_add_mod, Nat.mod_eq_of_lt hb]
  · obtain ⟨t, rfl⟩ := Nat.exists_eq_add_of_lt hgt
    rw [if_neg hgt.ne', show i + t + 1 = i + (1 + t) by omega, pow_add, ← Nat.div_div_eq_div_mul,
      ← Nat.div_div_eq_div_mul, hdiv, hdiv, pow_add, ← Nat.div_div_eq_div_mul,
      ← Nat.div_div_eq_div_mul, pow_one, Nat.mul_add_div (by decide), Nat.div_eq_of_lt hb,
      Nat.add_zero]

lemma byteOf_putByte {page : Fin 512 → ℕ} {j : ℕ} (hk : k < pgSize) (hj : j < pgSize) (hb : b < 256)
    : byteOf (putByte page k b) j = if j = k then b else byteOf page j := by
  rw [pgSize] at hk hj
  by_cases hw : j / 8 = k / 8
  · rw [byteOf, putByte, hw, update_self, byteOf, setByte_byte _ hb, byteOf, hw]
    exact if_congr (by omega) rfl rfl
  · rw [byteOf, putByte, update_of_ne, if_neg (by rintro rfl; exact hw rfl), byteOf]
    rw [Ne, Fin.ext_iff, wordNo, wordNo, Fin.val_ofNat, Fin.val_ofNat]
    omega

/-- **What is put can be got**, and the other bytes stay. -/
lemma byteOf_putBytes {j : ℕ} {bytes : List ℕ} : ∀ {page : Fin 512 → ℕ},
    off + bytes.length ≤ pgSize → (∀ b ∈ bytes, b < 256) → j < pgSize →
    some (byteOf (putBytes page off bytes) j) =
      if off ≤ j ∧ j < off + bytes.length then bytes[j - off]? else some (byteOf page j) := by
  induction bytes generalizing off with
  | nil =>
    intro page _ _ _
    rw [putBytes, if_neg (by simp)]
  | cons b bytes ih =>
    intro page hfit hb hj
    rw [List.length_cons] at hfit ⊢
    rw [putBytes, ih (by omega) (fun b' hb' => hb b' (List.mem_cons_of_mem _ hb')) hj,
      byteOf_putByte (by omega) hj (hb b List.mem_cons_self)]
    by_cases hj' : off + 1 ≤ j ∧ j < off + 1 + bytes.length
    · obtain ⟨t, rfl⟩ := Nat.exists_eq_add_of_le hj'.1
      rw [if_pos hj', if_pos (by omega), show off + 1 + t - off = t + 1 by omega,
        List.getElem?_cons_succ, Nat.add_sub_cancel_left]
    · rw [if_neg hj']
      by_cases he : j = off
      · rw [if_pos he, if_pos (by omega), he, Nat.sub_self]
        rfl
      · rw [if_neg he, if_neg (by omega)]

lemma length_getBytes {page : Fin 512 → ℕ} : (getBytes page off n).length = n := by
  rw [getBytes, List.length_map, List.length_range]

/-! ### The code -/

/-- The first lines of the loops: the page of an address is looked up, and faulted in if it is not
there. -/
def userPage (pagetable psz va0 : ℕ) : VmM ℕ := do
  let pa0 ← walkaddr pagetable va0
  if pa0 = 0 then vmfault pagetable psz va0 else pure pa0

/-- The number of bytes of a copy that are in the first page. -/
def chunk (va len : ℕ) : ℕ := min (pgSize - (va - pgRoundDown va)) len

lemma chunk_pos (va : ℕ) (h : len ≠ 0) : 0 < chunk va len := by
  rw [chunk, pgRoundDown, pgSize]
  omega

lemma chunk_le (va len : ℕ) : chunk va len ≤ len := min_le_right _ _

def copyout (pagetable psz dstva : ℕ) (src : List ℕ) : VmM ℤ :=
  if src.length = 0 then pure 0
  else if maxVa ≤ pgRoundDown dstva then pure (-1)
  else do
    let pa0 ← userPage pagetable psz (pgRoundDown dstva)
    if pa0 = 0 then pure (-1)
    else do
      match ← walk pagetable (pgRoundDown dstva) false with
      | none => throw .nullPointer
      | some slot => do
          let pte ← readPte slot
          if pte &&& pteW = 0 then pure (-1)
          else do
            writeBytes (pageOf pa0) (dstva - pgRoundDown dstva)
              (src.take (chunk dstva src.length))
            copyout pagetable psz (pgRoundDown dstva + pgSize) (src.drop (chunk dstva src.length))
termination_by src.length
decreasing_by
  rw [List.length_drop]
  have := chunk_pos dstva ‹¬ src.length = 0›
  omega

/-- `copyin`; the result is with the bytes that have been copied. -/
def copyin (pagetable psz srcva len : ℕ) : VmM (ℤ × List ℕ) :=
  if len = 0 then pure (0, [])
  else do
    let pa0 ← userPage pagetable psz (pgRoundDown srcva)
    if pa0 = 0 then pure (-1, [])
    else do
      let bytes ← readBytes (pageOf pa0) (srcva - pgRoundDown srcva) (chunk srcva len)
      let rest ← copyin pagetable psz (pgRoundDown srcva + pgSize) (len - chunk srcva len)
      pure (rest.1, bytes ++ rest.2)
termination_by len
decreasing_by
  have := chunk_pos srcva ‹¬ len = 0›
  omega

/-- `copyinstr`; the result is with the bytes that have been copied. -/
def copyinstr (pagetable psz srcva max : ℕ) : VmM (ℤ × List ℕ) :=
  if max = 0 then pure (-1, [])
  else do
    let pa0 ← userPage pagetable psz (pgRoundDown srcva)
    if pa0 = 0 then pure (-1, [])
    else do
      let bytes ← readBytes (pageOf pa0) (srcva - pgRoundDown srcva) (chunk srcva max)
      if 0 ∈ bytes then pure (0, bytes.takeWhile (· ≠ 0) ++ [0])
      else do
        let rest ← copyinstr pagetable psz (pgRoundDown srcva + pgSize) (max - chunk srcva max)
        pure (rest.1, bytes ++ rest.2)
termination_by max
decreasing_by
  have := chunk_pos srcva ‹¬ max = 0›
  omega

/-! ### What the user sees -/

/-- What a process has at its pages: an unmapped page below the size stands for a zero page. -/
def viewOf (g : ℕ → Option Cell) (sz v : ℕ) : Option Cell :=
  if v < trapVpn then (g v).or (if v < pagesOf sz then some faultCell else none) else none

def byteAt (g : ℕ → Option Cell) (sz a : ℕ) : Option ℕ :=
  (viewOf g sz (vpn a)).map fun c => byteOf c.2 (a % pgSize)

/-- The user may read a cell, and write to it if `w` is set. -/
def Allows (w : Bool) (c : Cell) : Prop := c.1 &&& pteU ≠ 0 ∧ (w = true → c.1 &&& pteW ≠ 0)

/-- The `n` bytes from `a` on are in mapped pages that the user may access. -/
def Accessible (g : ℕ → Option Cell) (w : Bool) (a n : ℕ) : Prop :=
  ∀ i < n, vpn (a + i) ∈ userPages ∧ ∃ c, g (vpn (a + i)) = some c ∧ Allows w c

/-- Mapped pages keep their flags; new ones below the size have been faulted in. -/
def Grown (sz : ℕ) (g g' : ℕ → Option Cell) : Prop :=
  ∀ v ∈ userPages, (g' v).map Prod.fst = (g v).map Prod.fst ∨
    g v = none ∧ v < pagesOf sz ∧ (g' v).map Prod.fst = some faultCell.1

/-- **Bytes have been put** at `a`, to pages that the user may write, and no others have changed. -/
structure Put (sz a : ℕ) (xs : List ℕ) (g g' : ℕ → Option Cell) : Prop where
  grown : Grown sz g g'
  bytes : ∀ b, byteAt g' sz b =
    if a ≤ b ∧ b < a + xs.length then xs[b - a]? else byteAt g sz b
  allowed : Accessible g' true a xs.length

/-- **Bytes have been got** from `a` on, from pages that the user may read. -/
structure Got (sz a : ℕ) (xs : List ℕ) (g g' : ℕ → Option Cell) : Prop where
  bytes : ∀ i < xs.length, byteAt g sz (a + i) = xs[i]?
  allowed : Accessible g' false a xs.length

variable {m m' m'' : Mem} {r tf sz v x a : ℕ} {g g' g'' : ℕ → Option Cell} {c : Cell}
variable {xs ys : List ℕ} {w : Bool}

lemma viewOf_of_some (hv : v ∈ userPages) (h : g v = some c) : viewOf g sz v = some c := by
  rw [viewOf, if_pos (show v < trapVpn from hv), h, Option.some_or]

lemma viewOf_cases (h : viewOf g sz v = some c) :
    v ∈ userPages ∧ (g v = some c ∨ g v = none ∧ v < pagesOf sz ∧ c = faultCell) := by
  rw [viewOf] at h
  split_ifs at h with hv hlt
  · cases hg : g v with
    | none =>
      rw [hg] at h
      cases h
      exact ⟨hv, .inr ⟨rfl, hlt, rfl⟩⟩
    | some d =>
      rw [hg] at h
      exact ⟨hv, .inl h⟩
  · rw [Option.or_none] at h
    exact ⟨hv, .inl h⟩

lemma byteAt_congr (h : ∀ v ∈ userPages, g v = g' v) (b : ℕ) : byteAt g sz b = byteAt g' sz b := by
  rw [byteAt, byteAt, viewOf, viewOf]
  by_cases hv : vpn b < trapVpn
  · rw [if_pos hv, if_pos hv, h _ hv]
  · rw [if_neg hv, if_neg hv]

lemma Accessible.nil : Accessible g w a 0 := fun i hi => absurd hi (Nat.not_lt_zero i)

lemma Accessible.append (h : Accessible g w a n) (h' : Accessible g w (a + n) k) :
    Accessible g w a (n + k) := by
  intro i hi
  by_cases hn : i < n
  · exact h i hn
  · have := h' (i - n) (by omega)
    rwa [Nat.add_assoc, Nat.add_sub_cancel' (by omega)] at this

namespace Grown

lemma trans (h : Grown sz g g') (h' : Grown sz g' g'') : Grown sz g g'' := by
  intro v hv
  rcases h v hv with he | ⟨hnone, hlt, he⟩
  · rcases h' v hv with he' | ⟨hnone', hlt, he'⟩
    · exact .inl (he'.trans he)
    · rw [hnone', Option.map_none, eq_comm, Option.map_eq_none_iff] at he
      exact .inr ⟨he, hlt, he'⟩
  · rcases h' v hv with he' | ⟨hnone', _⟩
    · exact .inr ⟨hnone, hlt, he'.trans he⟩
    · rw [hnone'] at he
      cases he

lemma kept (h : Grown sz g g') (hv : v ∈ userPages) (hc : g v = some c) :
    ∃ c', g' v = some c' ∧ c'.1 = c.1 := by
  rcases h v hv with he | ⟨hnone, _⟩
  · rw [hc] at he
    exact Option.map_eq_some_iff.mp he
  · rw [hnone] at hc
    cases hc

lemma accessible (h : Grown sz g g') (ha : Accessible g w a n) : Accessible g' w a n := by
  intro i hi
  obtain ⟨hv, c, hc, hA⟩ := ha i hi
  obtain ⟨c', hc', he⟩ := h.kept hv hc
  exact ⟨hv, c', hc', by rwa [Allows, he]⟩

lemma view (h : Grown sz g g') (hc : viewOf g sz v = some c) :
    ∃ c', viewOf g' sz v = some c' ∧ c'.1 = c.1 := by
  obtain ⟨hv, hc | ⟨hnone, hlt, rfl⟩⟩ := viewOf_cases hc
  · obtain ⟨c', hc', he⟩ := h.kept hv hc
    exact ⟨c', viewOf_of_some hv hc', he⟩
  · rcases h v hv with he | ⟨_, _, he⟩
    · rw [hnone, Option.map_none, Option.map_eq_none_iff] at he
      refine ⟨faultCell, ?_, rfl⟩
      rw [viewOf, if_pos (show v < trapVpn from hv), he, Option.none_or, if_pos hlt]
    · obtain ⟨c', hc', he⟩ := Option.map_eq_some_iff.mp he
      exact ⟨c', viewOf_of_some hv hc', he⟩

end Grown

namespace Put

lemma refl : Put sz a [] g g :=
  ⟨fun _ _ => .inl rfl, fun b => by rw [if_neg (by simp)], .nil⟩

lemma nil (h : Put sz a [] g g') (b : ℕ) : byteAt g' sz b = byteAt g sz b := by
  rw [h.bytes, if_neg (by simp)]

lemma congr (h : Put sz a xs g g') (hg : ∀ v ∈ userPages, g'' v = g' v) : Put sz a xs g g'' where
  grown v hv := by rw [hg v hv]; exact h.grown v hv
  bytes b := by rw [byteAt_congr hg, h.bytes]
  allowed i hi := by
    obtain ⟨hv, c, hc, hA⟩ := h.allowed i hi
    exact ⟨hv, c, (hg _ hv).trans hc, hA⟩

lemma append (h : Put sz a xs g g') (h' : Put sz (a + xs.length) ys g' g'') :
    Put sz a (xs ++ ys) g g'' where
  grown := h.grown.trans h'.grown
  bytes b := by
    rw [h'.bytes, h.bytes, List.length_append]
    by_cases hys : a + xs.length ≤ b ∧ b < a + xs.length + ys.length
    · rw [if_pos hys, if_pos (by omega), List.getElem?_append_right (by omega), Nat.sub_sub]
    · rw [if_neg hys]
      by_cases hxs : a ≤ b ∧ b < a + xs.length
      · rw [if_pos hxs, if_pos (by omega), List.getElem?_append_left (by omega)]
      · rw [if_neg hxs, if_neg (by omega)]
  allowed := by
    rw [List.length_append]
    exact (h'.grown.accessible h.allowed).append h'.allowed

lemma fault (hv : v ∈ userPages) (hlt : v < pagesOf sz) (h : g v = none) :
    Put sz a [] g (update g v (some faultCell)) where
  grown u hu := by
    by_cases huv : u = v
    · rw [huv, update_self]
      exact .inr ⟨h, hlt, rfl⟩
    · rw [update_of_ne huv]
      exact .inl rfl
  bytes b := by
    rw [if_neg (by simp), byteAt, byteAt, viewOf, viewOf]
    by_cases hb : vpn b = v
    · rw [hb, update_self, h, if_pos (show v < trapVpn from hv), if_pos (show v < trapVpn from hv),
        if_pos hlt, Option.some_or, Option.none_or]
    · rw [update_of_ne hb]
  allowed := .nil

lemma store (hv : vpn a ∈ userPages) (hc : g (vpn a) = some c) (hA : Allows true c)
    (hfit : a % pgSize + xs.length ≤ pgSize) (hxs : ∀ b ∈ xs, b < 256) :
    Put sz a xs g (update g (vpn a) (some (c.1, putBytes c.2 (a % pgSize) xs))) where
  grown u hu := by
    left
    by_cases huv : u = vpn a
    · rw [huv, update_self, hc]
      rfl
    · rw [update_of_ne huv]
  bytes b := by
    rw [vpn, pgSize] at *
    by_cases hb : vpn b = a / 4096
    · rw [byteAt, byteAt, hb, viewOf_of_some hv (update_self ..), viewOf_of_some hv hc,
        Option.map_some, byteOf_putBytes hfit hxs (Nat.mod_lt _ (by decide)), Option.map_some]
      rw [vpn, pgSize] at hb
      rw [pgSize]
      by_cases hin : a ≤ b ∧ b < a + xs.length
      · rw [if_pos hin, if_pos (by omega)]
        congr 1
        omega
      · rw [if_neg hin, if_neg (by omega)]
    · have hout : ¬ (a ≤ b ∧ b < a + xs.length) := fun hin => hb (by rw [vpn, pgSize]; omega)
      rw [if_neg hout, byteAt, byteAt, viewOf, viewOf, update_of_ne hb]
  allowed i hi := by
    have hi' : vpn (a + i) = vpn a := by
      rw [vpn, vpn, pgSize] at *
      omega
    rw [hi', update_self]
    exact ⟨hv, _, rfl, hA⟩

end Put

lemma Got.append (h : Got sz a xs g g') (hP : Put sz b [] g g') (hP' : Put sz b [] g' g'')
    (h' : Got sz (a + xs.length) ys g' g'') : Got sz a (xs ++ ys) g g'' where
  bytes i hi := by
    rw [List.length_append] at hi
    by_cases hxs : i < xs.length
    · rw [h.bytes i hxs, List.getElem?_append_left hxs]
    · have := h'.bytes (i - xs.length) (by omega)
      rwa [Nat.add_assoc, Nat.add_sub_cancel' (by omega), hP.nil,
        ← List.getElem?_append_right (by omega)] at this
  allowed := by
    rw [List.length_append]
    exact (hP'.grown.accessible h.allowed).append h'.allowed

lemma Got.nil : Got sz a [] g g' := ⟨fun i hi => absurd hi (Nat.not_lt_zero i), .nil⟩

lemma Got.take (h : Got sz a xs g g') : Got sz a (xs.take n) g g' where
  bytes i hi := by
    rw [List.length_take, lt_min_iff] at hi
    rw [h.bytes i hi.2, List.getElem?_take_of_lt hi.1]
  allowed i hi := h.allowed i (hi.trans_le (List.length_take_le' ..))

/-! ### The page of an address -/

/-- `walkaddr` finds a page that the user may access. -/
lemma walkaddr_eq (hva : va < maxVa) : runFrom (walkaddr r va) m =
    (.ok (match m.lookup r (vpn va) with
      | none => 0
      | some pte => if pte &&& pteU = 0 then 0 else pte2pa pte), m) := by
  rw [walkaddr, if_neg (not_le.mpr hva), runFrom_bind_ok (walk_false hva)]
  cases hx : m.node r (leafPath (vpn va)) with
  | none =>
    rw [Mem.lookup_of_node_none hx]
    rfl
  | some x =>
    rw [Mem.lookup_of_node (vpn_lt hva) hx]
    change runFrom (if ¬ Valid (m.page x (leafIndex (vpn va))) then _ else _) m = _
    by_cases hvalid : Valid (m.page x (leafIndex (vpn va)))
    · rw [if_neg (not_not.mpr hvalid), if_pos hvalid]
      change runFrom (if m.page x (leafIndex (vpn va)) &&& pteU = 0 then _ else _) m = _
      by_cases hU : m.page x (leafIndex (vpn va)) &&& pteU = 0
      · simp only [hU, if_true]
        rfl
      · simp only [hU, if_false]
        rfl
    · rw [if_pos hvalid, if_neg hvalid]
      rfl

lemma pte2pa_page (pte : ℕ) : pte2pa pte = pageOf (pte2pa pte) <<< 12 := by
  rw [pageOf_pte2pa, pte2pa_eq, Nat.shiftLeft_eq, pgSize]

lemma shift_ne_zero (hx : 0 < x) : x <<< 12 ≠ 0 := by
  rw [Nat.shiftLeft_eq]
  exact (Nat.mul_pos hx (by decide)).ne'

lemma pteFlags_and (pte : ℕ) (hk : k < 1024) : pteFlags pte &&& k = pte &&& k := by
  rw [pteFlags_eq, ← and_flags _ _ hk]

/-- **A table that copies can use**: it owns its user pages, and the user has no others. -/
structure CopySpace (m : Mem) (r sz : ℕ) : Prop where
  owned : Owned m r userPages
  size : sz ≤ trapframeVa
  high : ∀ v ∉ userPages, ∀ pte, m.lookup r v = some pte → pte &&& pteU = 0

lemma CopySpace.turns (h : CopySpace m r sz) (hT : Turns m r m' g) : CopySpace m' r sz :=
  ⟨hT.owned, h.size, fun v hv pte hp => h.high v hv pte ((hT.high v hv).symm.trans hp)⟩

lemma UserSpace.copySpace (h : UserSpace m r tf sz) : CopySpace m r sz := by
  refine ⟨h.owned, h.size, fun v hv pte hp => ?_⟩
  rw [h.high v hv, highEntries] at hp
  split_ifs at hp with htrap htramp
  · cases hp
    exact (mkPte_and (pgSize_dvd_shift tf) (by decide) (by decide)).trans (by decide)
  · cases hp
    decide

lemma CopySpace.high_cell (h : CopySpace m r sz) (hv : v ∉ userPages) (hc : m.cell r v = some c) :
    c.1 &&& pteU = 0 := by
  obtain ⟨pte, hpte, rfl⟩ := Option.map_eq_some_iff.mp hc
  rw [pteFlags_and pte (by decide)]
  exact h.high v hv pte hpte

lemma CopySpace.walkaddr_high (h : CopySpace m r sz) (hv : v ∉ userPages) :
    runFrom (walkaddr r (v * pgSize)) m = (.ok 0, m) := by
  by_cases hlt : v < maxVpn
  · rw [walkaddr_eq (mul_lt_maxVa hlt), vpn_mul]
    cases hp : m.lookup r v with
    | none => rfl
    | some pte => simp only [h.high v hv pte hp, if_true]
  · have hmax : maxVa ≤ v * pgSize := by
      rw [maxVpn] at hlt
      rw [maxVa, pgSize]
      omega
    rw [walkaddr, if_pos hmax]
    rfl

/-- **Memory after a part of a copy.** -/
structure Copied (m : Mem) (r sz : ℕ) (m' : Mem) (a : ℕ) (bytes : List ℕ) : Prop where
  turns : Turns m r m' (m'.cell r)
  put : Put sz a bytes (m.cell r) (m'.cell r)

lemma Copied.of_turns (hT : Turns m r m' g) (hP : Put sz a xs (m.cell r) g) :
    Copied m r sz m' a xs :=
  ⟨hT.congr fun v hv => (hT.cells v hv).symm, hP.congr hT.cells⟩

lemma Copied.refl (h : CopySpace m r sz) : Copied m r sz m a [] := ⟨.refl h.owned, .refl⟩

lemma Copied.append (h : Copied m r sz m' a xs) (h' : Copied m' r sz m'' (a + xs.length) ys) :
    Copied m r sz m'' a (xs ++ ys) := by
  refine ⟨h.turns.trans h'.turns fun v hv hm _ => ?_, h.put.append h'.put⟩
  obtain ⟨c, hc⟩ := Option.ne_none_iff_exists'.mp hm
  obtain ⟨c', hc', _⟩ := h.put.grown.kept hv hc
  rw [hc']
  exact nofun

lemma Copied.nil (h : Copied m r sz m' a []) : Copied m r sz m' b [] :=
  ⟨h.turns, h.put.grown, fun d => by rw [h.put.nil, if_neg (by simp)], .nil⟩

lemma UserSpace.copied (h : UserSpace m r tf sz) (hC : Copied m r sz m' a xs) :
    UserSpace m' r tf sz := by
  refine h.turns hC.turns h.size fun v hv hle => ?_
  rcases hC.put.grown v hv with he | ⟨_, hlt, _⟩
  · rwa [h.below v hv hle, Option.map_none, Option.map_eq_none_iff] at he
  · omega

/-- **Why a copy ends at a page**: it is not mapped so that the user may access it, and it never
was, or memory has run out. -/
structure Denied (m : Mem) (r sz : ℕ) (m' : Mem) (w : Bool) (v : ℕ) : Prop where
  cell : ∀ c, m'.cell r v = some c → ¬ Allows w c
  view : m.failures < m'.failures ∨ ∀ c, viewOf (m.cell r) sz v = some c → ¬ Allows w c

lemma Copied.denied (h : Copied m r sz m' a xs) (hD : Denied m' r sz m'' w v) :
    Denied m r sz m'' w v := by
  refine ⟨hD.cell, hD.view.imp (lt_of_le_of_lt h.turns.trade.failures) fun hno c hc hA => ?_⟩
  obtain ⟨c', hc', he⟩ := h.put.grown.view hc
  exact hno c' hc' (by rwa [Allows, he])

/-- What is known when a page has been looked for. -/
def Looked (m : Mem) (r sz v a res : ℕ) (m' : Mem) : Prop :=
  Copied m r sz m' a [] ∧
    ((res = 0 ∧ ∀ w, Denied m r sz m' w v) ∨
    ∃ x c, 0 < x ∧ res = x <<< 12 ∧ v ∈ userPages ∧ m'.back r v = some x ∧
      m'.cell r v = some c ∧ c.1 &&& pteU ≠ 0)

/-- **The page of an address** is found or faulted in. -/
lemma userPage_runs (h : CopySpace m r sz) (v a : ℕ) :
    Returns (userPage r sz (v * pgSize)) m (Looked m r sz v a) := by
  -- what `vmfault` finds when `walkaddr` has found nothing
  have hfault : (∀ c, m.cell r v = some c → c.1 &&& pteU = 0) →
      Returns (vmfault r sz (v * pgSize)) m (Looked m r sz v a) := by
    intro hU
    refine (vmfault_runs h.owned h.size).mono fun res m' hres => ?_
    rw [vpn_mul] at hres
    rcases hres with ⟨rfl, hT, hwhy⟩ | ⟨hlt, hnone, hT, x, hx, rfl, hback⟩
    · refine ⟨.of_turns hT .refl, .inl ⟨rfl, fun w => ⟨fun c hc hA => hA.1 ?_, ?_⟩⟩⟩
      · by_cases hv : v ∈ userPages
        · exact hU c ((hT.cells v hv).symm.trans hc)
        · exact (h.turns hT).high_cell hv hc
      · rcases hwhy with hle | hsome | hf
        · refine .inr fun c hc hA => hA.1 ?_
          obtain ⟨hv, hc | ⟨_, hlt, _⟩⟩ := viewOf_cases hc
          · exact hU c hc
          · have := pagesOf_mono hle
            rw [pagesOf_mul] at this
            omega
        · refine .inr fun c hc hA => hA.1 ?_
          obtain ⟨hv, hc | ⟨hnone, _⟩⟩ := viewOf_cases hc
          · exact hU c hc
          · exact absurd hnone hsome
        · exact .inl hf
    · have hlt' : v < pagesOf sz := by
        have := vpn_lt_pagesOf hlt
        rwa [vpn_mul] at this
      have hv : v ∈ userPages := lt_of_lt_of_le hlt' (pagesOf_le h.size)
      refine ⟨.of_turns hT (.fault hv hlt' hnone), .inr ⟨x, faultCell, hx, rfl, hv, hback, ?_, ?_⟩⟩
      · rw [hT.cells v hv, update_self]
      · exact (by decide : (pteW ||| pteU ||| pteR ||| pteV) &&& pteU ≠ 0)
  rw [userPage, Returns.bind_iff]
  by_cases hv : v ∈ userPages
  · rw [Returns.of_eq (walkaddr_eq (mul_lt_maxVa (userPages_lt hv))), vpn_mul]
    cases hlookup : m.lookup r v with
    | none =>
      refine hfault fun c hc => ?_
      rw [Mem.cell_eq_none.mpr hlookup] at hc
      cases hc
    | some pte =>
      have hcell : m.cell r v = some (pteFlags pte, m.page (pageOf (pte2pa pte))) := by
        rw [Mem.cell, hlookup, Option.map_some]
      have hback : m.back r v = some (pageOf (pte2pa pte)) := by
        rw [Mem.back, hlookup, Option.map_some]
      by_cases hU : pte &&& pteU = 0
      · simp only [hU, if_true]
        refine hfault fun c hc => ?_
        rw [hcell] at hc
        cases hc
        rwa [pteFlags_and pte (by decide)]
      · have hpos : 0 < pageOf (pte2pa pte) := lt_of_lt_of_le h.owned.holds.pos
          (h.owned.holds.range _ (.inl (.inr ⟨v, hv, hback⟩))).1
        simp only [hU, if_false]
        rw [pte2pa_page, if_neg (shift_ne_zero hpos)]
        refine Returns.pure ⟨.refl h, .inr ⟨_, _, hpos, rfl, hv, hback, hcell, ?_⟩⟩
        rwa [pteFlags_and pte (by decide)]
  · rw [Returns.of_eq (h.walkaddr_high hv), if_pos rfl]
    exact hfault fun c hc => h.high_cell hv hc

lemma Mem.page_of_cell (hback : m.back r v = some x) (hcell : m.cell r v = some c) :
    ∃ pte, m.lookup r v = some pte ∧ c.1 = pteFlags pte ∧ c.2 = m.page x := by
  rw [Mem.back, Option.map_eq_some_iff] at hback
  obtain ⟨pte, hpte, rfl⟩ := hback
  rw [Mem.cell, hpte, Option.map_some] at hcell
  cases hcell
  exact ⟨pte, hpte, rfl, rfl⟩

variable {α : Type} {R : α → Mem → Prop}

lemma Returns.writeBytes {f : Unit → VmM α} {bytes : List ℕ}
    (h : Returns (f ()) (m.setPage x (putBytes (m.page x) off bytes)) R) :
    Returns (Xv6Riscv.writeBytes x off bytes >>= f) m R := by
  rw [Returns.iff_wp] at h ⊢
  exact h

lemma Returns.readBytes {f : List ℕ → VmM α} (h : Returns (f (getBytes (m.page x) off n)) m R) :
    Returns (Xv6Riscv.readBytes x off n >>= f) m R := by
  rw [Returns.iff_wp] at h ⊢
  exact h

/-! ### The copies -/

lemma sub_pgRoundDown (va : ℕ) : va - pgRoundDown va = va % pgSize := by
  rw [pgRoundDown, pgSize]
  omega

lemma chunk_fits (va len : ℕ) : va % pgSize + chunk va len ≤ pgSize := by
  rw [chunk, sub_pgRoundDown, pgSize]
  omega

lemma chunk_next (h : chunk va len < len) : pgRoundDown va + pgSize = va + chunk va len := by
  rw [chunk, pgRoundDown, pgSize] at *
  omega

/-- **`copyout`** puts the bytes, or those before the page where it ends. -/
lemma copyout_runs (h : CopySpace m r sz) (dstva : ℕ) {src : List ℕ} (hsrc : ∀ b ∈ src, b < 256) :
    Returns (copyout r sz dstva src) m fun res m' => ∃ k ≤ src.length,
      Copied m r sz m' dstva (src.take k) ∧
      (res = 0 ∧ k = src.length ∨
        res = -1 ∧ k < src.length ∧ Denied m r sz m' true (vpn (dstva + k))) := by
  induction hlen : src.length using Nat.strong_induction_on generalizing src dstva m with
  | _ len ih =>
    rw [copyout, hlen]
    by_cases hzero : len = 0
    · rw [if_pos hzero]
      exact Returns.pure ⟨0, Nat.zero_le _, .refl h, .inl ⟨rfl, hzero.symm⟩⟩
    rw [if_neg hzero, vpn_pgRoundDown]
    refine Returns.ite (fun hmax => ?_) fun hmax => ?_
    · have hv : vpn dstva ∉ userPages := fun hv => by
        have := mul_lt_maxVa (userPages_lt hv)
        omega
      refine Returns.pure ⟨0, Nat.zero_le _, .refl h, .inr ⟨rfl, Nat.pos_of_ne_zero hzero, ?_⟩⟩
      exact ⟨fun c hc hA => hA.1 (h.high_cell hv hc),
        .inr fun c hc => absurd (viewOf_cases hc).1 hv⟩
    · refine (userPage_runs h (vpn dstva) dstva).bind fun pa0 m1 h1 => ?_
      obtain ⟨hC, ⟨rfl, hD⟩ | ⟨x, c, hx, rfl, hv, hback, hcell, hU⟩⟩ := h1
      · rw [if_pos rfl]
        exact Returns.pure ⟨0, Nat.zero_le _, hC, .inr ⟨rfl, Nat.pos_of_ne_zero hzero, hD true⟩⟩
      · obtain ⟨pte, hpte, hflags, hpage⟩ := Mem.page_of_cell hback hcell
        obtain ⟨_, y, hy, hentry, _⟩ := Mem.lookup_eq_some.mp hpte
        rw [if_neg (shift_ne_zero hx)]
        refine Returns.walk_false (mul_lt_maxVa (userPages_lt hv)) ?_
        rw [vpn_mul, hy]
        refine Returns.readPte ?_
        change Returns (if m1.page y (leafIndex (vpn dstva)) &&& pteW = 0 then _ else _) m1 _
        rw [hentry, ← pteFlags_and pte (by decide : pteW < 1024), ← hflags]
        refine Returns.ite (fun hW => ?_) fun hW => ?_
        · -- the page is there, and cannot be written
          have hno : ∀ d, viewOf (m1.cell r) sz (vpn dstva) = some d → ¬ Allows true d := by
            intro d hd hA
            rw [viewOf_of_some hv hcell] at hd
            cases hd
            exact hA.2 rfl hW
          refine Returns.pure ⟨0, Nat.zero_le _, hC, .inr ⟨rfl, Nat.pos_of_ne_zero hzero,
            hC.denied ⟨fun d hd => hno d (viewOf_of_some hv hd), .inr hno⟩⟩⟩
        · rw [pageOf_shift, ← vpn_pgRoundDown, sub_pgRoundDown]
          refine Returns.writeBytes ?_
          rw [← hpage]
          have htake : (src.take (chunk dstva len)).length = chunk dstva len := by
            rw [List.length_take, hlen, min_eq_left (chunk_le ..)]
          obtain ⟨_, hT⟩ := (h.turns hC.turns).owned.store hv hback
            (putBytes c.2 (dstva % pgSize) (src.take (chunk dstva len)))
          rw [hcell, Option.map_some] at hT
          have hC2 := hC.append (.of_turns hT (.store hv hcell ⟨hU, fun _ => hW⟩
            (by rw [htake]; exact chunk_fits ..) fun b hb => hsrc b (List.mem_of_mem_take hb)))
          rw [List.nil_append] at hC2
          have hdrop : (src.drop (chunk dstva len)).length = len - chunk dstva len := by
            rw [List.length_drop, hlen]
          refine (ih _ (by have := chunk_pos dstva hzero; omega) (h.turns hC2.turns)
            (pgRoundDown dstva + pgSize) (fun b hb => hsrc b (List.mem_of_mem_drop hb)) hdrop).mono
            fun res m' hres => ?_
          obtain ⟨k, hk, hC', hres⟩ := hres
          refine ⟨chunk dstva len + k, by have := chunk_le dstva len; omega, ?_, ?_⟩
          · rw [List.take_add]
            rcases (chunk_le dstva len).eq_or_lt with heq | hlt
            · obtain rfl : k = 0 := by omega
              exact hC2.append hC'.nil
            · rw [chunk_next hlt] at hC'
              exact hC2.append (by rwa [htake])
          · rcases hres with ⟨rfl, rfl⟩ | ⟨rfl, hlt, hD⟩
            · exact .inl ⟨rfl, by have := chunk_le dstva len; omega⟩
            · have hless : chunk dstva len < len := by omega
              rw [chunk_next hless, Nat.add_assoc] at hD
              exact .inr ⟨rfl, by omega, hC2.denied hD⟩

/-- **A page is read**: the first lines of the loops of `copyin` and `copyinstr`. -/
lemma Returns.readPage {fail : α} {f : List ℕ → VmM α} (h : CopySpace m r sz)
    (hn : va % pgSize + n ≤ pgSize)
    (hfail : ∀ m', Copied m r sz m' va [] → Denied m r sz m' false (vpn va) → R fail m')
    (hok : ∀ m' bytes, Copied m r sz m' va [] → Got sz va bytes (m.cell r) (m'.cell r) →
      bytes.length = n → Returns (f bytes) m' R) :
    Returns (do
      let pa0 ← userPage r sz (pgRoundDown va)
      if pa0 = 0 then Pure.pure fail
      else do
        let bytes ← Xv6Riscv.readBytes (pageOf pa0) (va - pgRoundDown va) n
        f bytes) m R := by
  rw [vpn_pgRoundDown]
  refine (userPage_runs h (vpn va) va).bind fun pa0 m1 h1 => ?_
  obtain ⟨hC, ⟨rfl, hD⟩ | ⟨x, c, hx, rfl, hv, hback, hcell, hU⟩⟩ := h1
  · rw [if_pos rfl]
    exact Returns.pure (hfail m1 hC (hD false))
  · obtain ⟨_, _, _, hpage⟩ := Mem.page_of_cell hback hcell
    rw [if_neg (shift_ne_zero hx), pageOf_shift, ← vpn_pgRoundDown, sub_pgRoundDown]
    refine Returns.readBytes (hok m1 _ hC ⟨fun i hi => ?_, fun i hi => ?_⟩ length_getBytes)
    all_goals
      rw [length_getBytes] at hi
      have hi' : vpn (va + i) = vpn va ∧ (va + i) % pgSize = va % pgSize + i := by
        rw [vpn, vpn, pgSize] at *
        omega
    · rw [← hC.put.nil, byteAt, hi'.1, hi'.2, viewOf_of_some hv hcell, Option.map_some, hpage]
      simp [getBytes, hi]
    · rw [hi'.1]
      exact ⟨hv, c, hcell, hU, by simp⟩

lemma Got.next {bytes rest : List ℕ} (hC : Copied m r sz m' va [])
    (hG : Got sz va bytes (m.cell r) (m'.cell r)) (hlen : bytes.length = chunk va len)
    (hC' : Copied m' r sz m'' (pgRoundDown va + pgSize) [])
    (hG' : Got sz (pgRoundDown va + pgSize) rest (m'.cell r) (m''.cell r))
    (hrest : rest.length ≤ len - chunk va len) :
    Copied m r sz m'' va [] ∧ Got sz va (bytes ++ rest) (m.cell r) (m''.cell r) := by
  refine ⟨hC.append hC'.nil, hG.append hC.put hC'.nil.put ?_⟩
  rcases (chunk_le va len).eq_or_lt with heq | hlt
  · obtain rfl : rest = [] := List.eq_nil_of_length_eq_zero (by omega)
    exact .nil
  · rwa [hlen, ← chunk_next hlt]

/-- **`copyin`** gets the bytes, or those before the page where it ends. -/
lemma copyin_runs (h : CopySpace m r sz) (srcva len : ℕ) :
    Returns (copyin r sz srcva len) m fun res m' =>
      Copied m r sz m' srcva [] ∧ Got sz srcva res.2 (m.cell r) (m'.cell r) ∧
      (res.1 = 0 ∧ res.2.length = len ∨ res.1 = -1 ∧ res.2.length < len ∧
        Denied m r sz m' false (vpn (srcva + res.2.length))) := by
  induction len using Nat.strong_induction_on generalizing srcva m with
  | _ len ih =>
    rw [copyin]
    by_cases hzero : len = 0
    · rw [if_pos hzero]
      exact Returns.pure ⟨.refl h, .nil, .inl ⟨rfl, hzero.symm⟩⟩
    rw [if_neg hzero]
    refine Returns.readPage h (chunk_fits ..) (fun m' hC hD => ?_) fun m1 bytes hC hG hlen => ?_
    · exact ⟨hC, .nil, .inr ⟨rfl, Nat.pos_of_ne_zero hzero, hD⟩⟩
    have hle := chunk_le srcva len
    have hpos := chunk_pos srcva hzero
    refine (ih _ (by omega) (h.turns hC.turns) _).bind fun rest m' hrest => Returns.pure ?_
    obtain ⟨hC', hG', hres⟩ := hrest
    obtain ⟨hC2, hG2⟩ := hG.next hC hlen hC' hG' (by omega)
    refine ⟨hC2, hG2, ?_⟩
    rw [List.length_append]
    rcases hres with ⟨hzero, hlen'⟩ | ⟨hbad, hlt, hD⟩
    · exact .inl ⟨hzero, by omega⟩
    · have hless : chunk srcva len < len := by omega
      rw [chunk_next hless, Nat.add_assoc, ← hlen] at hD
      exact .inr ⟨hbad, by omega, hC.denied hD⟩

lemma take_upto {bytes : List ℕ} (h : 0 ∈ bytes) :
    ∃ n, bytes.takeWhile (· ≠ 0) ++ [0] = bytes.take n := by
  induction bytes with
  | nil => cases h
  | cons b bytes ih =>
    by_cases hb : b = 0
    · exact ⟨1, by simp [hb]⟩
    · obtain ⟨n, hn⟩ := ih (List.mem_of_ne_of_mem (Ne.symm hb) h)
      exact ⟨n + 1, by simpa [hb] using hn⟩

/-- **`copyinstr`** gets the bytes up to the null byte, if it finds one. -/
lemma copyinstr_runs (h : CopySpace m r sz) (srcva max : ℕ) :
    Returns (copyinstr r sz srcva max) m fun res m' =>
      Copied m r sz m' srcva [] ∧ Got sz srcva res.2 (m.cell r) (m'.cell r) ∧
      res.2.length ≤ max ∧
      (res.1 = 0 ∧ (∃ s, res.2 = s ++ [0] ∧ 0 ∉ s) ∨ res.1 = -1 ∧ 0 ∉ res.2 ∧
        (res.2.length < max → Denied m r sz m' false (vpn (srcva + res.2.length)))) := by
  induction max using Nat.strong_induction_on generalizing srcva m with
  | _ max ih =>
    rw [copyinstr]
    by_cases hzero : max = 0
    · rw [if_pos hzero]
      exact Returns.pure ⟨.refl h, .nil, Nat.zero_le _, .inr ⟨rfl, nofun, fun hlt => by
        rw [hzero] at hlt
        exact absurd hlt (Nat.not_lt_zero _)⟩⟩
    rw [if_neg hzero]
    refine Returns.readPage h (chunk_fits ..) (fun m' hC hD => ?_) fun m1 bytes hC hG hlen => ?_
    · exact ⟨hC, .nil, Nat.zero_le _, .inr ⟨rfl, nofun, fun _ => hD⟩⟩
    have hle := chunk_le srcva max
    have hpos := chunk_pos srcva hzero
    refine Returns.ite (fun hnull => ?_) fun hnull => ?_
    · obtain ⟨n, hn⟩ := take_upto hnull
      refine Returns.pure ⟨hC, by rw [hn]; exact hG.take, ?_, .inl ⟨rfl, _, rfl, ?_⟩⟩
      · rw [hn, List.length_take]
        omega
      · exact fun hmem => absurd (List.mem_takeWhile_imp hmem) (by simp)
    · refine (ih _ (by omega) (h.turns hC.turns) _).bind fun rest m' hrest => Returns.pure ?_
      obtain ⟨hC', hG', hle', hres⟩ := hrest
      obtain ⟨hC2, hG2⟩ := hG.next hC hlen hC' hG' hle'
      rw [List.length_append]
      refine ⟨hC2, hG2, by omega, ?_⟩
      · rcases hres with ⟨hok, s, hs, hno⟩ | ⟨hbad, hno, hD⟩
        · refine .inl ⟨hok, bytes ++ s, by rw [hs, List.append_assoc], ?_⟩
          rw [List.mem_append]
          tauto
        · refine .inr ⟨hbad, by rw [List.mem_append]; tauto, fun hlt => ?_⟩
          have hD := hD (by omega)
          have hless : chunk srcva max < max := by omega
          rw [chunk_next hless, Nat.add_assoc, ← hlen] at hD
          exact hC.denied hD

/-- **The copies are exact.** In a table whose user pages are different pages of memory, for every
size up to `TRAPFRAME`, every address and every length, and whichever calls of `kalloc` fail, no
copy panics:

* `copyout` returns 0 and the bytes at `va` are those of the source, in mapped pages that the user
  may write, so that `copyin` gets them; or it returns -1 and this holds of a part at the front.
  What the user sees elsewhere stays, and so does memory that is not the user's.
* `copyin` and `copyinstr` get bytes that the user sees, from mapped pages that the user may read,
  and change nothing that the user sees.
* `copyinstr` returns 0 with a string that ends at the first null byte. If there is such a byte
  within `max` bytes of the user, it returns 0, unless memory runs out. -/
theorem user_copies (h : CopySpace m r sz) (va : ℕ) :
    (∀ src : List ℕ, (∀ b ∈ src, b < 256) → Returns (copyout r sz va src) m fun res m' =>
      ∃ k ≤ src.length, Copied m r sz m' va (src.take k) ∧
        (res = 0 ∧ k = src.length ∧ Returns (copyin r sz va k) m' (fun back _ => back = (0, src)) ∨
          res = -1 ∧ k < src.length)) ∧
    (∀ len, Returns (copyin r sz va len) m fun res m' =>
      Copied m r sz m' va [] ∧ Got sz va res.2 (m.cell r) (m'.cell r) ∧
        (res.1 = 0 ∧ res.2.length = len ∨ res.1 = -1 ∧ res.2.length < len)) ∧
    ∀ max, Returns (copyinstr r sz va max) m fun res m' =>
      Copied m r sz m' va [] ∧ Got sz va res.2 (m.cell r) (m'.cell r) ∧
        (res.1 = 0 ∧ (∃ s, res.2 = s ++ [0] ∧ 0 ∉ s ∧ s.length < max) ∨ res.1 = -1) ∧
        ((∃ n < max, byteAt (m.cell r) sz (va + n) = some 0 ∧ ∀ i ≤ n, ∃ c,
          viewOf (m.cell r) sz (vpn (va + i)) = some c ∧ Allows false c) →
            res.1 = 0 ∨ m.failures < m'.failures) := by
  refine ⟨fun src hsrc => ?_, fun len => ?_, fun max => ?_⟩
  · refine (copyout_runs h va hsrc).mono fun res m₁ hres => ?_
    obtain ⟨k, hk, hC, ⟨rfl, rfl⟩ | ⟨rfl, hlt, _⟩⟩ := hres
    · rw [List.take_length] at hC
      refine ⟨src.length, le_rfl, by rwa [List.take_length], .inl ⟨rfl, rfl, ?_⟩⟩
      refine (copyin_runs (h.turns hC.turns) va src.length).mono fun back m₂ hback => ?_
      obtain ⟨hC₂, hG, ⟨hzero, hlen⟩ | ⟨_, hlt, hD⟩⟩ := hback
      · refine Prod.ext hzero (List.ext_getElem? fun i => ?_)
        by_cases hi : i < src.length
        · rw [← hG.bytes i (by omega), hC.put.bytes, if_pos (by omega), Nat.add_sub_cancel_left]
        · rw [List.getElem?_eq_none (by omega), List.getElem?_eq_none (not_lt.mp hi)]
      · -- the pages are there, so the copy does not end before the last one
        obtain ⟨_, c, hc, hA⟩ := hC₂.put.grown.accessible hC.put.allowed _ hlt
        exact absurd ⟨hA.1, nofun⟩ (hD.cell c hc)
    · exact ⟨k, hk, hC, .inr ⟨rfl, hlt⟩⟩
  · refine (copyin_runs h va len).mono fun res m₁ hres => ?_
    exact ⟨hres.1, hres.2.1, hres.2.2.imp_right fun hbad => ⟨hbad.1, hbad.2.1⟩⟩
  · refine (copyinstr_runs h va max).mono fun res m₁ hres => ?_
    obtain ⟨hC, hG, hle, ⟨hzero, s, hs, hno⟩ | ⟨hbad, hno, hD⟩⟩ := hres
    · rw [hs, List.length_append, List.length_singleton] at hle
      exact ⟨hC, hG, .inl ⟨hzero, s, hs, hno, hle⟩, fun _ => .inl hzero⟩
    · refine ⟨hC, hG, .inr hbad, fun hstr => .inr ?_⟩
      obtain ⟨n, hn, hnull, hA⟩ := hstr
      have hlen : res.2.length ≤ n := by
        by_contra hlt
        rw [hG.bytes n (not_le.mp hlt)] at hnull
        exact hno (List.mem_of_getElem? hnull)
      obtain ⟨c, hc, hAc⟩ := hA _ hlen
      exact (hD (hlen.trans_lt hn)).view.resolve_right fun hv => hv c hc hAc

/-- A page below the size that is not mapped yet. -/
theorem user_copies_lazy : CopySpace ProcMem.oneProc 9 4096 ∧
    Returns (copyout 9 4096 4000 [104, 105, 0]) ProcMem.oneProc fun res m' =>
      res = 0 → byteAt (m'.cell 9) 4096 4001 = some 105 := by
  obtain ⟨_, hP, _⟩ := (Returns.of_eq ProcMem.oneProc_eq).mp
    (ProcMem.allocproc_runs ProcMem.thirtyPages_holds)
  have hS : CopySpace ProcMem.oneProc 9 4096 := { hP.space.copySpace with size := by decide }
  refine ⟨hS, ((user_copies hS 4000).1 [104, 105, 0] (by decide)).mono fun res m' hres hzero => ?_⟩
  obtain ⟨k, _, hC, ⟨_, rfl, _⟩ | ⟨rfl, _⟩⟩ := hres
  · rw [hC.put.bytes]
    rfl
  · cases hzero

end Xv6Riscv
