import Xv6Riscv.Lib.Radix
import Xv6Riscv.Lib.Wp

/-!
Physical memory, page-table entries and the page allocator (`riscv.h`, `memlayout.h`, `kalloc.c`).

Addresses and entries are numbers, with the 64-bit wrap-around where it can happen. A physical page
is known by its number, its address divided by the page size; it holds 512 words. The list `free` is
the free list of the allocator. A call of `kalloc` can fail although the list is not empty, because
other CPUs allocate as well: `deny` says which of the next calls do.
-/

namespace Xv6Riscv

open Wp

/-! ### Constants and macros -/

def pgSize : ℕ := 4096

def maxVa : ℕ := 2 ^ 38

/-- `TRAMPOLINE`. -/
def trampolineVa : ℕ := maxVa - pgSize

/-- `TRAPFRAME`. -/
def trapframeVa : ℕ := trampolineVa - pgSize

/-- `PHYSTOP`, as the number of a page. -/
def physTop : ℕ := 0x88000

def pteV : ℕ := 1
def pteR : ℕ := 2
def pteW : ℕ := 4
def pteX : ℕ := 8
def pteU : ℕ := 16

/-- `PTE_R | PTE_W | PTE_X`. -/
def pteRWX : ℕ := pteR ||| pteW ||| pteX

def pgRoundUp (sz : ℕ) : ℕ := (sz + pgSize - 1) % 2 ^ 64 / pgSize * pgSize

def pgRoundDown (a : ℕ) : ℕ := a / pgSize * pgSize

def pa2pte (pa : ℕ) : ℕ := (pa >>> 12) <<< 10

def pte2pa (pte : ℕ) : ℕ := (pte >>> 10) <<< 12

def pteFlags (pte : ℕ) : ℕ := pte &&& 0x3FF

def px (level va : ℕ) : Fin 512 := Fin.ofNat 512 (va >>> (12 + 9 * level))

/-- The index of a word in its page. -/
def wordNo (n : ℕ) : Fin 512 := Fin.ofNat 512 n

/-- The number of the page at a physical address. -/
def pageOf (pa : ℕ) : ℕ := pa >>> 12

/-! ### Entries -/

/-- `*pte & PTE_V`. -/
def Valid (pte : ℕ) : Prop := pte &&& pteV ≠ 0

instance (pte : ℕ) : Decidable (Valid pte) := by rw [Valid]; infer_instance

/-- The entry written by `mappages`. -/
def mkPte (pa perm : ℕ) : ℕ := pa2pte pa ||| perm ||| pteV

/-- The page a valid entry names. -/
def entryChild (pte : ℕ) : Option ℕ := if Valid pte then some (pageOf (pte2pa pte)) else none

lemma not_valid_zero : ¬ Valid 0 := by decide

lemma pageOf_pte2pa (pte : ℕ) : pageOf (pte2pa pte) = pte / 1024 := by
  rw [pageOf, pte2pa, Nat.shiftRight_eq_div_pow, Nat.shiftRight_eq_div_pow, Nat.shiftLeft_eq]
  omega

lemma pte2pa_eq (pte : ℕ) : pte2pa pte = pte / 1024 * pgSize := by
  rw [pte2pa, Nat.shiftRight_eq_div_pow, Nat.shiftLeft_eq, pgSize]

lemma valid_iff (pte : ℕ) : Valid pte ↔ pte % 2 = 1 := by
  rw [Valid, pteV, Nat.and_one_is_mod]
  omega

/-- An `&` with a mask of the flags looks at the flags only. -/
lemma and_flags (n m : ℕ) (hm : m < 1024) : n &&& m = n % 1024 &&& m := by
  apply Nat.eq_of_testBit_eq
  intro i
  rw [Nat.testBit_and, Nat.testBit_and, show (1024 : ℕ) = 2 ^ 10 from rfl,
    Nat.testBit_mod_two_pow]
  by_cases hi : i < 10
  · simp [hi]
  · have hle : 2 ^ 10 ≤ 2 ^ i := Nat.pow_le_pow_right Nat.two_pos (not_lt.mp hi)
    have hm' : m.testBit i = false := Nat.testBit_lt_two_pow (lt_of_lt_of_le hm hle)
    simp [hm']

lemma pteFlags_eq (pte : ℕ) : pteFlags pte = pte % 1024 := by
  rw [pteFlags]
  exact Nat.and_two_pow_sub_one_eq_mod pte 10

variable {pa perm v w x : ℕ}

lemma mkPte_eq (hperm : perm < 1024) : mkPte pa perm = pa / pgSize * 1024 + (perm ||| pteV) := by
  have hlt : perm ||| pteV < 2 ^ 10 := Nat.or_lt_two_pow hperm (by decide)
  rw [mkPte, pa2pte, Nat.or_assoc, ← Nat.shiftLeft_add_eq_or_of_lt hlt, Nat.shiftLeft_eq,
    Nat.shiftRight_eq_div_pow]
  rfl

/-- **An entry decodes** to what it was made of. -/
lemma mkPte_spec (hpa : pgSize ∣ pa) (hperm : perm < 1024) :
    pte2pa (mkPte pa perm) = pa ∧ pteFlags (mkPte pa perm) = perm ||| pteV ∧
      Valid (mkPte pa perm) := by
  have hlt : perm ||| pteV < 1024 := Nat.or_lt_two_pow (n := 10) hperm (by decide)
  have heq : mkPte pa perm = _ := mkPte_eq hperm
  refine ⟨?_, ?_, ?_⟩
  · rw [pte2pa_eq, heq]
    obtain ⟨k, rfl⟩ := hpa
    rw [Nat.mul_div_cancel_left _ (by decide), Nat.mul_comm pgSize k]
    congr 1
    omega
  · rw [pteFlags_eq, heq]
    omega
  · have hbit : (perm ||| pteV) % 2 = 1 := by
      rw [Nat.or_mod_two_eq_one]
      exact .inr rfl
    rw [valid_iff, heq]
    omega

lemma mkPte_and {m : ℕ} (hpa : pgSize ∣ pa) (hperm : perm < 1024) (hm : m < 1024) :
    mkPte pa perm &&& m = (perm ||| pteV) &&& m := by
  rw [and_flags _ _ hm, ← pteFlags_eq, (mkPte_spec hpa hperm).2.1]

lemma px_val (level va : ℕ) : (px level va).val = va / 2 ^ (12 + 9 * level) % 512 := by
  rw [px, Fin.val_ofNat, Nat.shiftRight_eq_div_pow]

/-- The number of the virtual page of an address. -/
def vpn (va : ℕ) : ℕ := va / pgSize

/-- The number of virtual pages below `MAXVA`. -/
def maxVpn : ℕ := 2 ^ 26

lemma vpn_mul (v : ℕ) : vpn (v * pgSize) = v := Nat.mul_div_cancel v (by decide)

lemma vpn_lt {va : ℕ} (h : va < maxVa) : vpn va < maxVpn := by
  rw [vpn, pgSize, maxVpn]
  rw [maxVa] at h
  omega

lemma mul_lt_maxVa (h : v < maxVpn) : v * pgSize < maxVa := by
  rw [pgSize, maxVa]
  rw [maxVpn] at h
  omega

lemma px_val_vpn (level va : ℕ) : (px level va).val = vpn va / 512 ^ level % 512 := by
  have hdiv : va / 2 ^ (12 + 9 * level) = vpn va / 512 ^ level := by
    rw [Nat.pow_add, ← Nat.div_div_eq_div_mul, Nat.pow_mul]
    rfl
  rw [px_val, hdiv]

lemma px_congr {a b : ℕ} (level : ℕ) (h : vpn a = vpn b) : px level a = px level b :=
  Fin.ext (by rw [px_val_vpn, px_val_vpn, h])

/-- **The three indices** determine the page. -/
lemma px_inj (hv : v < maxVpn) (hw : w < maxVpn) (h2 : px 2 (v * pgSize) = px 2 (w * pgSize))
    (h1 : px 1 (v * pgSize) = px 1 (w * pgSize)) (h0 : px 0 (v * pgSize) = px 0 (w * pgSize)) :
    v = w := by
  have e2 := congrArg Fin.val h2
  have e1 := congrArg Fin.val h1
  have e0 := congrArg Fin.val h0
  rw [px_val_vpn, px_val_vpn, vpn_mul, vpn_mul] at e2 e1 e0
  rw [maxVpn] at hv hw
  norm_num at e2 e1 e0
  omega

lemma exists_vpn (i j k : Fin 512) (hi : i.val < 256) :
    ∃ v < maxVpn, px 2 (v * pgSize) = i ∧ px 1 (v * pgSize) = j ∧ px 0 (v * pgSize) = k := by
  have hj := j.isLt
  have hk := k.isLt
  refine ⟨(i.val * 512 + j.val) * 512 + k.val, ?_, ?_, ?_, ?_⟩
  · rw [maxVpn]
    omega
  all_goals
    apply Fin.ext
    rw [px_val_vpn, vpn_mul]
    omega

lemma px_two_lt (h : v < maxVpn) : (px 2 (v * pgSize)).val < 256 := by
  rw [px_val_vpn, vpn_mul]
  rw [maxVpn] at h
  norm_num
  omega

/-! ### The memory -/

/-- The texts of `panic`. Four more values stand for what the code does not check: `depth` for the
recursion of `freewalk` getting too deep, `freeTwice` for a page freed that is on the free list,
`nullPointer` for an access through the null pointer, `outOfBounds` for one outside an array. -/
inductive VmPanic
  | walk | vaNotAligned | sizeNotAligned | size | remap | notAligned | leaf | kfree | uvmclear
  | addressShouldExist | depth | freeTwice | nullPointer | outOfBounds
  deriving DecidableEq

/-- Physical memory and the allocator; `kend` is the first page after the kernel, and `failures`
counts the calls of `kalloc` that have failed. -/
structure Mem where
  page : ℕ → Fin 512 → ℕ
  free : List ℕ
  deny : List Bool
  failures : ℕ
  kend : ℕ

/-- Programs on memory. -/
abbrev VmM := ExceptT VmPanic (StateM Mem)

def filled (b : ℕ) : Fin 512 → ℕ := fun _ => b * 0x0101010101010101

def Mem.setPage (m : Mem) (x : ℕ) (w : Fin 512 → ℕ) : Mem :=
  { m with page := Function.update m.page x w }

lemma Mem.setPage_self (m : Mem) (x : ℕ) (w : Fin 512 → ℕ) : (m.setPage x w).page x = w :=
  Function.update_self ..

lemma Mem.setPage_of_ne (m : Mem) {y : ℕ} (w : Fin 512 → ℕ) (h : y ≠ x) :
    (m.setPage x w).page y = m.page y :=
  Function.update_of_ne h ..

lemma Mem.setPage_setPage (m : Mem) (x : ℕ) (w w' : Fin 512 → ℕ) :
    (m.setPage x w).setPage x w' = m.setPage x w' := by
  rw [setPage, setPage, setPage, Function.update_idem]

/-- `memset` and `memmove` of a whole page. -/
def setPage (x : ℕ) (w : Fin 512 → ℕ) : VmM Unit := modify (·.setPage x w)

/-- `kalloc`; `none` is the null pointer. -/
def kalloc : VmM (Option ℕ) := do
  let m ← get
  if m.deny.headD false then
    set { m with deny := m.deny.tail, failures := m.failures + 1 }
    return none
  match m.free with
  | [] =>
    set { m with deny := m.deny.tail, failures := m.failures + 1 }
    return none
  | x :: free =>
    set ({ m with free := free, deny := m.deny.tail }.setPage x (filled 5))
    return some x

/-- `kfree`. The address of a page is page-aligned. The code goes on when the page is on the list
already; the model stops there, so that a program that returns has freed no page twice. -/
def kfree (x : ℕ) : VmM Unit := do
  let m ← get
  if x < m.kend ∨ physTop ≤ x then throw .kfree
  if x ∈ m.free then throw .freeTwice
  set ({ m with free := x :: m.free }.setPage x (filled 1))

/-- `*pte`. -/
def readPte (slot : ℕ × Fin 512) : VmM ℕ := do
  let m ← get
  return m.page slot.1 slot.2

def Mem.setEntry (m : Mem) (x : ℕ) (i : Fin 512) (w : ℕ) : Mem :=
  { m with page := Radix.set m.page x i w }

lemma Mem.setEntry_self (m : Mem) (x : ℕ) (i : Fin 512) (w : ℕ) : (m.setEntry x i w).page x i = w :=
  Radix.set_self

lemma Mem.setEntry_of_ne (m : Mem) {y : ℕ} {i j : Fin 512} (w : ℕ) (h : y ≠ x ∨ j ≠ i) :
    (m.setEntry x i w).page y j = m.page y j :=
  Radix.set_of_ne h

/-- `*pte = w`. -/
def writePte (slot : ℕ × Fin 512) (w : ℕ) : VmM Unit := modify (·.setEntry slot.1 slot.2 w)

/-- The program returns, without a panic, and the result and the memory meet `Q`. -/
def Returns {α : Type} (c : VmM α) (m : Mem) (Q : α → Mem → Prop) : Prop :=
  wp c Q (fun _ _ => False) m

namespace Returns

variable {α β : Type} {c : VmM α} {f : α → VmM β} {m : Mem} {Q Q' : α → Mem → Prop}
  {R : β → Mem → Prop}

lemma iff_wp : Returns c m Q ↔ wp c Q (fun _ _ => False) m := Iff.rfl

lemma of_eq {a : α} {m' : Mem} (h : runFrom c m = (.ok a, m')) : Returns c m Q ↔ Q a m' :=
  wp_of_eq h

lemma mono (h : Returns c m Q) (hQ : ∀ a m', Q a m' → Q' a m') : Returns c m Q' :=
  wp_mono h hQ fun _ _ => id

lemma and (h : Returns c m Q) (h' : Returns c m Q') :
    Returns c m fun a m' => Q a m' ∧ Q' a m' := by
  rw [Returns, wp] at h h' ⊢
  split at h <;> simp_all

lemma bind (h : Returns c m Q) (hf : ∀ a m', Q a m' → Returns (f a) m' R) : Returns (c >>= f) m R :=
  wp_bind_of h hf

lemma bind_iff : Returns (c >>= f) m R ↔ Returns c m fun a m' => Returns (f a) m' R := wp_bind

lemma pure {a : α} (h : Q a m) : Returns (Pure.pure a) m Q := h

lemma ite {p : Prop} [Decidable p] {c' : VmM α} (h : p → Returns c m Q)
    (h' : ¬ p → Returns c' m Q) : Returns (if p then c else c') m Q :=
  wp_ite.mpr ⟨h, h'⟩

lemma readPte {f : ℕ → VmM β} {slot : ℕ × Fin 512} (h : Returns (f (m.page slot.1 slot.2)) m R) :
    Returns (Xv6Riscv.readPte slot >>= f) m R := h

lemma writePte {f : Unit → VmM β} {slot : ℕ × Fin 512}
    (h : Returns (f ()) (m.setEntry slot.1 slot.2 w) R) :
    Returns (Xv6Riscv.writePte slot w >>= f) m R := h

lemma writePte_end {Q : Unit → Mem → Prop} {slot : ℕ × Fin 512}
    (h : Q () (m.setEntry slot.1 slot.2 w)) : Returns (Xv6Riscv.writePte slot w) m Q := h

lemma setPage {f : Unit → VmM β} {w : Fin 512 → ℕ} (h : Returns (f ()) (m.setPage x w) R) :
    Returns (Xv6Riscv.setPage x w >>= f) m R := h

lemma kalloc {Q : Option ℕ → Mem → Prop}
    (hnone : ∀ deny, Q none { m with deny := deny, failures := m.failures + 1 })
    (hsome : ∀ x free deny, m.free = x :: free →
      Q (some x) ({ m with free := free, deny := deny }.setPage x (filled 5))) :
    Returns Xv6Riscv.kalloc m Q := by
  rw [Returns, Xv6Riscv.kalloc, wp_bind, wp_get]
  by_cases hdeny : m.deny.headD false = true
  · rw [if_pos hdeny]
    exact hnone _
  · rw [if_neg hdeny]
    cases hfree : m.free with
    | nil =>
      have h := hnone m.deny.tail
      rw [hfree] at h
      exact h
    | cons x free => exact hsome x free _ hfree

lemma kfree {Q : Unit → Mem → Prop} (hlo : m.kend ≤ x) (hhi : x < physTop) (hfree : x ∉ m.free)
    (h : Q () ({ m with free := x :: m.free }.setPage x (filled 1))) :
    Returns (Xv6Riscv.kfree x) m Q := by
  rw [Returns, Xv6Riscv.kfree, wp_bind, wp_get,
    if_neg (not_or.mpr ⟨not_lt.mpr hlo, not_le.mpr hhi⟩)]
  change wp (if x ∈ m.free then _ else _) _ _ _
  rw [if_neg hfree]
  exact h

lemma forM {l : List α} {f : α → VmM Unit} (I : List α → Mem → Prop)
    (hstep : ∀ pre x m, pre ++ [x] <+: l → I pre m → Returns (f x) m fun _ m' => I (pre ++ [x]) m')
    (h0 : I [] m) : Returns (ForM.forM l f) m fun _ m' => I l m' :=
  wp_forM I hstep h0

end Returns

-- from here on only the rules above are used; programs are not to be run in proofs
attribute [irreducible] Returns

/-! ### Ownership -/

/-- A program may own the pages `F`: they are not on the free list, and the list is in order. -/
structure Holds (m : Mem) (F : Set ℕ) : Prop where
  nodup : m.free.Nodup
  apart : ∀ x ∈ F, x ∉ m.free
  range : ∀ x, x ∈ F ∨ x ∈ m.free → m.kend ≤ x ∧ x < physTop
  pos : 0 < m.kend

variable {F : Set ℕ}

lemma Holds.subset {m : Mem} {G : Set ℕ} (h : Holds m F) (hGF : G ⊆ F) : Holds m G where
  __ := h
  apart x hx := h.apart x (hGF hx)
  range x hx := h.range x (hx.imp_left (@hGF x))

/-- **A program trades pages with the allocator**: it owned `F` before and owns `F'` after, and has
changed no page it did not own or get. -/
structure Trade (m : Mem) (F : Set ℕ) (m' : Mem) (F' : Set ℕ) : Prop where
  holds : Holds m' F'
  pages : ∀ x, x ∈ F' ∨ x ∈ m'.free ↔ x ∈ F ∨ x ∈ m.free
  frame : ∀ x, x ∉ F → x ∉ m.free → m'.page x = m.page x
  kend : m'.kend = m.kend
  failures : m.failures ≤ m'.failures

namespace Trade

variable {m m' m'' : Mem} {F F' F'' G : Set ℕ}

lemma refl (h : Holds m F) : Trade m F m F :=
  ⟨h, fun _ => Iff.rfl, fun _ _ _ => rfl, rfl, le_rfl⟩

lemma trans (h : Trade m F m' F') (h' : Trade m' F' m'' F'') : Trade m F m'' F'' where
  holds := h'.holds
  pages x := (h'.pages x).trans (h.pages x)
  frame x hF hfree := by
    have hout : ¬ (x ∈ F' ∨ x ∈ m'.free) := by
      rw [h.pages x]
      exact not_or.mpr ⟨hF, hfree⟩
    rw [h'.frame x (fun hx => hout (.inl hx)) (fun hx => hout (.inr hx)), h.frame x hF hfree]
  kend := h'.kend.trans h.kend
  failures := h.failures.trans h'.failures

lemma not_mem (h : Trade m F m' F') (hF : x ∉ F) (hfree : x ∉ m.free) : x ∉ F' ∧ x ∉ m'.free := by
  rw [← not_or, h.pages x]
  exact not_or.mpr ⟨hF, hfree⟩

/-- **The frame rule**: other pages stay owned, with their contents. -/
lemma frameOn (h : Trade m F m' F') (hFG : Holds m (F ∪ G)) (hd : ∀ x ∈ G, x ∉ F) :
    Trade m (F ∪ G) m' (F' ∪ G) where
  holds := by
    have hout := fun x (hx : x ∈ G) => h.not_mem (hd x hx) (hFG.apart x (.inr hx))
    refine ⟨h.holds.nodup, ?_, ?_, h.holds.pos⟩
    · rintro x (hx | hx)
      · exact h.holds.apart x hx
      · exact (hout x hx).2
    · rintro x ((hx | hx) | hx)
      · exact h.holds.range x (.inl hx)
      · rw [h.kend]
        exact hFG.range x (.inl (.inr hx))
      · exact h.holds.range x (.inr hx)
  pages x := by
    have := h.pages x
    simp only [Set.mem_union]
    tauto
  frame x hx hfree := h.frame x (fun hF => hx (.inl hF)) hfree
  __ := h

lemma page_eq (h : Trade m F m' F') (hFG : Holds m (F ∪ G)) (hd : ∀ x ∈ G, x ∉ F) (hx : x ∈ G) :
    m'.page x = m.page x :=
  h.frame x (hd x hx) (hFG.apart x (.inr hx))

end Trade

lemma Trade.denied {m : Mem} (h : Holds m F) (deny : List Bool) :
    Trade m F { m with deny := deny, failures := m.failures + 1 } F :=
  ⟨{ h with }, fun _ => Iff.rfl, fun _ _ _ => rfl, rfl, Nat.le_succ _⟩

lemma Trade.taken {m : Mem} (h : Holds m F) {free : List ℕ} (hfree : m.free = x :: free)
    (deny : List Bool) (w : Fin 512 → ℕ) :
    Trade m F ({ m with free := free, deny := deny }.setPage x w) (insert x F) := by
  have hnd := h.nodup
  rw [hfree, List.nodup_cons] at hnd
  have hmem : ∀ y, y ∈ m.free ↔ y = x ∨ y ∈ free := fun y => by rw [hfree, List.mem_cons]
  have hpages : ∀ y, y ∈ insert x F ∨ y ∈ free ↔ y ∈ F ∨ y ∈ m.free := fun y => by
    rw [hmem, Set.mem_insert_iff]
    tauto
  refine ⟨⟨hnd.2, ?_, fun y hy => h.range y ((hpages y).mp hy), h.pos⟩, hpages,
    fun y _ hy => ?_, rfl, le_rfl⟩
  · rintro y (rfl | hy) hyf
    · exact hnd.1 hyf
    · exact h.apart y hy ((hmem y).mpr (.inr hyf))
  · refine Function.update_of_ne ?_ ..
    rintro rfl
    exact hy ((hmem _).mpr (.inl rfl))

lemma Trade.write {m : Mem} (h : Holds m F) (hx : x ∈ F) (w : Fin 512 → ℕ) :
    Trade m F (m.setPage x w) F :=
  ⟨{ h with }, fun _ => Iff.rfl,
    fun _ hy _ => Function.update_of_ne (ne_of_mem_of_not_mem hx hy).symm .., rfl, le_rfl⟩

lemma Trade.given {m : Mem} (h : Holds m (insert x F)) (hx : x ∉ F) (w : Fin 512 → ℕ) :
    Trade m (insert x F) ({ m with free := x :: m.free }.setPage x w) F := by
  have hxf : x ∉ m.free := h.apart x (Set.mem_insert _ _)
  have hpages : ∀ y, y ∈ F ∨ y ∈ x :: m.free ↔ y ∈ insert x F ∨ y ∈ m.free := fun y => by
    rw [List.mem_cons, Set.mem_insert_iff]
    tauto
  refine ⟨⟨List.nodup_cons.mpr ⟨hxf, h.nodup⟩, ?_, fun y hy => h.range y ((hpages y).mp hy), h.pos⟩,
    hpages, fun y hy _ => ?_, rfl, le_rfl⟩
  · intro y hy hyf
    rcases List.mem_cons.mp hyf with rfl | hyf
    · exact hx hy
    · exact h.apart y (Set.mem_insert_of_mem _ hy) hyf
  · refine Function.update_of_ne ?_ ..
    rintro rfl
    exact hy (Set.mem_insert _ _)

/-- **The allocator**, for a program that owns `F`. -/
lemma kalloc_runs {m : Mem} (h : Holds m F) :
    Returns kalloc m fun res m' =>
      match res with
      | none => Trade m F m' F ∧ m'.page = m.page ∧ m.failures < m'.failures
      | some x => x ∈ m.free ∧ Trade m F m' (insert x F) := by
  refine Returns.kalloc (fun deny => ⟨Trade.denied h deny, rfl, Nat.lt_succ_self _⟩) ?_
  intro x free deny hfree
  refine ⟨?_, Trade.taken h hfree deny _⟩
  rw [hfree]
  exact List.mem_cons_self

/-- **A page is freed** by the program that owns it. -/
lemma kfree_runs {m : Mem} (h : Holds m (insert x F)) (hx : x ∉ F) :
    Returns (kfree x) m fun _ m' => Trade m (insert x F) m' F := by
  have hrange := h.range x (.inl (Set.mem_insert _ _))
  exact Returns.kfree hrange.1 hrange.2 (h.apart x (Set.mem_insert _ _)) (Trade.given h hx _)

end Xv6Riscv
