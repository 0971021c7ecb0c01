import Xv6Riscv.Vm.UserMemory

/-!
User memory grows, is freed, and is faulted in (`vm.c`).
-/

namespace Xv6Riscv

open Function (update update_of_ne update_self)
open Wp

/-! ### The code -/

/-- The loop of `uvmalloc`, with `n` pages to go. -/
def uvmallocLoop (pagetable oldsz newsz xperm : ℕ) : ℕ → ℕ → VmM ℕ
  | 0, _ => pure newsz
  | n + 1, a => do
      match ← kalloc with
      | none => do
          let _ ← uvmdealloc pagetable a oldsz
          pure 0
      | some mem => do
          setPage mem (filled 0)
          let res ← mappages pagetable a pgSize (mem <<< 12) (pteR ||| pteU ||| xperm)
          if res ≠ 0 then do
            kfree mem
            let _ ← uvmdealloc pagetable a oldsz
            pure 0
          else uvmallocLoop pagetable oldsz newsz xperm n (a + pgSize)

def uvmalloc (pagetable oldsz newsz xperm : ℕ) : VmM ℕ :=
  if newsz < oldsz then pure oldsz
  else
    uvmallocLoop pagetable (pgRoundUp oldsz) newsz xperm
      ((newsz - pgRoundUp oldsz + pgSize - 1) / pgSize) (pgRoundUp oldsz)

def uvmfree (pagetable sz : ℕ) : VmM Unit := do
  if 0 < sz then uvmunmap pagetable 0 (pgRoundUp sz / pgSize) true
  freewalk 3 pagetable

def ismapped (pagetable va : ℕ) : VmM Bool := do
  match ← walk pagetable va false with
  | none => pure false
  | some slot => do
      let pte ← readPte slot
      if Valid pte then pure true else pure false

/-- `vmfault`; the code does not use its argument `read`. The result is an address, 0 if there is
none. -/
def vmfault (pagetable psz va : ℕ) : VmM ℕ :=
  if psz ≤ va then pure 0
  else do
    let mapped ← ismapped pagetable (pgRoundDown va)
    if mapped then pure 0
    else do
      match ← kalloc with
      | none => pure 0
      | some mem => do
          setPage mem (filled 0)
          let res ← mappages pagetable (pgRoundDown va) pgSize (mem <<< 12)
            (pteW ||| pteU ||| pteR)
          if res ≠ 0 then do
            kfree mem
            pure 0
          else pure (mem <<< 12)

variable {m m' : Mem} {r v w x : ℕ} {g : ℕ → Option Cell}

/-! ### `uvmalloc` -/

/-- The cells with `n` new cells from `v` on. -/
def fillRange (g : ℕ → Option Cell) (v n : ℕ) (c : Cell) : ℕ → Option Cell := fun w =>
  if v ≤ w ∧ w < v + n then some c else g w

lemma fillRange_zero (g : ℕ → Option Cell) (v : ℕ) (c : Cell) : fillRange g v 0 c = g := by
  funext w
  rw [fillRange, if_neg (by omega)]

lemma fillRange_succ (g : ℕ → Option Cell) (v n : ℕ) (c : Cell) :
    fillRange (update g v (some c)) (v + 1) n c = fillRange g v (n + 1) c := by
  funext w
  rw [fillRange, fillRange]
  by_cases hwv : w = v
  · rw [hwv, update_self, ite_self, if_pos (by omega)]
  · rw [update_of_ne hwv]
    exact if_congr (by omega) rfl rfl

/-- There is a page at every user address below `v`. -/
def Full (g : ℕ → Option Cell) (v : ℕ) : Prop := ∀ w ∈ userPages, w < v → g w ≠ none

/-- **Pages without a gap** fit into physical memory. -/
lemma Full.le_physTop (hO : Owned m r userPages) (h : Full (m.cell r) v) : v ≤ physTop := by
  by_contra hlt
  push Not at hlt
  -- one more page than there are physical ones, and two of them would have the same page
  have hback : ∀ w, w ≤ physTop → ∃ x, m.back r w = some x ∧ x < physTop := by
    intro w hw
    have huser : w ∈ userPages := lt_of_le_of_lt hw (by decide)
    cases hx : m.back r w with
    | none =>
      have hnone : m.cell r w = none := Mem.cell_eq_none.mpr (Mem.back_eq_none.mp hx)
      exact absurd hnone (h w huser (lt_of_le_of_lt hw hlt))
    | some x => exact ⟨x, rfl, (hO.holds.range x (.inl (.inr ⟨w, huser, hx⟩))).2⟩
  choose! f hf hlt' using hback
  have hcard := Finset.card_le_card_of_injOn (s := Finset.range (physTop + 1))
    (t := Finset.range physTop) f
    (fun w hw => Finset.mem_coe.mpr (Finset.mem_range.mpr
      (hlt' w (Nat.lt_succ_iff.mp (Finset.mem_range.mp hw)))))
    (fun w hw u hu heq => by
      have hw' := Nat.lt_succ_iff.mp (Finset.mem_range.mp hw)
      have hu' := Nat.lt_succ_iff.mp (Finset.mem_range.mp hu)
      refine hO.inj w (lt_of_le_of_lt hw' (by decide)) u (lt_of_le_of_lt hu' (by decide)) (f w)
        (hf w hw') ?_
      rw [heq]
      exact hf u hu')
  rw [Finset.card_range, Finset.card_range] at hcard
  omega

/-- The cell of a page that `uvmalloc` maps. -/
def newCell (xperm : ℕ) : Cell := (pteR ||| pteU ||| xperm ||| pteV, filled 0)

lemma fillRange_congr {g' : ℕ → Option Cell} {n : ℕ} (c : Cell) (h : g w = g' w) :
    fillRange g v n c w = fillRange g' v n c w := by
  rw [fillRange, fillRange, h]

lemma newPerm_lt {xperm : ℕ} (h : xperm < 1024) : pteR ||| pteU ||| xperm < 1024 :=
  Nat.or_lt_two_pow (n := 10) (by decide) h

lemma newPerm_rwx (xperm : ℕ) : (pteR ||| pteU ||| xperm) &&& pteRWX ≠ 0 := by
  intro h
  have hbit := congrArg (Nat.testBit · 1) h
  simp only [Nat.testBit_and, Nat.testBit_or, Nat.zero_testBit] at hbit
  revert hbit
  cases xperm.testBit 1 <;> decide

section Alloc

variable {o newsz xperm : ℕ}

/-- The undoing in the loop of `uvmalloc`: the pages from `o` on are freed. -/
lemma uvmalloc_undo (hT : Turns m r m' (m.cell r)) (hf : m.failures < m'.failures) (hov : o ≤ v)
    (hv : v ∈ userPages) (hnone : ∀ w ∈ userPages, v ≤ w → m.cell r w = none) :
    Returns (do
      let _ ← uvmdealloc r (v * pgSize) (o * pgSize)
      pure 0) m' fun res m'' => res = 0 ∧ m.failures < m''.failures ∧
        Turns m r m'' (fun w => if o ≤ w then none else m.cell r w) := by
  have hle : v * pgSize ≤ trapframeVa := by
    rw [trapframeVa_eq]
    exact Nat.mul_le_mul_right _ (le_of_lt hv)
  refine (uvmdealloc_runs hT.owned hle).bind fun _ m'' h => ?_
  obtain ⟨_, hT'⟩ := h
  rw [pagesOf_mul, pagesOf_mul] at hT'
  refine Returns.pure ⟨rfl, lt_of_lt_of_le hf hT'.trade.failures,
    (hT.trans hT' fun _ _ hm _ => hm).congr fun w hw => ?_⟩
  rw [unmapRange, hT.cells w hw]
  by_cases how : o ≤ w
  · rw [if_pos how]
    by_cases hwv : w < v
    · rw [if_pos (by omega)]
    · rw [if_neg (by omega), hnone w hw (not_lt.mp hwv)]
  · rw [if_neg (by omega), if_neg how]

/-- **The loop of `uvmalloc`** maps new pages from `v` on, or frees those from `o` on. It stays
below the trapframe because it is asked to, or because memory runs out before. -/
lemma uvmallocLoop_runs (hx : xperm < 1024) : ∀ (n v : ℕ) (m : Mem), Owned m r userPages → o ≤ v →
    (v + n ≤ trapVpn ∨ Full (m.cell r) v) →
    (∀ w ∈ userPages, v ≤ w → m.cell r w = none) →
    Returns (uvmallocLoop r (o * pgSize) newsz xperm n (v * pgSize)) m fun res m' =>
      (res = newsz ∧ v + n ≤ trapVpn ∧ Turns m r m' (fillRange (m.cell r) v n (newCell xperm))) ∨
      (res = 0 ∧ m.failures < m'.failures ∧
        Turns m r m' (fun w => if o ≤ w then none else m.cell r w))
  | 0, v, m, hO, _, hbound, _ => by
      refine Returns.pure (.inl ⟨rfl, ?_, ?_⟩)
      · rcases hbound with h | h
        · exact h
        · exact (Full.le_physTop hO h).trans (by decide)
      · rw [fillRange_zero]
        exact Turns.refl hO
  | n + 1, v, m, hO, hov, hbound, hnone => by
      have hv : v ∈ userPages := by
        rcases hbound with h | h
        · exact lt_of_lt_of_le (by omega : v < v + (n + 1)) h
        · exact lt_of_le_of_lt (Full.le_physTop hO h) (by decide)
      have hlookup : m.lookup r v = none := Mem.cell_eq_none.mp (hnone v hv le_rfl)
      refine Returns.bind_iff.mpr (Returns.kalloc (fun deny => ?_) fun x free deny hfree => ?_)
      · exact (uvmalloc_undo (Turns.denied hO deny) (Nat.lt_succ_self _) hov hv hnone).mono
          fun _ _ h => .inr h
      · refine Returns.setPage ?_
        rw [Mem.setPage_setPage]
        refine mapNew_runs hO hv hlookup (newPerm_lt hx) (newPerm_rwx xperm) hfree
          (fun m1 hT hf => ?_) fun m1 hT _ => ?_
        · exact (uvmalloc_undo hT hf hov hv hnone).mono fun _ _ h => .inr h
        · have hstep : (v + 1) * pgSize = v * pgSize + pgSize := Nat.succ_mul v pgSize
          have hnone1 : ∀ w ∈ userPages, v + 1 ≤ w → m1.cell r w = none := fun w hw hvw => by
            rw [hT.cells w hw, update_of_ne (by omega)]
            exact hnone w hw (by omega)
          have hbound1 : v + 1 + n ≤ trapVpn ∨ Full (m1.cell r) (v + 1) := by
            refine hbound.imp (fun h => by omega) fun h w hw hlt => ?_
            rw [hT.cells w hw]
            by_cases hwv : w = v
            · rw [hwv, update_self]
              exact Option.some_ne_none _
            · rw [update_of_ne hwv]
              exact h w hw (by omega)
          rw [← hstep]
          refine (uvmallocLoop_runs hx n (v + 1) m1 hT.owned (by omega) hbound1 hnone1).mono
            fun res m2 hres => ?_
          have htrans := fun {g} (h : Turns m1 r m2 g) =>
            hT.trans h fun _ _ hm _ => update_ne_none hm
          rcases hres with ⟨rfl, hle, hT2⟩ | ⟨rfl, hf, hT2⟩
          · refine .inl ⟨rfl, by omega, (htrans hT2).congr fun w hw => ?_⟩
            rw [fillRange_congr _ (hT.cells w hw), ← fillRange_succ]
            rfl
          · refine .inr ⟨rfl, lt_of_le_of_lt hT.trade.failures hf,
              (htrans hT2).congr fun w hw => ?_⟩
            rw [hT.cells w hw]
            by_cases how : o ≤ w
            · rw [if_pos how, if_pos how]
            · rw [if_neg how, if_neg how, update_of_ne (by omega)]

/-- **`uvmalloc`** grows user memory, or leaves it as it is. -/
lemma uvmalloc_runs {oldsz : ℕ} (hx : xperm < 1024) (hO : Owned m r userPages)
    (hold : oldsz ≤ trapframeVa) (hbound : newsz ≤ trapframeVa ∨ Full (m.cell r) (pagesOf oldsz))
    (hnone : ∀ w ∈ userPages, pagesOf oldsz ≤ w → m.cell r w = none) :
    Returns (uvmalloc r oldsz newsz xperm) m fun res m' =>
      (res = max oldsz newsz ∧ pagesOf (max oldsz newsz) ≤ trapVpn ∧
        Turns m r m' (fillRange (m.cell r) (pagesOf oldsz) (pagesOf newsz - pagesOf oldsz)
          (newCell xperm))) ∨
      (res = 0 ∧ m.failures < m'.failures ∧ Turns m r m' (m.cell r)) := by
  rw [uvmalloc]
  refine Returns.ite (fun hlt => ?_) fun hle => ?_
  · refine Returns.pure (.inl ⟨(max_eq_left hlt.le).symm, ?_, ?_⟩)
    · rw [max_eq_left hlt.le]
      exact pagesOf_le hold
    · rw [Nat.sub_eq_zero_of_le (pagesOf_mono hlt.le), fillRange_zero]
      exact Turns.refl hO
  · rw [not_lt] at hle
    have hcount : (newsz - pgRoundUp oldsz + pgSize - 1) / pgSize =
        pagesOf newsz - pagesOf oldsz := by
      rw [pgRoundUp_eq hold, pagesOf, pagesOf, pgSize]
      omega
    have hmono := pagesOf_mono hle
    rw [hcount, pgRoundUp_eq hold]
    refine (uvmallocLoop_runs hx _ _ m hO le_rfl ?_ hnone).mono fun res m' hres => ?_
    · refine hbound.imp (fun h => ?_) id
      have := pagesOf_le h
      omega
    · rw [max_eq_right hle]
      rcases hres with ⟨rfl, hle', hT⟩ | ⟨rfl, hf, hT⟩
      · exact .inl ⟨rfl, by omega, hT⟩
      · refine .inr ⟨rfl, hf, hT.congr fun w hw => ?_⟩
        split_ifs with h
        · exact (hnone w hw h).symm
        · rfl

end Alloc

/-! ### `uvmfree` -/

lemma Owned.freewalk_runs (hO : Owned m r userPages) (hcells : ∀ w ∈ userPages, m.cell r w = none)
    (hhigh : ∀ w ∉ userPages, m.lookup r w = none) :
    Returns (freewalk 3 r) m fun _ m' => Trade m (m.foot r userPages) m' ∅ := by
  have hlookup : ∀ w, m.lookup r w = none := fun w => by
    by_cases hw : w ∈ userPages
    · exact Mem.cell_eq_none.mp (hcells w hw)
    · exact hhigh w hw
  have hfoot : m.foot r userPages = m.nodes r := by
    rw [Mem.foot]
    refine Set.union_eq_self_of_subset_right ?_
    rintro x ⟨w, _, hw⟩
    rw [Mem.back_eq_none.mpr (hlookup w)] at hw
    cases hw
  rw [hfoot]
  exact (Xv6Riscv.freewalk_runs hO.space (funext hlookup)).mono fun _ _ h => h.trade

/-- **`uvmfree`** frees the table and the pages behind it, if there are none above the size. -/
lemma uvmfree_runs {sz : ℕ} (hO : Owned m r userPages) (hsz : sz ≤ trapframeVa)
    (hcells : ∀ w ∈ userPages, pagesOf sz ≤ w → m.cell r w = none)
    (hhigh : ∀ w ∉ userPages, m.lookup r w = none) :
    Returns (uvmfree r sz) m fun _ m' => Trade m (m.foot r userPages) m' ∅ := by
  rw [uvmfree]
  refine Returns.ite (fun _ => ?_) fun hzero => ?_
  · rw [pgRoundUp_eq hsz, Nat.mul_div_cancel _ (by decide), ← Nat.zero_mul pgSize]
    have hle : 0 + pagesOf sz ≤ trapVpn := by
      rw [Nat.zero_add]
      exact pagesOf_le hsz
    refine (uvmunmap_user hO hle).bind fun _ m1 hT => ?_
    refine (hT.owned.freewalk_runs (fun w hw => ?_) fun w hw => ?_).mono
      fun _ _ h => hT.trade.trans h
    · rw [hT.cells w hw, unmapRange]
      split_ifs with h
      · rfl
      · exact hcells w hw (by omega)
    · rw [hT.high w hw, hhigh w hw]
  · obtain rfl : sz = 0 := by omega
    exact hO.freewalk_runs (fun w hw => hcells w hw (Nat.zero_le w)) hhigh

/-! ### `vmfault` -/

lemma ismapped_eq {va : ℕ} (hva : va < maxVa) :
    runFrom (ismapped r va) m = (.ok (m.lookup r (vpn va)).isSome, m) := by
  rw [ismapped, runFrom_bind_ok (walk_false hva)]
  cases hx : m.node r (leafPath (vpn va)) with
  | none =>
    rw [Mem.lookup_of_node_none hx]
    rfl
  | some x =>
    rw [Mem.lookup_of_node (vpn_lt hva) hx]
    change runFrom (if Valid (m.page x (leafIndex (vpn va))) then _ else _) m = _
    split_ifs <;> rfl

/-- The cell of a page that `vmfault` maps. -/
def faultCell : Cell := (pteW ||| pteU ||| pteR ||| pteV, filled 0)

lemma vpn_pgRoundDown (va : ℕ) : pgRoundDown va = vpn va * pgSize := rfl

/-- **A page fault** below the size maps a page if there is none, and memory is left. -/
lemma vmfault_runs {psz va : ℕ} (hO : Owned m r userPages) (hsz : psz ≤ trapframeVa) :
    Returns (vmfault r psz va) m fun res m' =>
      (res = 0 ∧ Turns m r m' (m.cell r) ∧
        (psz ≤ va ∨ m.cell r (vpn va) ≠ none ∨ m.failures < m'.failures)) ∨
      (va < psz ∧ m.cell r (vpn va) = none ∧
        Turns m r m' (update (m.cell r) (vpn va) (some faultCell)) ∧
        ∃ x, 0 < x ∧ res = x <<< 12 ∧ m'.back r (vpn va) = some x) := by
  rw [vmfault]
  refine Returns.ite (fun hle => ?_) fun hlt => ?_
  · exact Returns.pure (.inl ⟨rfl, Turns.refl hO, .inl hle⟩)
  · rw [not_le] at hlt
    have hv : vpn va ∈ userPages := lt_of_lt_of_le (vpn_lt_pagesOf hlt) (pagesOf_le hsz)
    rw [vpn_pgRoundDown, Returns.bind_iff,
      Returns.of_eq (ismapped_eq (mul_lt_maxVa (userPages_lt hv))), vpn_mul]
    refine Returns.ite (fun hmapped => ?_) fun hmapped => ?_
    · refine Returns.pure (.inl ⟨rfl, Turns.refl hO, .inr (.inl fun h => ?_)⟩)
      rw [Mem.cell_eq_none.mp h] at hmapped
      exact absurd hmapped (by decide)
    · have hnone : m.lookup r (vpn va) = none := by
        rwa [Bool.not_eq_true, Option.isSome_eq_false_iff, Option.isNone_iff_eq_none] at hmapped
      refine Returns.bind_iff.mpr (Returns.kalloc (fun deny => ?_) fun x free deny hfree => ?_)
      · exact Returns.pure (.inl ⟨rfl, Turns.denied hO deny, .inr (.inr (Nat.lt_succ_self _))⟩)
      · refine Returns.setPage ?_
        rw [Mem.setPage_setPage]
        refine mapNew_runs hO hv hnone (by decide) (by decide) hfree
          (fun m1 hT hf => Returns.pure (.inl ⟨rfl, hT, .inr (.inr hf)⟩))
          fun m1 hT hback => Returns.pure
          (.inr ⟨hlt, Mem.cell_eq_none.mpr hnone, hT, x, ?_, rfl, hback⟩)
        have hmem : x ∈ m.free := hfree ▸ List.mem_cons_self
        exact lt_of_lt_of_le hO.holds.pos (hO.holds.range x (.inr hmem)).1

end Xv6Riscv
