import Xv6Riscv.Vm.Grow

/-!
The page table of a process (`proc.c`): user memory, with the trapframe and the trampoline above it.
-/

namespace Xv6Riscv

open Function (update update_eq_self update_idem update_of_ne update_self)
open Wp

/-! ### The code -/

/-- The address of `trampoline`. The linker decides it; only that it is page-aligned matters
here. -/
def trampoline : ℕ := 0x80007000

/-- `proc_pagetable`; the trapframe is given by its page. -/
def procPagetable (trapframe : ℕ) : VmM (Option ℕ) := do
  match ← uvmcreate with
  | none => pure none
  | some pagetable => do
      let res ← mappages pagetable trampolineVa pgSize trampoline (pteR ||| pteX)
      if res < 0 then do
        uvmfree pagetable 0
        pure none
      else do
        let res ← mappages pagetable trapframeVa pgSize (trapframe <<< 12) (pteR ||| pteW)
        if res < 0 then do
          uvmunmap pagetable trampolineVa 1 false
          uvmfree pagetable 0
          pure none
        else pure (some pagetable)

def procFreepagetable (pagetable sz : ℕ) : VmM Unit := do
  uvmunmap pagetable trampolineVa 1 false
  uvmunmap pagetable trapframeVa 1 false
  uvmfree pagetable sz

/-! ### The pages above user memory -/

def highEntries (tf v : ℕ) : Option ℕ :=
  if v = trapVpn then some (mkPte (tf <<< 12) (pteR ||| pteW))
  else if v = trapVpn + 1 then some (mkPte trampoline (pteR ||| pteX))
  else none

/-- **The table of a process**: it owns its user pages, has none above the size, and maps the
trapframe and the trampoline. -/
structure UserSpace (m : Mem) (r tf sz : ℕ) : Prop where
  owned : Owned m r userPages
  size : sz ≤ trapframeVa
  below : ∀ v ∈ userPages, pagesOf sz ≤ v → m.cell r v = none
  high : ∀ v ∉ userPages, m.lookup r v = highEntries tf v

variable {m m' : Mem} {r tf sz v : ℕ} {g : ℕ → Option Cell}

lemma UserSpace.turns {sz' : ℕ} (h : UserSpace m r tf sz) (hT : Turns m r m' g)
    (hsize : sz' ≤ trapframeVa) (hbelow : ∀ v ∈ userPages, pagesOf sz' ≤ v → g v = none) :
    UserSpace m' r tf sz' where
  owned := hT.owned
  size := hsize
  below v hv hle := (hT.cells v hv).trans (hbelow v hv hle)
  high v hv := (hT.high v hv).trans (h.high v hv)

/-- **Other code** leaves the table alone. -/
lemma UserSpace.frame {F F' : Set ℕ} (h : UserSpace m r tf sz) (hT : Trade m F m' F')
    (hd : ∀ x ∈ m.foot r userPages, x ∉ F) : UserSpace m' r tf sz := by
  obtain ⟨hO, _, hlookup, hcell, _⟩ := h.owned.frame hT hd
  exact ⟨hO, h.size, fun v hv hle => (hcell v hv).trans (h.below v hv hle),
    fun v hv => (congrFun hlookup v).trans (h.high v hv)⟩

lemma trampolineVa_eq : trampolineVa = (trapVpn + 1) * pgSize := by decide

lemma trap_not_mem : trapVpn ∉ userPages := fun h => lt_irrefl trapVpn h

lemma tramp_not_mem : trapVpn + 1 ∉ userPages := fun h => by
  have : trapVpn + 1 < trapVpn := h
  omega

lemma Owned.set_high {e : Option ℕ} (hO : Owned m r userPages) (hv : v ∉ userPages)
    (hB : Becomes m r m' (update (m.lookup r) v e)) :
    Owned m' r userPages ∧ Trade m (m.foot r userPages) m' (m'.foot r userPages) ∧
      ∀ w ∈ userPages, m'.cell r w = m.cell r w :=
  hO.becomes hB fun _ hw => update_of_ne (ne_of_mem_of_not_mem hw hv) ..

lemma unmapHigh_runs (hO : Owned m r userPages) (hv : v ∉ userPages) (hlt : v < maxVpn) :
    Returns (uvmunmap r (v * pgSize) 1 false) m fun _ m' =>
      Owned m' r userPages ∧ Trade m (m.foot r userPages) m' (m'.foot r userPages) ∧
        (∀ w ∈ userPages, m'.cell r w = m.cell r w) ∧
        m'.lookup r = update (m.lookup r) v none := by
  refine (uvmunmap_runs false hO.space hlt nofun).mono fun _ m' hU => ?_
  have hlookup := hU.lookup
  rw [← unmapRange_succ, unmapRange_zero] at hlookup
  have hT := hU.trade
  rw [Mem.dropped, if_neg Bool.false_ne_true, Set.union_empty] at hT
  obtain ⟨hO', hT', hcells⟩ := hO.set_high hv ⟨hU.space, hT, hlookup⟩
  exact ⟨hO', hT', hcells, hlookup⟩

lemma mapHigh_runs {pa perm : ℕ} (hperm : perm < 1024) (hrwx : perm &&& pteRWX ≠ 0)
    (hO : Owned m r userPages) (hv : v ∉ userPages) (hlt : v < maxVpn) (hnone : m.lookup r v = none)
    (hpa : pgSize ∣ pa) :
    Returns (mappages r (v * pgSize) pgSize pa perm) m fun res m' =>
      Owned m' r userPages ∧ Trade m (m.foot r userPages) m' (m'.foot r userPages) ∧
        (∀ w ∈ userPages, m'.cell r w = m.cell r w) ∧
        ((res = 0 ∧ m'.lookup r = update (m.lookup r) v (some (mkPte pa perm))) ∨
          (res = -1 ∧ m.failures < m'.failures ∧ m'.lookup r = m.lookup r)) := by
  refine (mappages_runs hperm hrwx hO.space hlt hnone hpa).mono fun res m' hres => ?_
  rcases hres with ⟨rfl, hB⟩ | ⟨rfl, hf, hK⟩
  · obtain ⟨hO', hT, hcells⟩ := hO.set_high hv hB
    exact ⟨hO', hT, hcells, .inl ⟨rfl, hB.lookup⟩⟩
  · obtain ⟨hO', hT, hcells⟩ := hO.becomes hK fun _ _ => rfl
    exact ⟨hO', hT, hcells, .inr ⟨rfl, hf, hK.lookup⟩⟩

lemma Owned.of_empty (hS : Space m r) (hnone : m.lookup r = fun _ => none) :
    Owned m r userPages ∧ m.foot r userPages = m.nodes r := by
  have hback : ∀ v, m.back r v = none := fun v => Mem.back_eq_none.mpr (congrFun hnone v)
  have husers : m.users r userPages = ∅ := by
    refine Set.eq_empty_of_forall_notMem ?_
    rintro x ⟨v, _, hv⟩
    rw [hback v] at hv
    cases hv
  have hfoot : m.foot r userPages = m.nodes r := by rw [Mem.foot, husers, Set.union_empty]
  refine ⟨⟨hS, ?_, ?_, ?_⟩, hfoot⟩
  · rw [hfoot]
    exact hS.holds
  · rw [husers]
    exact fun x hx => hx.elim
  · intro v _ w _ x hvx
    rw [hback v] at hvx
    cases hvx

lemma uvmfree_empty (hO : Owned m r userPages) (hnone : m.lookup r = fun _ => none) :
    Returns (uvmfree r 0) m fun _ m' => Trade m (m.foot r userPages) m' ∅ :=
  uvmfree_runs hO (Nat.zero_le _) (fun w _ _ => Mem.cell_eq_none.mpr (congrFun hnone w))
    fun w _ => congrFun hnone w

/-- **A new table for a process**, or none and all pages are given back. -/
lemma procPagetable_runs (hH : Holds m ∅) : Returns (procPagetable tf) m fun res m' =>
    match res with
    | none => Trade m ∅ m' ∅ ∧ m.failures < m'.failures
    | some r => Trade m ∅ m' (m'.foot r userPages) ∧ UserSpace m' r tf 0 := by
  refine (uvmcreate_runs hH).bind fun res m1 h1 => ?_
  cases res with
  | none => exact Returns.pure ⟨h1.1, h1.2.2⟩
  | some r =>
    obtain ⟨_, hT1, hS, hnone, hnodes⟩ := h1
    obtain ⟨hO1, hfoot⟩ := Owned.of_empty hS hnone
    rw [insert_empty_eq, ← hnodes, ← hfoot] at hT1
    rw [trampolineVa_eq]
    refine (mapHigh_runs (by decide) (by decide) hO1 tramp_not_mem (by decide)
      (congrFun hnone _) (by decide)).bind fun res m2 h2 => ?_
    obtain ⟨hO2, hT2, hcells2, hres2⟩ := h2
    rcases hres2 with ⟨rfl, hlookup2⟩ | ⟨rfl, hf, hlookup2⟩
    swap
    · rw [if_pos (by decide)]
      refine (uvmfree_empty hO2 (hlookup2.trans hnone)).bind fun _ m3 hT3 => ?_
      exact Returns.pure ⟨hT1.trans (hT2.trans hT3),
        lt_of_le_of_lt hT1.failures (lt_of_lt_of_le hf hT3.failures)⟩
    rw [if_neg (by decide), trapframeVa_eq]
    have htrap : m2.lookup r trapVpn = none := by
      rw [hlookup2, hnone, update_of_ne (by decide)]
    refine (mapHigh_runs (by decide) (by decide) hO2 trap_not_mem (by decide) htrap
      (pgSize_dvd_shift tf)).bind fun res m3 h3 => ?_
    obtain ⟨hO3, hT3, hcells3, hres3⟩ := h3
    rcases hres3 with ⟨rfl, hlookup3⟩ | ⟨rfl, hf, hlookup3⟩
    · rw [if_neg (by decide)]
      refine Returns.pure ⟨hT1.trans (hT2.trans hT3), hO3, Nat.zero_le _, ?_, ?_⟩
      · intro v hv _
        rw [hcells3 v hv, hcells2 v hv]
        exact Mem.cell_eq_none.mpr (congrFun hnone v)
      · intro v _
        rw [hlookup3, hlookup2, hnone, highEntries]
        by_cases h : v = trapVpn
        · rw [h, update_self, if_pos rfl]
        · rw [update_of_ne h, if_neg h]
          by_cases h' : v = trapVpn + 1
          · rw [h', update_self, if_pos rfl]
          · rw [update_of_ne h', if_neg h']
    · rw [if_pos (by decide)]
      refine (unmapHigh_runs hO3 tramp_not_mem (by decide)).bind fun _ m4 h4 => ?_
      obtain ⟨hO4, hT4, _, hlookup4⟩ := h4
      have hnone4 : m4.lookup r = fun _ => none := by
        rw [hlookup4, hlookup3, hlookup2, hnone, update_idem]
        exact update_eq_self _ _
      refine (uvmfree_empty hO4 hnone4).bind fun _ m5 hT5 => ?_
      exact Returns.pure ⟨hT1.trans (hT2.trans (hT3.trans (hT4.trans hT5))),
        lt_of_le_of_lt (hT1.trans hT2).failures (lt_of_lt_of_le hf (hT4.trans hT5).failures)⟩

/-- **The table of a process is freed**, with its user pages; the trapframe is not. -/
lemma procFreepagetable_runs (h : UserSpace m r tf sz) :
    Returns (procFreepagetable r sz) m fun _ m' => Trade m (m.foot r userPages) m' ∅ := by
  rw [procFreepagetable, trampolineVa_eq, trapframeVa_eq]
  refine (unmapHigh_runs h.owned tramp_not_mem (by decide)).bind fun _ m1 h1 => ?_
  obtain ⟨hO1, hT1, hcells1, hlookup1⟩ := h1
  refine (unmapHigh_runs hO1 trap_not_mem (by decide)).bind fun _ m2 h2 => ?_
  obtain ⟨hO2, hT2, hcells2, hlookup2⟩ := h2
  refine (uvmfree_runs hO2 h.size (fun w hw hle => ?_) fun w hw => ?_).mono
    fun _ _ hT => hT1.trans (hT2.trans hT)
  · rw [hcells2 w hw, hcells1 w hw]
    exact h.below w hw hle
  · rw [hlookup2, hlookup1]
    by_cases htrap : w = trapVpn
    · rw [htrap, update_self]
    · rw [update_of_ne htrap]
      by_cases htramp : w = trapVpn + 1
      · rw [htramp, update_self]
      · rw [update_of_ne htramp, h.high w hw, highEntries, if_neg htrap, if_neg htramp]

end Xv6Riscv
