import Xv6Riscv.Vm.ProcTable

/-!
`fork` and memory (`vm.c`, `proc.c`).

* `ProcMem.fork_isolates_memory`: parent and child do not see each other's stores.
-/

namespace Xv6Riscv

open Wp

/-! ### The code of `uvmcopy` -/

/-- `memmove` of a whole page. -/
def copyPage (dst src : ℕ) : VmM Unit := do
  let m ← get
  setPage dst (m.page src)

/-- The loop of `uvmcopy`, with `n` pages to go. -/
def uvmcopyLoop (old new : ℕ) : ℕ → ℕ → VmM ℤ
  | 0, _ => pure 0
  | n + 1, i => do
      match ← walk old i false with
      | none => uvmcopyLoop old new n (i + pgSize)
      | some slot => do
          let pte ← readPte slot
          if ¬ Valid pte then uvmcopyLoop old new n (i + pgSize)
          else do
            match ← kalloc with
            | none => do
                uvmunmap new 0 (i / pgSize) true
                pure (-1)
            | some mem => do
                copyPage mem (pageOf (pte2pa pte))
                let res ← mappages new i pgSize (mem <<< 12) (pteFlags pte)
                if res ≠ 0 then do
                  kfree mem
                  uvmunmap new 0 (i / pgSize) true
                  pure (-1)
                else uvmcopyLoop old new n (i + pgSize)

def uvmcopy (old new sz : ℕ) : VmM ℤ := uvmcopyLoop old new ((sz + pgSize - 1) / pgSize) 0

variable {m m' : Mem} {old new i v w x pte : ℕ}

/-! ### `uvmcopy` -/

lemma Returns.copyPage {α : Type} {f : Unit → VmM α} {R : α → Mem → Prop} {dst src : ℕ}
    (h : Returns (f ()) (m.setPage dst (m.page src)) R) :
    Returns (Xv6Riscv.copyPage dst src >>= f) m R := by
  rw [Returns.iff_wp] at h ⊢
  exact h

lemma pteFlags_or (h : Valid pte) : pteFlags pte ||| pteV = pteFlags pte := by
  rw [valid_iff] at h
  rw [pteFlags_eq]
  apply Nat.eq_of_testBit_eq
  intro n
  rw [Nat.testBit_or]
  cases n with
  | zero =>
    have hodd : (pte % 1024).testBit 0 = true := by
      rw [Nat.testBit_zero, decide_eq_true_eq]
      omega
    rw [hodd, Bool.true_or]
  | succ n =>
    have hbit : pteV.testBit (n + 1) = false := by
      rw [Nat.testBit_succ]
      exact Nat.zero_testBit n
    rw [hbit, Bool.or_false]

lemma Space.flags_rwx (hS : Space m old) (h : m.lookup old v = some pte) :
    pteFlags pte &&& pteRWX ≠ 0 := by
  obtain ⟨_, y, hy, rfl, hvalid⟩ := Mem.lookup_eq_some.mp h
  rw [pteFlags_eq, ← and_flags _ _ (by decide)]
  exact hS.leaf _ y _ (leafPath_length v) hy hvalid

lemma pteFlags_lt (pte : ℕ) : pteFlags pte < 1024 := by
  rw [pteFlags_eq]
  exact Nat.mod_lt _ (by decide)

/-- The cells of the child after `n` more pages have been copied. -/
def copyRange (g g' : ℕ → Option Cell) (i n : ℕ) : ℕ → Option Cell := fun w =>
  if i ≤ w ∧ w < i + n then g w else g' w

/-- The undoing in the loop of `uvmcopy`: the child loses its user pages. -/
lemma uvmcopy_undo (hT : Turns m new m' (m.cell new)) (hf : m.failures < m'.failures)
    (hi : i ≤ trapVpn) (hnone : ∀ w ∈ userPages, i ≤ w → m.cell new w = none) :
    Returns (do
      uvmunmap new 0 (i * pgSize / pgSize) true
      pure (-1 : ℤ)) m' fun res m'' => res = -1 ∧ m.failures < m''.failures ∧
        Turns m new m'' fun _ => none := by
  rw [Nat.mul_div_cancel _ (by decide), ← Nat.zero_mul pgSize]
  refine (uvmunmap_user hT.owned (by rwa [Nat.zero_add])).bind fun _ m'' hT' => ?_
  refine Returns.pure ⟨rfl, lt_of_lt_of_le hf hT'.trade.failures,
    (hT.trans hT' fun _ _ hm _ => hm).congr fun w hw => ?_⟩
  rw [unmapRange]
  split_ifs with h
  · rfl
  · rw [hT.cells w hw]
    exact hnone w hw (by omega)

/-- **The loop of `uvmcopy`.** The pages of the two tables are apart. -/
lemma uvmcopyLoop_runs : ∀ (n i : ℕ) (m : Mem), Owned m old userPages → Owned m new userPages →
    (∀ x ∈ m.foot old userPages, x ∉ m.foot new userPages) → i + n ≤ trapVpn →
    (∀ w ∈ userPages, i ≤ w → m.cell new w = none) →
    Returns (uvmcopyLoop old new n (i * pgSize)) m fun res m' =>
      (res = 0 ∧ Turns m new m' (copyRange (m.cell old) (m.cell new) i n)) ∨
      (res = -1 ∧ m.failures < m'.failures ∧ Turns m new m' fun _ => none)
  | 0, i, m, _, hC, _, _, _ => by
      refine Returns.pure (.inl ⟨rfl, (Turns.refl hC).congr fun w _ => ?_⟩)
      rw [copyRange, if_neg (by omega)]
  | n + 1, i, m, hP, hC, hd, hle, hnone => by
      have hi : i ∈ userPages := lt_of_lt_of_le (by omega : i < i + (n + 1)) hle
      have hstep : i * pgSize + pgSize = (i + 1) * pgSize := (Nat.succ_mul i pgSize).symm
      have hnone' : ∀ w ∈ userPages, i + 1 ≤ w → m.cell new w = none := fun w hw h =>
        hnone w hw (by omega)
      -- a page that the parent does not have is skipped
      have hskip : m.lookup old i = none →
          Returns (uvmcopyLoop old new n (i * pgSize + pgSize)) m fun res m' =>
            (res = 0 ∧ Turns m new m' (copyRange (m.cell old) (m.cell new) i (n + 1))) ∨
            (res = -1 ∧ m.failures < m'.failures ∧ Turns m new m' fun _ => none) := fun h => by
        rw [hstep]
        refine (uvmcopyLoop_runs n (i + 1) m hP hC hd (by omega) hnone').mono fun res m' hres => ?_
        refine hres.imp_left fun ⟨h0, hT⟩ => ⟨h0, hT.congr fun w hw => ?_⟩
        rw [copyRange, copyRange]
        by_cases hwi : w = i
        · rw [hwi, if_neg (by omega), if_pos (by omega), hnone i hi le_rfl, Mem.cell_eq_none.mpr h]
        · exact if_congr (by omega) rfl rfl
      have hva : i * pgSize < maxVa := mul_lt_maxVa (userPages_lt hi)
      refine Returns.walk_false hva ?_
      rw [vpn_mul]
      cases hy : m.node old (leafPath i) with
      | none => exact hskip (Mem.lookup_of_node_none hy)
      | some y =>
        have hlookup := Mem.lookup_of_node (userPages_lt hi) hy
        refine Returns.readPte (Returns.ite (fun hvalid => ?_) fun hvalid => ?_)
        · rw [if_neg hvalid] at hlookup
          exact hskip hlookup
        change ¬ ¬ Valid (m.page y (leafIndex i)) at hvalid
        rw [not_not] at hvalid
        rw [if_pos hvalid] at hlookup
        refine Returns.bind_iff.mpr (Returns.kalloc (fun deny => ?_) fun x free deny hfree => ?_)
        · exact (uvmcopy_undo (Turns.denied hC deny) (Nat.lt_succ_self _) (le_of_lt hi) hnone).mono
            fun _ _ h => .inr h
        · set pte := m.page y (leafIndex i) with hpte
          have hback : m.back old i = some (pageOf (pte2pa pte)) := by
            rw [Mem.back, hlookup, Option.map_some]
          have hcell : m.cell old i =
              some (pteFlags pte ||| pteV, m.page (pageOf (pte2pa pte))) := by
            rw [Mem.cell, hlookup, Option.map_some, pteFlags_or hvalid]
          have hne : pageOf (pte2pa pte) ≠ x := fun h => by
            refine hP.holds.apart _ (.inr ⟨i, hi, hback⟩) ?_
            rw [h, hfree]
            exact List.mem_cons_self
          refine Returns.copyPage ?_
          rw [Mem.setPage_setPage, Mem.setPage_of_ne _ _ hne]
          refine mapNew_runs hC hi (Mem.cell_eq_none.mp (hnone i hi le_rfl)) (pteFlags_lt _)
            (hP.space.flags_rwx hlookup) hfree (fun m1 hT hf => ?_) fun m1 hT _ => ?_
          · exact (uvmcopy_undo hT hf (le_of_lt hi) hnone).mono fun _ _ h => .inr h
          · -- the parent is left alone by what happens to the child
            obtain ⟨hP1, hfoot, _, hcells, hd1⟩ := hP.frame hT.trade hd
            rw [hstep]
            refine (uvmcopyLoop_runs n (i + 1) m1 hP1 hT.owned (by rwa [hfoot]) (by omega)
              fun w hw hiw => ?_).mono fun res m2 hres => ?_
            · rw [hT.cells w hw, Function.update_of_ne (by omega)]
              exact hnone w hw (by omega)
            · rcases hres with ⟨rfl, hT2⟩ | ⟨rfl, hf, hT2⟩
              · refine .inl ⟨rfl, (hT.trans hT2 fun _ _ hm _ => update_ne_none hm).congr
                  fun w hw => ?_⟩
                rw [copyRange, copyRange, hcells w hw, hT.cells w hw]
                by_cases hwi : w = i
                · rw [hwi, if_neg (by omega), if_pos (by omega), Function.update_self, hcell]
                · rw [Function.update_of_ne hwi]
                  exact if_congr (by omega) rfl rfl
              · exact .inr ⟨rfl, lt_of_le_of_lt hT.trade.failures hf,
                  hT.trans hT2 fun _ _ hm _ => update_ne_none hm⟩

/-- **`uvmcopy`** for a child without user pages. -/
lemma uvmcopy_runs {sz : ℕ} (hP : Owned m old userPages) (hC : Owned m new userPages)
    (hd : ∀ x ∈ m.foot old userPages, x ∉ m.foot new userPages) (hsz : sz ≤ trapframeVa)
    (hnone : ∀ w ∈ userPages, m.cell new w = none) :
    Returns (uvmcopy old new sz) m fun res m' =>
      (res = 0 ∧
        Turns m new m' fun w => if w < pagesOf sz then m.cell old w else none) ∨
      (res = -1 ∧ m.failures < m'.failures ∧ Turns m new m' fun _ => none) := by
  have hle : 0 + pagesOf sz ≤ trapVpn := by
    rw [Nat.zero_add]
    exact pagesOf_le hsz
  have h := uvmcopyLoop_runs (pagesOf sz) 0 m hP hC hd hle fun w hw _ => hnone w hw
  rw [Nat.zero_mul] at h
  refine h.mono fun res m' hres => hres.imp_left fun ⟨h0, hT⟩ => ⟨h0, hT.congr fun w hw => ?_⟩
  rw [copyRange, hnone w hw]
  exact if_congr (by omega) rfl rfl

/-! ### The memory of a process -/

/-- The fields of `struct proc` that concern memory; pages are given by their numbers, 0 is the null
pointer. -/
structure ProcMem where
  pagetable : ℕ
  trapframe : ℕ
  sz : ℕ
  deriving DecidableEq

namespace ProcMem

/-- What `freeproc` does to memory. -/
def freeproc (p : ProcMem) : VmM Unit := do
  if p.trapframe ≠ 0 then kfree p.trapframe
  if p.pagetable ≠ 0 then procFreepagetable p.pagetable p.sz else pure ()

/-- What `allocproc` does to memory, once it has found an unused process. -/
def allocproc : VmM (Option ProcMem) := do
  match ← kalloc with
  | none => do
      freeproc ⟨0, 0, 0⟩
      pure none
  | some trapframe => do
      match ← procPagetable trapframe with
      | none => do
          freeproc ⟨0, trapframe, 0⟩
          pure none
      | some pagetable => pure (some ⟨pagetable, trapframe, 0⟩)

/-- `*(np->trapframe) = *(p->trapframe); np->trapframe->a0 = 0`: the trapframe has 36 words, and
`a0` is the word 14. -/
def copyTrapframe (p np : ProcMem) : VmM Unit := modify fun m =>
  m.setPage np.trapframe fun i =>
    if i = wordNo 14 then 0 else if i.val < 36 then m.page p.trapframe i
    else m.page np.trapframe i

/-- What `kfork` does to memory. -/
def kfork (p : ProcMem) : VmM (Option ProcMem) := do
  match ← allocproc with
  | none => pure none
  | some np => do
      let res ← uvmcopy p.pagetable np.pagetable p.sz
      if res < 0 then do
        freeproc np
        pure none
      else do
        copyTrapframe p np
        pure (some { np with sz := p.sz })

def pages (p : ProcMem) (m : Mem) : Set ℕ := insert p.trapframe (m.foot p.pagetable userPages)

/-- **The memory of a process is in order.** -/
structure Ok (p : ProcMem) (m : Mem) : Prop where
  space : UserSpace m p.pagetable p.trapframe p.sz
  apart : p.trapframe ∉ m.foot p.pagetable userPages
  holds : Holds m (p.pages m)

variable {p np : ProcMem} {F F' : Set ℕ}

/-- **Other code** leaves the memory of a process alone. -/
lemma Ok.frame (h : p.Ok m) (hT : Trade m F m' F') (hd : ∀ x ∈ p.pages m, x ∉ F) :
    p.Ok m' ∧ p.pages m' = p.pages m ∧ (∀ x ∈ p.pages m, x ∉ F') ∧
      m'.lookup p.pagetable = m.lookup p.pagetable ∧
      ∀ v ∈ userPages, m'.cell p.pagetable v = m.cell p.pagetable v := by
  have hd' : ∀ x ∈ m.foot p.pagetable userPages, x ∉ F := fun x hx => hd x (.inr hx)
  obtain ⟨hO, hfoot, hlookup, hcell, _⟩ := h.space.owned.frame hT hd'
  have hpages : p.pages m' = p.pages m := by rw [pages, pages, hfoot]
  have hout := fun x hx => hT.not_mem (hd x hx) (h.holds.apart x hx)
  refine ⟨⟨h.space.frame hT hd', by rw [hfoot]; exact h.apart, ?_⟩, hpages,
    fun x hx => (hout x hx).1, hlookup, hcell⟩
  rw [hpages]
  refine ⟨hT.holds.nodup, fun x hx => (hout x hx).2, fun x hx => ?_, hT.holds.pos⟩
  rcases hx with hx | hx
  · rw [hT.kend]
    exact h.holds.range x (.inl hx)
  · exact hT.holds.range x (.inr hx)

lemma Ok.trapframe_ne (h : p.Ok m) : p.trapframe ≠ 0 :=
  (lt_of_lt_of_le h.holds.pos (h.holds.range _ (.inl (Set.mem_insert _ _))).1).ne'

lemma Ok.pagetable_ne (h : p.Ok m) : p.pagetable ≠ 0 := by
  have hmem : p.pagetable ∈ p.pages m := .inr (.inl Radix.root_mem_nodes)
  exact (lt_of_lt_of_le h.holds.pos (h.holds.range _ (.inl hmem)).1).ne'

/-- **The pages of a process are freed.** -/
lemma freeproc_runs (h : p.Ok m) : Returns p.freeproc m fun _ m' => Trade m (p.pages m) m' ∅ := by
  have hd : ∀ x ∈ m.foot p.pagetable userPages, x ∉ (insert p.trapframe ∅ : Set ℕ) := by
    rintro x hx (rfl | hf)
    · exact h.apart hx
    · exact hf
  have hunion : insert p.trapframe ∅ ∪ m.foot p.pagetable userPages = p.pages m := by
    rw [Set.insert_union, Set.empty_union, pages]
  have hH : Holds m (insert p.trapframe ∅ ∪ m.foot p.pagetable userPages) := by
    rw [hunion]
    exact h.holds
  rw [freeproc, if_pos h.trapframe_ne]
  refine (kfree_runs (hH.subset Set.subset_union_left) (Set.notMem_empty _)).bind fun _ m1 hT => ?_
  obtain ⟨_, hfoot, _⟩ := h.space.owned.frame hT hd
  have hT' := hT.frameOn hH hd
  rw [hunion, Set.empty_union] at hT'
  rw [if_pos h.pagetable_ne]
  refine (procFreepagetable_runs (h.space.frame hT hd)).mono fun _ m2 hT2 => ?_
  rw [hfoot] at hT2
  exact hT'.trans hT2

/-- **A new process**, or none and all pages are given back. -/
lemma allocproc_runs (hH : Holds m ∅) : Returns allocproc m fun res m' =>
    match res with
    | none => Trade m ∅ m' ∅ ∧ m.failures < m'.failures
    | some p => Trade m ∅ m' (p.pages m') ∧ p.Ok m' ∧ p.sz = 0 := by
  refine (kalloc_runs hH).bind fun res m1 h1 => ?_
  cases res with
  | none =>
    change Returns (Pure.pure none) m1 _
    exact Returns.pure ⟨h1.1, h1.2.2⟩
  | some tf =>
    obtain ⟨_, hT1⟩ := h1
    have hH1 := hT1.holds
    refine (procPagetable_runs (hH1.subset (Set.empty_subset _))).bind fun res m2 h2 => ?_
    have hempty : ∅ ∪ insert tf ∅ = (insert tf ∅ : Set ℕ) := Set.empty_union _
    cases res with
    | none =>
      have hT2 := h2.1.frameOn (G := insert tf ∅) (by rwa [hempty]) fun _ _ h => h
      rw [hempty] at hT2
      have htf : tf ≠ 0 :=
        (lt_of_lt_of_le hT2.holds.pos (hT2.holds.range tf (.inl (Set.mem_insert _ _))).1).ne'
      rw [freeproc, if_pos htf]
      refine Returns.bind (Returns.bind (kfree_runs hT2.holds (Set.notMem_empty tf)) fun _ m3 hT3 =>
        (Returns.pure hT3 : Returns (Pure.pure ()) m3 fun _ m3 => Trade m2 _ m3 _))
          fun _ m3 hT3 => ?_
      exact Returns.pure ⟨hT1.trans (hT2.trans hT3),
        lt_of_le_of_lt hT1.failures (lt_of_lt_of_le h2.2 hT3.failures)⟩
    | some r =>
      obtain ⟨hT2, hU⟩ := h2
      have hout := hT2.not_mem (Set.notMem_empty tf) (hH1.apart tf (Set.mem_insert _ _))
      have hT2' := hT2.frameOn (G := insert tf ∅) (by rwa [hempty]) fun _ _ h => h
      have hpages : m2.foot r userPages ∪ insert tf ∅ = pages ⟨r, tf, 0⟩ m2 := by
        rw [insert_empty_eq, Set.union_singleton]
        rfl
      rw [hempty, hpages] at hT2'
      exact Returns.pure ⟨hT1.trans hT2', ⟨hU, hout.1, hT2'.holds⟩, rfl⟩

lemma Ok.turns {g : ℕ → Option Cell} {sz' : ℕ} (h : p.Ok m) (hT : Turns m p.pagetable m' g)
    (hsize : sz' ≤ trapframeVa) (hbelow : ∀ v ∈ userPages, pagesOf sz' ≤ v → g v = none) :
    Ok { p with sz := sz' } m' ∧ Trade m (p.pages m) m' (pages { p with sz := sz' } m') := by
  have hunion : ∀ m : Mem, m.foot p.pagetable userPages ∪ {p.trapframe} = p.pages m := fun m => by
    rw [Set.union_singleton, pages]
  have hd : ∀ x ∈ ({p.trapframe} : Set ℕ), x ∉ m.foot p.pagetable userPages := by
    rintro x rfl
    exact h.apart
  have hT' := hT.trade.frameOn (by rw [hunion]; exact h.holds) hd
  rw [hunion, hunion] at hT'
  refine ⟨⟨h.space.turns hT hsize hbelow, ?_, hT'.holds⟩, hT'⟩
  exact (hT.trade.not_mem h.apart (h.holds.apart _ (Set.mem_insert _ _))).1

lemma Ok.set_trapframe (h : p.Ok m) (contents : Fin 512 → ℕ) :
    p.Ok (m.setPage p.trapframe contents) ∧ p.pages (m.setPage p.trapframe contents) = p.pages m ∧
      Trade m (p.pages m) (m.setPage p.trapframe contents) (p.pages m) ∧
      ∀ v ∈ userPages, (m.setPage p.trapframe contents).cell p.pagetable v =
        m.cell p.pagetable v := by
  have hT : Trade m {p.trapframe} (m.setPage p.trapframe contents) {p.trapframe} :=
    Trade.write (h.holds.subset (Set.singleton_subset_iff.mpr (Set.mem_insert _ _))) rfl contents
  have hd : ∀ x ∈ m.foot p.pagetable userPages, x ∉ ({p.trapframe} : Set ℕ) := by
    rintro x hx rfl
    exact h.apart hx
  obtain ⟨_, hfoot, _, hcell, _⟩ := h.space.owned.frame hT hd
  have hpages : p.pages (m.setPage p.trapframe contents) = p.pages m := by rw [pages, pages, hfoot]
  have hT' := Trade.write h.holds (Set.mem_insert _ _ : p.trapframe ∈ p.pages m) contents
  refine ⟨⟨h.space.frame hT hd, by rw [hfoot]; exact h.apart, ?_⟩, hpages, hT', hcell⟩
  rw [hpages]
  exact hT'.holds

lemma copyTrapframe_runs {α : Type} {np : ProcMem} {f : Unit → VmM α} {R : α → Mem → Prop}
    (h : ∀ contents, Returns (f ()) (m.setPage np.trapframe contents) R) :
    Returns (copyTrapframe p np >>= f) m R :=
  Returns.bind_iff.mpr (Returns.iff_wp.mpr (h _))

/-- **`fork`** makes a child that sees what the parent sees, or gives all pages back. -/
lemma kfork_runs (hP : p.Ok m) : Returns p.kfork m fun res m' =>
    match res with
    | none => Trade m ∅ m' ∅ ∧ m.failures < m'.failures
    | some np => Trade m ∅ m' (np.pages m') ∧ np.Ok m' ∧ np.sz = p.sz ∧
        ∀ v ∈ userPages, m'.cell np.pagetable v = m.cell p.pagetable v := by
  refine (allocproc_runs (hP.holds.subset (Set.empty_subset _))).bind fun res m1 h1 => ?_
  cases res with
  | none => exact Returns.pure h1
  | some np =>
    obtain ⟨hT1, hC, hsz⟩ := h1
    obtain ⟨hP1, hpages, hd, _, hcells⟩ := hP.frame hT1 fun _ _ h => h
    have hd' : ∀ x ∈ m1.foot p.pagetable userPages, x ∉ m1.foot np.pagetable userPages :=
      fun x hx hx' => hd x (by rw [← hpages]; exact .inr hx) (.inr hx')
    have hnone : ∀ v ∈ userPages, m1.cell np.pagetable v = none := fun v hv =>
      hC.space.below v hv (by rw [hsz]; exact Nat.zero_le v)
    refine (uvmcopy_runs hP1.space.owned hC.space.owned hd' hP1.space.size hnone).bind
      fun res m2 hres => ?_
    rcases hres with ⟨rfl, hT2⟩ | ⟨rfl, hf, hT2⟩
    · rw [if_neg (by decide)]
      obtain ⟨hC2, hT2'⟩ := hC.turns hT2 hP.space.size fun v _ hle => if_neg (not_lt.mpr hle)
      refine copyTrapframe_runs fun contents => Returns.pure ?_
      obtain ⟨hC3, hpages3, hT3, hcells3⟩ := hC2.set_trapframe contents
      refine ⟨?_, hC3, rfl, fun v hv => ?_⟩
      · rw [hpages3]
        exact hT1.trans (hT2'.trans hT3)
      rw [hcells3 v hv]
      refine (hT2.cells v hv).trans ?_
      split_ifs with h
      · exact hcells v hv
      · exact (hP.space.below v hv (not_lt.mp h)).symm
    · rw [if_pos (by decide)]
      obtain ⟨hC2, hT2'⟩ := hC.turns hT2 hC.space.size fun _ _ _ => rfl
      refine (freeproc_runs hC2).bind fun _ m3 hT3 => ?_
      exact Returns.pure ⟨hT1.trans (hT2'.trans hT3),
        lt_of_le_of_lt hT1.failures (lt_of_lt_of_le hf hT3.failures)⟩

/-! ### Isolation -/

/-- A store by a process: a user page of its table gets new contents. -/
def Stores (p : ProcMem) (m m' : Mem) : Prop :=
  ∃ v ∈ userPages, ∃ x, m.back p.pagetable v = some x ∧ ∃ contents, m' = m.setPage x contents

/-- Two processes with memory in order and without a common page. -/
structure Apart (p np : ProcMem) (m : Mem) : Prop where
  fst : p.Ok m
  snd : np.Ok m
  disjoint : ∀ x ∈ p.pages m, x ∉ np.pages m

lemma Apart.symm (h : Apart p np m) : Apart np p m :=
  ⟨h.snd, h.fst, fun x hx hx' => h.disjoint x hx' hx⟩

lemma Apart.store (h : Apart p np m) (hs : p.Stores m m') :
    Apart p np m' ∧ ∀ v ∈ userPages, m'.cell np.pagetable v = m.cell np.pagetable v := by
  obtain ⟨v, hv, x, hx, contents, rfl⟩ := hs
  obtain ⟨_, hT⟩ := h.fst.space.owned.store hv hx contents
  obtain ⟨hP, hTrade⟩ := h.fst.turns hT h.fst.space.size fun w hw hle => by
    have hnone := h.fst.space.below w hw hle
    by_cases hwv : w = v
    · rw [hwv] at hnone ⊢
      rw [Function.update_self, hnone, Option.map_none]
    · rw [Function.update_of_ne hwv, hnone]
  obtain ⟨hC, hpages, hd, _, hcells⟩ := h.snd.frame hTrade fun y hy hy' => h.disjoint y hy' hy
  refine ⟨⟨hP, hC, fun y hy hy' => hd y ?_ hy⟩, hcells⟩
  rwa [← hpages]

lemma Apart.stores (h : Apart p np m)
    (hs : Relation.ReflTransGen (fun a b => p.Stores a b ∨ np.Stores a b) m m') :
    Apart p np m' := by
  induction hs with
  | refl => exact h
  | tail _ hstep ih =>
    rcases hstep with hs | hs
    · exact (ih.store hs).1
    · exact (ih.symm.store hs).1.symm

lemma Apart.turns {g : ℕ → Option Cell} {sz' : ℕ} (h : Apart p np m)
    (hT : Turns m np.pagetable m' g) (hsize : sz' ≤ trapframeVa)
    (hbelow : ∀ v ∈ userPages, pagesOf sz' ≤ v → g v = none) :
    Apart p { np with sz := sz' } m' ∧ m'.lookup p.pagetable = m.lookup p.pagetable ∧
      ∀ v ∈ userPages, m'.cell p.pagetable v = m.cell p.pagetable v := by
  obtain ⟨hC, hTrade⟩ := h.snd.turns hT hsize hbelow
  obtain ⟨hP, hpages, hd, hlookup, hcells⟩ := h.fst.frame hTrade h.disjoint
  refine ⟨⟨hP, hC, fun x hx => hd x ?_⟩, hlookup, hcells⟩
  rwa [← hpages]

/-- **`fork` isolates memory.** If `uvmcopy` returns 0, the child has a mapping at exactly the pages
below the size that the parent has, with the same flags and contents, each in a page of its own; no
store of either process is seen by the other, now or after any number of other stores. If it returns
-1, the child has no user page and all but the pages of its table are free again. The parent's
memory is unchanged in both cases. When `kfork` fails every page it allocated is free again. -/
theorem fork_isolates_memory (h : Apart p np m)
    (hnew : ∀ v ∈ userPages, m.lookup np.pagetable v = none) :
    (Returns (uvmcopy p.pagetable np.pagetable p.sz) m fun res m' =>
      m'.lookup p.pagetable = m.lookup p.pagetable ∧
      (∀ v ∈ userPages, m'.cell p.pagetable v = m.cell p.pagetable v) ∧
      ((res = 0 ∧ (∀ v ∈ userPages, m'.lookup np.pagetable v ≠ none ↔
          v < pagesOf p.sz ∧ m.lookup p.pagetable v ≠ none) ∧
        (∀ v ∈ userPages, m'.cell np.pagetable v = m.cell p.pagetable v) ∧
        (∀ v ∈ userPages, ∀ x, m'.back np.pagetable v = some x →
          (∀ w ∈ userPages, m'.back np.pagetable w = some x → w = v) ∧
          ∀ y, y ∉ np.pages m → y ∉ m.free → y ≠ x) ∧
        ∀ m₁ m₂, Relation.ReflTransGen (fun a b => p.Stores a b ∨ np.Stores a b) m' m₁ →
          (p.Stores m₁ m₂ → ∀ v ∈ userPages, m₂.cell np.pagetable v = m₁.cell np.pagetable v) ∧
          (np.Stores m₁ m₂ → ∀ v ∈ userPages, m₂.cell p.pagetable v = m₁.cell p.pagetable v)) ∨
      (res = -1 ∧ (∀ v ∈ userPages, m'.lookup np.pagetable v = none) ∧
        ∀ x, x ∈ m'.nodes np.pagetable ∨ x ∈ m'.free ↔ x ∈ m.nodes np.pagetable ∨ x ∈ m.free))) ∧
    (Returns p.kfork m fun res m' => res = none → m'.free.Nodup ∧
      ∀ x, x ∈ m'.free ↔ x ∈ m.free) := by
  have hd : ∀ x ∈ m.foot p.pagetable userPages, x ∉ m.foot np.pagetable userPages :=
    fun x hx hx' => h.disjoint x (.inr hx) (.inr hx')
  have hfoot : ∀ m : Mem, (∀ v ∈ userPages, m.lookup np.pagetable v = none) →
      m.foot np.pagetable userPages = m.nodes np.pagetable := fun m hnone => by
    rw [Mem.foot]
    refine Set.union_eq_self_of_subset_right ?_
    rintro x ⟨v, hv, hx⟩
    rw [Mem.back_eq_none.mpr (hnone v hv)] at hx
    cases hx
  refine ⟨?_, ?_⟩
  · refine (uvmcopy_runs h.fst.space.owned h.snd.space.owned hd h.fst.space.size fun v hv =>
      Mem.cell_eq_none.mpr (hnew v hv)).mono fun res m' hres => ?_
    rcases hres with ⟨rfl, hT⟩ | ⟨rfl, _, hT⟩
    · obtain ⟨hA, hlookup, hcells⟩ := h.turns hT h.fst.space.size
        fun v _ hle => if_neg (not_lt.mpr hle)
      refine ⟨hlookup, hcells, .inl ⟨rfl, fun v hv => ?_, fun v hv => ?_, fun v hv x hx => ⟨?_, ?_⟩,
        fun m₁ m₂ hrun => ⟨?_, ?_⟩⟩⟩
      · rw [ne_eq, ne_eq, ← Mem.cell_eq_none, ← Mem.cell_eq_none, hT.cells v hv]
        split_ifs with hlt
        · exact ⟨fun hne => ⟨hlt, hne⟩, fun hne => hne.2⟩
        · exact ⟨fun hne => absurd rfl hne, fun hne => absurd hne.1 hlt⟩
      · rw [hT.cells v hv]
        split_ifs with hlt
        · rfl
        · exact (h.fst.space.below v hv (not_lt.mp hlt)).symm
      · exact fun w hw hwx => hT.owned.inj w hw v hv x hwx hx
      · rintro y hy hfree rfl
        have hout : y ∉ m.foot np.pagetable userPages := fun hf => hy (.inr hf)
        exact (hT.trade.not_mem hout hfree).1 (.inr ⟨v, hv, hx⟩)
      · exact fun hs => ((hA.stores hrun).store hs).2
      · exact fun hs => ((hA.stores hrun).symm.store hs).2
    · obtain ⟨_, hlookup, hcells⟩ := h.turns hT h.snd.space.size fun _ _ _ => rfl
      have hnone : ∀ v ∈ userPages, m'.lookup np.pagetable v = none := fun v hv =>
        Mem.cell_eq_none.mp (hT.cells v hv)
      refine ⟨hlookup, hcells, .inr ⟨rfl, hnone, ?_⟩⟩
      rw [← hfoot m hnew, ← hfoot m' hnone]
      exact hT.trade.pages
  · refine (kfork_runs h.fst).mono fun res m' hres hnone => ?_
    rw [hnone] at hres
    refine ⟨hres.1.holds.nodup, fun x => ?_⟩
    have hpages := hres.1.pages x
    simpa using hpages

def thirtyPages : Mem :=
  { page := fun _ _ => 0, free := List.range' 8 30, deny := [], failures := 0, kend := 5 }

lemma thirtyPages_holds : Holds thirtyPages ∅ where
  nodup := List.nodup_range'
  apart _ hx := hx.elim
  range x hx := by
    have hmem : x ∈ List.range' 8 30 := hx.resolve_left fun h => h
    rw [List.mem_range'_1] at hmem
    change 5 ≤ x ∧ x < 0x88000
    omega
  pos := by decide

/-- The memory after one and after two processes have been allocated. -/
def oneProc : Mem := (runFrom allocproc thirtyPages).2

def twoProcs : Mem := (runFrom allocproc oneProc).2

lemma oneProc_eq : runFrom allocproc thirtyPages = (.ok (some ⟨9, 8, 0⟩), oneProc) := rfl

lemma twoProcs_eq : runFrom allocproc oneProc = (.ok (some ⟨13, 12, 0⟩), twoProcs) := rfl

lemma twoProcs_apart : Apart ⟨9, 8, 0⟩ ⟨13, 12, 0⟩ twoProcs := by
  obtain ⟨_, hP, _⟩ := (Returns.of_eq oneProc_eq).mp (allocproc_runs thirtyPages_holds)
  obtain ⟨hT, hC, _⟩ := (Returns.of_eq twoProcs_eq).mp
    (allocproc_runs (hP.holds.subset (Set.empty_subset _)))
  obtain ⟨hP', hpages, hd, _⟩ := hP.frame hT fun _ _ h => h
  refine ⟨hP', hC, fun x hx => hd x ?_⟩
  rwa [← hpages]

/-- Then the first process has grown lazily by two pages and touched the second of them. -/
def touched : Mem := (runFrom (vmfault 9 8192 4096) twoProcs).2

lemma touched_eq : runFrom (vmfault 9 8192 4096) twoProcs = (.ok (16 <<< 12), touched) := rfl

lemma touched_apart : Apart ⟨9, 8, 8192⟩ ⟨13, 12, 0⟩ touched := by
  have hfault := (Returns.of_eq touched_eq).mp
    (vmfault_runs twoProcs_apart.fst.space.owned (by decide))
  rcases hfault with ⟨h0, -⟩ | ⟨-, -, hT, -⟩
  · exact absurd h0 (by decide)
  · refine (twoProcs_apart.symm.turns hT (by decide) fun v hv hle => ?_).1.symm
    have hne : v ≠ vpn 4096 := by
      rintro rfl
      exact absurd hle (by decide)
    rw [Function.update_of_ne hne]
    exact twoProcs_apart.fst.space.below v hv (Nat.zero_le v)

/-- The hypotheses are met by a parent whose second page is mapped and whose first page is not yet,
and a new child: the copy succeeds, and a store of the parent is not seen by the child. -/
theorem fork_isolates_memory_lazy : Apart ⟨9, 8, 8192⟩ ⟨13, 12, 0⟩ touched ∧
    touched.lookup 9 0 = none ∧ touched.lookup 9 1 ≠ none ∧
    ∃ m', runFrom (uvmcopy 9 13 8192) touched = (.ok 0, m') ∧ m'.lookup 13 0 = none ∧
      m'.lookup 13 1 ≠ none ∧ m'.cell 13 1 = touched.cell 9 1 ∧ m'.back 13 1 ≠ m'.back 9 1 ∧
      ∀ m₂, Stores ⟨9, 8, 8192⟩ m' m₂ → m₂.cell 13 1 = m'.cell 13 1 := by
  obtain ⟨m', hm', hback⟩ : ∃ m', runFrom (uvmcopy 9 13 8192) touched = (.ok 0, m') ∧
      m'.back 13 1 ≠ m'.back 9 1 := ⟨_, rfl, by decide +kernel⟩
  have hlazy : touched.lookup 9 0 = none := rfl
  have hmapped : touched.lookup 9 1 ≠ none := by decide +kernel
  have h0 : 0 ∈ userPages := show 0 < trapVpn by decide
  have h1 : 1 ∈ userPages := show 1 < trapVpn by decide
  have hnew : ∀ v ∈ userPages, touched.lookup 13 v = none := fun v hv =>
    Mem.cell_eq_none.mp (touched_apart.snd.space.below v hv (Nat.zero_le v))
  obtain ⟨-, -, hres⟩ := (Returns.of_eq hm').mp (fork_isolates_memory touched_apart hnew).1
  rcases hres with ⟨-, hpages, hcells, -, hstores⟩ | ⟨hfail, -⟩
  · refine ⟨touched_apart, hlazy, hmapped, m', hm', ?_, (hpages 1 h1).mpr ⟨by decide, hmapped⟩,
      hcells 1 h1, hback, fun m₂ hs => (hstores m' m₂ .refl).1 hs 1 h1⟩
    by_contra hne
    exact ((hpages 0 h0).mp hne).2 hlazy
  · exact absurd hfail (by decide)

end ProcMem

end Xv6Riscv
