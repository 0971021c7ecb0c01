import Xv6Riscv.Vm.Copy

/-!
The size of a process (`growproc` and `sys_sbrk`).

The size is an unsigned 64-bit number and the request a signed 32-bit one. Their sum is one of
64-bit words: a sum below zero is a number far above the size, which `uvmdealloc` takes for a size
it does not have to shrink to.

* `ProcMem.sbrk_spec`: what `sys_sbrk` does, for every request and in either mode.
-/

namespace Xv6Riscv

/-- The sum of an unsigned 64-bit and a signed 32-bit number. -/
def add64 (a : ℕ) (n : Int32) : ℕ := (((a : ℤ) + n.toInt) % 2 ^ 64).toNat

def sbrkEager : Int32 := 1

namespace ProcMem

def growproc (p : ProcMem) (n : Int32) : VmM (ℤ × ProcMem) :=
  if 0 < n then
    if trapframeVa < add64 p.sz n then pure (-1, p)
    else do
      let sz ← uvmalloc p.pagetable p.sz (add64 p.sz n) pteW
      if sz = 0 then pure (-1, p) else pure (0, { p with sz })
  else if n < 0 then do
    let sz ← uvmdealloc p.pagetable p.sz (add64 p.sz n)
    pure (0, { p with sz })
  else pure (0, p)

/-- `sys_sbrk`; `t` is the mode. -/
def sysSbrk (p : ProcMem) (n t : Int32) : VmM (ℤ × ProcMem) :=
  if t = sbrkEager ∨ n < 0 then do
    let (r, p') ← p.growproc n
    if r < 0 then pure (-1, p') else pure (p.sz, p')
  else if add64 p.sz n < p.sz then pure (-1, p)
  else if trapframeVa < add64 p.sz n then pure (-1, p)
  else pure (p.sz, { p with sz := add64 p.sz n })

variable {p : ProcMem} {m m' : Mem} {n t : Int32} {a sz sz' : ℕ} {g g' : ℕ → Option Cell}

lemma pos_iff : 0 < n ↔ 0 < n.toInt := Int32.lt_iff_toInt_lt

lemma neg_iff : n < 0 ↔ n.toInt < 0 := Int32.lt_iff_toInt_lt

lemma not_pos_of_neg (h : n < 0) : ¬ 0 < n := fun h' => lt_asymm (neg_iff.mp h) (pos_iff.mp h')

lemma add64_eq (ha : a ≤ trapframeVa) (h : (sz' : ℤ) = a + n.toInt) : add64 a n = sz' := by
  have hlt := n.toInt_lt
  have htop : trapframeVa < 2 ^ 62 := by decide
  rw [add64, ← h, Int.emod_eq_of_lt (Int.natCast_nonneg _) (by omega), Int.toNat_natCast]

/-- A sum below zero wraps to a number above all sizes. -/
lemma le_add64 (h : (a : ℤ) + n.toInt < 0) : a ≤ add64 a n := by
  have hlow := n.le_toInt
  have hwrap : ((a : ℤ) + n.toInt) % 2 ^ 64 = a + n.toInt + 2 ^ 64 := by omega
  rw [add64, hwrap]
  omega

lemma byteAt_congr (h : g' (vpn a) = g (vpn a)) (ha : a < min sz sz') :
    byteAt g' sz' a = byteAt g sz a := by
  have h1 := vpn_lt_pagesOf (lt_of_lt_of_le ha (min_le_left ..))
  have h2 := vpn_lt_pagesOf (lt_of_lt_of_le ha (min_le_right ..))
  rw [byteAt, byteAt, viewOf, viewOf, h, if_pos h1, if_pos h2]

/-- **What a change of the size leaves**: the size is `sz'`; when it shrinks no page above it is
mapped, when it grows eagerly all new ones are, and zero; and the bytes below both sizes stay. -/
structure Resized (p : ProcMem) (m m' : Mem) (eager : Prop) (sz' : ℕ) : Prop where
  space : UserSpace m' p.pagetable p.trapframe sz'
  unmapped : sz' < p.sz → ∀ v ∈ userPages, pgRoundUp sz' ≤ v * pgSize →
    m'.lookup p.pagetable v = none
  zero : p.sz < sz' → eager → ∀ v, pgRoundUp p.sz ≤ v * pgSize → v * pgSize < sz' →
    m'.cell p.pagetable v = some (newCell pteW)
  bytes : ∀ a < min p.sz sz',
    byteAt (m'.cell p.pagetable) sz' a = byteAt (m.cell p.pagetable) p.sz a

lemma Resized.of_turns {eager : Prop} (h : UserSpace m p.pagetable p.trapframe p.sz)
    (hT : Turns m p.pagetable m' g) (hsz : sz' ≤ trapframeVa)
    (hnone : ∀ v, pagesOf sz' ≤ v → g v = none ∨ m.cell p.pagetable v = g v ∧ pagesOf p.sz ≤ v)
    (hnew : p.sz < sz' → eager → ∀ v, pagesOf p.sz ≤ v → v < pagesOf sz' →
      g v = some (newCell pteW)) (hold : ∀ v < pagesOf (min p.sz sz'), g v = m.cell p.pagetable v) :
    Resized p m m' eager sz' := by
  have hbelow : ∀ v ∈ userPages, pagesOf sz' ≤ v → g v = none := by
    intro v hv hle
    rcases hnone v hle with hg | ⟨hg, hp⟩
    · exact hg
    · rw [← hg, h.below v hv hp]
  refine ⟨h.turns hT hsz hbelow, fun _ v hv hle => ?_, fun hlt he v hlo hhi => ?_, fun a ha => ?_⟩
  · rw [pgRoundUp_eq hsz] at hle
    refine Mem.cell_eq_none.mp ((hT.cells v hv).trans (hbelow v hv ?_))
    exact le_of_mul_le_mul_right hle (by decide)
  · rw [pgRoundUp_eq h.size] at hlo
    have hv := vpn_lt_pagesOf hhi
    rw [vpn_mul] at hv
    rw [hT.cells v (lt_of_lt_of_le hv (pagesOf_le hsz))]
    exact hnew hlt he v (le_of_mul_le_mul_right hlo (by decide)) hv
  · have hv := vpn_lt_pagesOf ha
    refine byteAt_congr ?_ ha
    rw [hT.cells _ (lt_of_lt_of_le hv (pagesOf_le ((min_le_left ..).trans h.size))), hold _ hv]

/-- Out of memory: everything the user has is where it was. -/
def Unchanged (p : ProcMem) (m m' : Mem) : Prop :=
  m.failures < m'.failures ∧ ∀ v ∈ userPages, m'.cell p.pagetable v = m.cell p.pagetable v ∧
    m'.back p.pagetable v = m.back p.pagetable v

/-- **`growproc`**, when the sum is a size. -/
lemma growproc_runs (h : UserSpace m p.pagetable p.trapframe p.sz) (hsz : sz' ≤ trapframeVa)
    (hn : (sz' : ℤ) = p.sz + n.toInt) : Returns (p.growproc n) m fun res m' =>
      res = (0, { p with sz := sz' }) ∧ Resized p m m' True sz' ∨
      res = (-1, p) ∧ 0 < n ∧ Unchanged p m m' := by
  rw [growproc, add64_eq h.size hn]
  refine Returns.ite (fun hpos => ?_) fun hpos => Returns.ite (fun hneg => ?_) fun hneg => ?_
  · have hlt : p.sz < sz' := by
      have := pos_iff.mp hpos
      omega
    refine Returns.ite (fun hbig => absurd hbig (not_lt.mpr hsz)) fun _ => ?_
    refine (uvmalloc_runs (by decide) h.owned h.size (.inl hsz) h.below).bind fun res m' hres => ?_
    rcases hres with ⟨rfl, -, hT⟩ | ⟨rfl, hf, hT⟩
    · rw [max_eq_right hlt.le]
      refine Returns.ite (fun hz => by omega) fun _ => Returns.pure (.inl ⟨rfl, ?_⟩)
      have hmono := pagesOf_mono hlt.le
      refine .of_turns h hT hsz (fun v hv => .inr ⟨?_, by omega⟩) (fun _ _ v hlo hhi => ?_)
        fun v hv => ?_
      · rw [fillRange, if_neg (by omega)]
      · rw [fillRange, if_pos (by omega)]
      · rw [min_eq_left hlt.le] at hv
        rw [fillRange, if_neg (by omega)]
    · refine Returns.ite (fun _ => ?_) fun hz => absurd rfl hz
      refine Returns.pure (.inr ⟨rfl, hpos, hf, fun v hv => ⟨hT.cells v hv, ?_⟩⟩)
      by_cases hc : m.cell p.pagetable v = none
      · rw [Mem.back_eq_none_iff_cell.mpr hc, Mem.back_eq_none_iff_cell, hT.cells v hv, hc]
      · exact hT.stays v hv hc hc
  · have hlt : sz' < p.sz := by
      have := neg_iff.mp hneg
      omega
    refine (uvmdealloc_runs h.owned h.size).bind fun res m' hres => ?_
    obtain ⟨hres, hT⟩ := hres
    rw [hres, min_eq_right hlt.le]
    refine Returns.pure (.inl ⟨rfl, .of_turns h hT hsz (fun v hv => ?_)
      (fun hlt' => absurd hlt' hlt.not_gt) fun v hv => ?_⟩)
    · rw [unmapRange]
      split_ifs with hr
      · exact .inl rfl
      · exact .inr ⟨rfl, by omega⟩
    · rw [min_eq_right hlt.le] at hv
      rw [unmapRange, if_neg (by omega)]
  · obtain rfl : sz' = p.sz := by
      have := mt pos_iff.mpr hpos
      have := mt neg_iff.mpr hneg
      omega
    exact Returns.pure (.inl ⟨rfl, .of_turns h (.refl h.owned) h.size (fun v hv => .inr ⟨rfl, hv⟩)
      (fun hlt => absurd hlt (lt_irrefl _)) fun _ _ => rfl⟩)

/-- **The specification of `sbrk`**, for a request of any size in either mode. A sum below zero
leaves everything as it is and returns the size; a sum above `TRAPFRAME` fails. Otherwise the size
is exactly the sum, and memory is what `Resized` says; or memory has run out in an eager growth, and
the size and all mappings are as before. -/
theorem sbrk_spec (h : UserSpace m p.pagetable p.trapframe p.sz) (n t : Int32) :
    Returns (p.sysSbrk n t) m fun res m' =>
      ((p.sz : ℤ) + n.toInt < 0 → res = ((p.sz : ℤ), p) ∧ m' = m) ∧
      ((trapframeVa : ℤ) < p.sz + n.toInt → res = (-1, p) ∧ m' = m) ∧
      ∀ sz' : ℕ, (sz' : ℤ) = p.sz + n.toInt → sz' ≤ trapframeVa →
        res = ((p.sz : ℤ), { p with sz := sz' }) ∧ Resized p m m' (t = sbrkEager) sz' ∨
        t = sbrkEager ∧ 0 < n ∧ res = (-1, p) ∧ Unchanged p m m' := by
  have hsize := h.size
  rcases lt_or_ge ((p.sz : ℤ) + n.toInt) 0 with hneg | hnonneg
  · -- the sum wraps
    have hn : n < 0 := neg_iff.mpr (by omega)
    have hpos := not_pos_of_neg hn
    have hsame : p.sysSbrk n t = pure ((p.sz : ℤ), p) := by
      rw [sysSbrk, growproc, if_neg hpos, if_pos hn, if_pos (.inr hn), uvmdealloc,
        if_pos (le_add64 hneg)]
      rfl
    rw [hsame]
    exact Returns.pure ⟨fun _ => ⟨rfl, rfl⟩, fun hbig => absurd hbig (by omega),
      fun sz' hsz' => by omega⟩
  obtain ⟨s, hs⟩ := Int.eq_ofNat_of_zero_le hnonneg
  rcases lt_or_ge trapframeVa s with hbig | hle
  · have hn : 0 < n := pos_iff.mpr (by omega)
    have hfail : p.sysSbrk n t = pure (-1, p) := by
      rw [sysSbrk, growproc, add64_eq hsize hs.symm, if_pos hn, if_pos hbig,
        if_neg (not_lt_of_gt (hsize.trans_lt hbig)), if_pos hbig]
      exact ite_self _
    rw [hfail]
    exact Returns.pure ⟨fun hlt => absurd hlt (by omega), fun _ => ⟨rfl, rfl⟩,
      fun sz' hsz' hle => by omega⟩
  · refine Returns.mono (Q := fun res m' =>
      res = ((p.sz : ℤ), { p with sz := s }) ∧ Resized p m m' (t = sbrkEager) s ∨
      t = sbrkEager ∧ 0 < n ∧ res = (-1, p) ∧ Unchanged p m m') ?_ fun res m' hres =>
        ⟨fun hlt => absurd hlt (by omega), fun hbig => absurd hbig (by omega), fun sz' hsz' _ => ?_⟩
    · rw [sysSbrk, add64_eq hsize hs.symm]
      refine Returns.ite (fun hmode => ?_) fun hmode => ?_
      · refine (growproc_runs h hle hs.symm).bind fun res m' hres => ?_
        rcases hres with ⟨rfl, hR⟩ | ⟨rfl, hn, hU⟩
        · exact Returns.ite (fun hlt => absurd hlt (by decide)) fun _ =>
            Returns.pure (.inl ⟨rfl, { hR with zero := fun hlt _ => hR.zero hlt trivial }⟩)
        · have ht := hmode.resolve_right fun hneg => not_pos_of_neg hneg hn
          exact Returns.ite (fun _ => Returns.pure (.inr ⟨ht, hn, rfl, hU⟩)) fun hge =>
            absurd (by decide) hge
      · obtain ⟨ht, hn⟩ := not_or.mp hmode
        have hn' := mt neg_iff.mpr hn
        refine Returns.ite (fun hlt => by omega) fun hge => ?_
        refine Returns.ite (fun hbig => absurd hbig (not_lt.mpr hle)) fun _ => Returns.pure ?_
        have hmono := pagesOf_mono (not_lt.mp hge)
        exact .inl ⟨rfl, .of_turns h (.refl h.owned) hle (fun v hv => .inr ⟨rfl, by omega⟩)
          (fun _ he => absurd he ht) fun _ _ => rfl⟩
    · obtain rfl : sz' = s := by omega
      exact hres

/-- A process without memory asks for a page. -/
theorem sbrk_spec_page : UserSpace oneProc 9 8 0 ∧
    Returns (sysSbrk ⟨9, 8, 0⟩ 4096 1) oneProc fun res m' =>
      res.1 = 0 → m'.cell 9 0 = some (newCell pteW) := by
  obtain ⟨_, hP, _⟩ := (Returns.of_eq oneProc_eq).mp (allocproc_runs thirtyPages_holds)
  refine ⟨hP.space, (sbrk_spec (p := ⟨9, 8, 0⟩) hP.space 4096 1).mono fun res m' hres h0 => ?_⟩
  rcases hres.2.2 4096 (by decide) (by decide) with ⟨-, hR⟩ | ⟨-, -, rfl, -⟩
  · exact hR.zero (by decide) rfl 0 (by decide) (by decide)
  · cases h0

end ProcMem

end Xv6Riscv
