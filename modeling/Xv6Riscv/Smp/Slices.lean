import Xv6Riscv.Smp.Invariant
import Xv6Riscv.Smp.Selection

/-!
Levels and slices on any number of CPUs.

The bounds on levels and slices hold of the process table at all times. That a slice is positive
holds except in one place: a tick may take the last unit, and until the handler has gone through
`sched_should_preempt` to `yield` the slice is empty. `SliceInv` says so, `Step.sliceInv` that every
step keeps it, under any policy and with the policy switched at any point: the handler may charge
under one policy, decide under a second and yield under a third, and each of the three refills.

With MLFQ active throughout, what is left of a slice and the ticks charged since the last refill
add up to the slice of the level (`Run.slice_add_charged`).
-/

namespace Xv6Riscv

open Function (update_eq_self)
open Cyclic

namespace Machine

variable {ι : Type*} {m m' : Machine ι} {c : ι} {mv : Move}

/-- `p` is between a charged tick and the yield that may follow. -/
def InTickHandler (m : Machine ι) (p : Slot) : Prop :=
  ∃ c, m.cpu c = .inProc p ∧ (m.intr c = .charged ∨ m.intr c = .yielding)

/-- Outside the tick handler a slice is positive. -/
def SliceInv (m : Machine ι) : Prop :=
  ∀ p, (m.k.proc p).state ≠ .unused → 1 ≤ (m.k.proc p).timeSlice ∨ m.InTickHandler p

variable {p : Slot}

lemma slice_pos_apply {k : Kernel} {o : Op} (hl : k.LevelsOk) (hs : 1 ≤ (k.proc p).timeSlice)
    (ht : o ≠ .tick p) (hused : ((k.apply o).proc p).state ≠ .unused) :
    1 ≤ ((k.apply o).proc p).timeSlice := by
  by_cases hslot : o.slot = some p
  · rw [Kernel.apply_proc_self k o hslot] at hused ⊢
    refine effect_slice_pos k o (hl p) hs (fun q hq => ?_) hused
    subst hq
    cases hslot
    exact ht rfl
  · rwa [Kernel.apply_proc_of_ne k o hslot]

variable [DecidableEq ι] {boot : ι}

lemma Step.tick (h : Step boot m c mv m') (ho : mv.op = some (.tick p)) :
    m.cpu c = .inProc p ∧ m'.cpu c = .inProc p ∧ m.intr c = .charge ∧ m'.intr c = .charged := by
  have hp : m.cpu c = .inProc p := by
    cases h.effect.permitted _ ho with
    | thread _ hpm => exact hpm.elim
    | tick hp _ => exact hp
  cases h with
  | sched _ h _ => exact absurd hp (h.ne_inProc p)
  | intr _ h _ =>
    obtain ⟨hi, rfl⟩ := h.tick ho
    exact ⟨hp, hp, hi, Function.update_self _ _ _⟩
  | yield _ _ _ => cases ho
  | thread _ _ h _ | swtch _ _ h _ => exact (h.permits ho).elim
  | policySwitch => cases ho

lemma Step.slice_pos_of_tick (hm : m.Inv) (hs : m.SliceInv) (h : Step boot m c mv m')
    (ho : mv.op = some (.tick p)) : 1 ≤ (m.k.proc p).timeSlice := by
  obtain ⟨hp, -, hi, -⟩ := h.tick ho
  have hrun : (m.k.proc p).state = .running := (h.effect.permitted _ ho).ok hm
  rcases hs p (by rw [hrun]; decide) with hpos | ⟨c', hc', hi'⟩
  · exact hpos
  · have : c' = c := hm.owner (p := p) (by rw [hc']; rfl) (by rw [hp]; rfl)
    subst this
    rw [hi] at hi'
    rcases hi' with h | h <;> cases h

lemma Step.sliceInv_of_handler (hl : m.k.LevelsOk) (h : Step boot m c mv m')
    (hp : m.cpu c = .inProc p) (hi : m.intr c = .charged ∨ m.intr c = .yielding) :
    1 ≤ (m'.k.proc p).timeSlice ∨ m'.InTickHandler p := by
  have hne : m.intr c ≠ .none := by
    rcases hi with hi | hi <;> rw [hi] <;> simp
  cases h with
  | sched _ h _ => exact absurd hp (h.ne_inProc p)
  | @intr q _ i hq h _ =>
    rcases hi with hi | hi
    · obtain ⟨hop, rfl | ⟨q', rfl, hpos⟩⟩ := h.charged hi
      · exact .inr ⟨c, hp, .inr (Function.update_self _ _ _)⟩
      · cases hq with
        | proc hq _ =>
          rw [hp] at hq
          cases hq
          refine .inl ?_
          rw [perform, hop]
          exact hpos
    · exact absurd hi h.ne_yielding
  | yield hq _ _ =>
    rw [hp] at hq
    cases hq
    refine .inl ?_
    show 1 ≤ ((m.k.apply (.yield p)).proc p).timeSlice
    rw [Kernel.apply_proc_self _ _ rfl]
    exact (yield_levelOk (hl p) _ _).2
  | thread _ hintr _ _ | swtch _ hintr _ _ => exact absurd hintr hne
  | policySwitch => exact .inr ⟨c, hp, hi⟩

/-- **Every step keeps slices positive outside the tick handler.** -/
theorem Step.sliceInv (hm : m.Inv) (hl : m.k.LevelsOk) (hs : m.SliceInv)
    (h : Step boot m c mv m') : m'.SliceInv := by
  intro p hused
  by_cases hbefore : (m.k.proc p).state = .unused
  · -- a slot just allocated has the initial slice
    rcases h.effect.state hm p with hsame | ⟨o, ho, -, hslot, hch⟩
    · exact absurd (hsame.trans hbefore) hused
    · rw [hbefore] at hch
      generalize (m'.k.proc p).state = s at hch
      cases hch
      cases hslot
      refine .inl ?_
      rw [h.effect.k, ho]
      show 1 ≤ ((m.k.apply (.allocproc p)).proc p).timeSlice
      rw [Kernel.apply_proc_self _ _ rfl]
      exact le_refl 1
  · rcases hs p hbefore with hpos | ⟨c', hc', hi'⟩
    · by_cases ht : mv.op = some (.tick p)
      · obtain ⟨-, hp', -, hi'⟩ := h.tick ht
        exact .inr ⟨c, hp', .inl hi'⟩
      · refine .inl ?_
        rw [h.effect.k] at hused ⊢
        cases ho : mv.op with
        | none => exact hpos
        | some o =>
          rw [ho] at hused ht
          exact slice_pos_apply hl hpos (fun he => ht (by rw [he])) hused
    · by_cases hc : c' = c
      · subst hc
        exact h.sliceInv_of_handler hl hc' hi'
      · exact .inr ⟨c', by rw [h.effect.cpu c' hc, hc'], by rwa [h.effect.intr c' hc]⟩

/-! ### Runs -/

lemma bootKernel_slice (pol : SchedPolicy) (h : ((bootKernel pol).proc p).state ≠ .unused) :
    ((bootKernel pol).proc p).timeSlice = 1 ∧ ((bootKernel pol).proc p).queueLevel = 0 := by
  have hp : p = initproc := by
    by_contra hp
    rw [bootKernel_state, if_neg hp] at h
    exact h rfl
  subst hp
  simp [bootKernel, userinit, Kernel.apply, Op.slot, Op.effect, Proc.makeRunnable,
    Proc.schedProcRunnable, Proc.allocproc, Proc.schedProcInit, schedRrTimeSlice,
    schedDefaultQueueLevel]

variable {pol : SchedPolicy} {ops : List Op}

lemma Run.levelsOk (h : Run boot pol ops m) : m.k.LevelsOk := by
  rw [h.refines.2]
  exact (levelsOk_bootKernel pol).after ops

lemma Run.sliceInv (h : Run boot pol ops m) : m.SliceInv := by
  have hall : m.Inv ∧ m.k.LevelsOk ∧ m.SliceInv := by
    refine Transition.Steps.invariant (I := fun m => m.Inv ∧ m.k.LevelsOk ∧ m.SliceInv) h
      ⟨inv_init pol, levelsOk_bootKernel pol, fun p hp => .inl (bootKernel_slice pol hp).1.ge⟩ ?_
    rintro m ops m' ⟨hm, hl, hs⟩ ⟨c, mv, hstep, -⟩
    exact ⟨hstep.inv hm, hstep.effect.kernel hl fun o _ _ => hl.apply o, hstep.sliceInv hm hl hs⟩
  exact hall.2.2

/-- No operation of the list leaves MLFQ. -/
def MlfqThroughout (ops : List Op) : Prop :=
  ∀ pol, Op.policySwitch pol ∈ ops → pol = .mlfq

lemma Run.policy (h : Run boot .mlfq ops m) (hops : MlfqThroughout ops) : m.k.policy = .mlfq := by
  induction h with
  | nil => rfl
  | @snoc as bs t u h hstep ih =>
    obtain ⟨c, mv, hstep, rfl⟩ := hstep
    have ht := ih fun pol hpol => hops pol (List.mem_append_left _ hpol)
    refine hstep.effect.kernel (P := fun k => k.policy = .mlfq) ht fun o ho _ => ?_
    cases o with
    | policySwitch pol => exact hops pol (List.mem_append_right _ (by simp [ho]))
    | _ => exact ht

/-- **What is left of a slice and what has been charged of it make up the slice of the level**,
with MLFQ active throughout. -/
theorem Run.slice_add_charged (h : Run boot .mlfq ops m) (hops : MlfqThroughout ops) :
    ∀ p, (m.k.proc p).state ≠ .unused → (m.k.proc p).timeSlice + charged (bootKernel .mlfq) ops p
        = mlfqTimeSlice (m.k.proc p).queueLevel := by
  induction h with
  | nil =>
    intro p hp
    obtain ⟨hs, hq⟩ := bootKernel_slice .mlfq hp
    show ((bootKernel .mlfq).proc p).timeSlice + 0
      = mlfqTimeSlice ((bootKernel .mlfq).proc p).queueLevel
    rw [hs, hq]
    rfl
  | @snoc as bs t u h hstep ih =>
    have hrun : Run boot .mlfq as t := h
    obtain ⟨c, mv, hstep, rfl⟩ := hstep
    have hops' : MlfqThroughout as := fun pol hpol => hops pol (List.mem_append_left _ hpol)
    have hbase := ih hops'
    -- the history variable of the longer run is one update away
    have htrack : charged (bootKernel .mlfq) (as ++ mv.op.toList)
        = Transition.track Kernel.apply chargedStep (charged (bootKernel .mlfq) as) t.k
            mv.op.toList := by
      rw [charged, Transition.track_append, hrun.refines.2]
      rfl
    rw [htrack, hstep.effect.k]
    cases ho : mv.op with
    | none => exact hbase
    | some o =>
      have hok := (hstep.effect.permitted o ho).ok hrun.inv
      exact slice_add_charged_step (hrun.policy hops') hrun.levelsOk hok
        (fun p hp => hstep.slice_pos_of_tick hrun.inv hrun.sliceInv (by rw [ho, hp])) hbase

/-- **Levels and slices.** In every run, with the policy switched at any point: the level of a used
slot is within bounds, its slice is at most that of its level, and at least one outside the tick
handler. In a run with MLFQ active throughout, the slice and the ticks charged since the last refill
add up to the slice of the level, and a step that demotes a process is a yield of it after exactly
its whole slice has been charged. -/
theorem mlfq_level_slice_invariant (h : Run boot pol ops m) :
    (∀ p, (m.k.proc p).state ≠ .unused →
      0 ≤ (m.k.proc p).queueLevel ∧ (m.k.proc p).queueLevel < schedMlfqLevels ∧
      (m.k.proc p).timeSlice ≤ mlfqTimeSlice (m.k.proc p).queueLevel ∧
      (¬ m.InTickHandler p → 1 ≤ (m.k.proc p).timeSlice)) ∧
    (pol = .mlfq → MlfqThroughout ops → (∀ p, (m.k.proc p).state ≠ .unused →
        (m.k.proc p).timeSlice + charged (bootKernel pol) ops p
          = mlfqTimeSlice (m.k.proc p).queueLevel) ∧
      ∀ c mv m' p, Step boot m c mv m' → (m.k.proc p).queueLevel < (m'.k.proc p).queueLevel →
        mv.op = some (.yield p) ∧
          charged (bootKernel pol) ops p = mlfqTimeSlice (m.k.proc p).queueLevel) := by
  have hl := h.levelsOk
  refine ⟨fun p hused => ?_, ?_⟩
  · refine ⟨(hl p).level_nonneg, (hl p).level_lt, (hl p).slice_le, fun hout => ?_⟩
    exact (h.sliceInv p hused).resolve_right hout
  · rintro rfl hops
    have hcharged := h.slice_add_charged hops
    refine ⟨hcharged, fun c mv m' p hstep hlt => ?_⟩
    rw [hstep.effect.k] at hlt
    cases ho : mv.op with
    | none =>
      rw [ho] at hlt
      exact absurd hlt (lt_irrefl _)
    | some o =>
      rw [ho] at hlt
      obtain ⟨rfl, hz⟩ := level_lt_apply (h.policy hops) hl hlt
      refine ⟨rfl, ?_⟩
      -- the process that yields is running, so its slot is in use
      have hrun : (m.k.proc p).state = .running := (hstep.effect.permitted _ ho).ok h.inv
      have := hcharged p (by rw [hrun]; decide)
      omega

lemma Run.mlfq_scan (h : Run boot pol ops m) (hintr : m.intr c = .none)
    (hfree : ∀ i, m.lock (.proc i) = none) {s : Slot}
    (hpc : m.cpu c = .mlfqScan s 0 (none, schedMlfqLevels)) {t : ℕ} (ht : t ≤ nproc) :
    Run boot pol (ops ++ (List.range t).map fun j => .age (place s j)) (m.mlfqScanning c s t) := by
  induction t with
  | zero =>
    have hm : m.mlfqScanning c s 0 = m := by
      rw [mlfqScanning, mlfqScan, ← hpc, update_eq_self]
    rw [hm, List.range_zero, List.map_nil, List.append_nil]
    exact h
  | succ t ih =>
    rw [List.range_succ, List.map_append, ← List.append_assoc]
    exact (ih (by omega)).snoc ⟨c, _, mlfqScanning_step boot hintr hfree ht, rfl⟩

/-- The run in which, under MLFQ, the second of two CPUs dispatches init. -/
lemma exists_run_mlfq : ∃ ops, ∃ m : Machine (Fin 2), Run 0 .mlfq ops m ∧ MlfqThroughout ops ∧
    m.k = (mlfqScan (bootKernel .mlfq) 0 nproc).1.after [.age 0, .dispatch 0] ∧
    m.cpu 1 = .inProc 0 ∧ m.intr 1 = .none ∧ m.thread 0 = .run ∧ m.lock (.proc 0) = none := by
  have h0 : Run (0 : Fin 2) .mlfq [] (init (Fin 2) .mlfq) := .nil
  have h1 := h0.sched (c := 1) rfl rfl (.startMlfq rfl) trivial
  have h2 := h1.mlfq_scan (c := 1) rfl (fun _ => rfl) rfl le_rfl
  have hbest : (mlfqScan (bootKernel .mlfq) 0 nproc).2 = (some 0, 0) := by decide +kernel
  have h3 := h2.sched (c := 1) rfl (congrArg (CpuPc.mlfqScan 0 nproc) hbest) .mlfqBest trivial
  have hk := h3.refines.2
  have h4 := h3.sched (c := 1) rfl rfl
    (.mlfqTake (by rw [hk]; decide +kernel) (by rw [hk]; decide +kernel)) rfl
  have h5 := h4.sched (c := 1) rfl rfl .dispatch trivial
  have h6 := h5.sched (c := 1) rfl rfl .swtch trivial
  have h7 := h6.sched (c := 1) rfl rfl .enter trivial
  refine ⟨_, _, h7, fun pol hpol => ?_, rfl, rfl, rfl, rfl, rfl⟩
  simp at hpol

/-- A tick has then been charged to init, and has used up its slice. -/
lemma exists_run_charged : ∃ ops, ∃ m : Machine (Fin 2), Run 0 .mlfq ops m ∧ MlfqThroughout ops ∧
    m.k = (mlfqScan (bootKernel .mlfq) 0 nproc).1.after [.age 0, .dispatch 0, .tick 0] ∧
    m.cpu 1 = .inProc 0 ∧ m.intr 1 = .yielding ∧ m.lock (.proc 0) = none := by
  obtain ⟨ops, m, h, hops, hk, hcpu, hintr, ht, hlock⟩ := exists_run_mlfq
  have hbusy : (m.thread 0).busy = false := by rw [ht]; rfl
  have hcharged : (m.k.apply (.tick 0)).policy = .mlfq ∧
      ((m.k.apply (.tick 0)).proc 0).timeSlice ≤ 0 := by
    rw [hk]
    decide +kernel
  have h1 := h.intr (.proc hcpu hbusy) hintr (.timer (by decide)) trivial
  have h2 := h1.intr (c := 1) (.proc hcpu hbusy) rfl .charge trivial
  have h3 := h2.intr (c := 1) (.proc hcpu hbusy) rfl (.preemptEmpty hcharged.1 hcharged.2) trivial
  exact ⟨_, _, h3, fun pol hpol => hops pol (by simpa using hpol),
    congrArg (Kernel.apply · (.tick 0)) hk, hcpu, rfl, hlock⟩

/-- The hypotheses are met by a run in which a tick has used up the slice of init, whose yield then
demotes it. -/
theorem mlfq_level_slice_invariant_demotes : ∃ ops, ∃ m m' : Machine (Fin 2), ∃ mv,
    Run 0 .mlfq ops m ∧ MlfqThroughout ops ∧ Step 0 m 1 mv m' ∧
    (m.k.proc initproc).queueLevel = 0 ∧ (m'.k.proc initproc).queueLevel = 1 ∧
    mv.op = some (.yield initproc) ∧ charged (bootKernel .mlfq) ops initproc = 1 := by
  obtain ⟨ops, m, h, hops, hk, hcpu, hintr, hlock⟩ := exists_run_charged
  have hstep : Step 0 m 1 _ _ := .yield hcpu hintr hlock
  have hlevels : (m.k.proc 0).queueLevel = 0 ∧
      ((m.k.apply (.yield 0)).proc 0).queueLevel = 1 := by
    rw [hk]
    decide +kernel
  obtain ⟨hlevel, hdemoted⟩ := hlevels
  have hlt : (m.k.proc 0).queueLevel < ((m.k.apply (.yield 0)).proc 0).queueLevel := by
    rw [hlevel, hdemoted]
    decide
  obtain ⟨hyield, hticks⟩ := ((mlfq_level_slice_invariant h).2 rfl hops).2 1 _ _ 0 hstep hlt
  exact ⟨ops, m, _, _, h, hops, hstep, hlevel, hdemoted, hyield,
    Nat.cast_eq_one.mp (hticks.trans (by rw [hlevel]; rfl))⟩

end Machine

end Xv6Riscv
