import Xv6Riscv.Smp.Invariant

/-!
CPU exclusivity and the order of the locks.

In the states in which the lock of `p` is free the invariant of the machine leaves a simple
picture: `c->proc == p` means that CPU `c` runs the thread of `p` (`Inv.current_iff_inProc`), and a
process is running if and only if it is current on exactly one CPU (`cpu_exclusivity`). No process
is dispatched twice, and `kwait` never frees a slot that is still current somewhere.

A CPU that holds a `p->lock` takes no other lock, and one that holds `wait_lock` takes only a
`p->lock` (`Inv.before`), so no CPUs wait for each other in a circle (`no_deadlock`).
-/

namespace Xv6Riscv

/-- A step has a section under the lock `l`, or acquires it for the next ones. -/
def Move.Takes (mv : Move) (l : Lock) : Prop := mv.lock = .within l ∨ mv.lock = .acquire l

/-- `wait_lock` comes before every `p->lock`. -/
def Lock.Before (l l' : Lock) : Prop := l = .wait ∧ ∃ p, l' = .proc p

section

variable {k : Kernel} {p : Slot} {t t' : ThreadPc} {mv : Move} {l l' : Lock}

lemma SchedEdge.takes {cur : Cursors} {pc pc' : CpuPc} (h : SchedEdge k cur pc mv pc')
    (hl : mv.Takes l) (th : Slot → ThreadPc) : ¬ pc.Holds th l' := by
  cases h <;> simp [Move.Takes, CpuPc.Holds] at hl ⊢

lemma ThreadEdge.takes (h : ThreadEdge k p t mv t') (hl : mv.Takes l) (hh : t.Holds p l') :
    l'.Before l := by
  cases h <;> simp [Move.Takes, ThreadPc.Holds] at hl hh <;> exact ⟨hh, _, hl.symm⟩

lemma SwtchEdge.takes (h : SwtchEdge k p t mv t') (hl : mv.Takes l) : ¬ t.Holds p l' := by
  cases h <;> simp [Move.Takes, ThreadPc.Holds] at hl ⊢

end

namespace Machine

variable {ι : Type*} {m m' : Machine ι} {c : ι}

variable {p : Slot}

lemma owns_of_current {pc : CpuPc} (h : pc.current = some p) : pc.owns = some p := by
  cases pc <;> first | exact h | cases h

section

variable (hm : m.Inv) (hfree : m.lock (.proc p) = none)

include hm hfree

/-- A process whose lock is free is current on a CPU exactly when the CPU runs its thread. -/
lemma Inv.current_iff_inProc (c : ι) : m.cpuProc c = some p ↔ m.cpu c = .inProc p := by
  rw [hm.current c]
  have hnot := hm.locks.not_holds_of_free hfree c
  rw [Holds] at hnot
  constructor
  · intro hcur
    cases hpc : m.cpu c with
    | inProc q =>
      rw [hpc] at hcur
      cases hcur
      rfl
    | entered q | back q =>
      rw [hpc] at hcur hnot
      cases hcur
      exact absurd rfl hnot
    | _ =>
      rw [hpc] at hcur
      cases hcur
  · intro hpc
    rw [hpc]
    rfl

/-- A thread at `exitSwtch` holds the lock of its process. -/
lemma Inv.ne_exitSwtch_of_free (hp : m.cpu c = .inProc p) : m.thread p ≠ .exitSwtch := by
  intro ht
  refine hm.locks.not_holds_of_free hfree c ?_
  rw [holds_inProc hp, ht]
  exact .inl rfl

lemma Inv.exists_inProc (hrun : (m.k.proc p).state = .running) : ∃ c, m.cpu c = .inProc p := by
  obtain ⟨c, hc⟩ := hm.running p hrun
  have hnot := hm.locks.not_holds_of_free hfree c
  rw [Holds] at hnot
  refine ⟨c, ?_⟩
  cases hpc : m.cpu c with
  | inProc q =>
    rw [hpc] at hc
    cases hc
    rfl
  | selected q | dispatched q | entered q | back q | releasing q =>
    rw [hpc] at hc hnot
    cases hc
    exact absurd rfl hnot
  | _ =>
    rw [hpc] at hc
    cases hc

end

variable [DecidableEq ι] {boot : ι} {mv : Move} {pol : SchedPolicy} {ops : List Op}

/-- The lock of a process is free when `kwait` frees its slot. -/
lemma Step.free_of_reap (h : Step boot m c mv m') {i : Slot} (ho : mv.op = some (.reap i)) :
    m.lock (.proc i) = none ∧ (m.k.proc i).state = .zombie := by
  have hen := h.effect.enabled
  cases h.effect.permitted _ ho with
  | thread _ hpm =>
    obtain ⟨hz, -, -, hl⟩ := hpm
    rw [hl] at hen
    exact ⟨hen, hz⟩

/-- **CPU exclusivity and safe reaping.** In every run, on any number of CPUs: a process whose
lock is free is running if and only if exactly one CPU has it as `c->proc`, and otherwise none
has; never do two CPUs have the same one, a dispatch is of a process that no CPU has, and the slot
`kwait` frees is nobody's. -/
theorem cpu_exclusivity (h : Run boot pol ops m) (p : Slot) :
    (m.lock (.proc p) = none → ((m.k.proc p).state = .running ↔ ∃! c, m.cpuProc c = some p) ∧
      ((m.k.proc p).state ≠ .running → ∀ c, m.cpuProc c ≠ some p)) ∧
    (∀ c c', m.cpuProc c = some p → m.cpuProc c' = some p → c = c') ∧
    (∀ c mv m', Step boot m c mv m' → mv.op = some (.dispatch p) → ∀ c', m.cpuProc c' ≠ some p) ∧
    (∀ c mv m', Step boot m c mv m' → mv.op = some (.reap p) → ∀ c', m.cpuProc c' ≠ some p) := by
  have hm := h.inv
  have hunique : ∀ c c', m.cpuProc c = some p → m.cpuProc c' = some p → c = c' := by
    intro c c' hc hc'
    rw [hm.current] at hc hc'
    exact hm.owner (owns_of_current hc) (owns_of_current hc')
  -- a current process whose lock is free is running
  have hrunning : m.lock (.proc p) = none → ∀ c, m.cpuProc c = some p →
      (m.k.proc p).state = .running := by
    intro hfree c hc
    have hp := (hm.current_iff_inProc hfree c).mp hc
    exact hm.state_inProc hp (hm.ne_exitSwtch_of_free hfree hp)
  refine ⟨fun hfree => ⟨⟨fun hrun => ?_, ?_⟩, fun hne c hc => hne (hrunning hfree c hc)⟩, hunique,
    ?_, ?_⟩
  · obtain ⟨c, hc⟩ := hm.exists_inProc hfree hrun
    have hcur := (hm.current_iff_inProc hfree c).mpr hc
    exact ⟨c, hcur, fun c' hc' => hunique c' c hc' hcur⟩
  · rintro ⟨c, hc, -⟩
    exact hrunning hfree c hc
  · intro c mv m' hstep ho c' hc'
    cases hstep.effect.permitted _ ho with
    | thread _ hpm => exact hpm.elim
    | dispatch hsel =>
      -- the CPU that dispatches owns the process and has no current one
      rw [hm.current] at hc'
      have heq : c' = c := hm.owner (owns_of_current hc') (by rw [hsel]; rfl)
      rw [heq, hsel] at hc'
      cases hc'
  · intro c mv m' hstep ho c' hc'
    obtain ⟨hfree, hz⟩ := hstep.free_of_reap ho
    exact absurd ((hrunning hfree c' hc').symm.trans hz) (by decide)

/-- The hypothesis is met by the run in which the first of two CPUs dispatches init. -/
theorem cpu_exclusivity_init : ∃ m : Machine (Fin 2), Run 0 .rr [.dispatch initproc] m ∧
    m.lock (.proc initproc) = none ∧ ∃! c, m.cpuProc c = some initproc := by
  obtain ⟨m, h, hcpu, -, -, -, ht, hfree⟩ := exists_run_init
  have hrun := h.inv.state_inProc hcpu (by rw [ht]; simp)
  exact ⟨m, h, hfree _, (((cpu_exclusivity h initproc).1 (hfree _)).1).mp hrun⟩

/-! ### The order of the locks -/

variable {l l' : Lock} {a b : ι}

variable (boot m) in
/-- The lock `l` is what CPU `c` needs for a step it is about to make. -/
def Wants (c : ι) (l : Lock) : Prop :=
  ∃ mv m', Step boot { m with lock := fun _ => none } c mv m' ∧ mv.Takes l

variable (boot m) in
/-- CPU `c` wants a lock that CPU `c'` holds. -/
def WaitsFor (c c' : ι) : Prop := ∃ l, m.Wants boot c l ∧ m.lock l = some c'

lemma Inv.before (hm : m.Inv) (h : m.Wants boot c l) (hh : m.lock l' = some c) : l'.Before l := by
  obtain ⟨mv, m', hstep, hl⟩ := h
  replace hh := (hm.locks l' c).mp hh
  have hquiet : ∀ {p}, m.cpu c = .inProc p → (m.thread p).busy = false → l'.Before l := by
    intro p hc hb
    rw [holds_inProc hc] at hh
    exact absurd hh (ThreadPc.not_holds_of_quiet hb _ _)
  cases hstep with
  | sched _ h _ => exact absurd hh (h.takes hl _)
  | intr hp _ _ =>
    cases hp with
    | idle hc =>
      rw [Holds, show m.cpu c = .loop from hc] at hh
      exact hh.elim
    | proc hc hb => exact hquiet hc hb
  | yield hc hi _ =>
    exact hquiet hc (hm.quiet_of_intr hc fun hn => by cases hi.symm.trans hn)
  | thread hc _ h _ =>
    rw [holds_inProc (m := m) hc] at hh
    exact h.takes hl hh
  | swtch hc _ h _ =>
    rw [holds_inProc (m := m) hc] at hh
    exact absurd hh (h.takes hl)
  | policySwitch => simp [Move.Takes] at hl

/-- A CPU that is waited for and waits itself holds `wait_lock` and wants a `p->lock`, so the CPU it
waits for does not wait. -/
lemma Inv.not_waitsFor (hm : m.Inv) (ha : m.WaitsFor boot a b) (hb : m.WaitsFor boot b c) (d : ι) :
    ¬ m.WaitsFor boot c d := by
  rintro ⟨l3, h3, -⟩
  obtain ⟨l1, -, h1⟩ := ha
  obtain ⟨l2, hw, h2⟩ := hb
  obtain ⟨-, p, rfl⟩ := hm.before hw h1
  cases (hm.before h3 h2).1

/-- **No deadlock on the locks of the process table.** In every reachable state, on any number of
CPUs, no CPU waits in a circle for the spinlocks `p->lock` and `wait_lock`; in particular none
acquires a lock it holds. -/
theorem no_deadlock (h : Run boot pol ops m) (c : ι) :
    ¬ Relation.TransGen (m.WaitsFor boot) c c := by
  intro hcycle
  obtain ⟨a, -, ha⟩ := Relation.TransGen.tail'_iff.mp hcycle
  obtain ⟨b, hb, hrest⟩ := Relation.TransGen.head'_iff.mp hcycle
  rcases hrest.cases_head with rfl | ⟨d, hd, -⟩
  · exact h.inv.not_waitsFor hb hb b hb
  · exact h.inv.not_waitsFor ha hb d hd

/-- The hypothesis is met by a run in which the first CPU has locked init to dispatch it and the
second one, whose scan has come to init too, waits for the lock. -/
theorem no_deadlock_scan : ∃ m : Machine (Fin 2), Run 0 .rr [] m ∧ m.WaitsFor 0 1 0 ∧
    ¬ Relation.TransGen (m.WaitsFor 0) 1 1 := by
  have h0 : Run (0 : Fin 2) .rr [] (init (Fin 2) .rr) := .nil
  have h1 := h0.sched (c := 1) rfl rfl (.startRr rfl) trivial
  have h2 := h1.sched (c := 0) rfl rfl (.startRr rfl) trivial
  have htake : SchedEdge (bootKernel .rr) ⟨0, 0, 0⟩ (.rrScan 0 0) _ _ :=
    .rrTake (by simp [nproc_eq]) (bootKernel_state .rr 0)
  have h3 := h2.sched (c := 0) rfl rfl htake rfl
  exact ⟨_, h3, ⟨.proc initproc, ⟨_, _, .sched rfl htake rfl, .inr rfl⟩, rfl⟩, no_deadlock h3 1⟩

end Machine

end Xv6Riscv
