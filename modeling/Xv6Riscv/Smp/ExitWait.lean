import Xv6Riscv.Proc.Family
import Xv6Riscv.Smp.Invariant

/-!
`kfork`, `kexit` and `kwait` on any number of CPUs.

`kexit` wakes its parent before it becomes a zombie, `reparent` gives children to init while init
may be inside `kwait`, and `kwait` releases `wait_lock` between the scan that finds no zombie and
the sleep. What makes this work is `wait_lock`: a process registers in `kwait` only under it, after
a scan that found no zombie child, and a child that becomes a zombie, or is given to init, has the
parent's registration cleared before `wait_lock` is released.

* `ThreadEdge.asserts`, `Asserts.apply`: a thread establishes what it knows next, and the
  operations of the other CPUs do not destroy it.
* `exit_wait_protocol`: every process has a live parent, a zombie is reaped once and with the
  status it exited with, and no process sleeps in `kwait` while it has a zombie child.
-/

namespace Xv6Riscv

open Function (update update_eq_self update_of_ne update_self)

variable {k : Kernel} {o : Op} {p q : Slot}

/-! ### What a thread knows -/

namespace Kernel

/-- `reparent(p)` has passed the slots below `n`. -/
def NoChild (k : Kernel) (p : Slot) (n : ℕ) : Prop :=
  ∀ j : Slot, j.val < n → (k.proc j).parent ≠ some p

/-- The scan of `kwait` in `p` has found no zombie in the slots below `n`. -/
def NoZombie (k : Kernel) (p : Slot) (n : ℕ) : Prop :=
  ∀ j : Slot, j.val < n → (k.proc j).parent = some p → (k.proc j).state ≠ .zombie

/-- If the slot of `q` is below `n`, then `q` is not registered in `kwait`. -/
def Woken (k : Kernel) (q : Slot) (n : ℕ) : Prop := q.val < n → ¬ k.Waiting q

lemma NoChild.succ {i : Slot} (h : k.NoChild p i) (hi : (k.proc i).parent ≠ some p) :
    k.NoChild p (i + 1) := by
  intro j hj
  rcases Nat.lt_succ_iff_lt_or_eq.mp hj with hlt | heq
  · exact h j hlt
  · rw [Fin.ext heq]
    exact hi

lemma NoZombie.succ {i : Slot} (h : k.NoZombie p i)
    (hi : (k.proc i).parent = some p → (k.proc i).state ≠ .zombie) : k.NoZombie p (i + 1) := by
  intro j hj
  rcases Nat.lt_succ_iff_lt_or_eq.mp hj with hlt | heq
  · exact h j hlt
  · rw [Fin.ext heq]
    exact hi

lemma NoChild.apply {n : ℕ} (h : k.NoChild p n) (ho : o.Ok k) (hw : ¬ o.UsesWait) :
    (k.apply o).NoChild p n := by
  intro j hj
  rw [(apply_of_not_usesWait ho hw j).1]
  exact h j hj

lemma NoZombie.apply {n : ℕ} (h : k.NoZombie p n) (ho : o.Ok k) (hw : ¬ o.UsesWait) :
    (k.apply o).NoZombie p n := by
  intro j hj hpar hz
  obtain ⟨hp, hs, -⟩ := apply_of_not_usesWait ho hw j
  exact h j hj (hp.symm.trans hpar) (hs hz)

lemma Woken.apply {n : ℕ} (h : k.Woken q n) (ho : o.Ok k) (hw : ¬ o.UsesWait) :
    (k.apply o).Woken q n :=
  fun hq hreg => h hq ((apply_of_not_usesWait ho hw q).2.2 q hreg)

lemma Woken.wakeup {j : Slot} (h : k.Woken q j) :
    (k.apply (.wakeup j (some (.proc q)))).Woken q (j + 1) := by
  intro hq hreg
  rcases Nat.lt_succ_iff_lt_or_eq.mp hq with hlt | heq
  · exact h.apply (o := .wakeup j (some (.proc q))) trivial id hlt hreg
  · cases Fin.ext heq
    exact wakeup_chan_ne k q (.proc q) hreg

lemma noChild_zero (k : Kernel) (p : Slot) : k.NoChild p 0 :=
  fun j hj => absurd hj (Nat.not_lt_zero j)

lemma noZombie_zero (k : Kernel) (p : Slot) : k.NoZombie p 0 :=
  fun j hj => absurd hj (Nat.not_lt_zero j)

lemma woken_zero (k : Kernel) (q : Slot) : k.Woken q 0 :=
  fun hq => absurd hq (Nat.not_lt_zero q)

end Kernel

/-- What the thread of `p` knows inside `kfork`, `kexit` and `kwait`. -/
def ThreadPc.Asserts (k : Kernel) (p : Slot) : ThreadPc → Prop
  | forkHold np => (k.proc np).parent = none
  | forkRunnable np => (k.proc np).parent ≠ none
  | exitReparent _ i => p ≠ initproc ∧ k.NoChild p i
  | exitWakeInit _ i j => p ≠ initproc ∧ k.NoChild p (i + 1) ∧ k.Woken initproc j
  | exitWakeParent _ ch j => p ≠ initproc ∧ k.NoChild p nproc ∧
      ∀ q, (k.proc p).parent = some q → ch = some (.proc q) ∧ k.Woken q j
  | exitZombie _ => p ≠ initproc ∧ k.NoChild p nproc ∧
      ∀ q, (k.proc p).parent = some q → ¬ k.Waiting q
  | waitScan i _ => k.NoZombie p i
  | waitPrepare => k.NoZombie p nproc
  | waitRelease | waitSleep => (k.proc p).chan = none ∨ k.Waiting p
  | waitAcquire => (k.proc p).state = .sleeping → k.Waiting p
  | _ => True

/-- **A thread establishes what it knows next.** -/
theorem ThreadEdge.asserts {t t' : ThreadPc} {mv : Move} (h : ThreadEdge k p t mv t')
    (hf : k.FamilyOk) (hrun : (k.proc p).state = .running) (ha : t.Asserts k p) :
    t'.Asserts (mv.op.elim k k.apply) p := by
  cases h with
  | @forkFound j h =>
    show ((k.apply _).proc j).parent = none
    rw [Kernel.apply_proc_self _ _ rfl]
    exact hf.unused j h
  | @forkParent np =>
    show ((k.apply _).proc np).parent ≠ none
    rw [Kernel.apply_proc_self _ _ rfl]
    nofun
  | exitStart h => exact ⟨h, k.noChild_zero p⟩
  | reparentNext h => exact ⟨ha.1, ha.2.succ h⟩
  | @reparentHit st i h =>
    refine ⟨ha.1, Kernel.NoChild.succ (fun j hj => ?_) ?_, Kernel.woken_zero _ _⟩
    · have hne : i ≠ j := by
        rintro rfl
        exact lt_irrefl _ hj
      show ((k.apply _).proc j).parent ≠ _
      rw [Kernel.apply_proc_of_ne _ _ (by simpa [Op.slot] using hne)]
      exact ha.2 j hj
    · show ((k.apply _).proc i).parent ≠ _
      rw [Kernel.apply_proc_self _ _ rfl, Op.effect, Proc.reparent, if_pos h]
      exact fun he => ha.1 (Option.some.inj he).symm
  | wakeInitNext => exact ⟨ha.1, ha.2.1.apply trivial id, ha.2.2.wakeup⟩
  | wakeInitDone => exact ⟨ha.1, ha.2.1⟩
  | reparentDone =>
    refine ⟨ha.1, ha.2, fun q hq => ⟨?_, k.woken_zero q⟩⟩
    rw [show (k.proc p).parent = some q from hq]
    rfl
  | @wakeParentNext st ch j =>
    refine ⟨ha.1, ha.2.1.apply trivial id, fun q hq => ?_⟩
    have hq' := (apply_of_not_usesWait (o := .wakeup j ch) trivial id p).1.symm.trans hq
    obtain ⟨rfl, hwoken⟩ := ha.2.2 q hq'
    exact ⟨rfl, hwoken.wakeup⟩
  | wakeParentDone => exact ⟨ha.1, ha.2.1, fun q hq => (ha.2.2 q hq).2 q.isLt⟩
  | waitStart | waitAcquire => exact k.noZombie_zero p
  | waitNext h => exact ha.succ fun hp => absurd hp h
  | waitAlive h hz => exact ha.succ fun _ => hz
  | waitKids h => exact ha
  | waitPrepare =>
    refine .inr ?_
    show ((k.apply _).proc p).chan = _
    rw [Kernel.apply_proc_self _ _ rfl]
    rfl
  | waitRelease => exact ha
  | waitSleepSkip h =>
    -- it goes on without having slept
    exact fun hs => absurd (hrun.symm.trans hs) (by decide)
  | _ => trivial

/-- At a zombie child `kwait` reaps it or, if `copyout` fails, does nothing, and then returns. -/
lemma ThreadEdge.of_zombie {t' : ThreadPc} {mv : Move} {i : Slot} {havekids : Bool}
    (h : ThreadEdge k p (.waitScan i havekids) mv t') (hpar : (k.proc i).parent = some p)
    (hz : (k.proc i).state = .zombie) :
    t' = .waitReturn ∧ (mv.op = some (.reap i) ∨ mv.op = none) := by
  generalize ht : ThreadPc.waitScan i havekids = t at h
  cases h with
  | @waitNext i' _ h =>
    cases Fin.ext (ThreadPc.waitScan.inj ht).1
    exact absurd hpar h
  | @waitAlive i' _ _ h =>
    cases Fin.ext (ThreadPc.waitScan.inj ht).1
    exact absurd hz h
  | waitCopyoutFails => exact ⟨rfl, .inr rfl⟩
  | @waitReap i' =>
    cases Fin.ext (ThreadPc.waitScan.inj ht).1
    exact ⟨rfl, .inl rfl⟩
  | waitNoKids | waitKilled _ | waitKids _ =>
    exact absurd (ThreadPc.waitScan.inj ht).1 (Nat.ne_of_lt i.isLt)
  | _ => cases ht

lemma SwtchEdge.asserts {t t' : ThreadPc} {mv : Move} (h : SwtchEdge k p t mv t')
    (ha : t.Asserts k p) : t'.Asserts (mv.op.elim k k.apply) p := by
  cases h with
  | sleep h => trivial
  | waitSleep h =>
    intro _
    show ((k.apply _).proc p).chan = _
    rw [Kernel.apply_proc_self _ _ rfl, Op.effect, Proc.sleep, if_pos h]
    exact ha.resolve_left h
  | exit => trivial

/-- **What a thread knows is stable** under the operations of others, as long as those that change
the process tree are kept out by `wait_lock` while it holds it. -/
theorem ThreadPc.Asserts.apply {t : ThreadPc} (ha : t.Asserts k q) (ho : o.Ok k)
    (hs : SleepingOk ((k.apply o).proc q)) (hsleep : o ≠ .sleep q)
    (hprep : ∀ ch, o ≠ .sleepPrepare q ch)
    (hchild : ∀ np, t.child = some np → (k.proc np).state = .used ∧ ∀ p, o ≠ .setParent np p)
    (hwait : t.Holds q .wait → ¬ o.UsesWait) : t.Asserts (k.apply o) q := by
  -- without `sleep_prepare` of its own, the registration of `q` stays or goes
  have hchan : ∀ ch, ((k.apply o).proc q).chan = some ch → (k.proc q).chan = some ch :=
    fun ch hch => (apply_chan hch).resolve_right (hprep ch)
  have hreg : (k.proc q).chan = none ∨ k.Waiting q →
      ((k.apply o).proc q).chan = none ∨ (k.apply o).Waiting q := by
    intro h
    cases hch : ((k.apply o).proc q).chan with
    | none => exact .inl rfl
    | some ch =>
      have hold := hchan ch hch
      rcases h with h | h
      · rw [hold] at h
        cases h
      · exact .inr (hch.trans (hold.symm.trans h))
  cases t with
  | forkHold np =>
    have hnone : (k.proc np).parent = none := ha
    show ((k.apply o).proc np).parent = none
    rcases apply_parent k o np with h | h
    · exact h.trans hnone
    · rw [hnone] at h
      generalize ((k.apply o).proc np).parent = new at h
      cases h with
      | setParent p => exact absurd rfl ((hchild np rfl).2 p)
      | reap => rfl
  | forkRunnable np =>
    have hused := (hchild np rfl).1
    show ((k.apply o).proc np).parent ≠ none
    rcases apply_parent k o np with h | h
    · rw [h]
      exact ha
    · generalize (k.proc np).parent = old, ((k.apply o).proc np).parent = new at h
      cases h with
      | setParent p => nofun
      | reparent p => nofun
      | reap => exact absurd (hused.symm.trans ho) (by decide)
  | exitReparent st i => exact ⟨ha.1, ha.2.apply ho (hwait rfl)⟩
  | exitWakeInit st i j =>
    exact ⟨ha.1, ha.2.1.apply ho (hwait rfl), ha.2.2.apply ho (hwait rfl)⟩
  | exitWakeParent st ch j =>
    have hw := hwait rfl
    refine ⟨ha.1, ha.2.1.apply ho hw, fun p hp => ?_⟩
    have hp' := (apply_of_not_usesWait ho hw q).1.symm.trans hp
    exact ⟨(ha.2.2 p hp').1, (ha.2.2 p hp').2.apply ho hw⟩
  | exitZombie st =>
    have hw := hwait rfl
    refine ⟨ha.1, ha.2.1.apply ho hw, fun p hp hreg => ?_⟩
    have hp' := (apply_of_not_usesWait ho hw q).1.symm.trans hp
    exact ha.2.2 p hp' ((apply_of_not_usesWait ho hw p).2.2 p hreg)
  | waitScan i havekids | waitPrepare => exact Kernel.NoZombie.apply ha ho (hwait rfl)
  | waitRelease | waitSleep => exact hreg ha
  | waitAcquire =>
    intro hsleeping
    have hold := (apply_sleeping ho hsleeping).resolve_right hsleep
    exact (hreg (.inr (ha hold))).resolve_left (hs hsleeping)
  | _ => trivial

/-! ### The invariant -/

namespace Machine

variable {ι : Type*} {boot : ι} {m m' : Machine ι} {c : ι} {mv : Move}

/-- **The invariant of the process tree.** A process that is registered in `kwait` and has a zombie
child is init, and the thread that has just given it the child is on its way to wake it. -/
structure WaitInv (m : Machine ι) : Prop where
  family : m.k.FamilyOk
  sleeping : ∀ p, SleepingOk (m.k.proc p)
  thread : ∀ p, (m.thread p).Asserts m.k p
  zombie : ∀ {i q}, (m.k.proc i).parent = some q → (m.k.proc i).state = .zombie →
    m.k.Waiting q → q = initproc ∧ ∃ p st n j, m.thread p = .exitWakeInit st n j ∧ j ≤ initproc.val

/-- The operations that change the process tree are performed with `wait_lock` held. -/
lemma Permitted.wait (hen : mv.lock.Enabled m.lock) (h : m.Permitted c mv.lock o)
    (ho : o.UsesWait) : m.lock .wait = none ∨ m.Holds c .wait := by
  cases h with
  | @thread p _ hp h =>
    rw [holds_inProc hp]
    cases o with
    | setParent np q =>
      rw [h.2.2] at hen
      exact .inl hen
    | reparent i q =>
      obtain ⟨-, ⟨st, ht⟩, -⟩ := h
      rw [ht]
      exact .inr rfl
    | reap i =>
      obtain ⟨-, -, ⟨havekids, ht⟩, -⟩ := h
      rw [ht]
      exact .inr rfl
    | exit q st =>
      rw [h.2.1]
      exact .inr rfl
    | sleepPrepare q ch =>
      obtain ⟨-, -, ⟨-, a, rfl⟩ | ⟨ht, -⟩⟩ := h
      · exact ho.elim
      · rw [ht]
        exact .inr rfl
    | _ => exact ho.elim
  | _ => exact ho.elim

/-- `kfork`, `kexit` and `kwait` have done their part when they perform an operation. -/
lemma Permitted.licensed (hw : m.WaitInv) {lock : Locks.Act Lock} (h : m.Permitted c lock o) :
    o.Licensed m.k := by
  cases h with
  | @thread p _ hp h =>
    have ha := hw.thread p
    cases o with
    | freeproc np | runnable np =>
      rw [h.1] at ha
      exact ha
    | exit q st =>
      obtain ⟨rfl, ht, -⟩ := h
      rw [ht] at ha
      exact ⟨ha.1, fun i => ha.2.1 i i.isLt, ha.2.2⟩
    | sleepPrepare q ch =>
      obtain ⟨rfl, -, ⟨-, a, rfl⟩ | ⟨ht, rfl⟩⟩ := h
      · trivial
      · rw [ht] at ha
        exact ⟨rfl, fun i => ha i i.isLt⟩
    | _ => trivial
  | _ => trivial

/-! ### The steps of a thread and of the others -/

/-- An operation performed by CPU `c` that is not one of the thread of `q`. -/
structure Foreign (m : Machine ι) (c : ι) (q : Slot) (o : Op) : Prop where
  sleep : o ≠ .sleep q
  prepare : ∀ ch, o ≠ .sleepPrepare q ch
  parent : ∀ np p, o = .setParent np p → p ≠ q ∧ (m.thread p).child = some np
  wait : o.UsesWait → m.cpu c ≠ .inProc q

lemma foreign_of_permits {lock : Locks.Act Lock} (hp : m.cpu c = .inProc p) (hq : q ≠ p)
    (h : (m.thread p).Permits m.k p lock o) : m.Foreign c q o where
  sleep := by
    rintro rfl
    exact hq h.1
  prepare ch := by
    rintro rfl
    exact hq h.1
  parent np r := by
    rintro rfl
    obtain ⟨rfl, ht, -⟩ := h
    exact ⟨hq.symm, by rw [ht]; rfl⟩
  wait _ hc := by
    rw [hp] at hc
    exact hq (CpuPc.inProc.inj hc).symm

/-- **A thread moves along an edge of its own, begins, or stays where it is** while others perform
their operations. -/
lemma Step.thread_cases [DecidableEq ι] (h : Step boot m c mv m') (q : Slot) :
    (∃ t, m.cpu c = .inProc q ∧ m'.thread q = t ∧
        (ThreadEdge m.k q (m.thread q) mv t ∨ SwtchEdge m.k q (m.thread q) mv t)) ∨
      m.cpu c ≠ .inProc q ∧ mv.spawns = some q ∨
      m'.thread q = m.thread q ∧ ∀ o, mv.op = some o → m.Foreign c q o := by
  have he := h.effect
  cases h with
  | sched _ h _ =>
    refine .inr (.inr ⟨by simp [perform, h.spawns], fun o ho => ?_⟩)
    rcases h.op ho with ⟨p, rfl, -⟩ | ⟨p, rfl, -⟩ <;> exact ⟨by simp, by simp, by simp, False.elim⟩
  | intr _ h _ =>
    refine .inr (.inr ⟨by simp [perform, h.quiet.2.1], fun o ho => ?_⟩)
    rcases h.op ho with rfl | ⟨p, -, rfl⟩ | ⟨j, ch, rfl, -⟩ <;>
      exact ⟨by simp, by simp, by simp, False.elim⟩
  | yield _ _ _ | policySwitch =>
    refine .inr (.inr ⟨rfl, fun o ho => ?_⟩)
    cases ho
    exact ⟨by simp, by simp, by simp, False.elim⟩
  | @thread p _ t hp hintr h hlock =>
    by_cases hq : q = p
    · subst hq
      exact .inl ⟨t, hp, Function.update_self .., .inl h⟩
    · refine .inr ?_
      have hcpu : m.cpu c ≠ .inProc q := by
        rw [hp]
        exact fun he => hq (CpuPc.inProc.inj he).symm
      by_cases hs : mv.spawns = some q
      · exact .inl ⟨hcpu, hs⟩
      · exact .inr ⟨he.thread q hcpu hs, fun o ho => foreign_of_permits hp hq (h.permits ho)⟩
  | @swtch p _ t hp hintr h hlock =>
    by_cases hq : q = p
    · subst hq
      exact .inl ⟨t, hp, Function.update_self .., .inr h⟩
    · exact .inr (.inr ⟨Function.update_of_ne hq _ _,
        fun o ho => foreign_of_permits hp hq (h.permits ho)⟩)

lemma Inv.holds_of_thread (hm : m.Inv) {l : Lock} (h : (m.thread q).Holds q l) :
    ∃ c, m.cpu c = .inProc q ∧ m.Holds c l := by
  have hb : (m.thread q).busy = true := by
    by_contra hb
    exact ThreadPc.not_holds_of_quiet (by simpa using hb) q l h
  obtain ⟨c, hc, -⟩ := hm.quiet q hb
  refine ⟨c, hc, ?_⟩
  rw [holds_inProc hc]
  exact h

lemma Foreign.not_usesWait (hm : m.Inv) (he : Effect m c mv m') (ho : mv.op = some o)
    (hfor : m.Foreign c q o) (h : (m.thread q).Holds q .wait) : ¬ o.UsesWait := by
  intro hu
  obtain ⟨c', hc', hh⟩ := hm.holds_of_thread h
  rcases (he.permitted o ho).wait he.enabled hu with hfree | hhold
  · exact hm.locks.not_holds_of_free hfree c' hh
  · cases hm.locks.unique hh hhold
    exact hfor.wait hu hc'

section Own

variable [DecidableEq ι]

lemma Step.asserts (hm : m.Inv) (hw : m.WaitInv) (h : Step boot m c mv m') (q : Slot) :
    (m'.thread q).Asserts m'.k q := by
  have he := h.effect
  rcases h.thread_cases q with ⟨t, hp, ht, hedge⟩ | ⟨hp, hs⟩ | ⟨ht, hfor⟩
  · rw [ht, he.k]
    rcases hedge with hedge | hedge
    · exact hedge.asserts hw.family (hm.state_inProc hp hedge.ne_exitSwtch) (hw.thread q)
    · exact hedge.asserts (hw.thread q)
  · rw [(he.spawned q hs).2 hp]
    trivial
  · rw [ht]
    refine he.kernel (P := fun k => (m.thread q).Asserts k q) (hw.thread q) fun o ho hperm => ?_
    have hok := hperm.ok hm
    have hfq := hfor o ho
    refine (hw.thread q).apply hok (apply_sleepingOk hw.sleeping hok q) hfq.sleep hfq.prepare
      (fun np hnp => ⟨hm.child q np hnp, fun p hop => ?_⟩) (hfq.not_usesWait hm he ho)
    -- a child has one thread that sets its parent
    obtain ⟨hne, hp⟩ := hfq.parent np p hop
    exact hne (hm.child_inj p q np hp hnp)

/-- A thread on its way to wake init goes on until it has passed its slot. -/
lemma Step.wakes (hm : m.Inv) (h : Step boot m c mv m') (hreg : m'.k.Waiting initproc)
    {st : ℤ} {n j : ℕ} (ht : m.thread p = .exitWakeInit st n j) (hj : j ≤ initproc.val) :
    ∃ j', m'.thread p = .exitWakeInit st n j' ∧ j' ≤ initproc.val := by
  have he := h.effect
  rcases h.thread_cases p with ⟨t, -, ht', hedge⟩ | ⟨-, hs⟩ | ⟨ht', -⟩
  · rw [ht] at hedge
    rcases hedge with hedge | hedge
    · cases hedge with
      | @wakeInitNext _ _ j =>
        refine ⟨j + 1, ht', Nat.lt_of_le_of_ne hj fun heq => ?_⟩
        -- at its own slot `wakeup(initproc)` clears the registration
        cases Fin.ext heq
        rw [he.k] at hreg
        exact wakeup_chan_ne _ _ _ hreg
      | wakeInitDone => exact absurd hj (Nat.not_le.mpr initproc.isLt)
    · cases hedge
  · have hunused : (m.k.proc p).state = .unused := (he.permitted _ (he.spawned p hs).1).ok hm
    obtain ⟨c', hc', -⟩ := hm.quiet p (by rw [ht]; rfl)
    have hrun := hm.state_inProc hc' (by rw [ht]; nofun)
    exact absurd (hunused.symm.trans hrun) (by decide)
  · exact ⟨j, ht'.trans ht, hj⟩

lemma Step.of_reparent (h : Step boot m c mv m') {i : Slot}
    (ho : mv.op = some (.reparent i p)) : ∃ st, m'.thread p = .exitWakeInit st i 0 := by
  have hp : m.cpu c = .inProc p := by
    cases h.effect.permitted _ ho with
    | thread hp h =>
      obtain ⟨rfl, -⟩ := h
      exact hp
  rcases h.thread_cases p with ⟨t, -, ht, hedge⟩ | ⟨hne, -⟩ | ⟨-, hfor⟩
  · rw [ht]
    rcases hedge with hedge | hedge
    · generalize m.thread p = t0 at hedge
      cases hedge with
      | @reparentHit st _ _ =>
        cases ho
        exact ⟨st, rfl⟩
      | _ => cases ho
    · generalize m.thread p = t0 at hedge
      cases hedge <;> cases ho
  · exact absurd hp hne
  · exact absurd hp ((hfor _ ho).wait trivial)

/-- **Every step keeps the process tree in order.** -/
theorem Step.waitInv (hm : m.Inv) (hw : m.WaitInv) (h : Step boot m c mv m') : m'.WaitInv := by
  have he := h.effect
  refine ⟨?_, ?_, h.asserts hm hw, fun {i q} hpar hz hreg => ?_⟩
  · exact he.kernel hw.family fun o _ hperm =>
      hw.family.apply (hperm.ok hm) (hperm.licensed hw)
  · exact he.kernel (P := fun k => ∀ p, SleepingOk (k.proc p)) hw.sleeping fun o _ hperm =>
      apply_sleepingOk hw.sleeping (hperm.ok hm)
  · have hcases : (m.k.proc i).parent = some q ∧ (m.k.proc i).state = .zombie ∧ m.k.Waiting q ∨
        ∃ p, mv.op = some (.reparent i p) ∧ q = initproc := by
      rw [he.k] at hpar hz hreg
      cases ho : mv.op with
      | none =>
        rw [ho] at hpar hz hreg
        exact .inl ⟨hpar, hz, hreg⟩
      | some o =>
        rw [ho] at hpar hz hreg
        have hperm := he.permitted o ho
        refine (zombie_child_apply (hperm.ok hm) (hperm.licensed hw) hpar hz hreg).imp_right ?_
        rintro ⟨p, rfl, hq⟩
        exact ⟨p, rfl, hq⟩
    rcases hcases with ⟨hpar', hz', hreg'⟩ | ⟨p, hop, rfl⟩
    · obtain ⟨rfl, p, st, n, j, ht, hj⟩ := hw.zombie hpar' hz' hreg'
      obtain ⟨j', ht', hj'⟩ := h.wakes hm hreg ht hj
      exact ⟨rfl, p, st, n, j', ht', hj'⟩
    · obtain ⟨st, ht⟩ := h.of_reparent hop
      exact ⟨rfl, p, st, i, 0, ht, Nat.zero_le _⟩

end Own

/-! ### What the invariant says -/

/-- A process other than init that has a parent, or is past `kfork`, has a live one. -/
lemma WaitInv.parent (hw : m.WaitInv) (hp : p ≠ initproc) (hs : (m.k.proc p).state ≠ .unused) :
    (m.k.proc p).parent = none ∧ (m.k.proc p).state = .used ∨
      ∃ q, (m.k.proc p).parent = some q ∧ (m.k.proc q).state ≠ .unused ∧
        (m.k.proc q).state ≠ .zombie := by
  cases hpar : (m.k.proc p).parent with
  | none =>
    have hnot := fun h => hw.family.parent p hp h hpar
    refine .inl ⟨rfl, ?_⟩
    generalize (m.k.proc p).state = s at hs hnot
    cases s with
    | used => rfl
    | unused => exact absurd rfl hs
    | zombie => exact (hnot (.inr rfl)).elim
    | runnable | running | sleeping => exact (hnot (.inl trivial)).elim
  | some q =>
    have hlive := hw.family.live p q hpar
    refine .inr ⟨q, rfl, fun he => ?_, fun he => ?_⟩ <;> rw [he] at hlive <;> exact hlive

lemma WaitInv.zombie_parent (hw : m.WaitInv) (hz : (m.k.proc p).state = .zombie) :
    ∃ q, (m.k.proc p).parent = some q ∧ (m.k.proc q).state.Live := by
  have hp : p ≠ initproc := by
    rintro rfl
    have hlive := hw.family.init
    rw [hz] at hlive
    exact hlive
  obtain ⟨q, hq⟩ := Option.ne_none_iff_exists'.mp (hw.family.parent p hp (.inr hz))
  exact ⟨q, hq, hw.family.live p q hq⟩

/-- With `wait_lock` free, no process with a zombie child is registered in `kwait`. -/
lemma WaitInv.not_waiting (hm : m.Inv) (hw : m.WaitInv) (hfree : m.lock .wait = none) {i : Slot}
    (hpar : (m.k.proc i).parent = some p) (hz : (m.k.proc i).state = .zombie) :
    ¬ m.k.Waiting p := by
  intro hreg
  obtain ⟨-, q, st, n, j, ht, -⟩ := hw.zombie hpar hz hreg
  obtain ⟨c, -, hc⟩ := hm.holds_of_thread (q := q) (l := .wait) (by rw [ht]; rfl)
  exact hm.locks.not_holds_of_free hfree c hc

/-! ### Runs -/

lemma bootKernel_familyOk (pol : SchedPolicy) : (bootKernel pol).FamilyOk where
  unused p _ := bootKernel_parent pol p
  live p q hp := by
    rw [bootKernel_parent] at hp
    cases hp
  init := by
    rw [bootKernel_state, if_pos rfl]
    trivial
  parent p hp hs := by
    rw [bootKernel_state, if_neg hp] at hs
    rcases hs with hs | hs <;> cases hs

lemma bootKernel_not_zombie (pol : SchedPolicy) (i : Slot) :
    ((bootKernel pol).proc i).state ≠ .zombie := by
  rw [bootKernel_state]
  split_ifs <;> decide

lemma waitInv_init (pol : SchedPolicy) : (init ι pol).WaitInv where
  family := bootKernel_familyOk pol
  sleeping := sleepingOk_after (show (bootKernel pol).Legal [] from trivial)
  thread p := by
    simp only [init]
    split_ifs <;> trivial
  zombie hp := absurd ((bootKernel_parent pol _).symm.trans hp) (by simp)

variable [DecidableEq ι] {pol : SchedPolicy} {ops : List Op}

/-- **The process tree is in order along every run.** -/
theorem Run.waitInv (h : Run boot pol ops m) : m.WaitInv :=
  (Transition.Steps.invariant (I := fun m : Machine ι => m.Inv ∧ m.WaitInv) h
    ⟨inv_init pol, waitInv_init pol⟩
    fun _ _ _ hm ⟨_, _, hstep, _⟩ => ⟨hstep.inv hm.1, hstep.waitInv hm.1 hm.2⟩).2

lemma Step.zombie (hm : m.Inv) (h : Step boot m c mv m') {i : Slot}
    (hz : (m.k.proc i).state = .zombie) (ho : mv.op ≠ some (.reap i)) :
    (m'.k.proc i).state = .zombie ∧ (m'.k.proc i).xstate = (m.k.proc i).xstate ∧
      (m'.k.proc i).pid = (m.k.proc i).pid := by
  refine h.effect.kernel (P := fun k => (k.proc i).state = .zombie ∧
    (k.proc i).xstate = (m.k.proc i).xstate ∧ (k.proc i).pid = (m.k.proc i).pid)
    ⟨hz, rfl, rfl⟩ fun o hop hperm => ?_
  have hne : o ≠ .reap i := by
    rintro rfl
    exact ho hop
  obtain ⟨hs, hx, hpid, -⟩ := zombie_apply (hperm.ok hm) hz hne
  exact ⟨hs, hx, hpid⟩

/-- **The exit and wait protocol**, in every state `m` that a run reaches, on any number of CPUs.

A process other than init that is not unused has a parent that is neither unused nor a zombie,
except for a process `kfork` has allocated whose parent it has not set yet; this holds whether
`wait_lock` is free or not. An unused slot has no parent.

A process reaped by `kwait` is a child of the caller; it has exited, with the status and the pid
`kwait` returns, and has not been reaped since. So no exit is reaped twice. Every step that is not
that reaping leaves a zombie as it is, with a live parent, and so does a `kwait` whose `copyout`
fails: it changes nothing and returns.

While `wait_lock` is free, no process sleeps in `kwait` that has a zombie child, init included. -/
theorem exit_wait_protocol (h : Run boot pol ops m) :
    (∀ p, p ≠ initproc → (m.k.proc p).state ≠ .unused →
      (m.k.proc p).parent = none ∧ (m.k.proc p).state = .used ∨
        ∃ q, (m.k.proc p).parent = some q ∧ (m.k.proc q).state ≠ .unused ∧
          (m.k.proc q).state ≠ .zombie) ∧
    (∀ p, (m.k.proc p).state = .unused → (m.k.proc p).parent = none) ∧
    (∀ c mv m' i, Step boot m c mv m' → mv.op = some (.reap i) →
      (∃ p havekids, m.cpu c = .inProc p ∧ m.thread p = .waitScan i havekids ∧
        (m.k.proc i).parent = some p) ∧
      ∃ before st after, ops = before ++ .exit i st :: after ∧ (∀ o ∈ after, ¬ o.Touches i) ∧
        (m.k.proc i).xstate = st ∧
        (m.k.proc i).pid = (((bootKernel pol).after before).proc i).pid) ∧
    (∀ c mv m' i, Step boot m c mv m' → (m.k.proc i).state = .zombie → mv.op ≠ some (.reap i) →
      (m'.k.proc i).state = .zombie ∧ (m'.k.proc i).xstate = (m.k.proc i).xstate ∧
        (m'.k.proc i).pid = (m.k.proc i).pid ∧
        ∃ q, (m'.k.proc i).parent = some q ∧ (m'.k.proc q).state.Live) ∧
    (∀ mv p t (i : Slot) havekids, ThreadEdge m.k p (.waitScan i havekids) mv t →
      (m.k.proc i).parent = some p → (m.k.proc i).state = .zombie →
      t = .waitReturn ∧ (mv.op = some (.reap i) ∨ mv.op = none)) ∧
    (m.lock .wait = none → ∀ p i, (m.k.proc i).parent = some p → (m.k.proc i).state = .zombie →
      ¬ (m.thread p = .waitAcquire ∧ (m.k.proc p).state = .sleeping)) := by
  have hm := h.inv
  have hw := h.waitInv
  refine ⟨fun p hp hs => hw.parent hp hs, hw.family.unused, ?_, ?_, ?_, ?_⟩
  · intro c mv m' i hstep ho
    cases hstep.effect.permitted _ ho with
    | @thread p _ hp hpm =>
      obtain ⟨hz, hpar, ⟨havekids, ht⟩, -⟩ := hpm
      refine ⟨⟨p, havekids, hp, ht, hpar⟩, ?_⟩
      obtain ⟨hlegal, hk⟩ := h.refines
      rw [hk] at hz ⊢
      exact exit_of_zombie (bootKernel_not_zombie pol) hlegal hz
  · intro c mv m' i hstep hz ho
    have hstay := hstep.zombie hm hz ho
    exact ⟨hstay.1, hstay.2.1, hstay.2.2, (hstep.waitInv hm hw).zombie_parent hstay.1⟩
  · intro mv p t i havekids hedge hpar hz
    exact hedge.of_zombie hpar hz
  · rintro hfree p i hpar hz ⟨ht, hs⟩
    have ha := hw.thread p
    rw [ht] at ha
    exact hw.not_waiting hm hfree hpar hz (ha hs)

/-! ### A run with a fork, an exit and a wait -/

/-- `wakeup` leaves a slot alone that is not on the channel. -/
lemma apply_wakeup_of_ne {j : Slot} {ch : Option Chan} (h : (k.proc j).chan ≠ ch) :
    k.apply (.wakeup j ch) = k := by
  have hproc : (k.apply (.wakeup j ch)).proc = k.proc := by
    funext i
    by_cases hi : (Op.wakeup j ch).slot = some i
    · cases hi
      rw [Kernel.apply_proc_self _ _ rfl]
      exact if_neg h
    · exact Kernel.apply_proc_of_ne _ _ hi
  exact congrArg (fun proc => { k with proc := proc }) hproc

/-- `reparent` goes through the table without finding a child. -/
lemma Run.reparent_scan (h : Run boot pol ops m) (hp : m.cpu c = .inProc p)
    (hintr : m.intr c = .none) {st : ℤ} (ht : m.thread p = .exitReparent st 0)
    (hkids : ∀ i, (m.k.proc i).parent ≠ some p) {n : ℕ} (hn : n ≤ nproc) :
    Run boot pol ops { m with thread := update m.thread p (.exitReparent st n) } := by
  induction n with
  | zero =>
    rw [← ht, update_eq_self]
    exact h
  | succ n ih =>
    have hnext := (ih (by omega)).thread hp hintr (update_self ..)
      (ThreadEdge.reparentNext (i := ⟨n, hn⟩) (hkids _)) trivial
    simpa [perform, Locks.Act.run] using hnext

/-- `wakeup(p->parent)` goes through the table without finding a sleeper. -/
lemma Run.wakeParent_scan (h : Run boot pol ops m) (hp : m.cpu c = .inProc p)
    (hintr : m.intr c = .none) {st : ℤ} {ch : Option Chan}
    (ht : m.thread p = .exitWakeParent st ch 0) (hfree : ∀ j, m.lock (.proc j) = none)
    (hchan : ∀ j, (m.k.proc j).chan ≠ ch) {n : ℕ} (hn : n ≤ nproc) :
    ∃ ops', Run boot pol ops' { m with thread := update m.thread p (.exitWakeParent st ch n) } := by
  induction n with
  | zero =>
    rw [← ht, update_eq_self]
    exact ⟨ops, h⟩
  | succ n ih =>
    obtain ⟨ops', hrun⟩ := ih (by omega)
    have hnext := hrun.thread hp hintr (update_self ..)
      (ThreadEdge.wakeParentNext (j := ⟨n, hn⟩)) (hfree _)
    refine ⟨ops' ++ [.wakeup ⟨n, hn⟩ ch], ?_⟩
    simpa [perform, apply_wakeup_of_ne (hchan _), Locks.Act.run] using hnext

/-- A process without children whose parent is not asleep in `kwait` can exit, after which its CPU
is back in the loop of `scheduler`. -/
lemma Run.exits (h : Run boot pol ops m) (hp : m.cpu c = .inProc p) (hintr : m.intr c = .none)
    (ht : m.thread p = .run) (hne : p ≠ initproc) (hfree : ∀ l, m.lock l = none)
    (hkids : ∀ i, (m.k.proc i).parent ≠ some p)
    (hchan : ∀ j, (m.k.proc j).chan ≠ (m.k.proc p).parent.map .proc) (st : ℤ) :
    ∃ ops' m', Run boot pol ops' m' ∧ m'.k = m.k.apply (.exit p st) ∧ m'.intr = m.intr ∧
      m'.cpu = update m.cpu c .loop ∧ m'.thread = update m.thread p .dead := by
  have hstart : ThreadEdge m.k p .run _ (.exitReparent st 0) := .exitStart hne
  have h1 := h.thread hp hintr ht hstart (hfree _)
  have h2 := h1.reparent_scan hp hintr (update_self ..) hkids le_rfl
  have h3 := h2.thread (c := c) hp hintr (update_self ..) .reparentDone trivial
  obtain ⟨ops', h4⟩ := h3.wakeParent_scan hp hintr (update_self ..) (fun _ => hfree _) hchan le_rfl
  have h5 := h4.thread (c := c) hp hintr (update_self ..) .wakeParentDone trivial
  have h6 := h5.thread (c := c) hp hintr (update_self ..) .exitZombie (hfree _)
  have h7 := h6.swtch (c := c) hp hintr (update_self ..) .exit trivial
  have h8 := h7.sched (c := c) hintr (update_self ..) .back trivial
  have h9 := h8.sched (c := c) hintr (update_self ..) .release trivial
  exact ⟨_, _, h9, rfl, rfl, by simp [perform], by simp [perform]⟩

/-- Init, on the first CPU, has forked. -/
lemma exists_run_fork : ∃ m : Machine (Fin 2),
    Run 0 .rr [.dispatch 0, .allocproc 1, .setParent 1 0, .runnable 1] m ∧
    m.cpu 0 = .inProc 0 ∧ m.cpu 1 = .loop ∧ (∀ c, m.intr c = .none) ∧ (m.cursors 1).rr = 0 ∧
    m.thread 0 = .run ∧ m.thread 1 = .run := by
  obtain ⟨m, h, hcpu, hidle, hintr, hcur, ht, hfree⟩ := exists_run_init
  have hk := h.refines.2
  have hval : ((1 : Slot) : ℕ) = 1 := by decide +kernel
  have hne : (1 : Slot) ≠ initproc := by decide +kernel
  have h1 := h.thread hcpu (hintr 0) ht .forkStart trivial
  have h2 := h1.thread (c := 0) hcpu (hintr 0) rfl
    (.forkNext (j := 0) (hk ▸ by decide +kernel)) (hfree _)
  have h3 := h2.thread (c := 0) (t := .forkScan (1 : Slot)) hcpu (hintr 0) (by rw [hval]; rfl)
    (.forkFound (hk ▸ by decide +kernel)) (hfree _)
  have h4 := h3.thread (c := 0) hcpu (hintr 0) rfl .forkCopied trivial
  have h5 := h4.thread (c := 0) hcpu (hintr 0) rfl .forkParent (hfree _)
  have h6 := h5.thread (c := 0) hcpu (hintr 0) rfl .forkRunnable (update_self ..)
  refine ⟨_, h6, hcpu, hidle, hintr, hcur, rfl, ?_⟩
  simp [perform, hne]

/-- The second CPU runs the child. -/
lemma exists_run_child : ∃ m : Machine (Fin 2),
    Run 0 .rr [.dispatch 0, .allocproc 1, .setParent 1 0, .runnable 1, .dispatch 1] m ∧
    m.cpu 0 = .inProc 0 ∧ m.cpu 1 = .inProc 1 ∧ (∀ c, m.intr c = .none) ∧
    m.thread 0 = .run ∧ m.thread 1 = .run := by
  obtain ⟨m, h, hcpu, hidle, hintr, hcur, ht, ht1⟩ := exists_run_fork
  have hfree : ∀ l, m.lock l = none := fun l => h.inv.free fun c => by
    fin_cases c <;> simp [Holds, hcpu, hidle, ht, CpuPc.Holds, ThreadPc.Holds]
  have hk := h.refines.2
  have h1 := h.sched (c := 1) (hintr 1) hidle (.startRr (by rw [hk]; rfl)) trivial
  have h2 := h1.sched (c := 1) (hintr 1) (show _ = CpuPc.rrScan 0 0 by rw [hcur]; rfl)
    (.rrNext (by rw [nproc_eq]; decide) (hk ▸ by decide +kernel)) (hfree _)
  have h3 := h2.sched (c := 1) (hintr 1) rfl
    (.rrTake (by rw [nproc_eq]; decide) (hk ▸ by decide +kernel)) (hfree _)
  have h4 := h3.sched (c := 1) (hintr 1) rfl .dispatch trivial
  have h5 := h4.sched (c := 1) (hintr 1) rfl .swtch trivial
  have h6 := h5.sched (c := 1) (hintr 1) rfl .enter trivial
  rw [show Cyclic.place (0 : Slot) (0 + 1) = 1 by decide +kernel] at h6
  exact ⟨_, h6, hcpu, rfl, hintr, ht, ht1⟩

/-- The child has exited and init, in `kwait`, has come to it. -/
lemma exists_run_zombie : ∃ ops, ∃ m : Machine (Fin 2), Run 0 .rr ops m ∧
    m.k = (bootKernel .rr).after
      [.dispatch 0, .allocproc 1, .setParent 1 0, .runnable 1, .dispatch 1, .exit 1 7] ∧
    m.cpu 0 = .inProc 0 ∧ m.intr 0 = .none ∧ m.thread 0 = .waitScan (1 : Slot) false ∧
    m.lock (.proc 1) = none := by
  obtain ⟨m, h, hcpu, hcpu1, hintr, ht, ht1⟩ := exists_run_child
  have hfree : ∀ l, m.lock l = none := fun l => h.inv.free fun c => by
    fin_cases c <;> simp [Holds, hcpu, hcpu1, ht, ht1, CpuPc.Holds, ThreadPc.Holds]
  have hk := h.refines.2
  have hne : (1 : Slot) ≠ 0 := by decide +kernel
  obtain ⟨ops, m', h1, hk', hi', hc', ht'⟩ := h.exits hcpu1 (hintr 1) ht1 hne hfree
    (by rw [hk]; decide +kernel) (by rw [hk]; decide +kernel) 7
  rw [hk] at hk'
  replace hi' : m'.intr 0 = .none := hi' ▸ hintr 0
  have hcpu' : m'.cpu 0 = .inProc 0 := by simp [hc', hcpu]
  replace ht' : m'.thread 0 = .run := by rw [ht', update_of_ne hne.symm, ht]
  have hfree' : ∀ l, m'.lock l = none := fun l => h1.inv.free fun c => by
    fin_cases c <;> simp [Holds, hcpu', hc', ht', CpuPc.Holds, ThreadPc.Holds]
  have h2 := h1.thread hcpu' hi' ht' .waitStart (hfree' _)
  have h3 := h2.thread (c := 0) hcpu' hi' rfl (.waitNext (i := 0) (hk' ▸ by decide +kernel)) trivial
  have hval : ((1 : Slot) : ℕ) = 1 := by decide +kernel
  exact ⟨_, _, h3, hk', hcpu', hi', by rw [hval]; rfl, hfree' _⟩

/-- The hypothesis is met by a run in which init forks, its child exits with status 7 and init is
about to reap it: the exit is to be found in the run. -/
theorem exit_wait_protocol_reaps : ∃ ops, ∃ m m' : Machine (Fin 2), ∃ mv, Run 0 .rr ops m ∧
    Step 0 m 0 mv m' ∧ mv.op = some (.reap 1) ∧ (m.k.proc 1).pid = 2 ∧
    (∃ before after, ops = before ++ .exit 1 7 :: after ∧ ∀ o ∈ after, ¬ o.Touches 1) ∧
    (m'.k.proc 1).state = .unused ∧ (m'.k.proc 1).parent = none := by
  obtain ⟨ops, m, h, hk, hcpu, hintr, ht, hlock⟩ := exists_run_zombie
  have hedge : ThreadEdge m.k 0 (m.thread 0) { lock := .within (.proc 1), op := some (.reap 1) }
      .waitReturn := by
    rw [ht, hk]
    exact .waitReap (by decide +kernel) (by decide +kernel)
  have hstep : Step 0 m 0 _ _ := .thread hcpu hintr hedge hlock
  obtain ⟨-, -, hreaps, -⟩ := exit_wait_protocol h
  obtain ⟨-, before, st, after, hops, hafter, hst, -⟩ := hreaps 0 _ _ 1 hstep rfl
  have hxstate : (m.k.proc 1).xstate = 7 := by
    rw [hk]
    decide +kernel
  obtain rfl : 7 = st := hxstate.symm.trans hst
  refine ⟨ops, m, _, _, h, hstep, rfl, ?_, ⟨before, after, hops, hafter⟩, ?_⟩
  · rw [hk]
    decide +kernel
  · show ((m.k.apply (.reap 1)).proc 1).state = _ ∧ ((m.k.apply (.reap 1)).proc 1).parent = _
    rw [hk]
    decide +kernel

end Machine

end Xv6Riscv
