import Xv6Riscv.Lib.Transition
import Xv6Riscv.Proc.Pcb

/-!
The process table as a transition system.

`Kernel` is the process table with the globals its critical sections read. An `Op` is one
lock-protected section of the kernel, performed on one slot, or one of the two changes of the
globals (`ticks++` in `clockintr`, `sched_policy_switch`). Whoever performs it and on whatever
CPU, its effect is `Kernel.apply`; when the kernel performs it at all is `Op.Ok`, the test the
source makes under the lock, or for a section that a process runs on itself, that the process
is running.

The concrete machines of the development, the single processor of `Uni` and the several CPUs of
`Smp`, both perform legal sequences of these operations, so what is proved about all legal
sequences holds of both. The lemmas `yield_spec`, `wake_spec`, `updateProcAfterTick_spec` and
`age_spec` say once what the strategy hooks can do to a process, and `Op.acts` what an operation
can.
-/

namespace Xv6Riscv

/-- The process table, `ticks`, `current_sched_policy` and `nextpid`. The last is an `int` in the
source; here it does not wrap, so the model is that of a kernel that allocates fewer than 2^31
pids. -/
structure Kernel where
  proc : Slot → Proc
  ticks : UInt32
  policy : SchedPolicy
  nextpid : ℤ

/-- `ticks`, as the 64-bit expressions of the scheduler read it. -/
def Kernel.now (k : Kernel) : UInt64 := k.ticks.toUInt64

/-- The first slot of the table that passes a test. -/
def Kernel.lookup (k : Kernel) (test : Proc → Bool) : Option Slot :=
  (List.finRange nproc).find? fun i => test (k.proc i)

/-- The test of `kset_prio` and `kget_psinfo`. -/
def Proc.isLive (pid : ℤ) (p : Proc) : Bool := p.state ≠ .unused ∧ p.pid = pid

/-- `initproc`: the slot `allocproc` finds in the empty table of `userinit`. -/
def initproc : Slot := 0

/-- The lock-protected sections of the kernel. -/
inductive Op
  /-- `allocproc` has found the unused slot `p` -/
  | allocproc (p : Slot)
  /-- a failure path of `allocproc` or `kfork` -/
  | freeproc (p : Slot)
  /-- the end of `userinit` or `kfork` -/
  | runnable (p : Slot)
  /-- `np->parent = p` in `kfork` -/
  | setParent (np p : Slot)
  /-- `mlfq_age_locked` -/
  | age (p : Slot)
  /-- the bookkeeping of `scheduler` -/
  | dispatch (p : Slot)
  /-- `update_proc_after_tick` -/
  | tick (p : Slot)
  | yield (p : Slot)
  | sleepPrepare (p : Slot) (ch : Chan)
  | sleep (p : Slot)
  /-- `wakeup(chan)` examines the slot `p` -/
  | wakeup (p : Slot) (ch : Option Chan)
  /-- `kkill(pid)` examines the slot `p` -/
  | kill (p : Slot) (pid : ℤ)
  | setkilled (p : Slot)
  /-- `kset_prio(pid, priority)` examines the slot `p` -/
  | setPrio (p : Slot) (pid priority : ℤ)
  /-- `reparent(p)` examines the slot `pp` -/
  | reparent (pp p : Slot)
  /-- `kexit(status)` makes `p` a zombie -/
  | exit (p : Slot) (status : ℤ)
  /-- `kwait` reaps `p` -/
  | reap (p : Slot)
  /-- `ticks++` in `clockintr` -/
  | clock
  | policySwitch (pol : SchedPolicy)
  deriving DecidableEq

def Op.slot : Op → Option Slot
  | allocproc p | freeproc p | runnable p | setParent p _ | age p | dispatch p | tick p
  | yield p | sleepPrepare p _ | sleep p | wakeup p _ | kill p _ | setkilled p
  | setPrio p _ _ | reparent p _ | exit p _ | reap p => some p
  | clock | policySwitch _ => none

instance (o : Op) (i : Slot) : Decidable (o.slot = some i) :=
  match o.slot with
  | none => isFalse nofun
  | some j =>
    match h : Nat.beq j i with
    | true => isTrue (congrArg some (Fin.ext (Nat.eq_of_beq_eq_true h)))
    | false => isFalse fun he => Nat.ne_of_beq_eq_false h (congrArg Fin.val (Option.some.inj he))

instance : (o : Op) → Decidable (o = .clock)
  | .clock => isTrue rfl
  | .allocproc _ | .freeproc _ | .runnable _ | .setParent _ _ | .age _ | .dispatch _ | .tick _
  | .yield _ | .sleepPrepare _ _ | .sleep _ | .wakeup _ _ | .kill _ _ | .setkilled _
  | .setPrio _ _ _ | .reparent _ _ | .exit _ _ | .reap _ | .policySwitch _ => isFalse nofun

/-- What an operation does to the process in its slot. -/
def Op.effect (k : Kernel) : Op → Proc → Proc
  | allocproc _, q => q.allocproc k.policy k.now k.nextpid
  | freeproc _, q => q.freeproc
  | runnable _, q => q.makeRunnable k.now
  | setParent _ p, q => q.setParent p
  | age _, q => mlfqAgeLocked k.now q
  | dispatch _, q => q.dispatch k.policy k.now
  | tick _, q => q.updateProcAfterTick k.policy
  | yield _, q => q.yield k.policy k.now
  | sleepPrepare _ ch, q => q.sleepPrepare ch
  | sleep _, q => q.sleep
  | wakeup _ ch, q => q.wakeup k.policy k.now ch
  | kill _ pid, q => q.kill k.policy k.now pid
  | setkilled _, q => q.setkilled
  | setPrio _ pid priority, q => q.setPrio pid priority
  | reparent _ p, q => q.reparent p initproc
  | exit _ status, q => q.exit k.now status
  | reap _, q => q.reap
  | clock, q | policySwitch _, q => q

/-- The result of an operation. -/
def Kernel.apply (k : Kernel) (o : Op) : Kernel where
  proc i := if o.slot = some i then o.effect k (k.proc i) else k.proc i
  ticks := if o = .clock then k.ticks + 1 else k.ticks
  policy := match o with
    | .policySwitch pol => pol
    | _ => k.policy
  nextpid := match o with
    | .allocproc _ => k.nextpid + 1
    | _ => k.nextpid

/-- When the kernel performs an operation. -/
def Op.Ok (k : Kernel) : Op → Prop
  | allocproc p => (k.proc p).state = .unused
  | freeproc p | runnable p => (k.proc p).state = .used
  | setParent np p => (k.proc np).state = .used ∧ (k.proc p).state = .running
  | dispatch p => (k.proc p).state = .runnable
  | tick p | yield p | sleepPrepare p _ | sleep p | setkilled p | exit p _ =>
    (k.proc p).state = .running
  | reap p => (k.proc p).state = .zombie
  | age _ | wakeup _ _ | kill _ _ | setPrio _ _ _ | reparent _ _ | clock | policySwitch _ => True

instance (k : Kernel) (o : Op) : Decidable (o.Ok k) := by
  rcases o with ⟨⟩ <;> unfold Op.Ok <;> infer_instance

/-- A sequence of operations the kernel can perform from `k`. -/
abbrev Kernel.Legal (k : Kernel) (ops : List Op) : Prop :=
  Transition.Legal (fun k o => o.Ok k) Kernel.apply k ops

abbrev Kernel.after (k : Kernel) (ops : List Op) : Kernel := ops.foldl Kernel.apply k

/-- `k'` is the result of legal operations from `k`, all of them satisfying `P`. -/
def Kernel.Reach (P : Op → Prop) (k k' : Kernel) : Prop :=
  ∃ ops, k.Legal ops ∧ k' = k.after ops ∧ ∀ o ∈ ops, P o

namespace Kernel.Reach

variable {P Q : Op → Prop} {k k' k'' : Kernel}

lemma refl (k : Kernel) : Kernel.Reach P k k := ⟨[], trivial, rfl, by simp⟩

lemma mono (h : Kernel.Reach P k k') (hPQ : ∀ o, P o → Q o) : Kernel.Reach Q k k' := by
  obtain ⟨ops, hl, he, hP⟩ := h
  exact ⟨ops, hl, he, fun o ho => hPQ o (hP o ho)⟩

/-- A property that the operations satisfying `P` preserve holds of what they reach. -/
lemma invariant {I : Kernel → Prop} (h : Kernel.Reach P k k') (h0 : I k)
    (hstep : ∀ k o, I k → o.Ok k → P o → I (k.apply o)) : I k' := by
  obtain ⟨ops, hl, rfl, hP⟩ := h
  induction ops generalizing k with
  | nil => exact h0
  | cons o ops ih =>
    exact ih (hstep k o h0 hl.1 (hP o (by simp))) hl.2 fun o ho => hP o (by simp [ho])

end Kernel.Reach

/-! ### Boot -/

/-- A slot of the zero-initialised process table. -/
def Proc.zero : Proc where
  state := .unused
  chan := none
  killed := false
  xstate := 0
  pid := 0
  priority := 0
  queueLevel := 0
  timeSlice := 0
  runTime := 0
  readyCount := 0
  readyTicks := 0
  readySince := 0
  totalReadyTime := 0
  waitCount := 0
  scheduleCount := 0
  createTick := 0
  firstRunTick := 0
  exitTick := 0
  stateStat := fun _ => 0
  schedPolicy := .rr
  parent := none

/-- `procinit`, with `SCHED_DEFAULT_POLICY` as the policy. -/
def procinit (pol : SchedPolicy) : Kernel where
  proc _ := Proc.zero
  ticks := 0
  policy := pol
  nextpid := 1

/-- `userinit`, as operations. -/
def userinit : List Op := [.allocproc initproc, .runnable initproc]

/-- The process table when the CPUs enter `scheduler`. -/
def bootKernel (pol : SchedPolicy) : Kernel := (procinit pol).after userinit

lemma userinit_legal (pol : SchedPolicy) : (procinit pol).Legal userinit := by
  refine ⟨rfl, ?_, trivial⟩
  show ((Kernel.apply _ _).proc initproc).state = _
  simp [Kernel.apply, Op.slot, Op.effect, Proc.allocproc, Proc.schedProcInit]

/-! ### What an operation changes -/

namespace Kernel

variable (k : Kernel) (o : Op)

lemma apply_proc (i : Slot) :
    (k.apply o).proc i = if o.slot = some i then o.effect k (k.proc i) else k.proc i := rfl

lemma apply_proc_self {i : Slot} (h : o.slot = some i) :
    (k.apply o).proc i = o.effect k (k.proc i) := if_pos h

lemma apply_proc_of_ne {i : Slot} (h : o.slot ≠ some i) : (k.apply o).proc i = k.proc i :=
  if_neg h

@[simp] lemma apply_ticks_clock : (k.apply .clock).ticks = k.ticks + 1 := rfl

lemma apply_ticks_of_ne {o : Op} (h : o ≠ .clock) : (k.apply o).ticks = k.ticks := if_neg h

lemma apply_now_of_ne {o : Op} (h : o ≠ .clock) : (k.apply o).now = k.now := by
  rw [now, now, apply_ticks_of_ne k h]

end Kernel

namespace Proc

variable (pol : SchedPolicy) (now : UInt64) (p : Proc)

/-- A yield makes the process runnable now; beyond that it changes only its level, its slice and
`ready_ticks`. -/
lemma yield_spec : ∃ l t r, p.yield pol now =
    { p with
      state := .runnable, readyCount := p.readyCount + 1, readySince := now
      queueLevel := l, timeSlice := t, readyTicks := r } := by
  refine ⟨(p.yield pol now).queueLevel, (p.yield pol now).timeSlice, (p.yield pol now).readyTicks,
    ?_⟩
  cases pol with
  | rr => rfl
  | staticPriority => rfl
  | mlfq =>
    by_cases h : p.timeSlice ≤ 0
    · simp only [yield, activeStrategy, mlfqStrategy, mlfqOnYield, schedProcRunnable, h, if_true]
    · simp only [yield, activeStrategy, mlfqStrategy, mlfqOnYield, schedProcRunnable, h, if_false]

/-- A wakeup makes the process runnable now; beyond that it changes only its level and slice. -/
lemma wake_spec : ∃ l t, p.wake pol now =
    { p with
      state := .runnable, readyCount := p.readyCount + 1, readySince := now
      queueLevel := l, timeSlice := t } := by
  cases pol <;> exact ⟨_, _, rfl⟩

lemma wakeup_eq (ch : Option Chan) : p.wakeup pol now ch =
    if p.chan = ch then
      if p.state = .sleeping then ({ p with chan := none } : Proc).wake pol now
      else { p with chan := none }
    else p := rfl

lemma kill_eq (pid : ℤ) : p.kill pol now pid =
    if p.pid = pid then
      if p.state = .sleeping then ({ p with killed := true } : Proc).wake pol now
      else { p with killed := true }
    else p := rfl

lemma updateProcAfterTick_spec : p.updateProcAfterTick pol =
    { p with
      runTime := p.runTime + 1
      stateStat := Function.update p.stateStat .running (p.stateStat .running + 1)
      timeSlice := if 0 < p.timeSlice then p.timeSlice - 1 else p.timeSlice } := by
  cases pol <;> rfl

/-- Aging changes the level, the slice, `ready_since` and `ready_ticks` at most. -/
lemma age_spec : ∃ l t s r, mlfqAgeLocked now p =
    { p with queueLevel := l, timeSlice := t, readySince := s, readyTicks := r } := by
  unfold mlfqAgeLocked
  split_ifs
  · exact ⟨_, _, _, _, rfl⟩
  · exact ⟨_, _, _, _, rfl⟩
  · exact ⟨_, _, _, _, rfl⟩

variable {now p}

lemma age_of_not_promotes (h : ¬ p.Promotes now) :
    ∃ r, mlfqAgeLocked now p = { p with readyTicks := r } := by
  unfold mlfqAgeLocked
  split_ifs
  · exact ⟨_, rfl⟩
  · exact ⟨_, rfl⟩

lemma age_of_not_runnable (h : p.state ≠ .runnable) : mlfqAgeLocked now p = p := by
  rw [mlfqAgeLocked, if_pos h]

lemma age_of_waiting (hrun : p.state = .runnable) (h : ¬ p.Promotes now) :
    mlfqAgeLocked now p = { p with readyTicks := now - p.readySince } := by
  rw [mlfqAgeLocked, if_neg (not_not.mpr hrun), if_neg h]

lemma age_of_promotes (h : p.Promotes now) : mlfqAgeLocked now p =
    { p with
      queueLevel := p.queueLevel - 1, timeSlice := mlfqTimeSlice (p.queueLevel - 1)
      readySince := now, readyTicks := 0 } := by
  rw [mlfqAgeLocked, if_neg (not_not.mpr h.1), if_pos h]

end Proc

/-- The operations that may find nothing to do. -/
def Op.MayKeep : Op → Prop
  | sleep _ | wakeup _ _ | kill _ _ | setPrio _ _ _ | reparent _ _ | clock | policySwitch _ => True
  | _ => False

/-- What an operation can make of the process `q` in its slot, field by field. Each branch of the
source is a constructor, with the test that leads to it; what a strategy hook writes is named. -/
inductive Op.Acts (k : Kernel) (q : Proc) : Op → Proc → Prop
  | keep {o : Op} (h : o.MayKeep) : Acts k q o q
  | allocproc (p : Slot) : Acts k q (.allocproc p) (q.allocproc k.policy k.now k.nextpid)
  | freeproc (p : Slot) : Acts k q (.freeproc p) q.freeproc
  | runnable (p : Slot) : Acts k q (.runnable p) (q.makeRunnable k.now)
  | setParent (np p : Slot) : Acts k q (.setParent np p) (q.setParent p)
  | age (p : Slot) {l t : ℤ} {s r : UInt64} (h : mlfqAgeLocked k.now q =
        { q with queueLevel := l, timeSlice := t, readySince := s, readyTicks := r }) :
      Acts k q (.age p) { q with queueLevel := l, timeSlice := t, readySince := s, readyTicks := r }
  | dispatch (p : Slot) : Acts k q (.dispatch p) (q.dispatch k.policy k.now)
  | tick (p : Slot) : Acts k q (.tick p)
      { q with
        runTime := q.runTime + 1
        stateStat := Function.update q.stateStat .running (q.stateStat .running + 1)
        timeSlice := if 0 < q.timeSlice then q.timeSlice - 1 else q.timeSlice }
  | yield (p : Slot) {l t : ℤ} {r : UInt64} (h : q.yield k.policy k.now =
        { q.makeRunnable k.now with queueLevel := l, timeSlice := t, readyTicks := r }) :
      Acts k q (.yield p)
        { q.makeRunnable k.now with queueLevel := l, timeSlice := t, readyTicks := r }
  | sleepPrepare (p : Slot) (ch : Chan) : Acts k q (.sleepPrepare p ch) (q.sleepPrepare ch)
  | sleep (p : Slot) (h : q.chan ≠ none) :
      Acts k q (.sleep p) { q with waitCount := q.waitCount + 1, state := .sleeping }
  | wakeup (p : Slot) {ch : Option Chan} (hch : q.chan = ch) (hs : q.state ≠ .sleeping) :
      Acts k q (.wakeup p ch) { q with chan := none }
  | awake (p : Slot) {ch : Option Chan} (hch : q.chan = ch) (hs : q.state = .sleeping) {l t : ℤ}
      (h : ({ q with chan := none } : Proc).wake k.policy k.now =
        { q.makeRunnable k.now with chan := none, queueLevel := l, timeSlice := t }) :
      Acts k q (.wakeup p ch)
        { q.makeRunnable k.now with chan := none, queueLevel := l, timeSlice := t }
  | kill (p : Slot) {pid : ℤ} (hpid : q.pid = pid) (hs : q.state ≠ .sleeping) :
      Acts k q (.kill p pid) { q with killed := true }
  | killAwake (p : Slot) {pid : ℤ} (hpid : q.pid = pid) (hs : q.state = .sleeping) {l t : ℤ}
      (h : ({ q with killed := true } : Proc).wake k.policy k.now =
        { q.makeRunnable k.now with killed := true, queueLevel := l, timeSlice := t }) :
      Acts k q (.kill p pid)
        { q.makeRunnable k.now with killed := true, queueLevel := l, timeSlice := t }
  | setkilled (p : Slot) : Acts k q (.setkilled p) q.setkilled
  | setPrio (p : Slot) (pid pr : ℤ) : Acts k q (.setPrio p pid pr) { q with priority := pr }
  | reparent (pp : Slot) {p : Slot} (h : q.parent = some p) :
      Acts k q (.reparent pp p) { q with parent := some initproc }
  | exit (p : Slot) (st : ℤ) : Acts k q (.exit p st) (q.exit k.now st)
  | reap (p : Slot) : Acts k q (.reap p) q.reap

/-- **The list of branches is complete.** -/
theorem Op.acts {k : Kernel} {o : Op} {q q' : Proc} (h : o.effect k q = q') : Op.Acts k q o q' := by
  subst h
  cases o with
  | age p =>
    obtain ⟨l, t, s, r, h⟩ := q.age_spec k.now
    rw [Op.effect, h]
    exact .age p h
  | tick p =>
    rw [Op.effect, Proc.updateProcAfterTick_spec]
    exact .tick p
  | yield p =>
    obtain ⟨l, t, r, h⟩ := q.yield_spec k.policy k.now
    rw [Op.effect, h]
    exact .yield p h
  | sleep p =>
    rw [Op.effect, Proc.sleep]
    split_ifs with h
    · exact .sleep p h
    · exact .keep trivial
  | wakeup p ch =>
    rw [Op.effect, Proc.wakeup_eq]
    split_ifs with h1 h2
    · obtain ⟨l, t, h⟩ := ({ q with chan := none } : Proc).wake_spec k.policy k.now
      rw [h]
      exact .awake p h1 h2 h
    · exact .wakeup p h1 h2
    · exact .keep trivial
  | kill p pid =>
    rw [Op.effect, Proc.kill_eq]
    split_ifs with h1 h2
    · obtain ⟨l, t, h⟩ := ({ q with killed := true } : Proc).wake_spec k.policy k.now
      rw [h]
      exact .killAwake p h1 h2 h
    · exact .kill p h1 h2
    · exact .keep trivial
  | setPrio p pid pr =>
    rw [Op.effect, Proc.setPrio]
    split_ifs
    · exact .setPrio p pid pr
    · exact .keep trivial
  | reparent pp p =>
    rw [Op.effect, Proc.reparent]
    split_ifs with h
    · exact .reparent pp h
    · exact .keep trivial
  | clock | policySwitch _ => exact .keep trivial
  | _ => constructor

/-! ### Changes of state -/

/-- The changes of `p->state` the kernel makes, and the operations that make them. -/
inductive StateChange : Op → ProcState → ProcState → Prop
  | allocproc (p : Slot) : StateChange (.allocproc p) .unused .used
  | freeproc (p : Slot) : StateChange (.freeproc p) .used .unused
  | runnable (p : Slot) : StateChange (.runnable p) .used .runnable
  | dispatch (p : Slot) : StateChange (.dispatch p) .runnable .running
  | yield (p : Slot) : StateChange (.yield p) .running .runnable
  | sleep (p : Slot) : StateChange (.sleep p) .running .sleeping
  | wakeup (p : Slot) (ch : Option Chan) : StateChange (.wakeup p ch) .sleeping .runnable
  | kill (p : Slot) (pid : ℤ) : StateChange (.kill p pid) .sleeping .runnable
  | exit (p : Slot) (st : ℤ) : StateChange (.exit p st) .running .zombie
  | reap (p : Slot) : StateChange (.reap p) .zombie .unused

variable {o : Op}

/-- Only a dispatch moves a process into `RUNNING`. -/
lemma StateChange.eq_dispatch {s : ProcState} (h : StateChange o s .running) :
    ∃ p, o = .dispatch p := by
  cases h
  exact ⟨_, rfl⟩

lemma yield_state (pol : SchedPolicy) (now : UInt64) (p : Proc) :
    (p.yield pol now).state = .runnable := by
  obtain ⟨l, t, r, h⟩ := p.yield_spec pol now
  rw [h]

variable {i : Slot}

/-- **An enabled operation leaves the state of its process or changes it as listed.** -/
theorem effect_state {k : Kernel} (ho : o.Ok k) (hi : o.slot = some i) :
    (o.effect k (k.proc i)).state = (k.proc i).state ∨
      StateChange o (k.proc i).state (o.effect k (k.proc i)).state := by
  generalize hq : o.effect k (k.proc i) = q
  cases Op.acts hq with
  | allocproc p | freeproc p | runnable p | dispatch p | yield p | sleep p | exit p st | reap p =>
    cases hi
    have hs : (k.proc i).state = _ := ho
    rw [hs]
    exact .inr (by constructor)
  | awake p _ hs | killAwake p _ hs =>
    rw [hs]
    exact .inr (by constructor)
  | _ => exact .inl rfl

lemma apply_state {k : Kernel} (ho : o.Ok k) (i : Slot) :
    ((k.apply o).proc i).state = (k.proc i).state ∨
      o.slot = some i ∧ StateChange o (k.proc i).state ((k.apply o).proc i).state := by
  rw [Kernel.apply_proc]
  split_ifs with hi
  · exact (effect_state ho hi).imp_right fun h => ⟨hi, h⟩
  · exact .inl rfl

/-! ### Runnable processes -/

/-- The operations of the scheduler on a runnable process. -/
def Op.OfScheduler : Op → Prop
  | age _ | dispatch _ => True
  | _ => False

/-- **A runnable process is left alone**: only the scheduler changes its state, its level, its
slice or the time since when it is ready. -/
lemma effect_of_runnable {k : Kernel} (ho : o.Ok k) (hi : o.slot = some i) (hs : ¬ o.OfScheduler)
    (h : (k.proc i).state = .runnable) :
    (o.effect k (k.proc i)).state = .runnable ∧
      (o.effect k (k.proc i)).queueLevel = (k.proc i).queueLevel ∧
      (o.effect k (k.proc i)).timeSlice = (k.proc i).timeSlice ∧
      (o.effect k (k.proc i)).readySince = (k.proc i).readySince := by
  generalize hq : o.effect k (k.proc i) = q
  cases Op.acts hq with
  | keep | wakeup | kill | setPrio | reparent => exact ⟨h, rfl, rfl, rfl⟩
  | age p | dispatch p => exact absurd trivial hs
  | awake p _ h2 | killAwake p _ h2 => exact absurd (h.symm.trans h2) (by decide)
  | setParent np p =>
    cases hi
    exact absurd (h.symm.trans ho.1) (by decide)
  | _ =>
    cases hi
    exact absurd (h.symm.trans ho) (by decide)

lemma Kernel.Reach.proc_of_runnable {k k' : Kernel}
    (h : Kernel.Reach (fun o => ¬ o.OfScheduler) k k') (hi : (k.proc i).state = .runnable) :
    (k'.proc i).state = .runnable ∧ (k'.proc i).queueLevel = (k.proc i).queueLevel ∧
      (k'.proc i).timeSlice = (k.proc i).timeSlice ∧
      (k'.proc i).readySince = (k.proc i).readySince := by
  refine h.invariant (I := fun k' => (k'.proc i).state = .runnable ∧
    (k'.proc i).queueLevel = (k.proc i).queueLevel ∧
    (k'.proc i).timeSlice = (k.proc i).timeSlice ∧
    (k'.proc i).readySince = (k.proc i).readySince) ⟨hi, rfl, rfl, rfl⟩ ?_
  rintro k1 o ⟨h1, h2, h3, h4⟩ ho hs
  rw [Kernel.apply_proc]
  split_ifs with hslot
  · obtain ⟨h1', h2', h3', h4'⟩ := effect_of_runnable ho hslot hs h1
    exact ⟨h1', h2'.trans h2, h3'.trans h3, h4'.trans h4⟩
  · exact ⟨h1, h2, h3, h4⟩

end Xv6Riscv
