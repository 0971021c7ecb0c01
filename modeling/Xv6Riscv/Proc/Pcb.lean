import Mathlib.Tactic

/-!
The process control block and what the kernel does to it (`proc.h`, `proc.c`, `sched.c`,
`sched_rr.c`, `sched_priority.c`, `sched_mlfq.c`).

`Proc` has the fields of `struct proc` that the scheduler, sleep and wakeup, and exit and wait
read or write; the address space, the trapframe, the open files and the name are not among them.
Counters and tick values have the widths of the source: the fields are `uint64` and the tick
counter `uint`, so `now` below is always a tick count already converted to 64 bits.

* **The strategies.** `SchedStrategy` has the four hooks that act on one process, `rrStrategy`,
  `priorityStrategy` and `mlfqStrategy` are the three tables of hooks, `activeStrategy` is the
  table lookup, and `mlfqAgeLocked` the aging done by the MLFQ scan.
* **The critical sections.** Each function of the namespace `Proc` from `allocproc` on is the
  body of a section of `proc.c` or `trap.c` that runs with `p->lock` held (or, for
  `updateProcAfterTick`, on the running process itself), as a function of the process.
-/

namespace Xv6Riscv

/-- `NPROC`, the size of the process table. -/
@[irreducible] def nproc : ℕ := 64

lemma nproc_eq : nproc = 64 := by unfold nproc; rfl

instance : NeZero nproc := ⟨by rw [nproc_eq]; decide⟩

/-- An index into `proc[NPROC]`, standing for the pointer `&proc[i]`. -/
abbrev Slot := Fin nproc

/-- `enum procstate`. -/
inductive ProcState
  | unused | used | sleeping | runnable | running | zombie
  deriving DecidableEq, Repr

/-- `enum sched_policy`. -/
inductive SchedPolicy
  | rr | staticPriority | mlfq
  deriving DecidableEq, Repr

/-- A wait channel: the address of a slot of the process table, as `kwait` uses it, or any other
kernel address. -/
inductive Chan
  | proc (p : Slot)
  | addr (a : ℕ)
  deriving DecidableEq, Repr

/-- `struct proc`; `chan = none` and `parent = none` are the null pointers. -/
structure Proc where
  state : ProcState
  chan : Option Chan
  killed : Bool
  xstate : ℤ
  pid : ℤ
  priority : ℤ
  queueLevel : ℤ
  timeSlice : ℤ
  runTime : UInt64
  readyCount : UInt64
  readyTicks : UInt64
  readySince : UInt64
  totalReadyTime : UInt64
  waitCount : UInt64
  scheduleCount : UInt64
  createTick : UInt64
  firstRunTick : UInt64
  exitTick : UInt64
  stateStat : ProcState → UInt64
  schedPolicy : SchedPolicy
  parent : Option Slot

/-! ### Constants of `sched.h` -/

def schedDefaultPriority : ℤ := 0

def schedDefaultQueueLevel : ℤ := 0

def schedRrTimeSlice : ℤ := 1

def schedMlfqLevels : ℤ := 3

def schedMlfqAgingThreshold : UInt64 := 8

/-! ### The MLFQ rules (`sched_mlfq.c`) -/

/-- `mlfq_time_slice`, with `SCHED_MLFQ_TIME_SLICE_0`, `_1` and `_2` in place. -/
def mlfqTimeSlice (level : ℤ) : ℤ :=
  if level = 0 then 1 else if level = 1 then 2 else 4

def mlfqLevel (level : ℤ) : ℤ :=
  if level < 0 then 0 else if schedMlfqLevels ≤ level then schedMlfqLevels - 1 else level

/-- The test of `mlfq_age_locked` that leads to a promotion. -/
def Proc.Promotes (now : UInt64) (p : Proc) : Prop :=
  p.state = .runnable ∧ schedMlfqAgingThreshold ≤ now - p.readySince ∧ 0 < p.queueLevel

instance (now : UInt64) (p : Proc) : Decidable (p.Promotes now) := by
  unfold Proc.Promotes; infer_instance

def mlfqAgeLocked (now : UInt64) (p : Proc) : Proc :=
  if p.state ≠ .runnable then p
  else if p.Promotes now then
    { p with
      queueLevel := p.queueLevel - 1
      timeSlice := mlfqTimeSlice (p.queueLevel - 1)
      readySince := now
      readyTicks := 0 }
  else { p with readyTicks := now - p.readySince }

def mlfqOnYield (now : UInt64) (p : Proc) : Proc :=
  let p := { p with queueLevel := mlfqLevel p.queueLevel }
  let p :=
    if p.timeSlice ≤ 0 then
      -- only a process that used its whole slice is demoted
      let level := if p.queueLevel < schedMlfqLevels - 1 then p.queueLevel + 1 else p.queueLevel
      { p with queueLevel := level, timeSlice := mlfqTimeSlice level }
    else p
  { p with readySince := now, readyTicks := 0 }

def mlfqOnWakeup (now : UInt64) (p : Proc) : Proc :=
  let level := mlfqLevel p.queueLevel
  let level := if 0 < level then level - 1 else level
  { p with queueLevel := level, timeSlice := mlfqTimeSlice level, readySince := now }

/-- The test made on each candidate by the loop of `mlfq_should_preempt`. -/
def Proc.preempts (candidate p : Proc) : Bool :=
  candidate.state = .runnable ∧ candidate.queueLevel < p.queueLevel

/-- `mlfq_should_preempt`, with no step between the slots of its loop. -/
def mlfqShouldPreempt (proc : Slot → Proc) (p : Proc) : Bool :=
  p.timeSlice ≤ 0 || (List.finRange nproc).any fun i => (proc i).preempts p

/-! ### The strategy tables -/

/-- The hooks of `struct sched_strategy` that act on one process. -/
structure SchedStrategy where
  policy : SchedPolicy
  onTick : Proc → Proc
  onYield : UInt64 → Proc → Proc
  onWakeup : UInt64 → Proc → Proc
  shouldPreempt : (Slot → Proc) → Proc → Bool

/-- `rr_on_yield` and `priority_on_yield`, the same assignment in both files. -/
def refillRrSlice (p : Proc) : Proc := { p with timeSlice := schedRrTimeSlice }

/-- `rr_sched_strategy`. -/
def rrStrategy : SchedStrategy where
  policy := .rr
  onTick p := p
  onYield _ p := refillRrSlice p
  onWakeup _ p := p
  shouldPreempt _ _ := true

/-- `priority_sched_strategy`. -/
def priorityStrategy : SchedStrategy where
  policy := .staticPriority
  onTick p := p
  onYield _ p := refillRrSlice p
  onWakeup _ p := p
  shouldPreempt _ _ := true

/-- `mlfq_sched_strategy`. -/
def mlfqStrategy : SchedStrategy where
  policy := .mlfq
  onTick p := p
  onYield := mlfqOnYield
  onWakeup := mlfqOnWakeup
  shouldPreempt := mlfqShouldPreempt

/-- `active_strategy`, after `schedinit` has registered the three strategies. -/
def activeStrategy : SchedPolicy → SchedStrategy
  | .rr => rrStrategy
  | .staticPriority => priorityStrategy
  | .mlfq => mlfqStrategy

namespace Proc

/-! ### The shared scheduling fields (`sched.c`) -/

def schedProcInit (pol : SchedPolicy) (now : UInt64) (p : Proc) : Proc :=
  { p with
    priority := schedDefaultPriority
    queueLevel := schedDefaultQueueLevel
    timeSlice := schedRrTimeSlice
    runTime := 0
    readyCount := 0
    readyTicks := 0
    readySince := now
    totalReadyTime := 0
    waitCount := 0
    scheduleCount := 0
    createTick := now
    firstRunTick := 0
    exitTick := 0
    schedPolicy := pol
    stateStat := fun _ => 0 }

def schedProcRunnable (now : UInt64) (p : Proc) : Proc :=
  { p with readyCount := p.readyCount + 1, readySince := now }

def updateProcAfterTick (pol : SchedPolicy) (p : Proc) : Proc :=
  (activeStrategy pol).onTick
    { p with
      runTime := p.runTime + 1
      stateStat := Function.update p.stateStat .running (p.stateStat .running + 1)
      timeSlice := if 0 < p.timeSlice then p.timeSlice - 1 else p.timeSlice }

/-! ### Critical sections of `proc.c` -/

/-- `allocproc` from `found` on. -/
def allocproc (pol : SchedPolicy) (now : UInt64) (pid : ℤ) (p : Proc) : Proc :=
  schedProcInit pol now { p with pid := pid, state := .used }

/-- `freeproc`, which leaves the parent pointer alone. -/
def freeproc (p : Proc) : Proc :=
  { p with
    pid := 0
    chan := none
    killed := false
    xstate := 0
    priority := 0
    queueLevel := 0
    timeSlice := 0
    runTime := 0
    readyCount := 0
    readyTicks := 0
    readySince := 0
    totalReadyTime := 0
    waitCount := 0
    scheduleCount := 0
    createTick := 0
    firstRunTick := 0
    exitTick := 0
    schedPolicy := .rr
    stateStat := fun _ => 0
    state := .unused }

/-- The end of `userinit` and `kfork`: the new process becomes runnable. -/
def makeRunnable (now : UInt64) (p : Proc) : Proc :=
  schedProcRunnable now { p with state := .runnable }

/-- The bookkeeping of `scheduler` for the process returned by `select_next_proc`. -/
def dispatch (pol : SchedPolicy) (now : UInt64) (p : Proc) : Proc :=
  { p with
    readyTicks := now - p.readySince
    totalReadyTime := p.totalReadyTime + (now - p.readySince)
    firstRunTick := if p.scheduleCount = 0 then now else p.firstRunTick
    scheduleCount := p.scheduleCount + 1
    schedPolicy := pol
    state := .running }

/-- `yield`, up to the call of `sched`. -/
def yield (pol : SchedPolicy) (now : UInt64) (p : Proc) : Proc :=
  (activeStrategy pol).onYield now (schedProcRunnable now { p with state := .runnable })

def sleepPrepare (ch : Chan) (p : Proc) : Proc := { p with chan := some ch }

/-- `sleep`, up to the call of `sched`; a process whose channel has been cleared is left as it
is. -/
def sleep (p : Proc) : Proc :=
  if p.chan ≠ none then { p with waitCount := p.waitCount + 1, state := .sleeping } else p

/-- Waking a sleeper: the common tail of `wakeup` and `kkill`. -/
def wake (pol : SchedPolicy) (now : UInt64) (p : Proc) : Proc :=
  (activeStrategy pol).onWakeup now (schedProcRunnable now { p with state := .runnable })

/-- One turn of the loop of `wakeup(chan)`. -/
def wakeup (pol : SchedPolicy) (now : UInt64) (ch : Option Chan) (p : Proc) : Proc :=
  if p.chan = ch then
    let p := { p with chan := none }
    if p.state = .sleeping then p.wake pol now else p
  else p

/-- One turn of the loop of `kkill(pid)`. -/
def kill (pol : SchedPolicy) (now : UInt64) (pid : ℤ) (p : Proc) : Proc :=
  if p.pid = pid then
    let p := { p with killed := true }
    if p.state = .sleeping then p.wake pol now else p
  else p

def setkilled (p : Proc) : Proc := { p with killed := true }

/-- One turn of the loop of `kset_prio(pid, priority)`. -/
def setPrio (pid priority : ℤ) (p : Proc) : Proc :=
  if p.state ≠ .unused ∧ p.pid = pid then { p with priority := priority } else p

/-- `np->parent = p` in `kfork`. -/
def setParent (parent : Slot) (p : Proc) : Proc := { p with parent := some parent }

/-- One turn of the loop of `reparent(parent)`. -/
def reparent (parent initproc : Slot) (p : Proc) : Proc :=
  if p.parent = some parent then { p with parent := some initproc } else p

/-- The section of `kexit` that ends the process. -/
def exit (now : UInt64) (status : ℤ) (p : Proc) : Proc :=
  { p with xstate := status, exitTick := now, state := .zombie }

/-- The section of `kwait` that reaps a child. -/
def reap (p : Proc) : Proc := freeproc { p with parent := none }

end Proc

end Xv6Riscv
