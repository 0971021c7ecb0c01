import Xv6Riscv.Lib.Locks
import Xv6Riscv.Lib.Update
import Xv6Riscv.Uni.Kernel

/-!
The kernel on any number of CPUs.

The state of the machine is the process table with its locks and, as program counters, what every
CPU and every kernel thread is doing. A step is the piece of code between two points where another
CPU can get in between: a critical section that begins and ends in the same function is one step,
enabled when its lock is free, and a lock that is handed on (from the selector to `scheduler`
across `swtch` to the process, from `allocproc` to `kfork`, from `yield`, `sleep` and `kexit` back
to `scheduler`) is taken in one step and released in another.

* `CpuPc`: where a CPU is in `scheduler`, or that it runs a process.
* `IntrPc`: where it is in the handler of a device or timer interrupt, which runs on top of the
  scheduler's idle window or of a thread that holds no spinlock.
* `ThreadPc`: where the kernel thread of a process is in a system call. `run` stands for user mode
  and for kernel code that does not touch the process table.

The edges of the control-flow graphs are `SchedEdge`, `IntrEdge`, `ThreadEdge` and, for the places
where a thread gives up its CPU, `SwtchEdge`; `Step` is a step of one CPU. A run is labelled with
the operations of the process table it performs.
-/

namespace Xv6Riscv

open Function (update)
open Cyclic

/-- The spinlocks of the process table: `p->lock` for every slot, and `wait_lock`. -/
inductive Lock
  | proc (p : Slot)
  | wait
  deriving DecidableEq

/-- Where a CPU is in `scheduler`. -/
inductive CpuPc
  /-- the window with interrupts enabled, at the top of the loop -/
  | loop
  | rrScan (start : Slot) (off : ℕ)
  | priorityScan (start : Slot) (off : ℕ) (best : Best)
  | priorityCheck (b : Slot)
  | mlfqScan (start : Slot) (off : ℕ) (best : Best)
  | mlfqCheck (b : Slot) (level : ℤ)
  /-- `select_next_proc` has returned `p`, with its lock held -/
  | selected (p : Slot)
  /-- `p` is marked running, `c->proc` not yet set -/
  | dispatched (p : Slot)
  /-- across `swtch`, in the thread of `p` before it releases the lock -/
  | entered (p : Slot)
  /-- the thread of `p` runs -/
  | inProc (p : Slot)
  /-- back from `swtch`, `c->proc` not yet reset -/
  | back (p : Slot)
  /-- before the lock of `p` is released -/
  | releasing (p : Slot)
  deriving DecidableEq

/-- Where a CPU is in the handler of an interrupt. -/
inductive IntrPc
  | none
  /-- in `wakeup(chan)`, before slot `j`; `timer` tells `clockintr` from a device -/
  | wake (ch : Chan) (timer : Bool) (j : ℕ)
  /-- before `update_proc_after_tick` -/
  | charge
  /-- before `sched_should_preempt` -/
  | charged
  /-- in the loop of `mlfq_should_preempt`, before slot `j` -/
  | preempt (j : ℕ)
  /-- before `yield` -/
  | yielding

/-- Where the kernel thread of a process is. -/
inductive ThreadPc
  | run
  /-- in `wakeup(chan)`, before slot `j` -/
  | wake (ch : Chan) (j : ℕ)
  /-- in `kkill(pid)`, before slot `j` -/
  | kill (pid : ℤ) (j : ℕ)
  /-- in `kset_prio(pid, priority)`, before slot `j` -/
  | setPrio (pid priority : ℤ) (j : ℕ)
  /-- in the loop of `allocproc`, called by `kfork`, before slot `j` -/
  | forkScan (j : ℕ)
  /-- `allocproc` has found `np`, whose lock is held -/
  | forkHold (np : Slot)
  /-- before `np->parent = p` -/
  | forkParent (np : Slot)
  /-- before `np->state = RUNNABLE` -/
  | forkRunnable (np : Slot)
  /-- in the loop of `reparent`, called by `kexit(status)`, before slot `i` -/
  | exitReparent (status : ℤ) (i : ℕ)
  /-- in `wakeup(initproc)`, called by `reparent` for slot `i`, before slot `j` -/
  | exitWakeInit (status : ℤ) (i j : ℕ)
  /-- in `wakeup(p->parent)`, before slot `j` -/
  | exitWakeParent (status : ℤ) (ch : Option Chan) (j : ℕ)
  /-- before the process is made a zombie -/
  | exitZombie (status : ℤ)
  /-- a zombie, before `wait_lock` is released and `sched` called -/
  | exitSwtch
  /-- the thread has ended, or has never begun -/
  | dead
  /-- in the loop of `kwait`, before slot `i` -/
  | waitScan (i : ℕ) (havekids : Bool)
  /-- before `sleep_prepare` in `kwait` -/
  | waitPrepare
  /-- before `wait_lock` is released to sleep -/
  | waitRelease
  /-- before `sleep` in `kwait` -/
  | waitSleep
  /-- after `sleep` in `kwait` -/
  | waitAcquire
  /-- before `wait_lock` is released to return -/
  | waitReturn

/-- The cursors `rr_cursor[cpu]`, `priority_cursor[cpu]` and `mlfq_cursor[cpu]`. -/
structure Cursors where
  rr : Slot
  priority : Slot
  mlfq : Slot

/-- The cursor of a policy moved behind the selected slot. -/
def Cursors.moved (cur : Cursors) (b : Slot) : SchedPolicy → Cursors
  | .rr => { cur with rr := next b }
  | .staticPriority => { cur with priority := next b }
  | .mlfq => { cur with mlfq := next b }

/-- What a step does to the shared state. -/
structure Move where
  lock : Locks.Act Lock := .none
  op : Option Op := none
  /-- an assignment to `c->proc` -/
  cpuProc : Option (Option Slot) := none
  /-- a selection, which moves the cursor of its policy -/
  selects : Option (SchedPolicy × Slot) := none
  /-- a slot whose thread is set up to begin in `forkret` -/
  spawns : Option Slot := none

/-! ### `scheduler` and the selectors -/

/-- The edges of `scheduler` on a CPU with the cursors `cur`. -/
inductive SchedEdge (k : Kernel) (cur : Cursors) : CpuPc → Move → CpuPc → Prop
  | startRr (h : k.policy = .rr) : SchedEdge k cur .loop {} (.rrScan cur.rr 0)
  | startPriority (h : k.policy = .staticPriority) :
      SchedEdge k cur .loop {} (.priorityScan cur.priority 0 (none, 0))
  | startMlfq (h : k.policy = .mlfq) :
      SchedEdge k cur .loop {} (.mlfqScan cur.mlfq 0 (none, schedMlfqLevels))
  -- `rr_select_next`
  | rrTake {s : Slot} {off : ℕ} (hoff : off < nproc)
      (h : (k.proc (place s off)).state = .runnable) :
      SchedEdge k cur (.rrScan s off)
        { lock := .acquire (.proc (place s off)), selects := some (.rr, place s off) }
        (.selected (place s off))
  | rrNext {s : Slot} {off : ℕ} (hoff : off < nproc)
      (h : (k.proc (place s off)).state ≠ .runnable) :
      SchedEdge k cur (.rrScan s off) { lock := .within (.proc (place s off)) }
        (.rrScan s (off + 1))
  | rrNone {s : Slot} : SchedEdge k cur (.rrScan s nproc) {} .loop
  -- `priority_select_next`
  | priorityNext {s : Slot} {off : ℕ} {best : Best} (hoff : off < nproc) :
      SchedEdge k cur (.priorityScan s off best) { lock := .within (.proc (place s off)) }
        (.priorityScan s (off + 1) (priorityExamine (k.proc (place s off)) (place s off) best))
  | priorityNone {s : Slot} {v : ℤ} : SchedEdge k cur (.priorityScan s nproc (none, v)) {} .loop
  | priorityBest {s b : Slot} {v : ℤ} :
      SchedEdge k cur (.priorityScan s nproc (some b, v)) {} (.priorityCheck b)
  | priorityTake {b : Slot} (h : (k.proc b).state = .runnable) :
      SchedEdge k cur (.priorityCheck b)
        { lock := .acquire (.proc b), selects := some (.staticPriority, b) } (.selected b)
  | priorityRetry {b : Slot} (h : (k.proc b).state ≠ .runnable) :
      SchedEdge k cur (.priorityCheck b) { lock := .within (.proc b) }
        (.priorityScan cur.priority 0 (none, 0))
  -- `mlfq_select_next`
  | mlfqNext {s : Slot} {off : ℕ} {best : Best} (hoff : off < nproc) :
      SchedEdge k cur (.mlfqScan s off best)
        { lock := .within (.proc (place s off)), op := some (.age (place s off)) }
        (.mlfqScan s (off + 1) (mlfqExamine (aged k (place s off)) (place s off) best))
  | mlfqNone {s : Slot} {v : ℤ} : SchedEdge k cur (.mlfqScan s nproc (none, v)) {} .loop
  | mlfqBest {s b : Slot} {v : ℤ} :
      SchedEdge k cur (.mlfqScan s nproc (some b, v)) {} (.mlfqCheck b v)
  | mlfqTake {b : Slot} {v : ℤ} (h : (aged k b).state = .runnable)
      (hv : (aged k b).queueLevel ≤ v) :
      SchedEdge k cur (.mlfqCheck b v)
        { lock := .acquire (.proc b), op := some (.age b), selects := some (.mlfq, b) }
        (.selected b)
  | mlfqRetry {b : Slot} {v : ℤ}
      (h : ¬ ((aged k b).state = .runnable ∧ (aged k b).queueLevel ≤ v)) :
      SchedEdge k cur (.mlfqCheck b v) { lock := .within (.proc b), op := some (.age b) }
        (.mlfqScan cur.mlfq 0 (none, schedMlfqLevels))
  -- the body of `scheduler`
  | dispatch {p : Slot} :
      SchedEdge k cur (.selected p) { op := some (.dispatch p) } (.dispatched p)
  | swtch {p : Slot} : SchedEdge k cur (.dispatched p) { cpuProc := some (some p) } (.entered p)
  | enter {p : Slot} :
      SchedEdge k cur (.entered p) { lock := .release (.proc p) } (.inProc p)
  | back {p : Slot} : SchedEdge k cur (.back p) { cpuProc := some none } (.releasing p)
  | release {p : Slot} :
      SchedEdge k cur (.releasing p) { lock := .release (.proc p) } .loop

/-! ### Interrupts (`trap.c`) -/

/-- The edges of `devintr` and of the end of `usertrap` and `kerneltrap`, on CPU 0 (`boot`) or
another one, `p` being the interrupted process if there is one. -/
inductive IntrEdge (k : Kernel) (boot : Prop) : Option Slot → IntrPc → Move → IntrPc → Prop
  /-- a device interrupt, whose handler calls `wakeup` on one of its channels -/
  | device {p : Option Slot} {a : ℕ} : IntrEdge k boot p .none {} (.wake (.addr a) false 0)
  /-- `clockintr` on CPU 0 -/
  | clock {p : Option Slot} (h : boot) :
      IntrEdge k boot p .none { op := some .clock } (.wake ticksChan true 0)
  /-- `clockintr` on another CPU -/
  | timer {p : Option Slot} (h : ¬ boot) : IntrEdge k boot p .none {} .charge
  | wakeNext {p : Option Slot} {ch : Chan} {t : Bool} {j : Slot} :
      IntrEdge k boot p (.wake ch t j)
        { lock := .within (.proc j), op := some (.wakeup j (some ch)) } (.wake ch t (j + 1))
  | deviceDone {p : Option Slot} {ch : Chan} : IntrEdge k boot p (.wake ch false nproc) {} .none
  | clockDone {p : Option Slot} {ch : Chan} : IntrEdge k boot p (.wake ch true nproc) {} .charge
  -- `myproc() == 0` in `kerneltrap`
  | idle : IntrEdge k boot none .charge {} .none
  -- a killed process interrupted in user mode goes on to `kexit` and is not charged
  | killed {p : Slot} (h : (k.proc p).killed) :
      IntrEdge k boot (some p) .charge { lock := .within (.proc p) } .none
  | charge {p : Slot} : IntrEdge k boot (some p) .charge { op := some (.tick p) } .charged
  -- `rr_should_preempt`, `priority_should_preempt`
  | preemptAlways {p : Slot} (h : k.policy ≠ .mlfq) :
      IntrEdge k boot (some p) .charged {} .yielding
  -- `mlfq_should_preempt`
  | preemptEmpty {p : Slot} (h : k.policy = .mlfq) (hs : (k.proc p).timeSlice ≤ 0) :
      IntrEdge k boot (some p) .charged {} .yielding
  | preemptScan {p : Slot} (h : k.policy = .mlfq) (hs : 0 < (k.proc p).timeSlice) :
      IntrEdge k boot (some p) .charged {} (.preempt 0)
  | candidate {p j : Slot} (h : (k.proc j).preempts (k.proc p)) :
      IntrEdge k boot (some p) (.preempt j) { lock := .within (.proc j) } .yielding
  | candidateNext {p j : Slot} (h : ¬ (k.proc j).preempts (k.proc p)) :
      IntrEdge k boot (some p) (.preempt j) { lock := .within (.proc j) } (.preempt (j + 1))
  | stay {p : Slot} : IntrEdge k boot (some p) (.preempt nproc) {} .none

/-! ### Kernel threads (`proc.c`) -/

/-- The edges of the thread of `p` that leave it on its CPU. -/
inductive ThreadEdge (k : Kernel) (p : Slot) : ThreadPc → Move → ThreadPc → Prop
  -- `wakeup(chan)`
  | wakeStart {a : ℕ} : ThreadEdge k p .run {} (.wake (.addr a) 0)
  | wakeNext {ch : Chan} {j : Slot} :
      ThreadEdge k p (.wake ch j)
        { lock := .within (.proc j), op := some (.wakeup j (some ch)) } (.wake ch (j + 1))
  | wakeDone {ch : Chan} : ThreadEdge k p (.wake ch nproc) {} .run
  -- `kkill(pid)`
  | killStart {pid : ℤ} : ThreadEdge k p .run {} (.kill pid 0)
  | killHit {pid : ℤ} {j : Slot} (h : (k.proc j).pid = pid) :
      ThreadEdge k p (.kill pid j) { lock := .within (.proc j), op := some (.kill j pid) } .run
  | killNext {pid : ℤ} {j : Slot} (h : (k.proc j).pid ≠ pid) :
      ThreadEdge k p (.kill pid j) { lock := .within (.proc j), op := some (.kill j pid) }
        (.kill pid (j + 1))
  | killDone {pid : ℤ} : ThreadEdge k p (.kill pid nproc) {} .run
  -- `kset_prio(pid, priority)`
  | setPrioStart {pid pr : ℤ} : ThreadEdge k p .run {} (.setPrio pid pr 0)
  | setPrioHit {pid pr : ℤ} {j : Slot}
      (h : (k.proc j).state ≠ .unused ∧ (k.proc j).pid = pid) :
      ThreadEdge k p (.setPrio pid pr j)
        { lock := .within (.proc j), op := some (.setPrio j pid pr) } .run
  | setPrioNext {pid pr : ℤ} {j : Slot}
      (h : ¬ ((k.proc j).state ≠ .unused ∧ (k.proc j).pid = pid)) :
      ThreadEdge k p (.setPrio pid pr j)
        { lock := .within (.proc j), op := some (.setPrio j pid pr) } (.setPrio pid pr (j + 1))
  | setPrioDone {pid pr : ℤ} : ThreadEdge k p (.setPrio pid pr nproc) {} .run
  | setkilled :
      ThreadEdge k p .run { lock := .within (.proc p), op := some (.setkilled p) } .run
  -- `sleep_prepare(chan)`, and a `sleep()` that finds the channel cleared
  | sleepPrepare {a : ℕ} :
      ThreadEdge k p .run
        { lock := .within (.proc p), op := some (.sleepPrepare p (.addr a)) } .run
  | sleepSkip (h : (k.proc p).chan = none) :
      ThreadEdge k p .run { lock := .within (.proc p) } .run
  -- `kfork()`
  | forkStart : ThreadEdge k p .run {} (.forkScan 0)
  | forkNext {j : Slot} (h : (k.proc j).state ≠ .unused) :
      ThreadEdge k p (.forkScan j) { lock := .within (.proc j) } (.forkScan (j + 1))
  | forkNone : ThreadEdge k p (.forkScan nproc) {} .run
  | forkFound {j : Slot} (h : (k.proc j).state = .unused) :
      ThreadEdge k p (.forkScan j)
        { lock := .acquire (.proc j), op := some (.allocproc j), spawns := some j } (.forkHold j)
  | forkFail {np : Slot} :
      ThreadEdge k p (.forkHold np)
        { lock := .release (.proc np), op := some (.freeproc np) } .run
  | forkCopied {np : Slot} :
      ThreadEdge k p (.forkHold np) { lock := .release (.proc np) } (.forkParent np)
  | forkParent {np : Slot} :
      ThreadEdge k p (.forkParent np) { lock := .within .wait, op := some (.setParent np p) }
        (.forkRunnable np)
  | forkRunnable {np : Slot} :
      ThreadEdge k p (.forkRunnable np)
        { lock := .within (.proc np), op := some (.runnable np) } .run
  -- `kexit(status)`
  | exitStart {st : ℤ} (h : p ≠ initproc) :
      ThreadEdge k p .run { lock := .acquire .wait } (.exitReparent st 0)
  | reparentNext {st : ℤ} {i : Slot} (h : (k.proc i).parent ≠ some p) :
      ThreadEdge k p (.exitReparent st i) {} (.exitReparent st (i + 1))
  | reparentHit {st : ℤ} {i : Slot} (h : (k.proc i).parent = some p) :
      ThreadEdge k p (.exitReparent st i) { op := some (.reparent i p) } (.exitWakeInit st i 0)
  | wakeInitNext {st : ℤ} {i : ℕ} {j : Slot} :
      ThreadEdge k p (.exitWakeInit st i j)
        { lock := .within (.proc j), op := some (.wakeup j (some (.proc initproc))) }
        (.exitWakeInit st i (j + 1))
  | wakeInitDone {st : ℤ} {i : ℕ} :
      ThreadEdge k p (.exitWakeInit st i nproc) {} (.exitReparent st (i + 1))
  | reparentDone {st : ℤ} :
      ThreadEdge k p (.exitReparent st nproc) {}
        (.exitWakeParent st ((k.proc p).parent.map .proc) 0)
  | wakeParentNext {st : ℤ} {ch : Option Chan} {j : Slot} :
      ThreadEdge k p (.exitWakeParent st ch j)
        { lock := .within (.proc j), op := some (.wakeup j ch) } (.exitWakeParent st ch (j + 1))
  | wakeParentDone {st : ℤ} {ch : Option Chan} :
      ThreadEdge k p (.exitWakeParent st ch nproc) {} (.exitZombie st)
  | exitZombie {st : ℤ} :
      ThreadEdge k p (.exitZombie st) { lock := .acquire (.proc p), op := some (.exit p st) }
        .exitSwtch
  -- `kwait(addr)`
  | waitStart : ThreadEdge k p .run { lock := .acquire .wait } (.waitScan 0 false)
  | waitNext {i : Slot} {havekids : Bool} (h : (k.proc i).parent ≠ some p) :
      ThreadEdge k p (.waitScan i havekids) {} (.waitScan (i + 1) havekids)
  | waitAlive {i : Slot} {havekids : Bool} (h : (k.proc i).parent = some p)
      (hz : (k.proc i).state ≠ .zombie) :
      ThreadEdge k p (.waitScan i havekids) { lock := .within (.proc i) } (.waitScan (i + 1) true)
  | waitCopyoutFails {i : Slot} {havekids : Bool} (h : (k.proc i).parent = some p)
      (hz : (k.proc i).state = .zombie) :
      ThreadEdge k p (.waitScan i havekids) { lock := .within (.proc i) } .waitReturn
  | waitReap {i : Slot} {havekids : Bool} (h : (k.proc i).parent = some p)
      (hz : (k.proc i).state = .zombie) :
      ThreadEdge k p (.waitScan i havekids)
        { lock := .within (.proc i), op := some (.reap i) } .waitReturn
  | waitNoKids : ThreadEdge k p (.waitScan nproc false) {} .waitReturn
  | waitKilled (h : (k.proc p).killed) :
      ThreadEdge k p (.waitScan nproc true) { lock := .within (.proc p) } .waitReturn
  | waitKids (h : ¬ (k.proc p).killed) :
      ThreadEdge k p (.waitScan nproc true) { lock := .within (.proc p) } .waitPrepare
  | waitPrepare :
      ThreadEdge k p .waitPrepare
        { lock := .within (.proc p), op := some (.sleepPrepare p (.proc p)) } .waitRelease
  | waitRelease : ThreadEdge k p .waitRelease { lock := .release .wait } .waitSleep
  | waitSleepSkip (h : (k.proc p).chan = none) :
      ThreadEdge k p .waitSleep { lock := .within (.proc p) } .waitAcquire
  | waitAcquire : ThreadEdge k p .waitAcquire { lock := .acquire .wait } (.waitScan 0 false)
  | waitReturn : ThreadEdge k p .waitReturn { lock := .release .wait } .run

/-- The edges of the thread of `p` that end in `sched`. -/
inductive SwtchEdge (k : Kernel) (p : Slot) : ThreadPc → Move → ThreadPc → Prop
  | sleep (h : (k.proc p).chan ≠ none) :
      SwtchEdge k p .run { lock := .acquire (.proc p), op := some (.sleep p) } .run
  | waitSleep (h : (k.proc p).chan ≠ none) :
      SwtchEdge k p .waitSleep { lock := .acquire (.proc p), op := some (.sleep p) } .waitAcquire
  | exit : SwtchEdge k p .exitSwtch { lock := .release .wait } .dead

/-! ### The machine -/

/-- The state of the machine with the CPUs `ι`. -/
structure Machine (ι : Type*) where
  k : Kernel
  lock : Lock → Option ι
  /-- `c->proc` -/
  cpuProc : ι → Option Slot
  cursors : ι → Cursors
  cpu : ι → CpuPc
  intr : ι → IntrPc
  thread : Slot → ThreadPc

/-- A thread that holds a spinlock, and so runs with interrupts off. -/
def ThreadPc.busy : ThreadPc → Bool
  | forkHold _ | exitReparent _ _ | exitWakeInit _ _ _ | exitWakeParent _ _ _ | exitZombie _
  | exitSwtch | waitScan _ _ | waitPrepare | waitRelease | waitReturn => true
  | _ => false

namespace Machine

variable {ι : Type*} [DecidableEq ι]

/-- The effect of a move of CPU `c` on everything but its program counters. -/
def perform (m : Machine ι) (c : ι) (mv : Move) : Machine ι :=
  { m with
    k := mv.op.elim m.k m.k.apply
    lock := mv.lock.run c m.lock
    cpuProc := mv.cpuProc.elim m.cpuProc (update m.cpuProc c)
    cursors := mv.selects.elim m.cursors fun (pol, b) =>
      update m.cursors c ((m.cursors c).moved b pol)
    thread := mv.spawns.elim m.thread fun j => update m.thread j .run }

/-- The process a CPU runs when an interrupt arrives: none in the scheduler's idle window, else a
process whose thread runs with interrupts on. -/
inductive Interruptible (m : Machine ι) (c : ι) : Option Slot → Prop
  | idle (h : m.cpu c = .loop) : Interruptible m c none
  | proc {p : Slot} (h : m.cpu c = .inProc p) (hb : (m.thread p).busy = false) :
      Interruptible m c (some p)

variable (boot : ι)

/-- A step of CPU `c`, with what it does to the shared state. -/
inductive Step (m : Machine ι) (c : ι) : Move → Machine ι → Prop
  | sched {mv : Move} {pc : CpuPc} (hintr : m.intr c = .none)
      (h : SchedEdge m.k (m.cursors c) (m.cpu c) mv pc) (hlock : mv.lock.Enabled m.lock) :
      Step m c mv { m.perform c mv with cpu := update m.cpu c pc }
  | intr {p : Option Slot} {mv : Move} {i : IntrPc} (hp : m.Interruptible c p)
      (h : IntrEdge m.k (c = boot) p (m.intr c) mv i) (hlock : mv.lock.Enabled m.lock) :
      Step m c mv { m.perform c mv with intr := update m.intr c i }
  | yield {p : Slot} (hp : m.cpu c = .inProc p) (h : m.intr c = .yielding)
      (hlock : m.lock (.proc p) = none) :
      Step m c { lock := .acquire (.proc p), op := some (.yield p) }
        { m.perform c { lock := .acquire (.proc p), op := some (.yield p) } with
          cpu := update m.cpu c (.back p)
          intr := update m.intr c .none }
  | thread {p : Slot} {mv : Move} {t : ThreadPc} (hp : m.cpu c = .inProc p)
      (hintr : m.intr c = .none) (h : ThreadEdge m.k p (m.thread p) mv t)
      (hlock : mv.lock.Enabled m.lock) :
      Step m c mv { m.perform c mv with thread := update (m.perform c mv).thread p t }
  | swtch {p : Slot} {mv : Move} {t : ThreadPc} (hp : m.cpu c = .inProc p)
      (hintr : m.intr c = .none) (h : SwtchEdge m.k p (m.thread p) mv t)
      (hlock : mv.lock.Enabled m.lock) :
      Step m c mv
        { m.perform c mv with
          cpu := update m.cpu c (.back p)
          thread := update m.thread p t }
  /-- `sched_policy_switch` -/
  | policySwitch {pol : SchedPolicy} :
      Step m c { op := some (.policySwitch pol) } (m.perform c { op := some (.policySwitch pol) })

/-- The machine when the CPUs enter `scheduler`. -/
def init (ι : Type*) (pol : SchedPolicy) : Machine ι where
  k := bootKernel pol
  lock _ := none
  cpuProc _ := none
  cursors _ := ⟨0, 0, 0⟩
  cpu _ := .loop
  intr _ := .none
  thread p := if p = initproc then .run else .dead

/-- The runs of the machine from boot, with the operations performed. -/
def Run (pol : SchedPolicy) (ops : List Op) (m : Machine ι) : Prop :=
  Transition.Steps (fun m ops m' => ∃ c mv, Step boot m c mv m' ∧ ops = mv.op.toList)
    (init ι pol) ops m

end Machine

end Xv6Riscv
