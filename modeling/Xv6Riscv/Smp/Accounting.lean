import Xv6Riscv.Proc.Counters
import Xv6Riscv.Proc.ReadyTime
import Xv6Riscv.Smp.Invariant

/-!
The scheduling statistics of a running kernel.

`Performs` says that the kernel, on one CPU or on any number of them, has performed a sequence of
operations; by the refinement theorems of the two machines the sequence is legal, so what has been
proved about the process table applies.

* `counter_conservation`: the counters of every slot balance, and so does the report of
  `ksys_stat`.
* `ready_time_accounting`: at a dispatch `total_ready_time` is the time the process has waited if
  and only if it has not been promoted by aging since its allocation.
* `ready_time_accounting_fails`: a process that waits as long as the aging threshold below the
  highest queue is promoted, and its account does not show that it has waited.
-/

namespace Xv6Riscv

/-- The kernel, booted with the policy `pol`, has performed `ops` and left the process table as in
`k`. -/
inductive Performs (pol : SchedPolicy) : List Op → Kernel → Prop
  | uni {es : List Uni.Event} {u : Uni} (h : (Uni.boot pol).run es = some u) :
      Performs pol ((Uni.boot pol).trace es) u.k
  | smp {ι : Type} [DecidableEq ι] {boot : ι} {ops : List Op} {m : Machine ι}
      (h : Machine.Run boot pol ops m) : Performs pol ops m.k

variable {pol : SchedPolicy} {ops : List Op} {k : Kernel} {p : Slot}

/-- **What the kernel performs is legal.** -/
theorem Performs.refines (h : Performs pol ops k) :
    (bootKernel pol).Legal ops ∧ k = (bootKernel pol).after ops := by
  cases h with
  | uni h => exact Uni.run_trace (Uni.sound_boot pol).curRunning h
  | smp h => exact h.refines

lemma Performs.countersOk (h : Performs pol ops k) (i : Slot) :
    CountersOk (k.proc i) (lives pol (userinit ++ ops) i) := by
  obtain ⟨hlegal, rfl⟩ := h.refines
  have hall := countersOk_after (Transition.legal_append.mpr ⟨userinit_legal pol, hlegal⟩) i
  rwa [Kernel.after, List.foldl_append] at hall

/-- **The scheduling counters balance.** In every slot the process has been ready once more than it
has been scheduled if it is runnable, and as often otherwise; a process that has been made runnable
has been ready once for its creation, once for each yield and once for each sleep that is over. A
report of `ksys_stat` taken with no step in between shows it in its totals. -/
theorem counter_conservation (h : Performs pol ops k) :
    (∀ i, (k.proc i).readyCount
      = (k.proc i).scheduleCount + if (k.proc i).state = .runnable then 1 else 0) ∧
    (∀ i, (lives pol (userinit ++ ops) i).made → (k.proc i).readyCount
        = 1 + UInt64.ofNat (lives pol (userinit ++ ops) i).yields + (k.proc i).waitCount
          - if (k.proc i).state = .sleeping then 1 else 0) ∧
    ((ksysStat k).totalReadyCount - (ksysStat k).totalScheduleCount).toNat
      = (ksysStat k).runnableCount :=
  ⟨fun i => (h.countersOk i).scheduled, fun i => (h.countersOk i).ready,
    ksysStat_balance fun i => (h.countersOk i).scheduled⟩

open Uni in
/-- Init forks and is preempted; its child runs and sleeps; init wakes it and is preempted again. -/
def sleepyChild : List Event :=
  [.schedule] ++ forkEvents 1 0 ++ [.timer true, .schedule] ++ sleepEvents 1 (.addr 0) ++
    [.schedule, .op (.wakeup 1 (some (.addr 0))), .timer true, .schedule]

/-- The child has slept once and has waited one tick before each of its two dispatches. -/
lemma sleepyChild_run :
    ((Uni.boot .rr).run sleepyChild).isSome ∧
      ((Uni.boot .rr).trace sleepyChild).getLast? = some (.dispatch 1) ∧
      ((Uni.boot .rr).trace sleepyChild).count .clock = 2 ∧
      (lives .rr (userinit ++ (Uni.boot .rr).trace sleepyChild) 1).made ∧
      (((Uni.boot .rr).after sleepyChild).k.proc 1).waitCount = 1 ∧
      (lives .rr (userinit ++ (Uni.boot .rr).trace sleepyChild) initproc).yields = 2 ∧
      (readyHistory .rr ((Uni.boot .rr).trace sleepyChild) 1).waited = 2 ∧
      (readyHistory .rr ((Uni.boot .rr).trace sleepyChild) 1).promotions = 0 := by
  decide +kernel

/-- The hypothesis is met by a run with a sleep, a wakeup and yields. -/
theorem counter_conservation_sleeps : ∃ ops k, Performs .rr ops k ∧ (k.proc 1).waitCount = 1 ∧
    (lives .rr (userinit ++ ops) initproc).yields = 2 ∧
    (k.proc 1).readyCount = 1 + UInt64.ofNat (lives .rr (userinit ++ ops) 1).yields
      + (k.proc 1).waitCount - if (k.proc 1).state = .sleeping then 1 else 0 := by
  obtain ⟨hrun, -, -, hmade, hwait, hyields, -⟩ := sleepyChild_run
  have h : Performs .rr _ _ := .uni (Uni.run_after hrun)
  exact ⟨_, _, h, hwait, hyields, (counter_conservation h).2.1 1 hmade⟩

/-! ### Ready time -/

/-- **When ready time is accounted for exactly.** At each dispatch `total_ready_time` is the sum,
over the dispatches of the process so far, of the ticks since the transition to `RUNNABLE` that
preceded it, if and only if no promotion by `mlfq_age_locked` has happened to the process; each
promotion takes at least `SCHED_MLFQ_AGING_THRESHOLD` ticks off the account. -/
theorem ready_time_accounting (h : Performs pol (ops ++ [.dispatch p]) k)
    (hc : ops.count .clock < 2 ^ 32) :
    ((k.proc p).totalReadyTime.toNat = (readyHistory pol (ops ++ [.dispatch p]) p).waited ↔
      (readyHistory pol (ops ++ [.dispatch p]) p).promotions = 0) ∧
    (k.proc p).totalReadyTime.toNat
        + schedMlfqAgingThreshold.toNat * (readyHistory pol (ops ++ [.dispatch p]) p).promotions
      ≤ (readyHistory pol (ops ++ [.dispatch p]) p).waited := by
  obtain ⟨hlegal, rfl⟩ := h.refines
  obtain ⟨hle, hiff⟩ := totalReadyTime_dispatch hlegal hc
  exact ⟨hiff, hle⟩

/-- The hypotheses are met by the second dispatch of a process that has waited twice. -/
theorem ready_time_accounting_sleeps : ∃ ops k, Performs .rr (ops ++ [.dispatch 1]) k ∧
    (readyHistory .rr (ops ++ [.dispatch 1]) 1).waited = 2 ∧
    (k.proc 1).totalReadyTime.toNat = (readyHistory .rr (ops ++ [.dispatch 1]) 1).waited := by
  obtain ⟨hrun, hlast, hclock, -, -, -, hwaited, hpromotions⟩ := sleepyChild_run
  have h : Performs .rr ((Uni.boot .rr).trace sleepyChild) _ := .uni (Uni.run_after hrun)
  rw [← List.dropLast_append_getLast? _ hlast] at h hwaited hpromotions hclock
  rw [List.count_append] at hclock
  exact ⟨_, _, h, hwaited, (ready_time_accounting h (by omega)).1.mpr hpromotions⟩

open Uni in
/-- Under MLFQ init forks eight times and uses up its slice, which puts it into the second queue;
then each of the eight children, in the first queue, uses up its slice of one tick. -/
def agingEvents : List Event :=
  [.schedule] ++ [1, 2, 3, 4, 5, 6, 7, 8].flatMap (forkEvents · 0) ++ [.timer true] ++
    (List.replicate 8 [Event.schedule, .timer true]).flatten ++ [.schedule]

/-- Init, runnable since tick 1, is dispatched at tick 9 and its account is still zero: the scan
that selects it has promoted it. -/
lemma agingEvents_run :
    ((Uni.boot .mlfq).run agingEvents).isSome ∧
      ((Uni.boot .mlfq).trace agingEvents).getLast? = some (.dispatch initproc) ∧
      ((Uni.boot .mlfq).trace agingEvents).count .clock = 9 ∧
      (((Uni.boot .mlfq).after agingEvents).k.proc initproc).totalReadyTime = 0 ∧
      (readyHistory .mlfq ((Uni.boot .mlfq).trace agingEvents) initproc).waited = 8 := by
  decide +kernel

/-- **Ready time is not always accounted for**: under MLFQ, aging makes the kernel forget the time a
process has waited. -/
theorem ready_time_accounting_fails :
    ¬ ∀ (pol : SchedPolicy) (ops : List Op) (p : Slot) (k : Kernel),
      Performs pol (ops ++ [.dispatch p]) k → ops.count .clock < 2 ^ 32 →
      (k.proc p).totalReadyTime.toNat = (readyHistory pol (ops ++ [.dispatch p]) p).waited := by
  intro h
  obtain ⟨hrun, hlast, hclock, htotal, hwaited⟩ := agingEvents_run
  have htrace := List.dropLast_append_getLast? _ hlast
  have hperf : Performs .mlfq ((Uni.boot .mlfq).trace agingEvents)
      ((Uni.boot .mlfq).after agingEvents).k := .uni (Uni.run_after hrun)
  rw [← htrace] at hperf hwaited hclock
  have heq := h .mlfq _ initproc _ hperf <| by
    rw [List.count_append] at hclock
    omega
  rw [htotal, hwaited] at heq
  exact absurd heq (by decide)

end Xv6Riscv
