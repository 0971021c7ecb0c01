import Xv6Riscv.Proc.Table

/-!
The scheduling counters (`ready_count`, `schedule_count`, `wait_count`) and `ksys_stat`.

Each transition of a process bumps its own counter in a different function. A process becomes
runnable at its creation, at its yields, and after each of its sleeps when it is woken or killed;
it stops being runnable when it is dispatched. `Life` remembers of a slot, since it was last
allocated, whether its process has been made runnable and how often it has yielded, and
`CountersOk` is what the counters then are.

Counters are `uint64` and may wrap around; the balance is one of 64-bit arithmetic.
-/

namespace Xv6Riscv

/-- The part of the history of a slot since its last allocation that the counters reflect. -/
structure Life where
  /-- the process has been made runnable -/
  made : Bool
  yields : ℕ

/-- A slot with no process, or with one that has not been made runnable. -/
def Life.fresh : Life := ⟨false, 0⟩

/-- The history of a slot after an operation on it. -/
def Life.step (g : Life) : Op → Life
  | .allocproc _ | .freeproc _ | .reap _ => .fresh
  | .runnable _ => { g with made := true }
  | .yield _ => { g with yields := g.yields + 1 }
  | _ => g

/-- The histories of all slots after an operation. -/
def lifeStep (g : Slot → Life) (_ : Kernel) (o : Op) : Slot → Life :=
  fun i => if o.slot = some i then (g i).step o else g i

/-- The histories of all slots after a sequence of operations from `procinit`. -/
def lives (pol : SchedPolicy) (ops : List Op) : Slot → Life :=
  Transition.track Kernel.apply lifeStep (fun _ => .fresh) (procinit pol) ops

/-- `1` in the state `s` and `0` in the others. -/
def Proc.inState (p : Proc) (s : ProcState) : UInt64 := if p.state = s then 1 else 0

/-- The balance of the counters of a process. -/
structure CountersOk (p : Proc) (g : Life) : Prop where
  fresh : p.state = .unused ∨ p.state = .used →
    p.readyCount = 0 ∧ p.scheduleCount = 0 ∧ p.waitCount = 0 ∧ g = .fresh
  scheduled : p.readyCount = p.scheduleCount + p.inState .runnable
  ready : g.made → p.readyCount = 1 + UInt64.ofNat g.yields + p.waitCount - p.inState .sleeping

namespace CountersOk

variable {p q : Proc} {g : Life}

lemma congr (h : CountersOk p g) (hs : q.state = p.state) (hr : q.readyCount = p.readyCount)
    (hd : q.scheduleCount = p.scheduleCount) (hw : q.waitCount = p.waitCount) : CountersOk q g := by
  have hin : ∀ s, q.inState s = p.inState s := fun s => by rw [Proc.inState, Proc.inState, hs]
  exact
    { fresh := by rw [hs, hr, hd, hw]; exact h.fresh
      scheduled := by rw [hr, hd, hin]; exact h.scheduled
      ready := by rw [hr, hw, hin]; exact h.ready }

lemma of_fresh (hs : p.state = .unused ∨ p.state = .used) (hr : p.readyCount = 0)
    (hd : p.scheduleCount = 0) (hw : p.waitCount = 0) : CountersOk p .fresh where
  fresh _ := ⟨hr, hd, hw, rfl⟩
  scheduled := by
    rw [hr, hd, Proc.inState, if_neg (by rcases hs with hs | hs <;> rw [hs] <;> decide)]
    rfl
  ready h := by cases h

lemma makeRunnable (now : UInt64) (h : CountersOk p g) (hs : p.state = .used) :
    CountersOk (p.makeRunnable now) { g with made := true } := by
  obtain ⟨hr, hd, hw, rfl⟩ := h.fresh (.inr hs)
  refine ⟨fun hf => hf.elim nofun nofun, ?_, fun _ => ?_⟩
  · show p.readyCount + 1 = p.scheduleCount + 1
    rw [hr, hd]
  · show p.readyCount + 1 = 1 + UInt64.ofNat 0 + p.waitCount - 0
    rw [hr, hw]
    rfl

section

variable (pol : SchedPolicy) (now : UInt64) (h : CountersOk p g)

include pol now h

lemma wake (hs : p.state = .sleeping) : CountersOk (p.wake pol now) g := by
  obtain ⟨l, t, he⟩ := p.wake_spec pol now
  rw [he]
  have hd := h.scheduled
  have hr := h.ready
  rw [Proc.inState, if_neg (by rw [hs]; decide)] at hd
  rw [Proc.inState, if_pos hs] at hr
  refine ⟨fun hf => hf.elim nofun nofun, ?_, fun hm => ?_⟩
  · show p.readyCount + 1 = p.scheduleCount + 1
    rw [hd, UInt64.add_zero]
  · show p.readyCount + 1 = 1 + UInt64.ofNat g.yields + p.waitCount - 0
    rw [hr hm]
    grind

lemma yield (hs : p.state = .running) :
    CountersOk (p.yield pol now) { g with yields := g.yields + 1 } := by
  obtain ⟨l, t, r, he⟩ := p.yield_spec pol now
  rw [he]
  have hd := h.scheduled
  have hr := h.ready
  rw [Proc.inState, if_neg (by rw [hs]; decide)] at hd hr
  refine ⟨fun hf => hf.elim nofun nofun, ?_, fun hm => ?_⟩
  · show p.readyCount + 1 = p.scheduleCount + 1
    rw [hd, UInt64.add_zero]
  · show p.readyCount + 1 = 1 + UInt64.ofNat (g.yields + 1) + p.waitCount - 0
    rw [hr hm, UInt64.ofNat_add]
    grind

lemma dispatch (hs : p.state = .runnable) : CountersOk (p.dispatch pol now) g := by
  have hd := h.scheduled
  have hr := h.ready
  rw [Proc.inState, if_pos hs] at hd
  rw [Proc.inState, if_neg (by rw [hs]; decide)] at hr
  refine ⟨fun hf => hf.elim nofun nofun, ?_, fun hm => hr hm⟩
  show p.readyCount = p.scheduleCount + 1 + 0
  rw [hd, UInt64.add_zero]

end

lemma sleep (h : CountersOk p g) (hs : p.state = .running) :
    CountersOk { p with waitCount := p.waitCount + 1, state := .sleeping } g := by
  have hd := h.scheduled
  have hr := h.ready
  rw [Proc.inState, if_neg (by rw [hs]; decide)] at hd hr
  refine ⟨fun hf => hf.elim nofun nofun, hd, fun hm => ?_⟩
  show p.readyCount = 1 + UInt64.ofNat g.yields + (p.waitCount + 1) - 1
  rw [hr hm]
  grind

lemma exit (now : UInt64) (st : ℤ) (h : CountersOk p g) (hs : p.state = .running) :
    CountersOk (p.exit now st) g := by
  have hd := h.scheduled
  have hr := h.ready
  rw [Proc.inState, if_neg (by rw [hs]; decide)] at hd hr
  exact ⟨fun hf => hf.elim nofun nofun, hd, hr⟩

end CountersOk

/-- **One operation keeps the balance of its process.** -/
theorem effect_countersOk {k : Kernel} {o : Op} {i : Slot} {g : Life} (ho : o.Ok k)
    (hi : o.slot = some i) (h : CountersOk (k.proc i) g) :
    CountersOk (o.effect k (k.proc i)) (g.step o) := by
  generalize hq : o.effect k (k.proc i) = q
  cases Op.acts hq with
  | keep hkeep =>
    cases o with
    | sleep | wakeup | kill | setPrio | reparent | clock | policySwitch => exact h
    | _ => exact hkeep.elim
  | allocproc p => exact .of_fresh (.inr rfl) rfl rfl rfl
  | freeproc p | reap p => exact .of_fresh (.inl rfl) rfl rfl rfl
  | runnable p =>
    cases hi
    exact h.makeRunnable k.now ho
  | dispatch p =>
    cases hi
    exact h.dispatch k.policy k.now ho
  | yield p he =>
    cases hi
    rw [← he]
    exact h.yield k.policy k.now ho
  | sleep p hch =>
    cases hi
    exact h.sleep ho
  | exit p st =>
    cases hi
    exact h.exit k.now st ho
  | awake p _ hs he | killAwake p _ hs he =>
    rw [← he]
    refine .wake _ _ ?_ hs
    exact h.congr rfl rfl rfl rfl
  | _ => exact h.congr rfl rfl rfl rfl

/-- **The balance holds after every legal sequence of operations.** -/
theorem countersOk_after {pol : SchedPolicy} {ops : List Op} (h : (procinit pol).Legal ops) :
    ∀ i, CountersOk (((procinit pol).after ops).proc i) (lives pol ops i) := by
  refine Transition.track_invariant
    (I := fun (k : Kernel) (g : Slot → Life) => ∀ i, CountersOk (k.proc i) (g i))
    ?_ (fun i => .of_fresh (.inl rfl) rfl rfl rfl) h
  intro k g o hk ho i
  rw [Kernel.apply_proc, lifeStep]
  split_ifs with hi
  · exact effect_countersOk ho hi (hk i)
  · exact hk i

/-! ### `ksys_stat` -/

/-- `struct sched_stat`. -/
structure SchedStat where
  currentPolicy : SchedPolicy
  processCount : ℕ
  runnableCount : ℕ
  runningCount : ℕ
  sleepingCount : ℕ
  zombieCount : ℕ
  totalRunTime : UInt64
  totalReadyCount : UInt64
  totalReadyTicks : UInt64
  totalReadyTime : UInt64
  totalWaitCount : UInt64
  totalScheduleCount : UInt64
  totalStateStat : ProcState → UInt64

/-- The `struct sched_stat` before the loop of `ksys_stat`. -/
def SchedStat.zero (pol : SchedPolicy) : SchedStat where
  currentPolicy := pol
  processCount := 0
  runnableCount := 0
  runningCount := 0
  sleepingCount := 0
  zombieCount := 0
  totalRunTime := 0
  totalReadyCount := 0
  totalReadyTicks := 0
  totalReadyTime := 0
  totalWaitCount := 0
  totalScheduleCount := 0
  totalStateStat := fun _ => 0

/-- One turn of the loop of `ksys_stat`. -/
def SchedStat.add (stat : SchedStat) (p : Proc) : SchedStat :=
  if p.state ≠ .unused then
    let stat := { stat with processCount := stat.processCount + 1 }
    let stat := match p.state with
      | .runnable => { stat with runnableCount := stat.runnableCount + 1 }
      | .running => { stat with runningCount := stat.runningCount + 1 }
      | .sleeping => { stat with sleepingCount := stat.sleepingCount + 1 }
      | .zombie => { stat with zombieCount := stat.zombieCount + 1 }
      | .unused | .used => stat
    { stat with
      totalRunTime := stat.totalRunTime + p.runTime
      totalReadyCount := stat.totalReadyCount + p.readyCount
      totalReadyTicks := stat.totalReadyTicks + p.readyTicks
      totalReadyTime := stat.totalReadyTime + p.totalReadyTime
      totalWaitCount := stat.totalWaitCount + p.waitCount
      totalScheduleCount := stat.totalScheduleCount + p.scheduleCount
      totalStateStat := fun s => stat.totalStateStat s + p.stateStat s }
  else stat

/-- `ksys_stat`, with no step between the slots of its loop. -/
def ksysStat (k : Kernel) : SchedStat :=
  (List.finRange nproc).foldl (fun stat i => stat.add (k.proc i)) (SchedStat.zero k.policy)

namespace SchedStat

variable (stat : SchedStat) {p : Proc}

lemma add_totalReadyCount (h : p.state ≠ .unused) :
    (stat.add p).totalReadyCount = stat.totalReadyCount + p.readyCount := by
  rw [add, if_pos h]
  cases p.state <;> rfl

lemma add_totalScheduleCount (h : p.state ≠ .unused) :
    (stat.add p).totalScheduleCount = stat.totalScheduleCount + p.scheduleCount := by
  rw [add, if_pos h]
  cases p.state <;> rfl

lemma add_runnableCount :
    (stat.add p).runnableCount = stat.runnableCount + if p.state = .runnable then 1 else 0 := by
  rw [add]
  cases p.state <;> rfl

/-- The totals differ by the number of runnable processes. -/
def Balanced : Prop :=
  stat.totalReadyCount = stat.totalScheduleCount + UInt64.ofNat stat.runnableCount

variable {stat}

lemma Balanced.add (h : stat.Balanced)
    (hp : p.readyCount = p.scheduleCount + p.inState .runnable) : (stat.add p).Balanced := by
  by_cases hu : p.state = .unused
  · rwa [SchedStat.add, if_neg (not_not.mpr hu)]
  · rw [Balanced] at h
    rw [Balanced, add_totalReadyCount stat hu, add_totalScheduleCount stat hu, add_runnableCount,
      UInt64.ofNat_add, hp, h, Proc.inState]
    split_ifs
    · show _ = _ + (_ + (1 : UInt64))
      grind
    · show _ = _ + (_ + (0 : UInt64))
      grind

lemma runnableCount_foldl_le (proc : Slot → Proc) (l : List Slot) (stat : SchedStat) :
    (l.foldl (fun stat i => stat.add (proc i)) stat).runnableCount
      ≤ stat.runnableCount + l.length := by
  induction l generalizing stat with
  | nil => exact le_refl _
  | cons i l ih =>
    have hle : (stat.add (proc i)).runnableCount ≤ stat.runnableCount + 1 := by
      rw [add_runnableCount]
      split_ifs <;> omega
    have := ih (stat.add (proc i))
    rw [List.foldl_cons, List.length_cons]
    omega

lemma Balanced.foldl {proc : Slot → Proc}
    (hp : ∀ i, (proc i).readyCount = (proc i).scheduleCount + (proc i).inState .runnable)
    (l : List Slot) (h : stat.Balanced) :
    (l.foldl (fun stat i => stat.add (proc i)) stat).Balanced := by
  induction l generalizing stat with
  | nil => exact h
  | cons i l ih => exact ih (h.add (hp i))

end SchedStat

/-- **The totals of `ksys_stat` differ by what it reports as runnable.** -/
theorem ksysStat_balance {k : Kernel}
    (hk : ∀ i, (k.proc i).readyCount = (k.proc i).scheduleCount + (k.proc i).inState .runnable) :
    ((ksysStat k).totalReadyCount - (ksysStat k).totalScheduleCount).toNat
      = (ksysStat k).runnableCount := by
  have hbal : (ksysStat k).Balanced :=
    SchedStat.Balanced.foldl hk (List.finRange nproc) (rfl : (SchedStat.zero k.policy).Balanced)
  have hle : (ksysStat k).runnableCount ≤ 64 := by
    have := SchedStat.runnableCount_foldl_le k.proc (List.finRange nproc) (.zero k.policy)
    rw [List.length_finRange] at this
    exact this.trans (by rw [nproc_eq]; exact le_refl 64)
  have hdiff : (ksysStat k).totalReadyCount - (ksysStat k).totalScheduleCount
      = UInt64.ofNat (ksysStat k).runnableCount := by
    rw [hbal]
    grind
  rw [hdiff, UInt64.toNat_ofNat_of_lt' (hle.trans_lt (by decide))]

end Xv6Riscv
