import Xv6Riscv.Lib.Locks
import Xv6Riscv.Lib.Update
import Xv6Riscv.Sync.Wakeup

/-!
Sleep locks (`acquiresleep`, `releasesleep`) as clients of `sleep` and `wakeup`.

`acquiresleep` waits for `locked` to become `0` under the spinlock `lk->lk`, and `releasesleep`, the
only function that clears `locked`, wakes up the waiting processes before it releases the spinlock.
`SleepLockEdge` are the steps of the two functions, `SleepLock.Step` interleaves them for all
processes with every other operation on the process table.

* `SleepLock.Step.refines`: every step is one or two steps of a monitor whose data is the sleep lock
  and whose condition is that it is not locked.
* `SleepLock.chan_ne_of_unlocked`: hence no process waits for a sleep lock that is not locked, while
  its spinlock is free.
-/

namespace Xv6Riscv

open Function (update update_of_ne update_self)

/-- The fields of `struct sleeplock` under the spinlock. -/
structure SleepLockData where
  locked : Bool
  pid : ℤ

/-- Where a process is in `acquiresleep(lk)` or `releasesleep(lk)`. -/
inductive SleepLockPc
  | out
  /-- `acquiresleep`, at the test of the loop -/
  | test
  /-- after `sleep_prepare(lk)` -/
  | prepared
  /-- the spinlock is released, before `sleep()` -/
  | toSleep
  /-- after `sleep()` -/
  | again
  /-- `locked` and `pid` are set -/
  | taken
  /-- between `acquiresleep` and `releasesleep` -/
  | inside
  /-- `releasesleep`, with the spinlock -/
  | held
  /-- in `wakeup(lk)`, about to examine the slot `j` -/
  | waking (j : ℕ)
  deriving DecidableEq

/-- The program counters at which a process holds the spinlock. -/
def SleepLockPc.Holds : SleepLockPc → Prop
  | test | prepared | taken | held | waking _ => True
  | out | toSleep | again | inside => False

/-- What the holder of the spinlock is doing, as a client of a monitor. -/
def SleepLockPc.phase : SleepLockPc → Monitor.Phase
  | prepared => .prepared
  | waking j => .waking j
  | _ => .busy false

/-- The steps of `acquiresleep(lk)` and `releasesleep(lk)` by `p`, where `ch` is the channel `lk`:
what they do to the spinlock, to the process table and to the fields of the sleep lock. -/
inductive SleepLockEdge (ch : Chan) (k : Kernel) (p : Slot) (lk : SleepLockData) :
    SleepLockPc → Locks.Act Unit → Option Op → SleepLockData → SleepLockPc → Prop
  | acquire : SleepLockEdge ch k p lk .out (.acquire ()) none lk .test
  | prepare (h : lk.locked = true) :
      SleepLockEdge ch k p lk .test .none (some (.sleepPrepare p ch)) lk .prepared
  | release : SleepLockEdge ch k p lk .prepared (.release ()) none lk .toSleep
  | sleep : SleepLockEdge ch k p lk .toSleep .none (some (.sleep p)) lk .again
  | reacquire : SleepLockEdge ch k p lk .again (.acquire ()) none lk .test
  | take (h : lk.locked = false) :
      SleepLockEdge ch k p lk .test .none none ⟨true, (k.proc p).pid⟩ .taken
  | releaseTaken : SleepLockEdge ch k p lk .taken (.release ()) none lk .inside
  | enter : SleepLockEdge ch k p lk .inside (.acquire ()) none lk .held
  | clear : SleepLockEdge ch k p lk .held .none none ⟨false, 0⟩ (.waking 0)
  | wake (i : Slot) :
      SleepLockEdge ch k p lk (.waking i) .none (some (.wakeup i (some ch))) lk (.waking (i + 1))
  | releaseWoken : SleepLockEdge ch k p lk (.waking nproc) (.release ()) none lk .out

/-- A sleep lock, its spinlock, the process table, and the processes that use them. -/
structure SleepLock where
  k : Kernel
  lk : SleepLockData
  spin : Unit → Option Slot
  pc : Slot → SleepLockPc

namespace SleepLock

/-- A step of a process in one of the two functions, or any other operation on the table. Only
`acquiresleep` registers processes on the channel. -/
inductive Step (ch : Chan) : SleepLock → SleepLock → Prop
  | edge {s : SleepLock} {p : Slot} {a : Locks.Act Unit} {o : Option Op} {lk : SleepLockData}
      {pc : SleepLockPc} (h : SleepLockEdge ch s.k p s.lk (s.pc p) a o lk pc)
      (ha : a.Enabled s.spin) (ho : ∀ o', o = some o' → o'.Ok s.k) :
      Step ch s ⟨o.elim s.k s.k.apply, lk, a.run p s.spin, update s.pc p pc⟩
  | other {s : SleepLock} {o : Op} (ho : o.Ok s.k) (hprep : ∀ p, o ≠ .sleepPrepare p ch) :
      Step ch s { s with k := s.k.apply o }

/-- Nobody uses the lock and nobody is registered on its channel. -/
def Initial (ch : Chan) (s : SleepLock) : Prop :=
  (∀ p, (s.k.proc p).chan ≠ some ch) ∧ s.spin = (fun _ => none) ∧ ∀ p, s.pc p = .out

/-- The spinlock is held by the processes whose program counters say so. -/
def SpinOk (s : SleepLock) : Prop := Locks.Agrees s.spin fun p _ => (s.pc p).Holds

/-- The sleep lock as a monitor. -/
def toMonitor (s : SleepLock) : Monitor.State Kernel Slot SleepLockData where
  table := s.k
  data := s.lk
  holder := (s.spin ()).map fun p => (p, (s.pc p).phase)
  pending p := s.pc p = .toSleep

variable {ch : Chan} {s s' : SleepLock}

variable {p : Slot}

lemma edge_typed {k : Kernel} {lk lk' : SleepLockData} {pc pc' : SleepLockPc} {a : Locks.Act Unit}
    {o : Option Op} (h : SleepLockEdge ch k p lk pc a o lk' pc') :
    a.Typed (fun _ => pc.Holds) fun _ => pc'.Holds := by
  cases h <;> simp [Locks.Act.Typed, SleepLockPc.Holds]

lemma Step.spinOk (h : s.SpinOk) (hstep : Step ch s s') : s'.SpinOk := by
  cases hstep with
  | @edge p a o lk pc he ha ho =>
    refine Locks.Agrees.step h ha ?_ fun q hq l => ?_
    · simpa only [update_self] using edge_typed he
    · simp only [update_of_ne hq]
  | other => exact h

lemma SpinOk.spin_eq (h : s.SpinOk) (hp : (s.pc p).Holds) : s.spin () = some p :=
  (h () p).mpr hp

lemma SpinOk.holder_eq (h : s.SpinOk) (hp : (s.pc p).Holds) :
    s.toMonitor.holder = some (p, (s.pc p).phase) := by
  rw [toMonitor, h.spin_eq hp]
  rfl

section Update

variable {k : Kernel} {lk : SleepLockData} {spin : Unit → Option Slot} {p : Slot}
  {pc : SleepLockPc}

lemma pending_update (s : SleepLock) (p : Slot) (pc : SleepLockPc) :
    (fun q => decide (update s.pc p pc q = .toSleep))
      = update s.toMonitor.pending p (decide (pc = .toSleep)) :=
  funext (Function.apply_update (fun _ pc => decide (pc = .toSleep)) s.pc p pc)

lemma toMonitor_of_held (s : SleepLock) (h : spin () = some p) :
    toMonitor ⟨k, lk, spin, update s.pc p pc⟩ =
      ⟨k, lk, some (p, pc.phase), update s.toMonitor.pending p (pc = .toSleep)⟩ := by
  show (⟨k, lk, (spin ()).map fun q => (q, (update s.pc p pc q).phase),
    fun q => decide (update s.pc p pc q = .toSleep)⟩ : Monitor.State _ _ _) = _
  rw [h, pending_update, Option.map_some, update_self]

lemma toMonitor_of_free (s : SleepLock) (h : spin () = none) :
    toMonitor ⟨k, lk, spin, update s.pc p pc⟩ =
      ⟨k, lk, none, update s.toMonitor.pending p (pc = .toSleep)⟩ := by
  show (⟨k, lk, (spin ()).map fun q => (q, (update s.pc p pc q).phase),
    fun q => decide (update s.pc p pc q = .toSleep)⟩ : Monitor.State _ _ _) = _
  rw [h, pending_update, Option.map_none]

lemma toMonitor_of_sleep (h : s.pc p = .toSleep) :
    toMonitor ⟨k, lk, s.spin, update s.pc p .again⟩ =
      { s.toMonitor with
        table := k
        data := lk
        pending := update s.toMonitor.pending p false } := by
  have hphase : ∀ q, (update s.pc p .again q).phase = (s.pc q).phase :=
    Upd.map SleepLockPc.phase (by rw [h]; rfl)
  show (⟨k, lk, (s.spin ()).map fun q => (q, (update s.pc p .again q).phase),
    fun q => decide (update s.pc p .again q = .toSleep)⟩ : Monitor.State _ _ _) = _
  simp only [hphase, pending_update]
  rfl

lemma pending_of_ne (h : s.pc p ≠ .toSleep) :
    update s.toMonitor.pending p false = s.toMonitor.pending :=
  Function.update_eq_self_iff.mpr (decide_eq_false h).symm

end Update

/-- The condition `acquiresleep` waits for. -/
def Unlocked (_ : Slot) (lk : SleepLockData) : Prop := lk.locked = false

/-- The monitor of which a sleep lock is an instance. -/
abbrev MonitorStep (ch : Chan) := Monitor.Step (channelWaiters ch) Unlocked

lemma acquire_refines {pc : SleepLockPc} (hfree : s.spin () = none) (hp : s.pc p ≠ .toSleep)
    (hphase : pc.phase = .busy false) (hpc : pc ≠ .toSleep) :
    MonitorStep ch s.toMonitor (toMonitor ⟨s.k, s.lk, (Locks.Act.acquire ()).run p s.spin,
      update s.pc p pc⟩) := by
  rw [Locks.Act.run, toMonitor_of_held s (update_self ..), hphase, decide_eq_false hpc,
    pending_of_ne hp]
  refine .acquire (s := s.toMonitor) ?_ (decide_eq_false hp)
  rw [toMonitor, hfree]
  rfl

/-- **The steps of a sleep lock are steps of a monitor.** -/
theorem Step.refines (h : s.SpinOk) (hstep : Step ch s s') :
    Relation.ReflTransGen (MonitorStep ch) s.toMonitor s'.toMonitor := by
  cases hstep with
  | other ho hprep => exact .single (.other ⟨_, ho, hprep, rfl⟩)
  | @edge p a o lk pc he ha ho =>
    generalize hpc : s.pc p = pc0 at he
    have hholder : pc0.Holds → s.toMonitor.holder = some (p, pc0.phase) := by
      rintro hp
      rw [← hpc] at hp ⊢
      exact h.holder_eq hp
    have hspin : pc0.Holds → s.spin () = some p := fun hp => h.spin_eq (hpc ▸ hp)
    have hne : pc0 ≠ .toSleep → s.pc p ≠ .toSleep := fun hp => hpc ▸ hp
    cases he with
    | acquire | reacquire | enter =>
      exact .single (acquire_refines ha (hne (by simp)) rfl (by simp))
    | prepare hlocked =>
      rw [Locks.Act.run, toMonitor_of_held s (hspin trivial), decide_eq_false (by simp),
        pending_of_ne (hne (by simp))]
      refine .single (.prepare (s := s.toMonitor) (hholder trivial) ?_ ⟨ho _ rfl, rfl⟩)
      exact fun hfree => absurd (hlocked.symm.trans hfree) (by decide)
    | release =>
      rw [Locks.Act.run, toMonitor_of_free s (update_self ..)]
      exact .single (.releasePrepared (s := s.toMonitor) (hholder trivial))
    | sleep =>
      rw [Locks.Act.run, toMonitor_of_sleep hpc]
      exact .single (.sleep (s := s.toMonitor) (decide_eq_true hpc) ⟨ho _ rfl, rfl⟩)
    | take hfree =>
      rw [Locks.Act.run, toMonitor_of_held s (hspin trivial), decide_eq_false (by simp),
        pending_of_ne (hne (by simp))]
      refine .single (.write (s := s.toMonitor) (hholder trivial) id fun q hq => ?_)
      cases hq
    | releaseTaken =>
      rw [Locks.Act.run, toMonitor_of_free s (update_self ..), decide_eq_false (by simp),
        pending_of_ne (hne (by simp))]
      exact .single (.release (s := s.toMonitor) (hholder trivial))
    | clear =>
      -- the holder makes the condition true and starts the wakeup it owes
      rw [Locks.Act.run, toMonitor_of_held s (hspin trivial), decide_eq_false (by simp),
        pending_of_ne (hne (by simp))]
      have hwrite : MonitorStep ch s.toMonitor
          { s.toMonitor with data := ⟨false, 0⟩, holder := some (p, .busy true) } :=
        .write (hholder trivial) (fun _ => rfl) fun _ _ _ => rfl
      exact (Relation.ReflTransGen.single hwrite).tail (.startWake rfl)
    | wake i =>
      rw [Locks.Act.run, toMonitor_of_held s (hspin trivial), decide_eq_false (by simp),
        pending_of_ne (hne (by simp))]
      exact .single (.wake (s := s.toMonitor) (hholder trivial) i.isLt ⟨i, rfl, rfl⟩)
    | releaseWoken =>
      rw [Locks.Act.run, toMonitor_of_free s (update_self ..), decide_eq_false (by simp),
        pending_of_ne (hne (by simp))]
      have hend : MonitorStep ch s.toMonitor
          { s.toMonitor with holder := some (p, .busy false) } := .endWake (hholder trivial)
      exact (Relation.ReflTransGen.single hend).tail (.release rfl)

lemma Initial.spinOk (h : s.Initial ch) : s.SpinOk := by
  intro l p
  simp [h.2.1, h.2.2 p, SleepLockPc.Holds]

lemma Initial.toMonitor (h : s.Initial ch) : Monitor.Initial (channelWaiters ch) s.toMonitor := by
  refine ⟨h.1, ?_, fun p => decide_eq_false (by rw [h.2.2 p]; nofun)⟩
  rw [SleepLock.toMonitor, h.2.1]
  rfl

lemma run_refines (h : s.Initial ch) (hrun : Relation.ReflTransGen (Step ch) s s') :
    s'.SpinOk ∧ Relation.ReflTransGen (MonitorStep ch) s.toMonitor s'.toMonitor := by
  induction hrun with
  | refl => exact ⟨h.spinOk, .refl⟩
  | tail _ hstep ih => exact ⟨hstep.spinOk ih.1, ih.2.trans (hstep.refines ih.1)⟩

/-- **No process waits for a sleep lock that is not locked**, asleep or about to be, while its
spinlock is free. -/
theorem chan_ne_of_unlocked (h : s.Initial ch) (hrun : Relation.ReflTransGen (Step ch) s s')
    (hspin : s'.spin () = none) (hfree : s'.lk.locked = false) (p : Slot) :
    (s'.k.proc p).chan ≠ some ch := by
  intro hchan
  have hholder : s'.toMonitor.holder = none := by
    rw [SleepLock.toMonitor, hspin]
    rfl
  exact Monitor.not_waiting h.toMonitor (run_refines h hrun).2 hholder hchan hfree

end SleepLock

end Xv6Riscv
