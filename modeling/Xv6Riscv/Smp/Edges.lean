import Xv6Riscv.Smp.Machine

/-!
What the edges of the control-flow graphs do.

The locks a CPU holds, the process it owns and the value of `c->proc` are functions of the program
counters. The lemmas of this module say, once for each of the four graphs, how an edge changes
them and which operation it performs; later modules use these lemmas and do not look at the edges
again.
-/

namespace Xv6Riscv

/-! ### What a program counter stands for -/

/-- The locks the thread of `p` holds. -/
def ThreadPc.Holds (p : Slot) : ThreadPc → Lock → Prop
  | forkHold np, l => l = .proc np
  | exitSwtch, l => l = .proc p ∨ l = .wait
  | exitReparent _ _, l | exitWakeInit _ _ _, l | exitWakeParent _ _ _, l | exitZombie _, l
  | waitScan _ _, l | waitPrepare, l | waitRelease, l | waitReturn, l => l = .wait
  | _, _ => False

/-- The locks a CPU holds. -/
def CpuPc.Holds (th : Slot → ThreadPc) : CpuPc → Lock → Prop
  | selected p, l | dispatched p, l | entered p, l | back p, l | releasing p, l => l = .proc p
  | inProc p, l => (th p).Holds p l
  | _, _ => False

/-- The process a CPU has selected and not yet released. -/
def CpuPc.owns : CpuPc → Option Slot
  | selected p | dispatched p | entered p | inProc p | back p | releasing p => some p
  | _ => none

/-- The value of `c->proc`. -/
def CpuPc.current : CpuPc → Option Slot
  | entered p | inProc p | back p => some p
  | _ => none

/-- The slot a thread in `kfork` has allocated. -/
def ThreadPc.child : ThreadPc → Option Slot
  | forkHold np | forkParent np | forkRunnable np => some np
  | _ => none

lemma ThreadPc.not_holds_of_quiet {t : ThreadPc} (h : t.busy = false) (p : Slot) (l : Lock) :
    ¬ t.Holds p l := by
  cases t with
  | run | wake _ _ | kill _ _ | setPrio _ _ _ | forkScan _ | forkParent _ | forkRunnable _ | dead
  | waitSleep | waitAcquire => exact id
  | _ => cases h

/-! ### `scheduler` -/

namespace SchedEdge

variable {k : Kernel} {cur : Cursors} {pc pc' : CpuPc} {mv : Move}

section

variable (h : SchedEdge k cur pc mv pc')

include h

lemma typed (th : Slot → ThreadPc) (hq : ∀ p, pc = .entered p → (th p).busy = false) :
    mv.lock.Typed (pc.Holds th) (pc'.Holds th) := by
  cases h with
  | enter =>
    rename_i p
    have hnot := ThreadPc.not_holds_of_quiet (hq p rfl) p
    simp [Locks.Act.Typed, CpuPc.Holds, hnot]
  | _ => simp [Locks.Act.Typed, CpuPc.Holds]

/-- A CPU comes to own a process by a selection, which takes the lock of a runnable process, and
ceases to own it when it releases the lock at the end. -/
lemma owns :
    pc'.owns = pc.owns ∨ (∃ p, pc = .releasing p ∧ pc' = .loop ∧ mv.op = none) ∨
      ∃ p, pc.owns = none ∧ pc' = .selected p ∧ mv.lock = .acquire (.proc p) ∧
        (k.proc p).state = .runnable := by
  cases h with
  | rrTake hoff h | priorityTake h => exact .inr (.inr ⟨_, rfl, rfl, rfl, h⟩)
  | mlfqTake h hv => exact .inr (.inr ⟨_, rfl, rfl, rfl, (age_state _ _).symm.trans h⟩)
  | release => exact .inr (.inl ⟨_, rfl, rfl, rfl⟩)
  | _ => exact .inl rfl

lemma ne_inProc (p : Slot) : pc ≠ .inProc p := by
  cases h <;> simp

lemma current : mv.cpuProc = none ∧ pc'.current = pc.current ∨ mv.cpuProc = some pc'.current := by
  cases h <;> simp [CpuPc.current]

lemma spawns : mv.spawns = none := by
  cases h <;> rfl

/-- The operations of `scheduler` are agings and the dispatch of the selected process. -/
lemma op {o : Op} (ho : mv.op = some o) :
    (∃ p, o = .dispatch p ∧ pc = .selected p) ∨
      ∃ p, o = .age p ∧ (mv.lock = .within (.proc p) ∨ mv.lock = .acquire (.proc p)) := by
  cases h <;> simp_all

end

end SchedEdge

/-! ### Interrupts -/

namespace IntrEdge

variable {k : Kernel} {boot : Prop} {p : Option Slot} {i i' : IntrPc} {mv : Move}

section

variable (h : IntrEdge k boot p i mv i')

include h

lemma quiet :
    mv.cpuProc = none ∧ mv.spawns = none ∧ (mv.lock = .none ∨ ∃ l, mv.lock = .within l) := by
  cases h <;> simp

lemma op {o : Op} (ho : mv.op = some o) :
    o = .clock ∨ (∃ q, p = some q ∧ o = .tick q) ∨
      ∃ j ch, o = .wakeup j ch ∧ mv.lock = .within (.proc j) := by
  cases h <;> cases ho <;> simp

lemma tick {q : Slot} (ho : mv.op = some (.tick q)) : i = .charge ∧ i' = .charged := by
  cases h <;> simp at ho ⊢

lemma charged (hi : i = .charged) :
    mv.op = none ∧ (i' = .yielding ∨ ∃ q, p = some q ∧ 0 < (k.proc q).timeSlice) := by
  cases h with
  | preemptAlways _ | preemptEmpty _ _ => exact ⟨rfl, .inl rfl⟩
  | preemptScan _ hs => exact ⟨rfl, .inr ⟨_, rfl, hs⟩⟩
  | _ => cases hi

lemma ne_yielding : i ≠ .yielding := by
  cases h <;> simp

end

end IntrEdge

/-! ### Kernel threads -/

/-- What is known of the operation of a thread `p` at `t`: it acts on its own process, on the
slot it has allocated, on a slot it finds in the right state, or examines some slot under its
lock. -/
def ThreadPc.Permits (k : Kernel) (p : Slot) (t : ThreadPc) (lock : Locks.Act Lock) : Op → Prop
  | .allocproc j => (k.proc j).state = .unused ∧ lock = .acquire (.proc j)
  | .freeproc np => t = .forkHold np ∧ lock = .release (.proc np)
  | .runnable np => t = .forkRunnable np ∧ lock = .within (.proc np)
  | .setParent np q => q = p ∧ t = .forkParent np ∧ lock = .within .wait
  | .sleepPrepare q ch =>
    q = p ∧ lock = .within (.proc p) ∧
      (t = .run ∧ (∃ a, ch = .addr a) ∨ t = .waitPrepare ∧ ch = .proc p)
  | .sleep q => q = p ∧ lock = .acquire (.proc p) ∧ (t = .run ∨ t = .waitSleep)
  | .setkilled q => q = p ∧ t = .run ∧ lock = .within (.proc p)
  | .exit q st => q = p ∧ t = .exitZombie st ∧ lock = .acquire (.proc p)
  | .reparent i q => q = p ∧ (∃ st, t = .exitReparent st i) ∧ lock = .none
  | .reap i =>
    (k.proc i).state = .zombie ∧ (k.proc i).parent = some p ∧
      (∃ havekids, t = .waitScan i havekids) ∧ lock = .within (.proc i)
  | .wakeup j _ | .kill j _ | .setPrio j _ _ => lock = .within (.proc j)
  | .age _ | .dispatch _ | .tick _ | .yield _ | .clock | .policySwitch _ => False

namespace ThreadEdge

variable {k : Kernel} {p : Slot} {t t' : ThreadPc} {mv : Move}

section

variable (h : ThreadEdge k p t mv t')

include h

lemma typed : mv.lock.Typed (t.Holds p) (t'.Holds p) := by
  cases h with
  | exitZombie => simp [Locks.Act.Typed, ThreadPc.Holds, or_comm]
  | _ => simp [Locks.Act.Typed, ThreadPc.Holds]

lemma cpuProc : mv.cpuProc = none := by
  cases h <;> rfl

lemma permits {o : Op} (ho : mv.op = some o) : t.Permits k p mv.lock o := by
  cases h <;> cases ho <;> simp_all [ThreadPc.Permits]

lemma child :
    mv.spawns = none ∧ (t'.child = t.child ∨ t'.child = none) ∨
      ∃ j, mv.spawns = some j ∧ mv.op = some (.allocproc j) ∧ t'.child = some j := by
  cases h <;> simp [ThreadPc.child]

lemma child_eq_none {np : Slot} (ho : mv.op = some (.freeproc np) ∨ mv.op = some (.runnable np)) :
    t'.child = none := by
  cases h <;> first | rfl | simp at ho

lemma not_sleep {q : Slot} : mv.op ≠ some (.sleep q) := by
  cases h <;> simp

lemma ne_exitSwtch : t ≠ .exitSwtch := by
  cases h <;> simp

lemma eq_exitSwtch (ht : t' = .exitSwtch) : ∃ st, mv.op = some (.exit p st) := by
  cases h <;> simp at ht ⊢

lemma of_exit {q : Slot} {st : ℤ} (ho : mv.op = some (.exit q st)) : t' = .exitSwtch := by
  cases h <;> simp at ho ⊢

end

end ThreadEdge

namespace SwtchEdge

variable {k : Kernel} {p : Slot} {t t' : ThreadPc} {mv : Move}

section

variable (h : SwtchEdge k p t mv t')

include h

lemma typed : mv.lock.Typed (t.Holds p) (· = .proc p) := by
  cases h with
  | exit =>
    refine ⟨.inr rfl, fun l => ?_⟩
    constructor
    · rintro rfl
      exact ⟨.inl rfl, by simp⟩
    · rintro ⟨rfl | rfl, hne⟩
      · rfl
      · exact absurd rfl hne
  | _ => simp [Locks.Act.Typed, ThreadPc.Holds]

lemma cpuProc : mv.cpuProc = none ∧ mv.spawns = none := by
  cases h <;> exact ⟨rfl, rfl⟩

lemma permits {o : Op} (ho : mv.op = some o) : t.Permits k p mv.lock o := by
  cases h <;> cases ho <;> simp [ThreadPc.Permits]

lemma quiet : t'.busy = false ∧ t'.child = none := by
  cases h <;> exact ⟨rfl, rfl⟩

lemma sleeps_or_exits :
    t ≠ .exitSwtch ∧ mv.op = some (.sleep p) ∧ (k.proc p).chan ≠ none ∨
      t = .exitSwtch ∧ mv.op = none := by
  cases h with
  | sleep h | waitSleep h => exact .inl ⟨by simp, rfl, h⟩
  | exit => exact .inr ⟨rfl, rfl⟩

end

end SwtchEdge

end Xv6Riscv
