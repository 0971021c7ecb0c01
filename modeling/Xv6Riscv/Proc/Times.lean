import Xv6Riscv.Proc.Table

/-!
The times kept of a process.

`Times` is the part of `struct proc` in which the kernel keeps account of ticks, with the state the
account depends on. `TimeChange` lists the ways in which an operation changes it, and
`effect_times` says that there are no others; whatever is proved about ready time and run time goes
through this list.

The accounts only make sense while `ticks`, an `uint`, has not wrapped around. `Op.OkNoWrap` is
`Op.Ok` with that condition, and `legal_noWrap` says that fewer than `2 ^ 32` clock interrupts
ensure it.
-/

namespace Xv6Riscv

/-- The state and the times of a process. -/
structure Times where
  state : ProcState
  readySince : UInt64
  totalReadyTime : UInt64
  runTime : UInt64
  scheduleCount : UInt64
  createTick : UInt64
  firstRunTick : UInt64
  exitTick : UInt64

def Proc.times (p : Proc) : Times where
  state := p.state
  readySince := p.readySince
  totalReadyTime := p.totalReadyTime
  runTime := p.runTime
  scheduleCount := p.scheduleCount
  createTick := p.createTick
  firstRunTick := p.firstRunTick
  exitTick := p.exitTick

/-- The times of a process that has just been allocated. -/
def Times.allocated (now : UInt64) : Times := ⟨.used, now, 0, 0, 0, now, 0, 0⟩

def Times.freed : Times := ⟨.unused, 0, 0, 0, 0, 0, 0, 0⟩

namespace Times

variable (t : Times) (now : UInt64)

def ready : Times := { t with state := .runnable, readySince := now }

def dispatched : Times :=
  { t with
    state := .running
    totalReadyTime := t.totalReadyTime + (now - t.readySince)
    firstRunTick := if t.scheduleCount = 0 then now else t.firstRunTick
    scheduleCount := t.scheduleCount + 1 }

def exited : Times := { t with state := .zombie, exitTick := now }

end Times

/-- The changes of the times of the process in the slot `i`, and the operations that make them. A
change by `ready` is made by the operations that move a process into `RUNNABLE`. -/
inductive TimeChange (k : Kernel) (i : Slot) : Op → Times → Times → Prop
  | allocproc {t : Times} : TimeChange k i (.allocproc i) t (.allocated k.now)
  | freeproc {t : Times} (hs : t.state = .used) : TimeChange k i (.freeproc i) t .freed
  | reap {t : Times} : TimeChange k i (.reap i) t .freed
  | ready {o : Op} {t : Times} (h : StateChange o t.state .runnable) :
      TimeChange k i o t (t.ready k.now)
  | dispatch {t : Times} (hs : t.state = .runnable) :
      TimeChange k i (.dispatch i) t (t.dispatched k.now)
  | tick {t : Times} (hs : t.state = .running) :
      TimeChange k i (.tick i) t { t with runTime := t.runTime + 1 }
  | promote {t : Times} (hs : t.state = .runnable)
      (hold : schedMlfqAgingThreshold ≤ k.now - t.readySince) (h : (k.proc i).Promotes k.now) :
      TimeChange k i (.age i) t { t with readySince := k.now }
  | sleep {t : Times} (hs : t.state = .running) :
      TimeChange k i (.sleep i) t { t with state := .sleeping }
  | exit {t : Times} {st : ℤ} (hs : t.state = .running) :
      TimeChange k i (.exit i st) t (t.exited k.now)
  | keep {o : Op} {t : Times} (halloc : o ≠ .allocproc i) (hdisp : o ≠ .dispatch i)
      (hfree : o ≠ .freeproc i ∧ o ≠ .reap i) (htick : o ≠ .tick i)
      (hage : o = .age i → ¬ (k.proc i).Promotes k.now) : TimeChange k i o t t

variable {k : Kernel} {o : Op}

/-- **The list of changes is complete.** -/
theorem effect_times {i : Slot} (ho : o.Ok k) (hi : o.slot = some i) :
    TimeChange k i o (k.proc i).times (o.effect k (k.proc i)).times := by
  generalize hq : o.effect k (k.proc i) = q
  cases Op.acts hq with
  | keep h => refine .keep ?_ ?_ ⟨?_, ?_⟩ ?_ ?_ <;> rintro rfl <;> exact h.elim
  | allocproc p =>
    cases hi
    exact .allocproc
  | freeproc p =>
    cases hi
    exact .freeproc ho
  | reap p =>
    cases hi
    exact .reap
  | runnable p | yield p =>
    cases hi
    have hs : (k.proc i).times.state = _ := ho
    refine .ready ?_
    rw [hs]
    constructor
  | awake p _ hs | killAwake p _ hs =>
    refine .ready ?_
    show StateChange _ (k.proc i).state _
    rw [hs]
    constructor
  | dispatch p =>
    cases hi
    exact .dispatch ho
  | tick p =>
    cases hi
    exact .tick ho
  | age p he =>
    cases hi
    rw [← he]
    by_cases h : (k.proc i).Promotes k.now
    · rw [Proc.age_of_promotes h]
      exact .promote h.1 h.2.1 h
    · obtain ⟨r, he⟩ := Proc.age_of_not_promotes h
      rw [he]
      exact .keep nofun nofun ⟨nofun, nofun⟩ nofun fun _ => h
  | sleep p =>
    cases hi
    exact .sleep ho
  | exit p st =>
    cases hi
    exact .exit ho
  | _ => exact .keep nofun nofun ⟨nofun, nofun⟩ nofun nofun

lemma apply_times (ho : o.Ok k) (i : Slot) :
    TimeChange k i o (k.proc i).times ((k.apply o).proc i).times := by
  rw [Kernel.apply_proc]
  split_ifs with hi
  · exact effect_times ho hi
  · refine .keep ?_ ?_ ⟨?_, ?_⟩ ?_ ?_ <;> rintro rfl <;> exact absurd rfl hi

/-! ### Runs in which `ticks` does not wrap around -/

/-- The clock has ticks left. -/
def Op.OkNoWrap (k : Kernel) (o : Op) : Prop :=
  o.Ok k ∧ (o = .clock → k.ticks.toNat + 1 < 2 ^ 32)

lemma Kernel.now_toNat (k : Kernel) : k.now.toNat = k.ticks.toNat := rfl

lemma ticks_apply_clock (h : k.ticks.toNat + 1 < 2 ^ 32) :
    (k.apply .clock).ticks.toNat = k.ticks.toNat + 1 := by
  rw [Kernel.apply_ticks_clock, UInt32.toNat_add, UInt32.toNat_one, Nat.mod_eq_of_lt h]

lemma Op.OkNoWrap.ticks (h : o.OkNoWrap k) :
    (k.apply o).ticks.toNat = k.ticks.toNat + if o = .clock then 1 else 0 := by
  split_ifs with ho
  · subst ho
    exact ticks_apply_clock (h.2 rfl)
  · rw [Kernel.apply_ticks_of_ne k ho, Nat.add_zero]

/-- **Fewer than `2 ^ 32` clock interrupts do not wrap `ticks` around.** -/
theorem legal_noWrap {ops : List Op} (h : k.Legal ops)
    (hc : k.ticks.toNat + ops.count .clock < 2 ^ 32) :
    Transition.Legal (fun k o => o.OkNoWrap k) Kernel.apply k ops ∧
      (k.after ops).ticks.toNat = k.ticks.toNat + ops.count .clock := by
  induction ops generalizing k with
  | nil => exact ⟨trivial, rfl⟩
  | cons o ops ih =>
    rw [List.count_cons] at hc ⊢
    have hok : o.OkNoWrap k := by
      refine ⟨h.1, ?_⟩
      rintro rfl
      simp only [beq_self_eq_true, if_true] at hc
      omega
    have ht := hok.ticks
    simp only [beq_iff_eq] at hc ⊢
    obtain ⟨hl, he⟩ := ih h.2 (by omega)
    refine ⟨⟨hok, hl⟩, ?_⟩
    rw [Kernel.after, List.foldl_cons, he]
    omega

end Xv6Riscv
