import Xv6Riscv.Proc.Times
import Xv6Riscv.Uni.Kernel
import Xv6Riscv.Lib.Update

/-!
The time budget of a process on one CPU.

A process has run for `run_time` ticks, has waited for `total_ready_time` ticks and, if it is
runnable, is waiting since `ready_since`; all of that happened since `create_tick`. `BudgetOk` says
so, together with the order of `create_tick`, `first_run_tick` and `exit_tick`.

* `BudgetOk.change`: every change of the times of a process keeps the budget, except that a charged
  tick needs a tick that has not been accounted for. On one CPU there is one: the handler that
  charges has just incremented `ticks`, while the process was running (`budget_timer`).
* `ran_apply`: the run times of all processes, those already freed included, grow with the charged
  ticks only, and no handler charges more ticks than it counts (`charges_le_clocks`).
* `time_budget` is the result for runs from boot.
-/

namespace Xv6Riscv

/-- What a process has used of the time since its creation, at the tick `now`. -/
def Times.spent (now : ℕ) (t : Times) : ℕ :=
  t.runTime.toNat + t.totalReadyTime.toNat
    + if t.state = .runnable then now - t.readySince.toNat else 0

/-- The budget of a process at the tick `now`. -/
structure BudgetOk (now : ℕ) (t : Times) : Prop where
  spent_le : t.state ≠ .unused → t.createTick.toNat + t.spent now ≤ now
  since_le : t.state = .runnable → t.readySince.toNat ≤ now
  fresh : t.state = .used → t.scheduleCount = 0
  /-- a process that is running, sleeping or ended has run, and so has one scheduled before -/
  firstRun : t.state = .running ∨ t.state = .sleeping ∨ t.state = .zombie ∨
      t.state = .runnable ∧ t.scheduleCount ≠ 0 →
    t.createTick.toNat ≤ t.firstRunTick.toNat ∧ t.firstRunTick.toNat ≤ now
  exited : t.state = .zombie → t.firstRunTick.toNat ≤ t.exitTick.toNat ∧
      t.createTick.toNat + (t.runTime.toNat + t.totalReadyTime.toNat) ≤ t.exitTick.toNat

namespace BudgetOk

variable {now : ℕ} {n : UInt64} {t : Times}

lemma of_unused (hs : t.state = .unused) : BudgetOk now t where
  spent_le h := absurd hs h
  since_le h := absurd (hs.symm.trans h) (by decide)
  fresh h := absurd (hs.symm.trans h) (by decide)
  firstRun h := by
    rw [hs] at h
    rcases h with h | h | h | ⟨h, -⟩ <;> cases h
  exited h := absurd (hs.symm.trans h) (by decide)

lemma allocated (n : UInt64) : BudgetOk n.toNat (.allocated n) where
  spent_le _ := le_refl _
  since_le h := by cases h
  fresh _ := rfl
  firstRun h := by rcases h with h | h | h | ⟨h, -⟩ <;> cases h
  exited h := by cases h

lemma succ (h : BudgetOk now t) : BudgetOk (now + 1) t where
  spent_le hu := by
    have hle := h.spent_le hu
    rw [Times.spent] at hle ⊢
    split_ifs at hle ⊢ with hs
    · have := h.since_le hs
      omega
    · omega
  since_le hs := (h.since_le hs).trans (Nat.le_succ _)
  __ := h
  firstRun hs := ⟨(h.firstRun hs).1, (h.firstRun hs).2.trans (Nat.le_succ _)⟩

lemma ready (h : BudgetOk n.toNat t)
    (hs : t.state = .used ∨ t.state = .running ∨ t.state = .sleeping) :
    BudgetOk n.toNat (t.ready n) where
  spent_le _ := by
    have hu : t.state ≠ .unused ∧ t.state ≠ .runnable := by
      rcases hs with hs | hs | hs <;> rw [hs] <;> decide
    have hle := h.spent_le hu.1
    rw [Times.spent, if_neg hu.2] at hle
    show t.createTick.toNat + (t.runTime.toNat + t.totalReadyTime.toNat + (n.toNat - n.toNat))
      ≤ n.toNat
    omega
  since_le _ := le_refl _
  fresh hu := by cases hu
  firstRun hr := by
    rcases hs with hs | hs | hs
    · rcases hr with hr | hr | hr | ⟨-, hr⟩
      · cases hr
      · cases hr
      · cases hr
      · exact absurd (h.fresh hs) hr
    · exact h.firstRun (.inl hs)
    · exact h.firstRun (.inr (.inl hs))
  exited hz := by cases hz

lemma dispatched (hn : n.toNat < 2 ^ 32) (h : BudgetOk n.toNat t) (hs : t.state = .runnable) :
    BudgetOk n.toNat (t.dispatched n) where
  spent_le _ := by
    have hle := h.spent_le (by rw [hs]; decide)
    have hsince := h.since_le hs
    rw [Times.spent, if_pos hs] at hle
    have hsub : (n - t.readySince).toNat = n.toNat - t.readySince.toNat :=
      UInt64.toNat_sub_of_le _ _ (UInt64.le_iff_toNat_le.mpr hsince)
    have hadd : (t.totalReadyTime + (n - t.readySince)).toNat
        = t.totalReadyTime.toNat + (n.toNat - t.readySince.toNat) := by
      rw [UInt64.toNat_add, hsub]
      exact Nat.mod_eq_of_lt (by omega)
    show t.createTick.toNat
        + (t.runTime.toNat + (t.totalReadyTime + (n - t.readySince)).toNat + 0) ≤ n.toNat
    rw [hadd]
    omega
  since_le hr := by cases hr
  fresh hu := by cases hu
  firstRun _ := by
    show t.createTick.toNat ≤ (if t.scheduleCount = 0 then n else t.firstRunTick).toNat ∧
      (if t.scheduleCount = 0 then n else t.firstRunTick).toNat ≤ n.toNat
    have hle := h.spent_le (by rw [hs]; decide)
    split_ifs with h0
    · exact ⟨by omega, le_refl _⟩
    · exact h.firstRun (.inr (.inr (.inr ⟨hs, h0⟩)))
  exited hz := by cases hz

lemma charged (hn : now < 2 ^ 32) (h : BudgetOk now t) (hs : t.state = .running)
    (hdue : t.createTick.toNat + t.spent now + 1 ≤ now) :
    BudgetOk now { t with runTime := t.runTime + 1 } where
  spent_le _ := by
    have hrun : t.state ≠ .runnable := by rw [hs]; decide
    rw [Times.spent, if_neg hrun] at hdue
    have hadd : (t.runTime + 1).toNat = t.runTime.toNat + 1 := by
      rw [UInt64.toNat_add]
      exact Nat.mod_eq_of_lt (by show t.runTime.toNat + 1 < 2 ^ 64; omega)
    rw [Times.spent, if_neg hrun]
    show t.createTick.toNat + ((t.runTime + 1).toNat + t.totalReadyTime.toNat + 0) ≤ now
    rw [hadd]
    omega
  __ := h
  exited hz := absurd (hs.symm.trans hz) (by decide)

lemma promoted (h : BudgetOk n.toNat t) (hs : t.state = .runnable) :
    BudgetOk n.toNat { t with readySince := n } where
  spent_le hu := by
    have hle := h.spent_le hu
    rw [Times.spent, if_pos hs] at hle
    rw [Times.spent, if_pos hs]
    show t.createTick.toNat + (t.runTime.toNat + t.totalReadyTime.toNat + (n.toNat - n.toNat))
      ≤ n.toNat
    omega
  since_le _ := le_refl _
  __ := h

lemma slept (h : BudgetOk now t) (hs : t.state = .running) :
    BudgetOk now { t with state := .sleeping } where
  spent_le _ := by
    have hle := h.spent_le (by rw [hs]; decide)
    rw [Times.spent, if_neg (by rw [hs]; decide)] at hle
    exact hle
  since_le hr := by cases hr
  fresh hu := by cases hu
  firstRun _ := h.firstRun (.inl hs)
  exited hz := by cases hz

lemma exit (h : BudgetOk n.toNat t) (hs : t.state = .running) : BudgetOk n.toNat (t.exited n) := by
  have hle := h.spent_le (by rw [hs]; decide)
  rw [Times.spent, if_neg (by rw [hs]; decide)] at hle
  have hfirst := h.firstRun (.inl hs)
  exact
    { spent_le := fun _ => hle
      since_le := fun hr => by cases hr
      fresh := fun hu => by cases hu
      firstRun := fun _ => hfirst
      exited := fun _ => ⟨hfirst.2, hle⟩ }

/-- **Every change of the times of a process keeps its budget**, a charge if a tick is due. -/
theorem change {k : Kernel} {i : Slot} {o : Op} {t' : Times} (h : BudgetOk k.now.toNat t)
    (hdue : o = .tick i → t.createTick.toNat + t.spent k.now.toNat + 1 ≤ k.now.toNat)
    (hch : TimeChange k i o t t') : BudgetOk k.now.toNat t' := by
  cases hch with
  | allocproc => exact .allocated k.now
  | freeproc | reap => exact .of_unused rfl
  | ready hc =>
    refine h.ready ?_
    generalize t.state = s at hc
    cases hc with
    | runnable => exact .inl rfl
    | yield => exact .inr (.inl rfl)
    | wakeup | kill => exact .inr (.inr rfl)
  | dispatch hs => exact h.dispatched k.ticks.toNat_lt hs
  | tick hs => exact h.charged k.ticks.toNat_lt hs (hdue rfl)
  | promote hs => exact h.promoted hs
  | sleep hs => exact h.slept hs
  | exit hs => exact h.exit hs
  | keep => exact h

end BudgetOk

/-! ### The process table -/

def Kernel.BudgetsOk (k : Kernel) : Prop := ∀ i, BudgetOk k.now.toNat (k.proc i).times

/-- The process `p` is running and has not been charged for the last tick. -/
def Kernel.Due (k : Kernel) (p : Slot) : Prop :=
  (k.proc p).state = .running ∧
    (k.proc p).times.createTick.toNat + (k.proc p).times.spent k.now.toNat + 1 ≤ k.now.toNat

variable {k : Kernel} {o : Op}

lemma Kernel.BudgetsOk.apply (h : k.BudgetsOk) (ho : o.Ok k) (hclock : o ≠ .clock)
    (hdue : ∀ p, o = .tick p → k.Due p) : (k.apply o).BudgetsOk := by
  intro i
  rw [Kernel.apply_now_of_ne k hclock]
  exact (h i).change (fun he => (hdue i he).2) (apply_times ho i)

/-- The clock leaves every process as it is, and every running one has a tick to be charged. -/
lemma Kernel.BudgetsOk.clock (h : k.BudgetsOk) (hw : k.ticks.toNat + 1 < 2 ^ 32) :
    (k.apply .clock).BudgetsOk ∧ ∀ p, (k.proc p).state = .running → (k.apply .clock).Due p := by
  have hnow : (k.apply .clock).now.toNat = k.now.toNat + 1 := ticks_apply_clock hw
  have hproc : ∀ i, (k.apply .clock).proc i = k.proc i := fun i => rfl
  refine ⟨fun i => ?_, fun p hp => ⟨hp, ?_⟩⟩
  · rw [hnow, hproc]
    exact (h i).succ
  · have hs : (k.proc p).times.state = .running := hp
    have hle := (h p).spent_le (by rw [hs]; decide)
    rw [hnow, hproc]
    rw [Times.spent, if_neg (by rw [hs]; decide)] at hle ⊢
    omega

lemma Kernel.Due.wakeup {p i : Slot} {ch : Option Chan} (h : k.Due p) :
    (k.apply (.wakeup i ch)).Due p := by
  have hs : (k.proc p).times.state = .running := h.1
  have hsame : ((k.apply (.wakeup i ch)).proc p).times = (k.proc p).times := by
    have hch := apply_times (k := k) (o := .wakeup i ch) trivial p
    generalize (k.proc p).times = t at hch hs
    generalize ((k.apply (.wakeup i ch)).proc p).times = t' at hch
    cases hch with
    | ready hc =>
      rw [hs] at hc
      cases hc
    | keep => rfl
  have hstate : ((k.apply (.wakeup i ch)).proc p).state = .running := by
    have : ((k.apply (.wakeup i ch)).proc p).times.state = .running := by rw [hsame, hs]
    exact this
  refine ⟨hstate, ?_⟩
  rw [hsame, Kernel.apply_now_of_ne k (by simp)]
  exact h.2

/-- Operations that neither count a tick nor charge one. -/
def Op.Untimed (o : Op) : Prop := o ≠ .clock ∧ ∀ p, o ≠ .tick p

lemma Kernel.BudgetsOk.after_untimed {ops : List Op} (h : k.BudgetsOk) (hl : k.Legal ops)
    (hops : ∀ o ∈ ops, o.Untimed) : (k.after ops).BudgetsOk :=
  Kernel.Reach.invariant ⟨ops, hl, rfl, hops⟩ h fun _ _ hk ho hu =>
    hk.apply ho hu.1 fun p hp => absurd hp (hu.2 p)

lemma budgetsOk_bootKernel (pol : SchedPolicy) : (bootKernel pol).BudgetsOk := by
  have h0 : (procinit pol).BudgetsOk := fun i => .of_unused rfl
  refine h0.after_untimed (userinit_legal pol) fun o ho => ?_
  rcases List.mem_pair.mp ho with rfl | rfl <;> exact ⟨nofun, nofun⟩

/-! ### Run times of all processes -/

/-- The operations that charge a tick. -/
def Op.charges : Op → Bool
  | tick _ => true
  | _ => false

/-- The run times of the processes whose slots have been freed, added up. -/
def retiredStep (r : ℕ) (k : Kernel) : Op → ℕ
  | .freeproc p | .reap p => r + (k.proc p).runTime.toNat
  | _ => r

/-- The same after a sequence of operations from boot. -/
def retiredRunTime (pol : SchedPolicy) (ops : List Op) : ℕ :=
  Transition.track Kernel.apply retiredStep 0 (bootKernel pol) ops

/-- The run times of the processes in the table, added up. -/
def Kernel.totalRunTime (k : Kernel) : ℕ := ∑ i, (k.proc i).runTime.toNat

lemma retiredStep_add (r : ℕ) (k : Kernel) (o : Op) :
    retiredStep r k o = r + retiredStep 0 k o := by
  cases o <;> simp [retiredStep]

/-- What an operation takes from the table goes to the freed processes, and only a charge adds
to it. -/
lemma runTime_effect {i : Slot} (ho : o.Ok k) (hi : o.slot = some i) :
    (o.effect k (k.proc i)).runTime.toNat + retiredStep 0 k o
      ≤ (k.proc i).runTime.toNat + if o.charges then 1 else 0 := by
  have hch := effect_times ho hi
  have hrt : (k.proc i).times.runTime = (k.proc i).runTime := rfl
  have hrt' : (o.effect k (k.proc i)).times.runTime = (o.effect k (k.proc i)).runTime := rfl
  rw [← hrt']
  generalize (k.proc i).times = t at hch hrt
  generalize (o.effect k (k.proc i)).times = t' at hch
  rw [← hrt]
  cases hch with
  | allocproc => exact Nat.zero_le _
  | freeproc | reap =>
    show 0 + (0 + (k.proc i).runTime.toNat) ≤ t.runTime.toNat + 0
    rw [hrt]
    omega
  | ready hc =>
    generalize t.state = s at hc
    cases hc <;> exact le_refl _
  | dispatch | promote | sleep | exit => exact le_refl _
  | tick =>
    show (t.runTime + 1).toNat + 0 ≤ t.runTime.toNat + 1
    rw [UInt64.toNat_add, Nat.add_zero]
    exact Nat.mod_le _ _
  | keep _ _ hfree _ _ =>
    have hzero : retiredStep 0 k o = 0 := by
      cases o with
      | freeproc p =>
        cases hi
        exact absurd rfl hfree.1
      | reap p =>
        cases hi
        exact absurd rfl hfree.2
      | _ => rfl
    rw [hzero]
    exact Nat.le_add_right _ _

/-- **Run times grow with the charged ticks only.** -/
lemma totalRunTime_apply (ho : o.Ok k) (r : ℕ) :
    (k.apply o).totalRunTime + retiredStep r k o
      ≤ k.totalRunTime + r + if o.charges then 1 else 0 := by
  rw [retiredStep_add]
  cases hslot : o.slot with
  | none =>
    have hsame : (k.apply o).totalRunTime = k.totalRunTime :=
      Finset.sum_congr rfl fun i _ => by
        rw [Kernel.apply_proc_of_ne k o (by rw [hslot]; simp)]
    have hzero : retiredStep 0 k o = 0 := by
      cases o <;> first | rfl | cases hslot
    omega
  | some p =>
    have hsum := Upd.sum_of_ne (f := fun i => (k.proc i).runTime.toNat)
      (g := fun i => ((k.apply o).proc i).runTime.toNat) (p := p) fun i hi => by
        rw [Kernel.apply_proc_of_ne k o (by rw [hslot]; simpa using Ne.symm hi)]
    have heff := runTime_effect ho hslot
    rw [← Kernel.apply_proc_self k o hslot] at heff
    simp only [Kernel.totalRunTime]
    omega

lemma totalRunTime_after {ops : List Op} (h : k.Legal ops) (r : ℕ) :
    (k.after ops).totalRunTime + Transition.track Kernel.apply retiredStep r k ops
      ≤ k.totalRunTime + r + ops.countP Op.charges := by
  induction ops generalizing k r with
  | nil => exact le_refl _
  | cons o ops ih =>
    have hstep := totalRunTime_apply h.1 r
    have hrest := ih h.2 (retiredStep r k o)
    rw [List.countP_cons, Transition.track_cons, Kernel.after, List.foldl_cons]
    rw [Kernel.after] at hrest
    omega

lemma totalRunTime_bootKernel (pol : SchedPolicy) : (bootKernel pol).totalRunTime = 0 := by
  have hboot := totalRunTime_after (userinit_legal pol) 0
  have hzero : (procinit pol).totalRunTime = 0 := Finset.sum_eq_zero fun i _ => rfl
  have hcharges : userinit.countP Op.charges = 0 := rfl
  rw [hzero, hcharges] at hboot
  show ((procinit pol).after userinit).totalRunTime = 0
  omega

/-! ### One CPU -/

namespace Uni

variable {u v : Uni} {e : Event} {es : List Event} {pol : SchedPolicy}

lemma untimed_of_ofScheduler (h : o.OfScheduler) : o.Untimed := by
  cases o with
  | age p | dispatch p => exact ⟨by simp, by simp⟩
  | _ => exact absurd h id

lemma untimed_of_byCurrent {cur : Option Slot} (h : o.ByCurrent cur) : o.Untimed := by
  cases o with
  | clock | tick p => exact absurd h id
  | _ => exact ⟨by simp, by simp⟩

lemma untimed_of_mem_ops (h : u.step e = some v) (he : ∀ user, e ≠ .timer user) (ho : o ∈ u.ops e) :
    o.Untimed := by
  cases e with
  | schedule =>
    refine untimed_of_ofScheduler ?_
    rw [ops, List.mem_append] at ho
    rcases ho with ho | ho
    · split_ifs at ho
      · rw [mlfqAgings, List.mem_append] at ho
        rcases ho with ho | ho
        · obtain ⟨j, -, rfl⟩ := List.mem_map.mp ho
          trivial
        · obtain ⟨b, -, rfl⟩ := Option.map_eq_some_iff.mp (Option.mem_toList.mp ho)
          trivial
      · cases ho
    · obtain ⟨b, -, rfl⟩ := Option.map_eq_some_iff.mp (Option.mem_toList.mp ho)
      trivial
  | timer user => exact absurd rfl (he user)
  | op o' =>
    rw [step] at h
    split_ifs at h with hok
    rw [ops, List.mem_singleton] at ho
    subst ho
    exact untimed_of_byCurrent hok.1

/-- The clock interrupt up to the end of `wakeup(&ticks)`. -/
lemma budget_clock (hu : u.CurRunning) (hk : u.k.BudgetsOk) (hw : u.k.ticks.toNat + 1 < 2 ^ 32) :
    ((u.k.apply .clock).after (wakeupOps ticksChan)).BudgetsOk ∧
      ∀ p, u.cur = some p → ((u.k.apply .clock).after (wakeupOps ticksChan)).Due p := by
  obtain ⟨hclock, hdue⟩ := hk.clock hw
  have hreach : Kernel.Reach (fun o => ∃ i ch, o = .wakeup i ch) (u.k.apply .clock)
      ((u.k.apply .clock).after (wakeupOps ticksChan)) := by
    refine ⟨wakeupOps ticksChan, wakeupOps_legal _ _, rfl, fun o ho => ?_⟩
    obtain ⟨i, -, rfl⟩ := List.mem_map.mp ho
    exact ⟨i, _, rfl⟩
  refine hreach.invariant (I := fun k => k.BudgetsOk ∧ ∀ p, u.cur = some p → k.Due p)
    ⟨hclock, fun p hp => hdue p (hu p hp)⟩ ?_
  rintro k o ⟨hk, hd⟩ ho ⟨i, ch, rfl⟩
  exact ⟨hk.apply ho (by simp) (by simp), fun p hp => (hd p hp).wakeup⟩

/-- **A timer interrupt keeps every process within its budget.** The tick it charges is the one it
has just counted. -/
theorem budget_timer (hu : u.CurRunning) (hk : u.k.BudgetsOk) (hw : u.k.ticks.toNat + 1 < 2 ^ 32)
    (user : Bool) : (u.timer user).k.BudgetsOk := by
  obtain ⟨hwoken, hdue⟩ := budget_clock hu hk hw
  rw [timer]
  cases hcur : u.cur with
  | none => exact hwoken
  | some p =>
    have hd := hdue p hcur
    have htick := hwoken.apply (o := .tick p) hd.1 (by simp) fun q hq => by
      cases hq
      exact hd
    have hrun := (tick_state ((u.k.apply .clock).after (wakeupOps ticksChan)) p).trans hd.1
    simp only
    split_ifs
    · exact hwoken
    · exact htick.apply (o := .yield p) hrun (by simp) (by simp)
    · exact htick

lemma count_clock_timer (u : Uni) (user : Bool) : 1 ≤ (u.ops (.timer user)).count .clock := by
  rw [ops, List.count_cons_self]
  exact Nat.le_add_left 1 _

lemma budget_step (hu : u.CurRunning) (hk : u.k.BudgetsOk)
    (hw : u.k.ticks.toNat + (u.ops e).count .clock < 2 ^ 32) (h : u.step e = some v) :
    v.k.BudgetsOk := by
  by_cases he : ∃ user, e = .timer user
  · obtain ⟨user, rfl⟩ := he
    cases h
    have := count_clock_timer u user
    exact budget_timer hu hk (by omega) user
  · obtain ⟨-, hlegal, hafter⟩ := step_ops hu h
    rw [hafter]
    exact hk.after_untimed hlegal fun o ho =>
      untimed_of_mem_ops h (fun user hc => he ⟨user, hc⟩) ho

/-- A handler charges at most one tick, and it has counted one. -/
lemma charges_le_clocks (h : u.step e = some v) :
    (u.ops e).countP Op.charges ≤ (u.ops e).count .clock := by
  by_cases he : ∃ user, e = .timer user
  · obtain ⟨user, rfl⟩ := he
    have hclock := count_clock_timer u user
    have hwake : (wakeupOps ticksChan).countP Op.charges = 0 := by
      rw [List.countP_eq_zero]
      intro o ho
      obtain ⟨i, -, rfl⟩ := List.mem_map.mp ho
      nofun
    have htick : ∀ k cur, (tickOps k user cur).countP Op.charges ≤ 1 := by
      intro k cur
      cases cur with
      | none => exact Nat.zero_le _
      | some p =>
        simp only [tickOps]
        split_ifs
        · exact Nat.zero_le _
        · exact le_refl 1
        · exact le_refl 1
    have hsum : (u.ops (.timer user)).countP Op.charges ≤ 1 := by
      rw [ops, List.countP_cons, List.countP_append, hwake]
      have := htick ((u.k.apply .clock).after (wakeupOps ticksChan)) u.cur
      simp only [Op.charges, Bool.false_eq_true, if_false]
      omega
    omega
  · have hzero : (u.ops e).countP Op.charges = 0 := by
      rw [List.countP_eq_zero]
      intro o ho hc
      have huntimed := untimed_of_mem_ops h (fun user hc => he ⟨user, hc⟩) ho
      cases o with
      | tick p => exact huntimed.2 p rfl
      | _ => cases hc
    omega

lemma trace_cons (h : u.step e = some v) : u.trace (e :: es) = u.ops e ++ v.trace es := by
  rw [trace, h]
  rfl

lemma trace_charges_le_clocks (h : u.run es = some v) :
    (u.trace es).countP Op.charges ≤ (u.trace es).count .clock := by
  induction es generalizing u with
  | nil => exact le_refl 0
  | cons e es ih =>
    obtain ⟨w, hw, hv⟩ := run_cons.mp h
    rw [trace_cons hw, List.countP_append, List.count_append]
    exact Nat.add_le_add (charges_le_clocks hw) (ih hv)

lemma budget_run (hu : u.CurRunning) (hk : u.k.BudgetsOk)
    (hw : u.k.ticks.toNat + (u.trace es).count .clock < 2 ^ 32) (h : u.run es = some v) :
    v.k.BudgetsOk := by
  induction es generalizing u with
  | nil =>
    cases h
    exact hk
  | cons e es ih =>
    obtain ⟨w, hstep, hv⟩ := run_cons.mp h
    rw [trace_cons hstep, List.count_append] at hw
    obtain ⟨hwcur, hlegal, hafter⟩ := step_ops hu hstep
    have hticks : w.k.ticks.toNat = u.k.ticks.toNat + (u.ops e).count .clock := by
      rw [hafter]
      exact (legal_noWrap hlegal (by omega)).2
    exact ih hwcur (budget_step hu hk (by omega) hstep) (by omega) hv

/-- **The time budget of a process on one CPU.** In every run with fewer than `2 ^ 32` ticks: what a
process has run, has waited and is waiting fits into the time since its creation; the run times of
all processes ever created add up to at most the ticks; and a process that has ended was created,
first run and ended in this order, with its run time and waiting time in between. -/
theorem time_budget (h : (boot pol).run es = some u)
    (hw : ((boot pol).trace es).count .clock < 2 ^ 32) :
    (∀ p, (u.k.proc p).state ≠ .unused → (u.k.proc p).createTick.toNat ≤ u.k.ticks.toNat ∧
      ((u.k.proc p).state = .runnable → (u.k.proc p).readySince.toNat ≤ u.k.ticks.toNat) ∧
      (u.k.proc p).runTime.toNat + (u.k.proc p).totalReadyTime.toNat
          + (if (u.k.proc p).state = .runnable
              then u.k.ticks.toNat - (u.k.proc p).readySince.toNat else 0)
        ≤ u.k.ticks.toNat - (u.k.proc p).createTick.toNat) ∧
    ∑ p, (u.k.proc p).runTime.toNat + retiredRunTime pol ((boot pol).trace es) ≤ u.k.ticks.toNat ∧
    (∀ p, (u.k.proc p).state = .zombie →
      (u.k.proc p).createTick.toNat ≤ (u.k.proc p).firstRunTick.toNat ∧
      (u.k.proc p).firstRunTick.toNat ≤ (u.k.proc p).exitTick.toNat ∧
      (u.k.proc p).runTime.toNat + (u.k.proc p).totalReadyTime.toNat
        ≤ (u.k.proc p).exitTick.toNat - (u.k.proc p).createTick.toNat) := by
  have hboot := (sound_boot pol).curRunning
  have hzero : (boot pol).k.ticks.toNat = 0 := rfl
  have hk := budget_run hboot (budgetsOk_bootKernel pol) (by omega) h
  refine ⟨fun p hp => ?_, ?_, fun p hp => ?_⟩
  · have hle := (hk p).spent_le hp
    have hspent : (u.k.proc p).times.spent u.k.now.toNat
        = (u.k.proc p).runTime.toNat + (u.k.proc p).totalReadyTime.toNat
          + if (u.k.proc p).state = .runnable
              then u.k.ticks.toNat - (u.k.proc p).readySince.toNat else 0 := rfl
    rw [hspent, Kernel.now_toNat] at hle
    have hle' : (u.k.proc p).createTick.toNat + _ ≤ u.k.ticks.toNat := hle
    exact ⟨by omega, (hk p).since_le, by omega⟩
  · obtain ⟨hlegal, hafter⟩ := run_trace hboot h
    have hsum : ((boot pol).k.after ((boot pol).trace es)).totalRunTime
        + retiredRunTime pol ((boot pol).trace es)
      ≤ (boot pol).k.totalRunTime + 0 + ((boot pol).trace es).countP Op.charges :=
      totalRunTime_after hlegal 0
    have hinit : (boot pol).k.totalRunTime = 0 := totalRunTime_bootKernel pol
    have hcharges := trace_charges_le_clocks h
    have hticks := (legal_noWrap hlegal (by omega)).2
    rw [← hafter] at hsum hticks
    show u.k.totalRunTime + retiredRunTime pol ((boot pol).trace es) ≤ _
    omega
  · have hrun := (hk p).firstRun (.inr (.inr (.inl hp)))
    obtain ⟨hfirst, hexit⟩ := (hk p).exited hp
    have hexit' : (u.k.proc p).createTick.toNat
        + ((u.k.proc p).runTime.toNat + (u.k.proc p).totalReadyTime.toNat)
      ≤ (u.k.proc p).exitTick.toNat := hexit
    exact ⟨hrun.1, hfirst, by omega⟩

/-- Init forks and is preempted; the child runs for a tick and, selected again, exits. -/
def exitEvents : List Event :=
  [.schedule] ++ forkEvents 1 0 ++
    [.timer true, .schedule, .timer true, .schedule, .timer true, .schedule, .op (.exit 1 0)]

/-- The hypotheses are met by a run in which a process has been created, has run and has
ended. -/
theorem time_budget_exit : ∃ u, (boot .rr).run exitEvents = some u ∧
    ((boot .rr).trace exitEvents).count .clock < 2 ^ 32 ∧
    (u.k.proc 1).state = .zombie ∧ (u.k.proc 1).runTime = 1 ∧
    (u.k.proc 1).runTime.toNat + (u.k.proc 1).totalReadyTime.toNat
      ≤ (u.k.proc 1).exitTick.toNat - (u.k.proc 1).createTick.toNat := by
  obtain ⟨hrun, hcount, hz, hone⟩ : ((boot .rr).run exitEvents).isSome ∧
      ((boot .rr).trace exitEvents).count .clock < 2 ^ 32 ∧
      (((boot .rr).after exitEvents).k.proc 1).state = .zombie ∧
      (((boot .rr).after exitEvents).k.proc 1).runTime = 1 := by decide +kernel
  refine ⟨_, run_after hrun, hcount, hz, hone, ?_⟩
  exact ((time_budget (run_after hrun) hcount).2.2 1 hz).2.2

end Uni

end Xv6Riscv
