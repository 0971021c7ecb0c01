import Xv6Riscv.Uni.Kernel

/-!
Static priority with equal priorities is round robin.

Two kernels, one with the static-priority strategy and one with RR, are driven by the same events.
`Uni.Agrees` relates their states: the tables are equal but for `sched_policy`, and the cursor of
the one selector is that of the other. The hooks of the two strategies are the same assignments
(`Proc.Like.effect`), and as long as the runnable processes have one priority the full scan with
its validation and the scan with an early return find the same slot (`selections_agree`).

* `Uni.priority_degenerates_to_rr`: so does a run.
-/

namespace Xv6Riscv

open Cyclic

/-! ### Processes and operations -/

/-- The two processes differ at most in `sched_policy`. -/
def Proc.Like (p q : Proc) : Prop := q = { p with schedPolicy := q.schedPolicy }

/-- The two tables differ at most in `sched_policy`, the one under static priority and the other
under RR. -/
structure Kernel.Like (k l : Kernel) : Prop where
  proc : ∀ i, (k.proc i).Like (l.proc i)
  ticks : l.ticks = k.ticks
  nextpid : l.nextpid = k.nextpid
  priority : k.policy = .staticPriority
  rr : l.policy = .rr

/-- An operation other than `sched_policy_switch`. -/
def Op.KeepsPolicy : Op → Prop
  | policySwitch _ => False
  | _ => True

instance : DecidablePred Op.KeepsPolicy := fun o => by
  rcases o with ⟨⟩ <;> unfold Op.KeepsPolicy <;> infer_instance

variable {k l : Kernel} {o : Op} {p q : Proc}

lemma Proc.Like.state (h : p.Like q) : q.state = p.state := by rw [h]

lemma Proc.Like.priority (h : p.Like q) : q.priority = p.priority := by rw [h]

lemma Kernel.Like.now (h : k.Like l) : l.now = k.now := congrArg UInt32.toUInt64 h.ticks

/-- Corresponding operations have corresponding effects: the two strategies have the same hooks,
and `sched_policy` is written but never read. -/
lemma Proc.Like.effect (h : p.Like q) (hk : k.Like l) (o : Op) :
    (o.effect k p).Like (o.effect l q) := by
  rw [h]
  generalize q.schedPolicy = s
  cases o with
  | allocproc i =>
    rw [Op.effect, Op.effect, hk.now, hk.nextpid]
    rfl
  | runnable i | dispatch i | exit i status =>
    rw [Op.effect, Op.effect, hk.now]
    rfl
  | age i =>
    rw [Op.effect, Op.effect, hk.now]
    by_cases hprom : p.Promotes k.now
    · have hprom' : ({ p with schedPolicy := s } : Proc).Promotes k.now := hprom
      rw [Proc.age_of_promotes hprom, Proc.age_of_promotes hprom']
      rfl
    · have hprom' : ¬ ({ p with schedPolicy := s } : Proc).Promotes k.now := hprom
      rw [mlfqAgeLocked, mlfqAgeLocked, if_neg hprom, if_neg hprom']
      split_ifs <;> rfl
  | tick i =>
    rw [Op.effect, Op.effect, hk.priority, hk.rr]
    rfl
  | yield i =>
    rw [Op.effect, Op.effect, hk.priority, hk.rr, hk.now]
    rfl
  | sleep i =>
    rw [Op.effect, Op.effect, Proc.sleep, Proc.sleep]
    split_ifs <;> rfl
  | wakeup i ch =>
    rw [Op.effect, Op.effect, hk.priority, hk.rr, hk.now, Proc.wakeup_eq, Proc.wakeup_eq]
    split_ifs <;> rfl
  | kill i pid =>
    rw [Op.effect, Op.effect, hk.priority, hk.rr, hk.now, Proc.kill_eq, Proc.kill_eq]
    split_ifs <;> rfl
  | setPrio i pid pr =>
    rw [Op.effect, Op.effect, Proc.setPrio, Proc.setPrio]
    split_ifs <;> rfl
  | reparent i j =>
    rw [Op.effect, Op.effect, Proc.reparent, Proc.reparent]
    split_ifs <;> rfl
  | freeproc _ | setParent _ _ | sleepPrepare _ _ | setkilled _ | reap _ | clock
  | policySwitch _ => rfl

lemma Kernel.Like.apply (h : k.Like l) (ho : o.KeepsPolicy) : (k.apply o).Like (l.apply o) where
  proc i := by
    rw [Kernel.apply_proc, Kernel.apply_proc]
    split_ifs
    · exact (h.proc i).effect h o
    · exact h.proc i
  ticks := by
    simp only [Kernel.apply, h.ticks]
  nextpid := by
    cases o <;> simp only [Kernel.apply, h.nextpid]
  priority := by
    cases o with
    | policySwitch pol => exact ho.elim
    | _ => exact h.priority
  rr := by
    cases o with
    | policySwitch pol => exact ho.elim
    | _ => exact h.rr

lemma Kernel.Like.after {ops : List Op} (h : k.Like l) (ho : ∀ o ∈ ops, o.KeepsPolicy) :
    (k.after ops).Like (l.after ops) := by
  induction ops generalizing k l with
  | nil => exact h
  | cons o ops ih =>
    exact ih (h.apply (ho o (List.mem_cons_self ..)))
      fun o' ho' => ho o' (List.mem_cons_of_mem _ ho')

/-- The tests of the operations do not read `sched_policy`. -/
lemma Kernel.Like.ok_iff (h : k.Like l) (o : Op) : o.Ok l ↔ o.Ok k := by
  have hs : ∀ i, (l.proc i).state = (k.proc i).state := fun i => (h.proc i).state
  cases o <;> simp only [Op.Ok, hs]

/-! ### Selection -/

/-- The runnable processes all have the same priority. -/
def OnePriority (proc : Slot → Proc) : Prop :=
  ∀ i j, Runnable proc i → Runnable proc j → (proc i).priority = (proc j).priority

/-- **The two selectors agree** on tables that differ in `sched_policy` only. -/
theorem selections_agree {f g : Slot → Proc} (h : ∀ i, (f i).Like (g i)) (hone : OnePriority f)
    (cursor : Slot) : prioritySelectNext f cursor 1 = some (rrSelectNext g cursor) := by
  have hrun : ∀ i, Runnable g i ↔ Runnable f i := fun i => by
    rw [Runnable, Runnable, (h i).state]
  rcases prioritySelectNext_spec f cursor 0 with ⟨hs, hno⟩ | ⟨b, hs, hb⟩
  · rcases rrSelectNext_spec g cursor with ⟨hr, -⟩ | ⟨c, -, hc, -⟩
    · rw [hr, ← hs]
    · exact absurd ((hrun c).mp hc) (hno c)
  · rcases rrSelectNext_spec g cursor with ⟨-, hno⟩ | ⟨c, hr, hc, hfirst⟩
    · exact absurd ((hrun b).mpr hb.1) (hno b)
    · -- each of the two is no further from the cursor than the other
      have hcf := (hrun c).mp hc
      have hle := hfirst b ((hrun b).mpr hb.1)
      have hge := hb.dist_le hcf (hone b c hb.1 hcf).le
      rw [hr, ← dist_inj (le_antisymm hge hle), ← hs]

namespace Uni

/-! ### The two kernels -/

/-- The states of the kernel under static priority and of the kernel under RR agree on the table,
on the current process and on the cursor of the selector. -/
structure Agrees (u v : Uni) : Prop where
  k : u.k.Like v.k
  cur : v.cur = u.cur
  cursor : v.rrCursor = u.priorityCursor

/-- An event other than `sched_policy_switch`. -/
def Event.KeepsPolicy : Event → Prop
  | .op o => o.KeepsPolicy
  | .schedule | .timer _ => True

instance : DecidablePred Event.KeepsPolicy := fun e => by
  rcases e with ⟨⟩ <;> unfold Event.KeepsPolicy <;> infer_instance

/-- What `select_next_proc` returns in the events of a run. -/
def selections (u : Uni) : List Event → List (Option Slot)
  | [] => []
  | e :: es => u.returned e :: ((u.step e).map fun v => v.selections es).getD []

variable {u v : Uni}

lemma Agrees.selectNextProc (h : u.Agrees v) (hone : OnePriority u.k.proc) :
    ∃ u' v' r, u.selectNextProc = some (u', r) ∧ v.selectNextProc = some (v', r) ∧
      u'.Agrees v' := by
  have hsel := selections_agree h.k.proc hone u.priorityCursor
  refine ⟨{ u with priorityCursor := (rrSelectNext v.k.proc u.priorityCursor).1 },
    { v with rrCursor := (rrSelectNext v.k.proc u.priorityCursor).1 },
    (rrSelectNext v.k.proc u.priorityCursor).2, ?_, ?_, ⟨h.k, h.cur, rfl⟩⟩
  · rw [Uni.selectNextProc, h.k.priority]
    simp only [hsel, Option.map_some]
  · rw [Uni.selectNextProc, h.k.rr]
    simp only [h.cursor]

lemma Agrees.dispatch (h : u.Agrees v) (r : Option Slot) :
    (u.dispatch r).Agrees (v.dispatch r) := by
  cases r with
  | none => exact h
  | some p => exact ⟨h.k.apply trivial, rfl, h.cursor⟩

lemma Agrees.timer (h : u.Agrees v) (user : Bool) : (u.timer user).Agrees (v.timer user) := by
  have hwake : ((u.k.apply .clock).after (wakeupOps ticksChan)).Like
      ((v.k.apply .clock).after (wakeupOps ticksChan)) := by
    refine (h.k.apply (o := .clock) trivial).after fun o ho => ?_
    obtain ⟨i, -, rfl⟩ := List.mem_map.mp ho
    trivial
  rw [Uni.timer, Uni.timer, h.cur]
  cases u.cur with
  | none => exact ⟨hwake, rfl, h.cursor⟩
  | some p =>
    have htick := hwake.apply (o := .tick p) trivial
    have hkilled : (((v.k.apply .clock).after (wakeupOps ticksChan)).proc p).killed
        = (((u.k.apply .clock).after (wakeupOps ticksChan)).proc p).killed := by
      rw [hwake.proc p]
    -- both strategies always preempt
    simp only [hkilled, htick.priority, htick.rr, activeStrategy, priorityStrategy, rrStrategy,
      if_true]
    split_ifs
    · exact ⟨hwake, rfl, h.cursor⟩
    · exact ⟨htick.apply trivial, rfl, h.cursor⟩

lemma Agrees.perform (h : u.Agrees v) (ho : o.KeepsPolicy) :
    (u.perform o).Agrees (v.perform o) := by
  have hk := h.k.apply ho
  refine ⟨hk, ?_, h.cursor⟩
  simp only [Uni.perform, h.cur, (hk.proc _).state]

/-- **One event keeps the two kernels in lockstep**: it is possible in both or in neither, selects
the same process and leads to states that agree. -/
theorem Agrees.step (h : u.Agrees v) (hone : OnePriority u.k.proc) {e : Event}
    (he : e.KeepsPolicy) :
    u.returned e = v.returned e ∧ (u.step e = none ∧ v.step e = none ∨
        ∃ u' v', u.step e = some u' ∧ v.step e = some v' ∧ u'.Agrees v') := by
  cases e with
  | schedule =>
    obtain ⟨u', v', r, hu, hv, hagree⟩ := h.selectNextProc hone
    refine ⟨by simp only [returned, hu, hv, Option.bind_some], ?_⟩
    simp only [Uni.step, schedule, h.cur, hu, hv, Option.map_some]
    split_ifs
    · exact .inr ⟨_, _, rfl, rfl, hagree.dispatch r⟩
    · exact .inl ⟨rfl, rfl⟩
  | timer user => exact ⟨rfl, .inr ⟨_, _, rfl, rfl, h.timer user⟩⟩
  | op o =>
    refine ⟨rfl, ?_⟩
    rw [Uni.step, Uni.step, h.cur]
    simp only [h.k.ok_iff]
    split_ifs
    · exact .inr ⟨_, _, rfl, rfl, h.perform he⟩
    · exact .inl ⟨rfl, rfl⟩

/-- The runs considered: in all their states the runnable processes have one priority, and the
policy is not switched. -/
abbrev EqualPriorities (u : Uni) (es : List Event) : Prop :=
  u.Along (fun u => OnePriority u.k.proc) (fun _ e => e.KeepsPolicy) es

/-- **Static priority with equal priorities degenerates to RR.** Two kernels, one under static
priority and one under RR, that agree on the process table but for `sched_policy` and on the cursor
have the same runs with equal priorities; in such a run they return the same slots from
`select_next_proc` and end in states that agree. -/
theorem priority_degenerates_to_rr (h : u.Agrees v) (es : List Event) :
    (u.EqualPriorities es ↔ v.EqualPriorities es) ∧
    (u.EqualPriorities es → ∃ u' v', u.run es = some u' ∧ v.run es = some v' ∧ u'.Agrees v' ∧
      u.selections es = v.selections es) := by
  have hpri : ∀ {u v : Uni}, u.Agrees v → (OnePriority u.k.proc ↔ OnePriority v.k.proc) := by
    intro u v h
    simp only [OnePriority, Runnable, fun i => (h.k.proc i).state, fun i => (h.k.proc i).priority]
  induction es generalizing u v with
  | nil => exact ⟨hpri h, fun _ => ⟨u, v, rfl, rfl, h, rfl⟩⟩
  | cons e es ih =>
    rw [EqualPriorities, EqualPriorities, Along, Along, ← hpri h]
    by_cases hcond : OnePriority u.k.proc ∧ e.KeepsPolicy
    · obtain ⟨hone, he⟩ := hcond
      obtain ⟨hret, ⟨hu, hv⟩ | ⟨u', v', hu, hv, hagree⟩⟩ := h.step hone he
      · simp [hu, hv]
      · obtain ⟨hiff, hrun⟩ := ih hagree
        refine ⟨by simpa [hu, hv] using fun _ _ => hiff, fun hes => ?_⟩
        obtain ⟨-, -, w, hw, htail⟩ := hes
        obtain rfl : u' = w := Option.some.inj (hu.symm.trans hw)
        obtain ⟨u'', v'', hu'', hv'', hend, hsel⟩ := hrun htail
        refine ⟨u'', v'', run_cons.mpr ⟨u', hu, hu''⟩, run_cons.mpr ⟨v', hv, hv''⟩, hend, ?_⟩
        rw [selections, selections, hret, hu, hv, Option.map_some, Option.map_some, hsel]
    · exact ⟨⟨fun hes => absurd ⟨hes.1, hes.2.1⟩ hcond, fun hes => absurd ⟨hes.1, hes.2.1⟩ hcond⟩,
        fun hes => absurd ⟨hes.1, hes.2.1⟩ hcond⟩

/-- The two kernels agree when they enter `scheduler`. -/
lemma agrees_boot : (boot .staticPriority).Agrees (boot .rr) where
  k := (Kernel.Like.mk (fun _ => rfl) rfl rfl rfl rfl :
    (procinit .staticPriority).Like (procinit .rr)).after (by decide)
  cur := rfl
  cursor := rfl

instance (proc : Slot → Proc) : Decidable (OnePriority proc) := by
  unfold OnePriority Runnable; infer_instance

/-- The hypotheses are met by the kernels at boot, in a run in which init forks twice and the
three processes take turns. -/
theorem priority_degenerates_to_rr_forks :
    (boot .staticPriority).Agrees (boot .rr) ∧
    (boot .staticPriority).selections ([.schedule] ++ forkEvents 1 0 ++ forkEvents 2 0 ++
        [.timer true, .schedule, .timer true, .schedule])
      = (boot .rr).selections ([.schedule] ++ forkEvents 1 0 ++ forkEvents 2 0 ++
        [.timer true, .schedule, .timer true, .schedule]) := by
  obtain ⟨u, v, -, -, -, h⟩ := (priority_degenerates_to_rr agrees_boot _).2
    (show (boot .staticPriority).EqualPriorities ([.schedule] ++ forkEvents 1 0 ++ forkEvents 2 0 ++
      [.timer true, .schedule, .timer true, .schedule]) by decide +kernel)
  exact ⟨agrees_boot, h⟩

end Uni

end Xv6Riscv
