import Xv6Riscv.Uni.Kernel

/-!
Selection and preemption on one CPU.

* `Uni.priority_selection`: the static-priority selector and the state it leaves.
* `Uni.mlfq_preemption_agrees`: `mlfq_should_preempt` looks at the table as it is and
  `mlfq_select_next` ages it while it looks; still the one asks for a switch only if the other will
  find a better process.
-/

namespace Xv6Riscv

open Cyclic

/-! ### Static priorities -/

/-- **Static-priority selection.** For every table, all priorities and every cursor, without
interference: `priority_select_next` ends after one scan. It returns nothing if and only if nothing
is runnable, and otherwise the first slot from the cursor among the runnable ones of largest
priority, with the cursor behind it. Nothing but the cursor is changed. -/
theorem Uni.priority_selection (u : Uni) (fuel : ℕ) :
    ∃ cursor' r, prioritySelectNext u.k.proc u.priorityCursor (fuel + 1) = some (cursor', r) ∧
      (r = none ↔ ∀ i, ¬ Runnable u.k.proc i) ∧ (r = none → cursor' = u.priorityCursor) ∧
      (∀ b, r = some b → cursor' = next b ∧ Runnable u.k.proc b ∧
        (∀ i, Runnable u.k.proc i → (u.k.proc i).priority ≤ (u.k.proc b).priority) ∧
        ∀ i, Runnable u.k.proc i → (u.k.proc i).priority = (u.k.proc b).priority →
          dist u.priorityCursor b ≤ dist u.priorityCursor i) ∧
      (u.k.policy = .staticPriority →
        u.selectNextProc = some ({ u with priorityCursor := cursor' }, r)) := by
  -- one turn of the outer loop is enough, so the fuel does not matter
  have hselect : ∀ {cursor' r}, prioritySelectNext u.k.proc u.priorityCursor 1 = some (cursor', r) →
      u.k.policy = .staticPriority →
      u.selectNextProc = some ({ u with priorityCursor := cursor' }, r) := by
    intro cursor' r hone hpol
    rw [selectNextProc, hpol]
    dsimp only
    rw [hone, Option.map_some]
  have hone : prioritySelectNext u.k.proc u.priorityCursor 1 =
      prioritySelectNext u.k.proc u.priorityCursor (fuel + 1) := by
    rcases prioritySelectNext_spec u.k.proc u.priorityCursor 0 with ⟨h, _⟩ | ⟨b, h, _⟩ <;>
    · rw [zero_add] at h
      rw [h, prioritySelectNext]
      rw [prioritySelectNext] at h
      cases hturn : priorityTurn u.k.proc u.priorityCursor with
      | none =>
        rw [hturn] at h
        cases h
      | some r =>
        rw [hturn] at h
        exact h.symm
  rcases prioritySelectNext_spec u.k.proc u.priorityCursor fuel with ⟨h, hno⟩ | ⟨b, h, hb⟩
  · refine ⟨_, _, h, ⟨fun _ => hno, fun _ => rfl⟩, fun _ => rfl, by simp, hselect (hone.trans h)⟩
  · refine ⟨_, _, h, ⟨by simp, fun hno => absurd hb.1 (hno b)⟩, by simp, fun b' hb' => ?_,
      hselect (hone.trans h)⟩
    cases hb'
    refine ⟨rfl, hb.1, fun i hi => ?_, fun i hi heq => hb.dist_le hi heq.ge⟩
    rcases hb.2 i hi with hlt | ⟨heq, _⟩
    · exact hlt.le
    · exact heq.le

/-! ### The last level -/

lemma mlfqLevel_lt (l : ℤ) : mlfqLevel l < schedMlfqLevels := by
  rw [mlfqLevel]
  split_ifs
  · decide
  · decide
  · omega

lemma le_mlfqLevel {l : ℤ} (h : l < schedMlfqLevels) : l ≤ mlfqLevel l := by
  rw [mlfqLevel, if_neg (not_le.mpr h)]
  split_ifs <;> omega

variable {q : Proc}

lemma wake_level_lt (pol : SchedPolicy) (now : UInt64) (h : q.queueLevel < schedMlfqLevels) :
    (q.wake pol now).queueLevel < schedMlfqLevels := by
  cases pol with
  | rr | staticPriority => exact h
  | mlfq =>
    have hlt := mlfqLevel_lt q.queueLevel
    change (if 0 < mlfqLevel q.queueLevel then mlfqLevel q.queueLevel - 1
      else mlfqLevel q.queueLevel) < schedMlfqLevels
    split_ifs <;> omega

/-- A yield with slice left keeps the level, but for the clamping of a negative one. -/
lemma yield_mlfq_of_pos (now : UInt64) (h : 0 < q.timeSlice) :
    q.yield .mlfq now =
      { q with
        state := .runnable, readyCount := q.readyCount + 1, readySince := now
        queueLevel := mlfqLevel q.queueLevel, readyTicks := 0 } := by
  simp only [Proc.yield, activeStrategy, mlfqStrategy, mlfqOnYield, Proc.schedProcRunnable,
    not_le.mpr h, if_false]

lemma yield_level_lt (pol : SchedPolicy) (now : UInt64) (h : q.queueLevel < schedMlfqLevels) :
    (q.yield pol now).queueLevel < schedMlfqLevels := by
  cases pol with
  | rr | staticPriority => exact h
  | mlfq =>
    have hlt := mlfqLevel_lt q.queueLevel
    by_cases hs : q.timeSlice ≤ 0
    · have hlevel : (q.yield .mlfq now).queueLevel = demoted (mlfqLevel q.queueLevel) := by
        simp only [Proc.yield, activeStrategy, mlfqStrategy, mlfqOnYield, Proc.schedProcRunnable,
          hs, if_true]
        rfl
      rw [hlevel, demoted]
      split_ifs <;> omega
    · rw [yield_mlfq_of_pos now (not_le.mp hs)]
      exact hlt

/-- **No operation moves a process beyond the last level.** -/
lemma effect_level_lt (k : Kernel) (o : Op) (h : q.queueLevel < schedMlfqLevels) :
    (o.effect k q).queueLevel < schedMlfqLevels := by
  generalize hq : o.effect k q = q'
  cases Op.acts hq with
  | allocproc | freeproc | reap => exact (by decide : (0 : ℤ) < schedMlfqLevels)
  | age _ he =>
    have hlt : (mlfqAgeLocked k.now q).queueLevel < schedMlfqLevels := by
      rw [age_queueLevel]
      split_ifs <;> omega
    exact he ▸ hlt
  | yield _ he => exact he ▸ yield_level_lt k.policy k.now h
  | awake _ _ _ he => exact he ▸ wake_level_lt k.policy k.now (q := { q with chan := none }) h
  | killAwake _ _ _ he =>
    exact he ▸ wake_level_lt k.policy k.now (q := { q with killed := true }) h
  | _ => exact h

variable {k : Kernel}

lemma apply_level_lt (h : ∀ i, (k.proc i).queueLevel < schedMlfqLevels) (o : Op) (i : Slot) :
    ((k.apply o).proc i).queueLevel < schedMlfqLevels := by
  rw [Kernel.apply_proc]
  split_ifs
  · exact effect_level_lt k o (h i)
  · exact h i

/-! ### Preemption -/

lemma mlfqShouldPreempt_eq_true {proc : Slot → Proc} {p : Proc} (hs : 0 < p.timeSlice) :
    mlfqShouldPreempt proc p = true ↔
      ∃ i, Runnable proc i ∧ (proc i).queueLevel < p.queueLevel := by
  rw [mlfqShouldPreempt, decide_eq_false (not_le.mpr hs), Bool.false_or, List.any_eq_true]
  simp only [List.mem_finRange, true_and, Proc.preempts, decide_eq_true_eq, Runnable]

/-- What may happen between `yield` and the selection: no tick, and nothing that takes a process out
of the state runnable. -/
def Op.Between (o : Op) : Prop := o ≠ .clock ∧ ¬ o.OfScheduler

lemma aged_level_of_fresh {i : Slot} (h : (k.proc i).readySince = k.now) :
    (aged k i).queueLevel = (k.proc i).queueLevel := by
  rw [aged, age_queueLevel, if_neg]
  rintro ⟨-, hge, -⟩
  rw [h, UInt64.sub_self] at hge
  exact absurd hge (by decide)

/-- **The selection after a preemption.** -/
lemma selects_other {k1 : Kernel} {p i : Slot} (hpol : k.policy = .mlfq)
    (hrun : (k.proc p).state = .running) (hlev : ∀ i, (k.proc i).queueLevel < schedMlfqLevels)
    (hs : 0 < (k.proc p).timeSlice) (hi : Runnable k.proc i)
    (hlt : (k.proc i).queueLevel < (k.proc p).queueLevel)
    (hreach : Kernel.Reach Op.Between (k.apply (.yield p)) k1) (cursor : Slot) (fuel : ℕ) :
    ∃ k2 cursor' b, mlfqSelectNext k1 cursor (fuel + 1) = some (k2, cursor', some b) ∧ b ≠ p ∧
      (k2.proc b).queueLevel < (k.proc p).queueLevel := by
  have hip : p ≠ i := fun he => absurd (hrun.symm.trans (he ▸ hi)) (by decide)
  -- `p` after its yield, `i` untouched by it
  have hp0 : (k.apply (.yield p)).proc p = (k.proc p).yield .mlfq k.now := by
    rw [Kernel.apply_proc_self k _ rfl, Op.effect, hpol]
  have hi0 : (k.apply (.yield p)).proc i = k.proc i :=
    Kernel.apply_proc_of_ne k _ fun h => hip (Option.some.inj h)
  rw [yield_mlfq_of_pos _ hs] at hp0
  -- both stay as they are until the selection
  have hkeep : Kernel.Reach (fun o => ¬ o.OfScheduler) (k.apply (.yield p)) k1 :=
    hreach.mono fun _ h => h.2
  obtain ⟨_, hp1, _, hsince⟩ := hkeep.proc_of_runnable (i := p) (by rw [hp0])
  obtain ⟨hi1, hil1, _⟩ := hkeep.proc_of_runnable (i := i) (by rw [hi0]; exact hi)
  rw [hp0] at hp1 hsince
  rw [hi0] at hil1
  have hnow : k1.now = k.now := by
    have := hreach.invariant (I := fun k' => k'.now = k.now) (k.apply_now_of_ne (by simp))
      fun k' o h _ ho => (k'.apply_now_of_ne ho.1).trans h
    exact this
  have hlev1 : ∀ i, (k1.proc i).queueLevel < schedMlfqLevels :=
    hreach.invariant (I := fun k' => ∀ i, (k'.proc i).queueLevel < schedMlfqLevels)
      (apply_level_lt hlev _) fun k' o h _ _ => apply_level_lt h o
  obtain ⟨k2, cursor', r, hsel, hS⟩ := mlfqSelectNext_spec k1 cursor fuel fun j _ =>
    lt_of_le_of_lt (aged_level_le k1 j) (hlev1 j)
  rcases hS.result with ⟨_, _, hno⟩ | ⟨b, rfl, _, hb⟩
  · exact absurd hi1 (hno i)
  -- the level of the answer is at most that of `i`, and `p` is not promoted
  have hbest : (aged k1 b).queueLevel ≤ (k.proc i).queueLevel := by
    have hle : (aged k1 b).queueLevel ≤ (aged k1 i).queueLevel := by
      rcases hb.2 i hi1 with hlt' | ⟨heq, _⟩
      · exact neg_le_neg_iff.mp hlt'.le
      · exact neg_le_neg_iff.mp heq.le
    have := aged_level_le k1 i
    omega
  have hpaged : (k.proc p).queueLevel ≤ (aged k1 p).queueLevel := by
    rw [aged_level_of_fresh (hsince.trans hnow.symm), hp1]
    exact le_mlfqLevel (hlev p)
  refine ⟨k2, cursor', b, hsel, ?_, ?_⟩
  · rintro rfl
    omega
  · rw [hS.proc_self b rfl, aged, age_age]
    exact lt_of_le_of_lt hbest hlt

/-- The table when `mlfq_should_preempt(p)` is called in a timer interrupt. -/
def Uni.ticked (u : Uni) (p : Slot) : Kernel :=
  ((u.k.apply .clock).after (wakeupOps ticksChan)).apply (.tick p)

/-- The end of a timer interrupt that charges a tick to the running process. -/
lemma Uni.timer_mlfq {u : Uni} {p : Slot} {user : Bool} (hcur : u.cur = some p)
    (hkill : ¬ (user ∧ ((u.ticked p).proc p).killed)) (hpol : (u.ticked p).policy = .mlfq) :
    u.timer user =
      if mlfqShouldPreempt (u.ticked p).proc ((u.ticked p).proc p) then
        { u with k := (u.ticked p).apply (.yield p), cur := none }
      else { u with k := u.ticked p } := by
  have hkilled : ((u.ticked p).proc p).killed =
      (((u.k.apply .clock).after (wakeupOps ticksChan)).proc p).killed := by
    rw [ticked, Kernel.apply_proc_self _ _ rfl, Op.effect, Proc.updateProcAfterTick_spec]
  rw [hkilled] at hkill
  rw [timer, hcur]
  dsimp only
  rw [if_neg hkill]
  change (if (activeStrategy (u.ticked p).policy).shouldPreempt _ _ = true then _ else _) = _
  rw [hpol]
  rfl

/-- **MLFQ preemption and selection agree.** On one CPU with MLFQ active, for every table `k` in
which `mlfq_should_preempt(p)` is called after a tick of the running process `p`. If it returns 1
and `p` has slice left, `p` yields, and the next selection, with no further tick and no runnable
process leaving that state before it, returns another process, of a level strictly below that of
`p`. If it returns 0, no runnable process has a level strictly below that of `p`, and `p` keeps
running with its slice. -/
theorem Uni.mlfq_preemption_agrees (k : Kernel) (p : Slot) (hpol : k.policy = .mlfq)
    (hrun : (k.proc p).state = .running) (hlev : ∀ i, (k.proc i).queueLevel < schedMlfqLevels) :
    (mlfqShouldPreempt k.proc (k.proc p) = true → 0 < (k.proc p).timeSlice →
      (∀ (u : Uni) (user : Bool), u.cur = some p → u.ticked p = k → ¬ (user ∧ (k.proc p).killed) →
        u.timer user = { u with k := k.apply (.yield p), cur := none }) ∧
      ∀ k₁, Kernel.Reach Op.Between (k.apply (.yield p)) k₁ → ∀ cursor fuel, ∃ k₂ cursor' b,
        mlfqSelectNext k₁ cursor (fuel + 1) = some (k₂, cursor', some b) ∧ b ≠ p ∧
          (k₂.proc b).queueLevel < (k.proc p).queueLevel) ∧
    (mlfqShouldPreempt k.proc (k.proc p) = false →
      (∀ i, Runnable k.proc i → (k.proc p).queueLevel ≤ (k.proc i).queueLevel) ∧
      0 < (k.proc p).timeSlice ∧
      ∀ (u : Uni) (user : Bool), u.cur = some p → u.ticked p = k →
        ¬ (user ∧ (k.proc p).killed) → u.timer user = { u with k := k }) := by
  have htimer : ∀ (u : Uni) (user : Bool), u.cur = some p → u.ticked p = k →
      ¬ (user ∧ (k.proc p).killed) → u.timer user =
        if mlfqShouldPreempt k.proc (k.proc p) then
          { u with k := k.apply (.yield p), cur := none }
        else { u with k := k } := by
    rintro u user hcur rfl hkill
    exact timer_mlfq hcur hkill hpol
  refine ⟨fun hpre hs => ⟨fun u user hcur hk hkill => ?_, ?_⟩, fun hpre => ?_⟩
  · rw [htimer u user hcur hk hkill, if_pos hpre]
  · obtain ⟨i, hi, hlt⟩ := (mlfqShouldPreempt_eq_true hs).mp hpre
    exact fun k₁ hreach cursor fuel => selects_other hpol hrun hlev hs hi hlt hreach cursor fuel
  · have hs : 0 < (k.proc p).timeSlice := by
      by_contra hs
      rw [mlfqShouldPreempt, decide_eq_true (not_lt.mp hs), Bool.true_or] at hpre
      cases hpre
    refine ⟨fun i hi => ?_, hs, fun u user hcur hk hkill => ?_⟩
    · by_contra hlt
      rw [(mlfqShouldPreempt_eq_true hs).mpr ⟨i, hi, not_le.mp hlt⟩] at hpre
      cases hpre
    · rw [htimer u user hcur hk hkill, hpre]
      rfl

/-- A running process at level 1 and a runnable one at level 0. -/
def preemptTable : Kernel where
  proc i :=
    if i = 0 then { Proc.zero with state := .running, queueLevel := 1, timeSlice := 1 }
    else if i = 1 then { Proc.zero with state := .runnable }
    else Proc.zero
  ticks := 3
  policy := .mlfq
  nextpid := 3

theorem Uni.mlfq_preemption_agrees_two :
    mlfqShouldPreempt preemptTable.proc (preemptTable.proc 0) = true ∧ ∀ cursor, ∃ k₂ cursor' b,
        mlfqSelectNext (preemptTable.apply (.yield 0)) cursor 1 = some (k₂, cursor', some b) ∧
          b ≠ 0 ∧ (k₂.proc b).queueLevel < 1 := by
  have hlev : ∀ i, (preemptTable.proc i).queueLevel < schedMlfqLevels := by
    intro i
    rw [preemptTable]
    dsimp only
    split_ifs <;> decide
  have hs : 0 < (preemptTable.proc 0).timeSlice := by decide
  have hpre : mlfqShouldPreempt preemptTable.proc (preemptTable.proc 0) = true :=
    (mlfqShouldPreempt_eq_true hs).mpr ⟨1, by rw [Runnable]; decide +kernel, by decide +kernel⟩
  refine ⟨hpre, fun cursor => ?_⟩
  exact ((mlfq_preemption_agrees preemptTable 0 rfl rfl hlev).1 hpre hs).2 _
    (Kernel.Reach.refl _) cursor 0

end Xv6Riscv
