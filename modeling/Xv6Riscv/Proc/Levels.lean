import Xv6Riscv.Proc.Table

/-!
MLFQ levels and time slices, operation by operation.

`LevelOk` bounds the level and the slice of a process. Every operation keeps it, whatever the
policy (`effect_levelOk`), and an unused slot has it too, so it holds of every slot at all times
(`Kernel.LevelsOk.after`). The slice is positive except between a charged tick and the yield that
follows: `effect_slice_pos` says that no operation but a tick takes the last unit of a slice,
and that a yield refills an empty one.

`Refills` is the test, read off the source, for the operations that assign a slice under MLFQ, and
`charged` the history variable counting the ticks charged to a slot since then.
`slice_add_charged_step` is the conservation law between the two, and `level_lt_apply` says that
only a yield with an empty slice demotes.
-/

namespace Xv6Riscv

/-- Bounds for a level `l` and a slice `t`. -/
structure LevelBounds (l t : ℤ) : Prop where
  level_nonneg : 0 ≤ l
  level_lt : l < schedMlfqLevels
  slice_nonneg : 0 ≤ t
  slice_le : t ≤ mlfqTimeSlice l

/-- The level and the slice of a process are within their bounds. -/
def LevelOk (p : Proc) : Prop := LevelBounds p.queueLevel p.timeSlice

lemma one_le_mlfqTimeSlice (l : ℤ) : 1 ≤ mlfqTimeSlice l := by
  rw [mlfqTimeSlice]
  split_ifs <;> norm_num

lemma mlfqLevel_of_levelOk {p : Proc} (h : LevelOk p) : mlfqLevel p.queueLevel = p.queueLevel := by
  rw [mlfqLevel, if_neg (not_lt.mpr h.level_nonneg), if_neg (not_le.mpr h.level_lt)]

lemma levelBounds_freed : LevelBounds 0 0 := ⟨by decide, by decide, by decide, by decide⟩

lemma levelBounds_init : LevelBounds schedDefaultQueueLevel schedRrTimeSlice :=
  ⟨by decide, by decide, by decide, by decide⟩

lemma levelBounds_refilled {l : ℤ} (h0 : 0 ≤ l) (h1 : l < schedMlfqLevels) :
    LevelBounds l (mlfqTimeSlice l) := by
  have := one_le_mlfqTimeSlice l
  exact ⟨h0, h1, by omega, le_rfl⟩

/-! ### The hooks -/

/-- The level below `l`, the lowest being its own. -/
def demoted (l : ℤ) : ℤ := if l < schedMlfqLevels - 1 then l + 1 else l

lemma demoted_bounds {l : ℤ} (h0 : 0 ≤ l) (h1 : l < schedMlfqLevels) :
    0 ≤ demoted l ∧ demoted l < schedMlfqLevels := by
  rw [demoted]
  split_ifs <;> omega

/-- The level above `l`, the highest being its own. -/
def boosted (l : ℤ) : ℤ := if 0 < l then l - 1 else l

lemma boosted_bounds {l : ℤ} (h0 : 0 ≤ l) (h1 : l < schedMlfqLevels) :
    0 ≤ boosted l ∧ boosted l < schedMlfqLevels ∧ boosted l ≤ l := by
  rw [boosted]
  split_ifs <;> omega

section

variable {now : UInt64} {p : Proc} (h : LevelOk p)

include h

lemma yield_of_pos (hs : 0 < p.timeSlice) :
    p.yield .mlfq now = { p.makeRunnable now with readyTicks := 0 } := by
  show mlfqOnYield now (p.makeRunnable now) = _
  simp only [mlfqOnYield, Proc.makeRunnable, Proc.schedProcRunnable, mlfqLevel_of_levelOk h,
    if_neg (not_le.mpr hs)]

lemma yield_of_empty (hs : p.timeSlice = 0) : p.yield .mlfq now =
    { p.makeRunnable now with
      queueLevel := demoted p.queueLevel, timeSlice := mlfqTimeSlice (demoted p.queueLevel)
      readyTicks := 0 } := by
  show mlfqOnYield now (p.makeRunnable now) = _
  simp only [mlfqOnYield, Proc.makeRunnable, Proc.schedProcRunnable, mlfqLevel_of_levelOk h,
    demoted, if_pos hs.le]

lemma wake_of_mlfq : p.wake .mlfq now =
    { p.makeRunnable now with
      queueLevel := boosted p.queueLevel, timeSlice := mlfqTimeSlice (boosted p.queueLevel) } := by
  show mlfqOnWakeup now (p.makeRunnable now) = _
  simp only [mlfqOnWakeup, Proc.makeRunnable, Proc.schedProcRunnable, mlfqLevel_of_levelOk h,
    boosted]

lemma yield_levelOk (pol : SchedPolicy) (now : UInt64) :
    LevelOk (p.yield pol now) ∧ 1 ≤ (p.yield pol now).timeSlice := by
  have h1 := one_le_mlfqTimeSlice p.queueLevel
  have hrr : LevelBounds p.queueLevel 1 := ⟨h.level_nonneg, h.level_lt, by decide, h1⟩
  cases pol with
  | rr | staticPriority => exact ⟨hrr, le_refl 1⟩
  | mlfq =>
    rcases h.slice_nonneg.lt_or_eq with hpos | hzero
    · rw [yield_of_pos h hpos]
      exact ⟨h, hpos⟩
    · rw [yield_of_empty h hzero.symm]
      have hb := demoted_bounds h.level_nonneg h.level_lt
      exact ⟨levelBounds_refilled hb.1 hb.2, one_le_mlfqTimeSlice _⟩

lemma wake_levelOk (pol : SchedPolicy) (now : UInt64) :
    LevelOk (p.wake pol now) ∧ (1 ≤ p.timeSlice → 1 ≤ (p.wake pol now).timeSlice) := by
  cases pol with
  | rr | staticPriority => exact ⟨h, id⟩
  | mlfq =>
    rw [wake_of_mlfq h]
    have hb := boosted_bounds h.level_nonneg h.level_lt
    exact ⟨levelBounds_refilled hb.1 hb.2.1, fun _ => one_le_mlfqTimeSlice _⟩

lemma age_levelOk (now : UInt64) :
    LevelOk (mlfqAgeLocked now p) ∧ (1 ≤ p.timeSlice → 1 ≤ (mlfqAgeLocked now p).timeSlice) := by
  by_cases hp : p.Promotes now
  · rw [Proc.age_of_promotes hp]
    have hpos := hp.2.2
    have hlt := h.level_lt
    have h0 : 0 ≤ p.queueLevel - 1 := by omega
    have h1 : p.queueLevel - 1 < schedMlfqLevels := by omega
    exact ⟨levelBounds_refilled h0 h1, fun _ => one_le_mlfqTimeSlice _⟩
  · obtain ⟨r, hr⟩ := Proc.age_of_not_promotes hp
    rw [hr]
    exact ⟨h, id⟩

lemma tick_levelOk :
    LevelBounds p.queueLevel (if 0 < p.timeSlice then p.timeSlice - 1 else p.timeSlice) := by
  obtain ⟨h0, h1, h2, h3⟩ := h
  refine ⟨h0, h1, ?_, ?_⟩ <;> split_ifs <;> omega

end

/-! ### All operations -/

/-- **Every operation keeps the bounds**, under every policy. -/
theorem effect_levelOk (k : Kernel) (o : Op) {q : Proc} (h : LevelOk q) :
    LevelOk (o.effect k q) := by
  generalize hq : o.effect k q = q'
  cases Op.acts hq with
  | allocproc => exact levelBounds_init
  | freeproc | reap => exact levelBounds_freed
  | age _ he => exact he ▸ (age_levelOk h k.now).1
  | tick => exact tick_levelOk h
  | yield _ he => exact he ▸ (yield_levelOk h k.policy k.now).1
  | awake _ _ _ he =>
    exact he ▸ (wake_levelOk (p := { q with chan := none }) h k.policy k.now).1
  | killAwake _ _ _ he =>
    exact he ▸ (wake_levelOk (p := { q with killed := true }) h k.policy k.now).1
  | _ => exact h

/-- **No operation but a tick takes the last unit of a slice**, unless it frees the process. -/
theorem effect_slice_pos (k : Kernel) (o : Op) {q : Proc} (h : LevelOk q)
    (hs : 1 ≤ q.timeSlice) (ht : ∀ p, o ≠ .tick p)
    (hused : (o.effect k q).state ≠ .unused) : 1 ≤ (o.effect k q).timeSlice := by
  generalize hq : o.effect k q = q' at hused ⊢
  cases Op.acts hq with
  | allocproc => exact le_refl 1
  | freeproc | reap => exact absurd rfl hused
  | age _ he => exact he ▸ (age_levelOk h k.now).2 hs
  | tick p => exact absurd rfl (ht p)
  | yield _ he => exact he ▸ (yield_levelOk h k.policy k.now).2
  | awake _ _ _ he =>
    exact he ▸ (wake_levelOk (p := { q with chan := none }) h k.policy k.now).2 hs
  | killAwake _ _ _ he =>
    exact he ▸ (wake_levelOk (p := { q with killed := true }) h k.policy k.now).2 hs
  | _ => exact hs

def Kernel.LevelsOk (k : Kernel) : Prop := ∀ i, LevelOk (k.proc i)

lemma Kernel.LevelsOk.apply {k : Kernel} (h : k.LevelsOk) (o : Op) : (k.apply o).LevelsOk := by
  intro i
  rw [Kernel.apply_proc]
  split_ifs
  · exact effect_levelOk k o (h i)
  · exact h i

lemma Kernel.LevelsOk.after {k : Kernel} (h : k.LevelsOk) (ops : List Op) :
    (k.after ops).LevelsOk := by
  induction ops generalizing k with
  | nil => exact h
  | cons o ops ih => exact ih (h.apply o)

lemma levelsOk_procinit (pol : SchedPolicy) : (procinit pol).LevelsOk :=
  fun _ => levelBounds_freed

lemma levelsOk_bootKernel (pol : SchedPolicy) : (bootKernel pol).LevelsOk :=
  (levelsOk_procinit pol).after userinit

/-! ### Refills and charges -/

/-- The operations that assign the slice of `p` anew: the initialisation, a yield that finds the
slice used up, a wakeup, and a promotion. -/
def Refills (k : Kernel) (p : Slot) : Op → Prop
  | .allocproc q => q = p
  | .yield q => q = p ∧ (k.proc p).timeSlice ≤ 0
  | .wakeup q ch => q = p ∧ (k.proc p).chan = ch ∧ (k.proc p).state = .sleeping
  | .kill q pid => q = p ∧ (k.proc p).pid = pid ∧ (k.proc p).state = .sleeping
  | .age q => q = p ∧ (k.proc p).Promotes k.now
  | _ => False

instance (k : Kernel) (p : Slot) (o : Op) : Decidable (Refills k p o) := by
  rcases o with ⟨⟩ <;> unfold Refills <;> infer_instance

/-- The ticks charged to each slot since its last refill. -/
def chargedStep (g : Slot → ℕ) (k : Kernel) (o : Op) (p : Slot) : ℕ :=
  if Refills k p o then 0 else if o = .tick p then g p + 1 else g p

/-- The ticks charged to each slot since its last refill, along a sequence of operations. -/
def charged (k : Kernel) (ops : List Op) : Slot → ℕ :=
  Transition.track Kernel.apply chargedStep (fun _ => 0) k ops

variable {g : Slot → ℕ} {k : Kernel} {o : Op} {p : Slot}

lemma chargedStep_of_slot_ne (h : o.slot ≠ some p) : chargedStep g k o p = g p := by
  have hr : ¬ Refills k p o := by
    cases o with
    | allocproc q => exact fun hr => h (by rw [← hr]; rfl)
    | yield q | wakeup q ch | kill q pid | age q => exact fun hr => h (by rw [← hr.1]; rfl)
    | _ => exact id
  have ht : o ≠ .tick p := by
    rintro rfl
    exact h rfl
  rw [chargedStep, if_neg hr, if_neg ht]

lemma effect_slice_of_not_refills (hpol : k.policy = .mlfq)
    (hl : LevelOk (k.proc p)) (hslot : o.slot = some p) (hr : ¬ Refills k p o) (ht : o ≠ .tick p)
    (hfree : o ≠ .freeproc p ∧ o ≠ .reap p) :
    (o.effect k (k.proc p)).timeSlice = (k.proc p).timeSlice ∧
      (o.effect k (k.proc p)).queueLevel = (k.proc p).queueLevel := by
  generalize hq : o.effect k (k.proc p) = q
  cases Op.acts hq with
  | allocproc =>
    cases hslot
    exact absurd rfl hr
  | freeproc =>
    cases hslot
    exact absurd rfl hfree.1
  | reap =>
    cases hslot
    exact absurd rfl hfree.2
  | tick =>
    cases hslot
    exact absurd rfl ht
  | yield _ he =>
    cases hslot
    rw [← he, hpol, yield_of_pos hl (not_le.mp fun hle => hr ⟨rfl, hle⟩)]
    exact ⟨rfl, rfl⟩
  | age _ he =>
    cases hslot
    obtain ⟨r, h⟩ := Proc.age_of_not_promotes (fun h => hr ⟨rfl, h⟩)
    rw [← he, h]
    exact ⟨rfl, rfl⟩
  | awake _ h1 h2 | killAwake _ h1 h2 =>
    cases hslot
    exact absurd ⟨rfl, h1, h2⟩ hr
  | _ => exact ⟨rfl, rfl⟩

/-- A refill assigns the full slice of the level, and only a yield raises the level number. -/
lemma effect_of_refills (hpol : k.policy = .mlfq) (hl : LevelOk (k.proc p)) (hr : Refills k p o) :
    (o.effect k (k.proc p)).timeSlice = mlfqTimeSlice (o.effect k (k.proc p)).queueLevel ∧
      (o ≠ .yield p → (o.effect k (k.proc p)).queueLevel ≤ (k.proc p).queueLevel) := by
  have hboost := (boosted_bounds hl.level_nonneg hl.level_lt).2.2
  cases o with
  | allocproc q => exact ⟨rfl, fun _ => hl.level_nonneg⟩
  | yield q =>
    rw [Op.effect, hpol, yield_of_empty hl (le_antisymm hr.2 hl.slice_nonneg)]
    exact ⟨rfl, fun hy => absurd (by rw [hr.1]) hy⟩
  | wakeup q ch =>
    rw [Op.effect, Proc.wakeup_eq, if_pos hr.2.1, if_pos hr.2.2, hpol,
      wake_of_mlfq (p := { k.proc p with chan := none }) hl]
    exact ⟨rfl, fun _ => hboost⟩
  | kill q pid =>
    rw [Op.effect, Proc.kill_eq, if_pos hr.2.1, if_pos hr.2.2, hpol,
      wake_of_mlfq (p := { k.proc p with killed := true }) hl]
    exact ⟨rfl, fun _ => hboost⟩
  | age q =>
    rw [Op.effect, Proc.age_of_promotes hr.2]
    exact ⟨rfl, fun _ => Int.sub_le_self _ (by decide)⟩
  | _ => exact hr.elim

/-- **Slice and charges add up to the slice of the level**: one operation. A tick is charged only
to a process that has something left of its slice. -/
theorem slice_add_charged_step (hpol : k.policy = .mlfq)
    (hl : k.LevelsOk) (ho : o.Ok k) (htick : ∀ p, o = .tick p → 1 ≤ (k.proc p).timeSlice)
    (h : ∀ p, (k.proc p).state ≠ .unused →
      (k.proc p).timeSlice + g p = mlfqTimeSlice (k.proc p).queueLevel) (p : Slot)
    (hused : ((k.apply o).proc p).state ≠ .unused) :
    ((k.apply o).proc p).timeSlice + chargedStep g k o p
      = mlfqTimeSlice ((k.apply o).proc p).queueLevel := by
  by_cases hslot : o.slot = some p
  · rw [Kernel.apply_proc_self k o hslot] at hused ⊢
    by_cases hr : Refills k p o
    · rw [(effect_of_refills hpol (hl p) hr).1, chargedStep, if_pos hr]
      simp
    · -- the slot was in use before: only `allocproc` finds an unused one
      have hbefore : (k.proc p).state ≠ .unused := by
        intro hun
        rcases effect_state ho hslot with hs | hs
        · exact hused (hs.trans hun)
        · rw [hun] at hs
          generalize (o.effect k (k.proc p)).state = s at hs
          cases hs
          cases hslot
          exact hr rfl
      have hbase := h p hbefore
      by_cases ht : o = .tick p
      · subst ht
        have hpos := htick p rfl
        rw [chargedStep, if_neg hr, if_pos rfl, Op.effect, Proc.updateProcAfterTick_spec]
        show (if 0 < (k.proc p).timeSlice then (k.proc p).timeSlice - 1 else _) + _ = _
        rw [if_pos (by omega)]
        push_cast
        omega
      · have hfree : o ≠ .freeproc p ∧ o ≠ .reap p := by
          constructor <;> rintro rfl <;> exact hused rfl
        obtain ⟨hs, hv⟩ := effect_slice_of_not_refills hpol (hl p) hslot hr ht hfree
        rw [hs, hv, chargedStep, if_neg hr, if_neg ht, hbase]
  · rw [Kernel.apply_proc_of_ne k o hslot] at hused ⊢
    rw [chargedStep_of_slot_ne hslot, h p hused]

/-- **Demotion**: under MLFQ only a yield with an empty slice raises the level number. -/
theorem level_lt_apply (hpol : k.policy = .mlfq) (hl : k.LevelsOk)
    (hlt : (k.proc p).queueLevel < ((k.apply o).proc p).queueLevel) :
    o = .yield p ∧ (k.proc p).timeSlice = 0 := by
  by_cases hslot : o.slot = some p
  · rw [Kernel.apply_proc_self k o hslot] at hlt
    by_cases hr : Refills k p o
    · by_cases hy : o = .yield p
      · subst hy
        exact ⟨rfl, le_antisymm hr.2 (hl p).slice_nonneg⟩
      · exact absurd hlt (not_lt.mpr ((effect_of_refills hpol (hl p) hr).2 hy))
    · by_cases ht : o = .tick p
      · subst ht
        rw [Op.effect, Proc.updateProcAfterTick_spec] at hlt
        exact absurd hlt (lt_irrefl _)
      · by_cases hfree : o ≠ .freeproc p ∧ o ≠ .reap p
        · rw [(effect_slice_of_not_refills hpol (hl p) hslot hr ht hfree).2] at hlt
          exact absurd hlt (lt_irrefl _)
        · -- a freed slot is at level 0
          have hzero : (o.effect k (k.proc p)).queueLevel = 0 := by
            rcases not_and_or.mp hfree with h | h <;> rw [not_not.mp h] <;> rfl
          rw [hzero] at hlt
          exact absurd hlt (not_lt.mpr (hl p).level_nonneg)
  · rw [Kernel.apply_proc_of_ne k o hslot] at hlt
    exact absurd hlt (lt_irrefl _)

end Xv6Riscv
