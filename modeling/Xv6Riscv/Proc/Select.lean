import Xv6Riscv.Lib.Cyclic
import Xv6Riscv.Proc.Table

/-!
Choosing the next process (`rr_select_next`, `priority_select_next`, `mlfq_select_next`).

The static-priority and MLFQ selectors scan the whole table from the cursor, keep the best
candidate, and validate it again after the scan. The bodies of the two loops are
`priorityExamine` and `mlfqExamine`; here they are run with no step of another CPU in between,
which is how a single CPU runs them, interrupts being off throughout.

* `rrSelectNext_spec`, `prioritySelectNext_spec`, `mlfqSelectNext_spec`: each selector returns
  the first best runnable slot in cyclic order from the cursor and puts the cursor behind it.
  The validation never fails without interference, so one turn of the outer `for (;;)` is
  enough whatever the fuel.
-/

namespace Xv6Riscv

open Cyclic

/-- The locals of a scan: `best` with its index, and `best_priority` or `best_level`. -/
abbrev Best := Option Slot × ℤ

/-- The body of the loop of `priority_select_next`. -/
def priorityExamine (p : Proc) (i : Slot) (best : Best) : Best :=
  if p.state = .runnable ∧ (best.1 = none ∨ best.2 < p.priority) then (some i, p.priority)
  else best

/-- The body of the loop of `mlfq_select_next`, after `mlfq_age_locked`. -/
def mlfqExamine (p : Proc) (i : Slot) (best : Best) : Best :=
  if p.state = .runnable ∧ p.queueLevel < best.2 then (some i, p.queueLevel) else best

/-! ### The selectors -/

/-- `rr_select_next`: the new cursor and the process returned. -/
def rrSelectNext (proc : Slot → Proc) (cursor : Slot) : Slot × Option Slot :=
  match (List.range nproc).find? fun off => (proc (place cursor off)).state = .runnable with
  | some off => (next (place cursor off), some (place cursor off))
  | none => (cursor, none)

/-- The scan of `priority_select_next` after `m` places. -/
def priorityScan (proc : Slot → Proc) (start : Slot) : ℕ → Best
  | 0 => (none, 0)
  | m + 1 =>
    priorityExamine (proc (place start m)) (place start m) (priorityScan proc start m)

/-- One turn of the outer loop of `priority_select_next`: the new cursor and the process
returned, or `none` to go round again. -/
def priorityTurn (proc : Slot → Proc) (cursor : Slot) : Option (Slot × Option Slot) :=
  match (priorityScan proc cursor nproc).1 with
  | none => some (cursor, none)
  | some b => if (proc b).state = .runnable then some (next b, some b) else none

/-- `priority_select_next`, with fuel for the outer loop. -/
def prioritySelectNext (proc : Slot → Proc) (cursor : Slot) : ℕ → Option (Slot × Option Slot)
  | 0 => none
  | fuel + 1 =>
    match priorityTurn proc cursor with
    | some r => some r
    | none => prioritySelectNext proc cursor fuel

/-- The scan of `mlfq_select_next` after `m` places, with the table it leaves. -/
def mlfqScan (k : Kernel) (start : Slot) : ℕ → Kernel × Best
  | 0 => (k, none, schedMlfqLevels)
  | m + 1 =>
    let (k, best) := mlfqScan k start m
    let k := k.apply (.age (place start m))
    (k, mlfqExamine (k.proc (place start m)) (place start m) best)

/-- One turn of the outer loop of `mlfq_select_next`: the table it leaves, and the new cursor
with the process returned, or `none` to go round again. -/
def mlfqTurn (k : Kernel) (cursor : Slot) : Kernel × Option (Slot × Option Slot) :=
  let (k, best) := mlfqScan k cursor nproc
  match best.1 with
  | none => (k, some (cursor, none))
  | some b =>
    let k := k.apply (.age b)
    if (k.proc b).state = .runnable ∧ (k.proc b).queueLevel ≤ best.2 then
      (k, some (next b, some b))
    else (k, none)

/-- `mlfq_select_next`, with fuel for the outer loop: the table it leaves, the new cursor and
the process returned. -/
def mlfqSelectNext (k : Kernel) (cursor : Slot) : ℕ → Option (Kernel × Slot × Option Slot)
  | 0 => none
  | fuel + 1 =>
    match mlfqTurn k cursor with
    | (k, some r) => some (k, r)
    | (k, none) => mlfqSelectNext k cursor fuel

/-! ### Specifications -/

/-- The slots a selector may return. -/
def Runnable (proc : Slot → Proc) (i : Slot) : Prop := (proc i).state = .runnable

/-- **`rr_select_next`** returns nothing only if nothing is runnable, and otherwise the first
runnable slot from the cursor. -/
theorem rrSelectNext_spec (proc : Slot → Proc) (cursor : Slot) :
    (rrSelectNext proc cursor = (cursor, none) ∧ ∀ i, ¬ Runnable proc i) ∨
      ∃ b, rrSelectNext proc cursor = (next b, some b) ∧ Runnable proc b ∧
        ∀ i, Runnable proc i → dist cursor b ≤ dist cursor i := by
  unfold rrSelectNext
  split
  · rename_i off hoff
    obtain ⟨hrun, as, bs, happ, hbefore⟩ := List.find?_eq_some_iff_append.mp hoff
    have hlt : off < nproc := List.mem_range.mp (List.mem_of_find?_eq_some hoff)
    refine .inr ⟨place cursor off, rfl, by simpa [Runnable] using hrun, fun i hi => ?_⟩
    rw [dist_place cursor hlt]
    by_contra hcon
    -- an earlier runnable offset would have been found first
    have hmem : dist cursor i ∈ as := by
      have hin : dist cursor i ∈ List.range nproc := List.mem_range.mpr (dist_lt _ _)
      have hlen : as.length = off := by
        have h1 : (List.range nproc)[as.length]? = some off := by rw [happ]; simp
        rw [List.getElem?_eq_some_iff] at h1
        obtain ⟨_, h2⟩ := h1
        simpa using h2
      have h3 : (List.range nproc)[dist cursor i]? = some (dist cursor i) := by
        rw [List.getElem?_range (dist_lt _ _)]
      rw [happ, List.getElem?_append_left (by omega)] at h3
      exact List.mem_of_getElem? h3
    have := hbefore _ hmem
    simp only [place_dist, Bool.not_eq_true', decide_eq_false_iff_not] at this
    exact this hi
  · rename_i hnone
    refine .inl ⟨rfl, fun i hi => ?_⟩
    have := List.find?_eq_none.mp hnone (dist cursor i) (List.mem_range.mpr (dist_lt _ _))
    simp only [place_dist, decide_eq_true_eq] at this
    exact this hi

variable {m : ℕ}

lemma priorityScan_bestUpTo (proc : Slot → Proc) (start : Slot) (hm : m ≤ nproc) :
    BestUpTo start (Runnable proc) (fun i => (proc i).priority) m (priorityScan proc start m).1 ∧
      ∀ b, (priorityScan proc start m).1 = some b →
        (priorityScan proc start m).2 = (proc b).priority := by
  induction m with
  | zero => exact ⟨bestUpTo_zero, fun b hb => by cases hb⟩
  | succ m ih =>
    obtain ⟨hbest, hkey⟩ := ih (by omega)
    rw [priorityScan, priorityExamine]
    split_ifs with h
    · refine ⟨hbest.take (by omega) h.1 fun b hb => ?_, ?_⟩
      · rcases h.2 with h2 | h2
        · rw [hb] at h2; cases h2
        · rwa [hkey b hb] at h2
      · rintro b hb
        cases hb; rfl
    · refine ⟨hbest.skip fun hrun => ?_, hkey⟩
      cases hb : (priorityScan proc start m).1 with
      | none => exact absurd ⟨hrun, .inl hb⟩ h
      | some b =>
        refine ⟨b, rfl, ?_⟩
        rw [← hkey b hb]
        by_contra hlt
        exact h ⟨hrun, .inr (not_le.mp hlt)⟩

/-- **`priority_select_next`** ends after one scan: it returns nothing only if nothing is
runnable, and otherwise the first runnable slot of largest priority from the cursor. -/
theorem prioritySelectNext_spec (proc : Slot → Proc) (cursor : Slot) (fuel : ℕ) :
    (prioritySelectNext proc cursor (fuel + 1) = some (cursor, none) ∧ ∀ i, ¬ Runnable proc i) ∨
      ∃ b, prioritySelectNext proc cursor (fuel + 1) = some (next b, some b) ∧
        FirstBest cursor (Runnable proc) (fun i => (proc i).priority) b := by
  have h := (priorityScan_bestUpTo proc cursor (m := nproc) le_rfl).1
  rw [prioritySelectNext, priorityTurn]
  cases hb : (priorityScan proc cursor nproc).1 with
  | none =>
    rw [hb] at h
    exact .inl ⟨rfl, h.none_iff.mp rfl⟩
  | some b =>
    rw [hb] at h
    have hrun : (proc b).state = .runnable := h.1
    exact .inr ⟨b, by simp [hrun], h.firstBest⟩

/-! ### The MLFQ scan -/

@[simp] lemma apply_age_now (k : Kernel) (i : Slot) : (k.apply (.age i)).now = k.now :=
  k.apply_now_of_ne (by simp)

lemma apply_age_policy (k : Kernel) (i : Slot) : (k.apply (.age i)).policy = k.policy := rfl

lemma apply_age_nextpid (k : Kernel) (i : Slot) : (k.apply (.age i)).nextpid = k.nextpid := rfl

lemma apply_age_proc (k : Kernel) (i j : Slot) : (k.apply (.age i)).proc j =
    if i = j then mlfqAgeLocked k.now (k.proc j) else k.proc j := by
  simp [Kernel.apply, Op.slot, Op.effect]

@[simp] lemma mlfqScan_now (k : Kernel) (start : Slot) (m : ℕ) :
    (mlfqScan k start m).1.now = k.now := by
  induction m with
  | zero => rfl
  | succ m ih => simp [mlfqScan, ih]

/-- **The scan ages every slot it has passed, once, and leaves the others alone.** -/
lemma mlfqScan_proc (k : Kernel) (start : Slot) (hm : m ≤ nproc) (i : Slot) :
    (mlfqScan k start m).1.proc i =
      if dist start i < m then mlfqAgeLocked k.now (k.proc i) else k.proc i := by
  induction m with
  | zero => simp [mlfqScan]
  | succ m ih =>
    rw [mlfqScan, apply_age_proc, ih (by omega), mlfqScan_now]
    by_cases hi : place start m = i
    · have hd : dist start i = m := by rw [← hi, dist_place start (by omega)]
      simp [hi, hd]
    · have hd : dist start i ≠ m := fun hd => hi (by rw [← hd, place_dist])
      rw [if_neg hi]
      by_cases hlt : dist start i < m
      · rw [if_pos hlt, if_pos (by omega)]
      · rw [if_neg hlt, if_neg (by omega)]

/-- The slots the MLFQ selector chooses from, after aging. -/
def aged (k : Kernel) (i : Slot) : Proc := mlfqAgeLocked k.now (k.proc i)

@[simp] lemma age_state (now : UInt64) (p : Proc) : (mlfqAgeLocked now p).state = p.state := by
  obtain ⟨l, t, s, r, h⟩ := p.age_spec now
  rw [h]

lemma age_queueLevel (now : UInt64) (p : Proc) : (mlfqAgeLocked now p).queueLevel =
    if p.Promotes now then p.queueLevel - 1 else p.queueLevel := by
  split_ifs with h
  · rw [Proc.age_of_promotes h]
  · obtain ⟨r, hr⟩ := Proc.age_of_not_promotes h
    rw [hr]

lemma aged_level_le (k : Kernel) (i : Slot) : (aged k i).queueLevel ≤ (k.proc i).queueLevel := by
  rw [aged, age_queueLevel]
  split_ifs <;> omega

/-- **Aging twice at the same tick is aging once**: a promoted process has waited no time. -/
lemma age_age (now : UInt64) (p : Proc) :
    mlfqAgeLocked now (mlfqAgeLocked now p) = mlfqAgeLocked now p := by
  by_cases hrun : p.state = .runnable
  swap
  · rw [Proc.age_of_not_runnable hrun, Proc.age_of_not_runnable hrun]
  by_cases h : p.Promotes now
  · rw [Proc.age_of_promotes h]
    have hnot : ¬ Proc.Promotes now
        { p with
          queueLevel := p.queueLevel - 1, timeSlice := mlfqTimeSlice (p.queueLevel - 1)
          readySince := now, readyTicks := 0 } := by
      rintro ⟨-, hge, -⟩
      rw [UInt64.sub_self] at hge
      exact absurd hge (by decide)
    rw [mlfqAgeLocked, if_neg (not_not.mpr hrun), if_neg hnot]
    simp only [UInt64.sub_self]
  · rw [Proc.age_of_waiting hrun h]
    have hnot : ¬ Proc.Promotes now { p with readyTicks := now - p.readySince } := h
    rw [mlfqAgeLocked, if_neg (not_not.mpr hrun), if_neg hnot]

/-- The invariant of the MLFQ scan, the key being the level, the smaller the better. -/
lemma mlfqScan_bestUpTo (k : Kernel) (start : Slot)
    (hlev : ∀ i, Runnable k.proc i → (aged k i).queueLevel < schedMlfqLevels) (hm : m ≤ nproc) :
    BestUpTo start (Runnable k.proc) (fun i => -(aged k i).queueLevel) m (mlfqScan k start m).2.1 ∧
      (mlfqScan k start m).2.2 =
        ((mlfqScan k start m).2.1.map fun b => (aged k b).queueLevel).getD schedMlfqLevels := by
  induction m with
  | zero => exact ⟨bestUpTo_zero, rfl⟩
  | succ m ih =>
    obtain ⟨hbest, hkey⟩ := ih (by omega)
    -- the process examined is the aged one
    have hproc : ((mlfqScan k start m).1.apply (.age (place start m))).proc (place start m)
        = aged k (place start m) := by
      have := mlfqScan_proc k start (m := m + 1) hm (place start m)
      rw [dist_place start (by omega), if_pos (Nat.lt_succ_self m)] at this
      exact this
    simp only [mlfqScan, hproc, mlfqExamine]
    split_ifs with h
    · refine ⟨hbest.take (by omega) ((age_state _ _).symm.trans h.1) fun b hb => ?_, rfl⟩
      rw [hkey, hb] at h
      simpa using h.2
    · refine ⟨hbest.skip fun hrun => ?_, hkey⟩
      have hrun' : (aged k (place start m)).state = .runnable := (age_state _ _).trans hrun
      have hle : (mlfqScan k start m).2.2 ≤ (aged k (place start m)).queueLevel := by
        by_contra hlt
        exact h ⟨hrun', not_le.mp hlt⟩
      cases hb : (mlfqScan k start m).2.1 with
      | none =>
        rw [hkey, hb] at hle
        exact absurd (hlev _ hrun) (not_lt.mpr hle)
      | some b =>
        rw [hkey, hb] at hle
        exact ⟨b, rfl, by simpa using hle⟩

/-- What `mlfq_select_next` does without interference: it ages every slot, the returned one a
second time, and returns the first runnable slot of smallest level (after aging) from the cursor,
or nothing if nothing is runnable. -/
structure MlfqSelected (k : Kernel) (cursor : Slot) (k' : Kernel) (cursor' : Slot)
    (r : Option Slot) : Prop where
  ticks : k'.ticks = k.ticks
  policy : k'.policy = k.policy
  nextpid : k'.nextpid = k.nextpid
  proc_of_ne : ∀ i, r ≠ some i → k'.proc i = aged k i
  proc_self : ∀ i, r = some i → k'.proc i = mlfqAgeLocked k.now (aged k i)
  result : (r = none ∧ cursor' = cursor ∧ ∀ i, ¬ Runnable k.proc i) ∨
    ∃ b, r = some b ∧ cursor' = next b ∧
      FirstBest cursor (Runnable k.proc) (fun i => -(aged k i).queueLevel) b

lemma mlfqScan_globals (k : Kernel) (start : Slot) (m : ℕ) :
    (mlfqScan k start m).1.ticks = k.ticks ∧ (mlfqScan k start m).1.policy = k.policy ∧
      (mlfqScan k start m).1.nextpid = k.nextpid := by
  induction m with
  | zero => exact ⟨rfl, rfl, rfl⟩
  | succ m ih => simpa [mlfqScan, Kernel.apply] using ih

/-- **`mlfq_select_next`** ends after one scan. -/
theorem mlfqSelectNext_spec (k : Kernel) (cursor : Slot) (fuel : ℕ)
    (hlev : ∀ i, Runnable k.proc i → (aged k i).queueLevel < schedMlfqLevels) :
    ∃ k' cursor' r, mlfqSelectNext k cursor (fuel + 1) = some (k', cursor', r) ∧
      MlfqSelected k cursor k' cursor' r := by
  obtain ⟨hbest, hkey⟩ := mlfqScan_bestUpTo k cursor hlev (m := nproc) le_rfl
  obtain ⟨hticks, hpol, hpid⟩ := mlfqScan_globals k cursor nproc
  have hproc : ∀ i, (mlfqScan k cursor nproc).1.proc i = aged k i := by
    intro i
    have h := mlfqScan_proc k cursor (le_refl nproc) i
    rwa [if_pos (dist_lt cursor i)] at h
  cases hb : (mlfqScan k cursor nproc).2.1 with
  | none =>
    rw [hb] at hbest
    refine ⟨(mlfqScan k cursor nproc).1, cursor, none, ?_, ?_⟩
    · simp only [mlfqSelectNext, mlfqTurn, hb]
    · exact ⟨hticks, hpol, hpid, fun i _ => hproc i, (by simp),
        .inl ⟨rfl, rfl, hbest.none_iff.mp rfl⟩⟩
  | some b =>
    rw [hb] at hbest hkey
    have hpb : ((mlfqScan k cursor nproc).1.apply (.age b)).proc b
        = mlfqAgeLocked k.now (aged k b) := by
      rw [apply_age_proc, if_pos rfl, hproc, mlfqScan_now]
    -- the validation cannot fail: aging twice at one tick is aging once
    have hcheck : (mlfqAgeLocked k.now (aged k b)).state = .runnable ∧
        (mlfqAgeLocked k.now (aged k b)).queueLevel ≤ (mlfqScan k cursor nproc).2.2 := by
      refine ⟨(age_state _ _).trans ((age_state _ _).trans hbest.1), ?_⟩
      rw [hkey, aged, age_age]
      exact le_rfl
    refine ⟨(mlfqScan k cursor nproc).1.apply (.age b), next b, some b, ?_, ?_⟩
    · simp only [mlfqSelectNext, mlfqTurn, hb, hpb]
      rw [if_pos hcheck]
    · refine ⟨?_, (apply_age_policy _ _).trans hpol, (apply_age_nextpid _ _).trans hpid,
        fun i hi => ?_, fun i hi => ?_, .inr ⟨b, rfl, rfl, hbest.firstBest⟩⟩
      · rw [Kernel.apply_ticks_of_ne _ (by simp), hticks]
      · rw [apply_age_proc, if_neg (fun he => hi (by rw [he])), hproc]
      · cases hi
        exact hpb

/-- **MLFQ selection with aging.** For every table, cursor and tick, without interference:
`mlfq_select_next` ends after one scan. It leaves the slots that are not runnable alone and promotes
exactly the runnable ones that have waited long enough at a positive level, by one level, with a new
slice; the second aging of the chosen slot changes nothing. It returns nothing if and only if
nothing is runnable, and otherwise the first slot from the cursor among those of least level after
the promotions, with the cursor behind it. -/
theorem mlfq_selection_with_aging (k : Kernel) (cursor : Slot) (fuel : ℕ)
    (hlev : ∀ i, Runnable k.proc i → (k.proc i).queueLevel < schedMlfqLevels) :
    ∃ k' cursor' r, mlfqSelectNext k cursor (fuel + 1) = some (k', cursor', r) ∧
      k'.ticks = k.ticks ∧ k'.policy = k.policy ∧ k'.nextpid = k.nextpid ∧
      (∀ i, ¬ Runnable k.proc i → k'.proc i = k.proc i) ∧
      (∀ i, Runnable k.proc i → 0 < (k.proc i).queueLevel →
        schedMlfqAgingThreshold ≤ k.now - (k.proc i).readySince →
        k'.proc i = { k.proc i with
          queueLevel := (k.proc i).queueLevel - 1
          timeSlice := mlfqTimeSlice ((k.proc i).queueLevel - 1)
          readySince := k.now
          readyTicks := 0 }) ∧
      (∀ i, Runnable k.proc i → ¬ (0 < (k.proc i).queueLevel ∧
          schedMlfqAgingThreshold ≤ k.now - (k.proc i).readySince) →
        k'.proc i = { k.proc i with readyTicks := k.now - (k.proc i).readySince }) ∧
      (∀ b, r = some b → mlfqAgeLocked k.now (aged k b) = aged k b) ∧
      (r = none ↔ ∀ i, ¬ Runnable k.proc i) ∧ (r = none → cursor' = cursor) ∧
      ∀ b, r = some b → cursor' = next b ∧
        FirstBest cursor (Runnable k.proc) (fun i => -(k'.proc i).queueLevel) b := by
  have haged : ∀ i, Runnable k.proc i → (aged k i).queueLevel < schedMlfqLevels := fun i hi => by
    have hlow := hlev i hi
    rw [aged, age_queueLevel]
    split_ifs <;> omega
  obtain ⟨k', cursor', r, hsel, hS⟩ := mlfqSelectNext_spec k cursor fuel haged
  have hproc : ∀ i, k'.proc i = aged k i := fun i => by
    by_cases hr : r = some i
    · rw [hS.proc_self i hr, aged, age_age]
    · exact hS.proc_of_ne i hr
  refine ⟨k', cursor', r, hsel, hS.ticks, hS.policy, hS.nextpid, fun i hi => ?_,
    fun i hi hpos hwait => ?_, fun i hi hnot => ?_, fun b _ => age_age _ _, ?_, ?_, ?_⟩
  · rw [hproc, aged, Proc.age_of_not_runnable hi]
  · rw [hproc, aged, Proc.age_of_promotes ⟨hi, hwait, hpos⟩]
  · rw [hproc, aged, Proc.age_of_waiting hi fun hp => hnot ⟨hp.2.2, hp.2.1⟩]
  · rcases hS.result with ⟨hr, _, hno⟩ | ⟨b, hr, _, hb⟩
    · exact ⟨fun _ => hno, fun _ => hr⟩
    · rw [hr]
      exact ⟨nofun, fun hno => absurd hb.1 (hno b)⟩
  · rintro rfl
    rcases hS.result with ⟨_, hcur, _⟩ | ⟨b, hr, _⟩
    · exact hcur
    · cases hr
  · rintro b rfl
    rcases hS.result with ⟨hr, _⟩ | ⟨b', hr, hcur, hb⟩
    · cases hr
    · cases hr
      refine ⟨hcur, ?_⟩
      simp only [hproc]
      exact hb

/-- A table with one runnable process that has waited at level 1. -/
def agingTable : Kernel where
  proc i := if i = 0 then { Proc.zero with state := .runnable, queueLevel := 1 } else Proc.zero
  ticks := 8
  policy := .mlfq
  nextpid := 2

theorem mlfq_selection_with_aging_one :
    (∀ i, Runnable agingTable.proc i → (agingTable.proc i).queueLevel < schedMlfqLevels) ∧
      ∃ k' cursor' r, mlfqSelectNext agingTable 5 1 = some (k', cursor', r) ∧
        (k'.proc 0).queueLevel = 0 := by
  have hlev : ∀ i, Runnable agingTable.proc i →
      (agingTable.proc i).queueLevel < schedMlfqLevels := by
    intro i _
    rw [agingTable]
    dsimp only
    split_ifs <;> decide
  obtain ⟨k', cursor', r, hsel, _, _, _, _, hprom, _⟩ :=
    mlfq_selection_with_aging agingTable 5 0 hlev
  refine ⟨hlev, k', cursor', r, hsel, ?_⟩
  rw [hprom 0 rfl (by decide) (by decide)]
  rfl

end Xv6Riscv
