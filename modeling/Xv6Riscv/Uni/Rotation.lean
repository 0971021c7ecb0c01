import Xv6Riscv.Uni.Kernel

/-!
Taking turns on one CPU.

The cursors of the static-priority and MLFQ selectors are there to make processes of the same
priority, or of the same queue, take turns. There is one cursor for all priorities, and every
selection moves it, so they do not always: a process of higher priority that sits between `p` and
`q` in the table, wakes, is selected and sleeps again puts the cursor past `p` each time
(`priority_rotation_fails`, `mlfq_rotation_fails`).

What holds is that this is the only way. As long as no better process in a slot strictly between
`p` and `q`, going forward from `p`, is runnable at a selection, the cursor meets `p` before `q`
from one selection of `q` to the next, and `q` is not selected twice without `p` in between
(`priority_rotation`, `mlfq_rotation`).
-/

namespace Xv6Riscv

namespace Uni

open Cyclic

variable {k : Kernel} {p q : Slot}

/-- A slot that is running after a turn of `scheduler` is not the one that stays runnable. -/
lemma ne_of_dispatched {b : Slot} (hp : ((k.apply (.dispatch b)).proc p).state = .runnable) :
    b ≠ p := by
  rintro rfl
  rw [Kernel.apply_proc_self _ _ rfl] at hp
  cases hp

/-- The states reachable with the policy `pol` active throughout. -/
def ReachableUnder (pol : SchedPolicy) (u : Uni) : Prop :=
  ∃ pre, (boot pol).Along (fun s => s.k.policy = pol) (fun _ _ => True) pre ∧
    (boot pol).run pre = some u

/-- Two selections of a run from boot under one policy: after `pre`, `select_next_proc` returns
`q`, and after `es` again, `r`. In between every state satisfies `P` and every event `C`, and `Q`
holds after each of the two. -/
def TwoSelections (pol : SchedPolicy) (pre es : List Event) (P Q : Uni → Prop)
    (C : Uni → Event → Prop) (q r : Slot) : Prop :=
  let u := (boot pol).after pre
  let v := u.after [.schedule]
  let w := v.after es
  (boot pol).Along (fun s => s.k.policy = pol) (fun _ _ => True) pre ∧
    ((boot pol).run pre).isSome ∧ P u ∧ (u.run [.schedule]).isSome ∧
    u.returned .schedule = some q ∧ Q v ∧ v.Along P C es ∧ (v.run es).isSome ∧
    (w.run [.schedule]).isSome ∧ w.returned .schedule = some r ∧ Q (w.after [.schedule])

instance (pol : SchedPolicy) (pre es : List Event) (P Q : Uni → Prop) (C : Uni → Event → Prop)
    (q r : Slot) [DecidablePred P] [DecidablePred Q] [∀ u e, Decidable (C u e)] :
    Decidable (TwoSelections pol pre es P Q C q r) :=
  inferInstanceAs (Decidable (_ ∧ _))

lemma TwoSelections.exists_states {pol : SchedPolicy} {pre es : List Event} {P Q : Uni → Prop}
    {C : Uni → Event → Prop} {r : Slot} (h : TwoSelections pol pre es P Q C q r) :
    ∃ u v w x : Uni, u.ReachableUnder pol ∧ P u ∧ u.step .schedule = some v ∧
      u.returned .schedule = some q ∧ Q v ∧ v.Along P C es ∧ v.run es = some w ∧
      w.step .schedule = some x ∧ w.returned .schedule = some r ∧ Q x := by
  obtain ⟨hpol, hpre, hP, hv, hq, hQ, hes, hw, hx, hr, hQ'⟩ := h
  exact ⟨_, _, _, _, ⟨pre, hpol, run_after hpre⟩, hP, step_after hv, hq, hQ, hes, run_after hw,
    step_after hx, hr, hQ'⟩

/-! ### Static priority -/

/-- Static priority is active, `p` is runnable, and `p` and `q` have priority `c`. -/
def SamePriority (p q : Slot) (c : ℤ) (u : Uni) : Prop :=
  u.k.policy = .staticPriority ∧ (u.k.proc p).state = .runnable ∧
    (u.k.proc p).priority = c ∧ (u.k.proc q).priority = c

/-- At a turn of `scheduler`, no runnable process strictly between `p` and `q` has a higher
priority than `p`. -/
def NoHigherBetween (p q : Slot) (u : Uni) (e : Event) : Prop :=
  e = .schedule → ∀ r, Between p q r → (u.k.proc r).state = .runnable →
    (u.k.proc r).priority ≤ (u.k.proc p).priority

instance (p q : Slot) (c : ℤ) : DecidablePred (SamePriority p q c) := fun _ =>
  inferInstanceAs (Decidable (_ ∧ _))

instance (p q : Slot) (u : Uni) (e : Event) : Decidable (NoHigherBetween p q u e) :=
  inferInstanceAs (Decidable (_ → _))

lemma priority_rotation_step {v v' : Uni} {e : Event} {c : ℤ}
    (hI : dist v.priorityCursor p < dist v.priorityCursor q) (hP : SamePriority p q c v)
    (hP' : SamePriority p q c v') (hC : NoHigherBetween p q v e) (h : v.step e = some v') :
    dist v'.priorityCursor p < dist v'.priorityCursor q := by
  by_cases he : e = .schedule
  · subst he
    rcases schedule_priority hP.1 h with ⟨-, rfl, -⟩ | ⟨b, -, hb, rfl⟩
    · exact hI
    · exact hb.rotation hP.2.1 (ne_of_dispatched hP'.2.1) hI (hC rfl)
  · rwa [(step_cursor he h).1]

/-- **Processes of equal priority take turns** over every stretch of a run in which no better
process between them is runnable at a selection. -/
theorem priority_rotation {u v w x : Uni} {es : List Event} {p q : Slot} {c : ℤ}
    (hu : SamePriority p q c u) (hv : u.step .schedule = some v)
    (hsel : u.returned .schedule = some q)
    (hes : v.Along (SamePriority p q c) (NoHigherBetween p q) es) (hw : v.run es = some w)
    (hx : w.step .schedule = some x) : w.returned .schedule ≠ some q := by
  -- the first selection leaves the cursor behind `q`
  have hI : dist v.priorityCursor p < dist v.priorityCursor q := by
    rcases schedule_priority hu.1 hv with ⟨hnone, -, -⟩ | ⟨b, hb, -, rfl⟩
    · rw [hsel] at hnone
      cases hnone
    · rw [hsel] at hb
      cases hb
      exact dist_next_self_lt (ne_of_dispatched hes.head.2.1).symm
  obtain ⟨hI, hPw⟩ := hes.invariant
    (I := fun s => dist s.priorityCursor p < dist s.priorityCursor q) hw hI
    fun s e s' hI hP hP' hC h => priority_rotation_step hI hP hP' hC h
  rcases schedule_priority hPw.1 hx with ⟨hnone, -, -⟩ | ⟨b, hb, hfirst, -⟩
  · rw [hnone]
    simp
  · rw [hb]
    intro he
    cases he
    refine hfirst.ne_of_dist_lt hPw.2.1 ?_ hI rfl
    exact (hPw.2.2.2.trans hPw.2.2.1.symm).le

/-- Three forks by init, which is then preempted. -/
def forkPrefix : List Event :=
  [.schedule] ++ forkEvents 1 0 ++ forkEvents 2 0 ++ forkEvents 3 0 ++ [.timer true]

/-- Two processes are preempted in turn. -/
def twoTurns : List Event := [.timer true, .schedule, .timer true]

/-- The hypotheses are met by four processes that are preempted in turn: slot 2 is selected
between two turns of slot 1, and slot 0, between slots 3 and 1, is runnable then. -/
theorem priority_rotation_forks : ∃ u v w x : Uni, u.ReachableUnder .staticPriority ∧
    SamePriority 3 1 0 u ∧ u.step .schedule = some v ∧ u.returned .schedule = some 1 ∧
    v.Along (SamePriority 3 1 0) (NoHigherBetween 3 1) twoTurns ∧ v.run twoTurns = some w ∧
    w.step .schedule = some x ∧ w.returned .schedule ≠ some 1 := by
  obtain ⟨u, v, w, x, hu, hP, hv, hq, -, hes, hw, hx, -, -⟩ := TwoSelections.exists_states
    (by decide +kernel : TwoSelections .staticPriority forkPrefix twoTurns
      (SamePriority 3 1 0) (fun _ => True) (NoHigherBetween 3 1) 1 3)
  exact ⟨u, v, w, x, hu, hP, hv, hq, hes, hw, hx, priority_rotation hP hv hq hes hw hx⟩

/-- Two forks by init, of which slot 1 is given priority 1; it runs, sleeps, and leaves slots 0
and 2, of priority 0, runnable. -/
def priorityPrefix : List Event :=
  [.schedule] ++ forkEvents 1 0 ++ forkEvents 2 0 ++
    [.op (.setPrio 1 2 1), .timer true, .schedule] ++ sleepEvents 1 (.addr 7)

/-- Slot 1 is woken while another process runs, preempts it and sleeps again. -/
def detour : List Event :=
  [.op (.wakeup 1 (some (.addr 7))), .timer true, .schedule] ++ sleepEvents 1 (.addr 7)

/-- **Without the condition they do not take turns**: with init in slot 0, a process of higher
priority in slot 1 and one of init's priority in slot 2, the last is selected twice in a row
while init is runnable. -/
theorem priority_rotation_fails :
    ¬ ∀ (u v w x : Uni) (es : List Event) (p q : Slot) (c : ℤ),
      u.ReachableUnder .staticPriority → SamePriority p q c u → u.step .schedule = some v →
      u.returned .schedule = some q →
      v.Along (SamePriority p q c) (fun s e => s.returned e ≠ some p) es → v.run es = some w →
      w.step .schedule = some x → SamePriority p q c x → w.returned .schedule ≠ some q := by
  intro h
  obtain ⟨u, v, w, x, hu, hP, hv, hq, -, hes, hw, hx, hr, hQ⟩ := TwoSelections.exists_states
    (by decide +kernel : TwoSelections .staticPriority priorityPrefix detour
      (SamePriority 0 2 0) (SamePriority 0 2 0) (fun s e => s.returned e ≠ some 0) 2 2)
  exact h u v w x _ 0 2 0 hu hP hv hq hes hw hx hQ hr

/-! ### MLFQ -/

/-- MLFQ is active and `p` is runnable at level `l`. -/
def AtLevel (p : Slot) (l : ℤ) (u : Uni) : Prop :=
  u.k.policy = .mlfq ∧ (u.k.proc p).state = .runnable ∧ (u.k.proc p).queueLevel = l

/-- At a turn of `scheduler`, every runnable process strictly between `p` and `q` is at the level
of `p`, not due for promotion, or below it. -/
def NoHigherLevelBetween (p q : Slot) (u : Uni) (e : Event) : Prop :=
  e = .schedule → ∀ r, Between p q r → (u.k.proc r).state = .runnable →
    (u.k.proc p).queueLevel < (u.k.proc r).queueLevel ∨
      (u.k.proc p).queueLevel = (u.k.proc r).queueLevel ∧ ¬ (u.k.proc r).Promotes u.k.now

instance (p : Slot) (l : ℤ) : DecidablePred (AtLevel p l) := fun _ =>
  inferInstanceAs (Decidable (_ ∧ _))

instance (p q : Slot) (u : Uni) (e : Event) : Decidable (NoHigherLevelBetween p q u e) :=
  inferInstanceAs (Decidable (_ → _))

/-- A process below `l`, or at `l` and not due for promotion, is not above `l` after aging. -/
lemma le_aged_level {i : Slot} {l : ℤ} (h : l < (k.proc i).queueLevel ∨
    l = (k.proc i).queueLevel ∧ ¬ (k.proc i).Promotes k.now) : l ≤ (aged k i).queueLevel := by
  rw [aged, age_queueLevel]
  rcases h with h | ⟨h, hnot⟩
  · split_ifs <;> omega
  · rw [if_neg hnot, h]

lemma dispatched_level {u : Uni} {c c' b : Slot} (h : MlfqSelected u.k c k c' (some b)) :
    ((dispatch { u with k := k, mlfqCursor := c' } (some b)).k.proc b).queueLevel
      = (aged u.k b).queueLevel := by
  rw [dispatch, Kernel.apply_proc_self _ _ rfl]
  show (k.proc b).queueLevel = _
  rw [h.proc_self b rfl, aged, age_age]

lemma mlfq_rotation_step {v v' : Uni} {e : Event} {l : ℤ} (hv : v.Sound)
    (hI : dist v.mlfqCursor p < dist v.mlfqCursor q) (hP : AtLevel p l v) (hP' : AtLevel p l v')
    (hC : NoHigherLevelBetween p q v e) (h : v.step e = some v') :
    dist v'.mlfqCursor p < dist v'.mlfqCursor q := by
  by_cases he : e = .schedule
  · subst he
    obtain ⟨k, c, r, -, hsel, rfl⟩ := schedule_mlfq hv hP.1 h
    rcases hsel.result with ⟨rfl, rfl, -⟩ | ⟨b, rfl, rfl, hb⟩
    · exact hI
    · refine hb.rotation hP.2.1 (ne_of_dispatched hP'.2.1) hI fun i hi hrun => ?_
      have hle := le_aged_level (hC rfl i hi hrun)
      have hp := aged_level_le v.k p
      show -(aged v.k i).queueLevel ≤ -(aged v.k p).queueLevel
      omega
  · rwa [(step_cursor he h).2]

/-- **Processes of the same queue take turns** over every stretch of a run in which, at each
selection, no runnable process between them is in a higher queue or about to enter one. -/
theorem mlfq_rotation {u v w x : Uni} {es : List Event} {p q : Slot} {l : ℤ} (hreach : u.Reachable)
    (hu : AtLevel p l u) (hv : u.step .schedule = some v) (hsel : u.returned .schedule = some q)
    (hes : v.Along (AtLevel p l) (NoHigherLevelBetween p q) es) (hw : v.run es = some w)
    (hx : w.step .schedule = some x) (hq : (x.k.proc q).queueLevel = l) :
    w.returned .schedule ≠ some q := by
  have hsound := hreach.sound
  -- the first selection leaves the cursor behind `q`
  have hI : dist v.mlfqCursor p < dist v.mlfqCursor q := by
    obtain ⟨k, c, r, hr, hspec, rfl⟩ := schedule_mlfq hsound hu.1 hv
    rw [hsel] at hr
    subst hr
    rcases hspec.result with ⟨hnone, -, -⟩ | ⟨b, hb, rfl, -⟩
    · cases hnone
    · cases hb
      exact dist_next_self_lt (ne_of_dispatched hes.head.2.1).symm
  obtain ⟨⟨hwsound, hI⟩, hPw⟩ := hes.invariant
    (I := fun s => s.Sound ∧ dist s.mlfqCursor p < dist s.mlfqCursor q) hw ⟨hsound.step hv, hI⟩
    fun s e s' hI hP hP' hC h => ⟨hI.1.step h, mlfq_rotation_step hI.1 hI.2 hP hP' hC h⟩
  obtain ⟨k, c, r, hr, hspec, rfl⟩ := schedule_mlfq hwsound hPw.1 hx
  rw [hr]
  rintro rfl
  rcases hspec.result with ⟨hnone, -, -⟩ | ⟨b, hb, rfl, hfirst⟩
  · cases hnone
  · cases hb
    rw [dispatched_level hspec] at hq
    refine hfirst.ne_of_dist_lt hPw.2.1 ?_ hI rfl
    have hp := aged_level_le w.k p
    have hl := hPw.2.2
    show -(aged w.k q).queueLevel ≤ -(aged w.k p).queueLevel
    omega

/-- MLFQ is active, `p` is runnable and both `p` and `q` are at level `l`. -/
def BothAtLevel (p q : Slot) (l : ℤ) (u : Uni) : Prop :=
  AtLevel p l u ∧ (u.k.proc q).queueLevel = l

instance (p q : Slot) (l : ℤ) : DecidablePred (BothAtLevel p q l) := fun _ =>
  inferInstanceAs (Decidable (_ ∧ _))

/-- Slot 1 sleeps and is woken, slot 2 is selected and sleeps. -/
def shortSleeps : List Event :=
  sleepEvents 1 (.addr 7) ++ [.op (.wakeup 1 (some (.addr 7))), .schedule] ++
    sleepEvents 2 (.addr 7)

/-- The hypotheses are met by three processes in the highest queue, init being below them. -/
theorem mlfq_rotation_forks : ∃ u v w x : Uni, u.Reachable ∧ AtLevel 3 0 u ∧
    u.step .schedule = some v ∧ u.returned .schedule = some 1 ∧
    v.Along (AtLevel 3 0) (NoHigherLevelBetween 3 1) shortSleeps ∧ v.run shortSleeps = some w ∧
    w.step .schedule = some x ∧ (x.k.proc 1).queueLevel = 0 ∧ w.returned .schedule ≠ some 1 := by
  obtain ⟨u, v, w, x, ⟨pre, _, hpre⟩, hP, hv, hq, -, hes, hw, hx, -, hQ⟩ :=
    TwoSelections.exists_states (by decide +kernel : TwoSelections .mlfq forkPrefix shortSleeps
      (AtLevel 3 0) (fun s => (s.k.proc 1).queueLevel = 0) (NoHigherLevelBetween 3 1) 1 3)
  exact ⟨u, v, w, x, ⟨_, pre, hpre⟩, hP, hv, hq, hes, hw, hx, hQ,
    mlfq_rotation ⟨_, pre, hpre⟩ hP hv hq hes hw hx hQ⟩

/-- Two forks by init, which uses up its slice; slot 1 sleeps, slot 2 uses up its slice, and
slot 1, woken meanwhile, runs once more and sleeps. -/
def mlfqPrefix : List Event :=
  [.schedule] ++ forkEvents 1 0 ++ forkEvents 2 0 ++ [.timer true, .schedule] ++
    sleepEvents 1 (.addr 7) ++ [.schedule] ++ detour

/-- **Without the condition they do not take turns**: with init and slot 2 in the second queue
and slot 1, in the first, waking and sleeping, slot 2 is selected twice in a row while init is
runnable. -/
theorem mlfq_rotation_fails :
    ¬ ∀ (u v w x : Uni) (es : List Event) (p q : Slot) (l : ℤ), u.ReachableUnder .mlfq →
      AtLevel p l u → u.step .schedule = some v → u.returned .schedule = some q →
      BothAtLevel p q l v → v.Along (AtLevel p l) (fun s e => s.returned e ≠ some p) es →
      v.run es = some w → w.step .schedule = some x → BothAtLevel p q l x →
      w.returned .schedule ≠ some q := by
  intro h
  obtain ⟨u, v, w, x, hu, hP, hv, hq, hQ, hes, hw, hx, hr, hQ'⟩ := TwoSelections.exists_states
    (by decide +kernel : TwoSelections .mlfq mlfqPrefix detour (AtLevel 0 1)
      (BothAtLevel 0 2 1) (fun s e => s.returned e ≠ some 0) 2 2)
  exact h u v w x _ 0 2 1 hu hP hv hq hQ hes hw hx hQ' hr

end Uni

end Xv6Riscv
