import Xv6Riscv.Uni.Kernel

/-!
How long a process waits under MLFQ on one CPU.

Consider a stretch of a run during which slot `i` is runnable and is not selected. Nothing but the
selector touches the scheduling fields of a runnable process (`waits_step`), and the selector ages
it; so the level of `i` changes only when a call finds it old enough, and then by one
(`level_add_drops`). At level 0 the distance from the cursor to `i` is a measure: a call that
returns another slot `b` returns one met before `i` and puts the cursor behind it
(`call_of_level_zero`), so the slots returned are distinct and fewer than `NPROC`.

The main result, `mlfq_starvation_bound`, puts these together.
-/

namespace Xv6Riscv

namespace Uni

open Cyclic

/-- MLFQ is active and `i` is runnable. -/
def Waits (i : Slot) (u : Uni) : Prop :=
  u.k.policy = .mlfq ∧ (u.k.proc i).state = .runnable

/-- What the calls of `select_next_proc` return along a run. -/
def answers (u : Uni) : List Event → List (Option Slot)
  | [] => []
  | e :: es =>
    (if e = .schedule then [u.returned e] else []) ++
      match u.step e with
      | none => []
      | some v => v.answers es

/-- How many events of a run lower the level of `i`. -/
def drops (i : Slot) (u : Uni) : List Event → ℕ
  | [] => 0
  | e :: es =>
    match u.step e with
    | none => 0
    | some v =>
      (if (v.k.proc i).queueLevel < (u.k.proc i).queueLevel then 1 else 0) + v.drops i es

instance (i : Slot) : DecidablePred (Waits i) := fun _ => inferInstanceAs (Decidable (_ ∧ _))

/-! ### One event -/

section Event

variable {u v : Uni} {i : Slot} {e : Event}

/-- A call of `mlfq_select_next` that does not return `i` ages it. -/
lemma call_proc (hu : u.Sound) (hP : Waits i u) (h : u.step .schedule = some v)
    (hne : u.returned .schedule ≠ some i) : v.k.proc i = aged u.k i := by
  obtain ⟨k, c, r, hr, hsel, rfl⟩ := schedule_mlfq hu hP.1 h
  rw [hr] at hne
  rw [← hsel.proc_of_ne i hne]
  cases r with
  | none => rfl
  | some b =>
    rw [dispatch, Kernel.apply_proc_of_ne]
    simpa [Op.slot] using hne

/-- Any other event leaves its level and `ready_since` alone. -/
lemma waits_step (hu : u.Sound) (hP : Waits i u) (he : e ≠ .schedule) (h : u.step e = some v) :
    (v.k.proc i).queueLevel = (u.k.proc i).queueLevel ∧
      (v.k.proc i).readySince = (u.k.proc i).readySince := by
  have hreach := (reach_step hu.curRunning h).2.mono
    fun o (ho : o.OfScheduler → e = .schedule) hs => he (ho hs)
  obtain ⟨-, hl, -, hr⟩ := hreach.proc_of_runnable hP.2
  exact ⟨hl, hr⟩

lemma level_step (hu : u.Sound) (hP : Waits i u) (h : u.step e = some v)
    (hne : u.returned e ≠ some i) :
    (v.k.proc i).queueLevel
      + (if (v.k.proc i).queueLevel < (u.k.proc i).queueLevel then 1 else 0)
      = (u.k.proc i).queueLevel := by
  by_cases he : e = .schedule
  · subst he
    rw [call_proc hu hP h hne, aged, age_queueLevel]
    split_ifs <;> omega
  · rw [(waits_step hu hP he h).1, if_neg (lt_irrefl _), add_zero]

/-- A process that has waited for `SCHED_MLFQ_AGING_THRESHOLD` ticks below the highest queue is
promoted. -/
lemma promotes_of_le {k : Kernel} {p : Proc} (hrun : p.state = .runnable)
    (hready : p.readySince.toNat + schedMlfqAgingThreshold.toNat ≤ k.ticks.toNat)
    (hpos : 0 < p.queueLevel) : p.Promotes k.now := by
  have hnow : k.now.toNat = k.ticks.toNat := by simp [Kernel.now]
  have hle : p.readySince ≤ k.now := by
    rw [UInt64.le_iff_toNat_le]
    omega
  refine ⟨hrun, ?_, hpos⟩
  rw [UInt64.le_iff_toNat_le, UInt64.toNat_sub_of_le _ _ hle]
  omega

/-- **The measure at level 0**: a call that does not return `i` returns a slot at most as far
from `i` as the cursor was, and puts the cursor behind it. -/
lemma call_of_level_zero (hu : u.Sound) (hP : Waits i u) (h0 : (u.k.proc i).queueLevel = 0)
    (h : u.step .schedule = some v) (hne : u.returned .schedule ≠ some i) :
    ∃ b, u.returned .schedule = some b ∧ dist v.mlfqCursor i < dist b i ∧
      dist b i ≤ dist u.mlfqCursor i := by
  obtain ⟨k, c, r, hr, hsel, rfl⟩ := schedule_mlfq hu hP.1 h
  rcases hsel.result with ⟨-, -, hno⟩ | ⟨b, rfl, rfl, hb⟩
  · exact absurd hP.2 (hno i)
  · refine ⟨b, hr, hb.dist_next_lt_dist hP.2 (fun he => hne (by rw [hr, he])) ?_⟩
    -- no level is below 0, and `i` itself is at 0 also after aging
    have hlow : 0 ≤ (aged u.k b).queueLevel :=
      (age_levelOk (hu.levelsOk b) u.k.now).1.level_nonneg
    have hi : (aged u.k i).queueLevel ≤ 0 := by
      rw [aged, age_queueLevel]
      split_ifs <;> omega
    show -(aged u.k b).queueLevel ≤ -(aged u.k i).queueLevel
    omega

end Event

/-! ### A stretch of a run -/

section Stretch

variable {u v : Uni} {i : Slot} {es : List Event}

lemma level_add_drops (hu : u.Sound) (hes : u.Along (Waits i) (fun s e => s.returned e ≠ some i) es)
    (hv : u.run es = some v) :
    (v.k.proc i).queueLevel + u.drops i es = (u.k.proc i).queueLevel := by
  induction es generalizing u with
  | nil =>
    cases hv
    simp [drops]
  | cons e es ih =>
    obtain ⟨hP, hC, w, hw, htail⟩ := hes
    obtain ⟨w', hw', hrun⟩ := run_cons.mp hv
    obtain rfl : w = w' := Option.some.inj (hw.symm.trans hw')
    have htail := ih (hu.step hw) htail hrun
    have hstep := level_step hu hP hw hC
    simp only [drops, hw]
    push_cast
    omega

lemma level_zero_step {e : Event} (hu : u.Sound) (hP : Waits i u) (h : u.step e = some v)
    (hne : u.returned e ≠ some i) (h0 : (u.k.proc i).queueLevel = 0) :
    (v.k.proc i).queueLevel = 0 := by
  have hstep := level_step hu hP h hne
  have hlow := ((hu.step h).levelsOk i).level_nonneg
  split_ifs at hstep <;> omega

/-- **At level 0** the calls return distinct slots other than `i`, and each of them brings the
cursor at least one place closer to `i`. -/
lemma answers_of_level_zero (hu : u.Sound) (h0 : (u.k.proc i).queueLevel = 0)
    (hes : u.Along (Waits i) (fun s e => s.returned e ≠ some i) es) (hv : u.run es = some v) :
    ∃ js : List Slot, u.answers es = js.map some ∧ js.Nodup ∧
      (∀ j ∈ js, 0 < dist j i ∧ dist j i ≤ dist u.mlfqCursor i) ∧
      js.length + dist v.mlfqCursor i ≤ dist u.mlfqCursor i := by
  induction es generalizing u with
  | nil =>
    cases hv
    exact ⟨[], rfl, List.nodup_nil, by simp, by simp⟩
  | cons e es ih =>
    obtain ⟨hP, hC, w, hw, htail⟩ := hes
    obtain ⟨w', hw', hrun⟩ := run_cons.mp hv
    obtain rfl : w = w' := Option.some.inj (hw.symm.trans hw')
    obtain ⟨js, hjs, hnodup, hdist, hlen⟩ :=
      ih (hu.step hw) (level_zero_step hu hP hw hC h0) htail hrun
    by_cases he : e = .schedule
    · subst he
      obtain ⟨b, hb, hlt, hle⟩ := call_of_level_zero hu hP h0 hw hC
      refine ⟨b :: js, ?_, ?_, ?_, ?_⟩
      · simp [answers, hw, hb, hjs]
      · -- a slot returned later is strictly closer to `i` than `b`
        refine List.nodup_cons.mpr ⟨fun hmem => ?_, hnodup⟩
        have := (hdist b hmem).2
        omega
      · intro j hj
        rcases List.mem_cons.mp hj with rfl | hj
        · exact ⟨by omega, hle⟩
        · have := hdist j hj
          omega
      · rw [List.length_cons]
        omega
    · rw [(step_cursor he hw).2] at hdist hlen
      exact ⟨js, by simp [answers, hw, he, hjs], hnodup, hdist, hlen⟩

/-- **Starvation bound.** Over every stretch of a run with MLFQ active in which slot `i` is
runnable and not selected:

* a call of `mlfq_select_next` at a tick at least `SCHED_MLFQ_AGING_THRESHOLD` after `ready_since`
  lowers the level of `i` by exactly one if it is positive;
* the level of `i` never rises, and it drops at most `SCHED_MLFQ_LEVELS - 1` times;
* if `i` is at level 0 at the beginning, the calls return distinct slots other than `i`, at most
  `NPROC - 1` of them, and after `NPROC - 1` calls the next one returns `i`;
* a call always ends. -/
theorem mlfq_starvation_bound (hu : u.Reachable)
    (hes : u.Along (Waits i) (fun s e => s.returned e ≠ some i) es) (hv : u.run es = some v) :
    (∀ w, v.step .schedule = some w → v.returned .schedule ≠ some i →
      (v.k.proc i).readySince.toNat + schedMlfqAgingThreshold.toNat ≤ v.k.ticks.toNat →
      0 < (v.k.proc i).queueLevel → (w.k.proc i).queueLevel = (v.k.proc i).queueLevel - 1) ∧
    (v.k.proc i).queueLevel + u.drops i es = (u.k.proc i).queueLevel ∧
    u.drops i es ≤ schedMlfqLevels - 1 ∧
    ((u.k.proc i).queueLevel = 0 →
      (∃ js : List Slot, u.answers es = js.map some ∧ js.Nodup ∧ i ∉ js ∧ js.length ≤ nproc - 1) ∧
      ∀ w, (u.answers es).length = nproc - 1 → v.step .schedule = some w →
        v.returned .schedule = some i) ∧
    (v.cur = none → ∃ w, v.step .schedule = some w) := by
  have hsound := hu.sound
  have hvsound := hsound.run hv
  have hvP : Waits i v := (hes.invariant (I := fun _ => True) hv trivial fun _ _ _ _ _ _ _ _ =>
    trivial).2
  have hdrops := level_add_drops hsound hes hv
  refine ⟨fun w hw hne hready hpos => ?_, hdrops, ?_, fun h0 => ?_, ?_⟩
  · rw [call_proc hvsound hvP hw hne, aged, age_queueLevel,
      if_pos (promotes_of_le hvP.2 hready hpos)]
  · have hlow := (hvsound.levelsOk i).level_nonneg
    have hhigh := (hsound.levelsOk i).level_lt
    omega
  · obtain ⟨js, hjs, hnodup, hdist, hlen⟩ := answers_of_level_zero hsound h0 hes hv
    have hlt := dist_lt u.mlfqCursor i
    refine ⟨⟨js, hjs, hnodup, fun hmem => ?_, by omega⟩, fun w hfull hw => ?_⟩
    · have := (hdist i hmem).1
      rw [dist_self] at this
      exact lt_irrefl _ this
    · -- the cursor has reached `i`
      have hlength : js.length = nproc - 1 := by rw [← hfull, hjs, List.length_map]
      have hv0 : (v.k.proc i).queueLevel = 0 := by
        have hlow := (hvsound.levelsOk i).level_nonneg
        omega
      by_contra hne
      obtain ⟨b, -, hb, hb'⟩ := call_of_level_zero hvsound hvP hv0 hw hne
      omega
  · exact schedule_mlfq_total hvsound hvP.1

def twoForks : List Event := [.schedule] ++ forkEvents 1 0 ++ forkEvents 2 0

/-- The hypotheses are met by slot 2, in the highest queue while init is preempted and slot 1
selected. -/
theorem mlfq_starvation_bound_forks :
    ∃ js : List Slot, ((boot .mlfq).after twoForks).answers [.timer true, .schedule]
      = js.map some ∧ js.Nodup ∧ 2 ∉ js ∧ js.length ≤ nproc - 1 := by
  have h : ((boot .mlfq).run twoForks).isSome ∧
      ((boot .mlfq).after twoForks).Along (Waits 2) (fun s e => s.returned e ≠ some 2)
        [.timer true, .schedule] ∧
      (((boot .mlfq).after twoForks).run [.timer true, .schedule]).isSome ∧
      (((boot .mlfq).after twoForks).k.proc 2).queueLevel = 0 := by decide +kernel
  exact ((mlfq_starvation_bound ⟨.mlfq, twoForks, run_after h.1⟩ h.2.1
    (run_after h.2.2.1)).2.2.2.1 h.2.2.2).1

end Stretch

end Uni

end Xv6Riscv
