import Xv6Riscv.Proc.Levels
import Xv6Riscv.Proc.Select

/-!
The kernel on one CPU.

On a single CPU a section that runs with interrupts off is not interleaved with anything, so a
whole turn of `scheduler` (`select_next_proc` and the bookkeeping of the dispatch) is one event,
and so is the handling of a timer interrupt up to the `yield` that may end it. Everything else a
process or a device interrupt does to the process table is an operation of `Op`, allowed when the
process performing it is the current one.

* `Uni.step`: the events, as a partial function on the state; `Uni.Reachable` the states of the
  runs from boot, and `Uni.Along` a property of all states and events of a stretch of a run.
* `Uni.step_ops`: every event performs a legal sequence of operations of the table, `Uni.ops`, and
  so does a run (`Uni.run_trace`), so that what is proved about those holds here;
  `Uni.Reachable.sound` is the instance for levels and slices.
-/

namespace Xv6Riscv

open Cyclic

/-- The state of the kernel with one CPU: `cur` is `c->proc`. -/
structure Uni where
  k : Kernel
  cur : Option Slot
  rrCursor : Slot
  priorityCursor : Slot
  mlfqCursor : Slot

/-- The channel `&ticks`. -/
def ticksChan : Chan := .addr 0

/-- `wakeup(chan)` with no step between the slots. -/
def wakeupOps (ch : Chan) : List Op := (List.finRange nproc).map fun i => .wakeup i (some ch)

/-- Whether an operation is performed while `cur` is the current process. Selection, dispatch
and the accounting of ticks are not operations of a process. -/
def Op.ByCurrent (cur : Option Slot) : Op → Prop
  | age _ | dispatch _ | tick _ | yield _ | clock => False
  | sleepPrepare p _ | sleep p | setkilled p | setParent _ p | reparent _ p => cur = some p
  | exit p _ => cur = some p ∧ p ≠ initproc
  | allocproc _ | freeproc _ | runnable _ | kill _ _ | setPrio _ _ _ | reap _ => cur ≠ none
  | wakeup _ _ | policySwitch _ => True

instance (cur : Option Slot) (o : Op) : Decidable (o.ByCurrent cur) := by
  rcases o with ⟨⟩ <;> unfold Op.ByCurrent <;> infer_instance

namespace Uni

/-- The events of a single CPU. -/
inductive Event
  /-- a turn of the loop of `scheduler` -/
  | schedule
  /-- a timer interrupt, taken in user mode or in the kernel -/
  | timer (user : Bool)
  /-- an operation of the current process or of a device interrupt -/
  | op (o : Op)
  deriving DecidableEq

/-- `select_next_proc`: the state it leaves and the process it returns. -/
def selectNextProc (u : Uni) : Option (Uni × Option Slot) :=
  match u.k.policy with
  | .rr =>
    let (c, r) := rrSelectNext u.k.proc u.rrCursor
    some ({ u with rrCursor := c }, r)
  | .staticPriority =>
    (prioritySelectNext u.k.proc u.priorityCursor 1).map fun (c, r) =>
      ({ u with priorityCursor := c }, r)
  | .mlfq =>
    (mlfqSelectNext u.k u.mlfqCursor 1).map fun (k, c, r) =>
      ({ u with k := k, mlfqCursor := c }, r)

/-- What `scheduler` does with the answer of `select_next_proc`. -/
def dispatch (u : Uni) : Option Slot → Uni
  | none => u
  | some p => { u with k := u.k.apply (.dispatch p), cur := some p }

/-- A turn of the loop of `scheduler`, which runs when no process is current. -/
def schedule (u : Uni) : Option Uni :=
  if u.cur = none then u.selectNextProc.map fun (u, r) => u.dispatch r else none

/-- A timer interrupt: `clockintr`, then the end of `usertrap` or `kerneltrap`. A killed process
interrupted in user mode goes on to `kexit` and is not charged. -/
def timer (u : Uni) (user : Bool) : Uni :=
  let k := (u.k.apply .clock).after (wakeupOps ticksChan)
  match u.cur with
  | none => { u with k := k }
  | some p =>
    if user ∧ (k.proc p).killed then { u with k := k }
    else
      let k := k.apply (.tick p)
      if (activeStrategy k.policy).shouldPreempt k.proc (k.proc p) then
        { u with k := k.apply (.yield p), cur := none }
      else { u with k := k }

/-- An operation of the current process; a process that is no longer running has switched to the
scheduler. -/
def perform (u : Uni) (o : Op) : Uni :=
  let k := u.k.apply o
  { u with k := k, cur := u.cur.filter fun p => (k.proc p).state = .running }

def step (u : Uni) : Event → Option Uni
  | .schedule => u.schedule
  | .timer user => some (u.timer user)
  | .op o => if o.ByCurrent u.cur ∧ o.Ok u.k then some (u.perform o) else none

/-- The process returned by `select_next_proc` in an event. -/
def returned (u : Uni) : Event → Option Slot
  | .schedule => u.selectNextProc.bind fun (_, r) => r
  | .timer _ | .op _ => none

def run (u : Uni) : List Event → Option Uni
  | [] => some u
  | e :: es => (u.step e).bind fun u' => u'.run es

/-- The state when the CPU enters `scheduler`. -/
def boot (pol : SchedPolicy) : Uni where
  k := bootKernel pol
  cur := none
  rrCursor := 0
  priorityCursor := 0
  mlfqCursor := 0

/-- `kfork` by `p`, into the slot `np`. -/
def forkEvents (np p : Slot) : List Event :=
  [.op (.allocproc np), .op (.setParent np p), .op (.runnable np)]

/-- `sleep_prepare(chan)` and `sleep()` by `p`. -/
def sleepEvents (p : Slot) (ch : Chan) : List Event :=
  [.op (.sleepPrepare p ch), .op (.sleep p)]

/-! ### Events perform operations of the table -/

def CurRunning (u : Uni) : Prop := ∀ p, u.cur = some p → (u.k.proc p).state = .running

/-- The agings of a turn of `mlfq_select_next`: those of the scan, then that of the candidate. -/
def mlfqAgings (k : Kernel) (cursor : Slot) : List Op :=
  (List.range nproc).map (fun m => .age (place cursor m)) ++
    ((mlfqScan k cursor nproc).2.1.map Op.age).toList

/-- What the end of a trap handler does to the interrupted process. -/
def tickOps (k : Kernel) (user : Bool) : Option Slot → List Op
  | none => []
  | some p =>
    if user ∧ (k.proc p).killed then []
    else
      let k := k.apply (.tick p)
      if (activeStrategy k.policy).shouldPreempt k.proc (k.proc p) then [.tick p, .yield p]
      else [.tick p]

/-- The operations of the process table that an event performs. -/
def ops (u : Uni) : Event → List Op
  | .schedule =>
    (if u.k.policy = .mlfq then mlfqAgings u.k u.mlfqCursor else []) ++
      ((u.returned .schedule).map Op.dispatch).toList
  | .timer user =>
    .clock :: (wakeupOps ticksChan ++
      tickOps ((u.k.apply .clock).after (wakeupOps ticksChan)) user u.cur)
  | .op o => [o]

lemma mlfqScan_after (k : Kernel) (start : Slot) (m : ℕ) :
    (mlfqScan k start m).1 = k.after ((List.range m).map fun j => .age (place start j)) := by
  induction m with
  | zero => rfl
  | succ m ih =>
    rw [List.range_succ, List.map_append, Kernel.after, List.foldl_append]
    exact congrArg (Kernel.apply · (.age (place start m))) ih

variable {k : Kernel}

lemma mlfqSelectNext_after {k' : Kernel} {c c' : Slot} {r : Option Slot}
    (h : mlfqSelectNext k c 1 = some (k', c', r)) :
    k' = k.after (mlfqAgings k c) ∧ ∀ p, r = some p → (k'.proc p).state = .runnable := by
  rw [mlfqSelectNext] at h
  rw [mlfqAgings, Kernel.after, List.foldl_append]
  have hscan := mlfqScan_after k c nproc
  rw [Kernel.after] at hscan
  rw [← hscan]
  cases hb : (mlfqScan k c nproc).2.1 with
  | none =>
    simp only [mlfqTurn, hb, Option.some.injEq, Prod.mk.injEq] at h
    obtain ⟨rfl, rfl, rfl⟩ := h
    exact ⟨rfl, (by simp)⟩
  | some b =>
    by_cases hcheck : (((mlfqScan k c nproc).1.apply (.age b)).proc b).state = .runnable ∧
        (((mlfqScan k c nproc).1.apply (.age b)).proc b).queueLevel ≤ (mlfqScan k c nproc).2.2
    · simp only [mlfqTurn, hb, if_pos hcheck, Option.some.injEq, Prod.mk.injEq] at h
      obtain ⟨rfl, rfl, rfl⟩ := h
      exact ⟨rfl, fun p hp => by cases hp; exact hcheck.1⟩
    · simp only [mlfqTurn, hb, if_neg hcheck, mlfqSelectNext] at h
      cases h

variable {u v : Uni}

/-- `select_next_proc` performs the agings of the scan under MLFQ and nothing otherwise, and what
it returns is runnable. -/
lemma selectNextProc_after {r : Option Slot} (h : u.selectNextProc = some (v, r)) :
    v.k = u.k.after (if u.k.policy = .mlfq then mlfqAgings u.k u.mlfqCursor else []) ∧
      v.cur = u.cur ∧ ∀ p, r = some p → (v.k.proc p).state = .runnable := by
  rw [selectNextProc] at h
  split at h
  · rename_i hpol
    have hspec := rrSelectNext_spec u.k.proc u.rrCursor
    simp only [Option.some.injEq, Prod.mk.injEq] at h
    obtain ⟨rfl, rfl⟩ := h
    refine ⟨by rw [hpol]; rfl, rfl, fun p hp => ?_⟩
    rcases hspec with ⟨hs, _⟩ | ⟨b, hs, hb, _⟩
    · rw [hs] at hp; cases hp
    · rw [hs] at hp; cases hp; exact hb
  · rename_i hpol
    obtain ⟨⟨c, r'⟩, hsel, he⟩ := Option.map_eq_some_iff.mp h
    cases he
    refine ⟨by rw [hpol]; rfl, rfl, fun p hp => ?_⟩
    rcases prioritySelectNext_spec u.k.proc u.priorityCursor 0 with ⟨hs, _⟩ | ⟨b, hs, hb⟩
    · rw [zero_add, hsel] at hs; cases hs; cases hp
    · rw [zero_add, hsel] at hs; cases hs; cases hp; exact hb.1
  · rename_i hpol
    obtain ⟨⟨k, c, r'⟩, hsel, he⟩ := Option.map_eq_some_iff.mp h
    cases he
    rw [if_pos hpol]
    exact ⟨(mlfqSelectNext_after hsel).1, rfl, (mlfqSelectNext_after hsel).2⟩

variable {o : Op}

lemma wakeup_state_of_running {p : Slot} (ho : ∃ i ch, o = .wakeup i ch)
    (h : (k.proc p).state = .running) : ((k.apply o).proc p).state = .running := by
  obtain ⟨i, ch, rfl⟩ := ho
  rw [Kernel.apply_proc]
  split_ifs
  · rw [Op.effect, Proc.wakeup_eq]
    split_ifs with h1 h2
    · exact absurd (h.symm.trans h2) (by decide)
    · exact h
    · exact h
  · exact h

lemma wakeupOps_running {ch : Chan} {p : Slot} (h : (k.proc p).state = .running) :
    ((k.after (wakeupOps ch)).proc p).state = .running := by
  have key : ∀ (l : List Slot) (k : Kernel), (k.proc p).state = .running →
      ((k.after (l.map fun i => .wakeup i (some ch))).proc p).state = .running := by
    intro l
    induction l with
    | nil => exact fun k h => h
    | cons i l ih => exact fun k h => ih _ (wakeup_state_of_running ⟨i, some ch, rfl⟩ h)
  exact key _ k h

lemma tick_state (k : Kernel) (p : Slot) :
    ((k.apply (.tick p)).proc p).state = (k.proc p).state := by
  rw [Kernel.apply_proc_self k _ rfl, Op.effect, Proc.updateProcAfterTick_spec]

lemma schedule_eq_some (h : u.schedule = some v) :
    u.cur = none ∧ ∃ w r, u.selectNextProc = some (w, r) ∧ v = w.dispatch r := by
  rw [schedule] at h
  split_ifs at h with hcur
  obtain ⟨⟨w, r⟩, hsel, he⟩ := Option.map_eq_some_iff.mp h
  exact ⟨hcur, w, r, hsel, he.symm⟩

lemma not_ofScheduler_of_byCurrent {cur : Option Slot} (h : o.ByCurrent cur) : ¬ o.OfScheduler := by
  intro hs
  cases o with
  | age p | dispatch p => exact h
  | _ => exact hs

lemma agings_legal (k k' : Kernel) (pol : SchedPolicy) (cursor : Slot) :
    k'.Legal (if pol = .mlfq then mlfqAgings k cursor else []) := by
  refine Transition.legal_of_forall fun o ho s => ?_
  split_ifs at ho
  · rw [mlfqAgings] at ho
    rcases List.mem_append.mp ho with ho | ho
    · obtain ⟨j, -, rfl⟩ := List.mem_map.mp ho
      trivial
    · obtain ⟨b, -, rfl⟩ := Option.map_eq_some_iff.mp (Option.mem_toList.mp ho)
      trivial
  · cases ho

lemma wakeupOps_legal (k : Kernel) (ch : Chan) : k.Legal (wakeupOps ch) := by
  refine Transition.legal_of_forall fun o ho s => ?_
  obtain ⟨i, -, rfl⟩ := List.mem_map.mp ho
  trivial

lemma ops_schedule (h : u.schedule = some v) :
    v.CurRunning ∧ u.k.Legal (u.ops .schedule) ∧ v.k = u.k.after (u.ops .schedule) := by
  obtain ⟨hcur, w, r, hsel, rfl⟩ := schedule_eq_some h
  obtain ⟨hw, hwcur, hrun⟩ := selectNextProc_after hsel
  have hret : u.returned .schedule = r := by rw [returned, hsel]; rfl
  rw [ops, hret, Kernel.Legal, Transition.legal_append, Kernel.after, List.foldl_append]
  rw [Kernel.after] at hw
  rw [← hw]
  cases r with
  | none =>
    refine ⟨fun p hp => ?_, ⟨agings_legal _ _ _ _, trivial⟩, rfl⟩
    have hw : w.cur = some p := hp
    rw [hwcur, hcur] at hw
    cases hw
  | some b =>
    refine ⟨fun p hp => ?_, ⟨agings_legal _ _ _ _, hrun b rfl, trivial⟩, rfl⟩
    have hpb : some b = some p := hp
    cases hpb
    rw [dispatch, Kernel.apply_proc_self _ _ rfl]
    rfl

lemma ops_timer (hu : u.CurRunning) (user : Bool) :
    (u.timer user).CurRunning ∧ u.k.Legal (u.ops (.timer user)) ∧
      (u.timer user).k = u.k.after (u.ops (.timer user)) := by
  have hlegal : u.k.Legal (u.ops (.timer user)) ↔
      ((u.k.apply .clock).after (wakeupOps ticksChan)).Legal
        (tickOps ((u.k.apply .clock).after (wakeupOps ticksChan)) user u.cur) := by
    rw [ops, Kernel.Legal, Transition.legal_cons, Transition.legal_append]
    exact ⟨fun h => h.2.2, fun h => ⟨trivial, wakeupOps_legal _ _, h⟩⟩
  have hafter : u.k.after (u.ops (.timer user)) =
      ((u.k.apply .clock).after (wakeupOps ticksChan)).after
        (tickOps ((u.k.apply .clock).after (wakeupOps ticksChan)) user u.cur) := by
    rw [ops, Kernel.after, List.foldl_cons, List.foldl_append]
  rw [hlegal, hafter, timer]
  cases hcur : u.cur with
  | none => exact ⟨(fun p hp => nomatch hp), trivial, rfl⟩
  | some p =>
    have hrun : (((u.k.apply .clock).after (wakeupOps ticksChan)).proc p).state = .running :=
      wakeupOps_running (hu p hcur)
    have hrun' := (tick_state ((u.k.apply .clock).after (wakeupOps ticksChan)) p).trans hrun
    simp only [tickOps]
    split_ifs
    · refine ⟨fun q hq => ?_, trivial, rfl⟩
      cases hq
      exact hrun
    · refine ⟨fun q hq => ?_, ⟨hrun, hrun', trivial⟩, rfl⟩
      cases hq
    · refine ⟨fun q hq => ?_, ⟨hrun, trivial⟩, rfl⟩
      cases hq
      exact hrun'

variable {e : Event}

/-- **Every event performs its operations**, which are legal, and a current process is running. -/
theorem step_ops (hu : u.CurRunning) (h : u.step e = some v) :
    v.CurRunning ∧ u.k.Legal (u.ops e) ∧ v.k = u.k.after (u.ops e) := by
  cases e with
  | schedule => exact ops_schedule h
  | timer user =>
    cases h
    exact ops_timer hu user
  | op o =>
    rw [step] at h
    split_ifs at h with hok
    cases h
    refine ⟨fun p hp => ?_, ⟨hok.2, trivial⟩, rfl⟩
    rw [perform, Option.filter_eq_some_iff] at hp
    exact of_decide_eq_true hp.2

/-- Only a turn of `scheduler` performs operations of the scheduler. -/
lemma eq_schedule_of_ofScheduler (h : u.step e = some v) (ho : o ∈ u.ops e) (hs : o.OfScheduler) :
    e = .schedule := by
  cases e with
  | schedule => rfl
  | timer user =>
    rw [ops, List.mem_cons, List.mem_append] at ho
    rcases ho with rfl | ho | ho
    · cases hs
    · obtain ⟨i, -, rfl⟩ := List.mem_map.mp ho
      cases hs
    · cases hcur : u.cur with
      | none =>
        rw [hcur] at ho
        cases ho
      | some p =>
        rw [hcur] at ho
        simp only [tickOps] at ho
        split_ifs at ho
        · cases ho
        · rcases List.mem_pair.mp ho with rfl | rfl <;> cases hs
        · rw [List.mem_singleton] at ho
          subst ho
          cases hs
  | op o' =>
    rw [step] at h
    split_ifs at h with hok
    rw [ops, List.mem_singleton] at ho
    subst ho
    exact absurd hs (not_ofScheduler_of_byCurrent hok.1)

lemma reach_step (hu : u.CurRunning) (h : u.step e = some v) :
    v.CurRunning ∧ Kernel.Reach (fun o => o.OfScheduler → e = .schedule) u.k v.k := by
  obtain ⟨hv, hlegal, hk⟩ := step_ops hu h
  exact ⟨hv, u.ops e, hlegal, hk, fun o ho hs => eq_schedule_of_ofScheduler h ho hs⟩

/-! ### Runs -/

def Reachable (u : Uni) : Prop := ∃ pol es, (boot pol).run es = some u

/-- What holds in every reachable state. -/
structure Sound (u : Uni) : Prop where
  curRunning : u.CurRunning
  levelsOk : u.k.LevelsOk

lemma Sound.step (hu : u.Sound) (h : u.step e = some v) : v.Sound := by
  obtain ⟨hv, hreach⟩ := reach_step hu.curRunning h
  exact ⟨hv, hreach.invariant hu.levelsOk fun k o hk _ _ => hk.apply o⟩

variable {es : List Event}

lemma run_cons : u.run (e :: es) = some v ↔ ∃ w, u.step e = some w ∧ w.run es = some v :=
  Option.bind_eq_some_iff

/-- The state at the end of a run, for runs that are possible. -/
def after (u : Uni) (es : List Event) : Uni := (u.run es).getD u

lemma run_after (h : (u.run es).isSome) : u.run es = some (u.after es) := by
  obtain ⟨v, hv⟩ := Option.isSome_iff_exists.mp h
  rw [after, hv, Option.getD_some]

lemma step_after (h : (u.run [e]).isSome) : u.step e = some (u.after [e]) := by
  obtain ⟨w, hw, hv⟩ := run_cons.mp (run_after h)
  rw [hw, hv.symm]
  rfl

lemma Sound.run (hu : u.Sound) (h : u.run es = some v) : v.Sound := by
  induction es generalizing u with
  | nil =>
    cases h
    exact hu
  | cons e es ih =>
    obtain ⟨w, hw, hv⟩ := run_cons.mp h
    exact ih (hu.step hw) hv

lemma sound_boot (pol : SchedPolicy) : (boot pol).Sound :=
  ⟨(fun _ hp => nomatch hp), levelsOk_bootKernel pol⟩

/-- **Every reachable state is sound.** -/
theorem Reachable.sound (h : u.Reachable) : u.Sound := by
  obtain ⟨pol, es, hes⟩ := h
  exact (sound_boot pol).run hes

/-- The operations of the process table that a run performs. -/
def trace (u : Uni) : List Event → List Op
  | [] => []
  | e :: es => u.ops e ++ ((u.step e).map fun v => v.trace es).getD []

/-- **A run performs a legal sequence of operations.** -/
theorem run_trace (hu : u.CurRunning) (h : u.run es = some v) :
    u.k.Legal (u.trace es) ∧ v.k = u.k.after (u.trace es) := by
  induction es generalizing u with
  | nil =>
    cases h
    exact ⟨trivial, rfl⟩
  | cons e es ih =>
    obtain ⟨w, hw, hv⟩ := run_cons.mp h
    obtain ⟨hwcur, hlegal, hk⟩ := step_ops hu hw
    obtain ⟨hlegal', hk'⟩ := ih hwcur hv
    rw [hk] at hlegal' hk'
    rw [trace, hw, Kernel.Legal, Transition.legal_append, Kernel.after, List.foldl_append]
    exact ⟨⟨hlegal, hlegal'⟩, hk'⟩

/-- Every state of the run of `es` from `u` satisfies `P`, and every event `C`. -/
def Along (P : Uni → Prop) (C : Uni → Event → Prop) (u : Uni) : List Event → Prop
  | [] => P u
  | e :: es => P u ∧ C u e ∧ ∃ v, u.step e = some v ∧ v.Along P C es

section Along

variable {P : Uni → Prop} {C : Uni → Event → Prop}

lemma Along.head (h : u.Along P C es) : P u := by
  cases es with
  | nil => exact h
  | cons e es => exact h.1

/-- The rule for stretches of runs: what every event of the stretch preserves holds at its
end. -/
lemma Along.invariant {I : Uni → Prop} {w : Uni} (h : u.Along P C es) (hw : u.run es = some w)
    (hI : I u) (hstep : ∀ v e v', I v → P v → P v' → C v e → v.step e = some v' → I v') :
    I w ∧ P w := by
  induction es generalizing u with
  | nil =>
    cases hw
    exact ⟨hI, h⟩
  | cons e es ih =>
    obtain ⟨hP, hC, v, hv, htail⟩ := h
    obtain ⟨v', hv', hrun⟩ := run_cons.mp hw
    obtain rfl : v = v' := Option.some.inj (hv.symm.trans hv')
    exact ih htail hrun (hstep u e v hI hP htail.head hC hv)

instance decidableAlong [DecidablePred P] [∀ u e, Decidable (C u e)] :
    ∀ (u : Uni) (es : List Event), Decidable (u.Along P C es)
  | u, [] => inferInstanceAs (Decidable (P u))
  | u, e :: es =>
    match h : u.step e with
    | none => isFalse fun ⟨_, _, v, hv, _⟩ => nomatch h.symm.trans hv
    | some v =>
      have := decidableAlong v es
      decidable_of_iff (P u ∧ C u e ∧ v.Along P C es) <| by
        simp only [Along, h, Option.some.injEq, exists_eq_left']

end Along

/-! ### Selections -/

lemma step_cursor (he : e ≠ .schedule) (h : u.step e = some v) :
    v.priorityCursor = u.priorityCursor ∧ v.mlfqCursor = u.mlfqCursor := by
  cases e with
  | schedule => exact absurd rfl he
  | timer user =>
    cases h
    rw [timer]
    cases u.cur with
    | none => exact ⟨rfl, rfl⟩
    | some p =>
      simp only
      split_ifs <;> exact ⟨rfl, rfl⟩
  | op o =>
    rw [step] at h
    split_ifs at h
    cases h
    exact ⟨rfl, rfl⟩

/-- **A turn of `scheduler` under static priority.** -/
theorem schedule_priority (hpol : u.k.policy = .staticPriority) (h : u.step .schedule = some v) :
    (u.returned .schedule = none ∧ v = u ∧ ∀ i, ¬ Runnable u.k.proc i) ∨
      ∃ b, u.returned .schedule = some b ∧
        FirstBest u.priorityCursor (Runnable u.k.proc) (fun i => (u.k.proc i).priority) b ∧
        v = { u with k := u.k.apply (.dispatch b), cur := some b, priorityCursor := next b } := by
  obtain ⟨-, w, r, hsel, rfl⟩ := schedule_eq_some h
  have hret : u.returned .schedule = r := by rw [returned, hsel]; rfl
  rw [hret]
  rw [selectNextProc, hpol] at hsel
  rcases prioritySelectNext_spec u.k.proc u.priorityCursor 0 with ⟨hs, hno⟩ | ⟨b, hs, hb⟩
  · simp only [zero_add] at hs
    simp only [hs, Option.map_some, Option.some.injEq, Prod.mk.injEq] at hsel
    obtain ⟨rfl, rfl⟩ := hsel
    exact .inl ⟨rfl, rfl, hno⟩
  · simp only [zero_add] at hs
    simp only [hs, Option.map_some, Option.some.injEq, Prod.mk.injEq] at hsel
    obtain ⟨rfl, rfl⟩ := hsel
    exact .inr ⟨b, rfl, hb, rfl⟩

/-- **A turn of `scheduler` under MLFQ.** -/
theorem schedule_mlfq (hu : u.Sound) (hpol : u.k.policy = .mlfq) (h : u.step .schedule = some v) :
    ∃ k c r, u.returned .schedule = r ∧ MlfqSelected u.k u.mlfqCursor k c r ∧
      v = dispatch { u with k := k, mlfqCursor := c } r := by
  obtain ⟨-, w, r, hsel, rfl⟩ := schedule_eq_some h
  have hret : u.returned .schedule = r := by rw [returned, hsel]; rfl
  obtain ⟨k, c, r', hs, hspec⟩ := mlfqSelectNext_spec u.k u.mlfqCursor 0
    fun i _ => (age_levelOk (hu.levelsOk i) u.k.now).1.level_lt
  rw [selectNextProc, hpol] at hsel
  simp only [zero_add] at hs
  simp only [hs, Option.map_some, Option.some.injEq, Prod.mk.injEq] at hsel
  obtain ⟨rfl, rfl⟩ := hsel
  exact ⟨k, c, r', hret, hspec, rfl⟩

lemma schedule_mlfq_total (hu : u.Sound) (hpol : u.k.policy = .mlfq) (hcur : u.cur = none) :
    ∃ v, u.step .schedule = some v := by
  obtain ⟨k, c, r, hs, _⟩ := mlfqSelectNext_spec u.k u.mlfqCursor 0
    fun i _ => (age_levelOk (hu.levelsOk i) u.k.now).1.level_lt
  simp only [zero_add] at hs
  refine ⟨dispatch { u with k := k, mlfqCursor := c } r, ?_⟩
  simp [step, schedule, hcur, selectNextProc, hpol, hs]

end Uni

end Xv6Riscv
