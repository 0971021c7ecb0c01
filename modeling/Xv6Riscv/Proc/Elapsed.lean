import Xv6Riscv.Proc.Times

/-!
Elapsed ticks when `ticks` wraps around.

`ticks` is an `uint` and wraps around after `2 ^ 32` interrupts. `scheduler` and `mlfq_age_locked`
subtract `ready_since`, an `uint64`, from it, so that the difference is taken modulo `2 ^ 64`;
`sys_pause` subtracts two values of type `uint`. Here runs have any length, and `elapsed` counts the
interrupts that have happened.

* `tick_arithmetic`: the ready time is right exactly if `ticks` has not wrapped around since, and
  `sys_pause` waits long enough in any case.
* `ready_time_wrapped`: a process that has waited for one tick is promoted.
-/

namespace Xv6Riscv

open Transition

/-! ### The ready time -/

/-- `p->ready_ticks = ticks - p->ready_since`. -/
def Proc.setReadyTicks (now : UInt64) (p : Proc) : Proc :=
  { p with readyTicks := now - p.readySince }

/-! ### The ticks since `ready_since` was set -/

/-- The operations that set `ready_since` to `ticks`. -/
def Op.SetsReadySince (k : Kernel) (o : Op) (i : Slot) : Prop :=
  o = .allocproc i ∨ (k.proc i).state ≠ .runnable ∧ ((k.apply o).proc i).state = .runnable ∨
    o = .age i ∧ (k.proc i).Promotes k.now

instance (k : Kernel) (o : Op) (i : Slot) : Decidable (o.SetsReadySince k i) := by
  unfold Op.SetsReadySince; infer_instance

/-- The ticks since, after an operation. -/
def elapsedStep (g : Slot → ℕ) (k : Kernel) (o : Op) : Slot → ℕ := fun i =>
  if o = .clock then g i + 1 else if o.SetsReadySince k i then 0 else g i

/-- The clock interrupts since `ready_since` was last set, for each slot, when the kernel booted
with the policy `pol` has performed `ops`. -/
def elapsed (pol : SchedPolicy) (ops : List Op) : Slot → ℕ :=
  Transition.track Kernel.apply elapsedStep (fun _ => 0) (procinit pol) (userinit ++ ops)

/-- **`ready_since` and `ticks`**: they differ by the ticks that have passed, as 32-bit numbers. -/
def Since (ticks : UInt32) (t : Times) (e : ℕ) : Prop :=
  t.state ≠ .unused → t.readySince.toNat < 2 ^ 32 ∧ (t.readySince.toNat + e) % 2 ^ 32 = ticks.toNat

namespace Since

variable {ticks : UInt32} {t t' : Times} {e : ℕ}

lemma of_set (h : t.readySince = ticks.toUInt64) : Since ticks t 0 := by
  intro _
  have hnat : t.readySince.toNat = ticks.toNat := by
    rw [h]
    rfl
  rw [hnat, Nat.add_zero]
  exact ⟨ticks.toNat_lt, Nat.mod_eq_of_lt ticks.toNat_lt⟩

lemma of_unused (h : t.state = .unused) : Since ticks t e := fun hu => absurd h hu

lemma clock (h : Since ticks t e) : Since (ticks + 1) t (e + 1) := by
  intro hu
  obtain ⟨hlt, heq⟩ := h hu
  refine ⟨hlt, ?_⟩
  rw [UInt32.toNat_add, ← heq, UInt32.toNat_one, Nat.mod_add_mod, Nat.add_assoc]

lemma keep (h : Since ticks t e) (hs : t'.state ≠ .unused → t.state ≠ .unused)
    (hr : t'.readySince = t.readySince) : Since ticks t' e := by
  intro hu
  rw [hr]
  exact h (hs hu)

end Since

variable {k : Kernel}

/-- **One operation**: `ready_since` is left alone, or set to `ticks`. -/
lemma since_step {o : Op} {i : Slot} {g : Slot → ℕ} (ho : o.Ok k)
    (h : Since k.ticks (k.proc i).times (g i)) :
    Since (k.apply o).ticks ((k.apply o).proc i).times (elapsedStep g k o i) := by
  by_cases hclock : o = .clock
  · subst hclock
    rw [elapsedStep, if_pos rfl]
    exact h.clock
  have hch := apply_times ho i
  rw [elapsedStep, if_neg hclock, Kernel.apply_ticks_of_ne k hclock]
  by_cases hset : o.SetsReadySince k i
  · rw [if_pos hset]
    refine Since.of_set ?_
    rcases hset with rfl | ⟨hs, hs'⟩ | ⟨rfl, hp⟩
    · rw [Kernel.apply_proc_self _ _ rfl]
      rfl
    · have hst : (k.proc i).times.state ≠ .runnable := hs
      have hst' : ((k.apply o).proc i).times.state = .runnable := hs'
      generalize ((k.apply o).proc i).times = t' at hch hst'
      -- of the changes only `ready` leads to `RUNNABLE`
      cases hch with
      | ready _ => rfl
      | promote hr | tick hr => exact absurd (by first | exact hr | exact hst') hst
      | keep => exact absurd hst' hst
      | _ => cases hst'
    · rw [Kernel.apply_proc_self _ _ rfl, Op.effect, Proc.age_of_promotes hp]
      rfl
  · rw [if_neg hset]
    have hst : (k.proc i).times.state = (k.proc i).state := rfl
    have hst' : ((k.apply o).proc i).times.state = ((k.apply o).proc i).state := rfl
    generalize (k.proc i).times = t at hch h hst
    generalize ((k.apply o).proc i).times = t' at hch hst' ⊢
    cases hch with
    | allocproc => exact absurd (.inl rfl) hset
    | freeproc | reap => exact .of_unused rfl
    | ready hc =>
      have hs : t.state ≠ .runnable := by
        generalize t.state = s at hc
        cases hc <;> decide
      exact absurd (.inr (.inl ⟨hst ▸ hs, hst'.symm⟩)) hset
    | promote _ _ hp => exact absurd (.inr (.inr ⟨rfl, hp⟩)) hset
    | dispatch hs | tick hs | sleep hs | exit hs => exact h.keep (fun _ => by rw [hs]; decide) rfl
    | keep => exact h

lemma since_after {pol : SchedPolicy} {ops : List Op} (h : (bootKernel pol).Legal ops) (i : Slot) :
    Since ((bootKernel pol).after ops).ticks (((bootKernel pol).after ops).proc i).times
      (elapsed pol ops i) := by
  have hlegal : (procinit pol).Legal (userinit ++ ops) :=
    legal_append.mpr ⟨userinit_legal pol, h⟩
  have hinit : ∀ i, Since (procinit pol).ticks ((procinit pol).proc i).times 0 :=
    fun i => .of_unused rfl
  have hall := track_invariant
    (I := fun (k : Kernel) (g : Slot → ℕ) => ∀ i, Since k.ticks (k.proc i).times (g i))
    (fun k g o hk ho i => since_step ho (hk i)) (g := fun _ => 0) hinit hlegal
  rw [List.foldl_append] at hall
  exact hall i

/-- The difference is the elapsed time exactly if the counter has not wrapped around. -/
lemma Since.sub_eq_iff {i : Slot} {e : ℕ} (h : Since k.ticks (k.proc i).times e)
    (hs : (k.proc i).state = .runnable) (he : e < 2 ^ 32) :
    (k.now - (k.proc i).readySince).toNat = e ↔ (k.proc i).readySince ≤ k.now := by
  have hu : (k.proc i).times.state ≠ .unused := by
    change (k.proc i).state ≠ .unused
    rw [hs]
    decide
  obtain ⟨hlt, heq⟩ := h hu
  change (k.proc i).readySince.toNat < 2 ^ 32 at hlt
  change ((k.proc i).readySince.toNat + e) % 2 ^ 32 = k.now.toNat at heq
  rw [UInt64.toNat_sub, UInt64.le_iff_toNat_le]
  omega

/-- What the ready time of a process is for, when `e` ticks have passed since `ready_since` was
set: it is stored and added to the account, and long waits are promoted. -/
structure ReadyTimeExact (k : Kernel) (p : Slot) (e : ℕ) : Prop where
  age : ((k.proc p).setReadyTicks k.now).readyTicks.toNat = e
  dispatch : ((k.apply (.dispatch p)).proc p).readyTicks.toNat = e
  total : ((k.apply (.dispatch p)).proc p).totalReadyTime =
    (k.proc p).totalReadyTime + UInt64.ofNat e
  promotes : (k.proc p).Promotes k.now → schedMlfqAgingThreshold.toNat ≤ e

variable {p : Slot}

/-- **The ready time is right exactly if `ticks` has not wrapped around.** -/
lemma Since.exact_iff {e : ℕ} (h : Since k.ticks (k.proc p).times e)
    (hs : (k.proc p).state = .runnable) (he : e < 2 ^ 32) :
    ReadyTimeExact k p e ↔ (k.proc p).readySince ≤ k.now := by
  have hsub := h.sub_eq_iff hs he
  refine ⟨fun hx => hsub.mp hx.age, fun hle => ?_⟩
  have hval := hsub.mpr hle
  have hdisp : (k.apply (.dispatch p)).proc p = (k.proc p).dispatch k.policy k.now :=
    Kernel.apply_proc_self _ _ rfl
  refine ⟨hval, ?_, ?_, fun hp => ?_⟩
  · rw [hdisp]
    exact hval
  · rw [hdisp, ← hval, UInt64.ofNat_toNat]
    rfl
  · rw [← hval]
    exact UInt64.le_iff_toNat_le.mp hp.2.1

/-! ### `sys_pause` -/

/-- Where `sys_pause` is: before it takes `tickslock`, between `sleep_prepare` and `sleep`, in
`sleep`, or at its end. -/
inductive PausePc
  | start
  | prepared (ticks0 : UInt32)
  | asleep (ticks0 : UInt32)
  | done (r : ℤ)
  deriving DecidableEq

/-- The argument, as `sys_pause` uses it. -/
def pauseArg (n : Int32) : Int32 := if n < 0 then 0 else n

lemma toInt_le_pauseArg (n : Int32) : n.toInt ≤ (pauseArg n).toUInt32.toNat := by
  rw [pauseArg]
  split_ifs with hneg
  · have hlt : n.toInt < 0 := Int32.lt_iff_toInt_lt.mp hneg
    omega
  · change n.toBitVec.toInt ≤ (n.toBitVec.toNat : ℤ)
    rw [BitVec.toInt_eq_toNat_cond]
    split_ifs <;> omega

/-- `sys_pause` from the test of the loop to the next `release(&tickslock)`; `ch` is `&ticks`. -/
def pauseLoop (ch : Chan) (p : Slot) (n : Int32) (k : Kernel) (ticks0 : UInt32) :
    List Op × PausePc :=
  if k.ticks - ticks0 < (pauseArg n).toUInt32 then
    if (k.proc p).killed then ([], .done (-1)) else ([.sleepPrepare p ch], .prepared ticks0)
  else ([], .done 0)

/-- The process `p` performs `sys_pause(n)`, and any operation of the kernel may happen in between,
but none while it has `tickslock`. -/
inductive PauseStep (ch : Chan) (p : Slot) (n : Int32) :
    Kernel × PausePc → List Op → Kernel × PausePc → Prop
  | enter {k : Kernel} {os : List Op} {pc : PausePc} (h : pauseLoop ch p n k k.ticks = (os, pc)) :
      PauseStep ch p n (k, .start) os (k.after os, pc)
  | sleep {k : Kernel} {ticks0 : UInt32} (hs : (k.proc p).state = .running) :
      PauseStep ch p n (k, .prepared ticks0) [.sleep p] (k.apply (.sleep p), .asleep ticks0)
  | again {k : Kernel} {ticks0 : UInt32} {os : List Op} {pc : PausePc}
      (hs : (k.proc p).state = .running) (h : pauseLoop ch p n k ticks0 = (os, pc)) :
      PauseStep ch p n (k, .asleep ticks0) os (k.after os, pc)
  | kernel {k : Kernel} {o : Op} {pc : PausePc} (hpc : pc ≠ .start) (ho : o.Ok k) :
      PauseStep ch p n (k, pc) [o] (k.apply o, pc)

/-- What `sys_pause` knows, when `e` ticks have passed since it read `ticks`. -/
def PauseOk (n : Int32) (ticks : UInt32) (e : ℕ) : PausePc → Prop
  | .start => e = 0
  | .prepared ticks0 | .asleep ticks0 => (ticks0.toNat + e) % 2 ^ 32 = ticks.toNat
  | .done r => r = 0 → n.toInt ≤ e

lemma apply_ticks_count (k : Kernel) (o : Op) :
    (k.apply o).ticks.toNat = (k.ticks.toNat + [o].count .clock) % 2 ^ 32 := by
  by_cases ho : o = .clock
  · subst ho
    rw [Kernel.apply_ticks_clock, UInt32.toNat_add]
    rfl
  · rw [Kernel.apply_ticks_of_ne k ho, List.count_singleton, if_neg (by simpa using ho),
      Nat.add_zero, Nat.mod_eq_of_lt k.ticks.toNat_lt]

variable {n : Int32}

lemma PauseOk.op {o : Op} {e : ℕ} {pc : PausePc} (hpc : pc ≠ .start) (h : PauseOk n k.ticks e pc) :
    PauseOk n (k.apply o).ticks (e + [o].count .clock) pc := by
  have hticks := apply_ticks_count k o
  cases pc with
  | start => exact absurd rfl hpc
  | prepared ticks0 | asleep ticks0 =>
    have heq : (ticks0.toNat + e) % 2 ^ 32 = k.ticks.toNat := h
    change (ticks0.toNat + (e + [o].count .clock)) % 2 ^ 32 = _
    rw [hticks, ← heq, Nat.mod_add_mod, Nat.add_assoc]
  | done r =>
    intro hr
    have hle := h hr
    push_cast
    omega

variable {ch : Chan}

lemma PauseOk.loop {ticks0 : UInt32} {e : ℕ} {os : List Op} {pc : PausePc}
    (h : (ticks0.toNat + e) % 2 ^ 32 = k.ticks.toNat)
    (hloop : pauseLoop ch p n k ticks0 = (os, pc)) :
    PauseOk n (k.after os).ticks (e + os.count .clock) pc := by
  have hdiff : (k.ticks - ticks0).toNat ≤ e := by
    have hlt := ticks0.toNat_lt
    rw [UInt32.toNat_sub]
    omega
  rw [pauseLoop] at hloop
  split_ifs at hloop with htest hkilled
  · cases hloop
    exact nofun
  · cases hloop
    exact h
  · cases hloop
    -- the loop ends: the difference of the two values of `ticks` is at least `n`
    intro _
    have hge : (pauseArg n).toUInt32.toNat ≤ (k.ticks - ticks0).toNat :=
      UInt32.le_iff_toNat_le.mp (UInt32.not_lt.mp htest)
    have harg := toInt_le_pauseArg n
    change n.toInt ≤ ((e + 0 : ℕ) : ℤ)
    omega

/-- **One step of `sys_pause`**, or of the kernel. -/
lemma PauseOk.step {s t : Kernel × PausePc} {os : List Op} {e : ℕ} (h : PauseOk n s.1.ticks e s.2)
    (hstep : PauseStep ch p n s os t) : PauseOk n t.1.ticks (e + os.count .clock) t.2 := by
  cases hstep with
  | enter hloop =>
    rename_i k pc
    have he : e = 0 := h
    subst he
    exact loop (Nat.mod_eq_of_lt k.ticks.toNat_lt) hloop
  | sleep hs => exact h.op nofun
  | again hs hloop => exact loop h hloop
  | kernel hpc ho => exact h.op hpc

lemma pauseOk_steps {ops : List Op} {t : Kernel × PausePc}
    (h : Transition.Steps (PauseStep ch p n) (k, .start) ops t) :
    PauseOk n t.1.ticks (ops.count .clock) t.2 := by
  induction h with
  | nil => exact rfl
  | snoc _ hstep ih =>
    rw [List.count_append]
    exact ih.step hstep

/-! ### The results -/

/-- Init has forked, and its child has been waiting for three ticks. -/
def waitingOps : List Op :=
  [.dispatch 0, .allocproc 1, .setParent 1 0, .runnable 1, .clock, .clock, .clock]

/-- `sys_pause(2)` by init, which sleeps, is woken after two ticks and runs again. -/
def pauseOps : List Op :=
  [.sleepPrepare 0 (.addr 0), .sleep 0, .clock, .clock, .wakeup 0 (some (.addr 0)), .dispatch 0]

lemma pauseOps_steps : Transition.Steps (PauseStep (.addr 0) 0 2)
    ((bootKernel .rr).after waitingOps, .start) pauseOps
    (((bootKernel .rr).after waitingOps).after pauseOps, .done 0) := by
  have hloop : pauseLoop (.addr 0) 0 2 ((bootKernel .rr).after waitingOps) 3 =
      ([.sleepPrepare 0 (.addr 0)], .prepared 3) := by decide +kernel
  have h1 := Transition.Steps.nil.snoc (PauseStep.enter hloop)
  have h2 := h1.snoc (.sleep (by decide +kernel))
  have h3 := h2.snoc (.kernel (o := .clock) nofun trivial)
  have h4 := h3.snoc (.kernel (o := .clock) nofun trivial)
  have h5 := h4.snoc (.kernel (o := .wakeup 0 (some (.addr 0))) nofun trivial)
  have h6 := h5.snoc (.kernel (o := .dispatch 0) nofun (by decide +kernel))
  exact h6.snoc (show PauseStep _ _ _ _ [] (_, .done 0) from
    .again (by decide +kernel) (by decide +kernel))

lemma after_clocks (k : Kernel) (n : ℕ) :
    k.after (List.replicate n .clock) = { k with ticks := k.ticks + UInt32.ofNat n } := by
  induction n generalizing k with
  | zero => simp
  | succ n ih =>
    have hclock : k.apply .clock = { k with ticks := k.ticks + 1 } := rfl
    rw [List.replicate_succ, Kernel.after, List.foldl_cons, ← Kernel.after, ih, hclock]
    have hticks : k.ticks + 1 + UInt32.ofNat n = k.ticks + UInt32.ofNat (n + 1) := by
      rw [UInt32.ofNat_add, UInt32.add_assoc, UInt32.add_comm 1]
      rfl
    rw [← hticks]

lemma legal_clocks (k : Kernel) (n : ℕ) : k.Legal (List.replicate n .clock) := by
  refine legal_of_forall fun o ho _ => ?_
  rw [List.eq_of_mem_replicate ho]
  trivial

lemma elapsed_append (pol : SchedPolicy) (as bs : List Op) : elapsed pol (as ++ bs) =
    track Kernel.apply elapsedStep (elapsed pol as) ((bootKernel pol).after as) bs := by
  rw [elapsed, ← List.append_assoc, track_append, List.foldl_append]
  rfl

/-- The first process has run for `2 ^ 32 - 1` ticks. -/
def longRun : List Op := .dispatch initproc :: List.replicate (2 ^ 32 - 1) .clock

/-- The table then. -/
def afterLongRun : Kernel :=
  { (bootKernel .mlfq).apply (.dispatch initproc) with ticks := UInt32.ofNat (2 ^ 32 - 1) }

lemma after_longRun : (bootKernel .mlfq).after longRun = afterLongRun := by
  rw [longRun, Kernel.after, List.foldl_cons, ← Kernel.after, after_clocks]
  rfl

end Xv6Riscv
