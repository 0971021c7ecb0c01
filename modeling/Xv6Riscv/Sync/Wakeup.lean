import Xv6Riscv.Lib.Monitor
import Xv6Riscv.Sync.Uart

/-!
No lost wakeup.

`channelWaiters ch` is the process table seen by those who wait on the channel `ch`: registering is
`sleep_prepare(ch)`, a wakeup examines the slots in the order of the table, and all other
operations, those of the scheduler, `kkill` and wakeups on any channel included, register nobody on
`ch`. The general results on monitors then hold of every client of `sleep` and `wakeup`.

`no_lost_wakeup` puts together what holds of the table alone, of clients that use a lock, and of the
UART driver, which does without.
-/

namespace Xv6Riscv

/-- The processes that wait on the channel `ch`. -/
def channelWaiters (ch : Chan) : Monitor.Waiters Kernel Slot where
  reg k p := (k.proc p).chan = some ch
  place p := p.val
  size := nproc
  place_lt p := p.isLt
  prepare p k k' := (Op.sleepPrepare p ch).Ok k ∧ k' = k.apply (.sleepPrepare p ch)
  wake j k k' := ∃ i : Slot, i.val = j ∧ k' = k.apply (.wakeup i (some ch))
  sleep p k k' := (Op.sleep p).Ok k ∧ k' = k.apply (.sleep p)
  other k k' := ∃ o : Op, o.Ok k ∧ (∀ p, o ≠ .sleepPrepare p ch) ∧ k' = k.apply o
  reg_prepare := by
    rintro p k k' ⟨-, rfl⟩ q hq
    rcases apply_chan hq with h | h
    · exact .inr h
    · cases h
      exact .inl rfl
  reg_wake := by
    rintro j k k' ⟨i, rfl, rfl⟩ q hq
    refine ⟨(apply_chan hq).resolve_right nofun, fun hqi => ?_⟩
    obtain rfl : q = i := Fin.ext hqi
    exact wakeup_chan_ne k q ch hq
  reg_sleep := by
    rintro p k k' ⟨-, rfl⟩ q hq
    exact (apply_chan hq).resolve_right nofun
  reg_other := by
    rintro k k' ⟨o, -, hprep, rfl⟩ q hq
    exact (apply_chan hq).resolve_right (hprep q)

/-- **No lost wakeup.**

* A sleeping process has a channel, whatever the sections of the kernel that have run.
* If a wakeup of `chan` has examined the slot of a process after its `sleep_prepare(chan)`, and
  there was no other `sleep_prepare` by it, the process is not sleeping, and a call of `sleep`
  returns at once.
* A client that tests its condition and registers under a lock is not sleeping while its condition
  holds and the lock is free, if whoever makes the condition true calls `wakeup` before releasing
  the lock.
* A process in `uartwrite` is not sleeping while the transmitter is idle, unless an interrupt is
  pending or a handler is at work. -/
theorem no_lost_wakeup {σ ι : Type*} [DecidableEq ι] :
    (∀ pol ops p, (bootKernel pol).Legal ops →
      (((bootKernel pol).after ops).proc p).state = .sleeping →
      (((bootKernel pol).after ops).proc p).chan ≠ none) ∧
    (∀ pol before between after p ch k, (bootKernel pol).Legal
        (before ++ .sleepPrepare p ch :: between ++ .wakeup p (some ch) :: after) →
      k = (bootKernel pol).after
        (before ++ .sleepPrepare p ch :: between ++ .wakeup p (some ch) :: after) →
      (∀ ch', Op.sleepPrepare p ch' ∉ between) → (∀ ch', Op.sleepPrepare p ch' ∉ after) →
      (k.proc p).state ≠ .sleeping ∧ (k.apply (.sleep p)).proc p = k.proc p) ∧
    (∀ (ch : Chan) (cond : Slot → σ → Prop) (s s' : Monitor.State Kernel Slot σ) (p : Slot),
      Monitor.Initial (channelWaiters ch) s →
      Relation.ReflTransGen (Monitor.Step (channelWaiters ch) cond) s s' →
      s'.holder = none → (s'.table.proc p).state = .sleeping →
      (s'.table.proc p).chan = some ch → ¬ cond p s'.data) ∧
    (∀ (s s' : Uart ι) (p : Slot), s.Initial → Relation.ReflTransGen Uart.Step s s' →
      (s'.k.proc p).state = .sleeping → (s'.k.proc p).chan = some txChan → s'.idle = true →
      s'.irq = true ∨ ∃ c, s'.handler c ≠ .off) := by
  refine ⟨fun pol ops p h => sleepingOk_after h p, ?_, ?_, ?_⟩
  · rintro pol before between after p ch k hlegal rfl hbetween hafter
    have hchan : (((bootKernel pol).after
        (before ++ .sleepPrepare p ch :: between ++ .wakeup p (some ch) :: after)).proc p).chan
        = none := chan_after_wakeup hbetween hafter
    refine ⟨fun hs => sleepingOk_after hlegal p hs hchan, ?_⟩
    rw [Kernel.apply_proc_self _ _ rfl, Op.effect, Proc.sleep, if_neg (not_not.mpr hchan)]
  · intro ch cond s s' p hinit hrun hfree _ hchan
    exact Monitor.not_waiting hinit hrun hfree hchan
  · intro s s' p hinit hrun hs hchan hidle
    exact Uart.alert_of_sleeping hinit hrun hs hchan hidle

/-- A client waits for a flag, which is not set: init, running, takes the lock, finds the flag
clear, registers, releases the lock and goes to sleep. -/
lemma exists_waiting_client : ∃ s s' : Monitor.State Kernel Slot Bool,
    Monitor.Initial (channelWaiters txChan) s ∧
    Relation.ReflTransGen (Monitor.Step (channelWaiters txChan) fun _ flag => flag = true) s s' ∧
    s'.holder = none ∧ (s'.table.proc initproc).state = .sleeping ∧
    (s'.table.proc initproc).chan = some txChan := by
  -- the tables before and after the registration
  obtain ⟨k1, hk1⟩ : ∃ k, k = (bootKernel .rr).apply (.dispatch initproc) := ⟨_, rfl⟩
  obtain ⟨k2, hk2⟩ : ∃ k, k = k1.apply (.sleepPrepare initproc txChan) := ⟨_, rfl⟩
  have hrun : (Op.sleepPrepare initproc txChan).Ok k1 ∧ (Op.sleep initproc).Ok k2 ∧
      ((k2.apply (.sleep initproc)).proc initproc).state = .sleeping ∧
      ((k2.apply (.sleep initproc)).proc initproc).chan = some txChan := by
    rw [hk2, hk1]
    decide +kernel
  let flagged : Slot → Bool → Prop := fun _ flag => flag = true
  have hinit : Monitor.Initial (channelWaiters txChan)
      (⟨k1, false, none, fun _ => false⟩ : Monitor.State Kernel Slot Bool) := by
    refine ⟨fun p hp => ?_, rfl, fun _ => rfl⟩
    have hreg : (k1.proc p).chan = some txChan := hp
    rw [hk1] at hreg
    rcases apply_chan hreg with hboot | hboot
    · rw [bootKernel_chan] at hboot
      cases hboot
    · cases hboot
  have h1 : Monitor.Step (channelWaiters txChan) flagged ⟨k1, false, none, fun _ => false⟩
      ⟨k1, false, some (initproc, .busy false), fun _ => false⟩ := .acquire rfl rfl
  have h2 : Monitor.Step (channelWaiters txChan) flagged
      ⟨k1, false, some (initproc, .busy false), fun _ => false⟩
      ⟨k2, false, some (initproc, .prepared), fun _ => false⟩ :=
    .prepare rfl (by simp [flagged]) ⟨hrun.1, hk2⟩
  have h3 : Monitor.Step (channelWaiters txChan) flagged
      ⟨k2, false, some (initproc, .prepared), fun _ => false⟩
      ⟨k2, false, none, Function.update (fun _ => false) initproc true⟩ := .releasePrepared rfl
  have h4 : Monitor.Step (channelWaiters txChan) flagged
      ⟨k2, false, none, Function.update (fun _ => false) initproc true⟩
      ⟨k2.apply (.sleep initproc), false, none,
        Function.update (Function.update (fun _ => false) initproc true) initproc false⟩ :=
    .sleep (by simp) ⟨hrun.2.1, rfl⟩
  exact ⟨_, _, hinit, (((Relation.ReflTransGen.single h1).tail h2).tail h3).tail h4, rfl,
    hrun.2.2.1, hrun.2.2.2⟩

/-- The hypotheses are met: a process registers and is woken before it sleeps, and a client sleeps
while its condition does not hold. -/
theorem no_lost_wakeup_init :
    (bootKernel .rr).Legal [.dispatch initproc, .sleepPrepare initproc txChan,
      .wakeup initproc (some txChan)] ∧
    (((bootKernel .rr).after [.dispatch initproc, .sleepPrepare initproc txChan,
      .wakeup initproc (some txChan)]).proc initproc).state ≠ .sleeping ∧
    ∃ s : Monitor.State Kernel Slot Bool, s.holder = none ∧
      (s.table.proc initproc).state = .sleeping ∧ ¬ s.data = true := by
  obtain ⟨-, htable, hclient, -⟩ := no_lost_wakeup (σ := Bool) (ι := Unit)
  obtain ⟨s, s', hinit, hrun, hfree, hs, hchan⟩ := exists_waiting_client
  have hlegal : (bootKernel .rr).Legal ([.dispatch initproc] ++ .sleepPrepare initproc txChan :: []
      ++ .wakeup initproc (some txChan) :: []) :=
    ⟨by decide +kernel, by decide +kernel, trivial, trivial⟩
  refine ⟨hlegal, ?_, s', hfree, hs, ?_⟩
  · exact (htable .rr [.dispatch initproc] [] [] initproc txChan _ hlegal rfl nofun nofun).1
  · exact hclient txChan _ s s' initproc hinit hrun hfree hs hchan

end Xv6Riscv
