import Xv6Riscv.Proc.Channels

/-!
Sending to the UART (`uartwrite`, `uartintr`).

`uartwrite` waits for the transmitter without a lock: it registers on `&tx_chan` first, then reads
the line status, and goes to sleep only if the transmitter is busy. The device raises an interrupt
when it has become idle, and `uartintr`, which acknowledges the interrupt before it reads the line
status, wakes up whoever is registered.

The machine below interleaves any number of writers (`tx_lock` would admit one at a time), handlers
on any number of CPUs, characters sent by `uartputc_sync`, the device, and every other operation on
the process table. `UartInv` is the invariant: a registered process that has already read the line
status, with the transmitter idle, is going to be woken.
-/

namespace Xv6Riscv

open Function (update update_of_ne update_self)

/-- The channel `&tx_chan`. -/
def txChan : Chan := .addr 1

/-- Where a process is in the loop of `uartwrite`. -/
inductive WriterPc
  /-- at the head of the loop, or elsewhere -/
  | out
  /-- after `sleep_prepare` -/
  | prepared
  /-- has read `LSR_TX_IDLE` and is about to write the character -/
  | ready
  /-- has found the transmitter busy and is about to call `sleep` -/
  | busy
  deriving DecidableEq

/-- Where a CPU is in `uartintr`. -/
inductive HandlerPc
  | off
  /-- the interrupt has been acknowledged -/
  | acked
  /-- in `wakeup(&tx_chan)`, about to examine the slot `j` -/
  | waking (j : ℕ)
  deriving DecidableEq

/-- The process table, the device, the processes in `uartwrite` and the CPUs in `uartintr`. -/
structure Uart (ι : Type*) where
  k : Kernel
  /-- `LSR_TX_IDLE` -/
  idle : Bool
  /-- an interrupt is pending -/
  irq : Bool
  writer : Slot → WriterPc
  handler : ι → HandlerPc

namespace Uart

variable {ι : Type*}

/-- Nobody is sending and nobody is registered. -/
def Initial (s : Uart ι) : Prop :=
  (∀ p, (s.k.proc p).chan ≠ some txChan) ∧ (∀ p, s.writer p = .out) ∧ ∀ c, s.handler c = .off

variable [DecidableEq ι]

/-- The steps of writers, handlers, the device and everyone else. -/
inductive Step : Uart ι → Uart ι → Prop
  | prepare {s : Uart ι} {p : Slot} (hp : s.writer p = .out)
      (hrun : (s.k.proc p).state = .running) :
      Step s { s with
        k := s.k.apply (.sleepPrepare p txChan)
        writer := update s.writer p .prepared }
  | check {s : Uart ι} {p : Slot} (hp : s.writer p = .prepared) :
      Step s { s with writer := update s.writer p (if s.idle then .ready else .busy) }
  | write {s : Uart ι} {p : Slot} (hp : s.writer p = .ready) :
      Step s { s with idle := false, writer := update s.writer p .out }
  | sleep {s : Uart ι} {p : Slot} (hp : s.writer p = .busy)
      (hrun : (s.k.proc p).state = .running) :
      Step s { s with
        k := s.k.apply (.sleep p)
        writer := update s.writer p .out }
  /-- `uartputc_sync` writes a character -/
  | putcSync {s : Uart ι} : Step s { s with idle := false }
  /-- the device has sent a character -/
  | transmitted {s : Uart ι} (h : s.idle = false) : Step s { s with idle := true, irq := true }
  /-- `ReadReg(ISR)`, on an interrupt of the transmitter or of the receiver -/
  | ack {s : Uart ι} {c : ι} (h : s.handler c = .off) :
      Step s { s with irq := false, handler := update s.handler c .acked }
  | test {s : Uart ι} {c : ι} (h : s.handler c = .acked) :
      Step s { s with
        handler := update s.handler c (if s.idle then .waking 0 else .off) }
  | wake {s : Uart ι} {c : ι} {i : Slot} (h : s.handler c = .waking i) :
      Step s { s with
        k := s.k.apply (.wakeup i (some txChan))
        handler := update s.handler c (.waking (i + 1)) }
  | done {s : Uart ι} {c : ι} (h : s.handler c = .waking nproc) :
      Step s { s with handler := update s.handler c .off }
  /-- any other operation on the table; only `uartwrite` registers on `&tx_chan`, and a process in
  the middle of it does not go to sleep elsewhere -/
  | other {s : Uart ι} {o : Op} (ho : o.Ok s.k) (hprep : ∀ p, o ≠ .sleepPrepare p txChan)
      (hsleep : ∀ p, o = .sleep p → s.writer p = .out) :
      Step s { s with k := s.k.apply o }

/-- Somebody is going to wake the process `p`. -/
def Alerted (s : Uart ι) (p : Slot) : Prop :=
  s.irq = true ∨ ∃ c, s.handler c = .acked ∨ ∃ j, s.handler c = .waking j ∧ j ≤ p.val

/-- The invariant of the protocol. -/
structure UartInv (s : Uart ι) : Prop where
  /-- a process in the middle of `uartwrite` is not asleep -/
  awake : ∀ p, s.writer p ≠ .out → (s.k.proc p).state ≠ .sleeping
  /-- a process that waits for the transmitter, which is idle, is going to be woken -/
  alerted : ∀ p, s.idle = true → (s.k.proc p).chan = some txChan → s.writer p ≠ .prepared →
    s.writer p ≠ .ready → s.Alerted p

variable {s s' : Uart ι}

/-- Handlers and the device alert the processes they alerted before, unless a handler has passed
the place of one. -/
lemma Alerted.update {p : Slot} {c : ι} {pc : HandlerPc} (h : s.Alerted p)
    (hc : s.handler c = .acked → pc = .acked ∨ ∃ j, pc = .waking j ∧ j ≤ p.val)
    (hw : ∀ j, s.handler c = .waking j → j ≤ p.val →
      pc = .acked ∨ ∃ j', pc = .waking j' ∧ j' ≤ p.val) (k : Kernel) :
    Alerted { s with k := k, handler := update s.handler c pc } p := by
  rcases h with h | ⟨c', h⟩
  · exact .inl h
  · refine .inr ⟨c', ?_⟩
    by_cases hcc : c' = c
    · subst hcc
      simp only [update_self]
      rcases h with h | ⟨j, h, hj⟩
      · exact hc h
      · exact hw j h hj
    · simpa only [update_of_ne hcc] using h

omit [DecidableEq ι] in
/-- An operation on the table that puts no process of `uartwrite` to sleep and registers none. -/
lemma UartInv.table (h : s.UartInv) {o : Op} (ho : o.Ok s.k)
    (hsleep : ∀ p, o = .sleep p → s.writer p = .out) (p : Slot) (hp : s.writer p ≠ .out) :
    ((s.k.apply o).proc p).state ≠ .sleeping := by
  intro hs
  rcases apply_sleeping ho hs with hs | rfl
  · exact h.awake p hp hs
  · exact hp (hsleep p rfl)

/-- **Every step keeps the invariant.** -/
theorem Step.uartInv (h : s.UartInv) (hstep : Step s s') : s'.UartInv := by
  cases hstep with
  | @prepare p hp hrun =>
    refine ⟨fun q hq => ?_, fun q hidle hchan hq hq' => ?_⟩
    · intro hs
      rcases apply_sleeping (o := .sleepPrepare p txChan) hrun hs with hold | hold
      · by_cases hqp : q = p
        · subst hqp
          rw [hrun] at hold
          cases hold
        · exact h.awake q (by simpa only [update_of_ne hqp] using hq) hold
      · cases hold
    · have hqp : q ≠ p := by
        rintro rfl
        exact hq (update_self ..)
      simp only [update_of_ne hqp] at hq hq'
      rcases apply_chan hchan with hold | hnew
      · exact h.alerted q hidle hold hq hq'
      · cases hnew
        exact absurd rfl hqp
  | @check p hp =>
    refine ⟨fun q hq => ?_, fun q hidle hchan hq hq' => ?_⟩
    · by_cases hqp : q = p
      · subst hqp
        exact h.awake q (by rw [hp]; decide)
      · exact h.awake q (by simpa only [update_of_ne hqp] using hq)
    · by_cases hqp : q = p
      · -- with the transmitter idle the process goes on to write
        subst hqp
        exact absurd (by simp only [update_self, if_pos hidle]) hq'
      · simp only [update_of_ne hqp] at hq hq'
        exact h.alerted q hidle hchan hq hq'
  | @write p hp =>
    refine ⟨fun q hq => ?_, fun q hidle => by cases hidle⟩
    by_cases hqp : q = p
    · subst hqp
      exact absurd (update_self ..) hq
    · exact h.awake q (by simpa only [update_of_ne hqp] using hq)
  | @sleep p hp hrun =>
    refine ⟨fun q hq => ?_, fun q hidle hchan hq hq' => ?_⟩
    · have hqp : q ≠ p := by
        rintro rfl
        exact hq (update_self ..)
      intro hs
      rcases apply_sleeping (o := .sleep p) hrun hs with hs | hs
      · exact h.awake q (by simpa only [update_of_ne hqp] using hq) hs
      · cases hs
        exact absurd rfl hqp
    · have hold : (s.k.proc q).chan = some txChan := (apply_chan hchan).resolve_right nofun
      by_cases hqp : q = p
      · subst hqp
        exact h.alerted q hidle hold (by rw [hp]; decide) (by rw [hp]; decide)
      · simp only [update_of_ne hqp] at hq hq'
        exact h.alerted q hidle hold hq hq'
  | putcSync => exact ⟨h.awake, fun q hidle => by cases hidle⟩
  | transmitted => exact ⟨h.awake, fun q _ _ _ _ => .inl rfl⟩
  | @ack c hc =>
    exact ⟨h.awake, fun q _ _ _ _ => .inr ⟨c, .inl (update_self ..)⟩⟩
  | @test c hc =>
    refine ⟨h.awake, fun q hidle hchan hq hq' => ?_⟩
    have hidle' : s.idle = true := hidle
    refine .inr ⟨c, .inr ⟨0, ?_, Nat.zero_le _⟩⟩
    simp only [update_self, if_pos hidle']
  | @wake c i hc =>
    refine ⟨fun q hq => h.table (o := .wakeup i (some txChan)) trivial (by nofun) q hq,
      fun q hidle hchan hq hq' => ?_⟩
    have hold : (s.k.proc q).chan = some txChan := (apply_chan hchan).resolve_right nofun
    have hne : i ≠ q := by
      rintro rfl
      exact wakeup_chan_ne s.k i txChan hchan
    refine (h.alerted q hidle hold hq hq').update ?_ ?_ _
    · rw [hc]
      nofun
    · intro j hj hle
      rw [hc] at hj
      cases hj
      have : i.val ≠ q.val := fun he => hne (Fin.ext he)
      exact .inr ⟨i.val + 1, rfl, by omega⟩
  | @done c hc =>
    refine ⟨h.awake, fun q hidle hchan hq hq' => ?_⟩
    refine (h.alerted q hidle hchan hq hq').update ?_ ?_ s.k
    · rw [hc]
      nofun
    · intro j hj hle
      rw [hc] at hj
      cases hj
      exact absurd q.isLt (not_lt.mpr hle)
  | @other o ho hprep hsleep =>
    refine ⟨fun q hq => h.table ho hsleep q hq, fun q hidle hchan hq hq' => ?_⟩
    have hold : (s.k.proc q).chan = some txChan := (apply_chan hchan).resolve_right (hprep q)
    exact h.alerted q hidle hold hq hq'

omit [DecidableEq ι] in
lemma Initial.uartInv (h : s.Initial) : s.UartInv :=
  ⟨fun p hp => absurd (h.2.1 p) hp, fun p _ hchan => absurd hchan (h.1 p)⟩

lemma uartInv_of_run (h : s.Initial) (hrun : Relation.ReflTransGen Step s s') : s'.UartInv := by
  induction hrun with
  | refl => exact h.uartInv
  | tail _ hstep ih => exact hstep.uartInv ih

/-- **A sleeping writer is not forgotten**: while the transmitter is idle, an interrupt is pending
or a handler is at work. -/
theorem alert_of_sleeping (h : s.Initial) (hrun : Relation.ReflTransGen Step s s') {p : Slot}
    (hsleep : (s'.k.proc p).state = .sleeping) (hchan : (s'.k.proc p).chan = some txChan)
    (hidle : s'.idle = true) : s'.irq = true ∨ ∃ c, s'.handler c ≠ .off := by
  have hinv := uartInv_of_run h hrun
  have hout : s'.writer p = .out := by
    by_contra hne
    exact hinv.awake p hne hsleep
  rcases hinv.alerted p hidle hchan (by rw [hout]; decide) (by rw [hout]; decide) with
    hirq | ⟨c, hc | ⟨j, hc, -⟩⟩
  · exact .inl hirq
  · exact .inr ⟨c, by rw [hc]; decide⟩
  · exact .inr ⟨c, by rw [hc]; nofun⟩

end Uart

end Xv6Riscv
