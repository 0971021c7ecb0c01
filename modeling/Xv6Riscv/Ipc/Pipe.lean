import Xv6Riscv.Lib.Ring
import Xv6Riscv.Proc.Channels

/-!
Pipes (`pipe.c`).

The machine below interleaves any number of calls of `pipewrite`, `piperead` and `pipeclose` on one
pipe, and every other operation on the process table. A step is a stretch of code with at most one
section under the lock of a process (`killed`, one slot of a `wakeup`, `sleep_prepare`, `sleep`):
since `kkill` takes that lock only, it may come between the test of `killed` and what a call does
next, also while `pi->lock` is held. Whether a copy from or to user space succeeds is not known to
the pipe, so it is an argument of the step. What has been accepted from writers and what has been
delivered to readers is recorded.

* `pipe_fifo`: a pipe is a queue.
-/

namespace Xv6Riscv

open Ring

def pipeSize : ℕ := 512

/-- `struct pipe`, without its lock. -/
structure Pipe where
  data : ℕ → UInt8
  nread : UInt32
  nwrite : UInt32
  readopen : Bool
  writeopen : Bool

namespace Pipe

/-- The test of `piperead`. -/
def empty (pi : Pipe) : Bool := pi.nread = pi.nwrite

/-- The test of `pipewrite`. -/
def full (pi : Pipe) : Bool := pi.nwrite = pi.nread + 512

/-- `pi->data[pi->nwrite++ % PIPESIZE] = ch`. -/
def put (pi : Pipe) (ch : UInt8) : Pipe :=
  { pi with data := Function.update pi.data (slot pipeSize pi.nwrite) ch, nwrite := pi.nwrite + 1 }

/-- `pi->data[pi->nread % PIPESIZE]`. -/
def next (pi : Pipe) : UInt8 := pi.data (slot pipeSize pi.nread)

/-- `pi->nread++`. -/
def take (pi : Pipe) : Pipe := { pi with nread := pi.nread + 1 }

/-- `pi->writeopen = 0` or `pi->readopen = 0`. -/
def closeEnd (pi : Pipe) (writable : Bool) : Pipe :=
  if writable then { pi with writeopen := false } else { pi with readopen := false }

def contents (pi : Pipe) : List UInt8 := queue pipeSize pi.data pi.nread pi.nwrite

end Pipe

/-- The two counters, whose addresses are the channels of a pipe. -/
inductive PipeField
  | nread | nwrite
  deriving DecidableEq

/-- `&pi->nread` and `&pi->nwrite`. -/
def PipeField.chan : PipeField → Chan
  | nread => .addr 2
  | nwrite => .addr 3

/-- A call on the pipe, at its beginning or after a sleep. -/
inductive PipeCall
  /-- `pipewrite` of `n` bytes, of which `i` are written -/
  | write (n : ℤ) (i : ℕ)
  /-- `piperead` of `n` bytes -/
  | read (n : ℤ)
  | close (writable : Bool)
  deriving DecidableEq

/-- What a call returns when a copy fails after `i` bytes. -/
def copyFailed (i : ℕ) : ℤ := if i = 0 then -1 else i

/-- What a call is going to return; a `piperead` with its request. -/
inductive PipeRet
  | write (r : ℤ)
  | read (n r : ℤ)
  | close
  deriving DecidableEq

/-- Where a process is. -/
inductive PipePc
  /-- in no call -/
  | out
  /-- about to acquire `pi->lock` -/
  | enter (c : PipeCall)
  /-- at the head of the loop of `pipewrite`; `stored` if it has stored a byte since it acquired the
  lock -/
  | writing (n : ℤ) (i : ℕ) (stored : Bool)
  /-- has found room and `killed` false, before `copyin` -/
  | storing (n : ℤ) (i : ℕ) (stored : Bool)
  /-- has found the pipe full, in `wakeup(&pi->nread)` at the slot `j` -/
  | full (n : ℤ) (i j : ℕ)
  /-- at the head of the first loop of `piperead` -/
  | waiting (n : ℤ)
  /-- has found the pipe empty and `killed` false, before `sleep_prepare` -/
  | registering (n : ℤ)
  /-- at the head of the second loop of `piperead` -/
  | copying (n : ℤ) (i : ℕ)
  /-- in `pipeclose`, with the lock -/
  | closing (writable : Bool)
  /-- after `sleep_prepare`, about to release the lock -/
  | prepared (c : PipeCall)
  /-- about to call `sleep` -/
  | asleep (c : PipeCall)
  /-- in the last `wakeup` of a call, at the slot `j` -/
  | ending (f : PipeField) (j : ℕ) (r : PipeRet)
  deriving DecidableEq

/-- The counter a call waits on. -/
def PipeCall.waitsOn : PipeCall → Option PipeField
  | write _ _ => some .nwrite
  | read _ => some .nread
  | close _ => none

/-- Where a call goes on when it has the lock. -/
def PipeCall.locked : PipeCall → PipePc
  | write n i => .writing n i false
  | read n => .waiting n
  | close writable => .closing writable

/-- The call is at its beginning. -/
def PipeCall.Fresh : PipeCall → Prop
  | write _ i => i = 0
  | read _ | close _ => True

instance (c : PipeCall) : Decidable c.Fresh := by
  rcases c with ⟨⟩ <;> unfold PipeCall.Fresh <;> infer_instance

/-- Points of a call with `pi->lock` held. -/
def PipePc.Holds : PipePc → Prop
  | out | enter _ | asleep _ => False
  | writing _ _ _ | storing _ _ _ | full _ _ _ | waiting _ | registering _ | copying _ _ | closing _
  | prepared _ | ending _ _ _ => True

/-- What a process knows about the pipe at a point of a call at which it holds the lock. -/
def PipePc.Knows (pi : Pipe) : PipePc → Prop
  | writing _ _ stored => stored = true → pi.readopen = true
  | storing _ _ _ => pi.full = false ∧ pi.readopen = true
  | full _ _ j => j ≤ nproc ∧ pi.full = true ∧ pi.readopen = true
  | registering _ => pi.empty = true ∧ pi.writeopen = true
  | copying _ i => i = 0 → ¬ (pi.empty = true ∧ pi.writeopen = true)
  | ending _ j (.read n r) =>
    j ≤ nproc ∧ (r = 0 → 0 < n → pi.empty = true ∧ pi.writeopen = false)
  | ending _ j _ => j ≤ nproc
  | out | enter _ | waiting _ | closing _ | prepared _ | asleep _ => True

variable {pc : PipePc}

lemma PipePc.knows_of_not_holds (h : ¬ pc.Holds) (pi : Pipe) : pc.Knows pi := by
  cases pc with
  | out | enter _ | asleep _ => trivial
  | writing _ _ _ | storing _ _ _ | full _ _ _ | waiting _ | registering _ | copying _ _ | closing _
  | prepared _ | ending _ _ _ => exact absurd trivial h

/-- The process table, the pipe, the holder of `pi->lock`, the processes in a call, and the bytes
accepted by `pipewrite` and delivered by `piperead` so far. -/
structure PipeSys where
  k : Kernel
  pi : Pipe
  lock : Option Slot
  pc : Slot → PipePc
  accepted : List UInt8
  delivered : List UInt8

namespace PipeSys

/-- Another place for the process `p`. -/
def goto (s : PipeSys) (p : Slot) (pc : PipePc) : PipeSys :=
  { s with pc := Function.update s.pc p pc }

/-- `release(&pi->lock)`, and on to another place. -/
def release (s : PipeSys) (p : Slot) (pc : PipePc) : PipeSys :=
  { s.goto p pc with lock := none }

/-- One slot of `wakeup(f)`, and on to another place. -/
def wake (s : PipeSys) (p : Slot) (f : PipeField) (i : Slot) (pc : PipePc) : PipeSys :=
  { s.goto p pc with k := s.k.apply (.wakeup i (some f.chan)) }

/-- `sleep_prepare(f)`. -/
def prepare (s : PipeSys) (p : Slot) (f : PipeField) (c : PipeCall) : PipeSys :=
  { s.goto p (.prepared c) with k := s.k.apply (.sleepPrepare p f.chan) }

/-- The next step of the process `p`; `u` is the result of its copy from or to user space, `none` if
the copy fails. -/
def next (s : PipeSys) (p : Slot) (u : Option UInt8) : Option PipeSys :=
  match s.pc p with
  | .out => none
  | .enter c => if s.lock = none then some { s.goto p c.locked with lock := some p } else none
  | .writing n i stored =>
    if (i : ℤ) < n then
      if s.pi.readopen = false ∨ (s.k.proc p).killed = true then some (s.release p .out)
      else if s.pi.full then some (s.goto p (.full n i 0))
      else some (s.goto p (.storing n i stored))
    else some (s.goto p (.ending .nread 0 (.write i)))
  | .storing n i _ =>
    match u with
    | none => some (s.goto p (.ending .nread 0 (.write (copyFailed i))))
    | some ch => some { s.goto p (.writing n (i + 1) true) with
        pi := s.pi.put ch, accepted := s.accepted ++ [ch] }
  | .full n i j =>
    if h : j < nproc then some (s.wake p .nread ⟨j, h⟩ (.full n i (j + 1)))
    else some (s.prepare p .nwrite (.write n i))
  | .waiting n =>
    if s.pi.empty ∧ s.pi.writeopen then
      if (s.k.proc p).killed = true then some (s.release p .out)
      else some (s.goto p (.registering n))
    else some (s.goto p (.copying n 0))
  | .registering n => some (s.prepare p .nread (.read n))
  | .copying n i =>
    if (i : ℤ) < n then
      if s.pi.empty then some (s.goto p (.ending .nwrite 0 (.read n i)))
      else match u with
        | none => some (s.goto p (.ending .nwrite 0 (.read n (copyFailed i))))
        | some _ => some { s.goto p (.copying n (i + 1)) with
            pi := s.pi.take, delivered := s.delivered ++ [s.pi.next] }
    else some (s.goto p (.ending .nwrite 0 (.read n i)))
  | .closing writable =>
    some { s.goto p (.ending (if writable then .nread else .nwrite) 0 .close) with
      pi := s.pi.closeEnd writable }
  | .prepared c => some (s.release p (.asleep c))
  | .asleep c => some { s.goto p (.enter c) with k := s.k.apply (.sleep p) }
  | .ending f j r =>
    if h : j < nproc then some (s.wake p f ⟨j, h⟩ (.ending f (j + 1) r))
    else some (s.release p .out)

/-- The operations on the process table that do not belong to the pipe. Nobody else registers on its
channels, and a process in the middle of a call does not sleep or exit elsewhere. -/
def Elsewhere (s : PipeSys) : Op → Prop
  | .sleepPrepare p ch => s.pc p = .out ∧ ch ≠ PipeField.nread.chan ∧ ch ≠ PipeField.nwrite.chan
  | .sleep p | .setkilled p | .exit p _ => s.pc p = .out
  | _ => True

instance (s : PipeSys) (o : Op) : Decidable (s.Elsewhere o) := by
  rcases o with ⟨⟩ <;> unfold Elsewhere <;> infer_instance

end PipeSys

/-- What can happen next. -/
inductive PipeAct
  /-- a process begins a call -/
  | call (p : Slot) (c : PipeCall)
  /-- a process in a call takes a step -/
  | step (p : Slot) (u : Option UInt8)
  /-- anything else that happens to the process table -/
  | table (o : Op)

namespace PipeSys

def act (s : PipeSys) : PipeAct → Option PipeSys
  | .call p c =>
    if s.pc p = .out ∧ (s.k.proc p).state = .running ∧ c.Fresh then some (s.goto p (.enter c))
    else none
  | .step p u => if (s.k.proc p).state = .running then s.next p u else none
  | .table o => if o.Ok s.k ∧ s.Elsewhere o then some { s with k := s.k.apply o } else none

def Run : PipeSys → PipeSys → Prop := Relation.ReflTransGen fun s s' => ∃ a, s.act a = some s'

/-- A pipe as `pipealloc` leaves it, before any call. -/
structure Initial (s : PipeSys) : Prop where
  nread : s.pi.nread = 0
  nwrite : s.pi.nwrite = 0
  readopen : s.pi.readopen = true
  writeopen : s.pi.writeopen = true
  lock : s.lock = none
  pc : ∀ p, s.pc p = .out
  chan : ∀ p (f : PipeField), (s.k.proc p).chan ≠ some f.chan
  accepted : s.accepted = []
  delivered : s.delivered = []

/-- What a step of the process `p` can be. -/
inductive Moves (s : PipeSys) (p : Slot) : PipeSys → Prop
  | enter (c : PipeCall) : s.pc p = .enter c → s.lock = none →
      Moves s p { s.goto p c.locked with lock := some p }
  | writeOver (n : ℤ) (i : ℕ) (b : Bool) : s.pc p = .writing n i b →
      Moves s p (s.goto p (.ending .nread 0 (.write i)))
  | writeStop (n : ℤ) (i : ℕ) (b : Bool) : s.pc p = .writing n i b → (i : ℤ) < n →
      s.pi.readopen = false ∨ (s.k.proc p).killed = true → Moves s p (s.release p .out)
  | writeFull (n : ℤ) (i : ℕ) (b : Bool) : s.pc p = .writing n i b → s.pi.readopen = true →
      s.pi.full = true → Moves s p (s.goto p (.full n i 0))
  | writeGo (n : ℤ) (i : ℕ) (b : Bool) : s.pc p = .writing n i b → s.pi.readopen = true →
      (s.k.proc p).killed = false → s.pi.full = false → Moves s p (s.goto p (.storing n i b))
  | copyinFails (n : ℤ) (i : ℕ) (b : Bool) : s.pc p = .storing n i b →
      Moves s p (s.goto p (.ending .nread 0 (.write (copyFailed i))))
  | put (n : ℤ) (i : ℕ) (b : Bool) (ch : UInt8) : s.pc p = .storing n i b →
      Moves s p { s.goto p (.writing n (i + 1) true) with
        pi := s.pi.put ch, accepted := s.accepted ++ [ch] }
  | fullWake (n : ℤ) (i : ℕ) (j : Slot) : s.pc p = .full n i j →
      Moves s p (s.wake p .nread j (.full n i (j + 1)))
  | fullPrepare (n : ℤ) (i j : ℕ) : s.pc p = .full n i j → nproc ≤ j →
      Moves s p (s.prepare p .nwrite (.write n i))
  | waitStop (n : ℤ) : s.pc p = .waiting n → Moves s p (s.release p .out)
  | waitGo (n : ℤ) : s.pc p = .waiting n → s.pi.empty = true → s.pi.writeopen = true →
      Moves s p (s.goto p (.registering n))
  | waitPrepare (n : ℤ) : s.pc p = .registering n → Moves s p (s.prepare p .nread (.read n))
  | waitOver (n : ℤ) : s.pc p = .waiting n → ¬ (s.pi.empty = true ∧ s.pi.writeopen = true) →
      Moves s p (s.goto p (.copying n 0))
  | copyOver (n : ℤ) (i : ℕ) : s.pc p = .copying n i → ¬ (i : ℤ) < n ∨ s.pi.empty = true →
      Moves s p (s.goto p (.ending .nwrite 0 (.read n i)))
  | copyoutFails (n : ℤ) (i : ℕ) : s.pc p = .copying n i →
      Moves s p (s.goto p (.ending .nwrite 0 (.read n (copyFailed i))))
  | take (n : ℤ) (i : ℕ) : s.pc p = .copying n i → s.pi.empty = false →
      Moves s p { s.goto p (.copying n (i + 1)) with
        pi := s.pi.take, delivered := s.delivered ++ [s.pi.next] }
  | close (writable : Bool) : s.pc p = .closing writable →
      Moves s p { s.goto p (.ending (if writable then .nread else .nwrite) 0 .close) with
        pi := s.pi.closeEnd writable }
  | release (c : PipeCall) : s.pc p = .prepared c → Moves s p (s.release p (.asleep c))
  | sleep (c : PipeCall) : s.pc p = .asleep c →
      Moves s p { s.goto p (.enter c) with k := s.k.apply (.sleep p) }
  | endWake (f : PipeField) (j : Slot) (r : PipeRet) : s.pc p = .ending f j r →
      Moves s p (s.wake p f j (.ending f (j + 1) r))
  | endReturn (f : PipeField) (j : ℕ) (r : PipeRet) : s.pc p = .ending f j r → nproc ≤ j →
      Moves s p (s.release p .out)

variable {s s' : PipeSys} {p q : Slot} {u : Option UInt8}

lemma Moves.of_next (h : s.next p u = some s') : Moves s p s' := by
  rw [next] at h
  cases hpc : s.pc p with
  | out => simp [hpc] at h
  | enter c =>
    simp only [hpc] at h
    split_ifs at h with hl
    exact Option.some.inj h ▸ .enter c hpc hl
  | writing n i b =>
    simp only [hpc] at h
    split_ifs at h with hi hstop hfull
    · exact Option.some.inj h ▸ .writeStop n i b hpc hi hstop
    · have hro : s.pi.readopen = true := by simpa using (not_or.mp hstop).1
      exact Option.some.inj h ▸ .writeFull n i b hpc hro hfull
    · obtain ⟨hro, hk⟩ := not_or.mp hstop
      exact Option.some.inj h ▸ .writeGo n i b hpc (by simpa using hro) (by simpa using hk)
        (by simpa using hfull)
    · exact Option.some.inj h ▸ .writeOver n i b hpc
  | storing n i b =>
    simp only [hpc] at h
    cases u with
    | none => exact Option.some.inj h ▸ .copyinFails n i b hpc
    | some ch => exact Option.some.inj h ▸ .put n i b ch hpc
  | full n i j =>
    simp only [hpc] at h
    split_ifs at h with hj
    · exact Option.some.inj h ▸ .fullWake n i ⟨j, hj⟩ hpc
    · exact Option.some.inj h ▸ .fullPrepare n i j hpc (not_lt.mp hj)
  | waiting n =>
    simp only [hpc] at h
    split_ifs at h with hw hk
    · exact Option.some.inj h ▸ .waitStop n hpc
    · exact Option.some.inj h ▸ .waitGo n hpc hw.1 hw.2
    · exact Option.some.inj h ▸ .waitOver n hpc hw
  | registering n =>
    simp only [hpc] at h
    exact Option.some.inj h ▸ .waitPrepare n hpc
  | copying n i =>
    simp only [hpc] at h
    split_ifs at h with hi he
    · exact Option.some.inj h ▸ .copyOver n i hpc (.inr he)
    · cases u with
      | none => exact Option.some.inj h ▸ .copyoutFails n i hpc
      | some ch => exact Option.some.inj h ▸ .take n i hpc (by simpa using he)
    · exact Option.some.inj h ▸ .copyOver n i hpc (.inl hi)
  | closing w =>
    simp only [hpc] at h
    exact Option.some.inj h ▸ .close w hpc
  | prepared c =>
    simp only [hpc] at h
    exact Option.some.inj h ▸ .release c hpc
  | asleep c =>
    simp only [hpc] at h
    exact Option.some.inj h ▸ .sleep c hpc
  | ending f j r =>
    simp only [hpc] at h
    split_ifs at h with hj
    · exact Option.some.inj h ▸ .endWake f ⟨j, hj⟩ r hpc
    · exact Option.some.inj h ▸ .endReturn f j r hpc (not_lt.mp hj)

/-! ### The invariant -/

/-- The lock is held by the process that is at such a point of a call, the counters are at most the
size of the buffer apart, and what was accepted is what was delivered and then what the buffer
holds. -/
structure PipeInv (s : PipeSys) : Prop where
  lock : ∀ p, s.lock = some p ↔ (s.pc p).Holds
  bound : count s.pi.nread s.pi.nwrite ≤ pipeSize
  fifo : s.accepted = s.delivered ++ s.pi.contents
  knows : ∀ p, (s.pc p).Knows s.pi

lemma goto_self (pc : PipePc) : (s.goto p pc).pc p = pc := Function.update_self ..

lemma goto_of_ne (pc : PipePc) (h : q ≠ p) : (s.goto p pc).pc q = s.pc q :=
  Function.update_of_ne h ..

lemma PipeInv.goto (h : s.PipeInv) (k : Kernel) {l : Option Slot} (hself : l = some p ↔ pc.Holds)
    (hl : ∀ q, q ≠ p → (l = some q ↔ s.lock = some q)) (hknows : pc.Knows s.pi) :
    PipeInv { s.goto p pc with k := k, lock := l } where
  lock q := by
    by_cases hq : q = p
    · rw [hq, goto_self]
      exact hself
    · rw [goto_of_ne _ hq, ← h.lock q]
      exact hl q hq
  __ := h
  knows q := by
    by_cases hq : q = p
    · rw [hq, goto_self]
      exact hknows
    · rw [goto_of_ne _ hq]
      exact h.knows q

lemma PipeInv.work (h : s.PipeInv) {pi : Pipe} {acc del : List UInt8} (hp : (s.pc p).Holds)
    (hpc : pc.Holds) (hbound : count pi.nread pi.nwrite ≤ pipeSize)
    (hfifo : acc = del ++ pi.contents) (hknows : pc.Knows pi) :
    PipeInv { s.goto p pc with pi := pi, accepted := acc, delivered := del } where
  lock q := by
    by_cases hq : q = p
    · rw [hq, goto_self]
      exact iff_of_true ((h.lock p).mpr hp) hpc
    · rw [goto_of_ne _ hq]
      exact h.lock q
  bound := hbound
  fifo := hfifo
  knows q := by
    by_cases hq : q = p
    · rw [hq, goto_self]
      exact hknows
    · -- nobody else holds the lock
      rw [goto_of_ne _ hq]
      refine PipePc.knows_of_not_holds (fun hholds => hq ?_) pi
      have hlq := (h.lock q).mpr hholds
      rw [(h.lock p).mpr hp] at hlq
      exact (Option.some.inj hlq).symm

lemma PipeInv.keep (h : s.PipeInv) (k : Kernel) (hp : (s.pc p).Holds) (hpc : pc.Holds)
    (hknows : pc.Knows s.pi) : PipeInv { s.goto p pc with k := k } :=
  h.goto k (iff_of_true ((h.lock p).mpr hp) hpc) (fun _ _ => Iff.rfl) hknows

lemma PipeInv.release (h : s.PipeInv) (hp : (s.pc p).Holds) (hpc : ¬ pc.Holds) :
    (s.release p pc).PipeInv := by
  refine h.goto s.k (iff_of_false (by simp) hpc) (fun q hq => ?_) (PipePc.knows_of_not_holds hpc _)
  rw [(h.lock p).mpr hp]
  exact iff_of_false (by simp) fun he => hq (Option.some.inj he).symm

lemma pipeSize_dvd : pipeSize ∣ 2 ^ 32 := by decide

lemma count_lt_of_not_full {pi : Pipe} (hb : count pi.nread pi.nwrite ≤ pipeSize)
    (h : pi.full = false) : count pi.nread pi.nwrite < pipeSize := by
  refine lt_of_le_of_ne hb fun he => ?_
  have hw := add_count pi.nread pi.nwrite
  rw [he] at hw
  exact absurd h (by rw [Pipe.full, ← hw]; simp [pipeSize])

/-- **Every step** of a call keeps the invariant. -/
theorem Moves.pipeInv (h : s.PipeInv) (hstep : Moves s p s') : s'.PipeInv := by
  have hk := h.knows p
  cases hstep with
  | enter c hpc hlock =>
    refine h.goto s.k (iff_of_true rfl ?_) (fun q hq => ?_) ?_
    · cases c <;> trivial
    · rw [hlock]
      exact iff_of_false (fun he => hq (Option.some.inj he).symm) (by simp)
    · cases c with
      | write n i => exact fun he => absurd he Bool.false_ne_true
      | read n => trivial
      | close w => trivial
  | writeOver n i b hpc | copyinFails n i b hpc =>
    exact h.keep s.k (by rw [hpc]; trivial) trivial (Nat.zero_le _)
  | writeStop n i b hpc | waitStop n hpc | release c hpc | endReturn f j r hpc =>
    exact h.release (by rw [hpc]; trivial) id
  | writeFull n i b hpc hro hfull =>
    exact h.keep s.k (by rw [hpc]; trivial) trivial ⟨Nat.zero_le _, hfull, hro⟩
  | writeGo n i b hpc hro hkill hfull =>
    exact h.keep s.k (by rw [hpc]; trivial) trivial ⟨hfull, hro⟩
  | put n i b ch hpc =>
    rw [hpc] at hk
    have hlt := count_lt_of_not_full h.bound hk.1
    have hlt' : count s.pi.nread s.pi.nwrite + 1 < 2 ^ 32 := by
      have : pipeSize + 1 < 2 ^ 32 := by decide
      omega
    refine h.work (by rw [hpc]; trivial) trivial ?_ ?_ fun _ => hk.2
    · change count s.pi.nread (s.pi.nwrite + 1) ≤ pipeSize
      rw [count_succ_right hlt']
      exact hlt
    · rw [Pipe.contents, Pipe.put, queue_push pipeSize_dvd hlt hlt', h.fifo, List.append_assoc]
      rfl
  | fullWake n i j hpc =>
    rw [hpc] at hk
    exact h.keep _ (by rw [hpc]; trivial) trivial ⟨j.isLt, hk.2⟩
  | fullPrepare n i j hpc hj | waitPrepare n hpc =>
    exact h.keep _ (by rw [hpc]; trivial) trivial trivial
  | waitGo n hpc hempty hopen =>
    exact h.keep s.k (by rw [hpc]; trivial) trivial ⟨hempty, hopen⟩
  | waitOver n hpc hw => exact h.keep s.k (by rw [hpc]; trivial) trivial fun _ => hw
  | copyOver n i hpc hover =>
    rw [hpc] at hk
    refine h.keep s.k (by rw [hpc]; trivial) trivial ⟨Nat.zero_le _, fun hi hn => ?_⟩
    have hi0 : i = 0 := by exact_mod_cast hi
    have hempty : s.pi.empty = true := hover.resolve_left fun hnot => hnot (hi ▸ hn)
    have hopen := fun hw => hk hi0 ⟨hempty, hw⟩
    exact ⟨hempty, by simpa using hopen⟩
  | copyoutFails n i hpc =>
    refine h.keep s.k (by rw [hpc]; trivial) trivial ⟨Nat.zero_le _, fun hr => ?_⟩
    rw [copyFailed] at hr
    split_ifs at hr with hi
    exact absurd hr (by exact_mod_cast hi)
  | take n i hpc he =>
    have hne : s.pi.nread ≠ s.pi.nwrite := by simpa [Pipe.empty] using he
    refine h.work (by rw [hpc]; trivial) trivial ?_ ?_ fun h0 => absurd h0 (Nat.succ_ne_zero i)
    · have hc := count_succ_left hne
      have hb := h.bound
      change count (s.pi.nread + 1) s.pi.nwrite ≤ pipeSize
      omega
    · change s.accepted = s.delivered ++ [s.pi.next] ++ s.pi.take.contents
      rw [h.fifo, Pipe.contents, queue_pop hne, List.append_assoc]
      rfl
  | close w hpc =>
    refine h.work (by rw [hpc]; trivial) trivial ?_ ?_ (Nat.zero_le _)
    · cases w <;> exact h.bound
    · cases w <;> exact h.fifo
  | sleep c hpc =>
    have hnot : ¬ (s.pc p).Holds := by rw [hpc]; exact id
    exact h.goto _ (iff_of_false (fun he => hnot ((h.lock p).mp he)) id) (fun _ _ => Iff.rfl)
      trivial
  | endWake f j r hpc =>
    rw [hpc] at hk
    refine h.keep _ (by rw [hpc]; trivial) trivial ?_
    cases r with
    | write r => exact j.isLt
    | read n r => exact ⟨j.isLt, hk.2⟩
    | close => exact j.isLt

/-- **Every action** keeps the invariant. -/
lemma PipeInv.act {a : PipeAct} (h : s.PipeInv) (ha : s.act a = some s') : s'.PipeInv := by
  cases a with
  | call p c =>
    rw [PipeSys.act] at ha
    split_ifs at ha with hc
    have hnot : ¬ (s.pc p).Holds := by rw [hc.1]; exact id
    exact Option.some.inj ha ▸ h.goto s.k (iff_of_false (fun he => hnot ((h.lock p).mp he)) id)
      (fun _ _ => Iff.rfl) trivial
  | step p u =>
    rw [PipeSys.act] at ha
    split_ifs at ha
    exact (Moves.of_next ha).pipeInv h
  | table o =>
    rw [PipeSys.act] at ha
    split_ifs at ha
    exact Option.some.inj ha ▸ { h with }

lemma Initial.pipeInv (h : s.Initial) : s.PipeInv where
  lock p := by
    rw [h.lock, h.pc p]
    exact iff_of_false (by simp) id
  bound := by rw [h.nread, h.nwrite, count_self]; exact Nat.zero_le _
  fifo := by
    have hnil : s.pi.contents = [] := queue_eq_nil.mpr (h.nread.trans h.nwrite.symm)
    rw [h.accepted, h.delivered, hnil, List.append_nil]
  knows p := by rw [h.pc p]; trivial

lemma Run.pipeInv (hinit : s.Initial) (hrun : Run s s') : s'.PipeInv := by
  induction hrun with
  | refl => exact hinit.pipeInv
  | tail _ hstep ih =>
    obtain ⟨a, ha⟩ := hstep
    exact ih.act ha

/-- **A pipe is a queue.** In every run the counters are at most the size of the buffer apart, the
bytes accepted from the writers are those delivered to the readers followed by what the buffer
holds, and a `piperead` of at least one byte that is about to return 0 has found the pipe empty and
its write end closed. -/
theorem pipe_fifo (hinit : s.Initial) (hrun : Run s s') :
    (s'.pi.nwrite - s'.pi.nread).toNat ≤ pipeSize ∧
    s'.accepted = s'.delivered ++ s'.pi.contents ∧
    ∀ p f j n, s'.pc p = .ending f j (.read n 0) → 0 < n →
      s'.pi.nread = s'.pi.nwrite ∧ s'.pi.writeopen = false := by
  have h := hrun.pipeInv hinit
  refine ⟨h.bound, h.fifo, fun p f j n hpc hn => ?_⟩
  have hk := h.knows p
  rw [hpc] at hk
  obtain ⟨hempty, hclosed⟩ := hk.2 rfl hn
  exact ⟨by simpa [Pipe.empty] using hempty, hclosed⟩

/-! ### A run -/

lemma Run.of_acts {acts : List PipeAct} (h : acts.foldlM act s = some s') : Run s s' :=
  Transition.run_of_foldlM (fun a _ _ _ ht => ⟨a, ht⟩) h

/-- A new pipe. -/
def pipealloc (k : Kernel) : PipeSys where
  k := k
  pi := ⟨fun _ => 0, 0, 0, true, true⟩
  lock := none
  pc _ := .out
  accepted := []
  delivered := []

lemma pipealloc_initial {k : Kernel} (hk : ∀ p (f : PipeField), (k.proc p).chan ≠ some f.chan) :
    (pipealloc k).Initial :=
  ⟨rfl, rfl, rfl, rfl, rfl, fun _ => rfl, hk, rfl, rfl⟩

def oneRunning : Kernel := (bootKernel .rr).apply (.dispatch initproc)

lemma oneRunning_chan (p : Slot) (ch : Chan) : (oneRunning.proc p).chan ≠ some ch := by
  intro h
  have hboot := (apply_chan h).resolve_right nofun
  rw [bootKernel_chan] at hboot
  cases hboot

/-- The first process writes two bytes. -/
theorem pipe_fifo_small : ∃ s', Run (pipealloc oneRunning) s' ∧ s'.accepted = [65, 66] ∧
    ((s'.pi.nwrite - s'.pi.nread).toNat ≤ pipeSize ∧ s'.accepted = s'.delivered ++ s'.pi.contents ∧
      ∀ p f j n, s'.pc p = .ending f j (.read n 0) → 0 < n →
        s'.pi.nread = s'.pi.nwrite ∧ s'.pi.writeopen = false) := by
  have hacts : (([.call initproc (.write 3 0), .step initproc none, .step initproc none,
      .step initproc (some 65), .step initproc none, .step initproc (some 66)] :
        List PipeAct).foldlM act (pipealloc oneRunning)).map accepted = some [65, 66] := by
    decide +kernel
  obtain ⟨s', hs', hacc⟩ := Option.map_eq_some_iff.mp hacts
  have hinit := pipealloc_initial fun p f => oneRunning_chan p f.chan
  exact ⟨s', .of_acts hs', hacc, pipe_fifo hinit (.of_acts hs')⟩

end PipeSys

end Xv6Riscv
