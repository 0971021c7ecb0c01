import Xv6Riscv.Ipc.Pipe
import Xv6Riscv.Smp.Kill
import Xv6Riscv.Sync.Wakeup

/-!
Sleeping on a pipe (`pipe.c`).

A reader waits for the pipe to be non-empty or its write end to be closed, a writer for room or for
the read end to be closed. Seen from either channel, a pipe is a monitor: `seen f` is that view,
with what the holder of `pi->lock` still owes to the processes registered on the counter `f`.

There is one way to leave the view. `pipewrite` returns at the head of its loop when the caller has
been killed, without a `wakeup`, also if it has stored bytes since it acquired the lock. `Spares`
rules out that a writer is killed where this follows: at the head of the loop, when it has stored a
byte and has more to write, and between the test of `killed` and the store of a byte that is not its
last one.

* `pipe_strands_nobody`: what follows, from the general result on monitors.
* `reader_stranded`: a reader sleeps while the pipe holds a byte, after a writer has been killed.
-/

namespace Xv6Riscv

open Function (update update_eq_self update_of_ne update_self)
open Ring

/-- What the processes that wait on a counter wait for. -/
def PipeField.awaits : PipeField → Slot → Pipe → Prop
  | nread => fun _ pi => ¬ (pi.empty = true ∧ pi.writeopen = true)
  | nwrite => fun _ pi => ¬ (pi.full = true ∧ pi.readopen = true)

/-- What the holder of the lock owes to the processes waiting on `f`. -/
def PipePc.phase (f : PipeField) : PipePc → Monitor.Phase
  | writing _ _ stored | storing _ _ stored => .busy (f = .nread && stored)
  | full _ _ j => if f = .nread then .waking j else .busy false
  | copying _ i => .busy (f = .nwrite && i ≠ 0)
  | prepared c => if c.waitsOn = some f then .prepared else .busy false
  | ending f' j _ => if f' = f then .waking j else .busy false
  | out | enter _ | waiting _ | registering _ | closing _ | asleep _ => .busy false

/-- The process has registered on `f` and has released the lock to go to sleep. -/
def PipePc.pendingOn (f : PipeField) : PipePc → Bool
  | asleep c => c.waitsOn = some f
  | out | enter _ | writing _ _ _ | storing _ _ _ | full _ _ _ | waiting _ | registering _
  | copying _ _ | closing _ | prepared _ | ending _ _ _ => false

/-- A writer that is killed here and finds no bad address returns without a `wakeup`, though it has
stored bytes. -/
def PipePc.Exposed : PipePc → Prop
  | writing n i stored => stored = true ∧ (i : ℤ) < n
  | storing n i _ => (i + 1 : ℤ) < n
  | _ => False

variable {pc : PipePc}

lemma PipePc.pendingOn_of_holds (h : pc.Holds) (f : PipeField) : pc.pendingOn f = false := by
  cases pc with
  | asleep _ => exact absurd h id
  | out | enter _ | writing _ _ _ | storing _ _ _ | full _ _ _ | waiting _ | registering _
  | copying _ _ | closing _ | prepared _ | ending _ _ _ => rfl

variable {pi : Pipe}

lemma PipePc.ending_le {f : PipeField} {j : ℕ} {r : PipeRet} (h : (PipePc.ending f j r).Knows pi) :
    j ≤ nproc := by
  cases r with
  | write r => exact h
  | read n r => exact h.1
  | close => exact h

namespace PipeSys

variable {s s' : PipeSys} {p : Slot} {f : PipeField}

/-- The pipe as a monitor, for the processes that wait on `f`. -/
def seen (f : PipeField) (s : PipeSys) : Monitor.State Kernel Slot Pipe where
  table := s.k
  data := s.pi
  holder := s.lock.map fun p => (p, (s.pc p).phase f)
  pending p := (s.pc p).pendingOn f

/-- The runs of that monitor. -/
def Sees (f : PipeField) : PipeSys → PipeSys → Prop := fun s s' =>
  Relation.ReflTransGen (Monitor.Step (channelWaiters f.chan) f.awaits) (seen f s) (seen f s')

lemma seen_pending_goto (hpc : (s.pc p).pendingOn f = pc.pendingOn f) :
    (fun q => ((s.goto p pc).pc q).pendingOn f) = (seen f s).pending :=
  funext (Upd.map (PipePc.pendingOn f) hpc.symm)

lemma seen_work (hl : s.lock = some p) (hp : (s.pc p).Holds) (hpc : pc.Holds) (k : Kernel)
    (pi : Pipe) (acc del : List UInt8) :
    seen f { s.goto p pc with k := k, pi := pi, accepted := acc, delivered := del } =
      { seen f s with table := k, data := pi, holder := some (p, pc.phase f) } := by
  ext1
  · rfl
  · rfl
  · change s.lock.map (fun q => (q, ((s.goto p pc).pc q).phase f)) = some (p, pc.phase f)
    rw [hl, Option.map_some, goto_self]
  · refine seen_pending_goto ?_
    rw [PipePc.pendingOn_of_holds hpc, PipePc.pendingOn_of_holds hp]

lemma seen_release (pc : PipePc) : seen f (s.release p pc) =
    { seen f s with
      holder := none
      pending := update (seen f s).pending p (pc.pendingOn f) } := by
  ext1
  · rfl
  · rfl
  · rfl
  · exact funext (Function.apply_update (fun _ pc => PipePc.pendingOn f pc) s.pc p pc)

lemma seen_holder (hl : s.lock = some p) : (seen f s).holder = some (p, (s.pc p).phase f) := by
  rw [seen, hl, Option.map_some]

variable {k : Kernel}

lemma Sees.keep (h : s.PipeInv) {pc0 : PipePc} (hp : s.pc p = pc0) (h0 : pc0.Holds) (pc : PipePc)
    (hpc : pc.Holds) {acc del : List UInt8}
    (hrun : ∀ pend, Relation.ReflTransGen (Monitor.Step (channelWaiters f.chan) f.awaits)
      ⟨s.k, s.pi, some (p, pc0.phase f), pend⟩ ⟨k, pi, some (p, pc.phase f), pend⟩) :
    Sees f s { s.goto p pc with k := k, pi := pi, accepted := acc, delivered := del } := by
  subst hp
  have hl := (h.lock p).mpr h0
  rw [Sees, seen_work hl h0 hpc]
  have hseen : seen f s = ⟨s.k, s.pi, some (p, (s.pc p).phase f), (seen f s).pending⟩ := by
    rw [← seen_holder hl]
    rfl
  rw [hseen]
  exact hrun _

/-- The view after the lock has been released by a process that does not go to sleep on `f`. -/
lemma seen_release_awake (hp : (s.pc p).Holds) (hpc : pc.pendingOn f = false) :
    seen f (s.release p pc) = { seen f s with holder := none } := by
  have hself : (seen f s).pending p = false := PipePc.pendingOn_of_holds hp f
  rw [seen_release, hpc, ← hself, update_eq_self]

lemma Sees.release (h : s.PipeInv) {pc0 : PipePc} (hp : s.pc p = pc0) (h0 : pc0.Holds)
    (hpc : pc.pendingOn f = false) (hph : pc0.phase f = .busy false) :
    Sees f s (s.release p pc) := by
  subst hp
  rw [Sees, seen_release_awake h0 hpc]
  exact .single (.release (by rw [seen_holder ((h.lock p).mpr h0), hph]))

lemma seen_aside (hl : s.lock ≠ some p) (pc : PipePc) : seen f { s.goto p pc with k := k } =
      { seen f s with
        table := k
        pending := update (seen f s).pending p (pc.pendingOn f) } := by
  ext1
  · rfl
  · rfl
  · change s.lock.map (fun q => (q, ((s.goto p pc).pc q).phase f)) = _
    cases hq : s.lock with
    | none => simp [seen, hq]
    | some q =>
      have hqp : q ≠ p := fun he => hl (he ▸ hq)
      rw [Option.map_some, goto_of_ne _ hqp, seen_holder hq]
  · exact funext (Function.apply_update (fun _ pc => PipePc.pendingOn f pc) s.pc p pc)

/-- No writer is killed where it would return without a `wakeup`. -/
def Unkilled (s : PipeSys) : Prop := ∀ p, (s.pc p).Exposed → (s.k.proc p).killed = false

/-- **The steps of a call**, as steps of the monitor. -/
lemma Moves.seen (h : s.PipeInv) (hkill : s.Unkilled) (hrun : (s.k.proc p).state = .running)
    (hstep : Moves s p s') (f : PipeField) : Sees f s s' := by
  have hk := h.knows p
  -- what the step does as the holder of the lock
  have hold : ∀ {pc}, s.pc p = pc → pc.Holds → s.lock = some p ∧ (s.pc p).Holds :=
    fun hpc hholds => ⟨(h.lock p).mpr (hpc ▸ hholds), hpc ▸ hholds⟩
  cases hstep with
  | enter c hpc hlock =>
    have hseen : seen f { s.goto p c.locked with lock := some p } =
        { seen f s with holder := some (p, .busy false) } := by
      ext1
      · rfl
      · rfl
      · change some (p, ((s.goto p c.locked).pc p).phase f) = some (p, .busy false)
        rw [goto_self]
        cases c with
        | write n i => rw [PipeCall.locked, PipePc.phase, Bool.and_false]
        | read n => rfl
        | close w => rfl
      · refine seen_pending_goto ?_
        rw [hpc]
        cases c <;> rfl
    rw [Sees, hseen]
    refine .single (.acquire (by rw [PipeSys.seen, hlock, Option.map_none]) ?_)
    change (s.pc p).pendingOn f = false
    rw [hpc, PipePc.pendingOn]
  | writeOver n i b hpc | writeFull n i b hpc hro hfull | copyinFails n i b hpc =>
    refine .keep h hpc trivial _ (by exact trivial) fun pend => ?_
    cases f with
    | nread => exact .single (.startWake rfl)
    | nwrite => exact .refl
  | writeStop n i b hpc hi hstop =>
    rw [hpc] at hk
    have hb : b = false := by
      by_contra hb
      have hb : b = true := by simpa using hb
      rcases hstop with hro | hkilled
      · rw [hk hb] at hro
        cases hro
      · rw [hkill p (by rw [hpc]; exact ⟨hb, hi⟩)] at hkilled
        cases hkilled
    refine .release h hpc trivial rfl ?_
    rw [hb, PipePc.phase, Bool.and_false]
  | writeGo n i b hpc =>
    refine .keep h hpc trivial (.storing n i b) trivial fun pend => ?_
    exact .refl
  | put n i b ch hpc =>
    rw [hpc] at hk
    refine .keep h hpc trivial (.writing n (i + 1) true) trivial fun pend => ?_
    cases f with
    | nread => exact .single (.write rfl (fun _ => rfl) fun _ _ _ => rfl)
    | nwrite =>
      -- there was room before
      refine .single (.write rfl id fun _ _ hnot => absurd ?_ hnot)
      rintro ⟨hf, -⟩
      rw [hk.1] at hf
      cases hf
  | fullWake n i j hpc =>
    refine .keep h hpc trivial (.full n i (j + 1)) trivial fun pend => ?_
    cases f with
    | nread => exact .single (.wake rfl j.isLt ⟨j, rfl, rfl⟩)
    | nwrite => exact .single (.other ⟨.wakeup j _, trivial, nofun, rfl⟩)
  | fullPrepare n i j hpc hj =>
    rw [hpc] at hk
    obtain rfl : j = nproc := le_antisymm hk.1 hj
    refine .keep h hpc trivial (.prepared (.write n i)) trivial fun pend => ?_
    cases f with
    | nread =>
      refine .tail (.single (.endWake rfl)) (.other ⟨.sleepPrepare p _, hrun, fun q hq => ?_, rfl⟩)
      cases hq
    | nwrite => exact .single (.prepare rfl (not_not.mpr hk.2) ⟨hrun, rfl⟩)
  | waitStop n hpc =>
    exact .release h hpc trivial rfl rfl
  | waitGo n hpc =>
    refine .keep h hpc trivial (.registering n) trivial fun pend => ?_
    exact .refl
  | waitPrepare n hpc =>
    rw [hpc] at hk
    refine .keep h hpc trivial (.prepared (.read n)) trivial fun pend => ?_
    cases f with
    | nread => exact .single (.prepare rfl (not_not.mpr hk) ⟨hrun, rfl⟩)
    | nwrite =>
      refine .single (.other ⟨.sleepPrepare p _, hrun, fun q hq => ?_, rfl⟩)
      cases hq
  | waitOver n hpc hw =>
    refine .keep h hpc trivial (.copying n 0) trivial fun pend => ?_
    cases f <;> exact .refl
  | copyOver n i hpc hover | copyoutFails n i hpc =>
    refine .keep h hpc trivial _ (by exact trivial) fun pend => ?_
    cases f with
    | nread => exact .refl
    | nwrite => exact .single (.startWake rfl)
  | take n i hpc he =>
    refine .keep h hpc trivial (.copying n (i + 1)) trivial fun pend => ?_
    cases f with
    | nread =>
      -- the pipe was not empty before
      refine .single (.write rfl id fun _ _ hnot => absurd ?_ hnot)
      rintro ⟨hf, -⟩
      rw [he] at hf
      cases hf
    | nwrite => exact .single (.write rfl (fun _ => rfl) fun _ _ _ => rfl)
  | close w hpc =>
    refine .keep h hpc trivial (.ending _ 0 .close) trivial fun pend => ?_
    cases w with
    | false =>
      cases f with
      | nread => exact .single (.write rfl id fun _ hnew hnot => absurd hnew hnot)
      | nwrite => exact .tail (.single (.write rfl nofun fun _ _ _ => rfl)) (.startWake rfl)
    | true =>
      cases f with
      | nread => exact .tail (.single (.write rfl nofun fun _ _ _ => rfl)) (.startWake rfl)
      | nwrite => exact .single (.write rfl id fun _ hnew hnot => absurd hnew hnot)
  | release c hpc =>
    obtain ⟨hl, hp⟩ := hold hpc trivial
    by_cases hc : c.waitsOn = some f
    · rw [Sees, seen_release, PipePc.pendingOn, decide_eq_true hc]
      refine .single (.releasePrepared ?_)
      rw [seen_holder hl, hpc, PipePc.phase, if_pos hc]
    · refine .release h hpc trivial ?_ ?_
      · rw [PipePc.pendingOn, decide_eq_false hc]
      · rw [PipePc.phase, if_neg hc]
  | sleep c hpc =>
    have hnot : s.lock ≠ some p := fun hl => by
      have hholds := (h.lock p).mp hl
      rw [hpc] at hholds
      exact hholds
    rw [Sees, seen_aside hnot]
    by_cases hc : c.waitsOn = some f
    · refine .single (.sleep ?_ ⟨hrun, rfl⟩)
      change (s.pc p).pendingOn f = true
      rw [hpc, PipePc.pendingOn, decide_eq_true hc]
    · have hpend : (seen f s).pending p = false := by
        change (s.pc p).pendingOn f = false
        rw [hpc, PipePc.pendingOn, decide_eq_false hc]
      rw [PipePc.pendingOn, ← hpend, update_eq_self]
      exact .single (.other ⟨.sleep p, hrun, nofun, rfl⟩)
  | endWake f' j r hpc =>
    refine .keep h hpc trivial (.ending f' (j + 1) r) trivial fun pend => ?_
    rw [PipePc.phase, PipePc.phase]
    split_ifs with hf
    · subst hf
      exact .single (.wake rfl j.isLt ⟨j, rfl, rfl⟩)
    · exact .single (.other ⟨.wakeup j _, trivial, nofun, rfl⟩)
  | endReturn f' j r hpc hj =>
    obtain ⟨hl, hp⟩ := hold hpc trivial
    have hj' : j = (channelWaiters f.chan).size := le_antisymm (PipePc.ending_le (hpc ▸ hk)) hj
    by_cases hf : f' = f
    · rw [Sees, seen_release_awake hp rfl]
      refine .tail (.single (.endWake (p := p) ?_)) (.release (p := p) rfl)
      rw [seen_holder hl, hpc, PipePc.phase, if_pos hf, hj']
    · exact .release h hpc trivial rfl (by rw [PipePc.phase, if_neg hf])

/-! ### Killing -/

lemma killed_apply {o : Op} (h : (k.proc p).killed = false) (ho : ¬ o.Kills p (k.proc p).pid) :
    ((k.apply o).proc p).killed = false := by
  rcases apply_killed k o p with ⟨-, hk | hk⟩ | rfl | rfl | rfl
  · exact hk.trans h
  · exact absurd hk ho
  · rw [Kernel.apply_proc_self k _ rfl]
    exact h
  · rw [Kernel.apply_proc_self k _ rfl]
    rfl
  · rw [Kernel.apply_proc_self k _ rfl]
    rfl

lemma Unkilled.goto (h : s.Unkilled) {l : Option Slot} {acc del : List UInt8}
    (hpc : pc.Exposed → (s.k.proc p).killed = false)
    (hk : ∀ q, (s.k.proc q).killed = false → (k.proc q).killed = false) :
    Unkilled ⟨k, pi, l, (s.goto p pc).pc, acc, del⟩ := by
  intro q hq
  have hq' : ((s.goto p pc).pc q).Exposed := hq
  refine hk q ?_
  by_cases hqp : q = p
  · rw [hqp, goto_self] at hq'
    exact hqp ▸ hpc hq'
  · rw [goto_of_ne _ hqp] at hq'
    exact h q hq'

lemma Moves.unkilled (h : s.Unkilled) (hstep : Moves s p s') : s'.Unkilled := by
  have hwake : ∀ (i : Slot) ch q, (s.k.proc q).killed = false →
      ((s.k.apply (.wakeup i ch)).proc q).killed = false := fun i ch q hq => killed_apply hq id
  have hprep : ∀ ch q, (s.k.proc q).killed = false →
      ((s.k.apply (.sleepPrepare p ch)).proc q).killed = false := fun ch q hq => killed_apply hq id
  cases hstep with
  | enter c =>
    refine h.goto ?_ fun _ => id
    cases c with
    | write n i => exact fun he => absurd he.1 Bool.false_ne_true
    | read n | close w => exact False.elim
  | writeGo n i b hpc hro hk => exact h.goto (fun _ => hk) fun _ => id
  | put n i b ch hpc =>
    refine h.goto (fun he => h p ?_) fun _ => id
    rw [hpc]
    exact_mod_cast he.2
  | fullWake n i j | endWake f j => exact h.goto False.elim (hwake j _)
  | fullPrepare | waitPrepare => exact h.goto False.elim (hprep _)
  | sleep => exact h.goto False.elim fun q hq => killed_apply hq id
  | writeOver | writeStop | writeFull | copyinFails | waitStop | waitGo | waitOver | copyOver
  | copyoutFails | take | close | release | endReturn => exact h.goto False.elim fun _ => id

/-- `kkill` does not hit a process that is in `pipewrite` with `pi->lock` held and is at the head of
the loop with a byte stored since it acquired the lock and more to write, or has passed the test of
`killed` and is about to store a byte that is not its last one. -/
def Spares (s : PipeSys) : PipeAct → Prop
  | .table (.kill p pid) => (s.pc p).Exposed → (s.k.proc p).pid ≠ pid
  | _ => True

/-- The runs in which no writer is killed at such a moment. -/
def SparingRun : PipeSys → PipeSys → Prop :=
  Relation.ReflTransGen fun s s' => ∃ a, s.Spares a ∧ s.act a = some s'

lemma Unkilled.act {a : PipeAct} (h : s.Unkilled) (hspare : s.Spares a)
    (ha : s.act a = some s') : s'.Unkilled := by
  cases a with
  | call p c =>
    rw [PipeSys.act] at ha
    split_ifs at ha
    exact Option.some.inj ha ▸ h.goto False.elim fun _ => id
  | step p u =>
    rw [PipeSys.act] at ha
    split_ifs at ha
    exact (Moves.of_next ha).unkilled h
  | table o =>
    rw [PipeSys.act] at ha
    split_ifs at ha with ho
    cases ha
    intro q hq
    refine killed_apply (h q hq) fun hkills => ?_
    cases o with
    | kill j pid =>
      obtain ⟨rfl, rfl⟩ := hkills
      exact hspare hq rfl
    | setkilled j =>
      obtain rfl : j = q := hkills
      have hout : s.pc j = .out := ho.2
      have hq' : (s.pc j).Exposed := hq
      rw [hout] at hq'
      exact hq'
    | allocproc | freeproc | runnable | setParent | age | dispatch | tick | yield | sleepPrepare
    | sleep | wakeup | setPrio | reparent | exit | reap | clock | policySwitch => exact hkills

/-- **Every action** that spares the writers is a run of the monitor. -/
lemma Sees.act {a : PipeAct} (h : s.PipeInv) (hk : s.Unkilled) (ha : s.act a = some s')
    (f : PipeField) : Sees f s s' := by
  cases a with
  | call p c =>
    rw [PipeSys.act] at ha
    split_ifs at ha with hc
    cases ha
    have hnot : s.lock ≠ some p := fun hl => by
      have hholds := (h.lock p).mp hl
      rw [hc.1] at hholds
      exact hholds
    have hpend : (seen f s).pending p = false := by
      change (s.pc p).pendingOn f = false
      rw [hc.1, PipePc.pendingOn]
    have hsame := seen_aside (f := f) (k := s.k) hnot (.enter c)
    rw [PipePc.pendingOn, ← hpend, update_eq_self] at hsame
    rw [Sees]
    exact hsame ▸ .refl
  | step p u =>
    rw [PipeSys.act] at ha
    split_ifs at ha with hrun
    exact (Moves.of_next ha).seen h hk hrun f
  | table o =>
    rw [PipeSys.act] at ha
    split_ifs at ha with ho
    cases ha
    refine .single (.other ⟨o, ho.1, fun q hq => ?_, rfl⟩)
    subst hq
    cases f with
    | nread => exact ho.2.2.1 rfl
    | nwrite => exact ho.2.2.2 rfl

lemma Initial.unkilled (h : s.Initial) : s.Unkilled := by
  intro p hp
  rw [h.pc p] at hp
  exact hp.elim

lemma Initial.seen (h : s.Initial) (f : PipeField) :
    Monitor.Initial (channelWaiters f.chan) (seen f s) := by
  refine ⟨fun p => h.chan p f, ?_, fun p => ?_⟩
  · rw [PipeSys.seen, h.lock, Option.map_none]
  · change (s.pc p).pendingOn f = false
    rw [h.pc p, PipePc.pendingOn]

lemma SparingRun.sees (hinit : s.Initial) (hrun : SparingRun s s') (f : PipeField) :
    s'.PipeInv ∧ s'.Unkilled ∧ Sees f s s' := by
  induction hrun with
  | refl => exact ⟨hinit.pipeInv, hinit.unkilled, .refl⟩
  | tail _ hstep ih =>
    obtain ⟨a, hspare, ha⟩ := hstep
    obtain ⟨hinv, hk, hsees⟩ := ih
    exact ⟨hinv.act ha, hk.act hspare ha, hsees.trans (Sees.act hinv hk ha f)⟩

/-- **A pipe strands nobody** in a run in which no writer is killed where it would return without a
`wakeup`: when the lock is free, whoever sleeps on `&pi->nread` has an empty pipe with an open write
end before it, and whoever sleeps on `&pi->nwrite` a full one with an open read end. -/
theorem pipe_strands_nobody (hinit : s.Initial) (hrun : SparingRun s s') (hfree : s'.lock = none)
    (p : Slot) :
    ((s'.k.proc p).state = .sleeping → (s'.k.proc p).chan = some PipeField.nread.chan →
      s'.pi.nread = s'.pi.nwrite ∧ s'.pi.writeopen = true) ∧
    ((s'.k.proc p).state = .sleeping → (s'.k.proc p).chan = some PipeField.nwrite.chan →
      (s'.pi.nwrite - s'.pi.nread).toNat = pipeSize ∧ s'.pi.readopen = true) := by
  have hholder : ∀ f, (seen f s').holder = none := fun f => by
    rw [PipeSys.seen, hfree, Option.map_none]
  have hnot : ∀ f : PipeField, (s'.k.proc p).chan = some f.chan → ¬ f.awaits p s'.pi :=
    fun f hchan => Monitor.not_waiting (hinit.seen f) (hrun.sees hinit f).2.2 (hholder f) hchan
  constructor
  · intro _ hchan
    obtain ⟨hempty, hopen⟩ := not_not.mp (hnot .nread hchan)
    exact ⟨by simpa [Pipe.empty] using hempty, hopen⟩
  · intro _ hchan
    obtain ⟨hfull, hopen⟩ := not_not.mp (hnot .nwrite hchan)
    refine ⟨?_, hopen⟩
    have hw : s'.pi.nwrite = s'.pi.nread + UInt32.ofNat pipeSize := by
      simpa [Pipe.full, pipeSize] using hfull
    rw [hw]
    exact count_add_nat (by decide)

/-! ### A stranded reader -/

lemma SparingRun.of_acts {acts : List PipeAct} (hspare : ∀ a ∈ acts, ∀ s : PipeSys, s.Spares a)
    (h : acts.foldlM act s = some s') : SparingRun s s' :=
  Transition.run_of_foldlM (fun a ha s _ ht => ⟨a, hspare a ha s, ht⟩) h

/-- The first process waits for a byte. -/
def readerSleeps : List PipeAct :=
  .call initproc (.read 1) :: List.replicate 5 (.step initproc none)

/-- The hypotheses are met by a reader that sleeps before an empty pipe. -/
theorem pipe_strands_nobody_reader : ∃ s', SparingRun (pipealloc oneRunning) s' ∧
    (s'.k.proc initproc).state = .sleeping ∧
    (s'.k.proc initproc).chan = some PipeField.nread.chan ∧
    s'.pi.nread = s'.pi.nwrite ∧ s'.pi.writeopen = true := by
  have hacts : (readerSleeps.foldlM act (pipealloc oneRunning)).map (fun s' =>
      decide (s'.lock = none ∧ (s'.k.proc initproc).state = .sleeping ∧
        (s'.k.proc initproc).chan = some PipeField.nread.chan)) = some true := by
    decide +kernel
  obtain ⟨s', hs', hdec⟩ := Option.map_eq_some_iff.mp hacts
  obtain ⟨hfree, hsleep, hchan⟩ := of_decide_eq_true hdec
  have hrun : SparingRun (pipealloc oneRunning) s' := by
    refine SparingRun.of_acts (fun a ha s => ?_) hs'
    rcases List.mem_cons.mp ha with rfl | ha
    · trivial
    · rw [List.eq_of_mem_replicate ha]
      trivial
  have hinit := pipealloc_initial fun p f => oneRunning_chan p f.chan
  exact ⟨s', hrun, hsleep, hchan, (pipe_strands_nobody hinit hrun hfree initproc).1 hsleep hchan⟩

def twoRunning : Kernel :=
  oneRunning.after [.allocproc 1, .setParent 1 initproc, .runnable 1, .dispatch 1]

/-- The second process writes two bytes and is killed after the first one. -/
def writerKilled : List PipeAct :=
  [.call 1 (.write 2 0), .step 1 none, .step 1 none, .step 1 (some 65), .table (.kill 1 2),
    .step 1 none]

/-- **A stranded reader.** The first process sleeps on the empty pipe. The second one is killed when
it has written one byte of two, and returns. Nobody else is in a call and the lock is free, but the
reader sleeps on a pipe that is not empty. -/
theorem reader_stranded : ∃ s', (pipealloc twoRunning).Initial ∧ Run (pipealloc twoRunning) s' ∧
    s'.lock = none ∧ (∀ p, s'.pc p ≠ .out → (s'.k.proc p).state = .sleeping) ∧
    (s'.k.proc initproc).state = .sleeping ∧
    (s'.k.proc initproc).chan = some PipeField.nread.chan ∧
    s'.pi.nread ≠ s'.pi.nwrite := by
  have hacts : ((readerSleeps ++ writerKilled).foldlM act (pipealloc twoRunning)).map (fun s' =>
        decide (s'.lock = none ∧ (∀ p, s'.pc p ≠ .out → (s'.k.proc p).state = .sleeping) ∧
          (s'.k.proc initproc).state = .sleeping ∧
          (s'.k.proc initproc).chan = some PipeField.nread.chan ∧
          s'.pi.nread ≠ s'.pi.nwrite)) = some true := by
    decide +kernel
  obtain ⟨s', hs', hdec⟩ := Option.map_eq_some_iff.mp hacts
  have hinit : (pipealloc twoRunning).Initial := by
    refine pipealloc_initial fun p f hchan => oneRunning_chan p f.chan (chan_after ?_ hchan)
    simp
  exact ⟨s', hinit, .of_acts hs', of_decide_eq_true hdec⟩

end PipeSys

end Xv6Riscv
