import Xv6Riscv.Smp.Edges

/-!
Who owns a process.

SPQ and MLFQ choose a candidate without holding its lock, the lock of the chosen process is handed
from `scheduler` to the process and back, and a process exits while its parent waits to free its
slot. The invariant `Inv` ties all of this together: the lock table agrees with the program
counters, a process is owned by at most one CPU, `c->proc` is the process the CPU is in, and the
state of an owned process is the one its owner believes.

Stability under the steps of the other CPUs rests on two facts: a change of state of `p` needs the
lock of `p` (`state_of_held`), and only the CPU that runs `p` takes it out of `RUNNING`
(`running_of_other`).

* `Run.refines`: every run performs a legal sequence of operations of the process table, so that
  what holds of those holds of the machine.
-/

namespace Xv6Riscv

open Function (update update_of_ne update_self)

/-- What a CPU knows of the state of the process it owns. -/
def CpuPc.StateOk (k : Kernel) (th : Slot → ThreadPc) : CpuPc → Prop
  | selected p => (k.proc p).state = .runnable
  | dispatched p | entered p => (k.proc p).state = .running
  | inProc p =>
    th p ≠ .exitSwtch ∧ (k.proc p).state = .running ∨ th p = .exitSwtch ∧ (k.proc p).state = .zombie
  | back p | releasing p =>
    (k.proc p).state = .runnable ∨ (k.proc p).state = .sleeping ∨ (k.proc p).state = .zombie
  | _ => True

namespace Machine

variable {ι : Type*}

/-- The locks CPU `c` holds. -/
def Holds (m : Machine ι) (c : ι) (l : Lock) : Prop := (m.cpu c).Holds m.thread l

lemma holds_eq (m : Machine ι) (c : ι) : m.Holds c = (m.cpu c).Holds m.thread := rfl

variable {p : Slot}

lemma holds_inProc {m : Machine ι} {c : ι} (hp : m.cpu c = .inProc p) :
    m.Holds c = (m.thread p).Holds p := by
  funext l
  rw [Holds, hp]
  rfl

lemma holds_back {m : Machine ι} {c : ι} (hp : m.cpu c = .back p) : m.Holds c = (· = .proc p) := by
  funext l
  rw [Holds, hp]
  rfl

/-- **The invariant of the machine.** -/
structure Inv (m : Machine ι) : Prop where
  locks : Locks.Agrees m.lock m.Holds
  owner : ∀ {c c' : ι} {p : Slot}, (m.cpu c).owns = some p → (m.cpu c').owns = some p → c = c'
  current : ∀ c, m.cpuProc c = (m.cpu c).current
  state : ∀ c, (m.cpu c).StateOk m.k m.thread
  running : ∀ p, (m.k.proc p).state = .running → ∃ c, (m.cpu c).owns = some p
  quiet : ∀ p, (m.thread p).busy = true → ∃ c, m.cpu c = .inProc p ∧ m.intr c = .none
  intr : ∀ c, m.intr c ≠ .none → m.cpu c = .loop ∨ ∃ p, m.cpu c = .inProc p
  child : ∀ p np, (m.thread p).child = some np → (m.k.proc np).state = .used
  child_inj : ∀ p p' np, (m.thread p).child = some np → (m.thread p').child = some np → p = p'

/-- What is known of an operation when CPU `c` performs it. -/
inductive Permitted (m : Machine ι) (c : ι) (lock : Locks.Act Lock) : Op → Prop
  | thread {p : Slot} {o : Op} (hp : m.cpu c = .inProc p)
      (h : (m.thread p).Permits m.k p lock o) : Permitted m c lock o
  | dispatch {p : Slot} (hp : m.cpu c = .selected p) : Permitted m c lock (.dispatch p)
  | age {p : Slot} (h : lock = .within (.proc p) ∨ lock = .acquire (.proc p)) :
      Permitted m c lock (.age p)
  | tick {p : Slot} (hp : m.cpu c = .inProc p) (hb : (m.thread p).busy = false) :
      Permitted m c lock (.tick p)
  | yield {p : Slot} (hp : m.cpu c = .inProc p) (hi : m.intr c ≠ .none)
      (h : lock = .acquire (.proc p)) : Permitted m c lock (.yield p)
  | wakeup {j : Slot} {ch : Option Chan} (h : lock = .within (.proc j)) :
      Permitted m c lock (.wakeup j ch)
  | clock : Permitted m c lock .clock
  | policySwitch {pol : SchedPolicy} : Permitted m c lock (.policySwitch pol)

/-- What every step does, apart from the program counters of its CPU. -/
structure Effect (m : Machine ι) (c : ι) (mv : Move) (m' : Machine ι) : Prop where
  k : m'.k = mv.op.elim m.k m.k.apply
  lock : m'.lock = mv.lock.run c m.lock
  enabled : mv.lock.Enabled m.lock
  permitted : ∀ o, mv.op = some o → m.Permitted c mv.lock o
  cpu : ∀ c', c' ≠ c → m'.cpu c' = m.cpu c'
  intr : ∀ c', c' ≠ c → m'.intr c' = m.intr c'
  cpuProc : ∀ c', c' ≠ c → m'.cpuProc c' = m.cpuProc c'
  thread : ∀ p, m.cpu c ≠ .inProc p → mv.spawns ≠ some p → m'.thread p = m.thread p
  spawned : ∀ j, mv.spawns = some j → mv.op = some (.allocproc j) ∧
    (m.cpu c ≠ .inProc j → m'.thread j = .run)

variable {boot : ι} {m m' : Machine ι} {c : ι} {mv : Move}

/-- **Every step has such an effect.** -/
lemma Step.effect [DecidableEq ι] (h : Step boot m c mv m') : Effect m c mv m' := by
  cases h with
  | @sched _ pc hintr h hlock =>
    refine ⟨rfl, rfl, hlock, fun o ho => ?_, fun c' hc => ?_, fun _ _ => rfl, fun c' hc => ?_,
      fun p _ _ => ?_, fun j hj => ?_⟩
    · rcases h.op ho with ⟨p, rfl, hp⟩ | ⟨p, rfl, hp⟩
      · exact .dispatch hp
      · exact .age hp
    · exact update_of_ne hc _ _
    · rcases h.current with ⟨hn, -⟩ | hs
      · simp [perform, hn]
      · simp [perform, hs, update_of_ne hc]
    · simp [perform, h.spawns]
    · rw [h.spawns] at hj
      cases hj
  | @intr p _ i hp h hlock =>
    obtain ⟨hproc, hspawn, -⟩ := h.quiet
    refine ⟨rfl, rfl, hlock, fun o ho => ?_, fun _ _ => rfl, fun c' hc => ?_, fun c' hc => ?_,
      fun p _ _ => ?_, fun j hj => ?_⟩
    · rcases h.op ho with rfl | ⟨q, rfl, rfl⟩ | ⟨j, ch, rfl, hl⟩
      · exact .clock
      · cases hp with
        | proc hp hb => exact .tick hp hb
      · exact .wakeup hl
    · exact update_of_ne hc _ _
    · simp [perform, hproc]
    · simp [perform, hspawn]
    · rw [hspawn] at hj
      cases hj
  | @yield p hp hi hlock =>
    refine ⟨rfl, rfl, hlock, fun o ho => ?_, fun c' hc => ?_, fun c' hc => ?_, fun _ _ => rfl,
      fun _ _ _ => rfl, (by simp)⟩
    · cases ho
      exact .yield hp (by rw [hi]; simp) rfl
    · exact update_of_ne hc _ _
    · exact update_of_ne hc _ _
  | @thread p _ t hp hintr h hlock =>
    refine ⟨rfl, rfl, hlock, fun o ho => .thread hp (h.permits ho), fun _ _ => rfl,
      fun _ _ => rfl, fun c' hc => ?_, fun q hq hs => ?_, fun j hj => ?_⟩
    · simp [perform, h.cpuProc]
    · have hne : q ≠ p := by
        rintro rfl
        exact hq hp
      show update (m.perform c mv).thread p t q = _
      rw [update_of_ne hne]
      cases hsp : mv.spawns with
      | none => simp [perform, hsp]
      | some j =>
        rw [hsp] at hs
        simp [perform, hsp, update_of_ne (fun he => hs (by rw [he]) : q ≠ j)]
    · rcases h.child with ⟨hn, -⟩ | ⟨j', hs, hop, -⟩
      · rw [hn] at hj
        cases hj
      · rw [hs] at hj
        cases hj
        refine ⟨hop, fun hne => ?_⟩
        have hne' : j ≠ p := by
          rintro rfl
          exact hne hp
        simp [perform, hs, update_of_ne hne']
  | @swtch p _ t hp hintr h hlock =>
    refine ⟨rfl, rfl, hlock, fun o ho => .thread hp (h.permits ho), fun c' hc => ?_,
      fun _ _ => rfl, fun c' hc => ?_, fun q hq hs => ?_, fun j hj => ?_⟩
    · exact update_of_ne hc _ _
    · simp [perform, h.cpuProc.1]
    · have hne : q ≠ p := by
        rintro rfl
        exact hq hp
      exact update_of_ne hne _ _
    · rw [h.cpuProc.2] at hj
      cases hj
  | @policySwitch pol =>
    refine ⟨rfl, rfl, trivial, fun o ho => ?_, fun _ _ => rfl, fun _ _ => rfl, fun _ _ => rfl,
      fun _ _ _ => rfl, (by simp)⟩
    cases ho
    exact .policySwitch

/-- A property of the process table that the operations performed keep, a step keeps. -/
lemma Effect.kernel {P : Kernel → Prop} (he : Effect m c mv m') (h : P m.k)
    (hop : ∀ o, mv.op = some o → m.Permitted c mv.lock o → P (m.k.apply o)) : P m'.k := by
  rw [he.k]
  cases ho : mv.op with
  | none => exact h
  | some o => exact hop o ho (he.permitted o ho)

/-! ### Operations are enabled -/

lemma Inv.state_inProc (hm : m.Inv) (hp : m.cpu c = .inProc p) (ht : m.thread p ≠ .exitSwtch) :
    (m.k.proc p).state = .running := by
  have h := hm.state c
  rw [hp] at h
  rcases h with ⟨-, h⟩ | ⟨h, -⟩
  · exact h
  · exact absurd h ht

lemma ne_exitSwtch_of_quiet {t : ThreadPc} (h : t.busy = false) : t ≠ .exitSwtch := by
  rintro rfl
  cases h

lemma Inv.quiet_of_intr (hm : m.Inv) (hp : m.cpu c = .inProc p) (hi : m.intr c ≠ .none) :
    (m.thread p).busy = false := by
  by_contra hb
  obtain ⟨c', hc', hi'⟩ := hm.quiet p (by simpa using hb)
  have : c = c' := hm.owner (p := p) (by rw [hp]; rfl) (by rw [hc']; rfl)
  subst this
  exact hi hi'

variable {o : Op}

/-- **Every operation a CPU performs is enabled.** -/
lemma Permitted.ok (hm : m.Inv) {lock : Locks.Act Lock} (h : m.Permitted c lock o) : o.Ok m.k := by
  cases h with
  | @thread p _ hp h =>
    cases o with
    | allocproc j => exact h.1
    | freeproc np | runnable np => exact hm.child p np (by rw [h.1]; rfl)
    | setParent np q =>
      obtain ⟨rfl, ht, -⟩ := h
      exact ⟨hm.child q np (by rw [ht]; rfl), hm.state_inProc hp (by rw [ht]; simp)⟩
    | sleepPrepare q ch =>
      obtain ⟨rfl, -, ⟨ht, -⟩ | ⟨ht, -⟩⟩ := h
      · exact hm.state_inProc hp (by rw [ht]; simp)
      · exact hm.state_inProc hp (by rw [ht]; simp)
    | sleep q =>
      obtain ⟨rfl, -, ht | ht⟩ := h
      · exact hm.state_inProc hp (by rw [ht]; simp)
      · exact hm.state_inProc hp (by rw [ht]; simp)
    | setkilled q | exit q st =>
      obtain ⟨rfl, ht, -⟩ := h
      exact hm.state_inProc hp (by rw [ht]; simp)
    | reap i => exact h.1
    | reparent _ _ | wakeup _ _ | kill _ _ | setPrio _ _ _ => trivial
    | age _ | dispatch _ | tick _ | yield _ | clock | policySwitch _ => exact h.elim
  | dispatch hp =>
    have h := hm.state c
    rw [hp] at h
    exact h
  | age _ => trivial
  | tick hp hb => exact hm.state_inProc hp (ne_exitSwtch_of_quiet hb)
  | yield hp hi _ => exact hm.state_inProc hp (ne_exitSwtch_of_quiet (hm.quiet_of_intr hp hi))
  | wakeup _ => trivial
  | clock => trivial
  | policySwitch => trivial

lemma Effect.state (hm : m.Inv) (he : Effect m c mv m') (p : Slot) :
    (m'.k.proc p).state = (m.k.proc p).state ∨
      ∃ o, mv.op = some o ∧ m.Permitted c mv.lock o ∧ o.slot = some p ∧
        StateChange o (m.k.proc p).state (m'.k.proc p).state := by
  rw [he.k]
  cases ho : mv.op with
  | none => exact .inl rfl
  | some o =>
    have hperm := he.permitted o ho
    exact (apply_state (hperm.ok hm) p).imp_right fun h => ⟨o, rfl, hperm, h⟩

lemma Permitted.holds (hen : mv.lock.Enabled m.lock) {s s' : ProcState}
    (h : m.Permitted c mv.lock o) (hp : o.slot = some p) (hs : StateChange o s s') :
    m.lock (.proc p) = none ∨ m.Holds c (.proc p) := by
  have hfree : mv.lock = .within (.proc p) ∨ mv.lock = .acquire (.proc p) →
      m.lock (.proc p) = none := by
    rintro (h | h) <;> rw [h] at hen <;> exact hen
  cases h with
  | @thread q _ hq h =>
    cases hs with
    | allocproc j | runnable j | wakeup j _ | kill j _ | sleep j | exit j _ | reap j =>
      cases hp
      simp only [ThreadPc.Permits] at h
      exact .inl (hfree (by simp [h]))
    | freeproc j =>
      cases hp
      refine .inr ?_
      rw [Holds, hq, CpuPc.Holds, h.1]
      rfl
    | dispatch j | yield j => exact h.elim
  | dispatch hq =>
    cases hp
    refine .inr ?_
    rw [Holds, hq]
    rfl
  | yield hq hi h =>
    cases hp
    exact .inl (hfree (.inr h))
  | wakeup h =>
    cases hp
    exact .inl (hfree (.inl h))
  | age h | tick _ _ | clock | policySwitch => cases hs

/-! ### Stability under the steps of other CPUs -/

section Other

variable {c' : ι} {p : Slot}

lemma Effect.state_of_held (hm : m.Inv) (he : Effect m c mv m') (hc : c' ≠ c)
    (hh : m.Holds c' (.proc p)) : (m'.k.proc p).state = (m.k.proc p).state := by
  rcases he.state hm p with h | ⟨o, -, hperm, hslot, hs⟩
  · exact h
  · rcases hperm.holds he.enabled hslot hs with hfree | hhold
    · exact absurd hh (hm.locks.not_holds_of_free hfree c')
    · exact absurd (hm.locks.unique hh hhold) hc

/-- The operations that take a process out of `RUNNING` are performed by the CPU that runs it. -/
lemma Permitted.inProc {lock : Locks.Act Lock} {s s' : ProcState} (h : m.Permitted c lock o)
    (hp : o.slot = some p) (hs : StateChange o s s') (hrun : s = .running) :
    m.cpu c = .inProc p := by
  subst hrun
  cases hs with
  | yield j =>
    cases hp
    cases h with
    | thread _ h => exact h.elim
    | yield hq _ _ => exact hq
  | sleep j | exit j _ =>
    cases hp
    cases h with
    | thread hq h =>
      obtain ⟨rfl, -⟩ := h
      exact hq

section

variable (hm : m.Inv) (he : Effect m c mv m') (hc : c' ≠ c)

include hm he hc

lemma Effect.running_of_other (hp : m.cpu c' = .inProc p) (hrun : (m.k.proc p).state = .running) :
    (m'.k.proc p).state = .running := by
  rcases he.state hm p with h | ⟨o, -, hperm, hslot, hs⟩
  · rw [h, hrun]
  · have hcp := hperm.inProc hslot hs hrun
    exact absurd (hm.owner (p := p) (by rw [hp]; rfl) (by rw [hcp]; rfl)) hc

lemma Effect.thread_of_other (hp : m.cpu c' = .inProc p) : m'.thread p = m.thread p := by
  refine he.thread p (fun hcp => ?_) fun hs => ?_
  · exact absurd (hm.owner (p := p) (by rw [hp]; rfl) (by rw [hcp]; rfl)) hc
  · -- a slot found by `allocproc` is unused, so nobody runs it
    have hok := (he.permitted _ (he.spawned p hs).1).ok hm
    have h := hm.state c'
    rw [hp] at h
    have hunused : (m.k.proc p).state = .unused := hok
    rcases h with ⟨-, h⟩ | ⟨-, h⟩ <;> rw [hunused] at h <;> cases h

lemma Effect.holds_of_other (l : Lock) : m'.Holds c' l ↔ m.Holds c' l := by
  rw [Holds, Holds, he.cpu c' hc]
  cases hpc : m.cpu c' with
  | inProc p => rw [CpuPc.Holds, CpuPc.Holds, he.thread_of_other hm hc hpc]
  | _ => rfl

lemma Effect.stateOk_of_other : (m'.cpu c').StateOk m'.k m'.thread := by
  have h := hm.state c'
  rw [he.cpu c' hc]
  cases hpc : m.cpu c' with
  | inProc p =>
    rw [hpc] at h
    rw [CpuPc.StateOk, he.thread_of_other hm hc hpc]
    rcases h with ⟨ht, h⟩ | ⟨ht, h⟩
    · exact .inl ⟨ht, he.running_of_other hm hc hpc h⟩
    · refine .inr ⟨ht, ?_⟩
      rw [he.state_of_held hm hc (p := p), h]
      rw [Holds, hpc, CpuPc.Holds, ht]
      exact .inl rfl
  | selected p | dispatched p | entered p | back p | releasing p =>
    rw [hpc] at h
    have hh : m.Holds c' (.proc p) := by
      rw [Holds, hpc]
      rfl
    simpa only [CpuPc.StateOk, he.state_of_held hm hc hh] using h
  | _ => trivial

end

end Other

/-! ### The steps of the CPU itself -/

lemma schedEdge_stateOk {k : Kernel} {cur : Cursors} {pc pc' : CpuPc} {th : Slot → ThreadPc}
    (h : SchedEdge k cur pc mv pc') (hpc : pc.StateOk k th)
    (hq : ∀ p, pc = .entered p → (th p).busy = false) : pc'.StateOk (mv.op.elim k k.apply) th := by
  cases h with
  | rrTake _ h => exact h
  | priorityTake h => exact h
  | mlfqTake h _ =>
    show ((k.apply _).proc _).state = .runnable
    rw [Kernel.apply_proc_self _ _ rfl]
    exact h
  | dispatch =>
    show ((k.apply _).proc _).state = .running
    rw [Kernel.apply_proc_self _ _ rfl]
    rfl
  | swtch => exact hpc
  | enter => exact .inl ⟨ne_exitSwtch_of_quiet (hq _ rfl), hpc⟩
  | back => exact hpc
  | _ => trivial

lemma Inv.quiet_of_entered (hm : m.Inv) (hp : m.cpu c = .entered p) :
    (m.thread p).busy = false := by
  by_contra hb
  obtain ⟨c', hc', -⟩ := hm.quiet p (by simpa using hb)
  have : c = c' := hm.owner (p := p) (by rw [hp]; rfl) (by rw [hc']; rfl)
  subst this
  rw [hp] at hc'
  cases hc'

lemma Inv.owns_ne_of_free (hm : m.Inv) (hfree : m.lock (.proc p) = none)
    (hrun : (m.k.proc p).state = .runnable) (c : ι) : (m.cpu c).owns ≠ some p := by
  intro hown
  have hnot := hm.locks.not_holds_of_free hfree c
  have hst := hm.state c
  rw [Holds] at hnot
  cases hpc : m.cpu c with
  | inProc q =>
    rw [hpc] at hown hst
    cases hown
    rcases hst with ⟨-, hst⟩ | ⟨-, hst⟩ <;> rw [hrun] at hst <;> cases hst
  | selected q | dispatched q | entered q | back q | releasing q =>
    rw [hpc] at hown hnot
    cases hown
    exact hnot rfl
  | _ =>
    rw [hpc] at hown
    cases hown

lemma Inv.intr_of_busy (hm : m.Inv) (hp : m.cpu c = .inProc p) (hb : (m.thread p).busy = true) :
    m.intr c = .none := by
  obtain ⟨c', hc', hi⟩ := hm.quiet p hb
  have : c' = c := hm.owner (p := p) (by rw [hc']; rfl) (by rw [hp]; rfl)
  rwa [← this]

lemma Effect.running_or (hm : m.Inv) (he : Effect m c mv m')
    (hrun : (m.k.proc p).state = .running) :
    (m'.k.proc p).state = .running ∨ mv.op = some (.yield p) ∨ mv.op = some (.sleep p) ∨
      ∃ st, mv.op = some (.exit p st) := by
  rcases he.state hm p with h | ⟨o, ho, -, hslot, hs⟩
  · exact .inl (h.trans hrun)
  · rw [hrun] at hs
    generalize (m'.k.proc p).state = s at hs
    cases hs with
    | yield j | sleep j | exit j st =>
      cases hslot
      simp [ho]

section Own

variable [DecidableEq ι]

lemma Step.typed (hm : m.Inv) (h : Step boot m c mv m') :
    mv.lock.Typed (m.Holds c) (m'.Holds c) := by
  cases h with
  | @sched _ pc hintr h hlock =>
    have htyped := h.typed m.thread fun p hp => hm.quiet_of_entered hp
    simpa [holds_eq, perform, h.spawns] using htyped
  | @intr p _ i hp h hlock =>
    obtain ⟨-, hspawn, hl | ⟨l, hl⟩⟩ := h.quiet
    · rw [hl]
      intro l
      simp [Holds, perform, hspawn]
    · rw [hl]
      intro l
      simp [Holds, perform, hspawn]
  | @yield p hp hi hlock =>
    have hq := hm.quiet_of_intr hp (by rw [hi]; simp)
    intro l
    have hnot := ThreadPc.not_holds_of_quiet hq p l
    simp [Holds, hp, CpuPc.Holds, hnot, update_self]
  | @thread p _ t hp hintr h hlock =>
    have hafter : (CpuPc.inProc p).Holds (update (m.perform c mv).thread p t) = t.Holds p := by
      funext l
      simp [CpuPc.Holds]
    show mv.lock.Typed (m.Holds c) ((m.cpu c).Holds _)
    rw [holds_inProc hp, hp, hafter]
    exact h.typed
  | @swtch p _ t hp hintr h hlock =>
    rw [holds_inProc hp, holds_back (p := p) (by simp)]
    exact h.typed
  | policySwitch =>
    intro l
    exact Iff.rfl

lemma Step.owns (h : Step boot m c mv m') :
    (m'.cpu c).owns = (m.cpu c).owns ∨
      (∃ p, m.cpu c = .releasing p ∧ m'.cpu c = .loop ∧ mv.op = none) ∨
      ∃ p, (m.cpu c).owns = none ∧ m'.cpu c = .selected p ∧ mv.lock = .acquire (.proc p) ∧
        (m.k.proc p).state = .runnable := by
  cases h with
  | @sched _ pc hintr h hlock => simpa using h.owns
  | intr _ _ _ | thread _ _ _ _ | policySwitch => exact .inl rfl
  | yield hp _ _ | swtch hp _ _ _ => exact .inl (by simp [hp, CpuPc.owns])

section

variable (hm : m.Inv) (h : Step boot m c mv m')

include hm h

lemma Step.current : m'.cpuProc c = (m'.cpu c).current := by
  have hc := hm.current c
  cases h with
  | @sched _ pc hintr h hlock =>
    rcases h.current with ⟨hn, he⟩ | hs
    · simp [perform, hn, hc, he]
    · simp [perform, hs]
  | intr _ h _ => simpa [perform, h.quiet.1] using hc
  | yield hp _ _ => simpa [perform, hp, CpuPc.current] using hc
  | thread _ _ h _ => simpa [perform, h.cpuProc] using hc
  | swtch hp _ h _ => simpa [perform, hp, h.cpuProc.1, CpuPc.current] using hc
  | policySwitch => exact hc

lemma Step.stateOk : (m'.cpu c).StateOk m'.k m'.thread := by
  have he := h.effect
  have hc := hm.state c
  cases h with
  | @sched _ pc hintr h hlock =>
    have hpc := schedEdge_stateOk h hc fun p hp => hm.quiet_of_entered hp
    simpa [perform, h.spawns] using hpc
  | @intr p _ i hp h hlock =>
    cases hp with
    | idle hl =>
      show (m.cpu c).StateOk _ _
      rw [hl]
      trivial
    | @proc p hl hb =>
      have hne := ne_exitSwtch_of_quiet hb
      have hrun := hm.state_inProc hl hne
      show (m.cpu c).StateOk _ _
      rw [hl]
      refine .inl ⟨by simpa [perform, h.quiet.2.1] using hne, ?_⟩
      rcases he.running_or hm hrun with hr | hop | hop | ⟨st, hop⟩
      · exact hr
      all_goals rcases h.op hop with h | ⟨q, -, h⟩ | ⟨j, ch, h, -⟩ <;> cases h
  | @yield p hp hi hlock =>
    have hrun : ((m.k.apply (.yield p)).proc p).state = .runnable := by
      rw [Kernel.apply_proc_self _ _ rfl]
      exact yield_state _ _ _
    simpa [CpuPc.StateOk, perform] using .inl hrun
  | @thread p _ t hp hintr h hlock =>
    have hrun := hm.state_inProc hp h.ne_exitSwtch
    show (m.cpu c).StateOk _ _
    rw [hp, CpuPc.StateOk]
    simp only [update_self]
    rcases he.running_or hm hrun with hr | hop | hop | ⟨st, hop⟩
    · refine .inl ⟨fun ht => ?_, hr⟩
      -- a thread gets to `exitSwtch` by the operation that makes it a zombie
      obtain ⟨st, hop⟩ := h.eq_exitSwtch ht
      have hz : ((m.k.apply (.exit p st)).proc p).state = .zombie := by
        rw [Kernel.apply_proc_self _ _ rfl]
        rfl
      rw [he.k, hop] at hr
      exact absurd (hr.symm.trans hz) (by decide)
    · exact (h.permits hop).elim
    · exact absurd hop h.not_sleep
    · refine .inr ⟨h.of_exit hop, ?_⟩
      rw [he.k, hop]
      show ((m.k.apply (.exit p st)).proc p).state = .zombie
      rw [Kernel.apply_proc_self _ _ rfl]
      rfl
  | @swtch p _ t hp hintr h hlock =>
    have hback : ∀ k : Kernel, (k.proc p).state = .sleeping ∨ (k.proc p).state = .zombie →
        (CpuPc.back p).StateOk k (update m.thread p t) := fun k h => .inr h
    simp only [update_self]
    refine hback _ ?_
    rcases h.sleeps_or_exits with ⟨-, hop, hch⟩ | ⟨ht, hop⟩
    · refine .inl ?_
      rw [perform, hop]
      show ((m.k.apply (.sleep p)).proc p).state = .sleeping
      rw [Kernel.apply_proc_self _ _ rfl, Op.effect, Proc.sleep, if_pos hch]
    · refine .inr ?_
      rw [hp] at hc
      rw [perform, hop]
      rcases hc with ⟨hne, -⟩ | ⟨-, hz⟩
      · exact absurd ht hne
      · exact hz
  | policySwitch => exact hc

lemma Step.quiet (hp : m.cpu c = .inProc p) (hb : (m'.thread p).busy = true) :
    m'.cpu c = .inProc p ∧ m'.intr c = .none := by
  cases h with
  | sched _ h _ => exact absurd hp (h.ne_inProc p)
  | @intr q _ i hq h hlock =>
    have hb' : (m.thread p).busy = true := by simpa [perform, h.quiet.2.1] using hb
    cases hq with
    | idle hl =>
      rw [hp] at hl
      cases hl
    | proc hl hbusy =>
      rw [hp] at hl
      cases hl
      rw [hbusy] at hb'
      cases hb'
  | yield hq hi _ =>
    have hnone := hm.intr_of_busy hp hb
    rw [hi] at hnone
    cases hnone
  | thread hq hintr _ _ => exact ⟨hp, hintr⟩
  | swtch hq _ h _ =>
    rw [hp] at hq
    cases hq
    simp [h.quiet.1] at hb
  | policySwitch => exact ⟨hp, hm.intr_of_busy hp hb⟩

lemma Step.intr_ne_none (hi : m'.intr c ≠ .none) :
    m'.cpu c = .loop ∨ ∃ p, m'.cpu c = .inProc p := by
  cases h with
  | sched hintr _ _ | thread _ hintr _ _ | swtch _ hintr _ _ => exact absurd hintr hi
  | intr hp _ _ =>
    cases hp with
    | idle hl => exact .inl hl
    | proc hl _ => exact .inr ⟨_, hl⟩
  | yield _ _ _ => simp at hi
  | policySwitch => exact hm.intr c hi

end

variable {np : Slot}

/-- The child of the thread of a CPU after a step is the one it had, or the one it has just
allocated. -/
lemma Step.child (h : Step boot m c mv m') (hp : m.cpu c = .inProc p)
    (hchild : (m'.thread p).child = some np) :
    (m.thread p).child = some np ∧ mv.op ≠ some (.freeproc np) ∧ mv.op ≠ some (.runnable np) ∨
      mv.op = some (.allocproc np) := by
  cases h with
  | sched _ h _ => exact absurd hp (h.ne_inProc p)
  | intr _ h _ =>
    refine .inl ⟨by simpa [perform, h.quiet.2.1] using hchild, fun ho => ?_, fun ho => ?_⟩
    all_goals rcases h.op ho with h | ⟨q, -, h⟩ | ⟨j, ch, h, -⟩ <;> cases h
  | yield _ _ _ | policySwitch => exact .inl ⟨hchild, by simp, by simp⟩
  | thread hq _ h _ =>
    rw [hp] at hq
    cases hq
    simp only [update_self] at hchild
    rcases h.child with ⟨-, hsame | hnone⟩ | ⟨j, -, hop, hj⟩
    · refine .inl ⟨hsame.symm.trans hchild, fun ho => ?_, fun ho => ?_⟩
      · exact absurd (h.child_eq_none (.inl ho)) (by rw [hchild]; simp)
      · exact absurd (h.child_eq_none (.inr ho)) (by rw [hchild]; simp)
    · rw [hnone] at hchild
      cases hchild
    · rw [hj] at hchild
      cases hchild
      exact .inr hop
  | swtch hq _ h _ =>
    rw [hp] at hq
    cases hq
    simp [h.quiet.2] at hchild

/-- The same for any thread: only the thread of the CPU itself gets or loses a child. -/
lemma Step.child_of (h : Step boot m c mv m') (hchild : (m'.thread p).child = some np) :
    (m.thread p).child = some np ∨ m.cpu c = .inProc p ∧ mv.op = some (.allocproc np) := by
  by_cases hp : m.cpu c = .inProc p
  · exact (h.child hp hchild).imp And.left fun ho => ⟨hp, ho⟩
  · by_cases hs : mv.spawns = some p
    · rw [(h.effect.spawned p hs).2 hp] at hchild
      cases hchild
    · rw [h.effect.thread p hp hs] at hchild
      exact .inl hchild

section

variable (hm : m.Inv) (h : Step boot m c mv m')

include hm h

lemma Step.child_used (hchild : (m'.thread p).child = some np) : (m'.k.proc np).state = .used := by
  rcases h.child_of hchild with hold | ⟨-, hop⟩
  · have hused := hm.child p np hold
    rcases h.effect.state hm np with hs | ⟨o, ho, hperm, hslot, hs⟩
    · exact hs.trans hused
    · -- only the thread whose child it is frees it or makes it runnable
      have howner : ∀ q, m.cpu c = .inProc q → (m.thread q).child = some np →
          (mv.op = some (.freeproc np) ∨ mv.op = some (.runnable np)) → False := by
        intro q hq hqc hor
        have hpq : p = q := hm.child_inj p q np hold hqc
        subst hpq
        rcases h.child hq hchild with ⟨-, h1, h2⟩ | hop
        · exact hor.elim h1 h2
        · rw [hop] at hor
          simp at hor
      rw [hused] at hs
      generalize (m'.k.proc np).state = s at hs
      cases hs with
      | freeproc j | runnable j =>
        cases hslot
        cases hperm with
        | thread hq hpm => exact (howner _ hq (by rw [hpm.1]; rfl) (by simp [ho])).elim
  · rw [h.effect.k, hop]
    show ((m.k.apply (.allocproc np)).proc np).state = .used
    rw [Kernel.apply_proc_self _ _ rfl]
    rfl

lemma Step.owner_ne {c' : ι} (hc : c' ≠ c) (hc' : (m'.cpu c').owns = some p) :
    (m'.cpu c).owns ≠ some p := by
  intro hcp
  rw [h.effect.cpu c' hc] at hc'
  rcases h.owns with hsame | ⟨q, -, hloop, -⟩ | ⟨q, -, hsel, hl, hrun⟩
  · exact hc (hm.owner hc' (hsame.symm.trans hcp))
  · rw [hloop] at hcp
    cases hcp
  · rw [hsel] at hcp
    cases hcp
    have hfree := h.effect.enabled
    rw [hl] at hfree
    exact hm.owns_ne_of_free hfree hrun c' hc'

lemma Step.owner {c1 c2 : ι} (h1 : (m'.cpu c1).owns = some p) (h2 : (m'.cpu c2).owns = some p) :
    c1 = c2 := by
  by_cases hc1 : c1 = c <;> by_cases hc2 : c2 = c
  · rw [hc1, hc2]
  · subst hc1
    exact absurd h1 (h.owner_ne hm hc2 h2)
  · subst hc2
    exact absurd h2 (h.owner_ne hm hc1 h1)
  · rw [h.effect.cpu c1 hc1] at h1
    rw [h.effect.cpu c2 hc2] at h2
    exact hm.owner h1 h2

lemma Step.running (hrun : (m'.k.proc p).state = .running) : ∃ c, (m'.cpu c).owns = some p := by
  rcases h.effect.state hm p with hs | ⟨o, ho, hperm, hslot, hs⟩
  · -- it was running before, and its owner has not released it
    have hold := hs.symm.trans hrun
    obtain ⟨c', hc'⟩ := hm.running p hold
    by_cases hc : c' = c
    · subst hc
      rcases h.owns with hsame | ⟨q, hrel, -, -⟩ | ⟨q, hnone, -⟩
      · exact ⟨c', hsame.trans hc'⟩
      · have hst := hm.state c'
        rw [hrel] at hc' hst
        cases hc'
        rcases hst with hst | hst | hst <;> rw [hold] at hst <;> cases hst
      · rw [hnone] at hc'
        cases hc'
    · exact ⟨c', by rw [h.effect.cpu c' hc, hc']⟩
  · rw [hrun] at hs
    obtain ⟨q, rfl⟩ := hs.eq_dispatch
    cases hslot
    cases hperm with
    | thread _ hpm => exact hpm.elim
    | dispatch hq =>
      have howns : (m.cpu c).owns = some p := by rw [hq]; rfl
      rcases h.owns with hsame | ⟨q, hrel, -, -⟩ | ⟨q, hnone, -⟩
      · exact ⟨c, hsame.trans howns⟩
      · rw [hrel] at hq
        cases hq
      · rw [hnone] at howns
        cases howns

lemma Step.busy (hb : (m'.thread p).busy = true) :
    ∃ c, m'.cpu c = .inProc p ∧ m'.intr c = .none := by
  by_cases hp : m.cpu c = .inProc p
  · exact ⟨c, h.quiet hm hp hb⟩
  by_cases hs : mv.spawns = some p
  · rw [(h.effect.spawned p hs).2 hp] at hb
    cases hb
  · rw [h.effect.thread p hp hs] at hb
    obtain ⟨c', hc', hi⟩ := hm.quiet p hb
    have hc : c' ≠ c := by
      rintro rfl
      exact hp hc'
    exact ⟨c', by rw [h.effect.cpu c' hc, hc'], by rw [h.effect.intr c' hc, hi]⟩

lemma Step.child_inj {p' : Slot} (hp : (m'.thread p).child = some np)
    (hp' : (m'.thread p').child = some np) : p = p' := by
  -- a slot just allocated was unused, so it is nobody else's child
  have hfresh : ∀ q, (m.thread q).child = some np → mv.op ≠ some (.allocproc np) := by
    intro q hq ho
    have hok : (m.k.proc np).state = .unused := (h.effect.permitted _ ho).ok hm
    exact absurd ((hm.child q np hq).symm.trans hok) (by decide)
  rcases h.child_of hp with h1 | ⟨h1, ho⟩ <;> rcases h.child_of hp' with h2 | ⟨h2, ho'⟩
  · exact hm.child_inj p p' np h1 h2
  · exact absurd ho' (hfresh p h1)
  · exact absurd ho (hfresh p' h2)
  · rw [h1] at h2
    cases h2
    rfl

/-- **Every step keeps the invariant.** -/
theorem Step.inv : m'.Inv where
  locks := by
    rw [h.effect.lock]
    exact hm.locks.step h.effect.enabled (h.typed hm) fun c' hc l =>
      h.effect.holds_of_other hm hc l
  owner := h.owner hm
  current c' := by
    by_cases hc : c' = c
    · subst hc
      exact h.current hm
    · rw [h.effect.cpuProc c' hc, h.effect.cpu c' hc, hm.current c']
  state c' := by
    by_cases hc : c' = c
    · subst hc
      exact h.stateOk hm
    · exact h.effect.stateOk_of_other hm hc
  running p := h.running hm
  quiet p := h.busy hm
  intr c' hi := by
    by_cases hc : c' = c
    · subst hc
      exact h.intr_ne_none hm hi
    · rw [h.effect.intr c' hc] at hi
      rw [h.effect.cpu c' hc]
      exact hm.intr c' hi
  child p np := h.child_used hm
  child_inj p p' np := h.child_inj hm

end

end Own

/-! ### Runs -/

lemma bootKernel_state (pol : SchedPolicy) (p : Slot) :
    ((bootKernel pol).proc p).state = if p = initproc then .runnable else .unused := by
  by_cases hp : p = initproc
  · subst hp
    simp [bootKernel, userinit, Kernel.apply, Op.slot, Op.effect, Proc.makeRunnable,
      Proc.schedProcRunnable]
  · simp [bootKernel, userinit, Kernel.apply, Op.slot, Ne.symm hp, hp, procinit, Proc.zero]

lemma inv_init (pol : SchedPolicy) : (init ι pol).Inv where
  locks l c := by simp [init, Holds, CpuPc.Holds]
  owner h := by cases h
  current c := rfl
  state c := trivial
  running p h := by
    rw [show (init ι pol).k = bootKernel pol from rfl, bootKernel_state] at h
    split_ifs at h
  quiet p h := by
    simp only [init] at h
    split_ifs at h <;> cases h
  intr c h := absurd rfl h
  child p np h := by
    simp only [init] at h
    split_ifs at h <;> cases h
  child_inj p p' np h := by
    simp only [init] at h
    split_ifs at h <;> cases h

variable [DecidableEq ι] {pol : SchedPolicy} {ops : List Op}

/-- **The invariant holds along every run.** -/
theorem Run.inv (h : Run boot pol ops m) : m.Inv :=
  Transition.Steps.invariant h (inv_init pol) fun _ _ _ hm ⟨_, _, hstep, _⟩ => hstep.inv hm

/-- **Refinement**: every run of the machine performs a legal sequence of operations of the
process table, and its table is their result. -/
theorem Run.refines (h : Run boot pol ops m) :
    (bootKernel pol).Legal ops ∧ m.k = (bootKernel pol).after ops := by
  refine Transition.Steps.refines Machine.k h (inv_init pol)
    (fun _ _ _ hm ⟨_, _, hstep, _⟩ => hstep.inv hm) ?_
  rintro m ops m' hm ⟨c, mv, hstep, rfl⟩
  rw [hstep.effect.k]
  cases ho : mv.op with
  | none => exact ⟨trivial, rfl⟩
  | some o => exact ⟨⟨(hstep.effect.permitted o ho).ok hm, trivial⟩, rfl⟩

lemma Run.sched (h : Run boot pol ops m) (hintr : m.intr c = .none) {pc pc' : CpuPc}
    (hpc : m.cpu c = pc) (he : SchedEdge m.k (m.cursors c) pc mv pc')
    (hlock : mv.lock.Enabled m.lock) :
    Run boot pol (ops ++ mv.op.toList)
      { m.perform c mv with cpu := update m.cpu c pc' } :=
  h.snoc ⟨c, mv, .sched hintr (hpc ▸ he) hlock, rfl⟩

lemma Run.intr (h : Run boot pol ops m) {o : Option Slot} (hp : m.Interruptible c o)
    {i i' : IntrPc} (hi : m.intr c = i) (he : IntrEdge m.k (c = boot) o i mv i')
    (hlock : mv.lock.Enabled m.lock) :
    Run boot pol (ops ++ mv.op.toList) { m.perform c mv with intr := update m.intr c i' } :=
  h.snoc ⟨c, mv, .intr hp (hi ▸ he) hlock, rfl⟩

lemma Run.thread (h : Run boot pol ops m) (hp : m.cpu c = .inProc p) (hintr : m.intr c = .none)
    {t t' : ThreadPc} (ht : m.thread p = t) (he : ThreadEdge m.k p t mv t')
    (hlock : mv.lock.Enabled m.lock) :
    Run boot pol (ops ++ mv.op.toList)
      { m.perform c mv with thread := update (m.perform c mv).thread p t' } :=
  h.snoc ⟨c, mv, .thread hp hintr (ht ▸ he) hlock, rfl⟩

lemma Run.swtch (h : Run boot pol ops m) (hp : m.cpu c = .inProc p) (hintr : m.intr c = .none)
    {t t' : ThreadPc} (ht : m.thread p = t) (he : SwtchEdge m.k p t mv t')
    (hlock : mv.lock.Enabled m.lock) :
    Run boot pol (ops ++ mv.op.toList)
      { m.perform c mv with cpu := update m.cpu c (.back p), thread := update m.thread p t' } :=
  h.snoc ⟨c, mv, .swtch hp hintr (ht ▸ he) hlock, rfl⟩

omit [DecidableEq ι] in
lemma Inv.free (hm : m.Inv) {l : Lock} (h : ∀ c, ¬ m.Holds c l) : m.lock l = none := by
  cases hl : m.lock l with
  | none => rfl
  | some c => exact absurd ((hm.locks l c).mp hl) (h c)

/-- The run in which the first of two CPUs dispatches init. -/
lemma exists_run_init : ∃ m : Machine (Fin 2), Run 0 .rr [.dispatch initproc] m ∧
    m.cpu 0 = .inProc initproc ∧ m.cpu 1 = .loop ∧ (∀ c, m.intr c = .none) ∧
    (m.cursors 1).rr = 0 ∧ m.thread initproc = .run ∧ ∀ l, m.lock l = none := by
  have h0 : Run (0 : Fin 2) .rr [] (init (Fin 2) .rr) := .nil
  have h1 := h0.sched (c := 0) rfl rfl (.startRr rfl) trivial
  have h2 := h1.sched (c := 0) rfl rfl (.rrTake (by simp [nproc_eq]) (bootKernel_state .rr 0)) rfl
  have h3 := h2.sched (c := 0) rfl rfl .dispatch trivial
  have h4 := h3.sched (c := 0) rfl rfl .swtch trivial
  have h5 := h4.sched (c := 0) rfl rfl .enter trivial
  refine ⟨_, h5, rfl, rfl, fun _ => rfl, rfl, rfl, fun l => h5.inv.free fun c => ?_⟩
  fin_cases c <;> exact id

end Machine

end Xv6Riscv
