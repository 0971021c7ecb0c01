import Xv6Riscv.Lib.Transition

/-!
Interrupts and spinlocks across context switches.

`acquire` and `release` turn interrupts off and on through `push_off` and `pop_off`, which count in
`noff` and remember in `intena`; both are fields of the CPU. A thread may give up its CPU in `sched`
and go on with another one, and then the process lock that one of `sched` and `scheduler` has taken
is released by the other. Here there are any number of CPUs, each with its `scheduler`, and any
number of processes. What a thread holds, and whether interrupts were on when it began to, is
recorded beside the code.

A thread that holds nothing may turn interrupts on and off: `intr_on` and `intr_off`, and an
interrupt and the return from it, do so. `scheduler` does not while it selects a process.

* `OnCpu`: how the fields of a CPU agree with what the thread on it holds.
* `Inv.act`: every step keeps this, and does not panic.
* `interrupt_nesting`: in every run.
-/

namespace Xv6Riscv

open Function (update update_apply update_of_ne update_self)

/-- The fields of `struct cpu` for interrupts, and the bit `SSTATUS_SIE`. -/
structure Cpu where
  noff : ℤ
  intena : Bool
  sie : Bool

/-- The panics of `spinlock.c` and `sched`. -/
inductive IntrPanic
  | acquire
  | release
  /-- "pop_off - interruptible" -/
  | interruptible
  | popOff
  /-- "sched p->lock" -/
  | schedLock
  /-- "sched locks" -/
  | schedLocks
  /-- "sched interruptible" -/
  | schedInterruptible

namespace Cpu

def pushOff (x : Cpu) : Cpu where
  noff := x.noff + 1
  intena := if x.noff = 0 then x.sie else x.intena
  sie := false

def popOff (x : Cpu) : Except IntrPanic Cpu :=
  if x.sie then .error .interruptible
  else if x.noff < 1 then .error .popOff
  else .ok { x with
    noff := x.noff - 1
    sie := if x.noff - 1 = 0 ∧ x.intena then true else x.sie }

end Cpu

/-- Where a thread is. -/
inductive CtxPc (L : Type*)
  /-- in code that is not in one of the functions -/
  | normal
  /-- in `acquire(l)`, after `push_off` -/
  | spinning (l : L)
  /-- in `release`, before `pop_off` -/
  | popping
  /-- back from `swtch`, before the assignment to `intena` -/
  | resumed
  /-- in `swtch` -/
  | away
  /-- about to begin in `forkret` -/
  | fresh
  deriving DecidableEq

/-- A thread: the locks it holds, its calls of `push_off` apart from those of `acquire`, whether
interrupts were on when it began to hold any, and the variable `intena` of `sched`. -/
structure Ctx (L : Type*) where
  pc : CtxPc L
  held : List L
  pushes : ℕ
  was : Bool
  saved : Bool

namespace Ctx

variable {L : Type*}

/-- How many calls of `push_off` are not undone. -/
def depth (t : Ctx L) : ℕ := t.held.length + t.pushes +
  match t.pc with
  | .spinning _ | .popping => 1
  | .normal | .resumed | .away | .fresh => 0

/-- Another call of `push_off`, when `SSTATUS_SIE` is `sie`. -/
def push (t : Ctx L) (sie : Bool) : Ctx L := { t with was := if t.depth = 0 then sie else t.was }

end Ctx

/-- The CPUs, what runs on them (the thread of a process, or `scheduler`), the CPUs whose
`scheduler` is past `intr_off`, the threads, and the locks with their `cpu` fields. -/
structure Intr (C P L : Type*) where
  cpu : C → Cpu
  run : C → Option P
  selecting : C → Bool
  ctx : C ⊕ P → Ctx L
  lock : L → Option C

/-- What the thread on a CPU does next. -/
inductive IntrAct (C P L : Type*)
  | pushOff (c : C)
  | popOff (c : C)
  /-- `acquire(l)` up to the loop -/
  | acquire (c : C) (l : L)
  /-- the last turn of the loop of `acquire` -/
  | take (c : C)
  /-- `release(l)` up to `pop_off` -/
  | release (c : C) (l : L)
  /-- `pop_off` in `release` -/
  | pop (c : C)
  | setIntr (c : C) (on : Bool)
  /-- `intr_off` in `scheduler` -/
  | select (c : C)
  /-- the end of the loop of `scheduler` -/
  | finish (c : C)
  /-- `sched`, up to `swtch` -/
  | sched (c : C)
  /-- `swtch` in `scheduler` -/
  | swtch (c : C) (p : P)
  /-- the assignment to `intena` after `swtch` -/
  | restore (c : C)
  /-- `allocproc` sets up a new thread in the slot `p` -/
  | alloc (p : P)

namespace Intr

variable {C P L : Type*}

/-- Which thread is on a CPU. -/
def agent (s : Intr C P L) (c : C) : C ⊕ P := (s.run c).elim (.inl c) .inr

def cur (s : Intr C P L) (c : C) : Ctx L := s.ctx (s.agent c)

/-- What a thread assigns to `intena` after `swtch`. -/
def restored : C ⊕ P → Ctx L → Bool
  | .inl _, _ => false
  | .inr _, t => t.saved

/-- When the CPUs enter `scheduler`. -/
def init : Intr C P L where
  cpu _ := ⟨0, false, false⟩
  run _ := none
  selecting _ := false
  ctx
    | .inl _ => ⟨.normal, [], 0, false, false⟩
    | .inr _ => ⟨.fresh, [], 0, false, false⟩
  lock _ := none

section

variable [DecidableEq C] [DecidableEq P] [DecidableEq L]

/-- The CPU `c` and the thread on it, changed. -/
def set (s : Intr C P L) (c : C) (x : Cpu) (t : Ctx L) : Intr C P L :=
  { s with cpu := update s.cpu c x, ctx := update s.ctx (s.agent c) t }

/-- One step, where it is possible. Threads do not acquire locks they hold or release locks they do
not, and call `sched` with the lock of the process and no other. -/
def act (plock : P → L) (s : Intr C P L) : IntrAct C P L → Option (Except IntrPanic (Intr C P L))
  | .pushOff c =>
    let t := s.cur c
    if t.pc = .normal then
      some (.ok (s.set c (s.cpu c).pushOff
        { t.push (s.cpu c).sie with pushes := t.pushes + 1 }))
    else none
  | .popOff c =>
    let t := s.cur c
    if t.pc = .normal ∧ 0 < t.pushes then
      some ((s.cpu c).popOff.map fun x => s.set c x { t with pushes := t.pushes - 1 })
    else none
  | .acquire c l =>
    let t := s.cur c
    if t.pc = .normal ∧ l ∉ t.held then
      if s.lock l = some c then some (.error .acquire)
      else some (.ok (s.set c (s.cpu c).pushOff { t.push (s.cpu c).sie with pc := .spinning l }))
    else none
  | .take c =>
    let t := s.cur c
    match t.pc with
    | .spinning l =>
      if s.lock l = none then
        some (.ok { s.set c (s.cpu c) { t with pc := .normal, held := l :: t.held } with
          lock := update s.lock l (some c) })
      else none
    | _ => none
  | .release c l =>
    let t := s.cur c
    if t.pc = .normal ∧ l ∈ t.held then
      if s.lock l ≠ some c then some (.error .release)
      else some (.ok { s.set c (s.cpu c) { t with pc := .popping, held := t.held.erase l } with
        lock := update s.lock l none })
    else none
  | .pop c =>
    let t := s.cur c
    if t.pc = .popping then
      some ((s.cpu c).popOff.map fun x => s.set c x { t with pc := .normal })
    else none
  | .setIntr c on =>
    let t := s.cur c
    if t.pc = .normal ∧ t.depth = 0 ∧ (s.run c = none → s.selecting c = false) then
      some (.ok (s.set c { s.cpu c with sie := on } t))
    else none
  | .select c =>
    let t := s.cur c
    if s.run c = none ∧ s.selecting c = false ∧ t.pc = .normal ∧ t.depth = 0 then
      some (.ok { s.set c { s.cpu c with sie := false } t with
        selecting := update s.selecting c true })
    else none
  | .finish c =>
    let t := s.cur c
    if s.run c = none ∧ t.pc = .normal ∧ t.depth = 0 then
      some (.ok { s with selecting := update s.selecting c false })
    else none
  | .sched c =>
    match s.run c with
    | none => none
    | some p =>
      let t := s.cur c
      if t.pc = .normal ∧ t.held = [plock p] ∧ t.pushes = 0 then
        if s.lock (plock p) ≠ some c then some (.error .schedLock)
        else if (s.cpu c).noff ≠ 1 then some (.error .schedLocks)
        else if (s.cpu c).sie then some (.error .schedInterruptible)
        else some (.ok { s with
          run := update s.run c none
          ctx := update (update s.ctx (.inr p)
              { t with pc := .away, held := [], saved := (s.cpu c).intena })
            (.inl c) { s.ctx (.inl c) with pc := .resumed, held := [plock p] } })
      else none
  | .swtch c p =>
    let t := s.cur c
    let t' := s.ctx (.inr p)
    if s.run c = none ∧ s.selecting c = true ∧ t.pc = .normal ∧ t.held = [plock p] ∧
        t.pushes = 0 ∧ (t'.pc = .away ∨ t'.pc = .fresh) then
      some (.ok { s with
        run := update s.run c (some p)
        ctx := update (update s.ctx (.inl c) { t with pc := .away, held := [] }) (.inr p)
          (if t'.pc = .fresh then { t' with pc := .normal, held := [plock p], was := t.was }
            else { t' with pc := .resumed, held := [plock p] }) })
    else none
  | .restore c =>
    let t := s.cur c
    if t.pc = .resumed then
      some (.ok (s.set c { s.cpu c with intena := restored (s.agent c) t }
        { t with pc := .normal }))
    else none
  | .alloc p =>
    let t := s.ctx (.inr p)
    if t.pc = .away then
      some (.ok { s with ctx := update s.ctx (.inr p) { t with pc := .fresh } })
    else none

inductive Reachable (plock : P → L) : Intr C P L → Prop
  | init : Reachable plock init
  | step {s t : Intr C P L} {a : IntrAct C P L} (hs : Reachable plock s)
      (h : s.act plock a = some (.ok t)) : Reachable plock t

end

/-! ### The invariant -/

/-- How a CPU and the thread on it agree; `r` is what the thread assigns to `intena` when it is back
from `swtch`. -/
structure OnCpu (r : Bool) (x : Cpu) (t : Ctx L) : Prop where
  pc : t.pc ≠ .away ∧ t.pc ≠ .fresh
  noff : x.noff = t.depth
  sie : 0 < t.depth → x.sie = false
  intena : 0 < t.depth → t.pc ≠ .resumed → x.intena = t.was
  resumed : t.pc = .resumed → r = t.was ∧ t.depth = 1

/-- A thread that is on no CPU. -/
structure Off (r : Bool) (t : Ctx L) : Prop where
  pc : t.pc = .away ∨ t.pc = .fresh
  held : t.held = []
  pushes : t.pushes = 0
  saved : t.pc = .away → r = t.was

/-- **The invariant.** A lock is held by the thread on the CPU it names; a `scheduler` that selects
a process has interrupts off. -/
structure Inv (s : Intr C P L) : Prop where
  on : ∀ c, OnCpu (restored (s.agent c) (s.cur c)) (s.cpu c) (s.cur c)
  off : ∀ a, (∀ c, s.agent c ≠ a) → Off (restored a (s.ctx a)) (s.ctx a)
  unique : ∀ c c' p, s.run c = some p → s.run c' = some p → c = c'
  lock : ∀ l c, s.lock l = some c ↔ l ∈ (s.cur c).held
  nodup : ∀ c, (s.cur c).held.Nodup
  selecting : ∀ c, s.run c ≠ none → s.selecting c = true
  quiet : ∀ c, s.run c = none → s.selecting c = true →
    (s.cpu c).sie = false ∧ (0 < (s.cur c).depth → (s.cur c).was = false)
  loop : ∀ c, (s.ctx (.inl c)).pc ≠ .fresh

variable {s : Intr C P L} {c c' : C} {p : P} {x : Cpu} {t : Ctx L} {r : Bool} {plock : P → L}

/-- What the invariant says of one CPU. -/
structure OkAt (s : Intr C P L) (c : C) : Prop where
  on : OnCpu (restored (s.agent c) (s.cur c)) (s.cpu c) (s.cur c)
  lock : ∀ l, s.lock l = some c ↔ l ∈ (s.cur c).held
  nodup : (s.cur c).held.Nodup
  selecting : s.run c ≠ none → s.selecting c = true
  quiet : s.run c = none → s.selecting c = true →
    (s.cpu c).sie = false ∧ (0 < (s.cur c).depth → (s.cur c).was = false)

lemma Inv.okAt (h : s.Inv) (c : C) : s.OkAt c :=
  ⟨h.on c, fun l => h.lock l c, h.nodup c, h.selecting c, h.quiet c⟩

lemma Inv.of_okAt (h : ∀ c, s.OkAt c)
    (hoff : ∀ a, (∀ c, s.agent c ≠ a) → Off (restored a (s.ctx a)) (s.ctx a))
    (hunique : ∀ c c' p, s.run c = some p → s.run c' = some p → c = c')
    (hloop : ∀ c, (s.ctx (.inl c)).pc ≠ .fresh) : s.Inv :=
  ⟨fun c => (h c).on, hoff, hunique, fun l c => (h c).lock l, fun c => (h c).nodup,
    fun c => (h c).selecting, fun c => (h c).quiet, hloop⟩

lemma OkAt.congr {s' : Intr C P L} (h : s.OkAt c) (hrun : s'.run c = s.run c)
    (hcur : s'.cur c = s.cur c) (hcpu : s'.cpu c = s.cpu c)
    (hlock : ∀ l, s'.lock l = some c ↔ s.lock l = some c)
    (hsel : s'.selecting c = s.selecting c) : s'.OkAt c where
  on := by
    rw [agent, hrun, hcur, hcpu]
    exact h.on
  lock l := by rw [hlock, hcur, h.lock]
  nodup := by
    rw [hcur]
    exact h.nodup
  selecting := by
    rw [hrun, hsel]
    exact h.selecting
  quiet := by
    rw [hrun, hsel, hcpu, hcur]
    exact h.quiet

lemma agent_of_none (h : s.run c = none) : s.agent c = .inl c := by rw [agent, h]; rfl

lemma agent_of_some (h : s.run c = some p) : s.agent c = .inr p := by rw [agent, h]; rfl

lemma agent_inj (hunique : ∀ c c' p, s.run c = some p → s.run c' = some p → c = c')
    (h : s.agent c = s.agent c') : c = c' := by
  cases hc : s.run c with
  | none =>
    cases hc' : s.run c' with
    | none =>
      rw [agent_of_none hc, agent_of_none hc'] at h
      exact Sum.inl.inj h
    | some p =>
      rw [agent_of_none hc, agent_of_some hc'] at h
      cases h
  | some p =>
    cases hc' : s.run c' with
    | none =>
      rw [agent_of_some hc, agent_of_none hc'] at h
      cases h
    | some q =>
      rw [agent_of_some hc, agent_of_some hc'] at h
      cases h
      exact hunique c c' p hc hc'

lemma OnCpu.push (h : OnCpu r x t) (hpc : t.pc = .normal) {t' : Ctx L} {r' : Bool}
    (hdepth : t'.depth = t.depth + 1) (hwas : t'.was = (t.push x.sie).was)
    (hpc' : t'.pc ≠ .away ∧ t'.pc ≠ .fresh ∧ t'.pc ≠ .resumed) : OnCpu r' x.pushOff t' where
  pc := ⟨hpc'.1, hpc'.2.1⟩
  noff := by
    rw [Cpu.pushOff, hdepth, h.noff]
    rfl
  sie _ := rfl
  intena _ _ := by
    have hzero : x.noff = 0 ↔ t.depth = 0 := by
      rw [h.noff]
      exact Int.natCast_eq_zero
    rw [hwas, Cpu.pushOff, Ctx.push]
    by_cases hd : t.depth = 0
    · rw [if_pos (hzero.mpr hd), if_pos hd]
    · rw [if_neg fun hn => hd (hzero.mp hn), if_neg hd]
      exact h.intena (Nat.pos_of_ne_zero hd) (by rw [hpc]; nofun)
  resumed he := absurd he hpc'.2.2

/-- `pop_off` does not panic; the last one restores the interrupts. -/
lemma OnCpu.pop (h : OnCpu r x t) (hpc : t.pc ≠ .resumed) {t' : Ctx L} {r' : Bool}
    (hdepth : t.depth = t'.depth + 1) (hwas : t'.was = t.was) (hpc' : t'.pc = .normal) :
    ∃ x', x.popOff = .ok x' ∧ OnCpu r' x' t' ∧ (t'.depth = 0 → x'.sie = t.was) ∧
      (0 < t'.depth → x'.sie = false) := by
  have hpos : 0 < t.depth := by omega
  have hsie := h.sie hpos
  have hintena := h.intena hpos hpc
  have hnoff : x.noff - 1 = t'.depth := by
    rw [h.noff, hdepth]
    push_cast
    ring
  have hlast : t'.depth = 0 → (if x.noff - 1 = 0 ∧ x.intena then true else x.sie) = t.was := by
    intro hd
    rw [hnoff, hd, hintena, hsie]
    cases t.was <;> simp
  have hmore : 0 < t'.depth → (if x.noff - 1 = 0 ∧ x.intena then true else x.sie) = false := by
    intro hd
    rw [if_neg fun hc => ?_, hsie]
    have hc1 := hc.1
    rw [hnoff] at hc1
    omega
  refine ⟨{ x with
    noff := x.noff - 1
    sie := if x.noff - 1 = 0 ∧ x.intena then true else x.sie }, ?_, ?_, hlast, hmore⟩
  · rw [Cpu.popOff, hsie, if_neg Bool.false_ne_true, if_neg (by omega)]
  · refine ⟨by rw [hpc']; exact ⟨nofun, nofun⟩, hnoff, hmore,
      fun _ _ => hintena.trans hwas.symm, ?_⟩
    rw [hpc']
    exact nofun

/-- The `scheduler` of a CPU that runs a process waits in `swtch`. -/
lemma Inv.scheduler_away (h : s.Inv) (hrun : s.run c = some p) :
    (∀ c', s.agent c' ≠ .inl c) ∧ (s.ctx (.inl c)).pushes = 0 ∧ (s.ctx (.inl c)).was = false := by
  have hnot : ∀ c', s.agent c' ≠ .inl c := by
    intro c' he
    cases hc' : s.run c' with
    | none =>
      rw [agent_of_none hc'] at he
      cases he
      rw [hrun] at hc'
      cases hc'
    | some q =>
      rw [agent_of_some hc'] at he
      cases he
  have hoff := h.off _ hnot
  exact ⟨hnot, hoff.pushes, (hoff.saved (hoff.pc.resolve_right (h.loop c))).symm⟩

/-- A thread in `swtch`, or one that has not begun, is on no CPU. -/
lemma Inv.not_on (h : s.Inv) (hpc : (s.ctx (.inr p)).pc = .away ∨ (s.ctx (.inr p)).pc = .fresh) :
    ∀ c', s.agent c' ≠ .inr p := by
  intro c' he
  have hon := (h.on c').pc
  rw [cur, he] at hon
  exact hpc.elim hon.1 hon.2

lemma inv_init : (init : Intr C P L).Inv where
  on c := ⟨⟨nofun, nofun⟩, rfl, nofun, nofun, nofun⟩
  off a ha := by
    cases a with
    | inl c => exact absurd rfl (ha c)
    | inr p => exact ⟨.inr rfl, rfl, rfl, nofun⟩
  unique _ _ _ h := by cases h
  lock l c := ⟨nofun, nofun⟩
  nodup _ := List.nodup_nil
  selecting _ h := absurd rfl h
  quiet _ _ h := by cases h
  loop _ := nofun

variable [DecidableEq C] [DecidableEq P]

section

variable (h : s.Inv)

include h

/-- **A step of one thread** that does not give up its CPU. -/
lemma Inv.set {k : L → Option C} {f : C → Bool} (hon : OnCpu (restored (s.agent c) t) x t)
    (hlock : ∀ l, k l = some c ↔ l ∈ t.held)
    (hother : ∀ l c', c' ≠ c → (k l = some c' ↔ s.lock l = some c')) (hnodup : t.held.Nodup)
    (hsel : ∀ c', c' ≠ c → f c' = s.selecting c') (hrun : s.run c ≠ none → f c = true)
    (hquiet : s.run c = none → f c = true → x.sie = false ∧ (0 < t.depth → t.was = false)) :
    Inv { s.set c x t with lock := k, selecting := f } := by
  have hself : Intr.cur { s.set c x t with lock := k, selecting := f } c = t :=
    update_self ..
  have hcpu : Intr.cpu { s.set c x t with lock := k, selecting := f } c = x :=
    update_self ..
  refine .of_okAt (fun c' => ?_) (fun a ha => ?_) h.unique fun c' => ?_
  · rcases eq_or_ne c' c with rfl | hc
    · refine ⟨?_, ?_, ?_, hrun, ?_⟩
      · rwa [hself, hcpu]
      · rwa [hself]
      · rwa [hself]
      · rwa [hself, hcpu]
    · exact (h.okAt c').congr rfl (update_of_ne (fun he => hc (agent_inj h.unique he)) ..)
        (update_of_ne hc ..) (fun l => hother l c' hc) (hsel c' hc)
  · have hctx : (s.set c x t).ctx a = s.ctx a := update_of_ne (fun he => ha c he.symm) ..
    change Off (restored a ((s.set c x t).ctx a)) ((s.set c x t).ctx a)
    rw [hctx]
    exact h.off a ha
  · change (update s.ctx (s.agent c) t (.inl c')).pc ≠ .fresh
    rw [update_apply]
    split_ifs
    · exact hon.pc.2
    · exact h.loop c'

lemma Inv.setCpu (hheld : t.held = (s.cur c).held) (hon : OnCpu (restored (s.agent c) t) x t)
    (hquiet : s.run c = none → s.selecting c = true →
      x.sie = false ∧ (0 < t.depth → t.was = false)) : (s.set c x t).Inv := by
  refine h.set hon (fun l => ?_) (fun _ _ _ => Iff.rfl) (by rw [hheld]; exact h.nodup c)
    (fun _ _ => rfl) (h.selecting c) hquiet
  rw [hheld]
  exact h.lock l c

lemma Inv.push (hpc : (s.cur c).pc = .normal) (hheld : t.held = (s.cur c).held)
    (hdepth : t.depth = (s.cur c).depth + 1) (hwas : t.was = ((s.cur c).push (s.cpu c).sie).was)
    (hpc' : t.pc ≠ .away ∧ t.pc ≠ .fresh ∧ t.pc ≠ .resumed) :
    (s.set c (s.cpu c).pushOff t).Inv := by
  refine h.setCpu hheld ((h.on c).push hpc hdepth hwas hpc') fun hrun hsel => ⟨rfl, fun _ => ?_⟩
  obtain ⟨hsie, hfalse⟩ := h.quiet c hrun hsel
  rw [hwas, Ctx.push]
  split_ifs with hd
  · exact hsie
  · exact hfalse (Nat.pos_of_ne_zero hd)

lemma Inv.pop (hpc : (s.cur c).pc ≠ .resumed) (hheld : t.held = (s.cur c).held)
    (hdepth : (s.cur c).depth = t.depth + 1) (hwas : t.was = (s.cur c).was) (hpc' : t.pc = .normal)
    : ∃ x', (s.cpu c).popOff = .ok x' ∧ (s.set c x' t).Inv ∧
      (x'.noff = 0 → x'.sie = (s.cur c).was) := by
  obtain ⟨x', hpop, hon, hlast, hmore⟩ := (h.on c).pop hpc hdepth hwas hpc'
  refine ⟨x', hpop, h.setCpu hheld hon fun hrun hsel => ?_, fun hzero => hlast ?_⟩
  · have hfalse := (h.quiet c hrun hsel).2 (by omega)
    refine ⟨?_, fun _ => hwas.trans hfalse⟩
    by_cases hd : t.depth = 0
    · rw [hlast hd, hfalse]
    · exact hmore (Nat.pos_of_ne_zero hd)
  · rw [hon.noff] at hzero
    exact_mod_cast hzero

/-- **`swtch`** from the thread `a` on the CPU `c` to the thread `b`, which is on no CPU. The lock
the one holds is held by the other. -/
lemma Inv.switch {a b : C ⊕ P} {v : Option P} {ta tb : Ctx L} (ha : s.agent c = a)
    (hv : v.elim (.inl c) .inr = b) (hb : ∀ c', s.agent c' ≠ b)
    (hon : OnCpu (restored b tb) (s.cpu c) tb) (hoff : Off (restored a ta) ta)
    (hfresh : ta.pc ≠ .fresh) (hheld : tb.held = (s.cur c).held) (hsel : s.selecting c = true)
    (hquiet : v = none → (s.cpu c).sie = false ∧ (0 < tb.depth → tb.was = false)) :
    Inv { s with
      run := update s.run c v
      ctx := update (update s.ctx a ta) b tb } := by
  obtain ⟨s', hs'⟩ : ∃ s' : Intr C P L, s' = { s with
    run := update s.run c v
    ctx := update (update s.ctx a ta) b tb } := ⟨_, rfl⟩
  have hab : a ≠ b := fun he => hb c (ha.trans he)
  have hrunself : s'.run c = v := by rw [hs']; exact update_self ..
  have hrun : ∀ c', c' ≠ c → s'.run c' = s.run c' := fun c' hc => by
    rw [hs']
    exact update_of_ne hc _ _
  have hagentself : s'.agent c = b := by rw [agent, hrunself, hv]
  have hagent : ∀ c', c' ≠ c → s'.agent c' = s.agent c' := fun c' hc => by
    rw [agent, agent, hrun c' hc]
  have hctx : ∀ a', s'.ctx a' = if a' = b then tb else if a' = a then ta else s.ctx a' := by
    intro a'
    rw [hs']
    change update (update s.ctx a ta) b tb a' = _
    rw [update_apply, update_apply]
  have hself : s'.cur c = tb := by rw [cur, hagentself, hctx, if_pos rfl]
  have hcur : ∀ c', c' ≠ c → s'.cur c' = s.cur c' := fun c' hc => by
    rw [cur, hagent c' hc, hctx, if_neg (hb c'),
      if_neg fun he => hc (agent_inj h.unique (he.trans ha.symm))]
    rfl
  rw [← hs']
  refine .of_okAt (fun c' => ?_) (fun a' ha' => ?_) (fun c1 c2 p h1 h2 => ?_) fun c' => ?_
  · rcases eq_or_ne c' c with rfl | hc
    · refine ⟨?_, ?_, ?_, ?_, ?_⟩
      · rw [hagentself, hself, hs']
        exact hon
      · rw [hself, hheld, hs']
        exact fun l => h.lock l c'
      · rw [hself, hheld]
        exact h.nodup c'
      · rw [hs']
        exact fun _ => hsel
      · rw [hself, hrunself, hs']
        exact fun hv _ => hquiet hv
    · exact (h.okAt c').congr (hrun c' hc) (hcur c' hc) (by rw [hs']) (fun l => by rw [hs'])
        (by rw [hs'])
  · have hne : a' ≠ b := fun he => ha' c (hagentself.trans he.symm)
    rw [hctx, if_neg hne]
    split_ifs with hea
    · rwa [hea]
    · refine h.off a' fun c' => ?_
      rcases eq_or_ne c' c with rfl | hc
      · rw [ha]
        exact Ne.symm hea
      · rw [← hagent c' hc]
        exact ha' c'
  · -- a thread that was on no CPU is on one now
    have honly : ∀ c', c' ≠ c → s'.run c' = some p → v ≠ some p := fun c' hc hp hvp => by
      rw [hrun c' hc] at hp
      refine hb c' ?_
      rw [agent_of_some hp, ← hv, hvp]
      rfl
    by_cases hc1 : c1 = c
    · by_cases hc2 : c2 = c
      · exact hc1.trans hc2.symm
      · rw [hc1, hrunself] at h1
        exact absurd h1 (honly c2 hc2 h2)
    · by_cases hc2 : c2 = c
      · rw [hc2, hrunself] at h2
        exact absurd h2 (honly c1 hc1 h1)
      · rw [hrun _ hc1] at h1
        rw [hrun _ hc2] at h2
        exact h.unique c1 c2 p h1 h2
  · rw [hctx]
    split_ifs
    · exact hon.pc.2
    · exact hfresh
    · exact h.loop c'

/-- `sched` passes its tests and gives the CPU to `scheduler`. -/
lemma Inv.sched (hrun : s.run c = some p) (hpc : (s.cur c).pc = .normal)
    (hheld : (s.cur c).held = [plock p]) (hpushes : (s.cur c).pushes = 0) :
    s.lock (plock p) = some c ∧ (s.cpu c).noff = 1 ∧ (s.cpu c).sie = false ∧
    Inv { s with
      run := update s.run c none
      ctx := update (update s.ctx (.inr p)
          { s.cur c with pc := .away, held := [], saved := (s.cpu c).intena })
        (.inl c) { s.ctx (.inl c) with pc := .resumed, held := [plock p] } } := by
  have hon := h.on c
  obtain ⟨hnot, hpushes', hwas⟩ := h.scheduler_away hrun
  have hdepth : (s.cur c).depth = 1 := by rw [Ctx.depth, hheld, hpushes, hpc]; rfl
  have hpos : 0 < (s.cur c).depth := by omega
  have hnoff : (s.cpu c).noff = 1 := by rw [hon.noff, hdepth]; rfl
  have hdepth' : Ctx.depth { s.ctx (.inl c) with pc := .resumed, held := [plock p] } = 1 := by
    rw [Ctx.depth]
    change 1 + (s.ctx (.inl c)).pushes + 0 = 1
    rw [hpushes']
  refine ⟨(h.lock _ c).mpr (by rw [hheld]; exact List.mem_singleton_self _), hnoff, hon.sie hpos,
    h.switch (agent_of_some hrun) rfl hnot ⟨⟨nofun, nofun⟩, ?_, fun _ => hon.sie hpos,
      fun _ hne => absurd rfl hne, fun _ => ⟨hwas.symm, hdepth'⟩⟩
      ⟨.inl rfl, rfl, hpushes, fun _ => ?_⟩
      nofun hheld.symm (h.selecting c (by rw [hrun]; nofun)) fun _ => ⟨hon.sie hpos, fun _ => hwas⟩⟩
  · rw [hnoff, hdepth']
    rfl
  · exact hon.intena hpos (by rw [hpc]; nofun)

lemma Inv.alloc (hpc : (s.ctx (.inr p)).pc = .away) :
    Inv { s with ctx := update s.ctx (.inr p) { s.ctx (.inr p) with pc := .fresh } } := by
  have hnot := h.not_on (.inl hpc)
  have hoff := h.off _ hnot
  refine .of_okAt (fun c => ?_) (fun a ha => ?_) h.unique fun c => ?_
  · exact (h.okAt c).congr rfl (update_of_ne (hnot c) ..) rfl (fun _ => Iff.rfl) rfl
  · change Off (restored a (update s.ctx (.inr p) _ a)) (update s.ctx (.inr p) _ a)
    by_cases hap : a = .inr p
    · subst hap
      rw [update_self]
      exact ⟨.inr rfl, hoff.held, hoff.pushes, nofun⟩
    · rw [update_of_ne hap]
      exact h.off a ha
  · change (update s.ctx (.inr p) { s.ctx (.inr p) with pc := .fresh } (.inl c)).pc ≠ .fresh
    rw [update_of_ne Sum.inl_ne_inr]
    exact h.loop c

lemma Inv.restore (hpc : (s.cur c).pc = .resumed) :
    (s.set c { s.cpu c with intena := restored (s.agent c) (s.cur c) }
      { s.cur c with pc := .normal }).Inv := by
  have hon := h.on c
  obtain ⟨hsaved, hdepth⟩ := hon.resumed hpc
  have hsame : Ctx.depth { s.cur c with pc := .normal } = (s.cur c).depth := by
    rw [Ctx.depth, Ctx.depth, hpc]
  refine h.setCpu rfl ⟨⟨nofun, nofun⟩, ?_, fun hd => hon.sie (hsame ▸ hd), fun _ _ => hsaved, nofun⟩
    fun hrun hsel => ?_
  · rw [hsame]
    exact hon.noff
  · obtain ⟨h1, h2⟩ := h.quiet c hrun hsel
    exact ⟨h1, fun hd => h2 (hsame ▸ hd)⟩

end

variable [DecidableEq L]

lemma Inv.take (h : s.Inv) {l : L} (hpc : (s.cur c).pc = .spinning l) (hfree : s.lock l = none) :
    Inv { s.set c (s.cpu c) { s.cur c with pc := .normal, held := l :: (s.cur c).held } with
      lock := update s.lock l (some c) } := by
  have hdepth : Ctx.depth { s.cur c with pc := .normal, held := l :: (s.cur c).held } =
      (s.cur c).depth := by
    rw [Ctx.depth, Ctx.depth, hpc]
    change ((s.cur c).held.length + 1) + (s.cur c).pushes + 0 = _ + 1
    omega
  have hnot : l ∉ (s.cur c).held := fun hl => by
    rw [(h.lock l c).mpr hl] at hfree
    cases hfree
  have hon := h.on c
  refine h.set (f := s.selecting) ?_ (fun l' => ?_) (fun l' c' hc => ?_)
    (List.nodup_cons.mpr ⟨hnot, h.nodup c⟩) (fun _ _ => rfl) (h.selecting c) ?_
  · refine ⟨⟨nofun, nofun⟩, by rw [hdepth]; exact hon.noff, fun hd => hon.sie (hdepth ▸ hd),
      fun hd _ => hon.intena (hdepth ▸ hd) (by rw [hpc]; nofun), nofun⟩
  · rw [update_apply, List.mem_cons]
    split_ifs with hl
    · exact iff_of_true rfl (.inl hl)
    · rw [h.lock l' c]
      exact ⟨.inr, fun hm => hm.resolve_left hl⟩
  · rw [update_apply]
    split_ifs with hl
    · rw [hl, hfree]
      exact iff_of_false (fun he => hc (Option.some.inj he).symm) nofun
    · exact Iff.rfl
  · intro hrun hsel
    obtain ⟨h1, h2⟩ := h.quiet c hrun hsel
    exact ⟨h1, fun hd => h2 (hdepth ▸ hd)⟩

/-- `release` up to `pop_off`: any lock the thread holds. -/
lemma Inv.release (h : s.Inv) {l : L} (hpc : (s.cur c).pc = .normal) (hl : l ∈ (s.cur c).held) :
    s.lock l = some c ∧
    Inv { s.set c (s.cpu c) { s.cur c with pc := .popping, held := (s.cur c).held.erase l } with
      lock := update s.lock l none } := by
  have hdepth : Ctx.depth { s.cur c with pc := .popping, held := (s.cur c).held.erase l } =
      (s.cur c).depth := by
    have hpos := List.length_pos_of_mem hl
    rw [Ctx.depth, Ctx.depth, hpc]
    change ((s.cur c).held.erase l).length + (s.cur c).pushes + 1 = _ + 0
    rw [List.length_erase_of_mem hl]
    omega
  have hlock := (h.lock l c).mpr hl
  have hon := h.on c
  refine ⟨hlock, h.set (f := s.selecting) ?_ (fun l' => ?_) (fun l' c' hc => ?_)
    ((h.nodup c).erase l) (fun _ _ => rfl) (h.selecting c) ?_⟩
  · exact ⟨⟨nofun, nofun⟩, by rw [hdepth]; exact hon.noff, fun hd => hon.sie (hdepth ▸ hd),
      fun hd _ => hon.intena (hdepth ▸ hd) (by rw [hpc]; nofun), nofun⟩
  · rw [update_apply, (h.nodup c).mem_erase_iff]
    split_ifs with hl'
    · exact iff_of_false nofun fun hm => hm.1 hl'
    · rw [h.lock l' c]
      exact ⟨fun hm => ⟨hl', hm⟩, fun hm => hm.2⟩
  · rw [update_apply]
    split_ifs with hl'
    · rw [hl', hlock]
      exact iff_of_false nofun fun he => hc (Option.some.inj he).symm
    · exact Iff.rfl
  · intro hrun hsel
    obtain ⟨h1, h2⟩ := h.quiet c hrun hsel
    exact ⟨h1, fun hd => h2 (hdepth ▸ hd)⟩

/-- `scheduler` gives the CPU to a process, which goes on in `sched` or begins in `forkret`. -/
lemma Inv.swtch (h : s.Inv) (hrun : s.run c = none) (hsel : s.selecting c = true)
    (hpc : (s.cur c).pc = .normal) (hheld : (s.cur c).held = [plock p])
    (hpushes : (s.cur c).pushes = 0)
    (hpc' : (s.ctx (.inr p)).pc = .away ∨ (s.ctx (.inr p)).pc = .fresh) :
    Inv { s with
      run := update s.run c (some p)
      ctx := update (update s.ctx (.inl c) { s.cur c with pc := .away, held := [] }) (.inr p)
        (if (s.ctx (.inr p)).pc = .fresh then
          { s.ctx (.inr p) with pc := .normal, held := [plock p], was := (s.cur c).was }
        else { s.ctx (.inr p) with pc := .resumed, held := [plock p] }) } := by
  have hon := h.on c
  have hnot := h.not_on hpc'
  have hoff := h.off _ hnot
  have hdepth : (s.cur c).depth = 1 := by rw [Ctx.depth, hheld, hpushes, hpc]; rfl
  have hpos : 0 < (s.cur c).depth := by omega
  have hnoff : (s.cpu c).noff = 1 := by rw [hon.noff, hdepth]; rfl
  have hone : 1 + (s.ctx (.inr p)).pushes + 0 = 1 := by rw [hoff.pushes]
  have hwas := (h.quiet c hrun hsel).2 hpos
  refine h.switch (agent_of_none hrun) rfl hnot ?_ ⟨.inl rfl, rfl, hpushes, fun _ => hwas.symm⟩
    nofun ?_ hsel nofun
  · split_ifs with hfresh
    · -- the new thread is as the `scheduler` was
      exact ⟨⟨nofun, nofun⟩, hnoff.trans (congrArg Nat.cast hone.symm), fun _ => hon.sie hpos,
        fun _ _ => hon.intena hpos (by rw [hpc]; nofun), nofun⟩
    · exact ⟨⟨nofun, nofun⟩, hnoff.trans (congrArg Nat.cast hone.symm), fun _ => hon.sie hpos,
        fun _ hne => absurd rfl hne, fun _ => ⟨hoff.saved (hpc'.resolve_right hfresh), hone⟩⟩
  · rw [hheld]
    split_ifs <;> rfl

/-- A step with a `pop_off`: the last one restores the interrupts. -/
lemma Inv.popped (h : s.Inv) {a : IntrAct C P L} {o : Except IntrPanic (Intr C P L)}
    (ha : a = .pop c ∨ a = .popOff c) (hact : s.act plock a = some o) :
    ∃ t, o = .ok t ∧ t.Inv ∧ ((t.cpu c).noff = 0 → (t.cpu c).sie = (s.cur c).was) := by
  have hcpu : ∀ x t, (s.set c x t).cpu c = x := fun _ _ => update_self ..
  rcases ha with rfl | rfl
  · rw [Intr.act] at hact
    split_ifs at hact with hpc
    have hdepth : (s.cur c).depth = Ctx.depth { s.cur c with pc := .normal } + 1 := by
      rw [Ctx.depth, Ctx.depth, hpc]
      rfl
    obtain ⟨x, hpop, hinv, hlast⟩ := h.pop (t := { s.cur c with pc := .normal })
      (by rw [hpc]; nofun) rfl hdepth rfl rfl
    rw [hpop] at hact
    cases hact
    exact ⟨_, rfl, hinv, by rwa [hcpu]⟩
  · rw [Intr.act] at hact
    split_ifs at hact with hpc
    have hdepth : (s.cur c).depth =
        Ctx.depth { s.cur c with pushes := (s.cur c).pushes - 1 } + 1 := by
      have hpos := hpc.2
      rw [Ctx.depth, Ctx.depth]
      dsimp only
      omega
    obtain ⟨x, hpop, hinv, hlast⟩ := h.pop (t := { s.cur c with pushes := (s.cur c).pushes - 1 })
      (by rw [hpc.1]; nofun) rfl hdepth rfl hpc.1
    rw [hpop] at hact
    cases hact
    exact ⟨_, rfl, hinv, by rwa [hcpu]⟩

/-- **Every step** can be made, and keeps the invariant. -/
lemma Inv.act (h : s.Inv) {a : IntrAct C P L} {o : Except IntrPanic (Intr C P L)}
    (hact : s.act plock a = some o) : ∃ t, o = .ok t ∧ t.Inv := by
  cases a with
  | pushOff c =>
    rw [Intr.act] at hact
    split_ifs at hact with hpc
    cases hact
    refine ⟨_, rfl, h.push hpc rfl ?_ rfl ?_⟩
    · rw [Ctx.depth, Ctx.depth]
      change (s.cur c).held.length + ((s.cur c).pushes + 1) + _ = _
      exact Nat.add_right_comm _ 1 _
    · change (s.cur c).pc ≠ .away ∧ (s.cur c).pc ≠ .fresh ∧ (s.cur c).pc ≠ .resumed
      rw [hpc]
      exact ⟨nofun, nofun, nofun⟩
  | popOff c =>
    obtain ⟨t, ht, hinv, _⟩ := h.popped (.inr rfl) hact
    exact ⟨t, ht, hinv⟩
  | acquire c l =>
    rw [Intr.act] at hact
    split_ifs at hact with hpc hlock
    · exact absurd ((h.lock l c).mp hlock) hpc.2
    · cases hact
      refine ⟨_, rfl, h.push hpc.1 rfl ?_ rfl ⟨nofun, nofun, nofun⟩⟩
      rw [Ctx.depth, Ctx.depth, hpc.1]
      rfl
  | take c =>
    rw [Intr.act] at hact
    split at hact
    · rename_i l hpc
      split_ifs at hact with hfree
      cases hact
      exact ⟨_, rfl, h.take hpc hfree⟩
    · cases hact
  | release c l =>
    rw [Intr.act] at hact
    split_ifs at hact with hpc hlock
    · exact absurd (h.release hpc.1 hpc.2).1 hlock
    · cases hact
      exact ⟨_, rfl, (h.release hpc.1 hpc.2).2⟩
  | pop c =>
    obtain ⟨t, ht, hinv, _⟩ := h.popped (.inl rfl) hact
    exact ⟨t, ht, hinv⟩
  | setIntr c on =>
    rw [Intr.act] at hact
    split_ifs at hact with hpc
    cases hact
    obtain ⟨hnormal, hdepth, hloop⟩ := hpc
    have hon := h.on c
    refine ⟨_, rfl, h.setCpu rfl { hon with sie := ?_ } ?_⟩
    · intro hd
      omega
    · intro hrun hsel
      rw [hloop hrun] at hsel
      cases hsel
  | select c =>
    rw [Intr.act] at hact
    split_ifs at hact with hpc
    cases hact
    obtain ⟨hrun, hsel, hnormal, hdepth⟩ := hpc
    have hon := h.on c
    refine ⟨_, rfl, h.set (k := s.lock) { hon with sie := fun _ => rfl }
      (fun l => h.lock l c) (fun _ _ _ => Iff.rfl) (h.nodup c)
      (fun c' hc => update_of_ne hc _ _) (fun hne => absurd hrun hne) ?_⟩
    intro _ _
    refine ⟨rfl, fun hd => ?_⟩
    omega
  | finish c =>
    rw [Intr.act] at hact
    split_ifs at hact with hpc
    cases hact
    refine ⟨_, rfl, { h with
      selecting := fun c' hc' => ?_
      quiet := fun c' hrun hsel => ?_ }⟩
    · have hne : c' ≠ c := fun he => hc' (he ▸ hpc.1)
      change update s.selecting c false c' = true
      rw [update_of_ne hne]
      exact h.selecting c' hc'
    · change update s.selecting c false c' = true at hsel
      rw [update_apply] at hsel
      split_ifs at hsel
      exact h.quiet c' hrun hsel
  | sched c =>
    rw [Intr.act] at hact
    split at hact
    · cases hact
    · rename_i p hrun
      by_cases hpc : (s.cur c).pc = .normal ∧ (s.cur c).held = [plock p] ∧ (s.cur c).pushes = 0
      · obtain ⟨hlock, hnoff, hsie, hinv⟩ := h.sched hrun hpc.1 hpc.2.1 hpc.2.2
        rw [if_pos hpc, if_neg (not_not.mpr hlock), if_neg (not_not.mpr hnoff), hsie,
          if_neg Bool.false_ne_true] at hact
        cases hact
        exact ⟨_, rfl, hinv⟩
      · rw [if_neg hpc] at hact
        cases hact
  | swtch c p =>
    rw [Intr.act] at hact
    by_cases hpc : s.run c = none ∧ s.selecting c = true ∧ (s.cur c).pc = .normal ∧
        (s.cur c).held = [plock p] ∧ (s.cur c).pushes = 0 ∧
        ((s.ctx (.inr p)).pc = .away ∨ (s.ctx (.inr p)).pc = .fresh)
    · rw [if_pos hpc] at hact
      cases hact
      obtain ⟨hrun, hsel, hnormal, hheld, hpushes, hpc'⟩ := hpc
      exact ⟨_, rfl, h.swtch hrun hsel hnormal hheld hpushes hpc'⟩
    · rw [if_neg hpc] at hact
      cases hact
  | restore c =>
    rw [Intr.act] at hact
    split_ifs at hact with hpc
    cases hact
    exact ⟨_, rfl, h.restore hpc⟩
  | alloc p =>
    rw [Intr.act] at hact
    split_ifs at hact with hpc
    cases hact
    exact ⟨_, rfl, h.alloc hpc⟩

lemma Reachable.inv (h : Reachable plock s) : s.Inv := by
  induction h with
  | init => exact inv_init
  | step hs hact ih =>
    obtain ⟨t, ht, hinv⟩ := ih.act hact
    cases ht
    exact hinv

/-- **Interrupts and spinlocks**, in every run. Interrupts are off on a CPU while the thread on it
holds a spinlock. `noff` counts the locks the thread holds and its other calls of `push_off`. No
step panics, and `sched` is entered with `noff` 1. When the last `push_off` of a thread is undone
interrupts are what they were when it made the first one. -/
theorem interrupt_nesting (h : Reachable plock s) :
    (∀ c, (s.cur c).held ≠ [] → (s.cpu c).sie = false) ∧
    (∀ c, (s.cpu c).noff = (s.cur c).depth) ∧
    (∀ a e, s.act plock a ≠ some (.error e)) ∧
    (∀ c o, s.act plock (.sched c) = some o → (s.cpu c).noff = 1) ∧
    ∀ a t c, a = .pop c ∨ a = .popOff c → s.act plock a = some (.ok t) → (t.cpu c).noff = 0 →
      (t.cpu c).sie = (s.cur c).was := by
  have hinv := h.inv
  refine ⟨fun c hheld => (hinv.on c).sie ?_, fun c => (hinv.on c).noff, fun a e herr => ?_,
    fun c o hact => ?_, fun a t c ha hact => ?_⟩
  · have hlen := List.length_pos_iff.mpr hheld
    rw [Ctx.depth]
    omega
  · obtain ⟨t, ht, -⟩ := hinv.act herr
    cases ht
  · rw [Intr.act] at hact
    split at hact
    · cases hact
    · rename_i p hrun
      by_cases hpc : (s.cur c).pc = .normal ∧ (s.cur c).held = [plock p] ∧ (s.cur c).pushes = 0
      · exact (hinv.sched hrun hpc.1 hpc.2.1 hpc.2.2).2.1
      · rw [if_neg hpc] at hact
        cases hact
  · obtain ⟨t', ht, -, hlast⟩ := hinv.popped ha hact
    cases ht
    exact hlast

def runs (plock : P → L) (s : Intr C P L) : List (IntrAct C P L) → Option (Intr C P L) :=
  Transition.runOk (Intr.act plock) s

lemma Reachable.runs {t : Intr C P L} {as : List (IntrAct C P L)} (hs : Reachable plock s)
    (h : s.runs plock as = some t) : Reachable plock t :=
  Transition.runOk_invariant (fun _ _ _ hs hstep => hs.step hstep) hs h

/-- A thread begins on one CPU, turns interrupts on, takes its lock, gives up the CPU and goes on
with another one, up to the last `pop_off`. -/
def migration : List (IntrAct Bool Unit Unit) :=
  [.select false, .acquire false (), .take false, .swtch false (), .release false (), .pop false,
    .setIntr false true, .acquire false (), .take false, .sched false, .restore false,
    .release false (), .pop false, .select true, .acquire true (), .take true, .swtch true (),
    .restore true, .release true ()]

/-- Interrupts are on again after it. -/
theorem interrupt_nesting_migration : ∃ s : Intr Bool Unit Unit, Reachable id s ∧
    s.run true = some () ∧ (s.cpu true).noff = 1 ∧ (s.cur true).was = true ∧
    ∀ t, s.act id (.pop true) = some (.ok t) → (t.cpu true).noff = 0 → (t.cpu true).sie = true := by
  have hruns : ((init : Intr Bool Unit Unit).runs id migration).map
      (fun s => (s.run true, (s.cpu true).noff, (s.cur true).was)) = some (some (), 1, true) := by
    decide +kernel
  obtain ⟨s, hs, heq⟩ := Option.map_eq_some_iff.mp hruns
  obtain ⟨hrun, heq⟩ := Prod.ext_iff.mp heq
  obtain ⟨hnoff, hwas⟩ := Prod.ext_iff.mp heq
  have hreach : Reachable id s := Reachable.init.runs hs
  refine ⟨s, hreach, hrun, hnoff, hwas, fun t ht hzero => ?_⟩
  exact ((interrupt_nesting hreach).2.2.2.2 _ t true (.inl rfl) ht hzero).trans hwas

end Intr

end Xv6Riscv
