import Mathlib.Logic.Function.Basic
import Mathlib.Logic.Relation
import Mathlib.Tactic

/-!
Waiting for a condition under a lock.

Processes wait on a channel in two halves: a process first registers, then goes to sleep, and a
wakeup examines the places of the processes one after another and clears the registrations it
finds. `Waiters` says what is needed of such a table; everything else that happens to it, sleeping
included, may drop registrations but not make any.

A monitor is a lock with data under it and, for each process, a condition on the data it waits for.
A process that finds its condition false registers before it releases the lock; whoever makes a
condition true goes through a wakeup before it releases the lock.

* `Covered`: while a condition holds and a process waiting for it is registered, the holder of the
  lock owes a wakeup or has not come to the place of the process yet.
* `Step.covered`: every step keeps it.
* `not_waiting`: so no process is registered when its condition holds and the lock is free.
-/

namespace Monitor

variable {κ P σ : Type*}

/-- Tables of processes that wait on one channel. -/
structure Waiters (κ P : Type*) where
  /-- the process is registered -/
  reg : κ → P → Prop
  /-- the place at which a wakeup examines the process -/
  place : P → ℕ
  size : ℕ
  place_lt : ∀ p, place p < size
  /-- the process registers -/
  prepare : P → κ → κ → Prop
  /-- a wakeup examines a place -/
  wake : ℕ → κ → κ → Prop
  /-- the process goes to sleep, if it is still registered -/
  sleep : P → κ → κ → Prop
  /-- anything else -/
  other : κ → κ → Prop
  reg_prepare : ∀ {p k k'}, prepare p k k' → ∀ {q}, reg k' q → q = p ∨ reg k q
  reg_wake : ∀ {j k k'}, wake j k k' → ∀ {q}, reg k' q → reg k q ∧ place q ≠ j
  reg_sleep : ∀ {p k k'}, sleep p k k' → ∀ {q}, reg k' q → reg k q
  reg_other : ∀ {k k'}, other k k' → ∀ {q}, reg k' q → reg k q

/-- What the holder of the lock is doing. -/
inductive Phase
  /-- reading and writing the data; `owes` if it has made a condition true -/
  | busy (owes : Bool)
  /-- in a wakeup, about to examine the place `j` -/
  | waking (j : ℕ)
  /-- about to release the lock after having registered -/
  | prepared

/-- A monitor over a table of processes. -/
@[ext] structure State (κ P σ : Type*) where
  table : κ
  data : σ
  /-- the process that holds the lock -/
  holder : Option (P × Phase)
  /-- the processes that have released the lock to go to sleep -/
  pending : P → Bool

/-- The steps of the processes, and of whoever else uses the table. -/
inductive Step [DecidableEq P] (W : Waiters κ P) (cond : P → σ → Prop) :
    State κ P σ → State κ P σ → Prop
  | acquire {s : State κ P σ} {p : P} (h : s.holder = none) (hp : s.pending p = false) :
      Step W cond s { s with holder := some (p, .busy false) }
  /-- the holder writes the data; it owes a wakeup from the moment it makes a condition true -/
  | write {s : State κ P σ} {p : P} {b b' : Bool} {d : σ} (h : s.holder = some (p, .busy b))
      (hb : b = true → b' = true) (hcond : ∀ q, cond q d → ¬ cond q s.data → b' = true) :
      Step W cond s { s with data := d, holder := some (p, .busy b') }
  | startWake {s : State κ P σ} {p : P} {b : Bool} (h : s.holder = some (p, .busy b)) :
      Step W cond s { s with holder := some (p, .waking 0) }
  | wake {s : State κ P σ} {p : P} {j : ℕ} {k : κ} (h : s.holder = some (p, .waking j))
      (hj : j < W.size) (hk : W.wake j s.table k) :
      Step W cond s { s with table := k, holder := some (p, .waking (j + 1)) }
  | endWake {s : State κ P σ} {p : P} (h : s.holder = some (p, .waking W.size)) :
      Step W cond s { s with holder := some (p, .busy false) }
  /-- the holder finds its condition false and registers -/
  | prepare {s : State κ P σ} {p : P} {k : κ} (h : s.holder = some (p, .busy false))
      (hcond : ¬ cond p s.data) (hk : W.prepare p s.table k) :
      Step W cond s { s with table := k, holder := some (p, .prepared) }
  | release {s : State κ P σ} {p : P} (h : s.holder = some (p, .busy false)) :
      Step W cond s { s with holder := none }
  | releasePrepared {s : State κ P σ} {p : P} (h : s.holder = some (p, .prepared)) :
      Step W cond s { s with holder := none, pending := Function.update s.pending p true }
  | sleep {s : State κ P σ} {p : P} {k : κ} (hp : s.pending p = true)
      (hk : W.sleep p s.table k) :
      Step W cond s { s with table := k, pending := Function.update s.pending p false }
  | other {s : State κ P σ} {k : κ} (hk : W.other s.table k) :
      Step W cond s { s with table := k }

/-- The holder will still come to the place `n`. -/
def Phase.Reaches (n : ℕ) : Phase → Prop
  | busy owes => owes = true
  | waking j => j ≤ n
  | prepared => False

/-- Every registered process whose condition holds is going to be examined. -/
def Covered (W : Waiters κ P) (cond : P → σ → Prop) (s : State κ P σ) : Prop :=
  ∀ p, W.reg s.table p → cond p s.data → ∃ q ph, s.holder = some (q, ph) ∧ ph.Reaches (W.place p)

variable {W : Waiters κ P} {cond : P → σ → Prop} {s s' : State κ P σ}

lemma Covered.reaches (h : Covered W cond s) {q : P} {ph : Phase} (hq : s.holder = some (q, ph))
    {p : P} (hreg : W.reg s.table p) (hcond : cond p s.data) : ph.Reaches (W.place p) := by
  obtain ⟨q', ph', hq', hr⟩ := h p hreg hcond
  rw [hq] at hq'
  cases hq'
  exact hr

/-- A table in which no process is registered, with the lock free. -/
def Initial (W : Waiters κ P) (s : State κ P σ) : Prop :=
  (∀ p, ¬ W.reg s.table p) ∧ s.holder = none ∧ ∀ p, s.pending p = false

lemma Initial.covered (h : Initial W s) : Covered W cond s :=
  fun p hreg => absurd hreg (h.1 p)

variable [DecidableEq P]

/-- **Every step keeps the waiting processes covered.** -/
theorem Step.covered (h : Covered W cond s) (hstep : Step W cond s s') : Covered W cond s' := by
  intro p hreg hcond
  cases hstep with
  | @acquire q hfree hq =>
    obtain ⟨q', ph, hq', -⟩ := h p hreg hcond
    rw [hfree] at hq'
    cases hq'
  | @write q b b' d hq hb hnew =>
    refine ⟨q, .busy b', rfl, ?_⟩
    by_cases hold : cond p s.data
    · exact hb (h.reaches hq hreg hold)
    · exact hnew p hcond hold
  | @startWake q b hq => exact ⟨q, .waking 0, rfl, Nat.zero_le _⟩
  | @wake q j k hq hj hk =>
    obtain ⟨hreg', hne⟩ := W.reg_wake hk hreg
    have hle : j ≤ W.place p := h.reaches hq hreg' hcond
    exact ⟨q, .waking (j + 1), rfl, lt_of_le_of_ne hle (Ne.symm hne)⟩
  | @endWake q hq =>
    -- the wakeup has passed every place
    have hle : W.size ≤ W.place p := h.reaches hq hreg hcond
    exact absurd (W.place_lt p) (not_lt.mpr hle)
  | @prepare q k hq hfalse hk =>
    rcases W.reg_prepare hk hreg with rfl | hreg'
    · exact absurd hcond hfalse
    · exact absurd (h.reaches hq hreg' hcond) (by simp [Phase.Reaches])
  | @release q hq => exact absurd (h.reaches hq hreg hcond) (by simp [Phase.Reaches])
  | @releasePrepared q hq => exact absurd (h.reaches hq hreg hcond) id
  | sleep _ hk => exact h p (W.reg_sleep hk hreg) hcond
  | other hk => exact h p (W.reg_other hk hreg) hcond

lemma covered_of_run (h : Initial W s) (hrun : Relation.ReflTransGen (Step W cond) s s') :
    Covered W cond s' := by
  induction hrun with
  | refl => exact h.covered
  | tail _ hstep ih => exact hstep.covered ih

/-- **No lost wakeup**: when the lock is free, no process waits for a condition that holds. -/
theorem not_waiting (h : Initial W s) (hrun : Relation.ReflTransGen (Step W cond) s s')
    (hfree : s'.holder = none) {p : P} (hreg : W.reg s'.table p) : ¬ cond p s'.data := by
  intro hcond
  obtain ⟨q, ph, hq, -⟩ := covered_of_run h hrun p hreg hcond
  rw [hfree] at hq
  cases hq

end Monitor
