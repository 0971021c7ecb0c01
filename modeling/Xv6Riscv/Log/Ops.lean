import Xv6Riscv.Lib.Transition
import Xv6Riscv.Lib.Update
import Xv6Riscv.Log.Commit

/-!
File-system operations and the log (`begin_op`, `log_write`, `end_op` and `sys_sync`).

Any number of processes call these functions. Each section that runs with `log.lock` held is one
step; a process that sleeps on `&log` may test its condition again at any time, which covers every
wakeup. `commit()` runs without the lock, between the section of `end_op` that sets
`log.committing` and the one that clears it: its return, at which `lh.n` is zero, is a step of its
own. The state carries the history the properties speak about: which operations have ended, which of
them belong to transactions that have been committed, and who has logged which block since the last
commit.

* `LogSys.Step`: the steps, and `LogSys.step_iff`: they are those of the executable `LogSys.step`.
* `LogSys.Inv`: what holds in every state, whatever the operations log.
* `LogSys.reservation_invariant`: with operations that add at most `MAXOPBLOCKS` blocks, the log has
  room for what they may still add.
* `LogSys.operations_all_or_nothing`: a crash leaves all operations of a transaction or none.
* `LogSys.in_budget_panics_iff`: with operations that log at most `MAXOPBLOCKS` blocks, the only
  call that panics is a repeated `log_write` when the log is full.
-/

namespace Xv6Riscv

open Function (update)

/-! ### The sections under `log.lock` -/

/-- The fields of `struct log` that `log.lock` protects; `lh` is `lh.block[0..lh.n)`. `outstanding`
is at most 3 in every run (`LogSys.Reachable.outstanding_le`), so an integer will do for it.
`ncommit` grows with every commit and wraps around. -/
structure LogVars where
  outstanding : ℤ
  committing : Bool
  ncommit : Int32
  lh : List Blockno

/-- The panics of `log.c`. -/
inductive LogPanic
  /-- "too big a transaction" -/
  | tooBig
  /-- "log_write outside of trans" -/
  | outsideOfTrans
  /-- "log.committing" -/
  | committing
  deriving DecidableEq, Repr

namespace LogVars

/-- A turn of the loop of `begin_op`; `none` means that the process sleeps and tries again. -/
def beginOp (l : LogVars) : Option LogVars :=
  if l.committing then none
  else if (logblocks : ℤ) < l.lh.length + (l.outstanding + 1) * maxopblocks then none
  else some { l with outstanding := l.outstanding + 1 }

def logWrite (l : LogVars) (b : Blockno) : Except LogPanic LogVars :=
  if logblocks ≤ l.lh.length then .error .tooBig
  else if l.outstanding < 1 then .error .outsideOfTrans
  else
    -- the first `i` with `block[i] == blockno`, or `n`
    let i := l.lh.idxOf b
    .ok { l with lh := if i = l.lh.length then l.lh ++ [b] else l.lh.set i b }

/-- The first section of `end_op`, with `do_commit`. -/
def endOp (l : LogVars) : Except LogPanic (LogVars × Bool) :=
  let l := { l with outstanding := l.outstanding - 1 }
  if l.committing then .error .committing
  else if l.outstanding = 0 then .ok ({ l with committing := true }, true)
  else .ok (l, false)

/-- The second section of `end_op`. -/
def endCommit (l : LogVars) : LogVars := { l with committing := false, ncommit := l.ncommit + 1 }

/-- The beginning of `sys_sync`: the value of `ncommit` it waits for, if it waits. -/
def syncTarget (l : LogVars) : Option Int32 :=
  if l.committing ∨ 0 < l.outstanding then some (l.ncommit + 1) else none

variable {l l' : LogVars} {b : Blockno}

lemma beginOp_eq_some : l.beginOp = some l' ↔
    l.committing = false ∧ (l.lh.length : ℤ) + (l.outstanding + 1) * maxopblocks ≤ logblocks ∧
      l' = { l with outstanding := l.outstanding + 1 } := by
  rw [beginOp]
  split_ifs with hc hfull
  · simp [hc]
  · refine ⟨nofun, fun h => ?_⟩
    omega
  · rw [Option.some.injEq]
    exact ⟨fun h => ⟨by simpa using hc, not_lt.mp hfull, h.symm⟩, fun h => h.2.2.symm⟩

/-- Absorption leaves the list alone; a new block goes to its end. -/
lemma logWrite_list (l : List Blockno) (b : Blockno) :
    (if l.idxOf b = l.length then l ++ [b] else l.set (l.idxOf b) b)
      = if b ∈ l then l else l ++ [b] := by
  by_cases hb : b ∈ l
  · have hlt := List.idxOf_lt_length_iff.mpr hb
    rw [if_pos hb, if_neg hlt.ne]
    conv_rhs => rw [← List.set_getElem_self hlt]
    rw [List.getElem_idxOf hlt]
  · rw [if_neg hb, if_pos (List.idxOf_eq_length_iff.mpr hb)]

lemma logWrite_eq_ok : l.logWrite b = .ok l' ↔
    l.lh.length < logblocks ∧ 1 ≤ l.outstanding ∧
      l' = { l with lh := if b ∈ l.lh then l.lh else l.lh ++ [b] } := by
  simp only [logWrite, logWrite_list]
  by_cases hfull : logblocks ≤ l.lh.length
  · rw [if_pos hfull]
    exact ⟨nofun, fun h => absurd h.1 (not_lt.mpr hfull)⟩
  · rw [if_neg hfull]
    by_cases hout : l.outstanding < 1
    · rw [if_pos hout]
      exact ⟨nofun, fun h => absurd h.2.1 (not_le.mpr hout)⟩
    · rw [if_neg hout, Except.ok.injEq]
      exact ⟨fun h => ⟨not_le.mp hfull, not_lt.mp hout, h.symm⟩, fun h => h.2.2.symm⟩

lemma endOp_eq_ok {doCommit : Bool} : l.endOp = .ok (l', doCommit) ↔
    l.committing = false ∧ doCommit = decide (l.outstanding = 1) ∧
      l' = { l with outstanding := l.outstanding - 1, committing := doCommit } := by
  obtain ⟨outstanding, committing, ncommit, lh⟩ := l
  have hz : outstanding - 1 = 0 ↔ outstanding = 1 := sub_eq_zero
  cases committing with
  | true => simp [endOp]
  | false =>
    simp only [endOp, hz, Bool.false_eq_true, if_false, true_and]
    split_ifs with hone
    · simp only [hone, decide_true, Except.ok.injEq, Prod.mk.injEq]
      constructor
      · rintro ⟨rfl, rfl⟩
        exact ⟨rfl, rfl⟩
      · rintro ⟨rfl, rfl⟩
        exact ⟨rfl, rfl⟩
    · simp only [hone, decide_false, Except.ok.injEq, Prod.mk.injEq]
      constructor
      · rintro ⟨rfl, rfl⟩
        exact ⟨rfl, rfl⟩
      · rintro ⟨rfl, rfl⟩
        exact ⟨rfl, rfl⟩

end LogVars

/-! ### The processes -/

/-- Where a process is. An operation is known by its number; `added` counts the blocks it has added
to the log and `written` lists the blocks it has logged. A process in `sys_sync` waits for `ncommit`
to reach `n`, and `before` are the operations that had ended when it acquired the lock. -/
inductive LogPc
  | outside
  | beginOp
  | inOp (id added : ℕ) (written : List Blockno)
  | commit
  | endCommit
  | sync (n : Int32) (before : List ℕ)
  deriving DecidableEq

/-- Whether the process is in an operation, as a number. -/
def LogPc.ops : LogPc → ℕ
  | inOp _ _ _ => 1
  | _ => 0

/-- Whether the process is committing, as a number. -/
def LogPc.commits : LogPc → ℕ
  | commit | endCommit => 1
  | _ => 0

/-- The blocks the operation of a process may still add. -/
def LogPc.left : LogPc → ℕ
  | inOp _ added _ => maxopblocks - added
  | _ => 0

/-- The operation has not added all the blocks it may. -/
def LogPc.MayAdd : LogPc → Prop
  | inOp _ added _ => added < maxopblocks
  | _ => True

instance : DecidablePred LogPc.MayAdd := fun x => by
  rcases x with ⟨⟩ <;> unfold LogPc.MayAdd <;> infer_instance

/-- The operation has logged this block, or has not logged all the blocks it may. -/
def LogPc.MayLog (b : Blockno) : LogPc → Prop
  | inOp _ _ written => b ∈ written ∨ written.length < maxopblocks
  | _ => True

instance (b : Blockno) : DecidablePred (LogPc.MayLog b) := fun x => by
  rcases x with ⟨⟩ <;> unfold LogPc.MayLog <;> infer_instance

lemma LogPc.left_inOp (id added : ℕ) (written : List Blockno) :
    (inOp id added written).left = maxopblocks - added := rfl

/-- The log with its processes and its history: how many operations have begun, which have ended,
and of these which belong to the transaction being filled (`unsaved`), to the one being committed
(`saving`) and to those whose `commit()` has returned (`durable`); and which operation has logged
which block since the last commit. -/
structure LogSys (ι : Type*) where
  log : LogVars
  pc : ι → LogPc
  begun : ℕ
  ended : List ℕ
  unsaved : List ℕ
  saving : List ℕ
  durable : List ℕ
  logged : List (ℕ × Blockno)

/-- The steps, by the process that makes them. -/
inductive LogAction (ι : Type*)
  /-- `begin_op` tests its conditions -/
  | beginOp (p : ι)
  | logWrite (p : ι) (b : Blockno)
  | endOp (p : ι)
  /-- `commit()` returns -/
  | commit (p : ι)
  /-- the second section of `end_op` -/
  | endCommit (p : ι)
  /-- `sys_sync` acquires the lock -/
  | sync (p : ι)
  /-- the loop of `sys_sync` tests its condition -/
  | syncTest (p : ι)
  deriving DecidableEq

namespace LogSys

variable {ι : Type*}

/-- The log after `initlog`, with all processes outside of it. -/
def init (ι : Type*) : LogSys ι where
  log := { outstanding := 0, committing := false, ncommit := 0, lh := [] }
  pc _ := .outside
  begun := 0
  ended := []
  unsaved := []
  saving := []
  durable := []
  logged := []

section Steps

variable [DecidableEq ι]

/-- Process `p` goes on to `x`. -/
def goto (s : LogSys ι) (p : ι) (x : LogPc) : LogSys ι := { s with pc := Function.update s.pc p x }

/-- `begin_op` returns to `p`, which is now in an operation. -/
def didBegin (s : LogSys ι) (p : ι) (l : LogVars) : LogSys ι :=
  { s.goto p (.inOp s.begun 0 []) with log := l, begun := s.begun + 1 }

/-- `log_write` has returned to `p`. -/
def didWrite (s : LogSys ι) (p : ι) (b : Blockno) (id added : ℕ) (written : List Blockno)
    (l : LogVars) : LogSys ι :=
  { s.goto p (.inOp id (if b ∈ s.log.lh then added else added + 1) (written.insert b)) with
    log := l
    logged := (id, b) :: s.logged }

/-- The first section of `end_op`, by which operation `id` of `p` ends and may start a commit. -/
def didEnd (s : LogSys ι) (p : ι) (id : ℕ) (l : LogVars) (doCommit : Bool) : LogSys ι :=
  { s.goto p (if doCommit then .commit else .outside) with
    log := l
    ended := id :: s.ended
    unsaved := if doCommit then [] else id :: s.unsaved
    saving := if doCommit then id :: s.unsaved else s.saving }

/-- `commit()` returns to `p`. -/
def didCommit (s : LogSys ι) (p : ι) : LogSys ι :=
  { s.goto p .endCommit with
    log := { s.log with lh := [] }
    saving := []
    durable := s.saving ++ s.durable
    logged := [] }

/-- One step, where it is possible: the state after it, or the panic. -/
def step (s : LogSys ι) : LogAction ι → Option (Except LogPanic (LogSys ι))
  | .beginOp p =>
    match s.pc p with
    | .outside | .beginOp =>
      match s.log.beginOp with
      | some l => some (.ok (s.didBegin p l))
      | none => some (.ok (s.goto p .beginOp))
    | _ => none
  | .logWrite p b =>
    match s.pc p with
    | .inOp id added written => some ((s.log.logWrite b).map (s.didWrite p b id added written))
    | _ => none
  | .endOp p =>
    match s.pc p with
    | .inOp id _ _ => some (s.log.endOp.map fun (l, doCommit) => s.didEnd p id l doCommit)
    | _ => none
  | .commit p => if s.pc p = .commit then some (.ok (s.didCommit p)) else none
  | .endCommit p =>
    if s.pc p = .endCommit then some (.ok { s.goto p .outside with log := s.log.endCommit })
    else none
  | .sync p =>
    if s.pc p = .outside then
      match s.log.syncTarget with
      | some n => some (.ok (s.goto p (.sync n s.ended)))
      | none => some (.ok s)
    else none
  | .syncTest p =>
    match s.pc p with
    | .sync n _ => if s.log.ncommit < n then some (.ok s) else some (.ok (s.goto p .outside))
    | _ => none

/-- The steps that do not panic, with their conditions. -/
inductive Step (s : LogSys ι) : LogAction ι → LogSys ι → Prop
  | didBegin {p : ι} {l : LogVars} (hpc : s.pc p = .outside ∨ s.pc p = .beginOp)
      (hl : s.log.beginOp = some l) : Step s (.beginOp p) (s.didBegin p l)
  | wait {p : ι} (hpc : s.pc p = .outside ∨ s.pc p = .beginOp) (hl : s.log.beginOp = none) :
      Step s (.beginOp p) (s.goto p .beginOp)
  | logWrite {p : ι} {b : Blockno} {id added : ℕ} {written : List Blockno} {l : LogVars}
      (hpc : s.pc p = .inOp id added written) (hl : s.log.logWrite b = .ok l) :
      Step s (.logWrite p b) (s.didWrite p b id added written l)
  | endOp {p : ι} {id added : ℕ} {written : List Blockno} {l : LogVars} {doCommit : Bool}
      (hpc : s.pc p = .inOp id added written) (hl : s.log.endOp = .ok (l, doCommit)) :
      Step s (.endOp p) (s.didEnd p id l doCommit)
  | commit {p : ι} (hpc : s.pc p = .commit) : Step s (.commit p) (s.didCommit p)
  | endCommit {p : ι} (hpc : s.pc p = .endCommit) :
      Step s (.endCommit p) { s.goto p .outside with log := s.log.endCommit }
  | syncWait {p : ι} {n : Int32} (hpc : s.pc p = .outside) (hn : s.log.syncTarget = some n) :
      Step s (.sync p) (s.goto p (.sync n s.ended))
  | syncIdle {p : ι} (hpc : s.pc p = .outside) (hn : s.log.syncTarget = none) : Step s (.sync p) s
  | syncSleep {p : ι} {n : Int32} {before : List ℕ} (hpc : s.pc p = .sync n before)
      (hn : s.log.ncommit < n) : Step s (.syncTest p) s
  | syncReturn {p : ι} {n : Int32} {before : List ℕ} (hpc : s.pc p = .sync n before)
      (hn : n ≤ s.log.ncommit) : Step s (.syncTest p) (s.goto p .outside)

variable {a : LogAction ι}

/-- **The steps are those the executable function makes.** -/
lemma step_iff {s t : LogSys ι} : s.step a = some (.ok t) ↔ Step s a t := by
  constructor
  · intro h
    cases a with
    | beginOp p =>
      simp only [step] at h
      split at h
      · rename_i hpc
        split at h
        · rename_i l hl
          cases h
          exact .didBegin (.inl hpc) hl
        · rename_i hl
          cases h
          exact .wait (.inl hpc) hl
      · rename_i hpc
        split at h
        · rename_i l hl
          cases h
          exact .didBegin (.inr hpc) hl
        · rename_i hl
          cases h
          exact .wait (.inr hpc) hl
      · cases h
    | logWrite p b =>
      simp only [step] at h
      split at h
      · rename_i id added written hpc
        cases hl : s.log.logWrite b with
        | error e =>
          rw [hl] at h
          cases h
        | ok l =>
          rw [hl] at h
          cases h
          exact .logWrite hpc hl
      · cases h
    | endOp p =>
      simp only [step] at h
      split at h
      · rename_i id added written hpc
        cases hl : s.log.endOp with
        | error e =>
          rw [hl] at h
          cases h
        | ok r =>
          rw [hl] at h
          cases h
          exact .endOp hpc hl
      · cases h
    | commit p =>
      simp only [step] at h
      split_ifs at h with hpc
      cases h
      exact .commit hpc
    | endCommit p =>
      simp only [step] at h
      split_ifs at h with hpc
      cases h
      exact .endCommit hpc
    | sync p =>
      simp only [step] at h
      split_ifs at h with hpc
      split at h
      · rename_i n hn
        cases h
        exact .syncWait hpc hn
      · rename_i hn
        cases h
        exact .syncIdle hpc hn
    | syncTest p =>
      simp only [step] at h
      split at h
      · rename_i n before hpc
        split_ifs at h with hn
        · cases h
          exact .syncSleep hpc hn
        · cases h
          exact .syncReturn hpc (Int32.not_lt.mp hn)
      · cases h
  · intro h
    cases h with
    | didBegin hpc hl | wait hpc hl => rcases hpc with hpc | hpc <;> simp [step, hpc, hl]
    | logWrite hpc hl | endOp hpc hl => simp [step, hpc, hl, Except.map]
    | commit hpc | endCommit hpc => simp [step, hpc]
    | syncWait hpc hn | syncIdle hpc hn | syncSleep hpc hn => simp [step, hpc, hn]
    | syncReturn hpc hn => simp [step, hpc, Int32.not_lt.mpr hn]

/-- The states of the runs whose steps all satisfy `P`. -/
inductive Reachable (P : LogSys ι → LogAction ι → Prop) : LogSys ι → Prop
  | init : Reachable P (init ι)
  | step {s t : LogSys ι} {a : LogAction ι} (hs : Reachable P s) (ha : P s a) (h : Step s a t) :
      Reachable P t

/-- The state after a list of steps that all satisfy `P`, if they are possible and do not panic. -/
def runIn (P : LogSys ι → LogAction ι → Prop) [∀ s a, Decidable (P s a)] (s : LogSys ι) :
    List (LogAction ι) → Option (LogSys ι) :=
  Transition.runOk (fun s a => if P s a then s.step a else none) s

variable {P : LogSys ι → LogAction ι → Prop}

lemma Reachable.runIn [∀ s a, Decidable (P s a)] {s t : LogSys ι} {as : List (LogAction ι)}
    (hs : Reachable P s) (h : s.runIn P as = some t) : Reachable P t := by
  refine Transition.runOk_invariant (fun s a t hs hstep => ?_) hs h
  split_ifs at hstep with ha
  exact hs.step ha (step_iff.mp hstep)

variable {s : LogSys ι} {p q : ι} {x : LogPc}

@[simp] lemma goto_self : (s.goto p x).pc p = x := Function.update_self ..

lemma goto_of_ne (h : q ≠ p) : (s.goto p x).pc q = s.pc q := Function.update_of_ne h ..

end Steps

/-! ### What holds in every state -/

variable [Fintype ι]

/-- Whatever the operations log: `outstanding` counts them; at most one process commits, and then
none is in an operation; `lh` lists different blocks, those logged since the last commit, by
operations that run or belong to this transaction; every operation that has ended belongs to some
transaction, and those a process in `sys_sync` waits for are durable once `ncommit` has grown,
unless the value it waits for has wrapped around. -/
structure Inv (s : LogSys ι) : Prop where
  outstanding : s.log.outstanding = ((∑ p, (s.pc p).ops : ℕ) : ℤ)
  committing : ∑ p, (s.pc p).commits = if s.log.committing then 1 else 0
  idle : s.log.committing = true → s.log.outstanding = 0
  nodup : s.log.lh.Nodup
  written : ∀ p id added written, s.pc p = .inOp id added written →
    written.Nodup ∧ added ≤ written.length ∧ written ⊆ s.log.lh
  unsaved : s.unsaved ≠ [] → 0 < s.log.outstanding
  saving : s.saving ≠ [] → s.log.committing = true
  endCommit : ∀ p, s.pc p = .endCommit → s.saving = []
  lh : ∀ b, b ∈ s.log.lh ↔ ∃ id, (id, b) ∈ s.logged
  logged : ∀ x ∈ s.logged, (∃ p added written, s.pc p = .inOp x.1 added written) ∨
    x.1 ∈ s.unsaved ∨ x.1 ∈ s.saving
  ended : ∀ id, id ∈ s.ended ↔ id ∈ s.unsaved ∨ id ∈ s.saving ∨ id ∈ s.durable
  sync : ∀ p n before, s.pc p = .sync n before →
    before ⊆ s.ended ∧ (n ≠ Int32.minValue → n ≤ s.log.ncommit → before ⊆ s.durable)

/-- What the invariant says of a process at a place. -/
def Placed (s : LogSys ι) : LogPc → Prop
  | .inOp _ added written => written.Nodup ∧ added ≤ written.length ∧ written ⊆ s.log.lh
  | .endCommit => s.saving = []
  | .sync n before => before ⊆ s.ended ∧
      (n ≠ Int32.minValue → n ≤ s.log.ncommit → before ⊆ s.durable)
  | _ => True

lemma inv_init : (init ι).Inv where
  outstanding := by simp [init, LogPc.ops]
  committing := by simp [init, LogPc.commits]
  idle := nofun
  nodup := List.nodup_nil
  written := nofun
  unsaved h := absurd rfl h
  saving h := absurd rfl h
  endCommit := nofun
  lh b := by simp [init]
  logged := nofun
  ended id := by simp [init]
  sync := nofun

variable {s t : LogSys ι} {p q : ι} {x y : LogPc}

lemma Inv.placed (h : s.Inv) (p : ι) : s.Placed (s.pc p) := by
  cases hp : s.pc p with
  | inOp id added written => exact h.written p id added written hp
  | endCommit => exact h.endCommit p hp
  | sync n before => exact h.sync p n before hp
  | _ => trivial

lemma le_sum (f : LogPc → ℕ) (p : ι) : f (s.pc p) ≤ ∑ q, f (s.pc q) :=
  Finset.single_le_sum (f := fun q => f (s.pc q)) (fun _ _ => Nat.zero_le _) (Finset.mem_univ p)

lemma Inv.not_commits (h : s.Inv) (hc : s.log.committing = false) (p : ι) :
    (s.pc p).commits = 0 := by
  have hle := le_sum (s := s) LogPc.commits p
  rw [h.committing, hc] at hle
  exact Nat.le_zero.mp hle

lemma Inv.committing_of (h : s.Inv) (hp : (s.pc p).commits = 1) : s.log.committing = true := by
  by_contra hc
  have := h.not_commits (Bool.not_eq_true _ ▸ hc) p
  omega

/-- **While a process commits no other is in an operation.** -/
lemma Inv.not_inOp (h : s.Inv) (hc : s.log.committing = true) (p : ι) : (s.pc p).ops = 0 := by
  have hle := le_sum (s := s) LogPc.ops p
  have hout := h.outstanding
  rw [h.idle hc] at hout
  omega

/-- **Nothing that has ended is unsaved when the log is idle or has just been committed.** -/
lemma Inv.ended_subset_durable (h : s.Inv) (hout : s.log.outstanding ≤ 0) (hs : s.saving = []) :
    s.ended ⊆ s.durable := by
  intro id hid
  have hunsaved : s.unsaved = [] := by
    by_contra hne
    have := h.unsaved hne
    omega
  rcases (h.ended id).mp hid with hid | hid | hid
  · rw [hunsaved] at hid
    cases hid
  · rw [hs] at hid
    cases hid
  · exact hid

/-- What is listed during a commit has been logged by the operations that are being saved. -/
lemma Inv.mem_lh_iff (h : s.Inv) (hp : s.pc p = .commit) (b : Blockno) :
    b ∈ s.log.lh ↔ ∃ id ∈ s.saving, (id, b) ∈ s.logged := by
  have hc := h.committing_of (p := p) (by rw [hp]; rfl)
  refine (h.lh b).trans (exists_congr fun id => ⟨fun hid => ⟨?_, hid⟩, And.right⟩)
  rcases h.logged _ hid with ⟨q, added, written, hq⟩ | hun | hsaving
  · have hops := h.not_inOp hc q
    rw [hq] at hops
    cases hops
  · have hpos := h.unsaved (List.ne_nil_of_mem hun)
    rw [h.idle hc] at hpos
    exact absurd hpos (lt_irrefl 0)
  · exact hsaving

/-- What `begin_op` reserves is enough for the operations that run. -/
lemma sum_left_le (s : LogSys ι) : ∑ p, (s.pc p).left ≤ maxopblocks * ∑ p, (s.pc p).ops := by
  rw [Finset.mul_sum]
  refine Finset.sum_le_sum fun p _ => ?_
  cases s.pc p with
  | inOp id added written => exact Nat.sub_le _ _
  | _ => exact Nat.zero_le _

lemma lt_add_one {n : Int32} (h : n + 1 ≠ Int32.minValue) : n < n + 1 := by
  have hle := n.toInt_lt
  have hge := n.le_toInt
  have hmin : (n + 1).toInt ≠ -2 ^ 31 := fun he => h (Int32.toInt_inj.mp he)
  rw [Int32.lt_iff_toInt_lt]
  rw [Int32.toInt_add, Int32.toInt_one, Int.bmod_def] at hmin ⊢
  split_ifs at hmin ⊢ <;> omega

variable [DecidableEq ι]

/-- **One process moves**: the counters follow it, its new place is fine, and so are still the
places of the others. -/
lemma Inv.moved (h : s.Inv) (hpc : t.pc = update s.pc p x)
    (hout : t.log.outstanding + (s.pc p).ops = s.log.outstanding + x.ops)
    (hcom : (if t.log.committing then 1 else 0) + (s.pc p).commits
      = (if s.log.committing then 1 else 0) + x.commits)
    (hx : t.Placed x) (hall : ∀ q, s.Placed (s.pc q) → t.Placed (s.pc q))
    (hidle : t.log.committing = true → t.log.outstanding = 0) (hnodup : t.log.lh.Nodup)
    (hunsaved : t.unsaved ≠ [] → 0 < t.log.outstanding)
    (hsaving : t.saving ≠ [] → t.log.committing = true)
    (hlh : ∀ b, b ∈ t.log.lh ↔ ∃ id, (id, b) ∈ t.logged)
    (hlogged : ∀ y ∈ t.logged, (∃ q added written, t.pc q = .inOp y.1 added written) ∨
      y.1 ∈ t.unsaved ∨ y.1 ∈ t.saving)
    (hended : ∀ id, id ∈ t.ended ↔ id ∈ t.unsaved ∨ id ∈ t.saving ∨ id ∈ t.durable) : t.Inv := by
  have hplaced : ∀ q, t.Placed (t.pc q) := by
    rw [hpc, Function.forall_update_iff s.pc fun _ y => t.Placed y]
    exact ⟨hx, fun q _ => hall q (h.placed q)⟩
  have hops := Upd.sum (g := s.pc) (p := p) (x := x) LogPc.ops
  have hcommits := Upd.sum (g := s.pc) (p := p) (x := x) LogPc.commits
  rw [← hpc] at hops hcommits
  constructor
  case outstanding =>
    have := h.outstanding
    omega
  case committing =>
    have := h.committing
    omega
  case written => exact fun q id added written hq => by have := hplaced q; rwa [hq] at this
  case endCommit => exact fun q hq => by have := hplaced q; rwa [hq] at this
  case sync => exact fun q n before hq => by have := hplaced q; rwa [hq] at this
  all_goals assumption

/-- What is logged is still accounted for when a process moves that is not in an operation. -/
lemma Inv.logged_goto (h : s.Inv) (hp : (s.pc p).ops = 0) : ∀ y ∈ s.logged,
    (∃ q added written, (s.goto p x).pc q = .inOp y.1 added written) ∨
      y.1 ∈ s.unsaved ∨ y.1 ∈ s.saving := by
  intro y hy
  rcases h.logged y hy with ⟨q, added, written, hq⟩ | hy
  · refine .inl ⟨q, added, written, (goto_of_ne ?_).trans hq⟩
    rintro rfl
    rw [hq] at hp
    cases hp
  · exact .inr hy

lemma Inv.goto (h : s.Inv) (hp : (s.pc p).ops = 0 ∧ (s.pc p).commits = 0)
    (hx : x.ops = 0 ∧ x.commits = 0) (hplace : s.Placed x) : (s.goto p x).Inv :=
  h.moved rfl (by rw [hp.1, hx.1]; rfl) (by rw [hp.2, hx.2]; rfl) hplace (fun _ hq => hq) h.idle
    h.nodup h.unsaved h.saving h.lh (h.logged_goto hp.1) h.ended

omit [DecidableEq ι] [Fintype ι] in
lemma ops_of_begin (hpc : s.pc p = .outside ∨ s.pc p = .beginOp) :
    (s.pc p).ops = 0 ∧ (s.pc p).commits = 0 := by
  rcases hpc with hpc | hpc <;> rw [hpc] <;> exact ⟨rfl, rfl⟩

lemma Inv.didBegin (h : s.Inv) {l : LogVars} (hpc : s.pc p = .outside ∨ s.pc p = .beginOp)
    (hl : s.log.beginOp = some l) : (s.didBegin p l).Inv := by
  obtain ⟨hc, -, rfl⟩ := LogVars.beginOp_eq_some.mp hl
  obtain ⟨hops, hcom⟩ := ops_of_begin hpc
  exact h.moved rfl (by rw [hops]; exact add_zero _) (by rw [hcom]; rfl)
    ⟨List.nodup_nil, le_refl 0, List.nil_subset _⟩ (fun _ hq => hq)
    (fun hcom => absurd (hc.symm.trans hcom) (by decide)) h.nodup
    (fun hne => add_pos (h.unsaved hne) one_pos) h.saving h.lh (h.logged_goto hops) h.ended

variable {added : ℕ}

lemma Inv.didWrite (h : s.Inv) {l : LogVars} {b : Blockno} {id : ℕ} {written : List Blockno}
    (hpc : s.pc p = .inOp id added written) (hl : s.log.logWrite b = .ok l) :
    (s.didWrite p b id added written l).Inv := by
  obtain ⟨-, -, rfl⟩ := LogVars.logWrite_eq_ok.mp hl
  obtain ⟨hnd, hle, hsub⟩ := h.written p id added written hpc
  have hmem : ∀ c, c ∈ (if b ∈ s.log.lh then s.log.lh else s.log.lh ++ [b]) ↔
      c ∈ s.log.lh ∨ c = b := by
    intro c
    split_ifs with hb
    · exact ⟨.inl, fun hc => hc.elim (fun hc => hc) fun hc => hc ▸ hb⟩
    · simp
  have hx : ∀ c ∈ written.insert b, c ∈ s.log.lh ∨ c = b := by
    intro c hc
    rcases List.mem_insert_iff.mp hc with rfl | hc
    · exact .inr rfl
    · exact .inl (hsub hc)
  refine h.moved rfl (by rw [hpc]; rfl) (by rw [hpc]; rfl)
    ⟨hnd.insert, ?_, fun c hc => (hmem c).mpr (hx c hc)⟩
    (fun q hq => ?_) h.idle ?_ h.unsaved h.saving
    (fun c => (hmem c).trans ⟨fun hc => ?_, fun ⟨i, hi⟩ => ?_⟩) ?_ h.ended
  · by_cases hb : b ∈ written
    · rw [if_pos (hsub hb), List.insert_of_mem hb]
      exact hle
    · rw [List.insert_of_not_mem hb, List.length_cons]
      split_ifs <;> omega
  · cases hy : s.pc q with
    | inOp id' added' written' =>
      rw [hy] at hq
      exact ⟨hq.1, hq.2.1, fun c hc => (hmem c).mpr (.inl (hq.2.2 hc))⟩
    | _ => rwa [hy] at hq
  · show (if b ∈ s.log.lh then s.log.lh else s.log.lh ++ [b]).Nodup
    split_ifs with hb
    · exact h.nodup
    · rw [List.nodup_append]
      exact ⟨h.nodup, List.nodup_singleton b, fun c hc d hd =>
        List.mem_singleton.mp hd ▸ fun he => hb (he ▸ hc)⟩
  · rcases hc with hc | rfl
    · obtain ⟨i, hi⟩ := (h.lh c).mp hc
      exact ⟨i, List.mem_cons_of_mem _ hi⟩
    · exact ⟨id, List.mem_cons_self ..⟩
  · rcases List.mem_cons.mp hi with he | hi
    · cases he
      exact .inr rfl
    · exact .inl ((h.lh c).mpr ⟨i, hi⟩)
  · -- the process that logs is still in its operation
    intro y hy
    rcases List.mem_cons.mp hy with rfl | hy
    · exact .inl ⟨p, _, _, goto_self⟩
    · rcases h.logged y hy with ⟨q, added', written', hq⟩ | hy
      · by_cases hqp : q = p
        · subst hqp
          rw [hpc] at hq
          cases hq
          exact .inl ⟨q, _, _, goto_self⟩
        · exact .inl ⟨q, added', written', (goto_of_ne hqp).trans hq⟩
      · exact .inr hy

lemma Inv.didEnd (h : s.Inv) {l : LogVars} {id : ℕ} {written : List Blockno} {doCommit : Bool}
    (hpc : s.pc p = .inOp id added written) (hl : s.log.endOp = .ok (l, doCommit)) :
    (s.didEnd p id l doCommit).Inv := by
  obtain ⟨hc, hdo, rfl⟩ := LogVars.endOp_eq_ok.mp hl
  have hsaving : s.saving = [] := by
    by_contra hne
    have := h.saving hne
    rw [hc] at this
    cases this
  have hpos := h.outstanding.symm ▸ Nat.cast_le.mpr (le_sum (s := s) LogPc.ops p)
  rw [hpc] at hpos
  refine h.moved (x := if doCommit then .commit else .outside) rfl ?_ ?_ ?_ (fun q hq => ?_)
    (fun hcom => ?_) h.nodup (fun hne => ?_) (fun hne => ?_) h.lh (fun y hy => ?_) fun i => ?_
  · rw [hpc]
    cases doCommit <;> exact (sub_add_cancel ..).trans (add_zero _).symm
  · rw [hpc, hc]
    cases doCommit <;> rfl
  · cases doCommit <;> trivial
  · cases hy : s.pc q with
    | endCommit =>
      have := h.not_commits hc q
      rw [hy] at this
      cases this
    | sync n before =>
      rw [hy] at hq
      exact ⟨fun i hi => List.mem_cons_of_mem _ (hq.1 hi), hq.2⟩
    | _ => rwa [hy] at hq
  · exact sub_eq_zero.mpr (of_decide_eq_true (hdo.symm.trans hcom))
  · cases doCommit with
    | true => exact absurd rfl hne
    | false =>
      have hone : s.log.outstanding ≠ 1 := of_decide_eq_false hdo.symm
      exact sub_pos.mpr (lt_of_le_of_ne hpos hone.symm)
  · cases doCommit with
    | true => rfl
    | false => exact absurd hsaving hne
  · have hnew : y.1 = id ∨ y.1 ∈ s.unsaved →
        y.1 ∈ (if doCommit then [] else id :: s.unsaved) ∨
          y.1 ∈ (if doCommit then id :: s.unsaved else s.saving) := by
      intro hmem
      cases doCommit with
      | true => exact .inr (List.mem_cons.mpr hmem)
      | false => exact .inl (List.mem_cons.mpr hmem)
    rcases h.logged y hy with ⟨q, added', written', hq⟩ | hy | hy
    · by_cases hqp : q = p
      · subst hqp
        rw [hpc] at hq
        cases hq
        exact .inr (hnew (.inl rfl))
      · exact .inl ⟨q, added', written', (goto_of_ne hqp).trans hq⟩
    · exact .inr (hnew (.inr hy))
    · rw [hsaving] at hy
      cases hy
  · have hi := h.ended i
    rw [hsaving] at hi
    cases doCommit <;> simp [LogSys.didEnd, LogSys.goto, hi, hsaving, or_assoc]

lemma Inv.didCommit (h : s.Inv) (hpc : s.pc p = .commit) : (s.didCommit p).Inv := by
  have hc := h.committing_of (p := p) (by rw [hpc]; rfl)
  refine h.moved rfl (by rw [hpc]; rfl) (by rw [hpc]; rfl) rfl (fun q hq => ?_) h.idle
    List.nodup_nil h.unsaved (absurd rfl) (by simp [LogSys.didCommit]) nofun fun i => ?_
  · cases hy : s.pc q with
    | inOp id added written =>
      have := h.not_inOp hc q
      rw [hy] at this
      cases this
    | endCommit => rfl
    | sync n before =>
      rw [hy] at hq
      exact ⟨hq.1, fun hn hle i hi => List.mem_append_right _ (hq.2 hn hle hi)⟩
    | _ => trivial
  · simp only [LogSys.didCommit, List.not_mem_nil, false_or, List.mem_append]
    exact h.ended i

lemma Inv.didEndCommit (h : s.Inv) (hpc : s.pc p = .endCommit) :
    Inv { s.goto p .outside with log := s.log.endCommit } := by
  have hc := h.committing_of (p := p) (by rw [hpc]; rfl)
  have hsaving := h.endCommit p hpc
  refine h.moved rfl (by rw [hpc]; rfl) (by rw [hpc, hc]; rfl) trivial
    (fun q hq => ?_) nofun h.nodup h.unsaved (absurd hsaving) h.lh
    (h.logged_goto (by rw [hpc]; rfl)) h.ended
  cases hy : s.pc q with
  | sync n before =>
    -- when `ncommit` grows, everything that has ended is durable
    rw [hy] at hq
    have hall := h.ended_subset_durable (h.idle hc).le hsaving
    exact ⟨hq.1, fun _ _ i hi => hall (hq.1 hi)⟩
  | _ => rwa [hy] at hq

/-- **Every step keeps the invariant.** -/
theorem Inv.step (h : s.Inv) (hstep : Step s a t) : t.Inv := by
  cases hstep with
  | didBegin hpc hl => exact h.didBegin hpc hl
  | wait hpc hl => exact h.goto (ops_of_begin hpc) ⟨rfl, rfl⟩ trivial
  | logWrite hpc hl => exact h.didWrite hpc hl
  | endOp hpc hl => exact h.didEnd hpc hl
  | commit hpc => exact h.didCommit hpc
  | endCommit hpc => exact h.didEndCommit hpc
  | syncWait hpc hn =>
    refine h.goto (ops_of_begin (.inl hpc)) ⟨rfl, rfl⟩ ?_
    rw [LogVars.syncTarget] at hn
    split_ifs at hn
    cases hn
    exact ⟨List.Subset.refl _, fun hmin hle => absurd hle (Int32.not_le.mpr (lt_add_one hmin))⟩
  | syncIdle hpc hn => exact h
  | syncSleep hpc hn => exact h
  | syncReturn hpc hn => exact h.goto (by rw [hpc]; exact ⟨rfl, rfl⟩) ⟨rfl, rfl⟩ trivial

lemma Reachable.inv (h : Reachable P s) : s.Inv := by
  induction h with
  | init => exact inv_init
  | step _ _ hstep ih => exact ih.step hstep

lemma Reachable.mono {Q : LogSys ι → LogAction ι → Prop} (h : Reachable P s)
    (hPQ : ∀ s a, s.Inv → P s a → Q s a) : Reachable Q s := by
  induction h with
  | init => exact .init
  | step hs ha hstep ih => exact .step ih (hPQ _ _ hs.inv ha) hstep

/-! ### Reservation -/

/-- An operation that has added `MAXOPBLOCKS` blocks does not log a block that is not in the log. -/
def AddsInBudget (s : LogSys ι) : LogAction ι → Prop
  | .logWrite p b => b ∈ s.log.lh ∨ (s.pc p).MayAdd
  | _ => True

instance (s : LogSys ι) (a : LogAction ι) : Decidable (s.AddsInBudget a) := by
  rcases a with ⟨⟩ <;> unfold AddsInBudget <;> infer_instance

/-- The log has room for what the operations may still add. -/
structure Reserved (s : LogSys ι) : Prop where
  room : s.log.lh.length + ∑ p, (s.pc p).left ≤ logblocks
  added : ∀ p id added written, s.pc p = .inOp id added written → added ≤ maxopblocks

lemma Reserved.goto (h : s.Reserved) (hx : x.left = 0 ∧ x.ops = 0) : (s.goto p x).Reserved where
  room := by
    have hsum := Upd.sum (g := s.pc) (p := p) (x := x) LogPc.left
    have hroom := h.room
    show s.log.lh.length + ∑ q, (update s.pc p x q).left ≤ logblocks
    omega
  added q id added written hq := by
    rcases Upd.cases (fun y => y) hq with ⟨-, rfl⟩ | ⟨-, hq⟩
    · cases hx.2
    · exact h.added q id added written hq

lemma Reserved.didBegin (h : s.Reserved) (hinv : s.Inv) {l : LogVars}
    (hl : s.log.beginOp = some l) : (s.didBegin p l).Reserved := by
  obtain ⟨-, hfit, rfl⟩ := LogVars.beginOp_eq_some.mp hl
  constructor
  · have hsum := Upd.sum (g := s.pc) (p := p) (x := .inOp s.begun 0 []) LogPc.left
    have hleft := sum_left_le s
    have hout := hinv.outstanding
    show s.log.lh.length + ∑ q, (update s.pc p (.inOp s.begun 0 []) q).left ≤ logblocks
    rw [LogPc.left_inOp] at hsum
    simp only [maxopblocks, logblocks] at hsum hleft hfit ⊢
    push_cast at hfit
    omega
  · intro q id added written hq
    rcases Upd.cases (fun y => y) hq with ⟨-, hx⟩ | ⟨-, hq⟩
    · cases hx
      exact Nat.zero_le _
    · exact h.added q id added written hq

lemma Reserved.didWrite (h : s.Reserved) {l : LogVars} {b : Blockno} {id : ℕ}
    {written : List Blockno} (hpc : s.pc p = .inOp id added written) (hl : s.log.logWrite b = .ok l)
    (hb : b ∈ s.log.lh ∨ added < maxopblocks) : (s.didWrite p b id added written l).Reserved := by
  obtain ⟨-, -, rfl⟩ := LogVars.logWrite_eq_ok.mp hl
  have hadded := h.added p id added written hpc
  have hroom := h.room
  constructor
  · have hsum := Upd.sum (g := s.pc) (p := p)
      (x := .inOp id (if b ∈ s.log.lh then added else added + 1) (written.insert b)) LogPc.left
    rw [hpc, LogPc.left_inOp, LogPc.left_inOp] at hsum
    show (if b ∈ s.log.lh then s.log.lh else s.log.lh ++ [b]).length +
      ∑ q, (update s.pc p _ q).left ≤ logblocks
    -- a new block is paid for by the operation that adds it
    by_cases hmem : b ∈ s.log.lh
    · simp only [if_pos hmem] at hsum ⊢
      omega
    · have hlt := hb.resolve_left hmem
      simp only [if_neg hmem, List.length_append, List.length_singleton] at hsum ⊢
      omega
  · intro q id' added' written' hq
    rcases Upd.cases (fun y => y) hq with ⟨-, hx⟩ | ⟨-, hq⟩
    · cases hx
      split_ifs with hmem
      · exact hadded
      · exact hb.resolve_left hmem
    · exact h.added q id' added' written' hq

/-- **Every step in the budget keeps the reservation.** -/
lemma Reserved.step (h : s.Reserved) (hinv : s.Inv) (ha : s.AddsInBudget a) (hstep : Step s a t) :
    t.Reserved := by
  cases hstep with
  | didBegin hpc hl => exact h.didBegin hinv hl
  | wait hpc hl | syncWait hpc hn | syncReturn hpc hn => exact h.goto ⟨rfl, rfl⟩
  | logWrite hpc hl =>
    rw [AddsInBudget, hpc] at ha
    exact h.didWrite hpc hl ha
  | endOp hpc hl =>
    rename_i p id added written l doCommit
    obtain ⟨-, -, rfl⟩ := LogVars.endOp_eq_ok.mp hl
    have hgoto := h.goto (p := p) (x := if doCommit then .commit else .outside)
      (by cases doCommit <;> exact ⟨rfl, rfl⟩)
    exact ⟨hgoto.room, hgoto.added⟩
  | commit hpc =>
    rename_i p
    have hgoto := h.goto (p := p) (x := .endCommit) ⟨rfl, rfl⟩
    exact ⟨le_trans (Nat.add_le_add_right (Nat.zero_le _) _) hgoto.room, hgoto.added⟩
  | endCommit hpc =>
    rename_i p
    have hgoto := h.goto (p := p) (x := .outside) ⟨rfl, rfl⟩
    exact ⟨hgoto.room, hgoto.added⟩
  | syncIdle hpc hn => exact h
  | syncSleep hpc hn => exact h

lemma Reachable.reserved (h : Reachable AddsInBudget s) : s.Reserved := by
  induction h with
  | init => exact ⟨by simp [LogSys.init, LogPc.left], nofun⟩
  | step hs ha hstep ih => exact ih.step hs.inv ha hstep

/-- **What is committed is a transaction of the log**: with whatever is in the buffers, the blocks
listed when `commit()` is called are different and fit the slots of the log, so that the theorem on
crashes applies to it. -/
lemma Reachable.fits (h : Reachable AddsInBudget s) {start : Blockno}
    (hhome : ∀ b ∈ s.log.lh, (Log.layout start).Home b) (cache : Disk) :
    (Log.layout start).Fits (s.log.lh.map fun b => (b, cache b)) where
  nodup := by
    rw [List.map_map]
    exact (List.map_id _).symm ▸ h.inv.nodup
  length_le := by
    rw [List.length_map]
    exact (Nat.le_add_right _ _).trans h.reserved.room
  home w hw := by
    obtain ⟨b, hb, rfl⟩ := List.mem_map.mp hw
    exact hhome b hb

/-- **The reservation invariant.** Any number of processes call `begin_op`, `log_write`, `end_op`
and `sys_sync` in any order, and no operation adds more than `MAXOPBLOCKS` blocks to the log. Then
whenever `log.lock` is free: the blocks in the log and the blocks the outstanding operations may
still add are at most `LOGBLOCKS`; no block is listed twice; while `log.committing` is set there is
no outstanding operation and nobody can call `log_write`; and each block of a transaction that is
being committed has been logged by operations that have all called `end_op`. -/
theorem reservation_invariant (h : Reachable AddsInBudget s) :
    (s.log.lh.length + ∑ p, (s.pc p).left ≤ logblocks ∧
      ∀ p id added written, s.pc p = .inOp id added written → added ≤ maxopblocks) ∧
    s.log.lh.Nodup ∧
    (s.log.committing = true → s.log.outstanding = 0 ∧ ∀ p b, s.step (.logWrite p b) = none) ∧
    (∀ p, s.pc p = .commit → ∀ b ∈ s.log.lh, (∃ id, (id, b) ∈ s.logged) ∧
      ∀ id, (id, b) ∈ s.logged → id ∈ s.ended ∧ id ∈ s.saving) := by
  have hinv := h.inv
  refine ⟨⟨h.reserved.room, h.reserved.added⟩, hinv.nodup, fun hc => ⟨hinv.idle hc, fun p b => ?_⟩,
    fun p hp b hb => ⟨(hinv.lh b).mp hb, fun id hid => ?_⟩⟩
  · have hops := hinv.not_inOp hc p
    rw [LogSys.step]
    cases hpc : s.pc p with
    | inOp id added written =>
      rw [hpc] at hops
      cases hops
    | _ => rfl
  · have hc := hinv.committing_of (p := p) (by rw [hp]; rfl)
    -- it is not running, and nothing is unsaved
    have hsaving : id ∈ s.saving := by
      rcases hinv.logged _ hid with ⟨q, added, written, hq⟩ | hid | hid
      · have hops := hinv.not_inOp hc q
        rw [hq] at hops
        cases hops
      · have hpos := hinv.unsaved (List.ne_nil_of_mem hid)
        rw [hinv.idle hc] at hpos
        exact absurd hpos (lt_irrefl 0)
      · exact hid
    exact ⟨(hinv.ended id).mpr (.inr (.inl hsaving)), hsaving⟩

/-- Two processes are in operations and one of them has logged a block twice. -/
def twoOps (p q : ι) : List (LogAction ι) :=
  [.beginOp p, .beginOp q, .logWrite p 7, .logWrite p 7, .logWrite q 7, .logWrite q 8]

/-- The hypothesis is met when two operations run: two blocks are in the log and eighteen more may
come. -/
theorem reservation_invariant_two : ∃ s : LogSys (Fin 2), Reachable AddsInBudget s ∧
    s.log.lh = [7, 8] ∧ s.log.lh.length + ∑ p, (s.pc p).left ≤ logblocks := by
  have hrun : ((init (Fin 2)).runIn AddsInBudget (twoOps 0 1)).map (fun s => s.log.lh) =
      some [7, 8] := by
    decide +kernel
  obtain ⟨s, hs, hlh⟩ := Option.map_eq_some_iff.mp hrun
  have hreach : Reachable AddsInBudget s := Reachable.init.runIn hs
  exact ⟨s, hreach, hlh, (reservation_invariant hreach).1.1⟩

/-! ### Crashes -/

/-- The disk after `n` block writes of a commit on the disk `d`, a crash, and recovery. -/
def recovered {start : Blockno} (d : Disk) (t : Log.Txn start) (n : ℕ) : Disk :=
  (Log.initlog start
    (RedoLog.after d
      (((Log.initlog start d).transact t).bufs.writes.take n))).recoverFromLog.bufs.disk

/-- **Operations survive a crash together or not at all.** Operations within their budget run in any
order until a process calls `commit()`, with `cache` in the buffers and `d` on the disk, whose log
is empty. The machine crashes after `n` block writes and recovers. Then all home blocks are as in
`d`, and `commit()` had not returned; or those that an operation of the transaction has logged are
as in `cache`, and the others as in `d`. -/
theorem operations_all_or_nothing (h : Reachable AddsInBudget s) (hp : s.pc p = .commit)
    {start : Blockno} (hhome : ∀ b ∈ s.log.lh, (Log.layout start).Home b) (d cache : Disk)
    (hd : Words.word (d start) 0 = 0) (n : ℕ) :
    let t : Log.Txn start := ⟨_, h.fits hhome cache⟩
    (n < ((Log.initlog start d).transact t).bufs.writes.length ∧
      ∀ a, (Log.layout start).Home a → recovered d t n a = d a) ∨
    ∀ a, (Log.layout start).Home a →
      recovered d t n a = if ∃ id ∈ s.saving, (id, a) ∈ s.logged then cache a else d a := by
  intro t
  obtain ⟨ws, hws, hcrash⟩ := Log.transactions_spec [t] (Log.initlog start d) rfl
    ⟨rfl, rfl, decodeHead_eq_nil hd⟩
  obtain ⟨hwf, j, hj, hcontent, hdone⟩ := hcrash n
  have hr : ∀ a, (Log.layout start).Home a →
      recovered d t n a = Log.contentAfter d ([t].take j) a := fun a ha => by
    rw [recovered, show ((Log.initlog start d).transact t).bufs.writes = ws from hws]
    exact ((Log.recoverFromLog_disk hwf).2 a ha).trans (hcontent a ha)
  cases j with
  | zero =>
    refine .inl ⟨lt_of_not_ge fun hle => ?_, hr⟩
    exact absurd (hdone 1 le_rfl (hle.trans (Nat.le_add_left _ _))) (by decide)
  | succ j =>
    obtain rfl : j = 0 := by simpa using hj
    refine .inr fun a ha => (hr a ha).trans ?_
    rw [Log.contentAfter, List.take_succ_cons, List.take_zero, List.flatMap_singleton]
    split_ifs with ha
    · exact RedoLog.after_of_mem t.fits.nodup (List.mem_map_of_mem ((h.inv.mem_lh_iff hp a).mpr ha))
    · refine RedoLog.after_of_ne fun w hw he => ha ?_
      obtain ⟨b, hb, rfl⟩ := List.mem_map.mp hw
      exact he ▸ (h.inv.mem_lh_iff hp b).mp hb

/-- The hypotheses are met when an operation has logged block 100 and ended, and no other has
begun. -/
theorem operations_all_or_nothing_one : ∃ (s : LogSys (Fin 2)) (h : Reachable AddsInBudget s)
    (hhome : ∀ b ∈ s.log.lh, (Log.layout 2).Home b), s.pc 0 = .commit ∧ ∀ n,
    let r := recovered (fun _ _ => 0) ⟨_, h.fits hhome fun _ _ => 1⟩ n 100
    r = (fun _ => 0) ∨ r = fun _ => 1 := by
  have hrun : ((init (Fin 2)).runIn AddsInBudget [.beginOp 0, .logWrite 0 100, .endOp 0]).map
      (fun s => (s.pc 0, s.log.lh)) = some (.commit, [100]) := by decide +kernel
  obtain ⟨s, hs, heq⟩ := Option.map_eq_some_iff.mp hrun
  obtain ⟨hp, hlh⟩ : s.pc 0 = .commit ∧ s.log.lh = [100] := Prod.ext_iff.mp heq
  have h : Reachable AddsInBudget s := Reachable.init.runIn hs
  have h100 : (Log.layout 2).Home 100 := Log.oneBlock.fits.home _ (List.mem_singleton.mpr rfl)
  have hhome : ∀ b ∈ s.log.lh, (Log.layout 2).Home b := by simpa [hlh] using h100
  refine ⟨s, h, hhome, hp, fun n => ?_⟩
  rcases operations_all_or_nothing h hp hhome (fun _ _ => 0) (fun _ _ => 1) (by decide +kernel) n
    with ⟨-, hold⟩ | hnew
  · exact .inl (hold 100 h100)
  · refine .inr ((hnew 100 h100).trans (if_pos ?_))
    exact (h.inv.mem_lh_iff hp 100).mp (by simp [hlh])

/-! ### Panics -/

/-- A step that panics. -/
def Panics (s : LogSys ι) (a : LogAction ι) : Prop := ∃ e, s.step a = some (.error e)

/-- An operation that has logged `MAXOPBLOCKS` blocks logs only these again. -/
def LogsInBudget (s : LogSys ι) : LogAction ι → Prop
  | .logWrite p b => (s.pc p).MayLog b
  | _ => True

instance (s : LogSys ι) (a : LogAction ι) : Decidable (s.LogsInBudget a) := by
  rcases a with ⟨⟩ <;> unfold LogsInBudget <;> infer_instance

omit [DecidableEq ι] in
/-- The blocks an operation adds are among those it logs. -/
lemma addsInBudget_of_logsInBudget (h : s.Inv) (ha : s.LogsInBudget a) : s.AddsInBudget a := by
  cases a with
  | logWrite p b =>
    rw [LogsInBudget] at ha
    rw [AddsInBudget]
    cases hpc : s.pc p with
    | inOp id added written =>
      rw [hpc] at ha
      obtain ⟨-, hle, hsub⟩ := h.written p id added written hpc
      rcases ha with hb | hlt
      · exact .inl (hsub hb)
      · exact .inr (hle.trans_lt hlt)
    | _ => exact .inr trivial
  | _ => trivial

omit [Fintype ι] in
lemma Panics.cases (h : s.Panics a) :
    ∃ p id added written, s.pc p = .inOp id added written ∧
      ((∃ b e, a = .logWrite p b ∧ s.log.logWrite b = .error e) ∨
        ∃ e, a = .endOp p ∧ s.log.endOp = .error e) := by
  obtain ⟨e, he⟩ := h
  cases a with
  | logWrite p b =>
    simp only [LogSys.step] at he
    split at he
    · rename_i id added written hpc
      refine ⟨p, id, added, written, hpc, .inl ⟨b, e, rfl, ?_⟩⟩
      cases hl : s.log.logWrite b with
      | error e' =>
        rw [hl] at he
        cases he
        rfl
      | ok l =>
        rw [hl] at he
        cases he
    · cases he
  | endOp p =>
    simp only [LogSys.step] at he
    split at he
    · rename_i id added written hpc
      refine ⟨p, id, added, written, hpc, .inr ⟨e, rfl, ?_⟩⟩
      cases hl : s.log.endOp with
      | error e' =>
        rw [hl] at he
        cases he
        rfl
      | ok l =>
        rw [hl] at he
        cases he
    · cases he
  | beginOp p =>
    simp only [LogSys.step] at he
    split at he
    · split at he <;> cases he
    · split at he <;> cases he
    · cases he
  | sync p =>
    simp only [LogSys.step] at he
    split_ifs at he
    split at he <;> cases he
  | syncTest p =>
    simp only [LogSys.step] at he
    split at he
    · split_ifs at he <;> cases he
    · cases he
  | commit p | endCommit p =>
    simp only [LogSys.step] at he
    split_ifs at he
    cases he

/-- **When an operation within its budget is refused.** Operations that each log at most
`MAXOPBLOCKS` different blocks, any number of times, run in any order. In every state they reach the
only call that panics is `log_write` of a block that is in the log already while the log is full:
no other `log_write` does, and no `end_op`. -/
theorem in_budget_panics_iff (h : Reachable LogsInBudget s) {a : LogAction ι}
    (ha : s.LogsInBudget a) :
    s.Panics a ↔ ∃ p b, a = .logWrite p b ∧ (s.pc p).ops = 1 ∧ b ∈ s.log.lh ∧
      s.log.lh.length = logblocks := by
  have hinv := h.inv
  have hres := (h.mono fun s a hs ha => addsInBudget_of_logsInBudget hs ha).reserved
  constructor
  · intro hpanic
    obtain ⟨p, id, added, written, hpc, ⟨b, e, rfl, he⟩ | ⟨e, rfl, he⟩⟩ := hpanic.cases
    · have hops := le_sum (s := s) LogPc.ops p
      have hleft := le_sum (s := s) LogPc.left p
      have hroom := hres.room
      have hout := hinv.outstanding
      rw [hpc, show LogPc.ops (.inOp id added written) = 1 from rfl] at hops
      rw [hpc, LogPc.left_inOp] at hleft
      have hfull : logblocks ≤ s.log.lh.length := by
        by_contra hlt
        rw [LogVars.logWrite, if_neg hlt, if_neg (by omega)] at he
        cases he
      refine ⟨p, b, rfl, by rw [hpc]; rfl, ?_, by omega⟩
      -- a block that is not in the log would not have been paid for
      by_contra hb
      have hadd := addsInBudget_of_logsInBudget hinv ha
      rw [AddsInBudget, hpc] at hadd
      have hlt : added < maxopblocks := hadd.resolve_left hb
      omega
    · -- nobody is in an operation while the log is committed
      by_cases hc : s.log.committing = true
      · have hops := hinv.not_inOp hc p
        rw [hpc] at hops
        cases hops
      · rw [LogVars.endOp] at he
        simp only [hc, if_false, Bool.false_eq_true] at he
        split_ifs at he
  · rintro ⟨p, b, rfl, hops, -, hfull⟩
    refine ⟨.tooBig, ?_⟩
    rw [LogSys.step]
    cases hpc : s.pc p with
    | inOp id added written =>
      simp only [LogVars.logWrite, if_pos hfull.ge]
      rfl
    | _ =>
      rw [hpc] at hops
      cases hops

/-- The hypotheses are met by the first `log_write` of an operation, which does not panic. -/
theorem in_budget_panics_iff_first : ∃ s : LogSys (Fin 2), Reachable LogsInBudget s ∧
    s.LogsInBudget (.logWrite 0 7) ∧ ¬ s.Panics (.logWrite 0 7) := by
  have hrun : ((init (Fin 2)).runIn LogsInBudget [.beginOp 0]).map
      (fun s => (s.log.lh, decide (s.LogsInBudget (.logWrite 0 7)))) = some ([], true) := by
    decide +kernel
  obtain ⟨s, hs, hlh⟩ := Option.map_eq_some_iff.mp hrun
  rw [Prod.mk.injEq, decide_eq_true_eq] at hlh
  have hreach : Reachable LogsInBudget s := Reachable.init.runIn hs
  refine ⟨s, hreach, hlh.2, fun hpanic => ?_⟩
  obtain ⟨p, b, -, -, hb, -⟩ := (in_budget_panics_iff hreach hlh.2).mp hpanic
  rw [hlh.1] at hb
  cases hb

/-- Three operations run at once and log ten different blocks each. -/
def fullLog (p q r : ι) : List (LogAction ι) :=
  [.beginOp p, .beginOp q, .beginOp r] ++ (List.range 10).flatMap fun i =>
      [.logWrite p (.ofNat i), .logWrite q (.ofNat (10 + i)), .logWrite r (.ofNat (20 + i))]

/-- **An operation within its budget can be refused**: when the log is full, logging a block again
panics. -/
theorem in_budget_panics :
    ¬ ∀ (s : LogSys (Fin 3)) (a : LogAction (Fin 3)), Reachable LogsInBudget s →
      s.LogsInBudget a → ¬ s.Panics a := by
  intro h
  have hrun : ((init (Fin 3)).runIn LogsInBudget (fullLog 0 1 2)).map
      (fun s => decide (s.LogsInBudget (.logWrite 0 0) ∧ (s.pc 0).ops = 1 ∧
        s.log.lh.length = logblocks)) = some true := by
    decide +kernel
  obtain ⟨s, hs, hfull⟩ := Option.map_eq_some_iff.mp hrun
  rw [decide_eq_true_eq] at hfull
  obtain ⟨ha, hops, hlen⟩ := hfull
  refine h s (.logWrite 0 0) (Reachable.init.runIn hs) ha ⟨.tooBig, ?_⟩
  rw [LogSys.step]
  cases hpc : s.pc 0 with
  | inOp id added written =>
    simp only [LogVars.logWrite, if_pos hlen.ge]
    rfl
  | _ =>
    rw [hpc] at hops
    cases hops

end LogSys

end Xv6Riscv
