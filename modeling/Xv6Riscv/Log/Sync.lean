import Xv6Riscv.Log.Ops

/-!
What `sys_sync` guarantees.

`sys_sync` looks at the log once. If nothing is outstanding and nothing is being committed it
returns at once; otherwise it waits until one more commit has ended, whichever that is. The argument
is the same in all three cases: an operation that has ended belongs to the transaction being filled,
to the one being committed, or to one that has been committed; the first is impossible while nothing
is outstanding, which is so whenever a commit ends (`LogSys.Inv.ended_subset_durable`), and the
second once `commit()` has returned.

The commits are counted in an `int`. At its largest value the number `sys_sync` is to wait for wraps
around, and the call returns at once.

* `LogSys.sync_durability`: what had ended when `sys_sync` acquired the lock is durable when it
  returns, if no call acquires the lock at that value while the log is busy.
* `LogSys.sync_wraps`: a call that does, after `2 ^ 31 - 1` commits.
-/

namespace Xv6Riscv

namespace LogSys

variable {ι : Type*} [DecidableEq ι] {s : LogSys ι}

/-- The operations that had ended when the call of `sys_sync` acquired `log.lock` that returns in
this step, if one does. -/
def syncReturns (s : LogSys ι) : LogAction ι → Option (List ℕ)
  | .sync p => if s.pc p = .outside ∧ s.log.syncTarget = none then some s.ended else none
  | .syncTest p =>
    match s.pc p with
    | .sync n before => if s.log.ncommit < n then none else some before
    | _ => none
  | _ => none

/-- `sys_sync` does not acquire the lock, with an operation outstanding or a commit in progress,
when `ncommit` is `INT_MAX`. -/
def SyncInRange (s : LogSys ι) : LogAction ι → Prop
  | .sync _ => s.log.syncTarget = none ∨ s.log.ncommit ≠ Int32.maxValue
  | _ => True

lemma Step.of_sync {t : LogSys ι} {a : LogAction ι} (h : Step s a t) {q : ι} {n : Int32}
    {before : List ℕ} (hq : t.pc q = .sync n before) :
    s.pc q = .sync n before ∨ a = .sync q ∧ s.log.syncTarget = some n := by
  cases h with
  | syncIdle | syncSleep => exact .inl hq
  | syncWait hpc hn =>
    rcases Upd.cases id hq with ⟨rfl, hx⟩ | ⟨-, hx⟩
    · cases hx
      exact .inr ⟨rfl, hn⟩
    · exact .inl hx
  | @endOp p _ _ _ _ doCommit =>
    have hq : Function.update s.pc p (if doCommit then .commit else .outside) q = _ := hq
    rcases Upd.cases id hq with ⟨-, hx⟩ | ⟨-, hx⟩
    · cases doCommit <;> cases hx
    · exact .inl hx
  | _ =>
    rcases Upd.cases id hq with ⟨-, hx⟩ | ⟨-, hx⟩
    · cases hx
    · exact .inl hx

lemma Reachable.target_ne (h : Reachable SyncInRange s) {p : ι} {n : Int32} {before : List ℕ}
    (hp : s.pc p = .sync n before) : n ≠ Int32.minValue := by
  induction h with
  | init => cases hp
  | step _ ha hstep ih =>
    rcases hstep.of_sync hp with hp | ⟨rfl, hn⟩
    · exact ih hp
    · have hmax := ha.resolve_left (by rw [hn]; nofun)
      rw [LogVars.syncTarget] at hn
      split_ifs at hn
      cases hn
      rintro hmin
      exact hmax (Int32.add_left_inj 1 |>.mp hmin)

variable [Fintype ι]

omit [DecidableEq ι] in
lemma Inv.durable_of_idle (h : s.Inv) (hidle : s.log.syncTarget = none) : s.ended ⊆ s.durable := by
  rw [LogVars.syncTarget] at hidle
  split_ifs at hidle with hbusy
  rw [not_or, not_lt] at hbusy
  refine h.ended_subset_durable hbusy.2 ?_
  by_contra hne
  exact hbusy.1 (h.saving hne)

/-- **`sys_sync` waits for what has ended.** Any number of processes begin and end operations,
commit and call `sys_sync` in any order, but no call of `sys_sync` acquires `log.lock` when
`ncommit` is `INT_MAX` and the log is busy: when a call returns, every operation whose `end_op` had
released `log.lock` before that call acquired it belongs to a transaction whose `commit()` has
returned. -/
theorem sync_durability (h : Reachable SyncInRange s) {a : LogAction ι} {before : List ℕ}
    (hret : s.syncReturns a = some before) : before ⊆ s.durable := by
  have hinv := h.inv
  cases a with
  | sync p =>
    rw [syncReturns] at hret
    split_ifs at hret with hidle
    cases hret
    exact hinv.durable_of_idle hidle.2
  | syncTest p =>
    simp only [syncReturns] at hret
    split at hret
    · rename_i n before' hpc
      split_ifs at hret with hn
      cases hret
      exact (hinv.sync p n _ hpc).2 (h.target_ne hpc) (Int32.not_lt.mp hn)
    · cases hret
  | _ => cases hret

/-- The process `p` ends an operation while one of `q` is outstanding and calls `sys_sync`; then `q`
ends its operation, begins nothing and commits. -/
def syncRun (p q : ι) : List (LogAction ι) :=
  [.beginOp p, .beginOp q, .logWrite p 7, .endOp p, .sync p, .endOp q, .commit q, .endCommit q]

instance (s : LogSys ι) (a : LogAction ι) : Decidable (s.SyncInRange a) := by
  cases a <;> unfold SyncInRange <;> infer_instance

/-- The hypotheses are met by a `sys_sync` that waits for the commit of another process. -/
theorem sync_durability_waits : ∃ s : LogSys (Fin 2), Reachable SyncInRange s ∧
    s.syncReturns (.syncTest 0) = some [0] ∧ [0] ⊆ s.durable := by
  have hrun : ((init (Fin 2)).runIn SyncInRange (syncRun 0 1)).map
      (fun s => s.syncReturns (.syncTest 0)) = some (some [0]) := by
    decide +kernel
  obtain ⟨s, hs, hret⟩ := Option.map_eq_some_iff.mp hrun
  have hreach : Reachable SyncInRange s := Reachable.init.runIn hs
  exact ⟨s, hreach, hret, sync_durability hreach hret⟩

/-! ### The largest value -/

/-- The log after `k` operations of process 0 that have logged nothing, each committed. -/
def emptyCommits (k : ℕ) : LogSys (Fin 2) where
  log := { outstanding := 0, committing := false, ncommit := Int32.ofNat k, lh := [] }
  pc _ := .outside
  begun := k
  ended := (List.range k).reverse
  unsaved := []
  saving := []
  durable := (List.range k).reverse
  logged := []

lemma emptyCommits_reachable (k : ℕ) : Reachable (fun _ _ => True) (emptyCommits k) := by
  induction k with
  | zero => exact .init
  | succ k ih =>
    refine ih.runIn
      (show LogSys.runIn _ _ [.beginOp 0, .endOp 0, .commit 0, .endCommit 0] = _ from ?_)
    have hrange : k :: (List.range k).reverse = (List.range (k + 1)).reverse := by
      rw [List.range_succ, List.reverse_append]
      rfl
    have hpc : Function.update (Function.update (Function.update (Function.update
        (fun _ : Fin 2 => LogPc.outside) 0 (.inOp k 0 [])) 0 .commit) 0 .endCommit) 0 .outside
          = fun _ => .outside := by
      simp only [Function.update_idem, Function.update_eq_self]
    rw [emptyCommits.eq_1 (k + 1), ← hrange, ← hpc, Int32.ofNat_add]
    rfl

/-- **`sys_sync` returns early.** After `2 ^ 31 - 1` commits an operation has ended in a transaction
that another operation keeps open; the loop of `sys_sync` ends before it has slept. -/
theorem sync_wraps : ∃ s : LogSys (Fin 2), Reachable (fun _ _ => True) s ∧
    s.syncReturns (.syncTest 0) = some s.ended ∧ ¬ s.ended ⊆ s.durable := by
  obtain ⟨k, hk⟩ : ∃ k, k = 2 ^ 31 - 1 := ⟨_, rfl⟩
  have hreach := (emptyCommits_reachable k).runIn
    (show LogSys.runIn _ _ [.beginOp 0, .beginOp 1, .endOp 0, .sync 0] = _ from rfl)
  refine ⟨_, hreach, ?_, fun hsub => ?_⟩
  · have hn : ¬ Int32.ofNat k < Int32.ofNat k + 1 := by
      subst hk
      decide
    exact if_neg hn
  · have hmem : k ∈ (List.range k).reverse := hsub List.mem_cons_self
    exact absurd (List.mem_range.mp (List.mem_reverse.mp hmem)) (lt_irrefl k)

end LogSys

end Xv6Riscv
