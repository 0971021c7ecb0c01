import Xv6Riscv.Proc.Channels
import Xv6Riscv.Smp.Accounting

/-!
Killing processes (`kkill`).

`kset_prio` and `kget_psinfo` look for a process that is in use and has the given pid; `kkill` looks
at the pid alone. An unused slot has pid 0, because `freeproc` clears it, so `kkill(0)` finds the
first unused slot, marks it killed and reports success; `allocproc` does not reset the mark, and
the next process in that slot is born killed (`kkill_affects_live_fails`).

* `Kernel.PidsOk`: what a kernel in which no `kkill(0)` meets an unused slot knows of its slots.
* `kill_of_killed`: there a process that is marked killed has been named by its pid, or has called
  `setkilled` itself.
* `kkill_affects_live`: what `kkill` does there, call by call.
-/

namespace Xv6Riscv

/-! ### The three lookups -/

/-- The test of `kkill`. -/
def Proc.hasPid (pid : ℤ) (p : Proc) : Bool := p.pid = pid

/-- `kkill(pid)`, with no step between the slots: the table it leaves and what it returns. -/
def kkill (k : Kernel) (pid : ℤ) : Kernel × ℤ :=
  match k.lookup (Proc.hasPid pid) with
  | some i => (k.apply (.kill i pid), 0)
  | none => (k, -1)

/-- `kset_prio(pid, priority)`, with no step between the slots. -/
def ksetPrio (k : Kernel) (pid priority : ℤ) : Kernel × ℤ :=
  match k.lookup (Proc.isLive pid) with
  | some i => (k.apply (.setPrio i pid priority), 0)
  | none => (k, -1)

variable {k : Kernel} {o : Op} {i : Slot}

lemma lookup_eq_some {test : Proc → Bool} (h : k.lookup test = some i) : test (k.proc i) := by
  simpa using List.find?_some h

lemma lookup_isSome_iff {test : Proc → Bool} :
    (∃ i, k.lookup test = some i) ↔ ∃ i, test (k.proc i) := by
  constructor
  · rintro ⟨i, hi⟩
    exact ⟨i, lookup_eq_some hi⟩
  · rintro ⟨i, hi⟩
    rw [← Option.isSome_iff_exists, Kernel.lookup, List.find?_isSome]
    exact ⟨i, List.mem_finRange i, hi⟩

/-! ### What an operation does to pid and mark -/

/-- The operations that mark the process in slot `i`, whose pid is `pid`, as killed. -/
def Op.Kills (i : Slot) (pid : ℤ) : Op → Prop
  | kill j pid' => j = i ∧ pid' = pid
  | setkilled j => j = i
  | _ => False

/-- An operation that is not the beginning or the end of a process keeps its pid, and changes its
mark only by killing it. -/
lemma effect_killed (k : Kernel) (hi : o.slot = some i) :
    (o.effect k (k.proc i)).pid = (k.proc i).pid ∧
        ((o.effect k (k.proc i)).killed = (k.proc i).killed ∨ o.Kills i (k.proc i).pid) ∨
      o = .allocproc i ∨ o = .freeproc i ∨ o = .reap i := by
  generalize hq : o.effect k (k.proc i) = q
  cases Op.acts hq with
  | allocproc p =>
    cases hi
    exact .inr (.inl rfl)
  | freeproc p =>
    cases hi
    exact .inr (.inr (.inl rfl))
  | reap p =>
    cases hi
    exact .inr (.inr (.inr rfl))
  | setkilled p =>
    cases hi
    exact .inl ⟨rfl, .inr rfl⟩
  | kill p hpid | killAwake p hpid =>
    cases hi
    exact .inl ⟨rfl, .inr ⟨rfl, hpid.symm⟩⟩
  | _ => exact .inl ⟨rfl, .inl rfl⟩

lemma apply_killed (k : Kernel) (o : Op) (i : Slot) :
    ((k.apply o).proc i).pid = (k.proc i).pid ∧
        (((k.apply o).proc i).killed = (k.proc i).killed ∨ o.Kills i (k.proc i).pid) ∨
      o = .allocproc i ∨ o = .freeproc i ∨ o = .reap i := by
  rw [Kernel.apply_proc]
  split_ifs with hi
  · exact effect_killed k hi
  · exact .inl ⟨rfl, .inl rfl⟩

/-- A process that is there after an operation was there before, with its pid, or is new. -/
lemma apply_pid (ho : o.Ok k) {i : Slot} (h : ((k.apply o).proc i).state ≠ .unused) :
    ((k.apply o).proc i).pid = (k.proc i).pid ∧ (k.proc i).state ≠ .unused ∨
      o = .allocproc i ∧ ((k.apply o).proc i).pid = k.nextpid := by
  rcases apply_killed k o i with ⟨hpid, -⟩ | rfl | rfl | rfl
  · by_cases hu : (k.proc i).state = .unused
    · rcases apply_state ho i with hsame | ⟨hslot, hc⟩
      · exact absurd (hsame.trans hu) h
      · rw [hu] at hc
        generalize ((k.apply o).proc i).state = s at hc
        cases hc
        cases hslot
        rw [Kernel.apply_proc_self _ _ rfl]
        exact .inr ⟨rfl, rfl⟩
    · exact .inl ⟨hpid, hu⟩
  · rw [Kernel.apply_proc_self _ _ rfl]
    exact .inr ⟨rfl, rfl⟩
  · rw [Kernel.apply_proc_self _ _ rfl] at h
    exact absurd rfl h
  · rw [Kernel.apply_proc_self _ _ rfl] at h
    exact absurd rfl h

/-! ### Kernels in which `kkill` names processes -/

/-- A turn of the loop of `kkill(pid)` does not compare `0` with the pid of an unused slot. -/
def Op.NamesProcess (k : Kernel) : Op → Prop
  | kill i pid => pid ≠ 0 ∨ (k.proc i).state ≠ .unused
  | _ => True

/-- A sequence of operations from `k` in which no `kkill(0)` examines an unused slot. -/
abbrev Kernel.NamedKills (k : Kernel) (ops : List Op) : Prop :=
  Transition.Legal (fun k o => o.NamesProcess k) Kernel.apply k ops

/-- Processes have positive pids; an unused slot has pid 0 and is clean. -/
structure Kernel.PidsOk (k : Kernel) : Prop where
  next : 1 ≤ k.nextpid
  live : ∀ i, (k.proc i).state ≠ .unused → 1 ≤ (k.proc i).pid
  unused : ∀ i, (k.proc i).state = .unused →
    (k.proc i).pid = 0 ∧ (k.proc i).killed = false ∧ (k.proc i).chan = none

lemma nextpid_le_apply (k : Kernel) (o : Op) : k.nextpid ≤ (k.apply o).nextpid := by
  cases o with
  | allocproc p => exact le_add_of_nonneg_right zero_le_one
  | _ => exact le_refl _

/-- **One operation keeps unused slots clean**, unless it is `kkill(0)` at such a slot. -/
theorem Kernel.PidsOk.apply (h : k.PidsOk) (ho : o.Ok k) (hn : o.NamesProcess k) :
    (k.apply o).PidsOk where
  next := h.next.trans (nextpid_le_apply k o)
  live i hs := by
    rcases apply_pid ho hs with ⟨hpid, hlive⟩ | ⟨-, hpid⟩
    · rw [hpid]
      exact h.live i hlive
    · rw [hpid]
      exact h.next
  unused i hu := by
    rcases apply_state ho i with hsame | ⟨hslot, hc⟩
    · have hold := hsame.symm.trans hu
      obtain ⟨hpid, hkilled, hchan⟩ := h.unused i hold
      rcases apply_killed k o i with ⟨hp, hk⟩ | rfl | rfl | rfl
      · refine ⟨hp.trans hpid, ?_, ?_⟩
        · rcases hk with hk | hk
          · exact hk.trans hkilled
          · cases o with
            | kill j pid =>
              obtain ⟨rfl, rfl⟩ := hk
              rcases hn with hn | hn
              · exact absurd hpid hn
              · exact absurd hold hn
            | setkilled j =>
              cases hk
              exact absurd (hold.symm.trans ho) (by decide)
            | _ => exact hk.elim
        · cases hch : ((k.apply o).proc i).chan with
          | none => rfl
          | some ch =>
            rcases apply_chan hch with hch | rfl
            · rw [hchan] at hch
              cases hch
            · exact absurd (hold.symm.trans ho) (by decide)
      all_goals rw [Kernel.apply_proc_self _ _ rfl] at hu ⊢
      · cases hu
      · exact ⟨rfl, rfl, rfl⟩
      · exact ⟨rfl, rfl, rfl⟩
    · rw [hu] at hc
      generalize (k.proc i).state = s at hc
      cases hc with
      | freeproc p | reap p =>
        cases hslot
        rw [Kernel.apply_proc_self _ _ rfl]
        exact ⟨rfl, rfl, rfl⟩

/-! ### Runs -/

variable {pol : SchedPolicy} {ops : List Op}

lemma pidsOk_procinit (pol : SchedPolicy) : (procinit pol).PidsOk where
  next := le_refl 1
  live _ hs := absurd rfl hs
  unused _ _ := ⟨rfl, rfl, rfl⟩

lemma pidsOk_bootKernel (pol : SchedPolicy) : (bootKernel pol).PidsOk := by
  have halloc := (pidsOk_procinit pol).apply (o := .allocproc initproc)
    (userinit_legal pol).1 trivial
  exact halloc.apply (o := .runnable initproc) (userinit_legal pol).2.1 trivial

lemma pidsOk_after (h : (bootKernel pol).Legal ops) (hn : (bootKernel pol).NamedKills ops) :
    ((bootKernel pol).after ops).PidsOk :=
  Transition.legal_invariant (fun _ _ hk ho => hk.apply ho.1 ho.2) (pidsOk_bootKernel pol)
    (h.and hn)

/-- **A killed process has been named**: since it was allocated, `kkill` has been called with its
pid, or it has called `setkilled` itself. -/
theorem kill_of_killed (h : (bootKernel pol).Legal ops) (hn : (bootKernel pol).NamedKills ops)
    (hs : (((bootKernel pol).after ops).proc i).state ≠ .unused)
    (hk : (((bootKernel pol).after ops).proc i).killed = true) :
    ∃ before o after, ops = before ++ o :: after ∧
      o.Kills i (((bootKernel pol).after ops).proc i).pid ∧ Op.allocproc i ∉ after := by
  induction ops using List.reverseRecOn with
  | nil =>
    have hboot : ((bootKernel pol).proc i).killed = true := hk
    have hfalse : ((bootKernel pol).proc i).killed = false := by
      by_cases hi : i = initproc
      · subst hi
        rfl
      · exact ((pidsOk_bootKernel pol).unused i (by
          rw [Machine.bootKernel_state, if_neg hi])).2.1
    rw [hfalse] at hboot
    cases hboot
  | append_singleton ops o ih =>
    obtain ⟨hlegal, ho, -⟩ := Transition.legal_append.mp h
    obtain ⟨hnamed, -, -⟩ := Transition.legal_append.mp hn
    have hafter : (bootKernel pol).after (ops ++ [o]) = ((bootKernel pol).after ops).apply o :=
      List.foldl_append
    rw [hafter] at hs hk ⊢
    have hclean := pidsOk_after hlegal hnamed
    rcases apply_killed ((bootKernel pol).after ops) o i with
      ⟨hpid, hkeep | hkills⟩ | rfl | rfl | rfl
    · -- it has been marked before, and the process is still the same
      have hk' := hkeep.symm.trans hk
      have hs' : (((bootKernel pol).after ops).proc i).state ≠ .unused := by
        intro hu
        rw [(hclean.unused i hu).2.1] at hk'
        cases hk'
      obtain ⟨before, o', after, rfl, hkills, hno⟩ := ih hlegal hnamed hs' hk'
      refine ⟨before, o', after ++ [o], by simp, by rwa [hpid], fun hmem => ?_⟩
      rcases List.mem_append.mp hmem with hmem | hmem
      · exact hno hmem
      · rw [← List.mem_singleton.mp hmem] at ho
        exact hs' ho
    · refine ⟨ops, o, [], rfl, by rwa [hpid], nofun⟩
    all_goals rw [Kernel.apply_proc_self _ _ rfl] at hs hk
    · have hk' : (((bootKernel pol).after ops).proc i).killed = true := hk
      rw [(hclean.unused i ho).2.1] at hk'
      cases hk'
    · exact absurd rfl hs
    · exact absurd rfl hs

/-- What is expected of a call of `kkill(pid)`: it succeeds if and only if a process has the pid,
and leaves alone all slots that are unused or have another pid. -/
def KillsLive (k : Kernel) (pid : ℤ) : Prop :=
  ((kkill k pid).2 = 0 ↔ ∃ i, (k.proc i).state ≠ .unused ∧ (k.proc i).pid = pid) ∧
    ∀ i, (k.proc i).state = .unused ∨ (k.proc i).pid ≠ pid → (kkill k pid).1.proc i = k.proc i

/-- The lookups of `kkill` and of `kset_prio` and `kget_psinfo` agree unless the pid is `0` and a
slot is unused. -/
lemma Kernel.PidsOk.hasPid_iff (h : k.PidsOk) {pid : ℤ}
    (hpid : pid ≠ 0 ∨ ∀ i, (k.proc i).state ≠ .unused) (i : Slot) :
    (k.proc i).hasPid pid = (k.proc i).isLive pid := by
  rw [Proc.hasPid, Proc.isLive, decide_eq_decide]
  refine ⟨fun hi => ⟨fun hu => ?_, hi⟩, And.right⟩
  rcases hpid with hpid | hpid
  · exact hpid (hi.symm.trans (h.unused i hu).1)
  · exact hpid i hu

/-- **When a call of `kkill` does what is expected of it.** -/
lemma Kernel.PidsOk.killsLive_iff (h : k.PidsOk) (pid : ℤ) :
    KillsLive k pid ↔ pid ≠ 0 ∨ ∀ i, (k.proc i).state ≠ .unused := by
  have hreturns : (kkill k pid).2 = 0 ↔ ∃ i, (k.proc i).hasPid pid := by
    rw [← lookup_isSome_iff, kkill]
    cases k.lookup (Proc.hasPid pid) with
    | none => simp
    | some i => simp
  constructor
  · rintro ⟨hret, -⟩
    by_contra hcon
    push Not at hcon
    obtain ⟨rfl, i, hu⟩ := hcon
    -- the unused slot has pid 0, and no process has
    obtain ⟨j, hj, hpid⟩ := hret.mp (hreturns.mpr ⟨i, by simp [Proc.hasPid, (h.unused i hu).1]⟩)
    have hpos := h.live j hj
    rw [hpid] at hpos
    exact absurd hpos (by decide)
  · intro hpid
    refine ⟨hreturns.trans (exists_congr fun i => ?_), fun i hi => ?_⟩
    · rw [h.hasPid_iff hpid, Proc.isLive, decide_eq_true_eq]
    · rw [kkill]
      cases hl : k.lookup (Proc.hasPid pid) with
      | none => rfl
      | some j =>
        have hj := lookup_eq_some hl
        rw [h.hasPid_iff hpid, Proc.isLive, decide_eq_true_eq] at hj
        refine Kernel.apply_proc_of_ne _ _ fun he => ?_
        cases he
        rcases hi with hi | hi
        · exact hj.1 hi
        · exact hi hj.2

/-- **When `kkill` affects processes only.** In every run, on one CPU or several, in which no
`kkill(0)` examines an unused slot: a call of `kkill(pid)` does what is expected of it if and only
if `pid` is not `0` or no slot is unused, and its lookup is then that of `kset_prio`; every unused
slot has its mark and its channel cleared; and a process that is marked killed has been named by
`kkill` with its own pid since it was allocated, or has called `setkilled` on itself. -/
theorem kkill_affects_live (h : Performs pol ops k) (hn : (bootKernel pol).NamedKills ops) :
    (∀ pid, KillsLive k pid ↔ pid ≠ 0 ∨ ∀ i, (k.proc i).state ≠ .unused) ∧
    (∀ pid, pid ≠ 0 → ∀ pr, (kkill k pid).2 = (ksetPrio k pid pr).2) ∧
    (∀ i, (k.proc i).state = .unused → (k.proc i).killed = false ∧ (k.proc i).chan = none) ∧
    (∀ i, (k.proc i).state ≠ .unused → (k.proc i).killed = true →
      ∃ before o after, ops = before ++ o :: after ∧ o.Kills i (k.proc i).pid ∧
        Op.allocproc i ∉ after) := by
  obtain ⟨hlegal, rfl⟩ := h.refines
  have hclean := pidsOk_after hlegal hn
  refine ⟨hclean.killsLive_iff, fun pid hpid pr => ?_, fun i hi => (hclean.unused i hi).2,
    fun i hs hk => kill_of_killed hlegal hn hs hk⟩
  have hlookup : ((bootKernel pol).after ops).lookup (Proc.hasPid pid)
      = ((bootKernel pol).after ops).lookup (Proc.isLive pid) := by
    rw [Kernel.lookup, Kernel.lookup]
    congr 1
    funext i
    exact hclean.hasPid_iff (.inl hpid) i
  rw [kkill, ksetPrio, hlookup]
  cases ((bootKernel pol).after ops).lookup (Proc.isLive pid) <;> rfl

open Uni in
/-- Init forks and calls `kkill(2)`, which looks at its own slot and then at that of its child. -/
def killChildEvents : List Event :=
  [.schedule] ++ forkEvents 1 0 ++ [.op (.kill 0 2), .op (.kill 1 2)]

/-- The hypotheses are met when init has killed its child: the call is to be found in the run. -/
theorem kkill_affects_live_child : ∃ ops k, Performs .rr ops k ∧ (bootKernel .rr).NamedKills ops ∧
    KillsLive k 2 ∧ ¬ KillsLive k 0 ∧ (k.proc 1).killed = true ∧
    ∃ before o after, ops = before ++ o :: after ∧ o.Kills 1 (k.proc 1).pid ∧
      Op.allocproc 1 ∉ after := by
  have hfacts : ((Uni.boot .rr).run killChildEvents).isSome ∧
      (Uni.boot .rr).trace killChildEvents
        = [.dispatch 0, .allocproc 1, .setParent 1 0, .runnable 1, .kill 0 2, .kill 1 2] ∧
      (((Uni.boot .rr).after killChildEvents).k.proc 1).state = .runnable ∧
      (((Uni.boot .rr).after killChildEvents).k.proc 2).state = .unused ∧
      (((Uni.boot .rr).after killChildEvents).k.proc 1).killed = true := by
    decide +kernel
  obtain ⟨hrun, htrace, hstate, hunused, hkilled⟩ := hfacts
  have h : Performs .rr ((Uni.boot .rr).trace killChildEvents) _ := .uni (Uni.run_after hrun)
  have hn : (bootKernel .rr).NamedKills ((Uni.boot .rr).trace killChildEvents) := by
    rw [htrace]
    exact ⟨trivial, trivial, trivial, trivial, .inl (by decide), .inl (by decide), trivial⟩
  obtain ⟨hlive, -, -, hnamed⟩ := kkill_affects_live h hn
  refine ⟨_, _, h, hn, (hlive 2).mpr (.inl (by decide)), fun h0 => ?_, hkilled,
    hnamed 1 (by rw [hstate]; decide) hkilled⟩
  exact ((hlive 0).mp h0).elim (· rfl) (· 2 hunused)

open Uni in
/-- Init calls `kkill(0)`, which looks at its own slot and then at slot 1; then it forks. -/
def killZeroEvents : List Event :=
  [.schedule, .op (.kill 0 0), .op (.kill 1 0)] ++ forkEvents 1 0

/-- The call reports success although no process has pid 0, and the child, whose pid is 2, is
killed from its beginning. -/
lemma killZeroEvents_run :
    (kkill ((Uni.boot .rr).after [.schedule]).k 0).2 = 0 ∧
      (∀ i, (((Uni.boot .rr).after [.schedule]).k.proc i).state = .unused ∨
        (((Uni.boot .rr).after [.schedule]).k.proc i).pid ≠ 0) ∧
      ((Uni.boot .rr).run [.schedule]).isSome ∧
      ((Uni.boot .rr).run killZeroEvents).isSome ∧
      (((Uni.boot .rr).after killZeroEvents).k.proc 1).state = .runnable ∧
      (((Uni.boot .rr).after killZeroEvents).k.proc 1).killed = true ∧
      (((Uni.boot .rr).after killZeroEvents).k.proc 1).pid = 2 ∧
      (Uni.boot .rr).trace killZeroEvents
        = [.dispatch 0, .kill 0 0, .kill 1 0, .allocproc 1, .setParent 1 0, .runnable 1] := by
  decide +kernel

/-- **`kkill` does not affect processes only**: `kkill(0)` succeeds though no process has pid 0, and
a process that no call has named can be killed. -/
theorem kkill_affects_live_fails :
    (¬ ∀ (pol : SchedPolicy) (ops : List Op) (k : Kernel), Performs pol ops k →
      ∀ pid, KillsLive k pid) ∧
    ¬ ∀ (pol : SchedPolicy) (ops : List Op) (k : Kernel), Performs pol ops k →
      ∀ i, (k.proc i).state ≠ .unused → (k.proc i).killed = true →
        ∃ o ∈ ops, o.Kills i (k.proc i).pid := by
  obtain ⟨hret, hnone, hrun, hrun', hstate, hkilled, hpid, htrace⟩ := killZeroEvents_run
  constructor
  · intro h
    obtain ⟨i, hs, hp⟩ := ((h .rr _ _ (.uni (Uni.run_after hrun)) 0).1.mp hret)
    rcases hnone i with hi | hi
    · exact hs hi
    · exact hi hp
  · intro h
    obtain ⟨o, ho, hkills⟩ :=
      h .rr _ _ (.uni (Uni.run_after hrun')) 1 (by rw [hstate]; decide) hkilled
    rw [hpid] at hkills
    rw [htrace] at ho
    -- the calls of the run name pid 0
    simp only [List.mem_cons, List.not_mem_nil, or_false] at ho
    rcases ho with rfl | rfl | rfl | rfl | rfl | rfl
    · exact hkills
    · exact absurd hkills.2 (by decide)
    · exact absurd hkills.2 (by decide)
    all_goals exact hkills

end Xv6Riscv
