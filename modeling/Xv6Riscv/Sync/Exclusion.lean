import Xv6Riscv.Proc.Family
import Xv6Riscv.Smp.Kill
import Xv6Riscv.Sync.SleepLock

/-!
Exclusion by sleep locks.

`SleepLockUse` adds `holdingsleep` to the processes in `acquiresleep` and `releasesleep`: a process
that asks has the spinlock too. Only running processes take steps, and a process that is in one of
the functions, or between `acquiresleep` and `releasesleep`, does not exit. The lock is known to
belong to a process by its pid, so pids have to be distinct; `allocproc` keeps them so.

* `pid_names_one_process`: pids are distinct in every run and not used again.
* `SleepLockUse.Inv`: one process at most owns the lock, and the fields tell which.
* `SleepLockUse.sleep_lock_exclusion`: in every run.
-/

namespace Xv6Riscv

open Function (update update_of_ne update_self)

/-! ### Pids -/

/-- Pids are distinct, and smaller than those to come. -/
structure Kernel.DistinctPids (k : Kernel) : Prop where
  lt : ∀ p, (k.proc p).state ≠ .unused → (k.proc p).pid < k.nextpid
  unique : ∀ p q, (k.proc p).state ≠ .unused → (k.proc q).state ≠ .unused →
    (k.proc p).pid = (k.proc q).pid → p = q

variable {k : Kernel} {o : Op}

/-- **Pids stay distinct.** -/
lemma Kernel.DistinctPids.apply (h : k.DistinctPids) (ho : o.Ok k) : (k.apply o).DistinctPids where
  lt p hp := by
    rcases apply_pid ho hp with ⟨hpid, hs⟩ | ⟨rfl, hpid⟩
    · rw [hpid]
      exact (h.lt p hs).trans_le (nextpid_le_apply k o)
    · rw [hpid]
      exact Int.lt_succ k.nextpid
  unique p q hp hq heq := by
    rcases apply_pid ho hp with ⟨hp1, hp2⟩ | ⟨rfl, hp1⟩
    · rcases apply_pid ho hq with ⟨hq1, hq2⟩ | ⟨-, hq1⟩
      · exact h.unique p q hp2 hq2 (hp1.symm.trans (heq.trans hq1))
      · have hlt := h.lt p hp2
        rw [← hp1, heq, hq1] at hlt
        exact absurd hlt (lt_irrefl _)
    · rcases apply_pid ho hq with ⟨hq1, hq2⟩ | ⟨hq0, -⟩
      · have hlt := h.lt q hq2
        rw [← hq1, ← heq, hp1] at hlt
        exact absurd hlt (lt_irrefl _)
      · cases hq0
        rfl

lemma distinctPids_bootKernel (pol : SchedPolicy) : (bootKernel pol).DistinctPids := by
  have h0 : (procinit pol).DistinctPids := ⟨fun _ h => absurd rfl h, fun _ _ h => absurd rfl h⟩
  have halloc := h0.apply (o := .allocproc initproc) (userinit_legal pol).1
  exact halloc.apply (o := .runnable initproc) (userinit_legal pol).2.1

variable {pol : SchedPolicy} {ops : List Op}

lemma distinctPids_after (h : (bootKernel pol).Legal ops) :
    ((bootKernel pol).after ops).DistinctPids :=
  Transition.legal_invariant (fun _ _ hk ho => hk.apply ho) (distinctPids_bootKernel pol) h

/-- **A pid names one process.** In every run, on one CPU or several: no two processes have the same
pid; the next process gets one that is greater than those of all processes there have been; and
`kset_prio` sets the priority of the process with the pid it is given, and of no other. -/
theorem pid_names_one_process (h : Performs pol ops k) :
    (∀ i j, (k.proc i).state ≠ .unused → (k.proc j).state ≠ .unused →
      (k.proc i).pid = (k.proc j).pid → i = j) ∧
    (∀ before after i, ops = before ++ after →
      (((bootKernel pol).after before).proc i).state ≠ .unused →
      (((bootKernel pol).after before).proc i).pid < k.nextpid) ∧
    ∀ pid pr i, (ksetPrio k pid pr).1.proc i =
      if (k.proc i).isLive pid then { k.proc i with priority := pr } else k.proc i := by
  obtain ⟨hl, rfl⟩ := h.refines
  have hd := distinctPids_after hl
  refine ⟨hd.unique, ?_, fun pid pr i => ?_⟩
  · rintro before after i rfl hi
    obtain ⟨hb, ha⟩ := Transition.legal_append.mp hl
    rw [Kernel.after, Kernel.after, List.foldl_append]
    exact Transition.legal_invariant (I := fun k : Kernel => _ < k.nextpid)
      (fun k o hk _ => hk.trans_le (nextpid_le_apply k o)) ((distinctPids_after hb).lt i hi) ha
  · rw [ksetPrio]
    cases hj : ((bootKernel pol).after ops).lookup (Proc.isLive pid) with
    | none =>
      rw [if_neg]
      exact fun hi => by simpa [hj] using lookup_isSome_iff.mpr ⟨i, hi⟩
    | some j =>
      have hlive := lookup_eq_some hj
      by_cases hij : i = j
      · rw [hij, if_pos hlive]
        exact (Kernel.apply_proc_self _ _ rfl).trans (if_pos (of_decide_eq_true hlive))
      · rw [if_neg]
        · exact Kernel.apply_proc_of_ne _ _ fun he => hij (Option.some.inj he).symm
        · rw [Proc.isLive, decide_eq_true_eq] at hlive ⊢
          exact fun hi => hij (hd.unique i j hi.1 hlive.1 (hi.2.trans hlive.2.symm))

/-- The hypothesis is met when init has forked: `kset_prio(2)` is about the child alone. -/
theorem pid_names_one_process_child : ∃ ops k, Performs .rr ops k ∧ (k.proc 0).pid = 1 ∧
    (k.proc 1).pid = 2 ∧ (k.proc 1).isLive 2 ∧ (ksetPrio k 2 5).1.proc 0 = k.proc 0 ∧
    (ksetPrio k 2 5).1.proc 1 = { k.proc 1 with priority := 5 } := by
  have hfacts : ((Uni.boot .rr).run killChildEvents).isSome ∧
      (((Uni.boot .rr).after killChildEvents).k.proc 0).pid = 1 ∧
      (((Uni.boot .rr).after killChildEvents).k.proc 1).pid = 2 ∧
      ¬ (((Uni.boot .rr).after killChildEvents).k.proc 0).isLive 2 ∧
      (((Uni.boot .rr).after killChildEvents).k.proc 1).isLive 2 := by
    decide +kernel
  obtain ⟨hrun, hpid0, hpid1, hnot, hlive⟩ := hfacts
  have h : Performs .rr _ _ := .uni (Uni.run_after hrun)
  have hset := (pid_names_one_process h).2.2 2 5
  exact ⟨_, _, h, hpid0, hpid1, hlive, (hset 0).trans (if_neg hnot), (hset 1).trans (if_pos hlive)⟩

/-! ### The machine -/

/-- The points between `acquiresleep` and `releasesleep`. -/
def SleepLockPc.Owns : SleepLockPc → Prop
  | taken | inside | held => True
  | out | test | prepared | toSleep | again | waking _ => False

/-- The result of `holdingsleep`, for a process with this pid. -/
def holdingsleep (lk : SleepLockData) (pid : ℤ) : Bool := lk.locked && decide (lk.pid = pid)

/-- A sleep lock, and the process that has its spinlock in `holdingsleep`. -/
structure SleepLockUse where
  sl : SleepLock
  asker : Option Slot

namespace SleepLockUse

/-- A running process takes a step of one of the functions, or there is another operation on the
table. -/
inductive Step (ch : Chan) : SleepLockUse → SleepLockUse → Prop
  | edge {u : SleepLockUse} {p : Slot} {a : Locks.Act Unit} {o : Option Op} {lk : SleepLockData}
      {pc : SleepLockPc} (hrun : (u.sl.k.proc p).state = .running) (hask : u.asker ≠ some p)
      (h : SleepLockEdge ch u.sl.k p u.sl.lk (u.sl.pc p) a o lk pc) (ha : a.Enabled u.sl.spin)
      (hfree : a = .acquire () → u.asker = none) (ho : ∀ o', o = some o' → o'.Ok u.sl.k) :
      Step ch u { u with
        sl := ⟨o.elim u.sl.k u.sl.k.apply, lk, a.run p u.sl.spin, update u.sl.pc p pc⟩ }
  /-- `acquire` in `holdingsleep` -/
  | ask {u : SleepLockUse} {p : Slot} (hrun : (u.sl.k.proc p).state = .running)
      (hpc : u.sl.pc p = .out ∨ u.sl.pc p = .inside) (hspin : u.sl.spin () = none)
      (hask : u.asker = none) : Step ch u { u with asker := some p }
  /-- `release` in `holdingsleep`, with the result at hand -/
  | answer {u : SleepLockUse} {p : Slot} (hrun : (u.sl.k.proc p).state = .running)
      (hask : u.asker = some p) : Step ch u { u with asker := none }
  | other {u : SleepLockUse} {o : Op} (ho : o.Ok u.sl.k) (hprep : ∀ p, o ≠ .sleepPrepare p ch)
      (hexit : ∀ p st, o = .exit p st → u.sl.pc p = .out ∧ u.asker ≠ some p) :
      Step ch u { u with sl := { u.sl with k := u.sl.k.apply o } }

/-- After `initsleeplock`. -/
structure Initial (ch : Chan) (u : SleepLockUse) : Prop where
  sl : u.sl.Initial ch
  asker : u.asker = none
  unlocked : u.sl.lk.locked = false
  pids : u.sl.k.DistinctPids

/-- **The invariant**: one process at most owns the lock, `locked` and `pid` say which, and
processes that use the lock are alive. -/
structure Inv (u : SleepLockUse) : Prop where
  pids : u.sl.k.DistinctPids
  live : ∀ p, u.sl.pc p ≠ .out ∨ u.asker = some p → (u.sl.k.proc p).state.Live
  unique : ∀ p q, (u.sl.pc p).Owns → (u.sl.pc q).Owns → p = q
  locked : u.sl.lk.locked = true ↔ ∃ p, (u.sl.pc p).Owns
  pid : ∀ p, (u.sl.pc p).Owns → u.sl.lk.pid = (u.sl.k.proc p).pid

variable {ch : Chan} {u u' : SleepLockUse} {p : Slot}

lemma Initial.inv (h : u.Initial ch) : u.Inv where
  pids := h.pids
  live p hp := by
    rcases hp with hp | hp
    · exact absurd (h.sl.2.2 p) hp
    · rw [h.asker] at hp
      cases hp
  unique p q hp := by
    rw [h.sl.2.2 p] at hp
    exact hp.elim
  locked := by
    rw [h.unlocked]
    refine ⟨nofun, ?_⟩
    rintro ⟨p, hp⟩
    rw [h.sl.2.2 p] at hp
    exact hp.elim
  pid p hp := by
    rw [h.sl.2.2 p] at hp
    exact hp.elim

lemma live_apply (ho : o.Ok k) (hlive : (k.proc p).state.Live) (hexit : ∀ st, o ≠ .exit p st) :
    ((k.apply o).proc p).state.Live ∧ ((k.apply o).proc p).pid = (k.proc p).pid := by
  refine ⟨(apply_live ho hlive).resolve_right fun ⟨st, hst⟩ => hexit st hst, ?_⟩
  rcases apply_killed k o p with ⟨hpid, -⟩ | rfl | rfl | rfl
  · exact hpid
  all_goals
    have hs : (k.proc p).state = _ := ho
    rw [hs] at hlive
    exact hlive.elim

lemma Inv.table (h : u.Inv) (ho : o.Ok u.sl.k)
    (hexit : ∀ p st, o = .exit p st → u.sl.pc p = .out ∧ u.asker ≠ some p) :
    Inv { u with sl := { u.sl with k := u.sl.k.apply o } } where
  pids := h.pids.apply ho
  live p hp := by
    refine (live_apply ho (h.live p hp) ?_).1
    rintro st rfl
    obtain ⟨h1, h2⟩ := hexit p st rfl
    exact hp.elim (absurd h1) h2
  __ := h
  pid p hp := by
    have hpc : u.sl.pc p ≠ .out := fun hout => by
      change (u.sl.pc p).Owns at hp
      rw [hout] at hp
      exact hp
    change u.sl.lk.pid = ((u.sl.k.apply o).proc p).pid
    rw [(live_apply ho (h.live p (.inl hpc)) ?_).2]
    · exact h.pid p hp
    · rintro st rfl
      exact hpc (hexit p st rfl).1

section

variable (h : u.Inv) (hlive : (u.sl.k.proc p).state.Live)

include h hlive

lemma Inv.goto {pc : SleepLockPc} (hpc : pc.Owns ↔ (u.sl.pc p).Owns) (spin : Unit → Option Slot) :
    Inv { u with sl := ⟨u.sl.k, u.sl.lk, spin, update u.sl.pc p pc⟩ } := by
  have howns : ∀ q, (update u.sl.pc p pc q).Owns ↔ (u.sl.pc q).Owns := by
    intro q
    rcases eq_or_ne q p with rfl | hq
    · rw [update_self]
      exact hpc
    · rw [update_of_ne hq]
  refine ⟨h.pids, fun q hq => ?_, fun q r hq hr => ?_, ?_, fun q hq => h.pid q ((howns q).mp hq)⟩
  · rcases eq_or_ne q p with rfl | hqp
    · exact hlive
    · refine h.live q ?_
      change update u.sl.pc p pc q ≠ .out ∨ _ at hq
      rwa [update_of_ne hqp] at hq
  · exact h.unique q r ((howns q).mp hq) ((howns r).mp hr)
  · exact h.locked.trans (exists_congr fun q => (howns q).symm)

lemma Inv.take (hfree : u.sl.lk.locked = false) (spin : Unit → Option Slot) : Inv { u with sl :=
      ⟨u.sl.k, ⟨true, (u.sl.k.proc p).pid⟩, spin, update u.sl.pc p .taken⟩ } := by
  have hnone : ∀ q, ¬ (u.sl.pc q).Owns := fun q hq => by
    rw [h.locked.mpr ⟨q, hq⟩] at hfree
    cases hfree
  have howns : ∀ q, (update u.sl.pc p .taken q).Owns → q = p := by
    intro q hq
    by_contra hqp
    rw [update_of_ne hqp] at hq
    exact hnone q hq
  refine ⟨h.pids, fun q hq => ?_, fun q r hq hr => (howns q hq).trans (howns r hr).symm,
    iff_of_true rfl ⟨p, ?_⟩, fun q hq => ?_⟩
  · rcases eq_or_ne q p with rfl | hqp
    · exact hlive
    · refine h.live q ?_
      change update u.sl.pc p .taken q ≠ .out ∨ _ at hq
      rwa [update_of_ne hqp] at hq
  · change (update u.sl.pc p .taken p).Owns
    rw [update_self]
    trivial
  · obtain rfl := howns q hq
    rfl

lemma Inv.clear (hp : (u.sl.pc p).Owns) (spin : Unit → Option Slot) :
    Inv { u with sl := ⟨u.sl.k, ⟨false, 0⟩, spin, update u.sl.pc p (.waking 0)⟩ } := by
  have hnone : ∀ q, ¬ (update u.sl.pc p (.waking 0) q).Owns := by
    intro q hq
    rcases eq_or_ne q p with rfl | hqp
    · rw [update_self] at hq
      exact hq
    · rw [update_of_ne hqp] at hq
      exact hqp (h.unique q p hq hp)
  refine ⟨h.pids, fun q hq => ?_, fun q r hq => absurd hq (hnone q), ?_,
    fun q hq => absurd hq (hnone q)⟩
  · rcases eq_or_ne q p with rfl | hqp
    · exact hlive
    · refine h.live q ?_
      change update u.sl.pc p (.waking 0) q ≠ .out ∨ _ at hq
      rwa [update_of_ne hqp] at hq
  · exact ⟨nofun, fun ⟨q, hq⟩ => absurd hq (hnone q)⟩

end

/-- **Every step keeps the invariant.** -/
lemma Inv.step (h : u.Inv) (hstep : Step ch u u') : u'.Inv := by
  cases hstep with
  | other ho hprep hexit => exact h.table ho hexit
  | ask hrun hpc hspin hask =>
    rename_i p
    refine { h with live := fun q hq => ?_ }
    rcases hq with hq | hq
    · exact h.live q (.inl hq)
    · cases hq
      rw [hrun]
      trivial
  | answer hrun hask =>
    exact { h with live := fun q hq => h.live q (.inl (hq.resolve_right nofun)) }
  | @edge p a o lk pc hrun hask he ha hfree ho =>
    have hlive : (u.sl.k.proc p).state.Live := by
      rw [hrun]
      trivial
    generalize hpc : u.sl.pc p = pc0 at he
    -- the operations on the table are not exits
    have hop : ∀ o', (∀ q st, o' ≠ .exit q st) → o'.Ok u.sl.k → ∀ pc : SleepLockPc,
        (pc.Owns ↔ pc0.Owns) → ∀ spin, Inv { u with
          sl := ⟨u.sl.k.apply o', u.sl.lk, spin, update u.sl.pc p pc⟩ } := by
      intro o' hexit hok pc howns spin
      have htable := h.table hok fun q st hq => absurd hq (hexit q st)
      refine htable.goto (live_apply hok hlive (hexit p)).1 ?_ spin
      rw [howns, ← hpc]
    cases he with
    | acquire | reacquire | enter | release | releaseTaken | releaseWoken =>
      exact h.goto hlive (by rw [hpc]; exact Iff.rfl) _
    | prepare hlocked =>
      exact hop (.sleepPrepare p ch) (fun _ _ => nofun) (ho _ rfl) .prepared Iff.rfl _
    | sleep => exact hop (.sleep p) (fun _ _ => nofun) (ho _ rfl) .again Iff.rfl _
    | wake i =>
      exact hop (.wakeup i (some ch)) (fun _ _ => nofun) (ho _ rfl) (.waking (i + 1)) Iff.rfl _
    | take hunlocked => exact h.take hlive hunlocked _
    | clear => exact h.clear hlive (by rw [hpc]; trivial) _

/-- What a process does in `acquiresleep` and `releasesleep`, and what else happens to the table. -/
lemma Step.base (hstep : Step ch u u') : Relation.ReflTransGen (SleepLock.Step ch) u.sl u'.sl := by
  cases hstep with
  | edge hrun hask h ha hfree ho => exact .single (.edge h ha ho)
  | ask => exact .refl
  | answer => exact .refl
  | other ho hprep hexit => exact .single (.other ho hprep)

lemma run_inv (h : u.Initial ch) (hrun : Relation.ReflTransGen (Step ch) u u') :
    u'.Inv ∧ Relation.ReflTransGen (SleepLock.Step ch) u.sl u'.sl := by
  induction hrun with
  | refl => exact ⟨h.inv, .refl⟩
  | tail _ hstep ih => exact ⟨ih.1.step hstep, ih.2.trans hstep.base⟩

/-- **Sleep-lock exclusion**, in every run: at most one process is between `acquiresleep` and
`releasesleep`; `locked` is set, with the pid of that process, exactly while there is one;
`holdingsleep` returns true to no other; and nobody sleeps on the lock while it is not locked and
the spinlock is free. -/
theorem sleep_lock_exclusion (h : u.Initial ch) (hrun : Relation.ReflTransGen (Step ch) u u') :
    (∀ p q, (u'.sl.pc p).Owns → (u'.sl.pc q).Owns → p = q) ∧
    (u'.sl.lk.locked = true ↔ ∃ p, (u'.sl.pc p).Owns) ∧
    (∀ p, (u'.sl.pc p).Owns → u'.sl.lk.pid = (u'.sl.k.proc p).pid) ∧
    (∀ p, u'.asker = some p → holdingsleep u'.sl.lk (u'.sl.k.proc p).pid = true →
      (u'.sl.pc p).Owns) ∧
    (u'.sl.spin () = none → u'.asker = none → u'.sl.lk.locked = false →
      ∀ p, ¬ ((u'.sl.k.proc p).state = .sleeping ∧ (u'.sl.k.proc p).chan = some ch)) := by
  obtain ⟨hinv, hbase⟩ := run_inv h hrun
  have hthere : ∀ p, (u'.sl.k.proc p).state.Live → (u'.sl.k.proc p).state ≠ .unused := by
    intro p hp hu
    rw [hu] at hp
    exact hp
  refine ⟨hinv.unique, hinv.locked, hinv.pid, fun p hask hholds => ?_, fun hspin _ hfree p hp => ?_⟩
  · -- the owner has the pid of the process that asks
    rw [holdingsleep, Bool.and_eq_true, decide_eq_true_eq] at hholds
    obtain ⟨q, hq⟩ := hinv.locked.mp hholds.1
    have hout : u'.sl.pc q ≠ .out := fun hout => by
      rw [hout] at hq
      exact hq
    have hpid := (hinv.pid q hq).symm.trans hholds.2
    have hqp := hinv.pids.unique q p (hthere q (hinv.live q (.inl hout)))
      (hthere p (hinv.live p (.inr hask))) hpid
    rwa [← hqp]
  · exact SleepLock.chan_ne_of_unlocked h.sl hbase hspin hfree p hp.2

/-- A sleep lock, with the first process running. -/
def unusedLock : SleepLockUse where
  sl := ⟨(bootKernel .rr).apply (.dispatch initproc), ⟨false, 0⟩, fun _ => none, fun _ => .out⟩
  asker := none

lemma unusedLock_initial (ch : Chan) : unusedLock.Initial ch where
  sl := by
    refine ⟨fun p hp => ?_, rfl, fun _ => rfl⟩
    have hboot := (apply_chan (o := .dispatch initproc) hp).resolve_right nofun
    rw [bootKernel_chan] at hboot
    cases hboot
  asker := rfl
  unlocked := rfl
  pids := by
    exact (distinctPids_bootKernel .rr).apply (o := .dispatch initproc) (by decide +kernel)

/-- The first process has the spinlock. -/
def testedLock : SleepLockUse where
  sl := ⟨unusedLock.sl.k, ⟨false, 0⟩, update (fun _ => none) () (some initproc),
    update (fun _ => .out) initproc .test⟩
  asker := none

/-- The first process has taken the lock. -/
def takenLock : SleepLockUse where
  sl := ⟨unusedLock.sl.k, ⟨true, (unusedLock.sl.k.proc initproc).pid⟩, testedLock.sl.spin,
    update testedLock.sl.pc initproc .taken⟩
  asker := none

/-- The first process is alone with the lock. -/
theorem sleep_lock_exclusion_taken : (takenLock.sl.pc initproc).Owns ∧
    takenLock.sl.lk.locked = true ∧ ∀ p, (takenLock.sl.pc p).Owns → p = initproc := by
  have hrun : (unusedLock.sl.k.proc initproc).state = .running := by decide +kernel
  have hacquire : Step txChan unusedLock testedLock :=
    .edge (o := none) hrun nofun .acquire rfl (fun _ => rfl) nofun
  have hedge : SleepLockEdge txChan testedLock.sl.k initproc testedLock.sl.lk
      (testedLock.sl.pc initproc) .none none
      ⟨true, (unusedLock.sl.k.proc initproc).pid⟩ .taken := by
    have hpc : testedLock.sl.pc initproc = .test := by decide +kernel
    rw [hpc]
    exact .take rfl
  have htake : Step txChan testedLock takenLock :=
    .edge (u := testedLock) hrun nofun hedge trivial nofun nofun
  obtain ⟨hunique, hlocked, -⟩ := sleep_lock_exclusion (unusedLock_initial txChan)
    ((Relation.ReflTransGen.single hacquire).tail htake)
  have hself : (takenLock.sl.pc initproc).Owns := by
    have hpc : takenLock.sl.pc initproc = .taken := by decide +kernel
    rw [hpc]
    trivial
  exact ⟨hself, hlocked.mpr ⟨_, hself⟩, fun p hp => hunique p initproc hp hself⟩

end SleepLockUse

end Xv6Riscv
