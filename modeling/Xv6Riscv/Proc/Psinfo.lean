import Xv6Riscv.Lib.Stores
import Xv6Riscv.Proc.Counters

/-!
What `get_psinfo` and `sys_stat` copy to user space (`sysproc.c`, `proc.c`, `schedinfo.h`).

Both calls fill a local structure and copy all its bytes out. The local is a part of the kernel
stack, so its bytes before the call are arbitrary: `stack` below. `sys_stat` clears its structure
first, `get_psinfo` only assigns the fields.

* `psinfo_image_eq_iff`: when the images of two calls are equal, if the documented fields are.
-/

namespace Xv6Riscv

open Stores

/-- The number an `enum procstate` is. -/
def ProcState.toInt : ProcState → ℤ
  | .unused => 0 | .used => 1 | .sleeping => 2 | .runnable => 3 | .running => 4 | .zombie => 5

/-- The states in the order of `enum procstate`, which is the order of `state_stat`. -/
def ProcState.all : List ProcState := [.unused, .used, .sleeping, .runnable, .running, .zombie]

/-- The number an `enum sched_policy` is. -/
def SchedPolicy.toInt : SchedPolicy → ℤ
  | .rr => 0 | .staticPriority => 1 | .mlfq => 2

/-- `char name[16]` of a process. -/
abbrev ProcName := Fin 16 → UInt8

/-- The bytes of an `int`. -/
def intBytes (v : ℤ) : List UInt8 := (List.range 4).map fun i => UInt8.ofInt (v / 256 ^ i)

/-- The bytes of a `uint64`. -/
def uint64Bytes (v : UInt64) : List UInt8 :=
  (List.range 8).map fun i => UInt8.ofNat (v.toNat / 256 ^ i)

/-- `safestrcpy`: the bytes it stores, when `n` bytes may be stored and `t` is what is copied. The
zero after the loop is stored behind the terminating zero if that was copied by the loop. -/
def safestrcpy : ℕ → List UInt8 → List UInt8
  | 0, _ => []
  | 1, _ => [0]
  | n + 2, t => if t.headD 0 = 0 then [0, 0] else t.headD 0 :: safestrcpy (n + 1) t.tail

def cstr (t : List UInt8) : List UInt8 := t.takeWhile (· ≠ 0)

/-! ### The two structures -/

/-- The stores of six counters, as the loops over `state_stat` make them. -/
def stateStatStores (off : ℕ) (stat : ProcState → UInt64) : List (ℕ × List UInt8) :=
  ProcState.all.mapIdx fun i s => (off + 8 * i, uint64Bytes (stat s))

/-- The stores of `fill_psinfo_locked`, at the offsets of `struct psinfo`. -/
def fillPsinfoStores (p : Proc) (name : ProcName) : List (ℕ × List UInt8) :=
  [(0, intBytes (if p.state ≠ .unused then 1 else 0)),
    (4, intBytes p.pid),
    (8, intBytes p.state.toInt),
    (12, intBytes p.priority),
    (16, intBytes p.queueLevel),
    (20, intBytes p.timeSlice),
    (24, intBytes p.schedPolicy.toInt),
    (48, uint64Bytes p.runTime),
    (56, uint64Bytes p.readyCount),
    (64, uint64Bytes p.readyTicks),
    (72, uint64Bytes p.totalReadyTime),
    (80, uint64Bytes p.waitCount),
    (88, uint64Bytes p.scheduleCount),
    (96, uint64Bytes p.createTick),
    (104, uint64Bytes p.firstRunTick),
    (112, uint64Bytes p.exitTick),
    (28, safestrcpy 16 (List.ofFn name))] ++ stateStatStores 120 p.stateStat

def fillPsinfoLocked (p : Proc) (name : ProcName) (info : ℕ → UInt8) : ℕ → UInt8 :=
  patch info (fillPsinfoStores p name)

/-- `kget_psinfo`; `none` is the result −1. -/
def kgetPsinfo (k : Kernel) (name : Slot → ProcName) (pid : ℤ) (info : ℕ → UInt8) :
    Option (ℕ → UInt8) :=
  (k.lookup (Proc.isLive pid)).map fun i => fillPsinfoLocked (k.proc i) (name i) info

/-- `sizeof(struct psinfo)`. -/
def psinfoSize : ℕ := 168

/-- `sys_get_psinfo`: the bytes it hands to `copyout`, when its local held `stack`; `none` if it
returns −1 before. -/
def sysGetPsinfo (k : Kernel) (name : Slot → ProcName) (pid : ℤ) (stack : ℕ → UInt8) :
    Option (List UInt8) :=
  (kgetPsinfo k name pid stack).map fun info => bytes info psinfoSize

/-- `sizeof(struct sched_stat)`. -/
def schedStatSize : ℕ := 120

/-- The fields of a `struct sched_stat`, at their offsets. -/
def SchedStat.stores (stat : SchedStat) : List (ℕ × List UInt8) :=
  [(0, intBytes stat.currentPolicy.toInt), (4, intBytes stat.processCount),
    (8, intBytes stat.runnableCount),
    (12, intBytes stat.runningCount),
    (16, intBytes stat.sleepingCount),
    (20, intBytes stat.zombieCount),
    (24, uint64Bytes stat.totalRunTime),
    (32, uint64Bytes stat.totalReadyCount),
    (40, uint64Bytes stat.totalReadyTicks),
    (48, uint64Bytes stat.totalReadyTime),
    (56, uint64Bytes stat.totalWaitCount),
    (64, uint64Bytes stat.totalScheduleCount)] ++ stateStatStores 72 stat.totalStateStat

/-- `sys_sys_stat`: the bytes it hands to `copyout`, when its local held `stack`. `ksys_stat` begins
with a `memset` of the structure. -/
def sysSysStat (k : Kernel) (stack : ℕ → UInt8) : List UInt8 :=
  bytes (patch stack ((0, List.replicate schedStatSize 0) :: (ksysStat k).stores)) schedStatSize

/-! ### The documented fields -/

/-- A process with all fields erased that neither structure documents. -/
def Proc.documented (p : Proc) : Proc :=
  { p with chan := none, killed := false, xstate := 0, readySince := 0, parent := none }

/-- Two process tables with the same documented fields; names are compared up to their terminating
zero. -/
structure SameFields (k : Kernel) (name : Slot → ProcName) (k' : Kernel)
    (name' : Slot → ProcName) : Prop where
  proc : ∀ i, (k.proc i).documented = (k'.proc i).documented
  name : ∀ i, cstr (List.ofFn (name i)) = cstr (List.ofFn (name' i))
  policy : k.policy = k'.policy

variable {k k' : Kernel} {name name' : Slot → ProcName} {stack stack' : ℕ → UInt8}

lemma safestrcpy_cstr (n : ℕ) (t : List UInt8) : safestrcpy n t = safestrcpy n (cstr t) := by
  induction t generalizing n with
  | nil => rfl
  | cons c t ih =>
    match n with
    | 0 => rfl
    | 1 => rfl
    | n + 2 =>
      by_cases hc : c = 0
      · simp [safestrcpy, cstr, hc]
      · have hcons : cstr (c :: t) = c :: cstr t := by simp [cstr, hc]
        rw [hcons, safestrcpy, safestrcpy, List.headD_cons, List.headD_cons, List.tail_cons,
          List.tail_cons, ih (n + 1)]

/-- How many bytes `safestrcpy` stores: the string and two zeros, or as many as it may. -/
lemma length_safestrcpy (n : ℕ) (t : List UInt8) :
    (safestrcpy n t).length = min n ((cstr t).length + 2) := by
  induction t generalizing n with
  | nil =>
    match n with
    | 0 => rfl
    | 1 => rfl
    | n + 2 => simp [safestrcpy, cstr]
  | cons c t ih =>
    match n with
    | 0 => simp [safestrcpy]
    | 1 => simp [safestrcpy]
    | n + 2 =>
      by_cases hc : c = 0
      · simp [safestrcpy, cstr, hc]
      · have hcons : cstr (c :: t) = c :: cstr t := by simp [cstr, hc]
        rw [hcons, safestrcpy, List.headD_cons, if_neg hc, List.length_cons, List.tail_cons,
          ih (n + 1), List.length_cons]
        omega

lemma SameFields.fillPsinfoStores (h : SameFields k name k' name') (i : Slot) :
    fillPsinfoStores (k.proc i) (name i) = fillPsinfoStores (k'.proc i) (name' i) := by
  have hname : safestrcpy 16 (List.ofFn (name i)) = safestrcpy 16 (List.ofFn (name' i)) := by
    rw [safestrcpy_cstr, h.name i, ← safestrcpy_cstr]
  have hproc : Xv6Riscv.fillPsinfoStores (k.proc i).documented (name' i) =
      Xv6Riscv.fillPsinfoStores (k'.proc i).documented (name' i) := by rw [h.proc i]
  rw [Xv6Riscv.fillPsinfoStores, hname]
  exact hproc

lemma SameFields.lookup (h : SameFields k name k' name') (pid : ℤ) :
    k.lookup (Proc.isLive pid) = k'.lookup (Proc.isLive pid) := by
  have hlive : ∀ i, (k.proc i).isLive pid = (k'.proc i).isLive pid := by
    intro i
    have hdoc := congrArg (Proc.isLive pid) (h.proc i)
    exact hdoc
  rw [Kernel.lookup, Kernel.lookup]
  simp only [hlive]

lemma SameFields.ksysStat (h : SameFields k name k' name') : ksysStat k = ksysStat k' := by
  have hadd : ∀ (stat : SchedStat) i, stat.add (k.proc i) = stat.add (k'.proc i) := by
    intro stat i
    have hdoc := congrArg stat.add (h.proc i)
    exact hdoc
  rw [Xv6Riscv.ksysStat, Xv6Riscv.ksysStat, h.policy]
  simp only [hadd]

/-! ### The bytes that are not assigned -/

/-- The bytes of a `struct psinfo` that `fill_psinfo_locked` leaves as they were: those of `name`
from two bytes past the end of the string on, and the padding behind `name`. -/
def Unassigned (name : ProcName) (j : ℕ) : Prop :=
  28 + ((cstr (List.ofFn name)).length + 2) ≤ j ∧ j < 44 ∨ 44 ≤ j ∧ j < 48

/-- **The assigned bytes** of a `struct psinfo`. -/
lemma covers_fillPsinfo (p : Proc) (name : ProcName) {j : ℕ} (hj : j < psinfoSize) :
    Covers (fillPsinfoStores p name) j ↔ ¬ Unassigned name j := by
  have hlen := length_safestrcpy 16 (List.ofFn name)
  simp only [Covers, fillPsinfoStores, stateStatStores, ProcState.all, List.mapIdx_cons,
    List.mapIdx_nil, List.cons_append, List.nil_append, List.mem_cons, List.not_mem_nil, or_false,
    exists_eq_or_imp, exists_eq_left, Within, intBytes, uint64Bytes, List.length_map,
    List.length_range, hlen, Unassigned]
  rw [psinfoSize] at hj
  omega

/-- **`get_psinfo` and `sys_stat`** over two tables with the same documented fields. `sys_stat`
copies the same bytes out whatever the stack held. `get_psinfo` does so exactly if there is no
process to report or the stack held the same at the bytes that are not assigned. -/
theorem psinfo_image_eq_iff (h : SameFields k name k' name') (pid : ℤ) (stack stack' : ℕ → UInt8) :
    (sysGetPsinfo k name pid stack = sysGetPsinfo k' name' pid stack' ↔
      ∀ i, k.lookup (Proc.isLive pid) = some i → ∀ j, Unassigned (name i) j → stack j = stack' j) ∧
    sysSysStat k stack = sysSysStat k' stack' := by
  constructor
  · rw [sysGetPsinfo, sysGetPsinfo, kgetPsinfo, kgetPsinfo, ← h.lookup pid]
    cases hi : k.lookup (Proc.isLive pid) with
    | none => simp
    | some i =>
      simp only [Option.map_some, Option.some.injEq, forall_eq']
      rw [fillPsinfoLocked, fillPsinfoLocked, ← h.fillPsinfoStores i, patch_agree]
      constructor
      · intro hall j hj
        have hlt : j < psinfoSize := by
          rw [psinfoSize]
          rcases hj with hj | hj <;> omega
        exact hall j hlt fun hcov => (covers_fillPsinfo _ _ hlt).mp hcov hj
      · intro hall j hlt hcov
        exact hall j (not_not.mp fun hj => hcov ((covers_fillPsinfo _ _ hlt).mpr hj))
  · rw [sysSysStat, sysSysStat, h.ksysStat]
    refine patch_agree.mpr fun j hj hnot => absurd ⟨_, List.mem_cons_self, ?_⟩ hnot
    rw [List.length_replicate]
    exact ⟨Nat.zero_le _, by omega⟩

/-- The first process, with a name of four bytes. -/
def initName : ProcName := ![105, 110, 105, 116, 0, 0, 0, 0, 0, 0, 0, 0, 0, 0, 0, 0]

theorem psinfo_image_eq_iff_boot :
    SameFields (bootKernel .rr) (fun _ => initName) (bootKernel .rr) (fun _ => initName) ∧
    ((sysGetPsinfo (bootKernel .rr) (fun _ => initName) 1 (fun _ => 0) =
        sysGetPsinfo (bootKernel .rr) (fun _ => initName) 1 (fun j => if j < 28 then 1 else 0) ↔
      ∀ i, (bootKernel .rr).lookup (Proc.isLive 1) = some i → ∀ j, Unassigned initName j →
        (0 : UInt8) = if j < 28 then 1 else 0) ∧
    sysSysStat (bootKernel .rr) (fun _ => 0) =
      sysSysStat (bootKernel .rr) (fun j => if j < 28 then 1 else 0)) :=
  ⟨⟨fun _ => rfl, fun _ => rfl, rfl⟩, psinfo_image_eq_iff ⟨fun _ => rfl, fun _ => rfl, rfl⟩ 1 _ _⟩

/-- The information about the first process shows what the stack held. -/
theorem psinfo_shows_stack :
    sysGetPsinfo (bootKernel .rr) (fun _ => initName) 1 (fun _ => 0) ≠
      sysGetPsinfo (bootKernel .rr) (fun _ => initName) 1 (fun _ => 1) := by
  decide +kernel

end Xv6Riscv
