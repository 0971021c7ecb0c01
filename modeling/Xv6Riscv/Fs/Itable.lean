import Xv6Riscv.Fs.Descriptors
import Xv6Riscv.Lib.Tally
import Xv6Riscv.Lib.Transition

/-!
The entries of the inode table that open files, current directories and path look-ups need.

The table has `NINODE` entries, fewer than the `NFILE` open files and the `NPROC` current
directories that may refer to different inodes. `iget` panics if it finds no entry. Here the entries
have their places in the table, and system calls may be interrupted between the sections under
`itable.lock` and `ftable.lock`; a call in progress has the entries its local variables point to.

* `Opens.step`: the steps of `namex`, `sys_open`, `sys_close`, `sys_dup`, `sys_chdir`, `kfork` and
  `kexit` on the table, the open files, the descriptors and the current directories.
* `Opens.iget_panics_iff`: `iget` panics exactly if `NINODE` other inodes are in use.
* `Opens.table_full`: this happens, with few open files.
-/

namespace Xv6Riscv

open Function (update update_eq_self update_of_ne update_self)
open Tally

/-- The fields of `struct inode` under `itable.lock`. -/
structure InodeEntry where
  dev : UInt32
  inum : UInt32
  ref : ℤ
  deriving DecidableEq

def InodeEntry.key (x : InodeEntry) : UInt32 × UInt32 := (x.dev, x.inum)

/-- `itable.inode`. -/
abbrev Itable := Fin ninode → InodeEntry

namespace Itable

def lookup (t : Itable) (key : UInt32 × UInt32) : Option (Fin ninode) :=
  (List.finRange ninode).find? fun e => 0 < (t e).ref ∧ (t e).dev = key.1 ∧ (t e).inum = key.2

def empty (t : Itable) : Option (Fin ninode) :=
  (List.finRange ninode).find? fun e => (t e).ref = 0

/-- `ip->ref += n`. -/
def addRef (t : Itable) (e : Fin ninode) (n : ℤ) : Itable :=
  update t e { t e with ref := (t e).ref + n }

def iget (t : Itable) (key : UInt32 × UInt32) : Except FsPanic (Fin ninode × Itable) :=
  match t.lookup key with
  | some e => .ok (e, t.addRef e 1)
  | none =>
    match t.empty with
    | none => .error .noInodes
    | some e => .ok (e, update t e ⟨key.1, key.2, 1⟩)

end Itable

/-- The inode table, the open files on inodes, the descriptors and the current directories, and the
entries a system call in progress has. An open file has its inode and the number of its
descriptors. -/
structure Opens where
  table : Itable
  file : Fin nfile → Option (Fin ninode × ℕ)
  ofile : Fin nproc → Fin nofile → Option (Fin nfile)
  cwd : Fin nproc → Option (Fin ninode)
  vars : Fin nproc → List (Fin ninode)

/-- The steps of a process. -/
inductive OpenAction
  /-- `iget`, in `namex`, `dirlookup` or `ialloc` -/
  | iget (p : Fin nproc) (key : UInt32 × UInt32)
  /-- `idup(p->cwd)` in `namex` -/
  | idup (p : Fin nproc)
  /-- the last section of `iput`, for an inode the call has -/
  | iput (p : Fin nproc) (e : Fin ninode)
  /-- the end of `sys_open`, with the inode at hand -/
  | openFile (p : Fin nproc) (e : Fin ninode)
  | dup (p : Fin nproc) (fd : Fin nofile)
  /-- `sys_close` or `kexit`; an inode that is no longer used is left to `iput` -/
  | close (p : Fin nproc) (fd : Fin nofile)
  /-- the end of `sys_chdir`; the old directory is left to `iput` -/
  | chdir (p : Fin nproc) (e : Fin ninode)
  /-- `np` is the process `allocproc` returns -/
  | fork (p np : Fin nproc)
  /-- `kexit`, after the files are closed -/
  | exit (p : Fin nproc)
  deriving DecidableEq

namespace Opens

/-- After `userinit`: the first process is in the root directory. -/
def init (p : Fin nproc) : Opens where
  table e := if e.val = 0 then ⟨1, 1, 1⟩ else ⟨0, 0, 0⟩
  file _ := none
  ofile _ _ := none
  cwd := update (fun _ => none) p (some ⟨0, by decide⟩)
  vars _ := []

/-- The open file `filealloc` finds. -/
def freeFile (s : Opens) : Option (Fin nfile) :=
  (List.finRange nfile).find? fun x => (s.file x).isNone

/-- The descriptor `fdalloc` finds. -/
def freeFd (s : Opens) (p : Fin nproc) : Option (Fin nofile) :=
  (List.finRange nofile).find? fun fd => (s.ofile p fd).isNone

def setFd (s : Opens) (p : Fin nproc) (fd : Fin nofile) (x : Option (Fin nfile)) : Opens :=
  { s with ofile := update s.ofile p (update (s.ofile p) fd x) }

def filedup (s : Opens) (x : Fin nfile) : Opens :=
  { s with file := update s.file x ((s.file x).map fun (e, n) => (e, n + 1)) }

/-- The last section of `iput`: `ip->ref--`. -/
def iput (s : Opens) (p : Fin nproc) (e : Fin ninode) : Opens :=
  { s with
    table := s.table.addRef e (-1)
    vars := update s.vars p ((s.vars p).erase e) }

/-- The open files of `p` are also those of `np`. -/
def copyFds (s : Opens) (p np : Fin nproc) : Opens :=
  (List.finRange nofile).foldl (fun s fd =>
    match s.ofile p fd with
    | none => s
    | some x => (s.filedup x).setFd np fd (some x)) s

/-- The process can be created in this slot. -/
def Unused (s : Opens) (p : Fin nproc) : Prop :=
  s.cwd p = none ∧ s.vars p = [] ∧ ∀ fd, s.ofile p fd = none

instance (s : Opens) (p : Fin nproc) : Decidable (s.Unused p) :=
  inferInstanceAs (Decidable (_ ∧ _))

/-- One step, where it is possible: the state after it, or the panic. -/
def step (s : Opens) : OpenAction → Option (Except FsPanic Opens)
  | .iget p key =>
    if s.Unused p then none
    else some ((s.table.iget key).map fun (e, t) =>
      { s with table := t, vars := update s.vars p (e :: s.vars p) })
  | .idup p =>
    (s.cwd p).map fun e => .ok { s with
      table := s.table.addRef e 1
      vars := update s.vars p (e :: s.vars p) }
  | .iput p e => if e ∈ s.vars p then some (.ok (s.iput p e)) else none
  | .openFile p e =>
    if e ∈ s.vars p then
      match s.freeFile, s.freeFd p with
      | some x, some fd =>
        some (.ok { s.setFd p fd (some x) with
          file := update s.file x (some (e, 1))
          vars := update s.vars p ((s.vars p).erase e) })
      -- the call fails
      | _, _ => some (.ok (s.iput p e))
    else none
  | .dup p fd =>
    match s.ofile p fd, s.freeFd p with
    | some x, some fd' => some (.ok ((s.filedup x).setFd p fd' (some x)))
    | _, _ => some (.ok s)
  | .close p fd =>
    match s.ofile p fd with
    | none => some (.ok s)
    | some x =>
      match s.file x with
      | none => none
      | some (e, n) =>
        if 1 < n then
          some (.ok { s.setFd p fd none with
            file := update s.file x (some (e, n - 1)) })
        else
          some (.ok { s.setFd p fd none with
            file := update s.file x none
            vars := update s.vars p (e :: s.vars p) })
  | .chdir p e =>
    if e ∈ s.vars p then
      (s.cwd p).map fun old => .ok { s with
        cwd := update s.cwd p (some e)
        vars := update s.vars p (old :: (s.vars p).erase e) }
    else none
  | .fork p np =>
    if s.Unused np ∧ np ≠ p then
      (s.cwd p).map fun e => .ok { s.copyFds p np with
        table := s.table.addRef e 1
        cwd := update s.cwd np (some e) }
    else none
  | .exit p =>
    if ∀ fd, s.ofile p fd = none then
      (s.cwd p).map fun e => .ok { s with
        cwd := update s.cwd p none
        vars := update s.vars p (e :: s.vars p) }
    else none

inductive Reachable (p : Fin nproc) : Opens → Prop
  | init : Reachable p (init p)
  | step {s t : Opens} {a : OpenAction} (hs : Reachable p s) (h : s.step a = some (.ok t)) :
      Reachable p t

/-! ### The invariant -/

def ips (s : Opens) (x : Fin nfile) : Option (Fin ninode) := (s.file x).map Prod.fst

def places (s : Opens) (e : Fin ninode) : ℤ :=
  Tally.tally s.cwd e + Tally.tally s.ips e + ∑ p, ((s.vars p).count e : ℤ)

/-- **The invariant**: `ref` counts the places, and no inode has two entries. -/
structure Inv (s : Opens) : Prop where
  ref : ∀ e, (s.table e).ref = s.places e
  unique : ∀ e e', 0 < (s.table e).ref → 0 < (s.table e').ref → (s.table e).key = (s.table e').key →
    e = e'

variable {s t : Opens} {p : Fin nproc} {e : Fin ninode} {x : Fin nfile} {fd : Fin nofile}

lemma places_nonneg (s : Opens) (e : Fin ninode) : 0 ≤ tally s.cwd e ∧
    0 ≤ tally s.ips e ∧ 0 ≤ ∑ p, ((s.vars p).count e : ℤ) :=
  ⟨tally_nonneg .., tally_nonneg .., Finset.sum_nonneg fun _ _ => Int.natCast_nonneg _⟩

lemma places_pos_of_cwd (h : s.cwd p = some e) : 0 < s.places e := by
  have hone := one_le_tally h
  obtain ⟨-, h2, h3⟩ := s.places_nonneg e
  rw [places]
  omega

lemma places_pos_of_file (h : s.ips x = some e) : 0 < s.places e := by
  have hone := one_le_tally h
  obtain ⟨h1, -, h3⟩ := s.places_nonneg e
  rw [places]
  omega

lemma places_pos_of_mem (h : e ∈ s.vars p) : 0 < s.places e := by
  have hone : (1 : ℤ) ≤ ∑ p, ((s.vars p).count e : ℤ) := calc
    (1 : ℤ) ≤ ((s.vars p).count e : ℤ) := by exact_mod_cast List.count_pos_iff.mpr h
    _ ≤ _ := Finset.single_le_sum (f := fun p => ((s.vars p).count e : ℤ))
      (fun _ _ => Int.natCast_nonneg _) (Finset.mem_univ p)
  obtain ⟨h1, h2, -⟩ := s.places_nonneg e
  rw [places]
  omega

variable {l : List (Fin ninode)}

lemma places_vars (hvars : t.vars = update s.vars p l) (e : Fin ninode) :
    t.places e - s.places e = (tally t.cwd e - tally s.cwd e) +
      (tally t.ips e - tally s.ips e) + ((l.count e : ℤ) - (s.vars p).count e) := by
  have hsum := sum_update (fun v : List (Fin ninode) => (v.count e : ℤ)) s.vars p l
  rw [places, places, hvars, hsum]
  ring

lemma addRef_ref (t : Itable) (e e' : Fin ninode) (n : ℤ) :
    (t.addRef e n e').ref = (t e').ref + one (some e) e' * n := by
  rw [Itable.addRef, one_some]
  rcases eq_or_ne e' e with rfl | he
  · simp
  · simp [he]

lemma addRef_key (t : Itable) (e e' : Fin ninode) (n : ℤ) : (t.addRef e n e').key = (t e').key := by
  rw [Itable.addRef]
  rcases eq_or_ne e' e with rfl | he
  · simp [InodeEntry.key]
  · simp [he]

lemma Inv.of_same (h : s.Inv)
    (href : ∀ e, (t.table e).ref - (s.table e).ref = t.places e - s.places e)
    (hkey : ∀ e, (t.table e).key = (s.table e).key)
    (hpos : ∀ e, 0 < (t.table e).ref → 0 < (s.table e).ref) : t.Inv where
  ref e := by
    have hd := href e
    rw [h.ref] at hd
    omega
  unique e e' he he' hee := by
    rw [hkey, hkey] at hee
    exact h.unique e e' (hpos e he) (hpos e' he') hee

lemma Inv.addRef {n : ℤ} (h : s.Inv) (hpos : 0 < s.places e) (htable : t.table = s.table.addRef e n)
    (hvars : t.vars = update s.vars p l)
    (hplaces : ∀ e', (tally t.cwd e' - tally s.cwd e') +
      (tally t.ips e' - tally s.ips e') + ((l.count e' : ℤ) - (s.vars p).count e') =
      one (some e) e' * n) : t.Inv := by
  refine h.of_same (fun e' => ?_) (fun e' => ?_) fun e' he' => ?_
  · rw [places_vars hvars, hplaces, htable, addRef_ref]
    ring
  · rw [htable, addRef_key]
  · rcases eq_or_ne e' e with rfl | hne
    · rwa [h.ref]
    · rwa [htable, addRef_ref, one_some, Pi.single_eq_of_ne hne, zero_mul, add_zero] at he'

lemma Inv.move (h : s.Inv) (htable : t.table = s.table) (hvars : t.vars = update s.vars p l)
    (hplaces : ∀ e', (tally t.cwd e' - tally s.cwd e') +
      (tally t.ips e' - tally s.ips e') + ((l.count e' : ℤ) - (s.vars p).count e') = 0) :
    t.Inv := by
  refine h.of_same (fun e' => ?_) (fun e' => by rw [htable]) fun e' he' => htable ▸ he'
  rw [places_vars hvars, hplaces, htable, sub_self]

lemma count_cons_sub (l : List (Fin ninode)) (e e' : Fin ninode) :
    (((e :: l).count e' : ℕ) : ℤ) - (l.count e' : ℕ) = one (some e) e' := by
  rw [List.count_cons, one_some, Pi.single_apply]
  rcases eq_or_ne e' e with rfl | he
  · simp
  · simp [he, he.symm]

lemma count_erase_sub (h : e ∈ l) (e' : Fin ninode) :
    (((l.erase e).count e' : ℕ) : ℤ) - (l.count e' : ℕ) = - one (some e) e' := by
  have hperm := (List.perm_cons_erase h).count_eq e'
  have hcons := count_cons_sub (l.erase e) e e'
  rw [hperm]
  omega

/-! ### The steps keep the invariant -/

lemma ips_update {v : Option (Fin ninode × ℕ)} (hfile : t.file = update s.file x v) :
    tally t.ips = tally s.ips - one (s.ips x) + one (v.map Prod.fst) := by
  have hips : t.ips = update s.ips x (v.map Prod.fst) := by
    funext y
    rw [ips, hfile]
    exact Function.apply_update (fun _ v => v.map Prod.fst) s.file x v y
  rw [hips, tally_update]

lemma filedup_ips (s : Opens) (x : Fin nfile) : (s.filedup x).ips = s.ips :=
  funext (Upd.map (Option.map Prod.fst) (by rw [Option.map_map]; rfl))

/-- `kfork` copies descriptors, which are no references to inodes. -/
lemma copyFds_spec (s : Opens) (p np : Fin nproc) : (s.copyFds p np).ips = s.ips ∧
    (s.copyFds p np).vars = s.vars := by
  rw [copyFds]
  suffices h : ∀ (l : List (Fin nofile)) (s : Opens),
      (l.foldl (fun s fd => match s.ofile p fd with
        | none => s
        | some x => (s.filedup x).setFd np fd (some x)) s).ips = s.ips ∧
      (l.foldl (fun s fd => match s.ofile p fd with
        | none => s
        | some x => (s.filedup x).setFd np fd (some x)) s).vars = s.vars from h _ s
  intro l
  induction l with
  | nil => exact fun s => ⟨rfl, rfl⟩
  | cons fd l ih =>
    intro s
    rw [List.foldl_cons]
    cases s.ofile p fd with
    | none => exact ih s
    | some x =>
      obtain ⟨hips, hvars⟩ := ih ((s.filedup x).setFd np fd (some x))
      exact ⟨hips.trans (s.filedup_ips x), hvars⟩

lemma lookup_some {t : Itable} {key : UInt32 × UInt32} (h : t.lookup key = some e) :
    0 < (t e).ref ∧ (t e).key = key := by
  have hspec := List.find?_some h
  simp only [decide_eq_true_eq] at hspec
  exact ⟨hspec.1, Prod.ext hspec.2.1 hspec.2.2⟩

lemma lookup_none {t : Itable} {key : UInt32 × UInt32} (h : t.lookup key = none)
    (e : Fin ninode) (he : 0 < (t e).ref) : (t e).key ≠ key := by
  rintro rfl
  have hspec := List.find?_eq_none.mp h e (List.mem_finRange e)
  simp only [decide_eq_true_eq] at hspec
  exact hspec ⟨he, rfl, rfl⟩

lemma empty_some {t : Itable} (h : t.empty = some e) : (t e).ref = 0 := by
  simpa using List.find?_some h

lemma empty_none {t : Itable} (h : t.empty = none) (e : Fin ninode) : (t e).ref ≠ 0 := by
  simpa using List.find?_eq_none.mp h e (List.mem_finRange e)

section

variable (h : s.Inv)

include h

lemma Inv.iget {key : UInt32 × UInt32} {t' : Itable} (hget : s.table.iget key = .ok (e, t')) :
    Inv { s with table := t', vars := update s.vars p (e :: s.vars p) } := by
  rw [Itable.iget] at hget
  cases hlook : s.table.lookup key with
  | some e0 =>
    rw [hlook] at hget
    obtain ⟨rfl, rfl⟩ := Prod.mk.inj (Except.ok.inj hget)
    obtain ⟨hpos, -⟩ := lookup_some hlook
    refine h.addRef (p := p) (h.ref _ ▸ hpos) rfl rfl fun e' => ?_
    rw [count_cons_sub, mul_one]
    change (tally s.cwd e' - tally s.cwd e') +
      (tally s.ips e' - tally s.ips e') + _ = _
    ring
  | none =>
    rw [hlook] at hget
    cases hempty : s.table.empty with
    | none =>
      rw [hempty] at hget
      cases hget
    | some e0 =>
      rw [hempty] at hget
      obtain ⟨rfl, rfl⟩ := Prod.mk.inj (Except.ok.inj hget)
      have hzero := empty_some hempty
      have hnew := lookup_none hlook
      refine ⟨fun e' => ?_, fun a b ha hb hab => ?_⟩
      · have hplaces := places_vars (s := s)
          (t := { s with
            table := update s.table e0 ⟨key.1, key.2, 1⟩
            vars := update s.vars p (e0 :: s.vars p) }) rfl e'
        rw [count_cons_sub, ← h.ref] at hplaces
        change _ = (tally s.cwd e' - tally s.cwd e') +
          (tally s.ips e' - tally s.ips e') + _ at hplaces
        rw [sub_self, sub_self, zero_add, zero_add, one_some] at hplaces
        dsimp only
        rcases eq_or_ne e' e0 with rfl | he'
        · rw [update_self]
          rw [Pi.single_eq_same, hzero] at hplaces
          dsimp only
          omega
        · rw [update_of_ne he']
          rw [Pi.single_eq_of_ne he'] at hplaces
          omega
      · refine Upd.unique (K := fun (x : InodeEntry) k => 0 < x.ref ∧ x.key = k)
          (fun q r _ hq hr => h.unique q r hq.1 hr.1 (hq.2.trans hr.2.symm)) ?_ ⟨ha, hab⟩ ⟨hb, rfl⟩
        exact fun _ hx q _ hq => hnew q hq.1 (hq.2.trans hx.2.symm)

lemma Inv.iput (he : e ∈ s.vars p) : (s.iput p e).Inv := by
  refine h.addRef (p := p) (places_pos_of_mem he) rfl rfl fun e' => ?_
  rw [count_erase_sub he]
  change (tally s.cwd e' - tally s.cwd e') +
    (tally s.ips e' - tally s.ips e') + _ = _
  ring

lemma Inv.openFile (he : e ∈ s.vars p) (hx : s.freeFile = some x) :
    Inv { s.setFd p fd (some x) with
      file := update s.file x (some (e, 1))
      vars := update s.vars p ((s.vars p).erase e) } := by
  have hnone : s.ips x = none := by
    have hfree : (s.file x).isNone := List.find?_some (p := fun x => (s.file x).isNone) hx
    rw [ips, Option.isNone_iff_eq_none.mp hfree]
    rfl
  refine h.move (p := p) rfl rfl fun e' => ?_
  rw [ips_update (s := s) (x := x) rfl, count_erase_sub he, hnone]
  change tally s.cwd e' - tally s.cwd e' + _ + _ = _
  simp only [one_none, Option.map_some, Pi.add_apply, sub_zero]
  ring

lemma Inv.close {n m : ℕ} {v : Option (Fin ninode × ℕ)} (hx : s.file x = some (e, n))
    (hv : v = some (e, m) ∧ l = s.vars p ∨ v = none ∧ l = e :: s.vars p) :
    Inv { s.setFd p fd none with
      file := update s.file x v
      vars := update s.vars p l } := by
  have hsome : s.ips x = some e := by
    rw [ips, hx]
    rfl
  refine h.move (p := p) rfl rfl fun e' => ?_
  rw [ips_update (s := s) (x := x) rfl, hsome]
  change tally s.cwd e' - tally s.cwd e' + _ + _ = _
  rcases hv with ⟨rfl, rfl⟩ | ⟨rfl, rfl⟩
  · simp only [Option.map_some, Pi.add_apply, Pi.sub_apply]
    ring
  · rw [count_cons_sub]
    simp only [Option.map_none, one_none, Pi.add_apply, Pi.sub_apply, Pi.zero_apply]
    ring

lemma Inv.chdir {old : Fin ninode} (he : e ∈ s.vars p) (hold : s.cwd p = some old) :
    Inv { s with
      cwd := update s.cwd p (some e)
      vars := update s.vars p (old :: (s.vars p).erase e) } := by
  refine h.move (p := p) rfl rfl fun e' => ?_
  have hcons := count_cons_sub ((s.vars p).erase e) old e'
  have herase := count_erase_sub he e'
  change tally (update s.cwd p (some e)) e' - tally s.cwd e' +
    (tally s.ips e' - tally s.ips e') + _ = _
  rw [tally_update, hold, Pi.add_apply, Pi.sub_apply]
  omega

lemma Inv.fork {np : Fin nproc} (hnp : s.cwd np = none) (he : s.cwd p = some e) :
    Inv { s.copyFds p np with
      table := s.table.addRef e 1
      cwd := update s.cwd np (some e) } := by
  obtain ⟨hips, hvars⟩ := s.copyFds_spec p np
  refine h.addRef (p := np) (l := s.vars np) (places_pos_of_cwd he) rfl ?_ fun e' => ?_
  · rw [update_eq_self]
    exact hvars
  · change tally (update s.cwd np (some e)) e' - tally s.cwd e' +
      (tally (s.copyFds p np).ips e' - tally s.ips e') + _ = _
    rw [tally_update, hnp, hips, one_none, sub_zero, Pi.add_apply]
    ring

lemma Inv.exit (he : s.cwd p = some e) :
    Inv { s with
      cwd := update s.cwd p none
      vars := update s.vars p (e :: s.vars p) } := by
  refine h.move (p := p) rfl rfl fun e' => ?_
  rw [count_cons_sub]
  change tally (update s.cwd p none) e' - tally s.cwd e' +
    (tally s.ips e' - tally s.ips e') + _ = _
  rw [tally_update, he, one_none, add_zero, Pi.sub_apply]
  ring

lemma Inv.descriptors (htable : t.table = s.table) (hcwd : t.cwd = s.cwd) (hips : t.ips = s.ips)
    (hvars : t.vars = s.vars) : t.Inv := by
  refine h.of_same (fun e => ?_) (fun e => by rw [htable]) fun e he => htable ▸ he
  rw [places, places, hcwd, hips, hvars, htable, sub_self, sub_self]

end

variable {a : OpenAction}

/-- **Every step keeps the invariant.** -/
lemma Inv.step (h : s.Inv) (hstep : s.step a = some (.ok t)) : t.Inv := by
  cases a with
  | iget p key =>
    rw [Opens.step] at hstep
    split_ifs at hstep
    cases hget : s.table.iget key with
    | error e =>
      rw [hget] at hstep
      cases hstep
    | ok r =>
      rw [hget] at hstep
      cases hstep
      exact h.iget hget
  | idup p =>
    obtain ⟨e, he, heq⟩ := Option.map_eq_some_iff.mp hstep
    cases heq
    refine h.addRef (p := p) (places_pos_of_cwd he) rfl rfl fun e' => ?_
    rw [count_cons_sub, mul_one]
    change (tally s.cwd e' - tally s.cwd e') +
      (tally s.ips e' - tally s.ips e') + _ = _
    ring
  | iput p e =>
    rw [Opens.step] at hstep
    split_ifs at hstep with he
    cases hstep
    exact h.iput he
  | openFile p e =>
    rw [Opens.step] at hstep
    split_ifs at hstep with he
    split at hstep
    · rename_i x fd hx hfd
      cases hstep
      exact h.openFile he hx
    · cases hstep
      exact h.iput he
  | dup p fd =>
    rw [Opens.step] at hstep
    split at hstep
    · rename_i x fd' hx hfd
      cases hstep
      exact h.descriptors rfl rfl (s.filedup_ips x) rfl
    · cases hstep
      exact h
  | close p fd =>
    rw [Opens.step] at hstep
    split at hstep
    · cases hstep
      exact h
    · rename_i x hx
      split at hstep
      · cases hstep
      · rename_i e n hfile
        split_ifs at hstep with hn
        · cases hstep
          have hclose : Inv { s.setFd p fd none with
              file := update s.file x (some (e, n - 1))
              vars := update s.vars p (s.vars p) } :=
            h.close hfile (.inl ⟨rfl, rfl⟩)
          rwa [update_eq_self] at hclose
        · cases hstep
          exact h.close (m := 0) hfile (.inr ⟨rfl, rfl⟩)
  | chdir p e =>
    rw [Opens.step] at hstep
    split_ifs at hstep with he
    obtain ⟨old, hold, heq⟩ := Option.map_eq_some_iff.mp hstep
    cases heq
    exact h.chdir he hold
  | fork p np =>
    rw [Opens.step] at hstep
    split_ifs at hstep with hnp
    obtain ⟨e, he, heq⟩ := Option.map_eq_some_iff.mp hstep
    cases heq
    exact h.fork hnp.1.1 he
  | exit p =>
    rw [Opens.step] at hstep
    split_ifs at hstep with hfds
    obtain ⟨e, he, heq⟩ := Option.map_eq_some_iff.mp hstep
    cases heq
    exact h.exit he

lemma inv_init (p : Fin nproc) : (init p).Inv where
  ref e := by
    have hcwd : tally (init p).cwd e = one (some ⟨0, by decide⟩) e := by
      change tally (update _ p _) e = _
      rw [tally_update, tally_none, one_none, sub_zero, zero_add]
    have hips : tally (init p).ips e = 0 := congrFun tally_none e
    have hvars : ∑ q, (((init p).vars q).count e : ℤ) = 0 := Finset.sum_const_zero
    rw [places, hcwd, hips, hvars, add_zero, add_zero]
    change (if e.val = 0 then (⟨1, 1, 1⟩ : InodeEntry) else ⟨0, 0, 0⟩).ref = _
    rw [one]
    by_cases he : e.val = 0
    · rw [if_pos he, if_pos (congrArg some (Fin.ext he.symm))]
    · rw [if_neg he, if_neg fun h => he (congrArg Fin.val (Option.some.inj h)).symm]
  unique e e' he he' _ := by
    have hzero : ∀ e, 0 < ((init p).table e).ref → e.val = 0 := by
      intro e he
      by_contra h
      change 0 < (if e.val = 0 then (⟨1, 1, 1⟩ : InodeEntry) else ⟨0, 0, 0⟩).ref at he
      rw [if_neg h] at he
      exact absurd he (by decide)
    exact Fin.ext ((hzero e he).trans (hzero e' he').symm)

/-- The invariant holds in every run. -/
lemma Reachable.inv (h : Reachable p s) : s.Inv := by
  induction h with
  | init => exact inv_init p
  | step hs hstep ih => exact ih.step hstep

/-! ### The panic -/

/-- An entry is referred to by a current directory, an open file or a call in progress. -/
def Uses (s : Opens) (e : Fin ninode) : Prop :=
  (∃ p, s.cwd p = some e) ∨ (∃ x n, s.file x = some (e, n)) ∨ ∃ p, e ∈ s.vars p

def inUse (s : Opens) : Set (UInt32 × UInt32) := {key | ∃ e, s.Uses e ∧ (s.table e).key = key}

lemma Inv.ref_pos_iff (h : s.Inv) : 0 < (s.table e).ref ↔ s.Uses e := by
  rw [h.ref e]
  constructor
  · intro hpos
    rw [places] at hpos
    by_contra hno
    have hcwd : tally s.cwd e = 0 := by
      by_contra hne
      exact hno (.inl (exists_of_tally_ne hne))
    have hips : tally s.ips e = 0 := by
      by_contra hne
      obtain ⟨x, hx⟩ := exists_of_tally_ne hne
      obtain ⟨⟨e', n⟩, hfile, rfl⟩ := Option.map_eq_some_iff.mp hx
      exact hno (.inr (.inl ⟨x, n, hfile⟩))
    have hvars : ∑ p, ((s.vars p).count e : ℤ) = 0 := by
      refine Finset.sum_eq_zero fun p _ => ?_
      exact_mod_cast List.count_eq_zero.mpr fun hp => hno (.inr (.inr ⟨p, hp⟩))
    omega
  · rintro (⟨p, hp⟩ | ⟨x, n, hx⟩ | ⟨p, hp⟩)
    · exact places_pos_of_cwd hp
    · exact places_pos_of_file (x := x) (by rw [ips, hx]; rfl)
    · exact places_pos_of_mem hp

lemma Inv.ref_nonneg (h : s.Inv) (e : Fin ninode) : 0 ≤ (s.table e).ref := by
  obtain ⟨h1, h2, h3⟩ := s.places_nonneg e
  rw [h.ref e, places]
  omega

/-- All entries are counted exactly if `NINODE` inodes are in use. -/
lemma Inv.ncard_inUse_iff (h : s.Inv) : s.inUse.ncard = ninode ↔ ∀ e, (s.table e).ref ≠ 0 := by
  have himage : s.inUse = (fun e => (s.table e).key) '' {e | s.Uses e} := rfl
  have hinj : Set.InjOn (fun e => (s.table e).key) {e | s.Uses e} := fun e he e' he' hkey =>
    h.unique e e' (h.ref_pos_iff.mpr he) (h.ref_pos_iff.mpr he') hkey
  rw [himage, hinj.ncard_image]
  constructor
  · intro hcard e
    have huniv := Set.eq_of_subset_of_ncard_le (Set.subset_univ {e | s.Uses e})
      (by rw [hcard, Set.ncard_univ, Nat.card_fin])
    have hpos := h.ref_pos_iff.mpr ((Set.ext_iff.mp huniv e).mpr trivial)
    omega
  · intro hall
    have huniv : {e | s.Uses e} = Set.univ := Set.eq_univ_of_forall fun e =>
      h.ref_pos_iff.mp (lt_of_le_of_ne (h.ref_nonneg e) (hall e).symm)
    rw [huniv, Set.ncard_univ, Nat.card_fin]

/-- **When `iget` finds no entry.** -/
lemma Inv.iget_error_iff (h : s.Inv) (key : UInt32 × UInt32) :
    s.table.iget key = .error .noInodes ↔ s.inUse.ncard = ninode ∧ key ∉ s.inUse := by
  rw [h.ncard_inUse_iff, Itable.iget]
  cases hlook : s.table.lookup key with
  | some e =>
    obtain ⟨hpos, hkey⟩ := lookup_some hlook
    exact ⟨nofun, fun ⟨_, hno⟩ => absurd ⟨e, h.ref_pos_iff.mp hpos, hkey⟩ hno⟩
  | none =>
    have hno : key ∉ s.inUse := by
      rintro ⟨e, he, hkey⟩
      exact lookup_none hlook e (h.ref_pos_iff.mpr he) hkey
    cases hempty : s.table.empty with
    | some e => exact ⟨nofun, fun ⟨hall, _⟩ => absurd (empty_some hempty) (hall e)⟩
    | none => exact ⟨fun _ => ⟨empty_none hempty, hno⟩, fun _ => rfl⟩

lemma iget_of_error (h : s.step a = some (.error .noInodes)) : ∃ p key, a = .iget p key := by
  cases a with
  | iget p key => exact ⟨p, key, rfl⟩
  | idup p =>
    obtain ⟨e, -, heq⟩ := Option.map_eq_some_iff.mp h
    cases heq
  | iput p e =>
    rw [step] at h
    split_ifs at h
    cases h
  | openFile p e =>
    rw [step] at h
    split_ifs at h
    split at h <;> cases h
  | dup p fd =>
    rw [step] at h
    split at h <;> cases h
  | close p fd =>
    rw [step] at h
    split at h
    · cases h
    · split at h
      · cases h
      · split_ifs at h <;> cases h
  | chdir p e | fork p e | exit p =>
    rw [step] at h
    split_ifs at h
    obtain ⟨_, -, heq⟩ := Option.map_eq_some_iff.mp h
    cases heq

/-- **`iget` panics exactly if `NINODE` inodes are in use and the inode is none of them**, in every
state of every run. -/
theorem iget_panics_iff (h : Reachable p s) (a : OpenAction) :
    s.step a = some (.error .noInodes) ↔
      ∃ q key, a = .iget q key ∧ ¬ s.Unused q ∧ s.inUse.ncard = ninode ∧ key ∉ s.inUse := by
  have herror : ∀ q key, s.step (.iget q key) = some (.error .noInodes) ↔
      ¬ s.Unused q ∧ s.table.iget key = .error .noInodes := by
    intro q key
    rw [step]
    by_cases hq : s.Unused q
    · rw [if_pos hq]
      exact ⟨nofun, fun hc => absurd hq hc.1⟩
    · rw [if_neg hq]
      cases s.table.iget key with
      | error e => simp [Except.map, hq]
      | ok r => simp [Except.map]
  constructor
  · intro hstep
    obtain ⟨q, key, rfl⟩ := iget_of_error hstep
    obtain ⟨hq, hget⟩ := (herror q key).mp hstep
    exact ⟨q, key, rfl, hq, (h.inv.iget_error_iff key).mp hget⟩
  · rintro ⟨q, key, rfl, hq, huse⟩
    exact (herror q key).mpr ⟨hq, (h.inv.iget_error_iff key).mpr huse⟩

def run (s : Opens) : List OpenAction → Option Opens := Transition.runOk step s

lemma Reachable.run {as : List OpenAction} (hs : Reachable p s) (h : s.run as = some t) :
    Reachable p t :=
  Transition.runOk_invariant (fun _ _ _ hs hstep => hs.step hstep) hs h

/-- The step panics with "iget: no inodes". -/
def panicsSo (s : Opens) (a : OpenAction) : Bool :=
  match s.step a with
  | some (.error .noInodes) => true
  | _ => false

lemma step_of_panicsSo (h : s.panicsSo a = true) : s.step a = some (.error .noInodes) := by
  rw [panicsSo] at h
  split at h
  · assumption
  · cases h

def procNo (n : ℕ) : Fin nproc := ⟨n % nproc, Nat.mod_lt _ (by decide +kernel)⟩

def entryNo (n : ℕ) : Fin ninode := ⟨n % ninode, Nat.mod_lt _ (by decide)⟩

/-- The first process has three children, and the four open 49 files in the root directory. -/
def openers : List OpenAction :=
  [.fork (procNo 0) (procNo 1), .fork (procNo 0) (procNo 2), .fork (procNo 0) (procNo 3)] ++
  (List.range 49).flatMap fun k =>
    let p := procNo (k / nofile)
    [.idup p, .iget p (1, 2 + UInt32.ofNat k), .iput p (entryNo 0), .openFile p (entryNo (k + 1))]

lemma openers_run : ∃ s, (init (procNo 0)).run openers = some s ∧
    ((∀ x : Fin nfile, 49 ≤ x.val → s.file x = none) ∧ s.ofile (procNo 3) ⟨1, by decide⟩ = none) ∧
    s.panicsSo (.iget (procNo 3) (1, 51)) = true := by
  have hrun : ((init (procNo 0)).run openers).map (fun s =>
      decide ((∀ x : Fin nfile, 49 ≤ x.val → s.file x = none) ∧
        s.ofile (procNo 3) ⟨1, by decide⟩ = none) && s.panicsSo (.iget (procNo 3) (1, 51))) =
      some true := by
    decide +kernel
  obtain ⟨s, hs, ha⟩ := Option.map_eq_some_iff.mp hrun
  obtain ⟨hroom, hpanic⟩ := (Bool.and_eq_true _ _).mp ha
  exact ⟨s, hs, of_decide_eq_true hroom, hpanic⟩

/-- **The inode table runs out**: four processes have 49 files open, all in the root directory, and
one of them looks up one more. -/
theorem table_full : ∃ s, Reachable (procNo 0) s ∧ (∀ x : Fin nfile, 49 ≤ x.val → s.file x = none) ∧
    s.ofile (procNo 3) ⟨1, by decide⟩ = none ∧
    s.step (.iget (procNo 3) (1, 51)) = some (.error .noInodes) := by
  obtain ⟨s, hs, ⟨hfile, hfd⟩, hpanic⟩ := openers_run
  exact ⟨s, Reachable.init.run hs, hfile, hfd, step_of_panicsSo hpanic⟩

/-- The hypothesis is met in that state: as many inodes are in use as there are entries. -/
theorem iget_panics_iff_openers : ∃ s, Reachable (procNo 0) s ∧ s.inUse.ncard = ninode ∧
    (1, 51) ∉ s.inUse := by
  obtain ⟨s, hs, -, hpanic⟩ := openers_run
  have hreach : Reachable (procNo 0) s := Reachable.init.run hs
  obtain ⟨q, key, higet, -, hfull, hnew⟩ := (iget_panics_iff hreach _).mp (step_of_panicsSo hpanic)
  cases higet
  exact ⟨s, hreach, hfull, hnew⟩

end Opens

end Xv6Riscv
