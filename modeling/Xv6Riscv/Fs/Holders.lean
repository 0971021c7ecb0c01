import Xv6Riscv.Lib.Tally
import Xv6Riscv.Fs.Descriptors
import Xv6Riscv.Fs.Kernel

/-!
Who refers to what.

The references to an inode are the processes that have it as their current directory and the open
files on it, and those to an open file are the descriptors. So an inode in use is never freed, and
the effect of every call on the file system is one of those for which the tree of directories is
kept.
-/

namespace Xv6Riscv

open Function (update update_apply update_of_ne update_self)
open Fs Wp Tally

/-! ### The invariant -/

/-- The inode an open file refers to. -/
def File.holds (f : File) : Option ℕ :=
  if f.type = .inode ∨ f.type = .device then some f.ip else none

/-- The end of a pipe an open file refers to. -/
def File.pipeEnd (f : File) : Option (ℕ × Bool) :=
  if f.type = .pipe then some (f.pipe, f.writable) else none

/-- The end for writing, or for reading, is open. -/
def PipeEnds.isOpen (e : PipeEnds) (writable : Bool) : Bool :=
  if writable then e.writeopen else e.readopen

lemma PipeEnds.isOpen_shut (e : PipeEnds) (w b : Bool) :
    (e.shut w).isOpen b = (!(b == w) && e.isOpen b) := by
  cases w <;> cases b <;> simp [shut, isOpen]

/-- An open file that can be written to is not a directory. -/
def File.Fits (f : File) (n : Node) : Prop := f.type = .inode → f.writable = true → n.type ≠ .dir

namespace Kern

abbrev files (k : Kern) : FileSys := k.fs.img.files

/-- The references to inodes that are stored somewhere. -/
def holders (k : Kern) : ℕ → ℤ := tally k.cwd + tally fun x => (k.file x).holds

def slots (k : Kern) : Fin nfile → ℤ :=
  tally fun q : Fin nproc × Fin nofile => k.ofile q.1 q.2

/-- The ends of pipes that open files refer to. -/
def ends (k : Kern) : ℕ × Bool → ℤ := tally fun x => (k.file x).pipeEnd

def openEnds (k : Kern) : ℕ × Bool → ℤ := fun q =>
  if (k.pipes q.1).any fun e => e.isOpen q.2 then 1 else 0

/-- The invariant. The processes in `A` may have descriptors; the current directories are `C`; and
besides the references that are stored there are `P` to ends of pipes, `E` to open files and `H` to
inodes. -/
structure Inv (P : ℕ × Bool → ℤ) (A : Set (Fin nproc)) (C : Fin nproc → Option ℕ)
    (E : Fin nfile → ℤ) (H : ℕ → ℤ) (k : Kern) : Prop where
  rest : AtRest k.fs
  ninodes : k.fs.img.sb.ninodes ≤ 65536
  tree : k.files.Tree
  cwd : k.cwd = C
  refs : k.fs.ref = k.holders + H
  slots : (fun x => (k.file x).ref) = k.slots + E
  closed : ∀ x, (k.file x).ref = 0 → (k.file x).type = .none
  extra : ∀ i, 0 ≤ H i
  cwds : ∀ p i, k.cwd p = some i → ∃ n, k.files i = some n ∧ n.type = .dir
  opens : ∀ x i, (k.file x).holds = some i → ∃ n, k.files i = some n ∧ (k.file x).Fits n
  loose : ∀ i, H i ≠ 0 → k.files i ≠ none
  idle : ∀ q, q ∉ A → ∀ fd, k.ofile q fd = none
  ends : k.openEnds = k.ends + P
  spare : ∀ q, 0 ≤ P q
  halfOpen : ∀ pi e, k.pipes pi = some e → e.readopen = true ∨ e.writeopen = true
  pages : ∀ pi, k.pipesMade.count pi = k.pipesFreed.count pi + if (k.pipes pi).isSome then 1 else 0

/-- The panics a call does not meet. -/
def Stops : KernPanic → Prop
  | .fs e => Fs.Stops e
  | .filedup => False
  | .fileclose => False
  | .pipeGone => False
  | _ => True

/-- The call ends in `Q`, or stops in another way. -/
def Runs {α : Type} (m : KernM α) (k : Kern) (Q : α → Kern → Prop) : Prop :=
  wp m Q (fun e _ => Stops e) k

variable {P : ℕ × Bool → ℤ} {A : Set (Fin nproc)} {C : Fin nproc → Option ℕ} {E : Fin nfile → ℤ}
  {H : ℕ → ℤ} {k k' : Kern} {i : ℕ} {x : Fin nfile} {p : Fin nproc} {fd : Fin nofile}

lemma holders_nonneg (i : ℕ) : 0 ≤ k.holders i := add_nonneg (tally_nonneg _ i) (tally_nonneg _ i)

lemma one_le_holders_cwd (h : k.cwd p = some i) : 1 ≤ k.holders i := by
  have h1 := one_le_tally h
  have h2 := tally_nonneg (fun x => (k.file x).holds) i
  change 1 ≤ tally k.cwd i + tally _ i
  omega

lemma one_le_holders_file (h : (k.file x).holds = some i) : 1 ≤ k.holders i := by
  have h1 := one_le_tally (f := fun x => (k.file x).holds) h
  have h2 := tally_nonneg k.cwd i
  change 1 ≤ tally k.cwd i + tally _ i
  omega

lemma Inv.ref_eq (h : Inv P A C E H k) (i : ℕ) : k.fs.ref i = k.holders i + H i := by
  rw [h.refs]
  rfl

lemma Inv.holders_le (h : Inv P A C E H k) (i : ℕ) : k.holders i ≤ k.fs.ref i := by
  have := h.extra i
  rw [h.ref_eq]
  omega

lemma Inv.file_ref (h : Inv P A C E H k) (x : Fin nfile) : (k.file x).ref = k.slots x + E x :=
  congrFun h.slots x

lemma Inv.held (h : Inv P A C E H k) : Held k.fs.ref k.fs.img := by
  intro i hi
  have htyped : k.files i ≠ none → k.fs.img.Typed i := fun hne => by
    by_contra ht
    exact hne (Image.files_eq_none ht)
  rw [h.ref_eq] at hi
  by_cases hH : H i = 0
  · have hh : k.holders i ≠ 0 := by omega
    change tally k.cwd i + tally (fun x => (k.file x).holds) i ≠ 0 at hh
    by_cases hc : tally k.cwd i = 0
    · obtain ⟨x, hx⟩ := exists_of_tally_ne (f := fun x => (k.file x).holds) (b := i) (by omega)
      obtain ⟨n, hn, -⟩ := h.opens x i hx
      exact htyped (by rw [hn]; exact Option.some_ne_none n)
    · obtain ⟨p, hp⟩ := exists_of_tally_ne hc
      obtain ⟨n, hn, -⟩ := h.cwds p i hp
      exact htyped (by rw [hn]; exact Option.some_ne_none n)
  · exact htyped (h.loose i hH)

lemma wp_onFs {α : Type} {m : FsM α} {Q : α → Kern → Prop} {P : KernPanic → Kern → Prop} :
    wp (onFs m) Q P k ↔ wp m (fun a s => Q a { k with fs := s })
      (fun e s => P (.fs e) { k with fs := s }) k.fs := by
  rw [onFs, wp_bind, wp_get, wp.eq_def m]
  rcases runFrom m k.fs with ⟨⟨e⟩ | ⟨a⟩, s⟩
  · exact Iff.rfl
  · exact Iff.rfl

/-- **A section** keeps the invariant, if it keeps the tree and the inodes in use. -/
lemma Inv.withFs {s' : Fs} {R H' : ℕ → ℤ} {G : FileSys → Prop} (h : Inv P A C E H k)
    (he : Ended k.fs R G s') (htree : s'.img.files.Tree) (hR : R = k.holders + H')
    (hextra : ∀ i, 0 ≤ H' i) (hkeeps : Keeps R k.files s'.img.files)
    (hloose : ∀ i, H' i ≠ 0 → H i ≠ 0 ∨ s'.img.files i ≠ none) :
    Inv P A C E H' { k with fs := s' } where
  rest := he.rest
  ninodes := he.sb ▸ h.ninodes
  tree := htree
  __ := h
  refs := he.ref.trans hR
  extra := hextra
  cwds q i hq := by
    obtain ⟨n, hn, hdir⟩ := h.cwds q i hq
    have hpos : R i ≠ 0 := by
      have h1 : 1 ≤ k.holders i := one_le_holders_cwd hq
      have h2 := hextra i
      rw [hR]
      change k.holders i + H' i ≠ 0
      omega
    obtain ⟨n', hn', ht⟩ := hkeeps i n hpos hn
    exact ⟨n', hn', ht.trans hdir⟩
  opens y i hy := by
    obtain ⟨n, hn, hfit⟩ := h.opens y i hy
    have hpos : R i ≠ 0 := by
      have h1 : 1 ≤ k.holders i := one_le_holders_file hy
      have h2 := hextra i
      rw [hR]
      change k.holders i + H' i ≠ 0
      omega
    obtain ⟨n', hn', ht⟩ := hkeeps i n hpos hn
    exact ⟨n', hn', fun h1 h2 => ht ▸ hfit h1 h2⟩
  loose i hi := by
    refine (hloose i hi).elim (fun hold => ?_) id
    obtain ⟨n, hn⟩ := Option.ne_none_iff_exists'.mp (h.loose i hold)
    have hpos : R i ≠ 0 := by
      have h1 := k.holders_nonneg i
      have h2 := hextra i
      rw [hR]
      change k.holders i + H' i ≠ 0
      omega
    obtain ⟨n', hn', -⟩ := hkeeps i n hpos hn
    exact Option.ne_none_iff_exists'.mpr ⟨n', hn'⟩

/-! ### Stores -/

/-- With another entry in the table of open files. -/
def withFile (k : Kern) (x : Fin nfile) (f : File) : Kern :=
  { k with file := update k.file x f }

@[simp] lemma file_withFile_self (f : File) : (k.withFile x f).file x = f :=
  update_self ..

def withFd (k : Kern) (p : Fin nproc) (fd : Fin nofile) (v : Option (Fin nfile)) : Kern :=
  { k with ofile := update k.ofile p (update (k.ofile p) fd v) }

lemma ofile_withFd (v : Option (Fin nfile)) (q : Fin nproc) (e : Fin nofile) :
    (k.withFd p fd v).ofile q e = if q = p ∧ e = fd then v else k.ofile q e := by
  change update k.ofile p (update (k.ofile p) fd v) q e = _
  by_cases hq : q = p
  · subst hq
    rw [update_self, update_apply]
    simp
  · rw [update_of_ne hq, if_neg fun h => hq h.1]

lemma ofile_withFd_self (v : Option (Fin nfile)) : (k.withFd p fd v).ofile p fd = v := by
  rw [ofile_withFd, if_pos ⟨rfl, rfl⟩]

lemma ofile_withFd_of_ne {e : Fin nofile} (he : e ≠ fd) (v : Option (Fin nfile)) :
    (k.withFd p fd v).ofile p e = k.ofile p e := by
  rw [ofile_withFd, if_neg fun h => he h.2]

lemma file_withFd_withFile (f : File) (v : Option (Fin nfile)) :
    ((k.withFile x f).withFd p fd v).file x = f := file_withFile_self f

def withCwd (k : Kern) (p : Fin nproc) (v : Option ℕ) : Kern :=
  { k with cwd := update k.cwd p v }

lemma holders_withFile (f : File) :
    (k.withFile x f).holders = k.holders - one (k.file x).holds + one f.holds := by
  have hupd : (fun y => ((k.withFile x f).file y).holds) =
      update (fun y => (k.file y).holds) x f.holds :=
    Function.comp_update File.holds k.file x f
  rw [holders, hupd, tally_update, holders]
  change tally k.cwd + _ = _
  abel

lemma ends_withFile (f : File) :
    (k.withFile x f).ends = k.ends - one (k.file x).pipeEnd + one f.pipeEnd := by
  have hupd : (fun y => ((k.withFile x f).file y).pipeEnd) =
      update (fun y => (k.file y).pipeEnd) x f.pipeEnd :=
    Function.comp_update File.pipeEnd k.file x f
  rw [ends, hupd, tally_update, ends]

lemma slots_withFd (v : Option (Fin nfile)) :
    (k.withFd p fd v).slots = k.slots - one (k.ofile p fd) + one v := by
  have hupd : (fun q : Fin nproc × Fin nofile => (k.withFd p fd v).ofile q.1 q.2) =
      update (fun q => k.ofile q.1 q.2) (p, fd) v := by
    funext ⟨q, e⟩
    rw [ofile_withFd, update_apply]
    simp only [Prod.mk.injEq]
  rw [Kern.slots, hupd, tally_update]
  rfl

lemma holders_withCwd (v : Option ℕ) :
    (k.withCwd p v).holders = k.holders - one (k.cwd p) + one v := by
  change tally (update k.cwd p v) + tally _ = _
  rw [tally_update, holders]
  change _ - _ + _ + tally (fun x => (k.file x).holds) = _
  abel

variable {P' : ℕ × Bool → ℤ} {E' : Fin nfile → ℤ} {H' : ℕ → ℤ}

/-- **A store into an open file**. -/
lemma Inv.withFile (h : Inv P A C E H k) {f : File}
    (hP : P' + one f.pipeEnd = P + one (k.file x).pipeEnd) (hP0 : ∀ q, 0 ≤ P' q)
    (hE : E' = E + Pi.single x (f.ref - (k.file x).ref))
    (hH : H' + one f.holds = H + one (k.file x).holds) (hH0 : ∀ i, 0 ≤ H' i)
    (hclosed : f.ref = 0 → f.type = .none)
    (hopen : ∀ i, f.holds = some i → ∃ n, k.files i = some n ∧ f.Fits n) :
    Inv P' A C E' H' (k.withFile x f) where
  __ := h
  refs := by
    change k.fs.ref = _
    rw [h.refs, holders_withFile, eq_sub_of_add_eq hH]
    abel
  slots := by
    funext y
    change (update k.file x f y).ref = k.slots y + E' y
    rw [hE, Pi.add_apply]
    by_cases hy : y = x
    · subst hy
      rw [update_self, Pi.single_eq_same, ← add_assoc, ← h.file_ref]
      omega
    · rw [update_of_ne hy, Pi.single_eq_of_ne hy, add_zero, h.file_ref]
  closed y := by
    change (update k.file x f y).ref = 0 → (update k.file x f y).type = .none
    by_cases hy : y = x
    · rwa [hy, update_self]
    · rw [update_of_ne hy]
      exact h.closed y
  extra := hH0
  opens y i := by
    change (update k.file x f y).holds = some i → ∃ n, k.files i = some n ∧
      (update k.file x f y).Fits n
    by_cases hy : y = x
    · rw [hy, update_self]
      exact hopen i
    · rw [update_of_ne hy]
      exact h.opens y i
  loose i hi := by
    have hsum : H' i + one f.holds i = H i + one (k.file x).holds i := congrFun hH i
    have h0 := hH0 i
    have h1 := one_nonneg f.holds i
    by_cases hold : (k.file x).holds = some i
    · obtain ⟨n, hn, -⟩ := h.opens x i hold
      exact hn ▸ Option.some_ne_none n
    · refine h.loose i ?_
      rw [one_of_ne hold] at hsum
      omega
  ends := by
    change k.openEnds = _
    rw [h.ends, ends_withFile, eq_sub_of_add_eq hP]
    abel
  spare := hP0

/-- **A store into a descriptor**. -/
lemma Inv.withFd (h : Inv P A C E H k) {v : Option (Fin nfile)}
    (hE : E' + one v = E + one (k.ofile p fd)) (hA : p ∈ A ∨ v = none) :
    Inv P A C E' H (k.withFd p fd v) where
  __ := h
  slots := by
    change (fun x => (k.file x).ref) = _
    rw [h.slots, slots_withFd, eq_sub_of_add_eq hE]
    abel
  idle q hq e := by
    rw [ofile_withFd]
    split_ifs with he
    · exact hA.resolve_left (he.1 ▸ hq)
    · exact h.idle q hq e

/-- **A store of a current directory**. -/
lemma Inv.withCwd (h : Inv P A C E H k) {v : Option ℕ} (hH : H' + one v = H + one (k.cwd p))
    (hH0 : ∀ i, 0 ≤ H' i) (hv : ∀ i, v = some i → ∃ n, k.files i = some n ∧ n.type = .dir) :
    Inv P A (update C p v) E H' (k.withCwd p v) where
  __ := h
  cwd := by
    change update k.cwd p v = _
    rw [h.cwd]
  refs := by
    change k.fs.ref = _
    rw [h.refs, holders_withCwd, eq_sub_of_add_eq hH]
    abel
  extra := hH0
  cwds q i := by
    change update k.cwd p v q = some i → _
    by_cases hq : q = p
    · rw [hq, update_self]
      exact hv i
    · rw [update_of_ne hq]
      exact h.cwds q i
  loose i hi := by
    have hsum : H' i + one v i = H i + one (k.cwd p) i := congrFun hH i
    have h0 := hH0 i
    have h1 := one_nonneg v i
    by_cases hold : k.cwd p = some i
    · obtain ⟨n, hn, -⟩ := h.cwds p i hold
      exact hn ▸ Option.some_ne_none n
    · refine h.loose i ?_
      rw [one_of_ne hold] at hsum
      omega

/-- With another pipe in the page `pi`. -/
def withPipe (k : Kern) (pi : ℕ) (v : Option PipeEnds) (made freed : List ℕ) : Kern :=
  { k with pipes := update k.pipes pi v, pipesMade := made, pipesFreed := freed }

lemma openEnds_withPipe {pi : ℕ} {v : Option PipeEnds} {made freed : List ℕ} (q : ℕ) (b : Bool) :
    (k.withPipe pi v made freed).openEnds (q, b) =
      if q = pi then (if v.any fun e => e.isOpen b then 1 else 0) else k.openEnds (q, b) := by
  change (if (update k.pipes pi v q).any fun e => e.isOpen b then (1 : ℤ) else 0) = _
  by_cases hq : q = pi
  · rw [hq, update_self, if_pos rfl]
  · rw [update_of_ne hq, if_neg hq, openEnds]

/-- **A store of a pipe**. -/
lemma Inv.withPipe {pi : ℕ} {v : Option PipeEnds} {made freed : List ℕ} (h : Inv P A C E H k)
    (hends : ∀ b, (if v.any fun e => e.isOpen b then (1 : ℤ) else 0) = k.ends (pi, b) + P' (pi, b))
    (hrest : ∀ q b, q ≠ pi → P' (q, b) = P (q, b)) (hP0 : ∀ q, 0 ≤ P' q)
    (hhalf : ∀ e, v = some e → e.readopen = true ∨ e.writeopen = true)
    (hpage : made.count pi = freed.count pi + if v.isSome then 1 else 0)
    (hmade : ∀ q, q ≠ pi → made.count q = k.pipesMade.count q)
    (hfreed : ∀ q, q ≠ pi → freed.count q = k.pipesFreed.count q) :
    Inv P' A C E H (k.withPipe pi v made freed) :=
  { h with
    ends := by
      funext ⟨q, b⟩
      rw [openEnds_withPipe]
      change _ = k.ends (q, b) + P' (q, b)
      by_cases hq : q = pi
      · rw [if_pos hq, hends, hq]
      · rw [if_neg hq, h.ends, hrest q b hq]
        rfl
    spare := hP0
    halfOpen := fun q e hq => by
      change update k.pipes pi v q = some e at hq
      by_cases hqp : q = pi
      · rw [hqp, update_self] at hq
        exact hhalf e hq
      · rw [update_of_ne hqp] at hq
        exact h.halfOpen q e hq
    pages := fun q => by
      change made.count q = freed.count q + if (update k.pipes pi v q).isSome then 1 else 0
      by_cases hq : q = pi
      · rw [hq, update_self, hpage]
      · rw [update_of_ne hq, hmade q hq, hfreed q hq, h.pages q] }

/-! ### The functions of `file.c` -/

section

variable {α β : Type} {m : KernM α} {Q Q' : α → Kern → Prop}

lemma Runs.bind {f : α → KernM β} {Q' : β → Kern → Prop} (h : Runs m k Q)
    (hf : ∀ a k', Q a k' → Runs (f a) k' Q') : Runs (m >>= f) k Q' := wp_bind_of h hf

lemma Runs.imp (h : Runs m k Q) (hQ : ∀ a k', Q a k' → Q' a k') : Runs m k Q' :=
  wp_mono h hQ fun _ _ he => he

lemma Runs.pure {a : α} (h : Q a k) : Runs (pure a) k Q := h

lemma Runs.read {f : Kern → KernM α} (h : Runs (f k) k Q) : Runs (get >>= f) k Q := h

lemma Runs.ite {c : Prop} [Decidable c] {m' : KernM α} (h : c → Runs m k Q)
    (h' : ¬ c → Runs m' k Q) : Runs (if c then m else m') k Q := wp_ite.mpr ⟨h, h'⟩

lemma Runs.onFs_of {m : FsM α} {G : α → Fs → Prop} (hm : wp m G (fun e _ => Fs.Stops e) k.fs) :
    Runs (Kern.onFs m) k fun a k' => G a k'.fs ∧ k' = { k with fs := k'.fs } :=
  wp_onFs.mpr (wp_mono hm (fun _ _ h => ⟨h, rfl⟩) fun _ _ he => he)

lemma Runs.onFs {m : FsM α} {R : α → ℕ → ℤ} {P : α → FileSys → Prop}
    (hm : wp m (fun a => Ended k.fs (R a) (P a)) (fun e _ => Fs.Stops e) k.fs)
    (hQ : ∀ a s', Ended k.fs (R a) (P a) s' → Q a { k with fs := s' }) : Runs (onFs m) k Q :=
  wp_onFs.mpr (wp_mono hm hQ fun _ _ he => he)

end

lemma setFile_runs {u : File → File} {Q : Unit → Kern → Prop}
    (h : Q ⟨⟩ (k.withFile x (u (k.file x)))) : Runs (setFile x u) k Q := h

lemma setFd_runs {v : Option (Fin nfile)} {Q : Unit → Kern → Prop} (h : Q ⟨⟩ (k.withFd p fd v)) :
    Runs (setFd p fd v) k Q := h

section

variable {α : Type} {f : Unit → KernM α} {Q : α → Kern → Prop}

lemma setFile_bind {u : File → File} (h : Runs (f ⟨⟩) (k.withFile x (u (k.file x))) Q) :
    Runs (setFile x u >>= f) k Q := h

lemma setFd_bind {v : Option (Fin nfile)} (h : Runs (f ⟨⟩) (k.withFd p fd v) Q) :
    Runs (setFd p fd v >>= f) k Q := h

lemma setCwd_bind {v : Option ℕ} (h : Runs (f ⟨⟩) (k.withCwd p v) Q) :
    Runs (setCwd p v >>= f) k Q := h

end

lemma filealloc_runs {Q : Option (Fin nfile) → Kern → Prop} (hnone : k.freeFile = none → Q none k)
    (hsome : ∀ x, k.freeFile = some x → (k.file x).ref = 0 →
      Q (some x) (k.withFile x { k.file x with ref := 1 })) : Runs filealloc k Q := by
  rw [filealloc]
  refine Runs.read ?_
  rcases hfree : k.freeFile with _ | x
  · exact hnone hfree
  · have h0 := List.find?_some hfree
    exact hsome x hfree (by simpa using h0)

lemma fdalloc_runs {Q : Option (Fin nofile) → Kern → Prop} (hnone : k.freeFd p = none → Q none k)
    (hsome : ∀ fd, k.freeFd p = some fd → k.ofile p fd = none →
      Q (some fd) (k.withFd p fd (some x))) : Runs (fdalloc p x) k Q := by
  rw [fdalloc]
  refine Runs.read ?_
  rcases hfree : k.freeFd p with _ | fd
  · exact hnone hfree
  · have h0 := List.find?_some hfree
    exact hsome fd hfree (by simpa using h0)

lemma Inv.filealloc (h : Inv P A C E H k) (h0 : (k.file x).ref = 0) :
    Inv P A C (E + Pi.single x 1) H (k.withFile x { k.file x with ref := 1 }) := by
  refine h.withFile rfl h.spare (by rw [h0]; rfl) rfl h.extra (fun h1 => absurd h1 one_ne_zero)
    fun i hi => ?_
  have hnone : (k.file x).holds = none := by
    rw [File.holds, h.closed x h0, if_neg (by decide)]
  rw [File.holds] at hnone hi
  rw [hnone] at hi
  cases hi

lemma Inv.withFile_same (h : Inv P A C E H k) {f : File} (href : f.ref = (k.file x).ref)
    (htype : f.type = (k.file x).type) (hip : f.ip = (k.file x).ip)
    (hw : f.writable = (k.file x).writable) (hpipe : f.pipe = (k.file x).pipe) :
    Inv P A C E H (k.withFile x f) := by
  have hholds : f.holds = (k.file x).holds := by rw [File.holds, File.holds, htype, hip]
  have hend : f.pipeEnd = (k.file x).pipeEnd := by
    rw [File.pipeEnd, File.pipeEnd, htype, hw, hpipe]
  refine h.withFile (by rw [hend]) h.spare (by rw [href, sub_self, Pi.single_zero, add_zero])
    (by rw [hholds]) h.extra
    (fun h0 => htype ▸ h.closed x (href ▸ h0)) fun i hi => ?_
  obtain ⟨n, hn, hfit⟩ := h.opens x i (hholds ▸ hi)
  exact ⟨n, hn, fun h1 h2 => hfit (htype ▸ h1) (hw ▸ h2)⟩

/-- **`filedup`**. -/
lemma filedup_runs (h : Inv P A C E H k) (hx : 1 ≤ (k.file x).ref) :
    Runs (filedup x) k fun _ k' => Inv P A C (E + Pi.single x 1) H k' ∧ k'.fs = k.fs ∧
      k'.ofile = k.ofile := by
  rw [filedup]
  refine Runs.read (Runs.ite (fun hlt => by omega) fun _ => setFile_runs ⟨?_, rfl, rfl⟩)
  refine h.withFile rfl h.spare ?_ rfl h.extra (fun h0 => ?_) fun i hi => h.opens x i hi
  · rw [add_sub_cancel_left]
  · change (k.file x).ref + 1 = 0 at h0
    omega

section

variable (h : Inv P A C E (H + Pi.single i 1) k) (hH : ∀ i, 0 ≤ H i)

include h hH

lemma Inv.gaveBack {s' : Fs}
    (he : Ended k.fs (k.fs.ref - Pi.single i 1) (GaveBack k.fs.ref i k.files) s') :
    Inv P A C E H { k with fs := s' } := by
  refine h.withFs he (he.files.tree h.tree) ?_ hH he.files.keeps fun j hj => .inl ?_
  · rw [h.refs]
    abel
  · have h3 := hH j
    have h4 := single_nonneg i j
    rw [Pi.add_apply]
    omega

lemma Inv.one_le_of_loose : 1 ≤ k.fs.ref i := by
  have h1 := k.holders_nonneg i
  have h2 := hH i
  rw [h.ref_eq, Pi.add_apply, Pi.single_eq_same]
  omega

lemma closeInode_runs :
    Runs (onFs (Fs.closeInode i)) k fun _ k' => Inv P A C E H k' ∧ k'.ofile = k.ofile := by
  have hpos := h.one_le_of_loose hH
  exact Runs.onFs (Fs.closeInode_spec h.rest (h.tree.tidy h.ninodes) hpos (h.held i (by omega)))
    fun _ s' he => ⟨h.gaveBack hH he, rfl⟩

end

/-- **`pipeclose`** closes an end that is open, and gives the page of the pipe back with the
second. -/
lemma pipeclose_runs {pi : ℕ} {w : Bool} (h : Inv (P + Pi.single (pi, w) 1) A C E H k)
    (hP : ∀ q, 0 ≤ P q) :
    Runs (pipeclose pi w) k fun _ k' => Inv P A C E H k' ∧ k'.ofile = k.ofile := by
  have hopen : k.openEnds (pi, w) = k.ends (pi, w) + (P (pi, w) + 1) := by
    rw [h.ends, Pi.add_apply, Pi.add_apply, Pi.single_eq_same]
  have h1 : 0 ≤ k.ends (pi, w) := tally_nonneg _ _
  have h2 := hP (pi, w)
  have hany : ((k.pipes pi).any fun e => e.isOpen w) = true := by
    by_contra hno
    rw [openEnds, if_neg hno] at hopen
    omega
  obtain ⟨e, he⟩ : ∃ e, k.pipes pi = some e := by
    rcases hp : k.pipes pi with _ | e
    · rw [hp] at hany
      cases hany
    · exact ⟨e, rfl⟩
  have hw : e.isOpen w = true := by rwa [he] at hany
  rw [pipeclose]
  refine Runs.read ?_
  rw [he]
  -- the end is closed, whether or not the pipe goes with it
  have hends : ∀ b, (if (e.shut w).isOpen b then (1 : ℤ) else 0) = k.ends (pi, b) + P (pi, b) := by
    intro b
    have hold : (if e.isOpen b then (1 : ℤ) else 0) = k.ends (pi, b) +
        (P (pi, b) + (Pi.single (pi, w) 1 : ℕ × Bool → ℤ) (pi, b)) := by
      have := congrFun h.ends (pi, b)
      rwa [openEnds, he, Option.any_some] at this
    rw [PipeEnds.isOpen_shut]
    by_cases hb : b = w
    · rw [hb, hw, Pi.single_eq_same, if_pos rfl] at hold
      rw [hb, beq_self_eq_true, Bool.not_true, Bool.false_and, if_neg Bool.false_ne_true]
      omega
    · have hne : (pi, b) ≠ (pi, w) := fun heq => hb (congrArg Prod.snd heq)
      rw [Pi.single_eq_of_ne hne, add_zero] at hold
      rw [beq_false_of_ne hb, Bool.not_false, Bool.true_and, hold]
  have hrest : ∀ q b, q ≠ pi → P (q, b) = (P + Pi.single (pi, w) 1 : ℕ × Bool → ℤ) (q, b) := by
    intro q b hq
    rw [Pi.add_apply, Pi.single_eq_of_ne fun heq => hq (congrArg Prod.fst heq), add_zero]
  have hpage := h.pages pi
  rw [he, Option.isSome_some, if_pos rfl] at hpage
  refine Runs.ite (fun hboth => ⟨?_, rfl⟩) fun hone => ⟨?_, rfl⟩
  · refine h.withPipe (v := none) (fun b => ?_) hrest hP (fun e he => by cases he) ?_
      (fun _ _ => rfl) fun q hq => List.count_cons_of_ne (Ne.symm hq)
    · rw [← hends]
      cases b
      · rw [PipeEnds.isOpen, if_neg Bool.false_ne_true, hboth.1]
        rfl
      · rw [PipeEnds.isOpen, if_pos rfl, hboth.2]
        rfl
    · rw [hpage, List.count_cons_self]
      rfl
  · refine h.withPipe (v := some (e.shut w)) hends hrest hP (fun e' he' => ?_) hpage
      (fun _ _ => rfl) fun _ _ => rfl
    cases he'
    by_contra hno
    push Not at hno
    exact hone ⟨Bool.eq_false_of_not_eq_true hno.1, Bool.eq_false_of_not_eq_true hno.2⟩

/-- **`fileclose`**. -/
lemma fileclose_runs (h : Inv P A C (E + Pi.single x 1) H k) (hx : 1 ≤ (k.file x).ref) :
    Runs (fileclose x) k fun _ k' => Inv P A C E H k' ∧ k'.ofile = k.ofile := by
  rw [fileclose]
  refine Runs.read (Runs.ite (fun hlt => by omega) fun _ => Runs.ite (fun hpos => ?_)
    fun hlast => ?_)
  · refine setFile_runs ⟨h.withFile rfl h.spare ?_ rfl h.extra (fun h0 => ?_)
      fun i hi => h.opens x i hi, rfl⟩
    · rw [sub_sub_cancel_left, add_assoc, ← Pi.single_add, add_neg_cancel, Pi.single_zero, add_zero]
    · change (k.file x).ref - 1 = 0 at h0
      omega
  -- the last reference: what the open file referred to is given back
  have hone : (k.file x).ref = 1 := by omega
  have h' : Inv (P + one (k.file x).pipeEnd) A C E (H + one (k.file x).holds)
      (k.withFile x { k.file x with ref := 0, type := .none }) := by
    refine h.withFile ?_ (fun q => add_nonneg (h.spare q) (one_nonneg _ q)) ?_ ?_
      (fun i => add_nonneg (h.extra i) (one_nonneg _ i)) (fun _ => rfl) fun i hi => by cases hi
    · change P + _ + one none = _
      rw [one_none, add_zero]
    · change E = E + Pi.single x 1 + Pi.single x (0 - (k.file x).ref)
      rw [hone, add_assoc, ← Pi.single_add, zero_sub, add_neg_cancel, Pi.single_zero, add_zero]
    · change H + _ + one none = _
      rw [one_none, add_zero]
  refine setFile_bind ?_
  refine Runs.ite (fun hpipe => ?_) fun hpipe => Runs.ite (fun hino => ?_) fun hno => ?_
  · have hnone : (k.file x).holds = none := by rw [File.holds, hpipe, if_neg (by decide)]
    rw [hnone, one_none, add_zero, File.pipeEnd, if_pos hpipe, one_some] at h'
    exact pipeclose_runs h' h.spare
  · rw [File.holds, if_pos hino, one_some, File.pipeEnd, if_neg hpipe, one_none, add_zero] at h'
    exact closeInode_runs h' h.extra
  · rw [File.holds, if_neg hno, one_none, add_zero, File.pipeEnd, if_neg hpipe, one_none,
      add_zero] at h'
    exact Runs.pure ⟨h', rfl⟩

end Kern

end Xv6Riscv
