import Xv6Riscv.Fs.Holders

/-!
Every system call keeps the invariant of the open files and the tree of directories.

* `Call.Enabled`, `Call.run_ok`: a call a process can make keeps `Kern.Ok`, and does not stop
  because of a reference count or a link count.
-/

namespace Xv6Riscv

open Function (update update_apply update_eq_self update_idem update_of_ne update_self)
open Fs Wp Tally

namespace Kern

variable {P : ℕ × Bool → ℤ} {A : Set (Fin nproc)} {C : Fin nproc → Option ℕ} {E : Fin nfile → ℤ}
  {H : ℕ → ℤ} {k k' : Kern} {i c : ℕ} {x : Fin nfile} {p : Fin nproc} {fd : Fin nofile}

lemma Inv.tidy (h : Inv P A C E H k) : Tidy k.fs.img := h.tree.tidy h.ninodes

variable {α : Type}

/-- **A section** that ends with the references it began with. -/
lemma Inv.inSection {m : FsM α} {G : α → FileSys → Prop} (h : Inv P A C E H k)
    (hm : wp m (fun a => Ended k.fs k.fs.ref (G a)) (fun e _ => Fs.Stops e) k.fs)
    (hG : ∀ a f', G a f' → f'.Tree ∧ Keeps k.fs.ref k.files f') :
    Runs (onFs m) k fun a k' => Inv P A C E H k' ∧ G a k'.files ∧ k' = { k with fs := k'.fs } := by
  refine Runs.onFs hm fun a s' he => ⟨?_, he.files, rfl⟩
  obtain ⟨htree, hkeeps⟩ := hG a _ he.files
  exact h.withFs he htree h.refs h.extra hkeeps fun i hi => .inl hi

lemma Inv.inSection_same {m : FsM α} (h : Inv P A C E H k)
    (hm : wp m (fun _ => Ended k.fs k.fs.ref fun f' => f' = k.files) (fun e _ => Fs.Stops e) k.fs) :
    Runs (onFs m) k fun _ k' => Inv P A C E H k' ∧ k'.files = k.files ∧
    k' = { k with fs := k'.fs } :=
  h.inSection hm fun _ _ hf => by
    rw [hf]
    exact ⟨h.tree, .refl⟩

/-! ### Reading and writing -/

variable {out : Bool}

lemma filestat_runs (h : Inv P A C E H k) :
    Runs (filestat x out) k fun _ k' => Inv P A C E H k' := by
  rw [filestat]
  refine Runs.read (Runs.ite (fun _ => ?_) fun _ => h)
  refine Runs.bind (h.inSection_same (Fs.stat_spec h.rest)) fun _ k1 ⟨h1, _⟩ => ?_
  exact Runs.pure h1

variable {n other : ℤ}

lemma fileread_runs (h : Inv P A C E H k) {dst : ℕ → Bool} :
    Runs (fileread x dst n other) k fun _ k' => Inv P A C E H k' := by
  rw [fileread]
  refine Runs.read (Runs.ite (fun _ => h) fun _ => ?_)
  cases (k.file x).type with
  | pipe => exact h
  | device => exact h
  | none => exact trivial
  | inode =>
    refine Runs.bind (h.inSection_same (Fs.filereadInode_spec h.rest)) fun r k1 ⟨h1, _⟩ => ?_
    exact Runs.ite (fun _ => setFile_bind (Runs.pure (h1.withFile_same rfl rfl rfl rfl rfl)))
      fun _ => h1

variable {src : ℕ → Option UInt8}

lemma filewriteLoop_runs {n : ℕ} (fuel i : ℕ) (h : Inv P A C E H k)
    (htype : (k.file x).type = .inode) (hw : (k.file x).writable = true) :
    Runs (filewriteLoop x src n fuel i) k fun _ k' => Inv P A C E H k' := by
  induction fuel generalizing i k with
  | zero => exact h
  | succ fuel ih =>
    rw [filewriteLoop]
    refine Runs.ite (fun _ => ?_) fun _ => h
    refine Runs.read ?_
    have hholds : (k.file x).holds = some (k.file x).ip := by rw [File.holds, if_pos (.inl htype)]
    obtain ⟨node, hnode, hfit⟩ := h.opens x _ hholds
    refine Runs.bind (h.inSection (Fs.filewriteChunk_spec h.rest h.tidy) ?_) ?_
    · rintro _ f' (rfl | ⟨c, rfl⟩)
      · exact ⟨h.tree, .refl⟩
      · exact ⟨h.tree.content hnode (hfit htype hw), .change fun _ => rfl⟩
    · rintro r k1 ⟨h1, -, hk1⟩
      have hfile : k1.file = k.file := by rw [hk1]
      have hnext : ∀ k2, Inv P A C E H k2 → (k2.file x).type = .inode →
          (k2.file x).writable = true → Runs (if r ≠ min (n - i) Fs.chunkMax then pure i
            else filewriteLoop x src n fuel (i + min (n - i) Fs.chunkMax)) k2
            fun _ k' => Inv P A C E H k' :=
        fun k2 h2 htype2 hw2 => Runs.ite (fun _ => h2) fun _ => ih _ h2 htype2 hw2
      refine Runs.ite (fun _ => ?_) fun _ => hnext k1 h1 (hfile ▸ htype) (hfile ▸ hw)
      refine setFile_bind ?_
      refine hnext _ (h1.withFile_same rfl rfl rfl rfl rfl) ?_ ?_
      · rw [file_withFile_self, hfile]
        exact htype
      · rw [file_withFile_self, hfile]
        exact hw

lemma filewrite_runs (h : Inv P A C E H k) :
    Runs (filewrite x src n other) k fun _ k' => Inv P A C E H k' := by
  rw [filewrite]
  refine Runs.read (Runs.ite (fun _ => h) fun hno => ?_)
  have hw : (k.file x).writable = true := Bool.eq_true_of_not_eq_false fun hw => hno (.inl hw)
  rcases htype : (k.file x).type with _ | _ | _ | _
  · exact trivial
  · exact h
  · exact Runs.bind (filewriteLoop_runs _ _ h htype hw) fun _ _ h1 => h1
  · exact h

/-! ### Descriptors -/

lemma Inv.one_le_ref (h : Inv P A C 0 H k) (hfd : k.ofile p fd = some x) : 1 ≤ (k.file x).ref := by
  have h1 : 1 ≤ k.slots x :=
    one_le_tally (f := fun q : Fin nproc × Fin nofile => k.ofile q.1 q.2) (i := (p, fd)) hfd
  have h2 := h.file_ref x
  rw [Pi.zero_apply] at h2
  omega

lemma argfd_cases (k : Kern) (p : Fin nproc) (n : ℤ) :
    k.argfd p n = none ∨ ∃ fd x, k.argfd p n = some (fd, x) ∧ k.ofile p fd = some x := by
  by_cases hn : 0 ≤ n ∧ n < nofile
  · rw [argfd, dif_pos hn]
    rcases hx : k.ofile p ⟨n.toNat, by omega⟩ with _ | x
    · exact .inl rfl
    · exact .inr ⟨_, x, rfl, hx⟩
  · exact .inl (dif_neg hn)

section

variable (h : Inv P A C 0 0 k)

include h

lemma sysDup_runs (hp : p ∈ A) : Runs (sysDup p n) k fun _ k' => Inv P A C 0 0 k' := by
  rw [sysDup]
  refine Runs.read ?_
  obtain harg | ⟨fd, x, harg, hfd⟩ := argfd_cases k p n <;> rw [harg]
  · exact h
  refine Runs.bind (fdalloc_runs (Q := fun r k' => r = none ∧ k' = k ∨ ∃ e, r = some e ∧
    Inv P A C (-Pi.single x 1) 0 k' ∧ k'.file = k.file) (fun _ => .inl ⟨rfl, rfl⟩) ?_) ?_
  · intro e _ hfree
    refine .inr ⟨e, rfl, h.withFd ?_ (.inl hp), rfl⟩
    rw [hfree, one_some, one_none, neg_add_cancel, add_zero]
  · rintro _ k1 (⟨rfl, rfl⟩ | ⟨e, rfl, h1, hfile⟩)
    · exact h
    · refine Runs.bind (filedup_runs h1 (hfile ▸ h.one_le_ref hfd)) fun _ k2 ⟨h2, _⟩ => ?_
      rw [neg_add_cancel] at h2
      exact Runs.pure h2

lemma sysClose_runs : Runs (sysClose p n) k fun _ k' => Inv P A C 0 0 k' := by
  rw [sysClose]
  refine Runs.read ?_
  obtain harg | ⟨fd, x, harg, hfd⟩ := argfd_cases k p n <;> rw [harg]
  · exact h
  have h1 : Inv P A C (0 + Pi.single x 1) 0 (k.withFd p fd none) :=
    h.withFd (by rw [hfd, one_some, one_none, add_zero]) (.inr rfl)
  refine setFd_bind (Runs.bind (fileclose_runs h1 (h.one_le_ref hfd)) fun _ k2 ⟨h2, _⟩ => ?_)
  exact Runs.pure h2

lemma sysRead_runs {dst : ℕ → Bool} {m : ℤ} :
    Runs (sysRead p n dst m other) k fun _ k' => Inv P A C 0 0 k' := by
  rw [sysRead]
  refine Runs.read ?_
  obtain harg | ⟨fd, x, harg, -⟩ := argfd_cases k p n <;> rw [harg]
  · exact h
  · exact fileread_runs h

lemma sysWrite_runs {m : ℤ} : Runs (sysWrite p n src m other) k fun _ k' => Inv P A C 0 0 k' := by
  rw [sysWrite]
  refine Runs.read ?_
  obtain harg | ⟨fd, x, harg, -⟩ := argfd_cases k p n <;> rw [harg]
  · exact h
  · exact filewrite_runs h

lemma sysFstat_runs : Runs (sysFstat p n out) k fun _ k' => Inv P A C 0 0 k' := by
  rw [sysFstat]
  refine Runs.read ?_
  obtain harg | ⟨fd, x, harg, -⟩ := argfd_cases k p n <;> rw [harg]
  · exact h
  · exact filestat_runs h

end

/-! ### Pipes -/

lemma Inv.one_le_of_extra (h : Inv P A C E H k) (hx : 1 ≤ E x) : 1 ≤ (k.file x).ref := by
  have h1 := h.file_ref x
  have h2 : 0 ≤ k.slots x := tally_nonneg _ x
  omega

/-- **`filealloc`** takes an entry that refers to nothing. -/
lemma Inv.filealloc_runs (h : Inv P A C E H k) :
    Runs Kern.filealloc k fun r k' => k'.ofile = k.ofile ∧ (r = none ∧ k' = k ∨
      ∃ x, r = some x ∧ Inv P A C (E + Pi.single x 1) H k' ∧ (k.file x).ref = 0 ∧
        k'.pipes = k.pipes ∧ (k'.file x).type = .none ∧
        ∀ y, (k'.file y).type = (k.file y).type) := by
  refine Kern.filealloc_runs (fun _ => ⟨rfl, .inl ⟨rfl, rfl⟩⟩)
    fun x _ h0 => ⟨rfl, .inr ⟨x, rfl, ?_⟩⟩
  have htype : ∀ y, ((k.withFile x { k.file x with ref := 1 }).file y).type = (k.file y).type := by
    intro y
    by_cases hy : y = x
    · rw [hy, file_withFile_self]
    · exact congrArg File.type (update_of_ne hy ..)
  exact ⟨h.filealloc h0, h0, rfl, (htype x).trans (h.closed x h0), htype⟩

lemma Inv.toPipe {pi : ℕ} {w : Bool} (h : Inv (P + Pi.single (pi, w) 1) A C E H k)
    (hP : ∀ q, 0 ≤ P q) (hx : 1 ≤ (k.file x).ref) (hnone : (k.file x).type = .none) {f : File}
    (href : f.ref = (k.file x).ref) (hf : f.type = .pipe) (hpi : f.pipe = pi)
    (hw : f.writable = w) : Inv P A C E H (k.withFile x f) := by
  have hholds : f.holds = none := by rw [File.holds, hf, if_neg (by decide)]
  have hend : f.pipeEnd = some (pi, w) := by rw [File.pipeEnd, if_pos hf, hpi, hw]
  refine h.withFile ?_ hP (by rw [href, sub_self, Pi.single_zero, add_zero]) ?_ h.extra
    (fun h0 => by omega) fun i hi => ?_
  · rw [hend, one_some, File.pipeEnd, hnone, if_neg (by decide), one_none, add_zero]
  · rw [hholds, File.holds, hnone, if_neg (by decide)]
  · rw [hholds] at hi
    cases hi

variable {Q : α → Kern → Prop}

lemma closeBoth_runs {f0 f1 : Fin nfile} {a : α}
    (h : Inv P A C (Pi.single f0 1 + Pi.single f1 1) H k)
    (hQ : ∀ k', Inv P A C 0 H k' → k'.ofile = k.ofile → Q a k') :
    Runs (do fileclose f0; fileclose f1; pure a) k Q := by
  have h0 := single_nonneg f1 f0
  have h1 : 1 ≤ (k.file f0).ref := h.one_le_of_extra
    (by rw [Pi.add_apply, Pi.single_eq_same]; omega)
  rw [add_comm] at h
  refine Runs.bind (fileclose_runs h h1) fun _ k1 ⟨h₁, ho1⟩ => ?_
  have h2 : 1 ≤ (k1.file f1).ref := h₁.one_le_of_extra (by rw [Pi.single_eq_same])
  rw [← zero_add (Pi.single f1 1 : Fin nfile → ℤ)] at h₁
  refine Runs.bind (fileclose_runs h₁ h2) fun _ k2 ⟨h₂, ho2⟩ => ?_
  exact Runs.pure (hQ k2 h₂ (ho2.trans ho1))

lemma Inv.newPipe {pi : ℕ} (h : Inv P A C E H k) (hpi : k.pipes pi = none) :
    Inv (P + Pi.single (pi, true) 1 + Pi.single (pi, false) 1) A C E H
      (k.withPipe pi (some ⟨true, true⟩) (pi :: k.pipesMade) k.pipesFreed) := by
  have hnone : ∀ b, k.ends (pi, b) + P (pi, b) = 0 := by
    intro b
    have hends := congrFun h.ends (pi, b)
    rw [openEnds, hpi] at hends
    exact hends.symm
  have hpage := h.pages pi
  rw [hpi] at hpage
  refine h.withPipe (fun b => ?_) (fun q b hq => ?_) (fun q => ?_) (fun e he => ?_) ?_
    (fun q hq => List.count_cons_of_ne (Ne.symm hq)) fun _ _ => rfl
  · have hsum := hnone b
    cases b
    · simp only [Pi.add_apply, Pi.single_apply, Prod.mk.injEq, PipeEnds.isOpen, Option.any_some]
      simp
      omega
    · simp only [Pi.add_apply, Pi.single_apply, Prod.mk.injEq, PipeEnds.isOpen, Option.any_some]
      simp
      omega
  · have hne : ∀ w, (q, b) ≠ (pi, w) := fun w heq => hq (congrArg Prod.fst heq)
    rw [Pi.add_apply, Pi.add_apply, Pi.single_eq_of_ne (hne _), Pi.single_eq_of_ne (hne _),
      add_zero, add_zero]
  · exact add_nonneg (add_nonneg (h.spare q) (single_nonneg _ q)) (single_nonneg _ q)
  · cases he
    exact .inl rfl
  · rw [List.count_cons_self, hpage]
    rfl

/-- **`pipealloc`**, for a page that is not a pipe. -/
lemma pipealloc_runs {pi : Option ℕ} (h : Inv P A C 0 H k) (hpi : ∀ q ∈ pi, k.pipes q = none) :
    Runs (pipealloc pi) k fun r k' => k'.ofile = k.ofile ∧ (r = none ∧ Inv P A C 0 H k' ∨
      ∃ f0 f1, r = some (f0, f1) ∧ Inv P A C (Pi.single f0 1 + Pi.single f1 1) H k') := by
  rw [pipealloc]
  refine Runs.bind h.filealloc_runs ?_
  rintro _ k1 ⟨ho1, ⟨rfl, rfl⟩ | ⟨f0, rfl, h1, -, hpipes1, hf0, -⟩⟩
  · exact ⟨rfl, .inl ⟨rfl, h⟩⟩
  have href : 1 ≤ (k1.file f0).ref := h1.one_le_of_extra (by simp)
  refine Runs.bind h1.filealloc_runs ?_
  rintro _ k2 ⟨ho2, ⟨rfl, rfl⟩ | ⟨f1, rfl, h2, hzero, hpipes2, hf1, hsame⟩⟩
  · refine Runs.bind (fileclose_runs h1 href) fun _ k3 ⟨h3, ho3⟩ => ?_
    exact Runs.pure ⟨ho3.trans ho1, .inl ⟨rfl, h3⟩⟩
  rw [zero_add] at h2
  have hofile : k2.ofile = k.ofile := ho2.trans ho1
  cases pi with
  | none =>
    exact closeBoth_runs h2 fun k3 h3 ho3 => ⟨ho3.trans hofile, .inl ⟨rfl, h3⟩⟩
  | some pi =>
    have hne : f1 ≠ f0 := by
      rintro rfl
      omega
    have hr0 : 1 ≤ (k2.file f0).ref := h2.one_le_of_extra (by
      have := single_nonneg f1 f0
      rw [Pi.add_apply, Pi.single_eq_same]
      omega)
    have hr1 : 1 ≤ (k2.file f1).ref := h2.one_le_of_extra (by
      have := single_nonneg f0 f1
      rw [Pi.add_apply, Pi.single_eq_same]
      omega)
    have hfresh : k2.pipes pi = none := by rw [hpipes2, hpipes1, hpi pi rfl]
    have h3 := h2.newPipe hfresh
    have h4 := h3.toPipe (fun q => add_nonneg (h.spare q) (single_nonneg _ q)) hr0
      ((hsame f0).trans hf0)
      (f := { k2.file f0 with type := .pipe, readable := true, writable := false, pipe := pi })
      rfl rfl rfl rfl
    have hother : (update k2.file f0
        { k2.file f0 with type := .pipe, readable := true, writable := false, pipe := pi }) f1 =
          k2.file f1 := update_of_ne hne ..
    refine ⟨hofile, .inr ⟨f0, f1, rfl, h4.toPipe h.spare ?_ ?_ rfl rfl rfl rfl⟩⟩
    · change 1 ≤ (update k2.file f0 _ f1).ref
      rwa [hother]
    · change (update k2.file f0 _ f1).type = .none
      rwa [hother]

/-- **`sys_pipe`**. -/
lemma sysPipe_runs {pi : Option ℕ} (h : Inv P A C 0 0 k) (hp : p ∈ A)
    (hpi : ∀ q ∈ pi, k.pipes q = none) :
    Runs (sysPipe p pi out) k fun _ k' => Inv P A C 0 0 k' := by
  rw [sysPipe]
  refine Runs.bind (pipealloc_runs h hpi) ?_
  rintro _ k1 ⟨-, ⟨rfl, h1⟩ | ⟨rf, wf, rfl, h1⟩⟩
  · exact Runs.pure h1
  refine Runs.bind (fdalloc_runs (Q := fun r k' => r = none ∧ k' = k1 ∨ ∃ fd, r = some fd ∧
    Inv P A C (Pi.single wf 1) 0 k' ∧ k'.ofile p fd = some rf) (fun _ => .inl ⟨rfl, rfl⟩) ?_) ?_
  · refine fun fd _ hfree => .inr ⟨fd, rfl, h1.withFd ?_ (.inl hp), ?_⟩
    · rw [hfree, one_some, one_none, add_zero, add_comm]
    · rw [ofile_withFd_self]
  rintro _ k2 (⟨rfl, rfl⟩ | ⟨fd0, rfl, h2, hfd0⟩)
  · exact closeBoth_runs h1 fun _ h2 _ => h2
  -- taking the first descriptor back
  have hback : ∀ {k' : Kern} {E : Fin nfile → ℤ} {fd : Fin nofile} {x : Fin nfile},
      Inv P A C E 0 k' → k'.ofile p fd = some x →
      Inv P A C (Pi.single x 1 + E) 0 (k'.withFd p fd none) := fun h hx =>
    h.withFd (by rw [hx, one_some, one_none, add_zero, add_comm]) (.inr rfl)
  refine Runs.bind (fdalloc_runs (Q := fun r k' => r = none ∧ k' = k2 ∨ ∃ fd, r = some fd ∧
    fd ≠ fd0 ∧ Inv P A C 0 0 k' ∧ k'.ofile p fd = some wf ∧ k'.ofile p fd0 = some rf)
    (fun _ => .inl ⟨rfl, rfl⟩) ?_) ?_
  · intro fd _ hfree
    have hne : fd ≠ fd0 := by
      rintro rfl
      rw [hfree] at hfd0
      cases hfd0
    refine .inr ⟨fd, rfl, hne, h2.withFd ?_ (.inl hp), ofile_withFd_self .., ?_⟩
    · rw [hfree, one_some, one_none, add_zero, zero_add]
    · rw [ofile_withFd_of_ne hne.symm, hfd0]
  rintro _ k3 (⟨rfl, rfl⟩ | ⟨fd1, rfl, hne, h3, hfd1, hfd0'⟩)
  · exact setFd_bind (closeBoth_runs (hback h2 hfd0) fun _ h5 _ => h5)
  · cases out with
    | true => exact Runs.pure h3
    | false =>
      refine setFd_bind ?_
      have h4 := hback h3 hfd0'
      have hfd1' : (k3.withFd p fd0 none).ofile p fd1 = some wf := by
        rw [ofile_withFd_of_ne hne, hfd1]
      have h5 := hback h4 hfd1'
      rw [add_zero, add_comm] at h5
      exact setFd_bind (closeBoth_runs h5 fun _ h6 _ => h6)

/-! ### Names -/

lemma curdir_bind {f : ℕ → KernM α} (hc : k.cwd p = some c) (h : Runs (f c) k Q) :
    Runs (curdir p >>= f) k Q := by
  have hcur : Runs (curdir p) k fun c' k' => c = c' ∧ k = k' := by
    rw [curdir]
    refine Runs.read ?_
    rw [hc]
    exact ⟨rfl, rfl⟩
  refine Runs.bind hcur ?_
  rintro _ _ ⟨rfl, rfl⟩
  exact h

lemma inCwd_runs {m : ℕ → FsM α} (hc : k.cwd p = some c) (h : Runs (onFs (m c)) k Q) :
    Runs (inCwd p m) k Q := curdir_bind hc h

lemma Inv.dinode_dir (h : Inv P A C E H k) (hc : k.cwd p = some c) :
    (k.fs.img.dinode c).type = .dir := by
  obtain ⟨n, hn, hdir⟩ := h.cwds p c hc
  obtain ⟨-, rfl⟩ := Image.files_eq_some.mp hn
  exact hdir

variable {omode : UInt32}

lemma Inv.openFailed {room : Bool} (h : Inv P A C 0 0 k)
    (he : Ended k.fs (openRefs k.fs.ref none) (fun f' => Opened omode room k.files f' none) k'.fs)
    (hk' : k' = { k with fs := k'.fs }) :
    Inv P A C 0 0 k' ∧ ∃ r', Opened omode room k.files k'.files r' ∧
    ((-1 : ℤ) = -1 ↔ r' = none) := by
  refine ⟨?_, none, he.files, iff_of_true rfl rfl⟩
  rw [hk']
  exact h.withFs he (he.files.tree h.tree) h.refs h.extra he.files.keeps fun i hi => .inl hi

/-- What `sys_open` stores in the entry of the open file. -/
lemma Inv.opened {f : File} {ip : ℕ} {n : Node} (h : Inv P A C 0 (Pi.single ip 1) k)
    (hnone : (k.file x).type = .none) (href : f.ref = (k.file x).ref) (hpos : f.ref ≠ 0)
    (hholds : f.holds = some ip) (hpipe : f.type ≠ .pipe) (hn : k.files ip = some n)
    (hfit : f.Fits n) : Inv P A C 0 0 (k.withFile x f) := by
  refine h.withFile ?_ h.spare ?_ ?_ (fun _ => le_rfl) (fun h0 => absurd h0 hpos) ?_
  · rw [File.pipeEnd, if_neg hpipe, File.pipeEnd, hnone, if_neg (by decide)]
  · rw [href, sub_self, Pi.single_zero, add_zero]
  · rw [hholds, File.holds, hnone, if_neg (by decide), one_some, one_none, zero_add, add_zero]
  · intro i hi
    rw [hholds] at hi
    cases hi
    exact ⟨n, hn, hfit⟩

lemma Inv.openDone {s' : Fs} {ip : ℕ} {type : InodeType} {major : ℤ} {room : Bool}
    (h : Inv P A C 0 0 k) (hp : p ∈ A) (h0 : (k.file x).ref = 0) (hfd : k.ofile p fd = none)
    (he : Ended k.fs (openRefs k.fs.ref (some (ip, type, major)))
      (fun f' => Opened omode room k.files f' (some (ip, type, major))) s') :
    Inv P A C 0 0 (((Kern.withFile { k with fs := s' } x { k.file x with ref := 1 }).withFd p fd
      (some x)).withFile x (openedFile ip type major omode { k.file x with ref := 1 })) := by
  have ho := he.files
  obtain ⟨-, n, hn, hdir⟩ := ho.node
  have h1 : Inv P A C 0 (Pi.single ip 1) { k with fs := s' } := by
    refine h.withFs he (ho.tree h.tree) ?_ (single_nonneg ip) ho.keeps fun i hi => .inr ?_
    · rw [h.refs, add_zero]
      rfl
    · obtain rfl : i = ip := by
        by_contra hne
        exact hi (Pi.single_eq_of_ne hne 1)
      exact Option.ne_none_iff_exists'.mpr ⟨n, hn⟩
  have h3 : Inv P A C 0 (Pi.single ip 1)
      ((Kern.withFile { k with fs := s' } x { k.file x with ref := 1 }).withFd p fd (some x)) := by
    refine (h1.filealloc h0).withFd ?_ (.inl hp)
    change 0 + one (some x) = 0 + Pi.single x 1 + one (k.ofile p fd)
    rw [hfd, one_some, one_none, add_zero]
  have hself : ((Kern.withFile { k with fs := s' } x { k.file x with ref := 1 }).withFd p fd
      (some x)).file x = { k.file x with ref := 1 } := file_withFd_withFile ..
  have hwrite : omode = 0 → ¬ (omode &&& oWronly ≠ 0 ∨ omode &&& oRdwr ≠ 0) := by
    rintro rfl
    decide
  have hnone : (({ k.file x with ref := 1 } : File)).type = .none := h.closed x h0
  refine h3.opened (by rw [hself, hnone]) ?_ ?_ ?_ ?_ hn ?_
  · rw [hself, openedFile]
    split_ifs <;> rfl
  · rw [openedFile]
    split_ifs <;> exact one_ne_zero
  · rw [openedFile]
    split_ifs
    · exact if_pos (.inr rfl)
    · exact if_pos (.inl rfl)
  · rw [openedFile]
    split_ifs
    · exact fun h => by cases h
    · exact fun h => by cases h
  · intro _ hw hd
    refine hwrite (hdir hd) ?_
    rw [openedFile] at hw
    split_ifs at hw
    · exact of_decide_eq_true hw
    · exact of_decide_eq_true hw

lemma fileclose_unused (h0 : (k.file x).ref = 0) (hnone : (k.file x).type = .none) :
    Runs (fileclose x) (k.withFile x { k.file x with ref := 1 }) fun _ k' => k' = k := by
  rw [fileclose]
  refine Runs.read ?_
  rw [file_withFile_self]
  refine Runs.ite (fun h => absurd h (lt_irrefl (1 : ℤ))) fun _ => Runs.ite (fun h => ?_)
    fun _ => ?_
  · change (0 : ℤ) < 1 - 1 at h
    omega
  refine setFile_bind (Runs.ite (fun hpipe => ?_) fun _ => Runs.ite (fun hino => ?_) fun _ => ?_)
  · rw [show ({ k.file x with ref := 1 } : File).type = (k.file x).type from rfl, hnone] at hpipe
    cases hpipe
  · rw [show ({ k.file x with ref := 1 } : File).type = (k.file x).type from rfl, hnone] at hino
    rcases hino with hino | hino <;> cases hino
  · have hback : ({ k.file x with ref := 0, type := .none } : File) = k.file x := by
      rw [← h0, ← hnone]
    refine Runs.pure ?_
    rw [file_withFile_self]
    have hfile : update (update k.file x { k.file x with ref := 1 }) x
        ({ k.file x with ref := 0, type := .none } : File) = k.file := by
      rw [hback, update_idem, update_eq_self]
    exact congrArg (fun file => ({ k with file := file } : Kern)) hfile

section

variable (h : Inv P A C 0 0 k) (hc : k.cwd p = some c)

include h hc

lemma Inv.one_le_ref_cwd : 1 ≤ k.fs.ref c := (one_le_holders_cwd hc).trans (h.holders_le c)

lemma link_runs {old new : Option Path} :
    Runs (inCwd p fun c => Fs.sysLink c old new) k fun r k' => Inv P A C 0 0 k' ∧
      Linking k.files k'.files r :=
  inCwd_runs hc ((h.inSection (Fs.sysLink_spec h.rest h.tidy (h.one_le_ref_cwd hc)
    (h.dinode_dir hc)) fun _ _ hl => ⟨hl.tree h.tree, hl.keeps⟩).imp fun _ _ hk => ⟨hk.1, hk.2.1⟩)

variable {path : Option Path}

lemma unlink_runs :
    Runs (inCwd p fun c => Fs.sysUnlink c path) k fun r k' => Inv P A C 0 0 k' ∧
      Unlinking k.fs.ref k.files k'.files r :=
  inCwd_runs hc ((h.inSection (Fs.sysUnlink_spec h.rest h.tidy (h.one_le_ref_cwd hc))
    fun _ _ hl => ⟨hl.tree h.tree, hl.keeps⟩).imp fun _ _ hk => ⟨hk.1, hk.2.1⟩)

/-- **`sys_mkdir` and `sys_mknod`**. -/
lemma make_runs {type : InodeType} {major minor : ℤ} (htype : type = .dir ∨ type = .device) :
    Runs (inCwd p fun c => inOp (Fs.makeBody c type major minor path)) k fun r k' =>
      Inv P A C 0 0 k' ∧ (r = -1 ∧ k'.files = k.files ∨
        r = 0 ∧ ∃ ip, Making k.files ⟨type, major, minor, 1, []⟩ ip k'.files) := by
  refine inCwd_runs hc ((h.inSection (Fs.makeBody_spec h.rest h.tidy
    (h.one_le_ref_cwd hc) h.held htype) ?_).imp fun _ _ hk => ⟨hk.1, hk.2.1⟩)
  rintro r f' (⟨-, rfl⟩ | ⟨-, ip, hm⟩)
  · exact ⟨h.tree, .refl⟩
  · exact ⟨hm.tree h.tree rfl rfl, hm.keeps⟩

lemma exec_runs {path : Path} {mem : Fs.ExecMemory} :
    Runs (inCwd p fun c => Fs.kexecLookup c path mem) k fun _ k' => Inv P A C 0 0 k' :=
  inCwd_runs hc ((h.inSection_same (Fs.kexecLookup_spec h.rest h.tidy (h.one_le_ref_cwd hc))).imp
    fun _ _ hk => hk.1)

/-- **`sys_open`**. -/
lemma sysOpen_runs (hp : p ∈ A) :
    Runs (sysOpen p path omode) k fun r k' => Inv P A C 0 0 k' ∧
      ∃ r', Opened omode (k.room p) k.files k'.files r' ∧ (r = -1 ↔ r' = none) := by
  rw [sysOpen]
  refine curdir_bind hc ?_
  cases path with
  | none => exact Runs.pure ⟨h, none, .failed, iff_of_true rfl rfl⟩
  | some path =>
    -- the specification of the section, to be used piece by piece
    have hspec : wp (Fs.sysOpen c (some path) omode (k.room p)) _ _ k.fs :=
      Fs.sysOpen_spec h.rest h.tidy (h.one_le_ref_cwd hc) h.held
    rw [Fs.sysOpen, inOp, wp_bind] at hspec
    refine Runs.bind (Runs.onFs_of hspec) fun _ k1 ⟨hspec1, hk1⟩ => ?_
    rw [wp_bind, openBody, wp_bind] at hspec1
    refine Runs.bind (Runs.onFs_of hspec1) ?_
    rintro (_ | ip) k2 ⟨hspec2, hk2⟩ <;> rw [hk1] at hk2
    · rw [wp_pure, wp_bind] at hspec2
      refine Runs.bind (Runs.onFs_of hspec2) fun _ k3 ⟨he, hk3⟩ => Runs.pure ?_
      rw [hk2] at hk3
      exact h.openFailed he hk3
    change wp (openEnd ip omode (k.room p)) _ _ k2.fs at hspec2
    rw [openEnd, wp_bind, wp_get] at hspec2
    -- giving up, when the section goes on to fail
    have hfails : wp (do iunlockput ip; pure none) (fun r s => wp (do endOp; pure r)
        (fun r => Ended k.fs (openRefs k.fs.ref r) fun f' => Opened omode (k.room p) k.files f' r)
        (fun e _ => Fs.Stops e) s) (fun e _ => Fs.Stops e) k2.fs →
        Runs (openFails ip) k2 fun r k' => Inv P A C 0 0 k' ∧
          ∃ r', Opened omode (k.room p) k.files k'.files r' ∧ (r = -1 ↔ r' = none) := by
      intro hsp
      rw [wp_bind] at hsp
      refine Runs.bind (Runs.onFs_of hsp) fun _ k3 ⟨hsp3, hk3⟩ => ?_
      rw [wp_pure, wp_bind] at hsp3
      refine Runs.bind (Runs.onFs_of hsp3) fun _ k4 ⟨he, hk4⟩ => Runs.pure ?_
      rw [hk3, hk2] at hk4
      exact h.openFailed he hk4
    refine Runs.read (Runs.ite (fun hdev => ?_) fun hdev => ?_)
    · rw [if_pos hdev] at hspec2
      exact hfails hspec2
    rw [if_neg hdev] at hspec2
    have hnoroom : k.room p = false → Runs (openFails ip) k2 fun r k' => Inv P A C 0 0 k' ∧
        ∃ r', Opened omode (k.room p) k.files k'.files r' ∧ (r = -1 ↔ r' = none) := fun hroom => by
      rw [if_pos hroom] at hspec2
      exact hfails hspec2
    have hfile2 : k2.file = k.file := by rw [hk2]
    have hofile2 : k2.ofile = k.ofile := by rw [hk2]
    refine Runs.bind (filealloc_runs (Q := fun r k' => r = none ∧ k.freeFile = none ∧ k' = k2 ∨
      ∃ x, r = some x ∧ k.freeFile = some x ∧ (k.file x).ref = 0 ∧
        k' = k2.withFile x { k2.file x with ref := 1 }) (fun hno => ?_) fun x hx h0 => ?_) ?_
    · refine .inl ⟨rfl, ?_, rfl⟩
      rwa [freeFile, hfile2] at hno
    · refine .inr ⟨x, rfl, ?_, hfile2 ▸ h0, rfl⟩
      rwa [freeFile, hfile2] at hx
    rintro _ _ (⟨rfl, hno, rfl⟩ | ⟨x, rfl, hx, h0, rfl⟩)
    · exact hnoroom (by rw [room, hno]; rfl)
    refine Runs.bind (fdalloc_runs (Q := fun r k' => r = none ∧ k.freeFd p = none ∧
      k' = k2.withFile x { k2.file x with ref := 1 } ∨ ∃ fd, r = some fd ∧ k.freeFd p = some fd ∧
        k.ofile p fd = none ∧ k' = (k2.withFile x { k2.file x with ref := 1 }).withFd p fd (some x))
      (fun hno => ?_) fun fd hfd hfree => ?_) ?_
    · refine .inl ⟨rfl, ?_, rfl⟩
      rwa [freeFd, show (k2.withFile x { k2.file x with ref := 1 }).ofile =
        k.ofile from hofile2] at hno
    · have hofile : (k2.withFile x { k2.file x with ref := 1 }).ofile = k.ofile := hofile2
      refine .inr ⟨fd, rfl, ?_, hofile ▸ hfree, rfl⟩
      rwa [freeFd, hofile] at hfd
    rintro _ _ (⟨rfl, hno, rfl⟩ | ⟨fd, rfl, hfd, hfree, rfl⟩)
    · have hclosed := h.closed x h0
      rw [← hfile2] at h0 hclosed
      refine Runs.bind (fileclose_unused h0 hclosed) ?_
      rintro _ _ rfl
      exact hnoroom (by rw [room, hx, hno]; rfl)
    -- the open file is stored while the section goes on
    have hroom : ¬ k.room p = false := by
      rw [room, hx, hfd, Option.isSome_some, Option.isSome_some]
      decide
    rw [if_neg hroom] at hspec2
    refine setFile_bind ?_
    have hend : ∀ k3 : Kern, k3 = { ((k2.withFile x { k2.file x with ref := 1 }).withFd p fd
          (some x)).withFile x (openedFile ip (k2.fs.ino ip).type (k2.fs.ino ip).major omode
            { k2.file x with ref := 1 }) with fs := k3.fs } →
        wp (do
          iunlock ip
          pure (some (ip, (k2.fs.ino ip).type, (k2.fs.ino ip).major)))
          (fun r s => wp (do endOp; pure r) (fun r => Ended k.fs (openRefs k.fs.ref r)
            fun f' => Opened omode (k.room p) k.files f' r) (fun e _ => Fs.Stops e) s)
          (fun e _ => Fs.Stops e) k3.fs →
        Runs (do
          onFs (Fs.iunlock ip)
          onFs Fs.endOp
          pure (fd.val : ℤ)) k3 fun r k' => Inv P A C 0 0 k' ∧
            ∃ r', Opened omode (k.room p) k.files k'.files r' ∧ (r = -1 ↔ r' = none) := by
      intro k3 hk3 hsp
      rw [wp_bind] at hsp
      refine Runs.bind (Runs.onFs_of hsp) fun _ k4 ⟨hsp4, hk4⟩ => ?_
      rw [wp_pure, wp_bind] at hsp4
      refine Runs.bind (Runs.onFs_of hsp4) fun _ k5 ⟨he, hk5⟩ => Runs.pure ?_
      rw [wp_pure] at he
      refine ⟨?_, _, he.files, iff_of_false (by omega) (Option.some_ne_none _)⟩
      rw [hk5, hk4, hk3, hfile2]
      have hdone := h.openDone hp h0 hfree he
      rw [hk2]
      exact hdone
    rw [file_withFd_withFile]
    refine Runs.ite (fun htr => ?_) fun htr => ?_
    · rw [if_pos htr, wp_bind] at hspec2
      refine Runs.bind (Runs.onFs_of hspec2) fun _ k4 ⟨hsp4, hk4⟩ => hend k4 hk4 hsp4
    · rw [if_neg htr] at hspec2
      exact hend _ rfl hspec2

end

/-! ### Directories and processes -/

/-- The state without the current directory of a process, to which there is a reference then. -/
lemma Inv.dropCwd (h : Inv P A C E H k) (hc : k.cwd p = some c) :
    Inv P A (update C p none) E (H + Pi.single c 1) (k.withCwd p none) := by
  refine h.withCwd ?_ (fun i => add_nonneg (h.extra i) (single_nonneg c i)) fun i hi => by cases hi
  rw [hc, one_none, one_some, add_zero]

lemma Inv.putCwd {n : Node} (h : Inv P A C E (H + Pi.single i 1) k) (hH : ∀ i, 0 ≤ H i)
    (hp : k.cwd p = none) (hn : k.files i = some n) (hdir : n.type = .dir) :
    Inv P A (update C p (some i)) E H (k.withCwd p (some i)) := by
  refine h.withCwd ?_ hH fun j hj => ?_
  · rw [hp, one_none, one_some, add_zero]
  · cases hj
    exact ⟨n, hn, hdir⟩

/-- **`sys_chdir`**: the old directory is given back before the new one is stored. -/
lemma sysChdir_runs {path : Option Path} (h : Inv P A C 0 0 k) (hc : k.cwd p = some c) :
    Runs (sysChdir p path) k fun _ k' => ∃ C', Inv P A C' 0 0 k' ∧
    ∀ q, C' q = none ↔ C q = none := by
  rw [sysChdir]
  refine Runs.bind (inCwd_runs hc (Runs.onFs
    (Fs.sysChdir_spec h.rest h.tidy (h.one_le_ref_cwd hc) h.held)
    (Q := fun r k' => k' = { k with fs := k'.fs } ∧
      Ended k.fs (chdirRefs k.fs.ref c r) (fun f' => ChangedDir k.fs.ref c k.files f' r) k'.fs)
    fun r s' he => ⟨rfl, he⟩)) ?_
  rintro (_ | ip) k1 ⟨hk1, he⟩ <;> rw [hk1]
  · have hsame : k1.fs.img.files = k.files := by
      rcases he.files with ⟨-, hf⟩ | ⟨ip, n, hr, -⟩
      · exact hf
      · cases hr
    refine Runs.pure ⟨C, h.withFs he (hsame ▸ h.tree) h.refs h.extra ?_ fun i hi => .inl hi,
      fun _ => Iff.rfl⟩
    rw [hsame]
    exact .refl
  · obtain ⟨n, hn, hdir, hback⟩ : ∃ n, k.files ip = some n ∧ n.type = .dir ∧
        GaveBack (k.fs.ref + Pi.single ip 1) c k.files k1.fs.img.files := by
      rcases he.files with ⟨hr, -⟩ | ⟨ip', n, hr, hn, hdir, hback⟩
      · cases hr
      · cases hr
        exact ⟨n, hn, hdir, hback⟩
    have h0 := h.dropCwd hc
    have hrefs : chdirRefs k.fs.ref c (some ip) = (k.withCwd p none).holders + Pi.single ip 1 := by
      rw [holders_withCwd, hc, one_none, one_some, add_zero, chdirRefs, h.refs, add_zero]
      change _ + Pi.single ip 1 - Pi.single c 1 = _
      abel
    have hpos : chdirRefs k.fs.ref c (some ip) ip ≠ 0 := by
      have h1 := (k.withCwd p none).holders_nonneg ip
      rw [hrefs, Pi.add_apply, Pi.single_eq_same]
      omega
    obtain ⟨n', hn', hdir'⟩ := hback.keeps ip n hpos hn
    have h₁ : Inv P A (update C p none) 0 (0 + Pi.single ip 1)
        { k.withCwd p none with fs := k1.fs } := by
      rw [zero_add]
      refine h0.withFs he (hback.tree h.tree) hrefs (single_nonneg ip) hback.keeps
        fun i hi => .inr ?_
      obtain rfl : i = ip := by
        by_contra hne
        exact hi (Pi.single_eq_of_ne hne 1)
      exact Option.ne_none_iff_exists'.mpr ⟨n', hn'⟩
    have h2 := h₁.putCwd (p := p) (fun _ => le_rfl) (update_self ..) hn' (hdir'.trans hdir)
    rw [update_idem] at h2
    refine setCwd_bind (Runs.pure ⟨update C p (some ip), ?_, fun q => ?_⟩)
    · have hstate : ({ k.withCwd p none with fs := k1.fs } : Kern).withCwd p (some ip) =
          ({ k with fs := k1.fs } : Kern).withCwd p (some ip) :=
        congrArg (fun cwd => ({ k with fs := k1.fs, cwd := cwd } : Kern)) (update_idem ..)
      exact (congrArg (Inv P A _ 0 0) hstate).mp h2
    · by_cases hq : q = p
      · subst hq
        rw [update_self, ← h.cwd, hc]
        exact iff_of_false (Option.some_ne_none _) (Option.some_ne_none _)
      · rw [update_of_ne hq]

lemma Inv.mono {B : Set (Fin nproc)} (h : Inv P A C E H k) (hAB : A ⊆ B) : Inv P B C E H k :=
  { h with idle := fun q hq => h.idle q fun hA => hq (hAB hA) }

lemma Inv.without (h : Inv P A C E H k) (hp : ∀ fd, k.ofile p fd = none) :
    Inv P (A \ {p}) C E H k := by
  refine { h with idle := fun q hq => ?_ }
  by_cases hqp : q = p
  · subst hqp
    exact hp
  · exact h.idle q fun hA => hq ⟨hA, hqp⟩

lemma notMem_of_prefix {α : Type*} {l pre : List α} {x : α} (hl : l.Nodup) (h : pre ++ [x] <+: l) :
    x ∉ pre := by
  have hnd := hl.sublist h.sublist
  rw [List.nodup_append] at hnd
  exact fun hx => hnd.2.2 x hx x (List.mem_singleton_self x) rfl

/-- **`kfork`**: the new process has the descriptors and the directory of its parent. -/
lemma kfork_runs {np : Fin nproc} (h : Inv P A C 0 0 k) (hc : k.cwd p = some c) (hp : p ∈ A)
    (hnp : np ∉ A) (hcnp : k.cwd np = none) :
    Runs (kfork p np) k fun _ k' => Inv P (insert np A) (update C np (some c)) 0 0 k' := by
  have hne : p ≠ np := fun he => hnp (he ▸ hp)
  rw [kfork]
  refine curdir_bind hc (Runs.bind (wp_forM (fun pre k' => Inv P (insert np A) C 0 0 k' ∧
    (∀ fd, k'.ofile p fd = k.ofile p fd) ∧ ∀ fd, fd ∉ pre → k'.ofile np fd = none) ?_
    ⟨h.mono (Set.subset_insert np A), fun _ => rfl, fun fd _ => h.idle np hnp fd⟩) ?_)
  · rintro pre fd k1 hpre ⟨h1, hsame, hfree⟩
    have hfd : fd ∉ pre := notMem_of_prefix (List.nodup_finRange nofile) hpre
    have hkeep : ∀ {k' : Kern}, (∀ e, e ∉ pre → k'.ofile np e = none) →
        ∀ e, e ∉ pre ++ [fd] → k'.ofile np e = none := fun hk e he =>
      hk e fun hmem => he (List.mem_append_left _ hmem)
    refine Runs.read ?_
    rcases hx : k1.ofile p fd with _ | x
    · exact ⟨h1, hsame, hkeep hfree⟩
    · refine Runs.bind (filedup_runs h1 (h1.one_le_ref hx)) fun _ k2 ⟨h2, _, ho⟩ => ?_
      refine setFd_runs ⟨h2.withFd ?_ (.inl (Set.mem_insert np A)), fun e => ?_, fun e he => ?_⟩
      · rw [ho, hfree fd hfd, one_some, one_none, add_zero]
      · rw [ofile_withFd, if_neg fun he => hne he.1, ho, hsame]
      · have hefd : e ≠ fd := fun hef => he (List.mem_append_right _ (List.mem_singleton.mpr hef))
        rw [ofile_withFd_of_ne hefd, ho]
        exact hkeep hfree e he
  · rintro _ k1 ⟨h1, -, -⟩
    have hc1 : k1.cwd p = some c := by rw [h1.cwd, ← h.cwd, hc]
    obtain ⟨n, hn, hdir⟩ := h1.cwds p c hc1
    refine Runs.bind (Runs.onFs (Fs.idup_spec h1.rest)
      (Q := fun _ k' => k' = { k1 with fs := k'.fs } ∧
      Inv P (insert np A) C 0 (0 + Pi.single c 1) k' ∧ k'.files = k1.files) fun _ s' he => ?_) ?_
    · refine ⟨rfl, ?_, he.files⟩
      rw [zero_add]
      refine h1.withFs he (he.files ▸ h1.tree) ?_ (single_nonneg c) ?_ fun i hi => .inr ?_
      · rw [h1.refs, add_zero]
      · rw [he.files]
        exact .refl
      · obtain rfl : i = c := by
          by_contra hne
          exact hi (Pi.single_eq_of_ne hne 1)
        rw [he.files]
        exact Option.ne_none_iff_exists'.mpr ⟨n, hn⟩
    · rintro _ k2 ⟨hk2, h2, hfiles⟩
      refine h2.putCwd (fun _ => le_rfl) ?_ (hfiles ▸ hn) hdir
      rw [h2.cwd, ← h.cwd, hcnp]

/-- **`kexit`**: the process has no descriptors and no directory afterwards. -/
lemma kexit_runs (h : Inv P A C 0 0 k) (hc : k.cwd p = some c) :
    Runs (kexit p) k fun _ k' => Inv P (A \ {p}) (update C p none) 0 0 k' := by
  rw [kexit]
  refine curdir_bind hc (Runs.bind (wp_forM (fun pre k' => Inv P A C 0 0 k' ∧
    ∀ fd, fd ∈ pre → k'.ofile p fd = none) ?_ ⟨h, fun fd hfd => by cases hfd⟩) ?_)
  · rintro pre fd k1 - ⟨h1, hnone⟩
    refine Runs.read ?_
    rcases hx : k1.ofile p fd with _ | x
    · refine ⟨h1, fun e he => ?_⟩
      rcases List.mem_append.mp he with he | he
      · exact hnone e he
      · rwa [List.mem_singleton.mp he]
    · have h1' : Inv P A C (-Pi.single x 1 + Pi.single x 1) 0 k1 := by rwa [neg_add_cancel]
      refine Runs.bind (fileclose_runs h1' (h1.one_le_ref hx)) fun _ k2 ⟨h2, ho⟩ => ?_
      refine setFd_runs ⟨h2.withFd ?_ (.inr rfl), fun e he => ?_⟩
      · rw [ho, hx, one_some, one_none, add_zero, neg_add_cancel]
      · by_cases hefd : e = fd
        · rw [hefd, ofile_withFd_self]
        · rw [ofile_withFd_of_ne hefd, ho]
          exact hnone e ((List.mem_append.mp he).resolve_right fun hs =>
            hefd (List.mem_singleton.mp hs))
  · rintro _ k1 ⟨h1, hnone⟩
    have h1' := h1.without fun fd => hnone fd (List.mem_finRange fd)
    have hc1 : k1.cwd p = some c := by rw [h1.cwd, ← h.cwd, hc]
    have h0 := h1'.dropCwd hc1
    have hpos : 1 ≤ k1.fs.ref c := h1.one_le_ref_cwd hc1
    refine Runs.bind (Runs.onFs (Fs.closeInode_spec h1.rest h1.tidy hpos (h1.held c (by omega)))
      (Q := fun _ k' => Inv P (A \ {p}) (update C p none) 0 0 (k'.withCwd p none))
      fun _ s' he => ?_) fun _ _ h2 => h2
    exact h0.gaveBack (fun _ => le_rfl) he

/-! ### Runs -/

/-- The invariant between calls: the processes with descriptors are those with a directory. -/
def Ok (k : Kern) : Prop := Inv 0 {q | k.cwd q ≠ none} k.cwd 0 0 k

lemma Inv.ok (h : Inv 0 A C 0 0 k) (hA : ∀ q, q ∈ A → C q ≠ none) : k.Ok := by
  have hC := h.cwd
  subst hC
  exact h.mono hA

end Kern

namespace Call

open Kern

variable {k k' : Kern} {p : Fin nproc}

/-- The process `p` can make the call: it has not exited, a new process is unused, and `kalloc`
returns a page that is not in use. -/
def Enabled (p : Fin nproc) (k : Kern) : Call → Prop
  | fork np => k.cwd p ≠ none ∧ ∀ q ∈ np, k.cwd q = none
  | pipe pi _ => k.cwd p ≠ none ∧ ∀ q ∈ pi, k.pipes q = none
  | _ => k.cwd p ≠ none

lemma Enabled.cwd {c : Call} (h : c.Enabled p k) : k.cwd p ≠ none := by
  cases c with
  | fork np => exact h.1
  | pipe pi out => exact h.1
  | _ => exact h

/-- **Every call** keeps the invariant. -/
theorem run_ok {c : Call} (h : k.Ok) (hc : c.Enabled p k) : Runs (c.run p) k fun _ k' => k'.Ok := by
  have hp := hc.cwd
  obtain ⟨d, hd⟩ := Option.ne_none_iff_exists'.mp hp
  have hok : ∀ {k'}, Inv 0 {q | k.cwd q ≠ none} k.cwd 0 0 k' → k'.Ok := fun h => h.ok fun _ hq => hq
  cases c with
  | link old new => exact (link_runs h hd).imp fun _ _ h => hok h.1
  | unlink path => exact (unlink_runs h hd).imp fun _ _ h => hok h.1
  | mkdir path => exact (make_runs h hd (.inl rfl)).imp fun _ _ h => hok h.1
  | mknod path major minor => exact (make_runs h hd (.inr rfl)).imp fun _ _ h => hok h.1
  | openFile path omode => exact (sysOpen_runs h hd hp).imp fun _ _ h => hok h.1
  | close fd => exact (sysClose_runs h).imp fun _ _ h => hok h
  | dup fd => exact (sysDup_runs h hp).imp fun _ _ h => hok h
  | read fd dst n other => exact (sysRead_runs h).imp fun _ _ h => hok h
  | write fd src n other => exact (sysWrite_runs h).imp fun _ _ h => hok h
  | fstat fd out => exact (sysFstat_runs h).imp fun _ _ h => hok h
  | pipe pi out => exact (sysPipe_runs h hp hc.2).imp fun _ _ h => hok h
  | chdir path =>
    refine (sysChdir_runs h hd).imp fun _ _ ⟨C, hC, hsame⟩ => ?_
    exact hC.ok fun q hq => mt (hsame q).mp hq
  | exec path mem => exact Runs.bind (exec_runs h hd) fun _ _ h => hok h
  | fork np =>
    cases np with
    | none => exact h
    | some np =>
      have hnp : k.cwd np = none := hc.2 np rfl
      refine Runs.bind (kfork_runs h hd hp (fun hn => hn hnp) hnp) fun _ _ h' => h'.ok ?_
      rintro q (rfl | hq)
      · rw [update_self]
        exact Option.some_ne_none d
      · have hne : q ≠ np := fun he => hq (he ▸ hnp)
        rwa [update_of_ne hne]
  | exit =>
    refine Runs.bind (kexit_runs h hd) fun _ _ h' => h'.ok ?_
    rintro q ⟨hq, hqp⟩
    rwa [update_of_ne hqp]

end Call

namespace Kern

variable {k k' : Kern} {p : Fin nproc}

/-- The state after booting from a well-formed image: the first process has the root as its
directory, and there is nothing else. -/
structure Booted (init : Fin nproc) (k : Kern) : Prop where
  rest : AtRest k.fs
  ninodes : k.fs.img.sb.ninodes ≤ 65536
  tree : k.files.Tree
  ref : k.fs.ref = Pi.single rootino 1
  cwd : k.cwd = update (fun _ => none) init (some rootino)
  ofile : ∀ q fd, k.ofile q fd = none
  file : ∀ x, (k.file x).ref = 0 ∧ (k.file x).type = .none
  pipes : ∀ pi, k.pipes pi = none
  made : k.pipesMade = []
  freed : k.pipesFreed = []

/-- The states between calls, over all runs: any process makes any call. -/
inductive Reachable : Kern → Prop
  | boot (init : Fin nproc) (k : Kern) : Booted init k → Reachable k
  | call (p : Fin nproc) (c : Call) (r : ℤ) (k k' : Kern) : Reachable k → c.Enabled p k →
      runFrom (c.run p) k = (.ok r, k') → Reachable k'

lemma Booted.ok {init : Fin nproc} (h : Booted init k) : k.Ok := by
  have hholds : (fun x => (k.file x).holds) = fun _ => none := by
    funext x
    rw [File.holds, (h.file x).2, if_neg (by decide)]
  have hends : k.ends = 0 := by
    have hfun : (fun x => (k.file x).pipeEnd) = fun _ => none := by
      funext x
      rw [File.pipeEnd, (h.file x).2, if_neg (by decide)]
    rw [ends, hfun, tally_none]
  obtain ⟨n, hn, hdir, -⟩ := FileSys.linked_dirs.mp h.tree.dirs.root_linked
  have hcwd : ∀ q i, k.cwd q = some i → i = rootino := by
    intro q i hq
    rw [h.cwd, update_apply] at hq
    split_ifs at hq
    · cases hq
      rfl
  exact
    { rest := h.rest
      __ := h
      cwd := rfl
      refs := by
        rw [h.ref, holders, hholds, h.cwd, tally_update, tally_none, tally_none, one_none, one_some]
        abel
      slots := by
        have hfun : (fun q : Fin nproc × Fin nofile => k.ofile q.1 q.2) = fun _ => none :=
          funext fun q => h.ofile q.1 q.2
        rw [slots, hfun, tally_none, add_zero]
        exact funext fun x => (h.file x).1
      closed := fun x _ => (h.file x).2
      extra := fun _ => le_rfl
      cwds := fun q i hq => hcwd q i hq ▸ ⟨n, hn, hdir⟩
      opens := fun x i hx => by
        rw [show (k.file x).holds = none from congrFun hholds x] at hx
        cases hx
      loose := fun i hi => absurd rfl hi
      idle := fun q _ => h.ofile q
      ends := by
        rw [hends]
        funext q
        rw [openEnds, h.pipes]
        rfl
      spare := fun _ => le_rfl
      halfOpen := fun pi e he => by
        rw [h.pipes] at he
        cases he
      pages := fun pi => by
        rw [h.made, h.freed, h.pipes]
        rfl }

/-- **Every reachable state** meets the invariant. -/
theorem Reachable.ok (h : Reachable k) : k.Ok := by
  induction h with
  | boot init k h => exact h.ok
  | call p c r k k' _ hc hrun ih =>
    have hruns : wp (c.run p) (fun _ k' => k'.Ok) (fun e _ => Stops e) k := Call.run_ok ih hc
    exact (wp_of_eq hrun).mp hruns

/-- A call that does not return stops in another way than by a wrong count. -/
theorem Reachable.stops {c : Call} {e : KernPanic} (h : Reachable k) (hc : c.Enabled p k)
    (hrun : runFrom (c.run p) k = (.error e, k')) : Stops e := by
  have hruns : wp (c.run p) (fun _ k' => k'.Ok) (fun e _ => Stops e) k := Call.run_ok h.ok hc
  exact (wp_of_error hrun).mp hruns

end Kern

end Xv6Riscv
