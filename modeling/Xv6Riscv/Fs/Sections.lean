import Xv6Riscv.Fs.Create

/-!
The other sections, and all sections as one type.

* `Section`: the sections of the kernel, and `Section.body_runs`: each keeps the invariant of the
  file system and logs at most nine blocks besides those of the free map.
-/

namespace Xv6Riscv

open Function (update update_eq_self update_self)
open Fs

namespace Fs

open Wp Image

variable {F : Set Blockno} {s s' : Fs} {sb : Superblock} {L : ℕ → Bool} {R : ℕ → ℤ}
  {i j cwd dp ip : ℕ} {g g' : Image} {f f' : FileSys} {n : Node}

/-! ### `sys_open` -/

lemma Making.self (h : Making f n ip f') : ∃ c, f' ip = some { n with content := c } := by
  obtain ⟨dp, k, name, ⟨d, hd, -⟩, -, -, -, rfl⟩ := h.entry
  have hne : ip ≠ dp := by
    rintro rfl
    rw [h.free] at hd
    cases hd
  rw [made]
  split_ifs with hdir
  · rw [FileSys.addLinks_of_ne hne, FileSys.enter_of_ne hne, withDots, if_pos hdir]
    obtain ⟨c, hc⟩ := FileSys.write_some (FileSys.put_self (f := f) (i := ip) (n := n)) ip (16 * 0)
      (direntBytes ip dot)
    exact FileSys.write_some hc ip (16 * 1) (direntBytes dp dotdot)
  · rw [FileSys.enter_of_ne hne, withDots, if_neg hdir, FileSys.put_self]
    exact ⟨_, rfl⟩

lemma Making.file_self (h : Making f n ip f') (hdir : n.type ≠ .dir) : f' ip = some n := by
  obtain ⟨dp, k, name, ⟨d, hd, -⟩, -, -, -, rfl⟩ := h.entry
  have hne : ip ≠ dp := by
    rintro rfl
    rw [h.free] at hd
    cases hd
  rw [made, if_neg hdir, FileSys.enter_of_ne hne, withDots, if_neg hdir, FileSys.put_self]

/-- The inode `create` makes for `sys_open`. -/
def newFile : Node := ⟨.file, 0, 0, 1, []⟩

/-- The effect of `sys_open`. -/
inductive Opened (omode : UInt32) (room : Bool) (f : FileSys) :
    FileSys → Option (ℕ × InodeType × ℤ) → Prop
  | failed : Opened omode room f f none
  /-- the file was created, but there is no open file or no descriptor for it -/
  | stranded (ip : ℕ) (f' : FileSys) : room = false → omode &&& oCreate ≠ 0 →
      Making f newFile ip f' → Opened omode room f f' none
  | opened (ip : ℕ) (n : Node) : room = true → f ip = some n → (n.type = .dir → omode = 0) →
      Opened omode room f f (some (ip, n.type, n.major))
  | truncated (ip : ℕ) (n : Node) : room = true → f ip = some n → n.type = .file →
      Opened omode room f (f.put ip { n with content := [] }) (some (ip, n.type, n.major))
  | created (ip : ℕ) (f' : FileSys) : room = true → Making f newFile ip f' →
      Opened omode room f f' (some (ip, .file, 0))

/-- The inode `sys_open` has found or made. -/
inductive OpenInode (sb : Superblock) (L : ℕ → Bool) (R : ℕ → ℤ) (omode : UInt32) (g : Image)
    (s' : Fs) : Option ℕ → Prop
  | failed : At sb L R s' → (Tidy g → Held R g → s'.img.files = g.files) →
      OpenInode sb L R omode g s' none
  | found (ip : ℕ) : At sb (update L ip true) (R + Pi.single ip 1) s' → L ip = false →
      s'.img = g → ((g.dinode ip).type = .dir → omode = 0) →
      (Tidy g → (g.dinode ip).nlink ≠ 0 ∨ (R + Pi.single ip 1 : ℕ → ℤ) ip ≠ 1) →
      OpenInode sb L R omode g s' (some ip)
  | made (ip : ℕ) : At sb (update L ip true) (R + Pi.single ip 1) s' → L ip = false →
      omode &&& oCreate ≠ 0 → (Tidy g → Held R g → Making g.files newFile ip s'.img.files) →
      OpenInode sb L R omode g s' (some ip)

variable {omode : UInt32} {path : Path}

lemma openInode_runs (h : At sb L R s) (hcwd : 1 ≤ R cwd) (hF : sb.bitmapBlocks ⊆ F) :
    Runs Halts F 8 (openInode cwd path omode) s fun r s' =>
      OpenInode sb L R omode s.img s' r := by
  refine Runs.ite (fun hcreate => ?_) fun _ => ?_
  · refine Runs.imp (create_runs h hcwd hF (by decide)) ?_
    rintro _ s1 (⟨h1, hf⟩ | ⟨ip, h1, hL, himg, -, htype, j, hj⟩ | ⟨ip, h1, hL, hmade⟩)
    · exact .failed h1 hf
    · refine .found ip h1 hL himg (fun hdir => ?_) fun htidy => .inl ?_
      · rw [hdir] at htype
        exact absurd htype (by decide)
      · have := (htidy.names j ip hj).2
        omega
    · exact .made ip h1 hL hcreate hmade
  · refine Runs.bind_or ((namei_runs h hcwd hF).mono (by omega) fun _ _ h => h) ?_
    rintro _ s1 (⟨rfl, h1, himg⟩ | ⟨ip, rfl, hl1, h1, himg1, hfound⟩)
    · exact .inl (Runs.pure (.failed h1 fun htidy _ => by rw [himg htidy]))
    refine .inr ⟨hl1, Runs.seq (ilock_runs h1) fun _ s2 ⟨h2, hL, himg2⟩ => ?_⟩
    have himg2' : s2.img = s.img := himg2.trans himg1
    have hkeep (htidy : Tidy s.img) := found_keeps htidy hcwd hfound
    refine Runs.read ?_
    rw [h2.inv.ino, himg2']
    refine Runs.ite (fun _ => ?_) fun hc => ?_
    · refine Runs.mono (k := 8) (Runs.bind_zero (iunlockput_cases h2 hF) fun _ s3 ⟨h3, hdrop⟩ => ?_)
        (by omega) fun _ _ h => h
      refine Runs.pure (.failed (h3.back hL) fun htidy _ => ?_)
      rw [hdrop.eq (himg2' ▸ hkeep htidy), himg2']
    · exact Runs.pure (.found ip h2 hL himg2' (fun hdir => by_contra fun h0 => hc ⟨hdir, h0⟩) hkeep)

lemma openEnd_runs {room : Bool} (h : At sb (update L ip true) (R + Pi.single ip 1) s)
    (hL : L ip = false) (hF : sb.bitmapBlocks ⊆ F) :
    Runs Halts F 1 (openEnd ip omode room) s fun r s' =>
      r = none ∧ At sb L R s' ∧ ((s.img.dinode ip).type = .device ∨ room = false) ∧
        ((s.img.dinode ip).nlink ≠ 0 ∨ (R + Pi.single ip 1 : ℕ → ℤ) ip ≠ 1 → s'.img = s.img) ∨
      r = some (ip, (s.img.dinode ip).type, (s.img.dinode ip).major) ∧
        room = true ∧ At sb L (R + Pi.single ip 1) s' ∧
        (s'.img = s.img ∨ (s.img.dinode ip).type = .file ∧
          s'.img.files = s.img.files.put ip { s.img.node ip with content := [] }) := by
  have hlip : update L ip true ip = true := update_self ..
  have hout : Runs Halts F 1 (do iunlockput ip; pure (none : Option (ℕ × InodeType × ℤ))) s
      fun r s' => r = none ∧ At sb L R s' ∧ Dropped ip (R + Pi.single ip 1) s.img s'.img :=
    Runs.bind_zero (iunlockput_cases h hF) fun _ s1 ⟨h1, hdrop⟩ =>
      Runs.pure ⟨rfl, h1.back hL, hdrop⟩
  refine Runs.read ?_
  rw [h.inv.ino]
  refine Runs.ite (fun hdev => hout.imp fun _ _ h => .inl ⟨h.1, h.2.1, .inl hdev.1, h.2.2.eq⟩)
    fun _ => Runs.ite (fun hr => hout.imp fun _ _ h => .inl ⟨h.1, h.2.1, .inr hr, h.2.2.eq⟩) ?_
  intro hr
  have hroom : room = true := Bool.eq_true_of_not_eq_false hr
  refine Runs.ite (fun htr => ?_) fun _ => ?_
  · refine Runs.of_insert (b := sb.iblock ip) ?_
    refine Runs.seq (itrunc_at h (h.loaded hlip) (hF.trans (Set.subset_insert _ F))
      (Set.mem_insert _ F)) fun _ s1 ⟨h1, htrunc⟩ => ?_
    refine Runs.seq (iunlock_runs h1) fun _ s2 ⟨h2, _, himg2, _⟩ => ?_
    rw [relock hL] at h2
    refine Runs.pure (.inr ⟨rfl, hroom, h2, .inr ⟨htr.2, ?_⟩⟩)
    rw [himg2, htrunc.files h.inv (h.typed hlip)]
    rfl
  · refine Runs.seq (iunlock_runs h) fun _ s1 ⟨h1, _, himg1, _⟩ => ?_
    rw [relock hL] at h1
    exact Runs.pure (.inr ⟨rfl, hroom, h1, .inl himg1⟩)

/-- **`sys_open`** logs at most nine blocks besides those of the free map. -/
lemma openBody_runs {room : Bool} (h : At sb L R s) (hcwd : 1 ≤ R cwd) (hF : sb.bitmapBlocks ⊆ F) :
    Runs Halts F 9 (openBody cwd path omode room) s fun r s' =>
      At sb L (r.elim R fun x => R + Pi.single x.1 1) s' ∧
      (Tidy s.img → Held R s.img → Opened omode room s.img.files s'.img.files r) := by
  refine Runs.bind (p := 8) (q := 1) (openInode_runs h hcwd hF) ?_
  rintro _ s1 (⟨h1, hf⟩ | ⟨ip, h1, hL, himg, hdir, hkeep⟩ | ⟨ip, h1, hL, hcreate, hmade⟩)
  · exact Runs.pure ⟨h1, fun htidy hheld => hf htidy hheld ▸ .failed⟩
  · refine Runs.imp (openEnd_runs h1 hL hF) ?_
    rw [himg]
    have htip : s.img.Typed ip := himg ▸ h1.typed (update_self ..)
    rintro _ s2 (⟨rfl, h2, -, himg2⟩ | ⟨rfl, hroom, h2, himg2 | ⟨htype, hf2⟩⟩)
    · refine ⟨h2, fun htidy _ => ?_⟩
      rw [himg2 (hkeep htidy)]
      exact .failed
    · refine ⟨h2, fun _ _ => ?_⟩
      rw [himg2]
      exact .opened ip _ hroom (files_of_typed htip) hdir
    · refine ⟨h2, fun _ _ => ?_⟩
      rw [hf2]
      exact .truncated ip _ hroom (files_of_typed htip) htype
  · refine Runs.imp (openEnd_runs h1 hL hF) ?_
    have hself (htidy : Tidy s.img) (hheld : Held R s.img) : s1.img.files ip = some newFile :=
      (hmade htidy hheld).file_self (by decide)
    rintro _ s2 (⟨rfl, h2, hwhy, himg2⟩ | ⟨rfl, hroom, h2, hres⟩)
    · refine ⟨h2, fun htidy hheld => ?_⟩
      have hnode := hself htidy hheld
      have hroom : room = false := hwhy.resolve_left fun hdev => by
        rw [type_of_files hnode] at hdev
        cases hdev
      rw [himg2 (.inl (by rw [nlink_of_files hnode]; decide))]
      exact .stranded ip _ hroom hcreate (hmade htidy hheld)
    · refine ⟨h2, fun htidy hheld => ?_⟩
      obtain ⟨-, hnode⟩ := files_eq_some.mp (hself htidy hheld)
      have hf2 : s2.img.files = s1.img.files := by
        rcases hres with himg2 | ⟨-, hf2⟩
        · rw [himg2]
        · have hsame : ({ s1.img.node ip with content := [] } : Node) = newFile := by
            rw [hnode]
            rfl
          rw [hf2, hsame, FileSys.put, ← hself htidy hheld, update_eq_self]
      have htype : (s1.img.dinode ip).type = .file := congrArg Node.type hnode
      have hmajor : (s1.img.dinode ip).major = 0 := congrArg Node.major hnode
      rw [hf2, htype, hmajor]
      exact .created ip _ hroom (hmade htidy hheld)

/-! ### The other calls -/

/-- **`sys_mkdir` and `sys_mknod`**. -/
lemma makeBody_runs {type : InodeType} {major minor : ℤ} {path : Option Path} (h : At sb L R s)
    (hcwd : 1 ≤ R cwd) (hF : sb.bitmapBlocks ⊆ F) (htype : type = .dir ∨ type = .device) :
    Runs Halts F 9 (makeBody cwd type major minor path) s fun r s' => At sb L R s' ∧
      (Tidy s.img → Held R s.img → r = -1 ∧ s'.img.files = s.img.files ∨
        r = 0 ∧ ∃ ip, Making s.img.files ⟨type, major, minor, 1, []⟩ ip s'.img.files) := by
  cases path with
  | none => exact Runs.pure ⟨h, fun _ _ => .inl ⟨rfl, rfl⟩⟩
  | some path =>
    have hfree : type ≠ .free := by rcases htype with rfl | rfl <;> decide
    refine Runs.bind (p := 8) (q := 1) (create_runs h hcwd hF hfree) ?_
    rintro _ s1 (⟨h1, hf⟩ | ⟨ip, h1, hL, himg, hfile, -⟩ | ⟨ip, h1, hL, hmade⟩)
    · exact Runs.pure ⟨h1, fun htidy hheld => .inl ⟨rfl, hf htidy hheld⟩⟩
    · have hfile' : type = .file := hfile
      rcases htype with rfl | rfl <;> cases hfile'
    · refine Runs.bind_zero (iunlockput_cases h1 hF) fun _ s2 ⟨h2, hdrop⟩ => ?_
      refine Runs.pure ⟨h2.back hL, fun htidy hheld => .inr ⟨rfl, ip, ?_⟩⟩
      obtain ⟨c, hc⟩ := (hmade htidy hheld).self
      rw [hdrop.eq (.inl (by rw [nlink_of_files hc]; exact one_ne_zero))]
      exact hmade htidy hheld

/-- **`sys_chdir`**: the reference to the old directory is given back. -/
lemma chdirBody_runs {path : Option Path} (h : At sb L R s) (hcwd : 1 ≤ R cwd)
    (hL : L cwd = false) (hF : sb.bitmapBlocks ⊆ F) :
    Runs Halts F 1 (chdirBody cwd path) s fun r s' =>
      r = none ∧ At sb L R s' ∧ (Tidy s.img → s'.img = s.img) ∨
        ∃ ip, r = some ip ∧ At sb L (R + Pi.single ip 1 - Pi.single cwd 1) s' ∧
          (s.img.dinode ip).type = .dir ∧ Dropped cwd (R + Pi.single ip 1) s.img s'.img := by
  cases path with
  | none => exact Runs.pure (.inl ⟨rfl, h, fun _ => rfl⟩)
  | some path =>
    refine Runs.bind_or (namei_runs h hcwd hF) ?_
    rintro _ s1 (⟨rfl, h1, himg⟩ | ⟨ip, rfl, hl1, h1, himg1, hfound⟩)
    · exact .inl (Runs.pure (.inl ⟨rfl, h1, himg⟩))
    refine .inr ⟨hl1, Runs.seq (ilock_runs h1) fun _ s2 ⟨h2, hLip, himg2⟩ => ?_⟩
    have himg2' : s2.img = s.img := himg2.trans himg1
    refine Runs.read ?_
    rw [h2.inv.ino, himg2']
    refine Runs.ite (fun _ => ?_) fun hdir => ?_
    · refine Runs.bind_zero (iunlockput_cases h2 hF) fun _ s3 ⟨h3, hdrop⟩ => ?_
      refine Runs.pure (.inl ⟨rfl, h3.back hLip, fun htidy => ?_⟩)
      rw [hdrop.eq (himg2' ▸ found_keeps htidy hcwd hfound), himg2']
    · refine Runs.seq (iunlock_runs h2) fun _ s3 ⟨h3, _, himg3, _⟩ => ?_
      rw [relock hLip] at h3
      refine Runs.bind_zero (iput_cases h3 (le_add_single hcwd) (by simp [hL]) hF) ?_
      rintro _ s4 ⟨h4, hdrop⟩
      rw [himg3, himg2'] at hdrop
      exact Runs.pure (.inr ⟨ip, rfl, h4, not_not.mp hdir, hdrop⟩)

/-- **A transfer into an inode**: each piece logs a block; the indirect block and the inode are
logged. -/
lemma writeBody_runs {src : ℕ → Option UInt8} {off n : UInt32} (h : At sb L R s)
    (hF : sb.bitmapBlocks ⊆ F) :
    Runs Halts F (pieces off.toNat n.toNat + 2) (writeBody ip src off n) s fun r s' =>
      At sb L R s' ∧ s.img.Typed ip ∧
      (Refused (s.img.dinode ip) off n ∧ r = -1 ∧ s'.img = s.img ∨
        ¬ Refused (s.img.dinode ip) off n ∧ ∃ tot : ℕ, r = tot ∧
          Wrote ip src off.toNat n.toNat tot s.img s'.img) := by
  refine Runs.of_insert (b := sb.iblock ip) ?_
  refine Runs.seq (ilock_runs h) fun _ s1 ⟨h1, hL, himg1⟩ => ?_
  have hlip : update L ip true ip = true := update_self ..
  refine Runs.bind_zero (writei_runs h1 hlip (hF.trans (Set.subset_insert _ F))
    (Set.mem_insert _ F)).halts fun r s2 ⟨h2, hres⟩ => ?_
  refine Runs.seq (iunlock_runs h2) fun _ s3 ⟨h3, _, himg3, _⟩ => ?_
  rw [relock hL] at h3
  have htyped : s.img.Typed ip := himg1 ▸ h1.typed hlip
  rw [himg1] at hres
  refine Runs.pure ⟨h3, htyped, ?_⟩
  rcases hres with ⟨href, rfl, rfl⟩ | ⟨href, tot, rfl, hw⟩
  · exact .inl ⟨href, rfl, himg3.trans himg1⟩
  · exact .inr ⟨href, tot, rfl, by rwa [himg3]⟩

/-- A chunk of `filewrite` touches at most four blocks. -/
lemma pieces_chunk {off n : ℕ} (h : n ≤ chunkMax) : pieces off n ≤ 4 := by
  have hmax : chunkMax = 3072 := by rw [chunkMax, bsize_eq]; rfl
  have hmod : off % bsize < bsize := Nat.mod_lt _ bsize_pos
  rw [bsize_eq] at hmod
  rw [pieces, bsize_eq]
  split_ifs <;> omega

/-! ### `kexec` -/

variable {mem : ExecMemory}

lemma loadseg_runs {va : ℕ} {offset sz : UInt32} (h : Inv s) (hi : s.img.Typed ip) :
    ∀ fuel i, Runs Halts F 0 (loadseg mem ip va offset sz fuel i) s fun _ s' => s' = s := by
  intro fuel
  induction fuel with
  | zero => exact fun i => Runs.pure rfl
  | succ fuel ih =>
    intro i
    refine Runs.ite (fun _ => Runs.ite (fun _ => halt_runs (by simp)) fun _ => ?_)
      fun _ => Runs.pure rfl
    refine Runs.bind_run (readi_eq h hi) (Runs.ite (fun _ => Runs.pure rfl) fun _ => ih _)

lemma loadProgram_runs (h : Inv s) (hi : s.img.Typed ip) :
    ∀ left i off, Runs Halts F 0 (loadProgram mem ip left i off) s fun _ s' => s' = s := by
  intro left
  induction left with
  | zero => exact fun i off => Runs.pure rfl
  | succ left ih =>
    intro i off
    refine Runs.bind_run (readi_eq h hi) (Runs.ite (fun _ => Runs.pure rfl) fun _ => ?_)
    refine Runs.ite (fun _ => ih _ _) fun _ => Runs.ite (fun _ => Runs.pure rfl) fun _ => ?_
    refine Runs.ite (fun _ => Runs.pure rfl) fun _ => Runs.ite (fun _ => Runs.pure rfl) fun _ => ?_
    refine Runs.ite (fun _ => Runs.pure rfl) fun _ => ?_
    refine Runs.seq (loadseg_runs h hi _ _) ?_
    rintro ok s1 rfl
    exact Runs.ite (fun _ => ih _ _) fun _ => Runs.pure rfl

/-- **The section of `kexec`** only reads. -/
lemma kexecBody_runs (h : At sb L R s) (hcwd : 1 ≤ R cwd) (hF : sb.bitmapBlocks ⊆ F) :
    Runs Halts F 1 (kexecBody cwd path mem) s fun _ s' => At sb L R s' ∧
      (Tidy s.img → s'.img = s.img) := by
  refine Runs.bind_or (namei_runs h hcwd hF) ?_
  rintro _ s1 (⟨rfl, h1, himg⟩ | ⟨ip, rfl, hl1, h1, himg1, hfound⟩)
  · exact .inl (Runs.pure ⟨h1, himg⟩)
  refine .inr ⟨hl1, Runs.seq (ilock_runs h1) fun _ s2 ⟨h2, hLip, himg2⟩ => ?_⟩
  have himg2' : s2.img = s.img := himg2.trans himg1
  have htip : s2.img.Typed ip := h2.typed (update_self ..)
  have hload : Runs Halts F 0 (loadFile mem ip) s2 fun _ s' => s' = s2 := by
    refine Runs.bind_run (readi_eq h2.inv htip) (Runs.ite (fun _ => Runs.pure rfl) fun _ => ?_)
    refine Runs.ite (fun _ => Runs.pure rfl) fun _ => Runs.ite (fun _ => Runs.pure rfl) fun _ => ?_
    exact loadProgram_runs h2.inv htip _ _ _
  refine Runs.seq hload ?_
  rintro ok s3 rfl
  refine Runs.bind_zero (iunlockput_cases h2 hF) fun _ s4 ⟨h4, hdrop⟩ => ?_
  refine Runs.pure ⟨h4.back hLip, fun htidy => ?_⟩
  rw [hdrop.eq (himg2' ▸ found_keeps htidy hcwd hfound), himg2']

/-! ### `ireclaim` -/

/-- The section of `ireclaim`, for an inode of which it has the only reference. -/
lemma reclaimBody_runs (h : At sb L R s) (hF : sb.bitmapBlocks ⊆ F) (hiF : sb.iblock i ∈ F) :
    Runs Halts F 0 (do ilock i; iunlock i; iput i) s fun _ s' =>
      At sb L (R - Pi.single i 1) s' ∧ Dropped i R s.img s'.img ∧
        (R i = 1 → (s.img.dinode i).nlink = 0 → Reclaimed i s.img s'.img) := by
  refine Runs.seq (ilock_runs h) fun _ s1 ⟨h1, hL, himg⟩ => ?_
  refine Runs.imp (iunlockput_drops h1 hF hiF) fun _ s2 ⟨h2, hdrop⟩ => ?_
  rw [relock hL] at h2
  rw [himg] at hdrop
  exact ⟨h2, hdrop⟩

/-! ### Sections -/

/-- Between `s` and `s'` the blocks logged are in `F`, up to `k` others; nothing is said of the log
itself. -/
def Adds (F : Set Blockno) (k : ℕ) (s s' : Fs) : Prop :=
  ∃ X : Finset Blockno, X.card ≤ k ∧ Grew F X s.trace s'.trace

variable {k : ℕ}

lemma Logs.adds (h : Logs F k s s') : Adds F k s s' := by
  obtain ⟨X, hX, htr, -⟩ := h.blocks
  exact ⟨X, hX, htr⟩

/-- A program that ends in `Q` or stops, but not with "freeing free block", and not with
"unlink: nlink < 1" if `T` holds. -/
def Within {α : Type} (T : Prop) (F : Set Blockno) (k : ℕ) (m : FsM α) (s : Fs)
    (Q : α → Fs → Prop) : Prop :=
  wp m (fun a s' => Adds F k s s' ∧ Q a s')
    (fun e s' => Adds F k s s' ∧ e ≠ .freeingFreeBlock ∧ (T → e ≠ .unlinkNlink)) s

lemma Adds.of_trace (h : s'.trace = s.trace) : Adds F k s s' :=
  ⟨∅, by simp, fun b hb => .inl (h ▸ hb)⟩

lemma Adds.after {s'' : Fs} (h : Adds F k s s') (ht : s''.trace = s'.trace) : Adds F k s s'' := by
  obtain ⟨X, hX, hb⟩ := h
  exact ⟨X, hX, fun b hb' => hb b (ht ▸ hb')⟩

variable {T : Prop}

lemma HaltsUnless.ne {e : FsPanic} (h : HaltsUnless T e s) :
    e ≠ .freeingFreeBlock ∧ (T → e ≠ .unlinkNlink) := by
  rcases h with ((⟨rfl, -⟩ | ⟨rfl, -⟩) | ⟨-, hfree, -, hun⟩) | ⟨hT, rfl⟩
  · exact ⟨by simp, by simp⟩
  · exact ⟨by simp, by simp⟩
  · exact ⟨hfree, fun _ => hun⟩
  · exact ⟨by simp, fun h => absurd h hT⟩

variable {α : Type} {Q : α → Fs → Prop} {m : FsM α}

lemma Runs.within (h : Runs (HaltsUnless T) F k m s Q) : Within T F k m s Q :=
  wp_mono h (fun _ _ h => ⟨h.1.adds, h.2⟩) fun _ _ h => ⟨h.1.adds, h.2.ne⟩

lemma Runs.bind_within {β : Type} {f : α → FsM β} {Q' : β → Fs → Prop}
    (h : Runs (HaltsUnless T) F 0 m s Q) (hf : ∀ a s', Q a s' → Within T F k (f a) s' Q') :
    Within T F k (m >>= f) s Q' := by
  have hadd : ∀ {s1 s2}, Logs F 0 s s1 → Adds F k s1 s2 → Adds F k s s2 := by
    rintro s1 s2 h1 ⟨X, hX, hb⟩
    obtain ⟨Y, hY, hb1⟩ := h1.adds
    refine ⟨X, hX, fun b hb2 => ?_⟩
    rcases hb b hb2 with hb2 | hb2
    · rw [Finset.card_eq_zero.mp (Nat.le_zero.mp hY)] at hb1
      rcases hb1 b hb2 with hb2 | hb2 | hb2
      · exact .inl hb2
      · exact .inr (.inl hb2)
      · simp at hb2
    · exact .inr hb2
  refine wp_bind.mpr (wp_mono h (fun a s1 h1 => ?_)
    fun e s1 h1 => ⟨hadd h1.1 (.of_trace rfl), h1.2.ne⟩)
  exact wp_mono (hf a s1 h1.2) (fun _ _ h2 => ⟨hadd h1.1 h2.1, h2.2⟩)
    fun _ _ h2 => ⟨hadd h1.1 h2.1, h2.2⟩

/-- Nothing is going on in the log. -/
structure Quiet (l : LogVars) : Prop where
  outstanding : l.outstanding = 0
  committing : l.committing = false
  lh : l.lh = []

/-- `begin_op` does not wait when nothing is going on. -/
lemma Quiet.beginOp_run (h : Quiet s.log) :
    runFrom beginOp s = (.ok (), { s with log := { s.log with outstanding := 1 } }) := by
  have hb : s.log.beginOp = some { s.log with outstanding := 1 } := by
    refine LogVars.beginOp_eq_some.mpr ⟨h.committing, ?_, by rw [h.outstanding, zero_add]⟩
    rw [h.outstanding, h.lh]
    decide
  rw [beginOp, runFrom_get_bind, hb]
  rfl

lemma endOp_run (hout : s.log.outstanding = 1) (hcom : s.log.committing = false) :
    ∃ l, Quiet l ∧ runFrom endOp s = (.ok (), { s with log := l }) := by
  have he : s.log.endOp = .ok ({ s.log with outstanding := 0, committing := true }, true) := by
    refine LogVars.endOp_eq_ok.mpr ⟨hcom, by rw [hout]; rfl, by rw [hout]; rfl⟩
  rw [endOp, runFrom_get_bind, he]
  exact ⟨_, ⟨rfl, rfl, rfl⟩, rfl⟩

/-- **A section** that runs alone: `begin_op` and `end_op` change the log only. -/
lemma inOp_within (hs : Quiet s.log)
    (h : Runs (HaltsUnless T) F k m { s with log := { s.log with outstanding := 1 } } Q)
    (hQ : ∀ a s' l, Q a s' → Q a { s' with log := l }) :
    Within T F k (inOp m) s fun a s' => Q a s' ∧ Quiet s'.log := by
  refine wp_bind.mpr ((wp_of_eq hs.beginOp_run).mpr (wp_bind.mpr (wp_mono h (fun a s1 h1 => ?_)
    fun _ _ h => ⟨h.1.adds, h.2.ne⟩)))
  obtain ⟨hlogs, hq⟩ := h1
  have hadd : Adds F k s s1 := hlogs.adds
  obtain ⟨l, hl, he⟩ := endOp_run hlogs.outstanding (hlogs.committing.trans hs.committing)
  exact wp_bind.mpr ((wp_of_eq he).mpr ⟨hadd.after rfl, hQ a s1 l hq, hl⟩)

def ignore {α : Type} (m : FsM α) : FsM Unit := do
  let _ ← m
  pure ()

lemma Within.ignore {Q' : Unit → Fs → Prop} (h : Within T F k m s Q)
    (hQ : ∀ a s', Q a s' → Q' () s') : Within T F k (ignore m) s Q' :=
  wp_bind.mpr (wp_mono h (fun a s' h => ⟨h.1, hQ a s' h.2⟩) fun _ _ h => h)

lemma Within.imp {Q' : α → Fs → Prop} (h : Within T F k m s Q) (hQ : ∀ a s', Q a s' → Q' a s') :
    Within T F k m s Q' :=
  wp_mono h (fun a s' h => ⟨h.1, hQ a s' h.2⟩) fun _ _ h => h

lemma Within.mono {k' : ℕ} (h : Within T F k m s Q) (hk : k ≤ k') : Within T F k' m s Q := by
  have hadd : ∀ {s'}, Adds F k s s' → Adds F k' s s' := fun ⟨X, hX, hb⟩ => ⟨X, hX.trans hk, hb⟩
  exact wp_mono h (fun _ _ h => ⟨hadd h.1, h.2⟩) fun _ _ h => ⟨hadd h.1, h.2⟩

/-- The state between calls: nothing is locked, and nothing is going on in the log. -/
structure AtRest (s : Fs) : Prop where
  inv : Inv s
  unlocked : s.locked = fun _ => false
  quiet : Quiet s.log

lemma AtRest.state (h : AtRest s) : At s.img.sb (fun _ => false) s.ref s :=
  ⟨h.inv, rfl, h.unlocked, rfl⟩

lemma At.rest (h : At sb (fun _ => false) R s) (hq : Quiet s.log) : AtRest s :=
  ⟨h.inv, h.locked, hq⟩

lemma At.ended (h : At sb (fun _ => false) R s ∧ Quiet s.log) : AtRest s ∧ s.img.sb = sb :=
  ⟨h.1.rest h.2, h.1.sb⟩

lemma inOp_rest (R' : α → ℕ → ℤ) (h : AtRest s)
    (hm : ∀ s1, At s.img.sb (fun _ => false) s.ref s1 → s1.img = s.img →
      Runs (HaltsUnless T) F k m s1 fun a s' => At s.img.sb (fun _ => false) (R' a) s') :
    Within T F k (inOp m) s fun a s' => At s.img.sb (fun _ => false) (R' a) s' ∧ Quiet s'.log :=
  inOp_within h.quiet (hm _ (h.state.congr rfl rfl rfl rfl) rfl)
    fun _ _ _ h => h.congr rfl rfl rfl rfl

end Fs

/-- The sections of the kernel, with their arguments. A process that calls one is given by its
current directory. -/
inductive Section
  | link (cwd : ℕ) (old new : Option Path)
  | unlink (cwd : ℕ) (path : Option Path)
  | openFile (cwd : ℕ) (path : Option Path) (omode : UInt32) (room : Bool)
  | mkdir (cwd : ℕ) (path : Option Path)
  | mknod (cwd : ℕ) (path : Option Path) (major minor : ℤ)
  | chdir (cwd : ℕ) (path : Option Path)
  | write (ip : ℕ) (src : ℕ → Option UInt8) (off left : UInt32)
  | close (ip : ℕ)
  | exec (cwd : ℕ) (path : Path) (mem : ExecMemory)
  | reclaim (inum : ℕ)

namespace Section

open Wp Image

/-- The inode the caller must refer to. -/
def holder : Section → Option ℕ
  | link cwd _ _ => some cwd
  | unlink cwd _ => some cwd
  | openFile cwd _ _ _ => some cwd
  | mkdir cwd _ => some cwd
  | mknod cwd _ _ _ => some cwd
  | chdir cwd _ => some cwd
  | write ip _ _ _ => some ip
  | close ip => some ip
  | exec cwd _ _ => some cwd
  | reclaim _ => none

/-- The program of a section, without its result. -/
def run : Section → FsM Unit
  | link cwd old new => ignore (sysLink cwd old new)
  | unlink cwd path => ignore (sysUnlink cwd path)
  | openFile cwd path omode room => ignore (sysOpen cwd path omode room)
  | mkdir cwd path => ignore (sysMkdir cwd path)
  | mknod cwd path major minor => ignore (sysMknod cwd path major minor)
  | chdir cwd path => ignore (sysChdir cwd path)
  | write ip src off left => ignore (filewriteChunk ip src off left)
  | close ip => closeInode ip
  | exec cwd path mem => ignore (kexecLookup cwd path mem)
  | reclaim inum => ireclaimStep inum

variable {s : Fs}

/-- **Every section** leaves the file system well formed and logs at most nine blocks besides those
of the free map. -/
lemma run_within (c : Section) (h : AtRest s) (hc : ∀ i ∈ c.holder, 1 ≤ s.ref i) :
    Within (Tidy s.img) s.img.sb.bitmapBlocks 9 c.run s fun _ s' =>
      AtRest s' ∧ s'.img.sb = s.img.sb := by
  have hno : Within (Tidy s.img) s.img.sb.bitmapBlocks 9 (ignore (pure (-1 : ℤ) : FsM ℤ)) s
      fun _ s' => AtRest s' ∧ s'.img.sb = s.img.sb :=
    ⟨.of_trace rfl, h, rfl⟩
  cases c with
  | link cwd old new =>
    have hcwd : 1 ≤ s.ref cwd := hc cwd rfl
    cases old with
    | none => exact hno
    | some old =>
      cases new with
      | none => exact hno
      | some new =>
        refine Within.ignore (Within.mono (k := 4) (inOp_rest (fun _ => s.ref) h ?_) (by omega))
          fun _ _ => At.ended
        exact fun s1 h1 _ => (linkBody_runs h1 hcwd subset_rfl).unless.imp fun _ _ h => h.1
  | unlink cwd path =>
    have hcwd : 1 ≤ s.ref cwd := hc cwd rfl
    cases path with
    | none => exact hno
    | some path =>
      refine Within.ignore (Within.mono (k := 4) (inOp_rest (fun _ => s.ref) h ?_) (by omega))
        fun _ _ => At.ended
      intro s1 h1 himg
      rw [← himg]
      exact (unlinkBody_runs h1 hcwd (himg ▸ subset_rfl)).imp fun _ _ h => himg ▸ h.1
  | openFile cwd path omode room =>
    have hcwd : 1 ≤ s.ref cwd := hc cwd rfl
    cases path with
    | none => exact ⟨.of_trace rfl, h, rfl⟩
    | some path =>
      refine Within.ignore (inOp_rest (fun r => r.elim s.ref fun x => s.ref + Pi.single x.1 1) h ?_)
        fun _ _ => At.ended
      exact fun s1 h1 _ => (openBody_runs h1 hcwd subset_rfl).unless.imp fun _ _ h => h.1
  | mkdir cwd path =>
    refine Within.ignore (inOp_rest (fun _ => s.ref) h ?_) fun _ _ => At.ended
    exact fun s1 h1 _ => (makeBody_runs h1 (hc cwd rfl) subset_rfl (.inl rfl)).unless.imp
      fun _ _ h => h.1
  | mknod cwd path major minor =>
    refine Within.ignore (inOp_rest (fun _ => s.ref) h ?_) fun _ _ => At.ended
    exact fun s1 h1 _ => (makeBody_runs h1 (hc cwd rfl) subset_rfl (.inr rfl)).unless.imp
      fun _ _ h => h.1
  | chdir cwd path =>
    refine Within.ignore (Within.mono (k := 1) (inOp_rest
      (fun r => r.elim s.ref fun ip => s.ref + Pi.single ip 1 - Pi.single cwd 1) h ?_) (by omega))
      fun _ _ => At.ended
    refine fun s1 h1 _ => (chdirBody_runs h1 (hc cwd rfl) rfl subset_rfl).unless.imp ?_
    rintro _ s2 (⟨rfl, h2, -⟩ | ⟨ip, rfl, h2, -⟩)
    · exact h2
    · exact h2
  | write ip src off left =>
    have hlen : (if chunkMax < left.toNat then UInt32.ofNat chunkMax else left).toNat ≤
        chunkMax := by
      split_ifs with hlt
      · have hmax : chunkMax = 3072 := by rw [chunkMax, bsize_eq]; rfl
        rw [hmax]
        decide
      · exact not_lt.mp hlt
    refine Within.ignore (inOp_rest (fun _ => s.ref) h ?_) fun _ _ => At.ended
    refine fun s1 h1 _ => Runs.mono (writeBody_runs h1 subset_rfl).unless ?_ fun _ _ h => h.1
    have hpieces : pieces off.toNat _ ≤ 4 := pieces_chunk hlen
    omega
  | close ip =>
    refine Within.imp (Within.mono (k := 1) (inOp_rest (fun _ => s.ref - Pi.single ip 1) h ?_)
      (by omega)) fun _ _ => At.ended
    exact fun s1 h1 _ => (iput_cases h1 (hc ip rfl) (by simp) subset_rfl).unless.imp
      fun _ _ h => h.1
  | exec cwd path mem =>
    refine Within.ignore (Within.mono (k := 1) (inOp_rest (fun _ => s.ref) h ?_) (by omega))
      fun _ _ => At.ended
    exact fun s1 h1 _ => (kexecBody_runs h1 (hc cwd rfl) subset_rfl).unless.imp fun _ _ h => h.1
  | reclaim i =>
    refine wp_bind.mpr (wp_ite.mpr ⟨fun _ => ?_, fun _ => ⟨.of_trace rfl, h, rfl⟩⟩)
    refine Runs.bind_within (iget_runs h.state).unless fun _ s1 ⟨h1, himg, hlog⟩ => ?_
    have hrest1 : AtRest s1 := h1.rest (hlog ▸ h.quiet)
    refine Within.imp (Within.mono (k := 1) (inOp_rest (fun _ => s1.ref - Pi.single i 1) hrest1
      fun s2 h2 _ => ?_) (by omega)) fun _ _ h' => At.ended (himg ▸ h')
    rw [himg] at h2 ⊢
    exact (Runs.of_insert (reclaimBody_runs h2 (Set.subset_insert _ _)
      (Set.mem_insert _ _))).unless.imp fun _ _ h => h.1

end Section

end Xv6Riscv
