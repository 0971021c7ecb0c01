import Xv6Riscv.Fs.Sections

/-!
The file system as a whole: what holds from boot on, through any sequence of operations.

An operation is a section of the kernel, or one of the functions of `fs.c` that change an inode,
called on its own between `begin_op` and `end_op` with any arguments. Every operation that returns
leaves a well-formed file system, so what is true of these holds in every reachable state.

* `section_budget`: every section of the kernel logs at most `MAXOPBLOCKS` distinct blocks.
* `block_allocation`: the bits of the free map and the references to blocks agree.
* `files_without_holes`: reading never allocates, and never logs.
* `inode_is_byte_array`: `writei`, `readi` and `itrunc` on the bytes of a file.
-/

namespace Xv6Riscv

open Function (update update_eq_self update_self)
open Fs Wp Image

/-! ### A small disk -/

/-- The superblock `mkfs` writes. -/
def smallSb : Superblock where
  size := 2000
  nblocks := 1953
  ninodes := 200
  inodestart := 33
  bmapstart := 46
  size_lt := by decide
  nblocks_lt := by decide

/-- The entries "." and ".." of the root. -/
def rootBlock : Block := fun p =>
  if p.val = 0 ∨ p.val = 16 then 1 else if p.val = 2 ∨ p.val = 18 ∨ p.val = 19 then 46 else 0

/-- A disk with the root directory and nothing else. -/
def smallImage : Image where
  sb := smallSb
  dinode i := if i = rootino then ⟨.dir, 0, 0, 1, 32, fun k => if k = 0 then 47 else 0⟩
    else ⟨.free, 0, 0, 0, 0, fun _ => 0⟩
  bitmap b := decide (b.toNat ≤ 47)
  data b := if b = 47 then rootBlock else fun _ => 0

lemma smallImage_typed {i : ℕ} : smallImage.Typed i ↔ i = rootino := by
  rw [Typed, smallImage]
  dsimp only
  split_ifs with h <;> simp [h]

lemma smallImage_slot (x : FileSlot) :
    smallImage.slot x = if x = .ptr rootino 0 then 47 else 0 := by
  have hptr : ∀ i k, smallImage.ptr i k = if i = rootino ∧ k = 0 then 47 else 0 := by
    intro i k
    by_cases hi : i = rootino
    · rw [ptr_of_typed (smallImage_typed.mpr hi), smallImage]
      dsimp only
      rw [if_pos hi]
      simp [hi]
    · rw [ptr, if_neg (mt smallImage_typed.mp hi), if_neg fun h => hi h.1]
  cases x with
  | ptr i k =>
    rw [slot, hptr]
    simp
  | entry i j =>
    have hind : smallImage.indirect i = 0 := by
      rw [indirect, hptr, if_neg fun h => absurd h.2 (by decide)]
    rw [slot, if_pos hind, if_neg (by simp)]

lemma smallImage_wellFormed : smallImage.WellFormed where
  inodes i hi := by
    rw [smallImage_typed.mp hi]
    decide
  blocks := by
    refine ⟨fun b hb => ?_, fun x hx => ?_, fun x y hx hxy => ?_, fun b h1 h2 => ?_⟩
    · have : b.toNat < 47 := hb
      simp [smallImage]
      omega
    · rw [smallImage_slot] at hx ⊢
      split_ifs at hx ⊢
      · decide
      · exact absurd rfl hx
    · rw [smallImage_slot] at hx hxy
      rw [smallImage_slot] at hxy
      split_ifs at hx hxy with h1 h2
      · rw [h1, h2]
      · exact absurd hxy (by decide)
      · exact absurd rfl hx
      · exact absurd rfl hx
    · have h47 : 47 ≤ b.toNat := h1
      simp only [smallImage_slot]
      constructor
      · intro hb
        have hle : b.toNat ≤ 47 := by simpa [smallImage] using hb
        refine ⟨.ptr rootino 0, ?_⟩
        rw [if_pos rfl, ← UInt32.toNat_inj]
        exact le_antisymm h47 hle
      · rintro ⟨x, rfl⟩
        split_ifs at h47 ⊢
        · decide
        · exact absurd h47 (by decide)
  holes i hi bn hbn := by
    obtain rfl := smallImage_typed.mp hi
    have hsize : (smallImage.dinode rootino).size.toNat = 32 := rfl
    have h0 : bn = 0 := by
      rw [hsize, bsize_eq] at hbn
      omega
    subst h0
    change smallImage.slot (.ptr rootino 0) ≠ 0
    rw [smallImage_slot]
    decide

namespace Fs

def quietLog : LogVars where
  outstanding := 0
  committing := false
  ncommit := 0
  lh := []

/-- The tables at boot, with the log recovered. -/
def boot (g : Image) : Fs where
  img := g
  ref := fun _ => 0
  unused := ninode
  icore := fun _ => none
  locked := fun _ => false
  log := quietLog
  trace := []

lemma boot_rest {g : Image} (h : g.WellFormed) : AtRest (boot g) where
  inv :=
    { image := h
      clean := fun _ _ h => by cases h
      nonneg := fun _ => le_rfl
      used := fun _ h => by cases h
      held := fun _ h => by cases h }
  unlocked := rfl
  quiet := ⟨rfl, rfl, rfl⟩

/-- The small disk with a process in the root directory. -/
def smallFs : Fs := { boot smallImage with ref := fun i => if i = rootino then 1 else 0 }

lemma smallFs_rest : AtRest smallFs where
  inv :=
    { (boot_rest smallImage_wellFormed).inv with
      nonneg := fun i => by
        change 0 ≤ if i = rootino then (1 : ℤ) else 0
        split_ifs <;> decide
      used := fun _ h => by cases h }
  unlocked := rfl
  quiet := ⟨rfl, rfl, rfl⟩

end Fs

/-! ### The log budget -/

/-- The block numbers a section passes to `log_write`. -/
def Section.logs (c : Section) (s : Fs) : Finset Blockno :=
  (runFrom c.run { s with trace := [] }).2.trace.toFinset

lemma bitmapBlocks_eq {sb : Superblock} (h : sb.size ≤ 8192) :
    ∀ b ∈ sb.bitmapBlocks, b = sb.bmapstart := by
  rintro _ ⟨b, hb, rfl⟩
  have h0 : b / 8192 = 0 := by
    rw [← UInt32.toNat_inj, UInt32.toNat_div]
    exact Nat.div_eq_of_lt (by have : (8192 : UInt32).toNat = 8192 := rfl; omega)
  rw [Superblock.bblock, h0, UInt32.zero_add]

variable {F : Set Blockno} {k : ℕ} {s' : Fs}

lemma Fs.Adds.card_le {s : Fs} {b : Blockno} (h : Adds F k s s') (hs : s.trace = [])
    (hF : ∀ c ∈ F, c = b) : s'.trace.toFinset.card ≤ k + 1 := by
  obtain ⟨X, hX, hin⟩ := h
  calc s'.trace.toFinset.card ≤ (insert b X).card := by
        refine Finset.card_le_card fun c hc => ?_
        rcases hin c (List.mem_toFinset.mp hc) with hc | hc | hc
        · rw [hs] at hc
          cases hc
        · exact hF c hc ▸ Finset.mem_insert_self b X
        · exact Finset.mem_insert_of_mem hc
    _ ≤ X.card + 1 := Finset.card_insert_le b X
    _ ≤ k + 1 := Nat.add_le_add_right hX 1

variable {α : Type} {Q : α → Fs → Prop} {m : FsM α} {T : Prop}

lemma Fs.Within.adds {s : Fs} (h : Within T F k m s Q) : Adds F k s (runFrom m s).2 := by
  rw [Within, wp] at h
  generalize runFrom m s = x at h ⊢
  obtain ⟨r, s'⟩ := x
  cases r <;> exact h.1

/-- **The log budget.** On a disk whose free map is one block, every section of the kernel calls
`log_write` on at most `MAXOPBLOCKS` distinct blocks, whatever is on the disk and whether the
section succeeds, fails or panics. -/
theorem section_budget (c : Section) (s : Fs) (h : AtRest s) (hc : ∀ i ∈ c.holder, 1 ≤ s.ref i)
    (hsize : s.img.sb.size ≤ 8192) : (c.logs s).card ≤ maxopblocks := by
  have hat : At s.img.sb (fun _ => false) s.ref { s with trace := [] } :=
    h.state.congr rfl rfl rfl rfl
  exact (c.run_within (hat.rest h.quiet) hc).adds.card_le rfl (bitmapBlocks_eq hsize)

/-- The budget of `mkdir("/a")` on the small disk. -/
theorem section_budget_mkdir : AtRest smallFs ∧ 1 ≤ smallFs.ref rootino ∧
    ((Section.mkdir rootino (some [47, 97])).logs smallFs).card ≤ maxopblocks :=
  ⟨smallFs_rest, le_rfl, section_budget _ smallFs smallFs_rest
    (fun i hi => by cases hi; exact le_rfl) (by decide)⟩

/-! ### Operations -/

/-- An operation on the file system: a section of the kernel; one of the functions that change an
inode, with any arguments; another reference to an inode, as `fork` takes it; or the first reference
to the root, as `userinit` takes it. -/
inductive FsOp
  | call (c : Section)
  | write (ip : ℕ) (src : ℕ → Option UInt8) (off n : UInt32)
  | trunc (ip : ℕ)
  | dirlink (dp : ℕ) (name : List UInt8) (inum : ℕ)
  | dup (ip : ℕ)
  | root

namespace FsOp

/-- The inode the caller must refer to. -/
def holder : FsOp → Option ℕ
  | call c => c.holder
  | write ip _ _ _ => some ip
  | trunc ip => some ip
  | dirlink dp _ _ => some dp
  | dup ip => some ip
  | root => none

/-- The program of an operation. -/
def run : FsOp → FsM Unit
  | call c => c.run
  | write ip src off n => ignore (inOp (writeBody ip src off n))
  | trunc ip => inOp do
      ilock ip
      itrunc ip
      iunlock ip
  | dirlink dp name inum => inOp do
      ilock dp
      let _ ← Fs.dirlink dp name inum
      iunlock dp
  | dup ip => idup ip
  | root => iget rootino

/-- **Every operation** leaves the file system well formed. -/
lemma run_within (op : FsOp) {s : Fs} (h : AtRest s) (hop : ∀ i ∈ op.holder, 1 ≤ s.ref i) :
    ∃ k, Within (Tidy s.img) s.img.sb.bitmapBlocks k op.run s fun _ s' =>
      AtRest s' ∧ s'.img.sb = s.img.sb := by
  cases op with
  | call c => exact ⟨9, c.run_within h hop⟩
  | write ip src off n =>
    refine ⟨pieces off.toNat n.toNat + 2, Within.ignore (inOp_rest (fun _ => s.ref) h
      fun s1 h1 _ => ?_) fun _ _ => At.ended⟩
    exact (writeBody_runs h1 subset_rfl).unless.imp fun _ _ h => h.1
  | trunc ip =>
    refine ⟨1, Within.imp (inOp_rest (fun _ => s.ref) h fun s1 h1 _ => ?_) fun _ _ => At.ended⟩
    refine Runs.unless (Runs.of_insert (b := s.img.sb.iblock ip) ?_)
    refine Runs.seq (ilock_runs h1) fun _ s2 ⟨h2, hL, _⟩ => ?_
    refine Runs.seq (itrunc_at h2 (h2.loaded (update_self ..)) (Set.subset_insert _ _)
      (Set.mem_insert _ _)) fun _ s3 ⟨h3, _⟩ => ?_
    refine Runs.imp (iunlock_runs h3) fun _ s4 ⟨h4, _⟩ => ?_
    rwa [relock hL] at h4
  | dirlink dp name inum =>
    refine ⟨3, Within.imp (inOp_rest (fun _ => s.ref) h fun s1 h1 _ => ?_) fun _ _ => At.ended⟩
    refine Runs.unless (Runs.of_insert (b := s.img.sb.iblock dp) ?_)
    refine Runs.seq (ilock_runs h1) fun _ s2 ⟨h2, hL, _⟩ => ?_
    refine Runs.bind_zero (dirlink_runs h2 (update_self ..) (Set.subset_insert _ _)
      (Set.mem_insert _ _)) fun _ s3 ⟨h3, _⟩ => ?_
    refine Runs.imp (iunlock_runs h3) fun _ s4 ⟨h4, _⟩ => ?_
    rwa [relock hL] at h4
  | dup ip =>
    exact ⟨0, (idup_runs h.state).unless.within.imp fun _ _ h' => At.ended ⟨h'.1, h'.2.2 ▸ h.quiet⟩⟩
  | root =>
    exact ⟨0, (iget_runs h.state).unless.within.imp fun _ _ h' => At.ended ⟨h'.1, h'.2.2 ▸ h.quiet⟩⟩

end FsOp

/-- The states of the file system reached from a disk by operations that return. -/
inductive FsReach (g : Image) : Fs → Prop
  | boot : FsReach g (boot g)
  | step {s s' : Fs} (op : FsOp) : FsReach g s → (∀ i ∈ op.holder, 1 ≤ s.ref i) →
      runFrom op.run s = (.ok (), s') → FsReach g s'

lemma Fs.Within.ok {s : Fs} {a : α} (h : Within T F k m s Q) (hm : runFrom m s = (.ok a, s')) :
    Q a s' :=
  ((wp_of_eq hm).mp h).2

lemma Fs.Within.error {s : Fs} {e : FsPanic} (h : Within T F k m s Q)
    (hm : runFrom m s = (.error e, s')) : e ≠ .freeingFreeBlock ∧ (T → e ≠ .unlinkNlink) :=
  ((wp_of_error hm).mp h).2

variable {g : Image}

/-- **Every reachable state is well formed.** -/
lemma FsReach.rest {s : Fs} (hg : g.WellFormed) (h : FsReach g s) : AtRest s := by
  induction h with
  | boot => exact boot_rest hg
  | step op _ hop hrun ih =>
    obtain ⟨k, hw⟩ := op.run_within ih hop
    exact (hw.ok hrun).1

/-! ### Blocks -/

/-- **The block-allocation invariant.** In every state reached from a well-formed disk: a bit of the
data area is set exactly if one slot refers to the block, and then only one does; every reference is
to a block of the data area; a word of an indirect block is `0` or such a reference; and no
operation panics with "freeing free block". -/
theorem block_allocation (g : Image) (hg : g.WellFormed) (s : Fs) (hs : FsReach g s) :
    (∀ b : Blockno, s.img.sb.dataStart ≤ b.toNat → b.toNat < s.img.sb.size →
      (s.img.bitmap b = true ↔ ∃! x, s.img.slot x = b)) ∧
    (∀ x, s.img.slot x ≠ 0 → s.img.sb.dataStart ≤ (s.img.slot x).toNat ∧
      (s.img.slot x).toNat < s.img.sb.size ∧ s.img.bitmap (s.img.slot x) = true) ∧
    (∀ i (j : Fin nindirect), s.img.indirect i ≠ 0 →
      Words.word (s.img.data (s.img.indirect i)) j = 0 ∨
        s.img.sb.dataStart ≤ (Words.word (s.img.data (s.img.indirect i)) j).toNat ∧
        (Words.word (s.img.data (s.img.indirect i)) j).toNat < s.img.sb.size ∧
        s.img.bitmap (Words.word (s.img.data (s.img.indirect i)) j) = true) ∧
    ∀ (op : FsOp) (e : FsPanic) (s' : Fs), (∀ i ∈ op.holder, 1 ≤ s.ref i) →
      runFrom op.run s = (.error e, s') → e ≠ .freeingFreeBlock := by
  have hrest := hs.rest hg
  have hok := hrest.inv.image.blocks
  have hslot : ∀ x, s.img.slot x ≠ 0 → s.img.sb.dataStart ≤ (s.img.slot x).toNat ∧
      (s.img.slot x).toNat < s.img.sb.size ∧ s.img.bitmap (s.img.slot x) = true := fun x hx =>
    ⟨(hok.inData x hx).1, (hok.inData x hx).2, hok.bit_slot hx⟩
  refine ⟨fun b h1 h2 => ?_, hslot, fun i j hi => ?_, fun op e s' hop hrun => ?_⟩
  · have hb : b ≠ 0 := by
      rintro rfl
      exact absurd h1 (not_le.mpr s.img.sb.dataStart_pos)
    rw [hok.marked b h1 h2]
    constructor
    · rintro ⟨x, hx⟩
      exact ⟨x, hx, fun y hy => hok.unique y x (hy ▸ hb) (hy.trans hx.symm)⟩
    · rintro ⟨x, hx, -⟩
      exact ⟨x, hx⟩
  · have hentry : s.img.slot (.entry i j) = Words.word (s.img.data (s.img.indirect i)) j :=
      if_neg hi
    rw [← hentry]
    exact or_iff_not_imp_left.mpr (hslot _)
  · obtain ⟨k, hw⟩ := op.run_within hrest hop
    exact (hw.error hrun).1

/-- The small disk when `userinit` has taken its reference to the root. -/
def smallRun : Fs := (runFrom (FsOp.run .root) (boot smallImage)).2

lemma smallRun_reach : FsReach smallImage smallRun :=
  .step .root .boot (by simp [FsOp.holder]) rfl

/-- The small disk when bytes have been written at the end of the root directory, more than its
block has room for. -/
def smallWritten : Fs := (runFrom (FsOp.run (.write rootino (fun _ => some 7) 32 1100)) smallRun).2

lemma smallWritten_reach : FsReach smallImage smallWritten :=
  .step (.write rootino (fun _ => some 7) 32 1100) smallRun_reach
    (fun _ hi => Option.some.inj hi ▸ by decide) (Prod.ext (by decide +kernel) rfl)

/-- The write has taken a free block, which now has one owner. -/
theorem block_allocation_small : smallImage.WellFormed ∧ FsReach smallImage smallWritten ∧
    smallRun.img.bitmap 48 = false ∧ smallWritten.img.bitmap 48 = true ∧
    ∃! x, smallWritten.img.slot x = 48 := by
  have hbit : smallWritten.img.bitmap 48 = true := by decide +kernel
  exact ⟨smallImage_wellFormed, smallWritten_reach, by decide, hbit,
    ((block_allocation smallImage smallImage_wellFormed smallWritten smallWritten_reach).1 48
      (by decide +kernel) (by decide +kernel)).mp hbit⟩

/-! ### Contents -/

/-- What `readi` returns and copies out. -/
def Image.read (g : Image) (i : ℕ) (dst : ℕ → Bool) (off n : UInt32) : ℤ × List UInt8 :=
  if OutOfFile (g.dinode i) off n then (0, [])
  else readResult g i dst off.toNat (min n.toNat ((g.dinode i).size.toNat - off.toNat))

section

variable {s : Fs} {i : ℕ} {dst : ℕ → Bool} {off n : UInt32}

/-- `ilock` of an inode that is in use and not locked. -/
lemma ilock_eq (h : Inv s) (hi : s.img.Typed i) (href : 1 ≤ s.ref i) (hL : s.locked i = false) :
    runFrom (ilock i) s = (.ok (), { s with
      locked := update s.locked i true
      icore := update s.icore i (some (s.img.dinode i)) }) := by
  rw [ilock, runFrom_get_bind, if_neg (not_lt.mpr href), hL, if_neg (by simp)]
  cases hc : s.icore i with
  | none =>
    simp only [if_neg (show ¬ (s.img.dinode i).type = .free from hi)]
    rfl
  | some d =>
    have hsame : update s.icore i (some (s.img.dinode i)) = s.icore := by
      rw [(h.clean i d hc).1, ← hc, update_eq_self]
    rw [hsame]
    rfl

lemma iunlock_eq (href : 1 ≤ s.ref i) (hL : s.locked i = true) :
    runFrom (iunlock i) s = (.ok (), { s with locked := update s.locked i false }) := by
  rw [iunlock, runFrom_get_bind, if_neg (by simp [hL, not_lt.mpr href])]
  rfl

lemma filereadInode_eq (h : AtRest s) (hi : s.img.Typed i) (href : 1 ≤ s.ref i) :
    runFrom (filereadInode i dst off n) s = (.ok (s.img.read i dst off n), { s with
      locked := update (update s.locked i true) i false
      icore := update s.icore i (some (s.img.dinode i)) }) := by
  have hlock := ilock_eq h.inv hi href (by rw [h.unlocked])
  have hinv := (((wp_of_eq hlock).mp (ilock_runs (F := ∅) (i := i) h.state)).2).1.inv
  have hun := iunlock_eq (i := i) (s := { s with
    locked := update s.locked i true
    icore := update s.icore i (some (s.img.dinode i)) }) href (update_self ..)
  rw [filereadInode, runFrom_bind_ok hlock, runFrom_bind_ok (readi_eq hinv hi), runFrom_bind_ok hun]
  rfl

/-- An inode that is free has no copy in memory, and `ilock` panics. -/
lemma filereadInode_error {e : FsPanic} (h : AtRest s)
    (hrun : runFrom (filereadInode i dst off n) s = (.error e, s')) : e = .ilock ∨ e = .noType := by
  by_cases href : 1 ≤ s.ref i
  · by_cases hi : s.img.Typed i
    · rw [filereadInode_eq h hi href] at hrun
      cases hrun
    · refine .inr ?_
      have hfree : (s.img.dinode i).type = .free := not_not.mp hi
      have hL : s.locked i = false := by rw [h.unlocked]
      rw [filereadInode, runFrom_bind, ilock, runFrom_get_bind, if_neg (not_lt.mpr href), hL,
        if_neg (by simp), h.inv.icore_eq_none hi] at hrun
      simp only [hfree, if_true] at hrun
      cases hrun
      rfl
  · rw [filereadInode, runFrom_bind, ilock, runFrom_get_bind, if_pos (not_le.mp href)] at hrun
    cases hrun
    exact .inl rfl

end

/-- **No holes.** In every state reached from a well-formed disk a file has a block for every index
below its size in blocks. So `readi` allocates nothing and logs nothing, and `fileread` outside of
any transaction returns what `readi` read; the only panics it can meet are those of `ilock` on an
inode that is free or that nobody refers to. -/
theorem files_without_holes (g : Image) (hg : g.WellFormed) (s : Fs) (hs : FsReach g s) (i : ℕ) :
    (s.img.Typed i → ∀ bn < ((s.img.dinode i).size.toNat + bsize - 1) / bsize, s.img.map i bn ≠ 0) ∧
    (s.img.Typed i → ∀ dst off n,
      runFrom (readi i dst off n) s = (.ok (s.img.read i dst off n), s)) ∧
    (s.img.Typed i → 1 ≤ s.ref i → ∀ dst off n, ∃ s',
      runFrom (filereadInode i dst off n) s = (.ok (s.img.read i dst off n), s') ∧
      s'.img = s.img ∧ s'.log = s.log ∧ s'.trace = s.trace) ∧
    ∀ dst off n e s', runFrom (filereadInode i dst off n) s = (.error e, s') →
      e = .ilock ∨ e = .noType := by
  have hrest := hs.rest hg
  refine ⟨fun hi bn hbn => hrest.inv.image.holes i hi bn ?_,
    fun hi dst off n => readi_eq hrest.inv hi,
    fun hi href dst off n => ⟨_, filereadInode_eq hrest hi href, rfl, rfl, rfl⟩,
    fun dst off n e s' hrun => filereadInode_error hrest hrun⟩
  rw [bsize_eq] at hbn ⊢
  omega

/-- After the write the file has a second block, and `fileread` reads from it. -/
theorem files_without_holes_small : smallImage.WellFormed ∧ FsReach smallImage smallWritten ∧
    smallRun.img.map rootino 1 = 0 ∧ smallWritten.img.map rootino 1 ≠ 0 ∧
    ∃ s', runFrom (filereadInode rootino (fun _ => true) 1022 4) smallWritten =
      (.ok (4, [7, 7, 7, 7]), s') ∧ s'.log = smallWritten.log := by
  have hi : smallWritten.img.Typed rootino := by decide +kernel
  obtain ⟨hmap, -, hread, -⟩ := files_without_holes smallImage smallImage_wellFormed smallWritten
    smallWritten_reach rootino
  obtain ⟨s', hrun, -, hlog, -⟩ := hread hi (by decide +kernel) (fun _ => true) 1022 4
  have hres : smallWritten.img.read rootino (fun _ => true) 1022 4 = (4, [7, 7, 7, 7]) := by
    decide +kernel
  exact ⟨smallImage_wellFormed, smallWritten_reach, by decide, hmap hi 1 (by decide +kernel),
    s', hres ▸ hrun, hlog⟩

/-- An array of bytes after `tot` of `n` bytes have been written to it from `off` on. -/
structure Written (src : ℕ → Option UInt8) (off n tot : ℕ) (d d' : List UInt8) : Prop where
  le : tot ≤ n
  length : d'.length = max d.length (off + tot)
  bytes : ∀ k < tot, d'[off + k]? = src k
  same : ∀ p, p < off ∨ off + n ≤ p → d'[p]? = d[p]?

section

variable {g g' : Image} {i off n tot : ℕ} {src : ℕ → Option UInt8}

lemma content_getElem? (p : ℕ) : (g.node i).content[p]? =
    if p < (g.dinode i).size.toNat then some (g.fileByte i p) else none := by
  rw [Image.node, fileBytes_getElem?, zero_add]

lemma Fs.Wrote.written (h : Wrote i src off n tot g g') (hoff : off ≤ (g.dinode i).size.toNat) :
    Written src off n tot (g.node i).content (g'.node i).content where
  le := h.le
  length := by rw [Image.length_content, Image.length_content, h.size]
  bytes k hk := by
    have hlt : off + k < (g'.dinode i).size.toNat := by
      rw [h.size]
      omega
    rw [content_getElem?, if_pos hlt, h.bytes k hk]
  same p hp := by
    have hle := h.le
    rw [content_getElem?, content_getElem?, h.size]
    by_cases hlt : p < (g.dinode i).size.toNat
    · rw [if_pos hlt, if_pos (lt_max_of_lt_left hlt), h.same p hlt hp]
    · rw [if_neg hlt, if_neg (by omega)]

lemma fileBytes_eq_take {m : ℕ} (h : off + m ≤ (g.dinode i).size.toNat) :
    fileBytes g i off m = ((g.node i).content.drop off).take m := by
  refine List.ext_getElem? fun k => ?_
  rw [fileBytes_getElem?, List.getElem?_take, List.getElem?_drop, content_getElem?]
  split_ifs with hk hlt
  · rfl
  · omega
  · rfl

end

/-- What the callers of `writei` and `itrunc` do first. -/
def lockOp (i : ℕ) : FsM Unit := do
  beginOp
  ilock i

lemma lockOp_state {s0 s : Fs} {i : ℕ} (h : AtRest s0)
    (hrun : runFrom (lockOp i) s0 = (.ok (), s)) :
    At s0.img.sb (update (fun _ => false) i true) s0.ref s ∧ s.img = s0.img ∧
      s.log.lh = [] ∧ s.log.outstanding = 1 := by
  rw [lockOp, runFrom_bind_ok h.quiet.beginOp_run] at hrun
  have hat : At s0.img.sb (fun _ => false) s0.ref
      { s0 with log := { s0.log with outstanding := 1 } } := h.state.congr rfl rfl rfl rfl
  obtain ⟨hl, hs, -, himg⟩ := (wp_of_eq hrun).mp (ilock_runs (F := ∅) (i := i) hat)
  refine ⟨hs, himg, ?_, hl.outstanding⟩
  have hlen := hl.length_le (Y := ∅) (by simp) h.quiet.lh
  exact List.eq_nil_of_length_eq_zero (Nat.le_zero.mp hlen)

section

variable {s : Fs} {i : ℕ} {sb : Superblock} {L : ℕ → Bool} {R : ℕ → ℤ}

/-- The blocks a call on the inode `i` logs again and again. -/
lemma mem_metaBlocks {b : Blockno} (hsize : sb.size ≤ 8192)
    (hb : b ∈ insert (sb.iblock i) sb.bitmapBlocks) :
    b ∈ ({sb.iblock i, sb.bmapstart} : Finset Blockno) := by
  rcases hb with rfl | hb
  · exact Finset.mem_insert_self _ _
  · rw [bitmapBlocks_eq hsize b hb]
    exact Finset.mem_insert_of_mem (Finset.mem_singleton_self _)

lemma writei_refused {src : ℕ → Option UInt8} {off n : UInt32} (h : Inv s)
    (hr : Refused (s.img.dinode i) off n) : runFrom (writei i src off n) s = (.ok (-1), s) := by
  rw [writei, runFrom_get_bind, h.ino]
  split_ifs with hout hbig
  · rfl
  · rfl
  · exact (hr.elim hout hbig).elim

/-- `iupdate` returns as long as the list of the log is not full. -/
lemma setInode_returns {f : Dinode → Dinode} (hlen : s.log.lh.length < logblocks)
    (hout : 1 ≤ s.log.outstanding) : ∃ s', runFrom (setInode i f) s = (.ok (), s') := by
  have hlog : ∀ s1 : Fs, s1.log = s.log →
      ∃ s', runFrom (logWrite (s.img.sb.iblock i)) s1 = (.ok (), s') := fun s1 hs1 => by
    rw [logWrite, runFrom_get_bind, LogVars.logWrite_eq_ok.mpr ⟨hs1 ▸ hlen, hs1 ▸ hout, rfl⟩]
    exact ⟨_, rfl⟩
  exact hlog _ rfl

/-- **A write that fits into the log** returns: one block for each piece, the indirect block, the
block of the free map and, when nothing is logged after it, the block of the inode. -/
lemma writei_returns {src : ℕ → Option UInt8} {off n : UInt32} (h : At sb L R s) (hi : L i = true)
    (hlh : s.log.lh = []) (hout : s.log.outstanding = 1) (hsize : sb.size ≤ 8192)
    (hn : pieces off.toNat n.toNat + 3 ≤ logblocks) (href : ¬ Refused (s.img.dinode i) off n) :
    ∃ r s', runFrom (writei i src off n) s = (.ok r, s') := by
  rw [Refused, not_or] at href
  obtain ⟨-, hadd⟩ := toNat_add_of_not_outOfFile href.1
  obtain rfl := h.sb
  have hmap : ∀ b ∈ s.img.sb.bitmapBlocks, b ∈ ({s.img.sb.bmapstart} : Finset Blockno) :=
    fun b hb => Finset.mem_singleton.mpr (bitmapBlocks_eq hsize b hb)
  have hmax : off.toNat + n.toNat ≤ maxfile * bsize := hadd ▸ not_lt.mp href.2
  have hloop : Runs _ _ _ (writeiLoop i src n.toNat n.toNat 0 off.toNat) s _ :=
    writeiLoop_runs_one _ (h.inv.view ▸ h.inv.image.blocks) (h.inv.view ▸ h.typed hi) subset_rfl
      hmax fun _ => pathSlots_subset_writeSlots hmax
  obtain ⟨r, s1, hrun, hlogs, -⟩ := hloop.logs.returns hmap hlh hout.ge (by simp; omega)
  have hlen := hlogs.length_le hmap hlh
  obtain ⟨s2, hrun2⟩ := setInode_returns (s := s1) (i := i)
    (f := fun d => if d.size.toNat < r.2 then { d with size := UInt32.ofNat r.2 } else d)
    (by simp at hlen; omega) (by rw [hlogs.outstanding]; exact hout.ge)
  refine ⟨r.1, s2, ?_⟩
  rw [writei, runFrom_get_bind, h.inv.ino, if_neg (show ¬ (_ ∨ _) from href.1), if_neg href.2,
    runFrom_bind_ok hrun, runFrom_bind_ok hrun2]
  rfl

lemma itrunc_returns (h : At sb L R s) (hi : L i = true) (hlh : s.log.lh = [])
    (hout : s.log.outstanding = 1) (hsize : sb.size ≤ 8192) :
    ∃ s', runFrom (itrunc i) s = (.ok (), s') := by
  have hcard := Finset.card_le_two (a := sb.iblock i) (b := sb.bmapstart)
  have hlog : (2 : ℕ) < logblocks := by decide
  have ht : s.view.Typed i := h.inv.view ▸ h.typed hi
  have hok : s.view.BlockOk := h.inv.view ▸ h.inv.image.blocks
  obtain rfl := h.sb
  obtain ⟨r, s', hrun, -⟩ := (itrunc_runs hok ht (Set.subset_insert _ _)
    (Set.mem_insert _ _)).returns (fun b => mem_metaBlocks hsize) hlh hout.ge (by omega)
  exact ⟨s', hrun⟩

lemma readResult_of_all {dst : ℕ → Bool} {off n m : ℕ} (hoff : off ≤ (g.dinode i).size.toNat)
    (hm : m = min n ((g.dinode i).size.toNat - off)) (hall : ∀ k < m, dst k = true) :
    readResult g i dst off m = ((m : ℤ), ((g.node i).content.drop off).take n) := by
  have hc : copied dst 0 m = m := copied_eq fun k hk => by
    rw [zero_add]
    exact hall k hk
  rw [readResult, hc, if_pos rfl, fileBytes_eq_take (by omega)]
  congr 1
  rw [List.take_eq_take_iff, List.length_drop, Image.length_content]
  omega

lemma readResult_of_bad {dst : ℕ → Bool} {off m : ℕ} (hbad : ∃ k < m, dst k = false) :
    ∃ out, readResult g i dst off m = (-1, out) := by
  refine ⟨_, congrArg (·, _) (if_neg fun hc => ?_)⟩
  obtain ⟨k, hk, hdst⟩ := hbad
  have := ok_of_lt_copied (hc.symm ▸ hk)
  rw [zero_add, hdst] at this
  cases this

end

/-- **An inode is an array of bytes.** In every state reached from a well-formed disk, when a
process is in a transaction and has locked an inode: `writei` refuses a range that begins past the
end of the file, wraps or is too large, and changes nothing; any other range is written up to the
first byte that cannot be read or stored. `readi` returns the bytes of the file from `off` on,
unless `off + n` wraps. `itrunc` makes the array empty. None of them changes another inode. A
transaction that is small enough for the log returns. -/
theorem inode_is_byte_array (g : Image) (hg : g.WellFormed) (s₀ s : Fs) (hs : FsReach g s₀) (i : ℕ)
    (hlock : runFrom (lockOp i) s₀ = (.ok (), s)) :
    s.img = s₀.img ∧
    (∀ src off n, Refused (s.img.dinode i) off n → runFrom (writei i src off n) s = (.ok (-1), s)) ∧
    (∀ src off n, ¬ Refused (s.img.dinode i) off n →
      (s.img.sb.size ≤ 8192 → pieces off.toNat n.toNat + 3 ≤ logblocks →
        ∃ r s', runFrom (writei i src off n) s = (.ok r, s')) ∧
      ∀ r s', runFrom (writei i src off n) s = (.ok r, s') → ∃ (tot : ℕ) (c : List UInt8),
        r = tot ∧ Written src off.toNat n.toNat tot (s.img.node i).content c ∧
        s'.img.files = s.img.files.change i (fun x => { x with content := c }) ∧
        ((∀ k < n.toNat, (src k).isSome) → s.img.Room (writeSlots i off.toNat n.toNat) →
          tot = n.toNat)) ∧
    (∀ dst off n, OutOfFile (s.img.dinode i) off n →
      runFrom (readi i dst off n) s = (.ok (0, []), s)) ∧
    (∀ dst off n, ¬ OutOfFile (s.img.dinode i) off n →
      ((∀ k < min n.toNat ((s.img.dinode i).size.toNat - off.toNat), dst k = true) →
        runFrom (readi i dst off n) s =
          (.ok ((min n.toNat ((s.img.dinode i).size.toNat - off.toNat) : ℕ),
            ((s.img.node i).content.drop off.toNat).take n.toNat), s)) ∧
      ((∃ k < min n.toNat ((s.img.dinode i).size.toNat - off.toNat), dst k = false) →
        ∃ out, runFrom (readi i dst off n) s = (.ok (-1, out), s))) ∧
    (s.img.sb.size ≤ 8192 → ∃ s', runFrom (itrunc i) s = (.ok (), s')) ∧
    ∀ s', runFrom (itrunc i) s = (.ok (), s') →
      s'.img.files = s.img.files.change i fun x => { x with content := [] } := by
  obtain ⟨hat, himg, hlh, hout⟩ := lockOp_state (hs.rest hg) hlock
  have hL : update (fun _ => false) i true i = true := update_self ..
  have hi := hat.typed hL
  refine ⟨himg, fun src off n href => ?_, fun src off n href => ⟨fun hsize hn => ?_, ?_⟩,
    fun dst off n hno => ?_, fun dst off n hno => ⟨fun hall => ?_, fun hbad => ?_⟩,
    fun hsize => ?_, fun s' hrun => ?_⟩
  · exact writei_refused hat.inv href
  · exact writei_returns hat hL hlh hout (hat.sb ▸ hsize) hn href
  · intro r s' hrun
    obtain ⟨-, -, hw⟩ := (wp_of_eq hrun).mp (writei_runs (F := Set.univ) hat hL (Set.subset_univ _)
      (Set.mem_univ _))
    rcases hw with ⟨h, -⟩ | ⟨-, tot, rfl, hw⟩
    · exact absurd h href
    have hoff := (toNat_add_of_not_outOfFile fun h => href (.inl h)).1
    refine ⟨tot, _, rfl, hw.written hoff, hw.files_node hi, fun hsrc hroom => ?_⟩
    by_contra hne
    rcases hw.short (lt_of_le_of_ne hw.le hne) with ⟨k, hk, hnone⟩ | hfull
    · have := hsrc k hk
      rw [hnone] at this
      cases this
    · exact hfull hroom
  · rw [readi_eq hat.inv hi, if_pos hno]
  · rw [readi_eq hat.inv hi, if_neg hno,
      readResult_of_all (toNat_add_of_not_outOfFile hno).1 rfl hall]
  · obtain ⟨out, hres⟩ : ∃ out, readResult s.img i _ off.toNat _ = (-1, out) :=
      readResult_of_bad hbad
    exact ⟨out, by rw [readi_eq hat.inv hi, if_neg hno, hres]⟩
  · exact itrunc_returns hat hL hlh hout (hat.sb ▸ hsize)
  · have ht : s.view.Typed i := hat.inv.view ▸ hi
    have hok : s.view.BlockOk := hat.inv.view ▸ hat.inv.image.blocks
    have htr := ((wp_of_eq hrun).mp (itrunc_runs (F := Set.univ) hok ht (Set.subset_univ _)
      (Set.mem_univ _))).2
    rw [htr.files hat.inv hi, FileSys.change, Image.files_of_typed hi, Option.map_some]

/-- The small disk with the root directory locked in a transaction. -/
def smallLocked : Fs := (runFrom (lockOp rootino) smallRun).2

lemma smallLocked_run : runFrom (lockOp rootino) smallRun = (.ok (), smallLocked) := by
  have hbegin := (smallRun_reach.rest smallImage_wellFormed).quiet.beginOp_run
  rw [smallLocked, lockOp, runFrom_bind_ok hbegin]
  rfl

/-- Bytes that are written across two blocks, and read back. -/
theorem inode_is_byte_array_small : smallImage.WellFormed ∧ FsReach smallImage smallRun ∧
    runFrom (lockOp rootino) smallRun = (.ok (), smallLocked) ∧
    (∃ s' c, runFrom (writei rootino (fun _ => some 7) 32 1100) smallLocked = (.ok 1100, s') ∧
      Written (fun _ => some 7) 32 1100 1100 (smallLocked.img.node rootino).content c ∧
      s'.img.files = smallLocked.img.files.change rootino fun x => { x with content := c }) ∧
    FsReach smallImage smallWritten ∧
    ∃ s, runFrom (lockOp rootino) smallWritten = (.ok (), s) ∧
      runFrom (readi rootino (fun _ => true) 1022 4) s = (.ok (4, [7, 7, 7, 7]), s) := by
  obtain ⟨-, -, hwrite, -⟩ := inode_is_byte_array smallImage smallImage_wellFormed smallRun
    smallLocked smallRun_reach rootino smallLocked_run
  obtain ⟨hret, hspec⟩ := hwrite (fun _ => some 7) 32 1100
    (by rw [Refused, OutOfFile]; decide +kernel)
  obtain ⟨r, s', hrun⟩ := hret (by decide +kernel) (by decide +kernel)
  obtain ⟨tot, c, rfl, hw, hfiles, htot⟩ := hspec r s' hrun
  obtain rfl : tot = 1100 := htot (fun _ _ => rfl) (by rw [Room]; decide +kernel)
  have hlock : runFrom (lockOp rootino) smallWritten =
      (.ok (), (runFrom (lockOp rootino) smallWritten).2) := Prod.ext (by decide +kernel) rfl
  obtain ⟨-, -, -, -, hread, -⟩ := inode_is_byte_array smallImage smallImage_wellFormed smallWritten
    _ smallWritten_reach rootino hlock
  have hbytes := (hread (fun _ => true) 1022 4 (by decide +kernel)).1 fun _ _ => rfl
  refine ⟨smallImage_wellFormed, smallRun_reach, smallLocked_run, ⟨s', c, hrun, hw, hfiles⟩,
    smallWritten_reach, _, hlock, hbytes.trans ?_⟩
  exact congrArg (·, _) (congrArg Except.ok (by decide +kernel))

/-- A write of one block more than the log has room for, the three blocks that describe the file and
the disk included. -/
theorem writei_too_big : pieces 0 28672 + 3 = logblocks + 1 ∧
    (runFrom (writei rootino (fun _ => some 1) 0 28672) smallLocked).1 = .error (.log .tooBig) :=
  ⟨by decide +kernel, by decide +kernel⟩

/-- `readi` returns nothing where `off + n` wraps, although there are bytes after `off`. -/
theorem readi_wraps : smallImage.WellFormed ∧ FsReach smallImage smallRun ∧
    runFrom (lockOp rootino) smallRun = (.ok (), smallLocked) ∧
    (1 : UInt32) ≤ (smallLocked.img.dinode rootino).size ∧
    min (4294967295 : UInt32).toNat ((smallLocked.img.dinode rootino).size.toNat - 1) = 31 ∧
    runFrom (readi rootino (fun _ => true) 1 4294967295) smallLocked = (.ok (0, []), smallLocked) :=
  ⟨smallImage_wellFormed, smallRun_reach, smallLocked_run, by decide, by decide, rfl⟩

end Xv6Riscv
