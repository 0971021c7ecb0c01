import Xv6Riscv.Fs.Invariant

/-!
Directories and path names (`fs.c`, from `namecmp` on).

A directory is a file of entries of 16 bytes, the number of an inode in two bytes and a name in
fourteen. A name is the bytes before its first NUL, a path the bytes before its NUL.

The three functions that go through the entries of a directory are one loop, `scanDir`: `dirlookup`
stops at the entry with a name, `dirlink` at an unused entry, `isdirempty` at a used one.
-/

namespace Xv6Riscv

def dirsiz : ℕ := 14

/-- `struct dirent`. -/
structure Dirent where
  inum : ℕ
  name : List UInt8
  deriving DecidableEq, Repr

def decodeDirent (l : List UInt8) : Dirent where
  inum := (l.getD 0 0).toNat + 256 * (l.getD 1 0).toNat
  name := (l.drop 2).take dirsiz

/-- The bytes of an entry: the number is cut to 16 bits, the name is filled up with NULs
(`strncpy`). -/
def encodeDirent (inum : ℕ) (name : List UInt8) (k : ℕ) : Option UInt8 :=
  some (if k = 0 then UInt8.ofNat inum
    else if k = 1 then UInt8.ofNat (inum / 256)
    else ((name.take dirsiz).takeWhile (· != 0)).getD (k - 2) 0)

/-- `strncmp`; past the end of a list there are NULs. -/
def strncmp : ℕ → List UInt8 → List UInt8 → ℤ
  | 0, _, _ => 0
  | n + 1, p, q =>
    if p.headD 0 ≠ 0 ∧ p.headD 0 = q.headD 0 then strncmp n p.tail q.tail
    else (p.headD 0).toNat - (q.headD 0).toNat

def namecmp (s t : List UInt8) : ℤ := strncmp dirsiz s t

/-- The characters of a name before its end. -/
def cname (s : List UInt8) : List UInt8 := (s.take dirsiz).takeWhile (· != 0)

lemma toNat_sub_eq_zero {a b : UInt8} : (a.toNat : ℤ) - b.toNat = 0 ↔ a = b := by
  rw [sub_eq_zero, Nat.cast_inj, UInt8.toNat_inj]

lemma takeWhile_take_succ (p : List UInt8) (n : ℕ) :
    (p.take (n + 1)).takeWhile (· != 0) =
      if p.headD 0 = 0 then [] else p.headD 0 :: (p.tail.take n).takeWhile (· != 0) := by
  cases p with
  | nil => rfl
  | cons a p => by_cases ha : a = 0 <;> simp [ha]

/-- `strncmp` compares the characters before the end. -/
lemma strncmp_eq_zero (n : ℕ) : ∀ p q : List UInt8, strncmp n p q = 0 ↔
    (p.take n).takeWhile (· != 0) = (q.take n).takeWhile (· != 0) := by
  induction n with
  | zero => simp [strncmp]
  | succ n ih =>
    intro p q
    rw [strncmp, takeWhile_take_succ p, takeWhile_take_succ q]
    generalize p.headD 0 = a
    generalize q.headD 0 = b
    by_cases ha : a = 0
    · rw [if_neg fun h => h.1 ha, if_pos ha, toNat_sub_eq_zero, ha]
      by_cases hb : b = 0
      · simp [hb]
      · simp [hb, Ne.symm hb]
    by_cases he : a = b
    · rw [if_pos ⟨ha, he⟩, ih, if_neg ha, if_neg (he ▸ ha), he, List.cons.injEq]
      exact ⟨fun h => ⟨rfl, h⟩, fun h => h.2⟩
    · rw [if_neg fun h => he h.2, if_neg ha, toNat_sub_eq_zero]
      by_cases hb : b = 0 <;> simp [hb, he, ha]

lemma namecmp_eq_zero {s t : List UInt8} : namecmp s t = 0 ↔ cname s = cname t :=
  strncmp_eq_zero dirsiz s t

def dot : List UInt8 := [46]

def dotdot : List UInt8 := [46, 46]

/-- `skipelem`: the rest of the path and the name, if the path has an element. -/
def skipelem (path : List UInt8) : Option (List UInt8 × List UInt8) :=
  let path := path.dropWhile (· == 47)
  if path = [] then none
  else some ((path.dropWhile (· != 47)).dropWhile (· == 47),
    (path.takeWhile (· != 47)).take dirsiz)

def rootino : ℕ := 1

namespace Fs

open Words Wp Image

/-- The loop over the entries of the directory `dp` from the byte `off` on: the entry it stops at,
if any, and the last value of `off`. A read that fails is the panic `e`. -/
def scanDir (dp : ℕ) (e : FsPanic) (stop : Dirent → Bool) :
    ℕ → UInt32 → FsM (Option Dirent × UInt32)
  | 0, off => pure (none, off)
  | fuel + 1, off => do
      let s ← get
      if off < (s.ino dp).size then do
        let r ← readi dp (fun _ => true) off 16
        if r.1 ≠ 16 then throw e
        else if stop (decodeDirent r.2) then pure (some (decodeDirent r.2), off)
        else scanDir dp e stop fuel (off + 16)
      else pure (none, off)

/-- `dirlookup`: the number of the inode with its reference, and the place of the entry. -/
def dirlookup (dp : ℕ) (name : List UInt8) : FsM (Option (ℕ × UInt32)) := do
  let s ← get
  if (s.ino dp).type ≠ .dir then throw .notDir
  else do
    let r ← scanDir dp .dirlookupRead
      (fun de => de.inum != 0 && namecmp name de.name == 0) (s.ino dp).size.toNat 0
    match r.1 with
    | none => pure none
    | some de => do
      iget de.inum
      pure (some (de.inum, r.2))

def dirlink (dp : ℕ) (name : List UInt8) (inum : ℕ) : FsM ℤ := do
  match ← dirlookup dp name with
  | some (ip, _) => do
    iput ip
    pure (-1)
  | none => do
    let s ← get
    let r ← scanDir dp .dirlinkRead (fun de => de.inum == 0) (s.ino dp).size.toNat 0
    let w ← writei dp (encodeDirent inum name) r.2 16
    if w ≠ 16 then pure (-1) else pure 0

def isdirempty (dp : ℕ) : FsM Bool := do
  let s ← get
  let r ← scanDir dp .isdiremptyReadi (fun de => de.inum != 0) (s.ino dp).size.toNat 32
  pure r.1.isNone

/-- The end of `namex`, when the path has no more elements. -/
def namexEnd (nameiparent : Bool) (ip : ℕ) (name : List UInt8) : FsM (Option (ℕ × List UInt8)) :=
  if nameiparent then do
    iput ip
    pure none
  else pure (some (ip, name))

/-- The loop of `namex`: the inode, with a reference, and the last name. Every turn takes an element
off the path, so as many turns as the path has bytes are enough. -/
def namexLoop (nameiparent : Bool) :
    ℕ → ℕ → List UInt8 → List UInt8 → FsM (Option (ℕ × List UInt8))
  | 0, ip, _, name => namexEnd nameiparent ip name
  | fuel + 1, ip, path, name =>
    match skipelem path with
    | none => namexEnd nameiparent ip name
    | some (rest, name) => do
      ilock ip
      let s ← get
      if (s.ino ip).type ≠ .dir then do
        iunlockput ip
        pure none
      else if (s.ino ip).nlink = 0 then do
        iunlockput ip
        pure none
      else if nameiparent = true ∧ rest = [] then do
        -- stop one level early
        iunlock ip
        pure (some (ip, name))
      else do
        match ← dirlookup ip name with
        | none => do
          iunlockput ip
          pure none
        | some (next, _) => do
          iunlockput ip
          namexLoop nameiparent fuel next rest name

/-- `namex`, for a process with the current directory `cwd`. -/
def namex (cwd : ℕ) (path : List UInt8) (nameiparent : Bool) : FsM (Option (ℕ × List UInt8)) :=
  if path.head? = some 47 then do
    iget rootino
    namexLoop nameiparent path.length rootino path []
  else do
    idup cwd
    namexLoop nameiparent path.length cwd path []

def namei (cwd : ℕ) (path : List UInt8) : FsM (Option ℕ) := do
  let r ← namex cwd path false
  pure (r.map Prod.fst)

def nameiparent (cwd : ℕ) (path : List UInt8) : FsM (Option (ℕ × List UInt8)) :=
  namex cwd path true

/-! ### Going through a directory -/

variable {F : Set Blockno} {s s' : Fs} {sb : Superblock} {L : ℕ → Bool} {R : ℕ → ℤ} {i dp ip : ℕ}

/-- The entry at the byte `off` of the directory `i`. -/
def entryAt (g : Image) (i off : ℕ) : Dirent := decodeDirent (fileBytes g i off 16)

/-- How a loop over the entries of a directory ends: after `turns` entries it has passed over. -/
structure Scanned (g : Image) (dp off : ℕ) (stop : Dirent → Bool) (r : Option Dirent × UInt32)
    (turns : ℕ) : Prop where
  off_eq : r.2.toNat = off + 16 * turns
  passed : ∀ j < turns, off + 16 * j + 16 ≤ (g.dinode dp).size.toNat ∧
    stop (entryAt g dp (off + 16 * j)) = false
  found : ∀ de, r.1 = some de → r.2.toNat + 16 ≤ (g.dinode dp).size.toNat ∧
    de = entryAt g dp r.2.toNat ∧ stop de = true
  ended : r.1 = none → (g.dinode dp).size.toNat ≤ r.2.toNat

lemma readi_entry (h : Inv s) (hi : s.img.Typed dp) (off : UInt32) : ∃ r,
    runFrom (readi dp (fun _ => true) off 16) s = (.ok r, s) ∧
      (r.1 = 16 → off.toNat + 16 ≤ (s.img.dinode dp).size.toNat ∧
        r.2 = fileBytes s.img dp off.toNat 16) := by
  refine ⟨_, readi_eq h hi, fun hr => ?_⟩
  split_ifs at hr ⊢ with hout
  · cases hr
  have hall : ∀ m, copied (fun _ => true) 0 m = m := fun m => copied_eq fun _ _ => rfl
  have hle := (toNat_add_of_not_outOfFile hout).1
  have h16 : (16 : UInt32).toNat = 16 := rfl
  simp only [readResult, hall, if_true, h16] at hr ⊢
  have hm : min 16 ((s.img.dinode dp).size.toNat - off.toNat) = 16 := by exact_mod_cast hr
  rw [hm]
  exact ⟨by omega, rfl⟩

/-- **Going through a directory** changes nothing. -/
lemma scanDir_runs {e : FsPanic} {stop : Dirent → Bool} (h : Inv s) (hi : s.img.Typed dp)
    (he : (∀ l, e ≠ .log l) ∧ e ≠ .freeingFreeBlock ∧ e ≠ .outOfRange ∧ e ≠ .unlinkNlink) :
    ∀ (fuel : ℕ) (off : UInt32), (s.img.dinode dp).size.toNat ≤ off.toNat + 16 * fuel →
      Runs Halts F 0 (scanDir dp e stop fuel off) s fun r s' => s' = s ∧
        ∃ turns, Scanned s.img dp off.toNat stop r turns := by
  intro fuel
  induction fuel with
  | zero =>
    intro off hsize
    exact Runs.pure ⟨rfl, 0, rfl, by simp, by simp, fun _ => hsize⟩
  | succ fuel ih =>
    intro off hsize
    refine Runs.read ?_
    rw [h.ino]
    refine Runs.ite (fun hlt => ?_) fun hge => Runs.pure
      ⟨rfl, 0, rfl, by simp, by simp, fun _ => ?_⟩
    swap
    · rwa [UInt32.not_lt, UInt32.le_iff_toNat_le] at hge
    obtain ⟨r, hread, hr⟩ := readi_entry h hi off
    refine Runs.bind_run hread (Runs.ite (fun _ => halt_runs he) fun h16 => ?_)
    obtain ⟨hin, hbytes⟩ := hr (not_not.mp h16)
    have hde : decodeDirent r.2 = entryAt s.img dp off.toNat := by rw [hbytes, entryAt]
    rw [hde]
    refine Runs.ite (fun hstop => Runs.pure ⟨rfl, 0, rfl, by simp, ?_, by simp⟩) fun hstop => ?_
    · rintro de ⟨⟩
      exact ⟨hin, rfl, hstop⟩
    have hnext : (off + 16).toNat = off.toNat + 16 := by
      have hlim := (s.img.dinode dp).size.toNat_lt
      have h16 : (16 : UInt32).toNat = 16 := rfl
      rw [UInt32.toNat_add, h16, Nat.mod_eq_of_lt (by omega)]
    refine Runs.imp (ih (off + 16) (by omega)) ?_
    rintro r' s1 ⟨rfl, turns, hsc⟩
    refine ⟨rfl, turns + 1, ?_, fun j hj => ?_, hsc.found, hsc.ended⟩
    · rw [hsc.off_eq, hnext]
      omega
    · rcases j with _ | j
      · exact ⟨by omega, by simpa using hstop⟩
      · have := hsc.passed j (by omega)
        rw [hnext] at this
        rw [show off.toNat + 16 * (j + 1) = off.toNat + 16 + 16 * j by omega]
        exact this

/-- An entry of the directory `i` with this name. -/
def HasEntry (g : Image) (i : ℕ) (name : List UInt8) (off inum : ℕ) : Prop :=
  off % 16 = 0 ∧ off + 16 ≤ (g.dinode i).size.toNat ∧ (entryAt g i off).inum = inum ∧ inum ≠ 0 ∧
    namecmp name (entryAt g i off).name = 0

variable {name path : List UInt8}

/-- **`dirlookup`** finds the first entry with the name, if there is one. -/
lemma dirlookup_runs (h : At sb L R s) (hdp : L dp = true) :
    Runs Halts F 0 (dirlookup dp name) s fun r s' => s'.img = s.img ∧
      (s.img.dinode dp).type = .dir ∧
      (r = none ∧ s' = s ∧ (∀ off inum, ¬ HasEntry s.img dp name off inum) ∨
        ∃ inum off, r = some (inum, off) ∧ At sb L (R + Pi.single inum 1) s' ∧
          HasEntry s.img dp name off.toNat inum) := by
  have hi := h.typed hdp
  refine Runs.read ?_
  rw [h.inv.ino]
  refine Runs.ite (fun _ => halt_runs (by simp)) fun hdir => ?_
  refine Runs.seq (scanDir_runs h.inv hi (by simp) _ 0 (by simp; omega)) ?_
  rintro ⟨de, off⟩ s1 ⟨rfl, turns, hsc⟩
  have hoff : off.toNat = 16 * turns := by simpa using hsc.off_eq
  cases de with
  | none =>
    refine Runs.pure ⟨rfl, not_not.mp hdir, .inl ⟨rfl, rfl, ?_⟩⟩
    rintro o inum ⟨hmod, hin, hnum, hne, hname⟩
    have hend : (s1.img.dinode dp).size.toNat ≤ off.toNat := hsc.ended rfl
    have := (hsc.passed (o / 16) (by omega)).2
    rw [show (0 : UInt32).toNat + 16 * (o / 16) = o by simp; omega] at this
    simp [hnum, hne, hname] at this
  | some de =>
    obtain ⟨hin, hde, hstop⟩ := hsc.found de rfl
    have hde' : de = entryAt s1.img dp off.toNat := hde
    refine Runs.seq (iget_runs h) fun _ s2 ⟨h2, himg, _⟩ => ?_
    refine Runs.pure ⟨himg, not_not.mp hdir,
      .inr ⟨de.inum, off, rfl, h2, by omega, hin, ?_, ?_, ?_⟩⟩
    · rw [← hde']
    · simpa using (Bool.and_eq_true_iff.mp hstop).1
    · rw [← hde']
      simpa using (Bool.and_eq_true_iff.mp hstop).2

/-! ### A new entry -/

/-- The entry `(inum, name)` has been written at the byte `off` of the directory `dp`, in place of
an unused entry or at the end. -/
structure Entered (dp off inum : ℕ) (name : List UInt8) (g g' : Image) : Prop where
  aligned : off % 16 = 0
  place : off = (g.dinode dp).size.toNat ∨
    off + 16 ≤ (g.dinode dp).size.toNat ∧ (entryAt g dp off).inum = 0
  wrote : Wrote dp (encodeDirent inum name) off 16 16 g g'

lemma pieces_entry {off : ℕ} (h : off % 16 = 0) : pieces off 16 = 1 := by
  rw [pieces, if_neg (by decide), bsize_eq]
  omega

lemma Wrote.entry {src : ℕ → Option UInt8} {off tot : ℕ} {g g' : Image}
    (h : Wrote i src off 16 tot g g') (hoff : off % 16 = 0) : tot = 16 ∨ tot = 0 := by
  have hle := h.le
  have hstop := h.stop
  rw [bsize_eq] at hstop
  omega

lemma Wrote.sameFs {src : ℕ → Option UInt8} {g g' : Image} {n : ℕ}
    (h : Wrote i src (g.dinode i).size.toNat n 0 g g') (hi : g.Typed i) : SameFs g g' := by
  obtain ⟨z, a, hd⟩ := h.fields
  have hz : z = (g.dinode i).size := by
    have := h.size
    rw [hd] at this
    exact UInt32.toNat_inj.mp (by simpa using this)
  have hdin : g'.dinode i = (g.dinode i).withAddrs a := by
    rw [hd, hz]
    rfl
  intro j
  by_cases hj : j = i
  · subst hj
    exact ⟨by rw [hdin]; rfl, fun _ => ⟨⟨a, hdin⟩, fun p hp => h.same p hp (.inl hp)⟩⟩
  · have hdj := h.other j hj
    exact ⟨by rw [hdj], fun hty => ⟨⟨_, hdj⟩, h.otherBytes j hty hj⟩⟩

/-- A reference to `i` was given back: if it was the last one and the inode had no links, the inode
may be free now. -/
def Dropped (i : ℕ) (R : ℕ → ℤ) (g g' : Image) : Prop :=
  g' = g ∨ R i = 1 ∧ (g.dinode i).nlink = 0 ∧ Reclaimed i g g'

/-- `iput`, when the block of the inode is counted already. -/
lemma iput_drops (h : At sb L R s) (hR : 1 ≤ R i) (hL : L i = true → 2 ≤ R i)
    (hF : sb.bitmapBlocks ⊆ F) (hiF : sb.iblock i ∈ F) :
    Runs Halts F 0 (iput i) s fun _ s' =>
      At sb L (R - Pi.single i 1) s' ∧ Dropped i R s.img s'.img := by
  refine Runs.imp (iput_runs h hR hL hF fun _ => hiF) ?_
  rintro _ s1 ⟨h1, ⟨-, himg⟩ | ⟨hl, hrec⟩⟩
  · exact ⟨h1, .inl himg⟩
  · obtain ⟨hone, hn⟩ := h.last_eq_true hl
    exact ⟨h1, .inr ⟨hone, hn, hrec⟩⟩

/-- `iput` of an inode that a path or a directory has led to. -/
lemma iput_cases (h : At sb L R s) (hR : 1 ≤ R i) (hL : L i = true → 2 ≤ R i)
    (hF : sb.bitmapBlocks ⊆ F) :
    Runs Halts F 1 (iput i) s fun _ s' =>
      At sb L (R - Pi.single i 1) s' ∧ Dropped i R s.img s'.img :=
  Runs.of_insert (iput_drops h hR hL (hF.trans (Set.subset_insert _ F)) (Set.mem_insert _ F))

/-- `iunlockput`: the inode is loaded, so the last reference to an inode without links frees it. -/
lemma iunlockput_drops (h : At sb L R s) (hF : sb.bitmapBlocks ⊆ F) (hiF : sb.iblock i ∈ F) :
    Runs Halts F 0 (iunlockput i) s fun _ s' =>
      At sb (Function.update L i false) (R - Pi.single i 1) s' ∧ Dropped i R s.img s'.img ∧
        (R i = 1 → (s.img.dinode i).nlink = 0 → Reclaimed i s.img s'.img) := by
  refine Runs.seq (iunlock_runs h) fun _ s1 ⟨h1, hL, himg, hicore⟩ => ?_
  have hno : Function.update L i false i = true → 2 ≤ R i := by simp
  refine Runs.imp (iput_runs h1 (h.ref_pos hL) hno hF fun _ => hiF) ?_
  rw [himg]
  rintro _ s2 ⟨h2, ⟨hl, himg2⟩ | ⟨hl, hrec⟩⟩
  · refine ⟨h2, .inl himg2, fun hone hn => ?_⟩
    have hlast : s1.last i = true := h1.last_of_zero hone (himg ▸ hn) (hicore ▸ h.loaded hL)
    rw [hlast] at hl
    cases hl
  · obtain ⟨hone, hn⟩ := h1.last_eq_true hl
    exact ⟨h2, .inr ⟨hone, himg ▸ hn, hrec⟩, fun _ _ => hrec⟩

lemma iunlockput_cases (h : At sb L R s) (hF : sb.bitmapBlocks ⊆ F) :
    Runs Halts F 1 (iunlockput i) s fun _ s' =>
      At sb (Function.update L i false) (R - Pi.single i 1) s' ∧ Dropped i R s.img s'.img :=
  Runs.of_insert (Runs.imp (iunlockput_drops h (hF.trans (Set.subset_insert _ F))
    (Set.mem_insert _ F)) fun _ _ h => ⟨h.1, h.2.1⟩)

/-- How `dirlink` ends: a name that is there, no room, or a new entry. -/
inductive LinkResult (dp inum : ℕ) (name : List UInt8) (R : ℕ → ℤ) (g g' : Image) : ℤ → Prop
  | present (off i : ℕ) : HasEntry g dp name off i →
      (g' = g ∨ R i = 0 ∧ (g.dinode i).nlink = 0 ∧ Reclaimed i g g') →
      LinkResult dp inum name R g g' (-1)
  | noRoom : (∀ off i, ¬ HasEntry g dp name off i) → SameFs g g' →
      LinkResult dp inum name R g g' (-1)
  | entered (off : ℕ) : (∀ off i, ¬ HasEntry g dp name off i) →
      Entered dp off inum name g g' → LinkResult dp inum name R g g' 0

/-- **`dirlink`** logs two blocks, besides the blocks of the free map and the inode of the
directory. -/
lemma dirlink_runs {inum : ℕ} (h : At sb L R s) (hdp : L dp = true) (hF : sb.bitmapBlocks ⊆ F)
    (hdpF : sb.iblock dp ∈ F) :
    Runs Halts F 2 (dirlink dp name inum) s fun r s' => At sb L R s' ∧
      (s.img.dinode dp).type = .dir ∧ LinkResult dp inum name R s.img s'.img r := by
  have hi := h.typed hdp
  refine Runs.seq (dirlookup_runs h hdp) ?_
  rintro r s1 ⟨himg, hdir, ⟨rfl, rfl, hno⟩ | ⟨ip, off, rfl, h1, hent⟩⟩
  · refine Runs.read ?_
    rw [h.inv.ino]
    refine Runs.seq (scanDir_runs h.inv hi (by simp) _ 0 (by simp; omega)) ?_
    rintro ⟨de, off⟩ s2 ⟨rfl, turns, hsc⟩
    have hoff : off.toNat = 16 * turns := by simpa using hsc.off_eq
    have hmod : off.toNat % 16 = 0 := by omega
    -- every entry that was passed over is below the size
    have hle : off.toNat ≤ (s2.img.dinode dp).size.toNat := by
      rcases turns with _ | t
      · omega
      · have := (hsc.passed t (by omega)).1
        simp only [UInt32.toNat_zero] at this
        omega
    have hplace : off.toNat = (s2.img.dinode dp).size.toNat ∨
        off.toNat + 16 ≤ (s2.img.dinode dp).size.toNat ∧
        (entryAt s2.img dp off.toNat).inum = 0 := by
      cases de with
      | none =>
        have hend : (s2.img.dinode dp).size.toNat ≤ off.toNat := hsc.ended rfl
        exact .inl (by omega)
      | some de =>
        obtain ⟨hin, hde, hstop⟩ := hsc.found de rfl
        rw [hde] at hstop
        exact .inr ⟨hin, by simpa using hstop⟩
    have hw : Runs Halts F _ (writei dp (encodeDirent inum name) off 16) s2 _ :=
      (writei_runs h hdp hF hdpF).halts
    have h16 : (16 : UInt32).toNat = 16 := rfl
    rw [h16, pieces_entry hmod] at hw
    refine Runs.bind_zero hw ?_
    rintro w s3 ⟨h3, ⟨-, rfl, rfl⟩ | ⟨-, tot, rfl, hwrote⟩⟩
    · rw [if_pos (by decide)]
      exact Runs.pure ⟨h3, hdir, .noRoom hno .refl⟩
    rcases hwrote.entry hmod with rfl | rfl
    · rw [if_neg (by simp)]
      exact Runs.pure ⟨h3, hdir, .entered off.toNat hno ⟨hmod, hplace, hwrote⟩⟩
    · rw [if_pos (by simp)]
      refine Runs.pure ⟨h3, hdir, .noRoom hno ?_⟩
      rcases hplace with hsize | ⟨hin, -⟩
      · rw [hsize] at hwrote
        exact hwrote.sameFs hi
      · -- an entry in the middle has its block
        exfalso
        rcases hwrote.short (by decide) with ⟨k, _, hk⟩ | hroom
        · simp [encodeDirent] at hk
        · exact hroom (room_of_lt h.inv hi hin)
  · have hnn := h.nonneg ip
    have hip := add_single_self R ip
    refine Runs.mono (k := 2) (Runs.bind_zero (iput_cases h1 (by omega) (fun hL => ?_) hF)
      fun _ s2 ⟨h2, hres⟩ => ?_) (by omega) fun _ _ h => h
    · have := h.ref_pos hL
      omega
    · rw [add_sub_cancel_right] at h2
      refine Runs.pure ⟨h2, hdir, .present off.toNat ip hent ?_⟩
      rw [himg] at hres
      exact hres.imp_right fun hr => ⟨by omega, hr.2⟩

/-! ### Paths -/

/-- A directory that has not been removed. -/
def Linked (g : Image) (j : ℕ) : Prop := (g.dinode j).type = .dir ∧ (g.dinode j).nlink ≠ 0

/-- An entry of the linked directory `j` names `i`. -/
def Names (g : Image) (j i : ℕ) : Prop := Linked g j ∧ ∃ off name, HasEntry g j name off i

/-- The numbers of inodes fit into an entry; the root, and every inode that has a name, has links;
and a directory with a directory in it has two. -/
structure Tidy (g : Image) : Prop where
  ninodes : g.sb.ninodes ≤ 65536
  root : Linked g rootino
  names : ∀ j i, Names g j i → g.Typed i ∧ 1 ≤ (g.dinode i).nlink
  parents : ∀ j i name off, Linked g j → HasEntry g j name off i → namecmp name dot ≠ 0 →
    namecmp name dotdot ≠ 0 → (g.dinode i).type = .dir → 2 ≤ (g.dinode j).nlink
  nonneg : ∀ i, g.Typed i → 0 ≤ (g.dinode i).nlink

/-- How `namexLoop` ends, started at the inode `ip` of which it has a reference. A path that is not
found gives its reference back, which may free an inode without links. -/
inductive WalkResult (F : Set Blockno) (sb : Superblock) (L : ℕ → Bool) (R : ℕ → ℤ) (parent : Bool)
    (ip : ℕ) (s s' : Fs) : Option (ℕ × List UInt8) → Prop
  | missing : At sb L (R - Pi.single ip 1) s' →
      (s'.img = s.img ∨ ∃ i, Reclaimed i s.img s'.img ∧ (s.img.dinode i).nlink = 0 ∧
        (i = ip ∧ R ip = 1 ∨ ∃ j, Names s.img j i)) →
      WalkResult F sb L R parent ip s s' none
  | found (dp : ℕ) (name : List UInt8) : Logs F 0 s s' →
      At sb L (R - Pi.single ip 1 + Pi.single dp 1) s' → s'.img = s.img →
      (dp = ip ∨ ∃ j, Names s.img j dp) → (parent = true → Linked s.img dp) →
      WalkResult F sb L R parent ip s s' (some (dp, name))

lemma namexEnd_runs {parent : Bool} (h : At sb L R s) (hR : 1 ≤ R ip) (hL : L ip = true → 2 ≤ R ip)
    (hF : sb.bitmapBlocks ⊆ F) :
    Runs Halts F 1 (namexEnd parent ip name) s fun r s' =>
      WalkResult F sb L R parent ip s s' r := by
  refine Runs.ite (fun _ => ?_) fun hp => ?_
  · refine Runs.bind_zero (iput_cases h hR hL hF) fun _ s1 ⟨h1, hres⟩ => Runs.pure (.missing h1 ?_)
    exact hres.imp_right fun hr => ⟨ip, hr.2.2, hr.2.1, .inl ⟨rfl, hr.1⟩⟩
  · refine Runs.pure (.found ip name .refl ?_ rfl (.inl rfl) fun h => absurd h hp)
    rwa [sub_add_cancel]

/-- After one step along a path from `ip` there is a reference to the next inode, and one more when
somebody has it locked. -/
lemma At.walked (h : At sb L R s) (hR : 1 ≤ R ip) (hL : L ip = false) (next : ℕ) :
    1 ≤ (R + Pi.single next 1 - Pi.single ip 1 : ℕ → ℤ) next ∧
      (L next = true → 2 ≤ (R + Pi.single next 1 - Pi.single ip 1 : ℕ → ℤ) next) := by
  rcases eq_or_ne next ip with rfl | hne
  · rw [add_sub_cancel_right]
    exact ⟨hR, fun hn => by rw [hL] at hn; cases hn⟩
  · have hnext : (R + Pi.single next 1 - Pi.single ip 1 : ℕ → ℤ) next = R next + 1 := by simp [hne]
    rw [hnext]
    have hnn := h.nonneg next
    refine ⟨by omega, fun hn => ?_⟩
    have hpos := h.ref_pos hn
    omega

/-- **`namex`**, from any point of the path on. -/
lemma namexLoop_runs {parent : Bool} (hF : sb.bitmapBlocks ⊆ F) :
    ∀ (fuel ip : ℕ) (path name : List UInt8) (R : ℕ → ℤ) (s : Fs), At sb L R s → 1 ≤ R ip →
      (L ip = true → 2 ≤ R ip) →
      Runs Halts F 1 (namexLoop parent fuel ip path name) s fun r s' =>
        WalkResult F sb L R parent ip s s' r := by
  intro fuel
  induction fuel with
  | zero =>
    intro ip path name R s h hR hL
    exact namexEnd_runs h hR hL hF
  | succ fuel ih =>
    intro ip path name R s h hR hL
    rw [namexLoop]
    cases hskip : skipelem path with
    | none => exact namexEnd_runs h hR hL hF
    | some el =>
      obtain ⟨rest, name⟩ := el
      refine Runs.seq (ilock_runs h).logs fun _ s1 ⟨hl1, h1, hLip, himg⟩ => ?_
      have hback : Function.update (Function.update L ip true) ip false = L := by
        rw [Function.update_idem, ← hLip, Function.update_eq_self]
      -- an early end: the inode is given back
      have hend : ∀ {s2 : Fs}, s2.img = s.img → At sb (Function.update L ip true) R s2 →
          Runs Halts F 1 (do iunlockput ip; pure none) s2 fun r s' =>
            WalkResult F sb L R parent ip s s' r := by
        intro s2 himg2 h2
        refine Runs.bind_zero (iunlockput_cases h2 hF) fun _ s3 ⟨h3, hres⟩ => ?_
        rw [hback] at h3
        rw [himg2] at hres
        refine Runs.pure (.missing h3 (hres.imp_right fun hr => ?_))
        exact ⟨ip, hr.2.2, hr.2.1, .inl ⟨rfl, hr.1⟩⟩
      refine Runs.read ?_
      rw [h1.inv.ino, himg]
      refine Runs.ite (fun _ => hend himg h1) fun hdir => ?_
      refine Runs.ite (fun _ => hend himg h1) fun hn => ?_
      have hlinked : Linked s.img ip := ⟨not_not.mp hdir, hn⟩
      refine Runs.ite (fun _ => ?_) fun _ => ?_
      · refine Runs.seq (iunlock_runs h1).logs fun _ s2 ⟨hl2, h2, _, himg2, _⟩ => ?_
        rw [hback] at h2
        refine Runs.pure (.found ip name (hl1.trans hl2) ?_ (himg2.trans himg) (.inl rfl)
          fun _ => hlinked)
        rwa [sub_add_cancel]
      refine Runs.seq (dirlookup_runs h1 (Function.update_self ..)).logs ?_
      rintro r s2 ⟨hl2, himg2, -, ⟨rfl, rfl, -⟩ | ⟨next, off, rfl, h2, hent⟩⟩
      · exact hend himg h1
      have hnames : Names s.img ip next := ⟨hlinked, off.toNat, name, himg ▸ hent⟩
      have himg2' : s2.img = s.img := himg2.trans himg
      refine Runs.seq (iunlockput_keeps h2 hF (.inl (himg2' ▸ hn))).logs ?_
      rintro _ s3 ⟨hl3, h3, himg3⟩
      have himg3' : s3.img = s.img := himg3.trans himg2'
      rw [hback] at h3
      have hnext := At.walked h hR hLip next
      refine Runs.imp (ih next rest name _ s3 h3 hnext.1 hnext.2) ?_
      rintro _ s4 (⟨h4, hres⟩ | ⟨dp, name', hl4, h4, himg4, hdp, hpar⟩)
      · rw [add_sub_right_comm, add_sub_cancel_right] at h4
        rw [himg3'] at hres
        refine .missing h4 (hres.imp_right ?_)
        rintro ⟨i, hr, hn, ⟨rfl, -⟩ | hj⟩
        · exact ⟨i, hr, hn, .inr ⟨ip, hnames⟩⟩
        · exact ⟨i, hr, hn, .inr hj⟩
      · rw [add_sub_right_comm, add_sub_cancel_right] at h4
        rw [himg3'] at himg4 hdp hpar
        refine .found dp name' (((hl1.trans hl2).trans hl3).trans hl4) h4 himg4 (.inr ?_) hpar
        rcases hdp with rfl | hj
        · exact ⟨ip, hnames⟩
        · exact hj

/-- How `namex` ends. A path that is not found changes nothing, if the names are tidy. -/
inductive NamexResult (F : Set Blockno) (sb : Superblock) (L : ℕ → Bool) (R : ℕ → ℤ) (parent : Bool)
    (cwd : ℕ) (s s' : Fs) : Option (ℕ × List UInt8) → Prop
  | missing : At sb L R s' → (Tidy s.img → s'.img = s.img) →
      NamexResult F sb L R parent cwd s s' none
  | found (dp : ℕ) (name : List UInt8) : Logs F 0 s s' → At sb L (R + Pi.single dp 1) s' →
      s'.img = s.img → (dp = rootino ∨ dp = cwd ∨ ∃ j, Names s.img j dp) →
      (parent = true → Linked s.img dp) → NamexResult F sb L R parent cwd s s' (some (dp, name))

lemma walk_runs {cwd : ℕ} {parent : Bool} {m : FsM Unit} (h : At sb L R s)
    (hF : sb.bitmapBlocks ⊆ F)
    (hm : Runs Halts F 0 m s fun _ s' => At sb L (R + Pi.single ip 1) s' ∧ s'.img = s.img)
    (hip : ip = rootino ∨ ip = cwd) (hlast : Tidy s.img → R ip = 0 → (s.img.dinode ip).nlink ≠ 0) :
    Runs Halts F 1 (do m; namexLoop parent path.length ip path []) s fun r s' =>
      NamexResult F sb L R parent cwd s s' r := by
  refine Runs.seq hm.logs fun _ s1 ⟨hl1, h1, himg⟩ => ?_
  have hself := add_single_self R ip
  have hnn := h.nonneg ip
  refine Runs.imp (namexLoop_runs hF _ ip path [] _ s1 h1 (by omega) fun hL => ?_) ?_
  · have := h.ref_pos hL
    omega
  rintro _ s2 (⟨h2, hres⟩ | ⟨dp, name, hl2, h2, himg2, hdp, hpar⟩)
  · rw [add_sub_cancel_right] at h2
    rw [himg] at hres
    refine .missing h2 fun htidy => hres.resolve_right ?_
    rintro ⟨i, -, hn, ⟨rfl, hone⟩ | ⟨j, hj⟩⟩
    · exact hlast htidy (by omega) hn
    · have := (htidy.names j i hj).2
      omega
  · rw [add_sub_cancel_right] at h2
    rw [himg] at himg2 hdp hpar
    refine .found dp name (hl1.trans hl2) h2 himg2 ?_ hpar
    rcases hdp with rfl | hdp
    · exact hip.imp_right .inl
    · exact .inr (.inr hdp)

/-- **`namex`** logs at most one block, when it frees an inode on the way, and none if it finds
the path. -/
lemma namex_runs {cwd : ℕ} {parent : Bool} (h : At sb L R s) (hcwd : 1 ≤ R cwd)
    (hF : sb.bitmapBlocks ⊆ F) :
    Runs Halts F 1 (namex cwd path parent) s fun r s' =>
      NamexResult F sb L R parent cwd s s' r := by
  refine Runs.ite (fun _ => ?_) fun _ => ?_
  · refine walk_runs h hF ((iget_runs h).imp fun _ _ h => ⟨h.1, h.2.1⟩) (.inl rfl)
      fun htidy _ => htidy.root.2
  · refine walk_runs h hF ((idup_runs h).imp fun _ _ h => ⟨h.1, h.2.1⟩) (.inr rfl) fun _ hzero => ?_
    omega

lemma namei_runs {cwd : ℕ} (h : At sb L R s) (hcwd : 1 ≤ R cwd) (hF : sb.bitmapBlocks ⊆ F) :
    Runs Halts F 1 (namei cwd path) s fun r s' =>
      r = none ∧ At sb L R s' ∧ (Tidy s.img → s'.img = s.img) ∨
        ∃ ip, r = some ip ∧ Logs F 0 s s' ∧ At sb L (R + Pi.single ip 1) s' ∧ s'.img = s.img ∧
          (ip = rootino ∨ ip = cwd ∨ ∃ j, Names s.img j ip) := by
  refine Runs.bind_zero (namex_runs h hcwd hF) ?_
  rintro _ s1 (⟨h1, himg⟩ | ⟨ip, name, hl1, h1, himg, hfound, -⟩)
  · exact Runs.pure (.inl ⟨rfl, h1, himg⟩)
  · exact Runs.pure (.inr ⟨ip, rfl, hl1, h1, himg, hfound⟩)

/-- **`isdirempty`** looks at every entry but the first two. -/
lemma isdirempty_runs (h : At sb L R s) (hdp : L dp = true) :
    Runs Halts F 0 (isdirempty dp) s fun r s' => s' = s ∧ (r = true → ∀ off, off % 16 = 0 →
      32 ≤ off → off + 16 ≤ (s.img.dinode dp).size.toNat → (entryAt s.img dp off).inum = 0) := by
  refine Runs.read ?_
  rw [h.inv.ino]
  refine Runs.seq (scanDir_runs h.inv (h.typed hdp) (by simp) _ 32 (by simp; omega)) ?_
  rintro ⟨de, last⟩ s1 ⟨rfl, turns, hsc⟩
  refine Runs.pure ⟨rfl, fun hnone off hmod h32 hin => ?_⟩
  have hlast : last.toNat = 32 + 16 * turns := by simpa using hsc.off_eq
  have hend : (s1.img.dinode dp).size.toNat ≤ last.toNat := hsc.ended (by simpa using hnone)
  have := (hsc.passed ((off - 32) / 16) (by omega)).2
  rw [show (32 : UInt32).toNat + 16 * ((off - 32) / 16) = off by simp; omega] at this
  simpa using this

end Fs

end Xv6Riscv
