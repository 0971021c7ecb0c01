import Xv6Riscv.Fs.Names

/-!
The sections between `begin_op` and `end_op` (`sysfile.c`, `file.c`, `exec.c`).

Each way out of a section calls `end_op` last, so a section is `inOp` of its body. The calling
process is given by its current directory. What other parts of the kernel answer is an argument:
`argstr` may fail (a path is `none` then), `filealloc` and `fdalloc` may find their tables full, the
memory for a new program may be missing.
-/

namespace Xv6Riscv

def nlinkMax : ℤ := 32767

def ndev : ℤ := 10

def oCreate : UInt32 := 0x200

def oTrunc : UInt32 := 0x400

/-- A path that `argstr` has copied in. -/
abbrev Path := List UInt8

/-- The conversion of an `int` to a `short`. -/
def toShort (n : ℤ) : ℤ := n.bmod 65536

namespace Fs

open Wp

/-! ### Links -/

/-- The stores of `sys_link` and `sys_unlink` to the number of links, each with `iupdate`. -/
def addLinks (i : ℕ) (n : ℤ) : FsM Unit := setInode i fun d => { d with nlink := d.nlink + n }

/-- The label `bad` of `sys_link`. -/
def linkBad (ip : ℕ) : FsM ℤ := do
  ilock ip
  addLinks ip (-1)
  iunlockput ip
  pure (-1)

/-- `sys_link`, when the number of links has been raised. -/
def linkNew (cwd ip : ℕ) (new : Path) : FsM ℤ := do
  match ← nameiparent cwd new with
  | none => linkBad ip
  | some (dp, name) => do
    ilock dp
    let s ← get
    if (s.ino dp).nlink = 0 then do
      iunlockput dp
      linkBad ip
    else do
      -- there is one device, so `dp->dev` is `ip->dev`
      let r ← dirlink dp name ip
      if r < 0 then do
        iunlockput dp
        linkBad ip
      else do
        iunlockput dp
        iput ip
        pure 0

/-- The section of `sys_link`. -/
def linkBody (cwd : ℕ) (old new : Path) : FsM ℤ := do
  match ← namei cwd old with
  | none => pure (-1)
  | some ip => do
    ilock ip
    let s ← get
    if (s.ino ip).type = .dir then do
      iunlockput ip
      pure (-1)
    else if nlinkMax ≤ (s.ino ip).nlink then do
      iunlockput ip
      pure (-1)
    else do
      addLinks ip 1
      iunlock ip
      linkNew cwd ip new

def sysLink (cwd : ℕ) : Option Path → Option Path → FsM ℤ
  | some old, some new => inOp (linkBody cwd old new)
  | _, _ => pure (-1)

/-- The end of `sys_unlink`: the entry of `ip` at the byte `off` of `dp` is cleared. -/
def unlinkEntry (dp ip : ℕ) (off : UInt32) : FsM ℤ := do
  let w ← writei dp (fun _ => some 0) off 16
  if w ≠ 16 then throw .unlinkWritei
  else do
    let s ← get
    if (s.ino ip).type = .dir then addLinks dp (-1)
    iunlockput dp
    addLinks ip (-1)
    iunlockput ip
    pure 0

/-- The section of `sys_unlink`. -/
def unlinkBody (cwd : ℕ) (path : Path) : FsM ℤ := do
  match ← nameiparent cwd path with
  | none => pure (-1)
  | some (dp, name) => do
    ilock dp
    if namecmp name dot = 0 ∨ namecmp name dotdot = 0 then do
      iunlockput dp
      pure (-1)
    else do
      match ← dirlookup dp name with
      | none => do
        iunlockput dp
        pure (-1)
      | some (ip, off) => do
        ilock ip
        let s ← get
        if (s.ino ip).nlink < 1 then throw .unlinkNlink
        else if (s.ino ip).type = .dir then do
          let empty ← isdirempty ip
          if empty then unlinkEntry dp ip off
          else do
            iunlockput ip
            iunlockput dp
            pure (-1)
        else unlinkEntry dp ip off

def sysUnlink (cwd : ℕ) : Option Path → FsM ℤ
  | some path => inOp (unlinkBody cwd path)
  | none => pure (-1)

/-! ### New files -/

/-- The entries "." and ".." of the new directory `ip`, and whether they could be written. -/
def createDots (dp ip : ℕ) : FsM Bool := do
  let r ← dirlink ip dot ip
  if r < 0 then pure false
  else do
    let r ← dirlink ip dotdot dp
    pure (decide (¬ r < 0))

/-- The entries `create` writes, and whether they could be written. -/
def createEntries (type : InodeType) (dp ip : ℕ) (name : List UInt8) : FsM Bool := do
  let ok ← if type = .dir then createDots dp ip else pure true
  if ok then do
    let r ← dirlink dp name ip
    pure (decide (¬ r < 0))
  else pure false

/-- `create`, when it has allocated the inode `ip`. -/
def createNew (type : InodeType) (major minor : ℤ) (dp ip : ℕ) (name : List UInt8) :
    FsM (Option ℕ) := do
  ilock ip
  setInode ip fun d => { d with major := major, minor := minor, nlink := 1 }
  let ok ← createEntries type dp ip name
  if ok then do
    if type = .dir then addLinks dp 1
    iunlockput dp
    pure (some ip)
  else do
    -- the label `fail`
    setInode ip fun d => { d with nlink := 0 }
    iunlockput ip
    iunlockput dp
    pure none

/-- `create`: the inode, with a reference and locked. -/
def create (cwd : ℕ) (path : Path) (type : InodeType) (major minor : ℤ) : FsM (Option ℕ) := do
  match ← nameiparent cwd path with
  | none => pure none
  | some (dp, name) => do
    ilock dp
    let s ← get
    if (s.ino dp).nlink = 0 then do
      iunlockput dp
      pure none
    else if type = .dir ∧ nlinkMax ≤ (s.ino dp).nlink then do
      iunlockput dp
      pure none
    else do
      match ← dirlookup dp name with
      | some (ip, _) => do
        iunlockput dp
        ilock ip
        let s ← get
        if type = .file ∧ ((s.ino ip).type = .file ∨ (s.ino ip).type = .device) then
          pure (some ip)
        else do
          iunlockput ip
          pure none
      | none => do
        match ← ialloc type with
        | none => do
          iunlockput dp
          pure none
        | some ip => createNew type major minor dp ip name

/-- The inode `sys_open` opens, with a reference and locked. -/
def openInode (cwd : ℕ) (path : Path) (omode : UInt32) : FsM (Option ℕ) :=
  if omode &&& oCreate ≠ 0 then create cwd path .file 0 0
  else do
    match ← namei cwd path with
    | none => pure none
    | some ip => do
      ilock ip
      let s ← get
      if (s.ino ip).type = .dir ∧ omode ≠ 0 then do
        iunlockput ip
        pure none
      else pure (some ip)

/-- `sys_open` with the inode at hand; `room` says whether `filealloc` and `fdalloc` succeed. The
result is the inode with what `sys_open` copies from it into the open file. -/
def openEnd (ip : ℕ) (omode : UInt32) (room : Bool) : FsM (Option (ℕ × InodeType × ℤ)) := do
  let s ← get
  if (s.ino ip).type = .device ∧ ((s.ino ip).major < 0 ∨ ndev ≤ (s.ino ip).major) then do
    iunlockput ip
    pure none
  else if room = false then do
    iunlockput ip
    pure none
  else do
    if omode &&& oTrunc ≠ 0 ∧ (s.ino ip).type = .file then itrunc ip
    iunlock ip
    pure (some (ip, (s.ino ip).type, (s.ino ip).major))

/-- The section of `sys_open`. -/
def openBody (cwd : ℕ) (path : Path) (omode : UInt32) (room : Bool) :
    FsM (Option (ℕ × InodeType × ℤ)) := do
  match ← openInode cwd path omode with
  | none => pure none
  | some ip => openEnd ip omode room

def sysOpen (cwd : ℕ) (path : Option Path) (omode : UInt32) (room : Bool) :
    FsM (Option (ℕ × InodeType × ℤ)) :=
  match path with
  | some path => inOp (openBody cwd path omode room)
  | none => pure none

/-- The section of `sys_mkdir` and of `sys_mknod`. -/
def makeBody (cwd : ℕ) (type : InodeType) (major minor : ℤ) : Option Path → FsM ℤ
  | none => pure (-1)
  | some path => do
    match ← create cwd path type major minor with
    | none => pure (-1)
    | some ip => do
      iunlockput ip
      pure 0

def sysMkdir (cwd : ℕ) (path : Option Path) : FsM ℤ := inOp (makeBody cwd .dir 0 0 path)

def sysMknod (cwd : ℕ) (path : Option Path) (major minor : ℤ) : FsM ℤ :=
  inOp (makeBody cwd .device (toShort major) (toShort minor) path)

/-! ### Open files and directories -/

/-- The section of `sys_chdir`; the result is the new directory. -/
def chdirBody (cwd : ℕ) : Option Path → FsM (Option ℕ)
  | none => pure none
  | some path => do
    match ← namei cwd path with
    | none => pure none
    | some ip => do
      ilock ip
      let s ← get
      if (s.ino ip).type ≠ .dir then do
        iunlockput ip
        pure none
      else do
        iunlock ip
        iput cwd
        pure (some ip)

def sysChdir (cwd : ℕ) (path : Option Path) : FsM (Option ℕ) := inOp (chdirBody cwd path)

/-- The section of `fileclose` and of `kexit`. -/
def closeInode (ip : ℕ) : FsM Unit := inOp (iput ip)

/-- The largest chunk of `filewrite`. -/
def chunkMax : ℕ := ((maxopblocks - 1 - 1 - 2) / 2) * bsize

/-- A transfer into the inode `ip` of a section. -/
def writeBody (ip : ℕ) (src : ℕ → Option UInt8) (off n : UInt32) : FsM ℤ := do
  ilock ip
  let r ← writei ip src off n
  iunlock ip
  pure r

/-- A turn of the loop of `filewrite`, with `left` bytes to go. -/
def filewriteChunk (ip : ℕ) (src : ℕ → Option UInt8) (off left : UInt32) : FsM ℤ :=
  inOp (writeBody ip src off (if chunkMax < left.toNat then UInt32.ofNat chunkMax else left))

/-- `fileread` of an inode, which is not a section. -/
def filereadInode (ip : ℕ) (dst : ℕ → Bool) (off n : UInt32) : FsM (ℤ × List UInt8) := do
  ilock ip
  let r ← readi ip dst off n
  iunlock ip
  pure r

/-! ### `kexec` -/

/-- The number in the `n` bytes from `k` on, the low byte first. -/
def leBytes (l : List UInt8) (k n : ℕ) : ℕ :=
  ((l.drop k).take n).foldr (fun b acc => b.toNat + 256 * acc) 0

/-- What the memory answers to `kexec`. -/
structure ExecMemory where
  /-- `proc_pagetable` succeeds -/
  pagetable : Bool
  /-- `uvmalloc` for the program header `i` succeeds -/
  uvmalloc : ℕ → Bool
  /-- `walkaddr` finds the address -/
  walkaddr : ℕ → Bool

/-- The loop of `loadseg` from the byte `i` of the segment on. -/
def loadseg (mem : ExecMemory) (ip va : ℕ) (offset sz : UInt32) : ℕ → UInt32 → FsM Bool
  | 0, _ => pure true
  | fuel + 1, i =>
    if i < sz then
      if mem.walkaddr (va + i.toNat) = false then throw .loadsegAddress
      else do
        let n := if sz - i < 4096 then sz - i else 4096
        let r ← readi ip (fun _ => true) (offset + i) n
        if r.1 ≠ n.toNat then pure false
        else loadseg mem ip va offset sz fuel (i + 4096)
    else pure true

/-- The loop of `kexec` over the program headers, from the header `i` at the byte `off` on. -/
def loadProgram (mem : ExecMemory) (ip : ℕ) : ℕ → ℕ → UInt32 → FsM Bool
  | 0, _, _ => pure true
  | left + 1, i, off => do
      let r ← readi ip (fun _ => true) off 56
      let ph := r.2
      let vaddr := leBytes ph 16 8
      let filesz := leBytes ph 32 8
      let memsz := leBytes ph 40 8
      if r.1 ≠ 56 then pure false
      else if leBytes ph 0 4 ≠ 1 then loadProgram mem ip left (i + 1) (off + 56)
      else if memsz < filesz then pure false
      else if (vaddr + memsz) % 2 ^ 64 < vaddr then pure false
      else if vaddr % 4096 ≠ 0 then pure false
      else if mem.uvmalloc i = false then pure false
      else do
        let ok ← loadseg mem ip vaddr (UInt32.ofNat (leBytes ph 8 8)) (UInt32.ofNat filesz)
          (filesz / 4096 + 1) 0
        if ok then loadProgram mem ip left (i + 1) (off + 56)
        else pure false

/-- `kexec` with the executable locked: whether the program has been loaded. -/
def loadFile (mem : ExecMemory) (ip : ℕ) : FsM Bool := do
  let r ← readi ip (fun _ => true) 0 64
  if r.1 ≠ 64 then pure false
  else if leBytes r.2 0 4 ≠ 0x464C457F then pure false
  else if mem.pagetable = false then pure false
  else loadProgram mem ip (leBytes r.2 56 2) 0 (UInt32.ofNat (leBytes r.2 32 8))

/-- The section of `kexec`. -/
def kexecBody (cwd : ℕ) (path : Path) (mem : ExecMemory) : FsM Bool := do
  match ← namei cwd path with
  | none => pure false
  | some ip => do
    ilock ip
    let ok ← loadFile mem ip
    iunlockput ip
    pure ok

/-- `kexec`, up to its `end_op`. -/
def kexecLookup (cwd : ℕ) (path : Path) (mem : ExecMemory) : FsM Bool :=
  inOp (kexecBody cwd path mem)

end Fs

end Xv6Riscv
