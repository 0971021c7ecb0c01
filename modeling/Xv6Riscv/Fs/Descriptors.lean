import Xv6Riscv.Proc.Pcb
import Xv6Riscv.Fs.Sections

/-!
Open files and the processes that use them (`file.c`, `sysfile.c`, `pipe.c`, `kfork` and `kexit` of
`proc.c`).

The state has the file system, the table of open files, the descriptors and current directories of
all processes, and the ends of pipes that are open. A system call runs alone. What other parts of
the kernel answer is an argument: the page `kalloc` returns for a pipe, what a pipe or a device
returns to `read` and `write`, and whether `copyout` succeeds.
-/

namespace Xv6Riscv

open Function (update)

def nfile : ℕ := 100

def nofile : ℕ := 16

def oWronly : UInt32 := 0x001

def oRdwr : UInt32 := 0x002

/-- The type of a `struct file`. -/
inductive FileType
  | none
  | pipe
  | inode
  | device
  deriving DecidableEq, Repr

/-- `struct file`. -/
structure File where
  type : FileType
  ref : ℤ
  readable : Bool
  writable : Bool
  pipe : ℕ
  ip : ℕ
  off : UInt32
  major : ℤ

/-- An open pipe: `readopen` and `writeopen`. -/
structure PipeEnds where
  readopen : Bool
  writeopen : Bool
  deriving DecidableEq

/-- The pipe without one of its ends. -/
def PipeEnds.shut (e : PipeEnds) (writable : Bool) : PipeEnds :=
  if writable then { e with writeopen := false } else { e with readopen := false }

/-- How a system call stops without returning. -/
inductive KernPanic
  | fs (e : FsPanic)
  /-- "filedup" -/
  | filedup
  /-- "fileclose" -/
  | fileclose
  /-- "fileread" -/
  | fileread
  /-- "filewrite" -/
  | filewrite
  /-- a process without a current directory -/
  | noCwd
  /-- the page of a pipe is used after it was freed -/
  | pipeGone
  deriving DecidableEq

/-- The file system, the open files, and what the processes have of them. -/
structure Kern where
  fs : Fs
  file : Fin nfile → File
  /-- `p->ofile` -/
  ofile : Fin nproc → Fin nofile → Option (Fin nfile)
  /-- `p->cwd` -/
  cwd : Fin nproc → Option ℕ
  /-- the pipes, by the page they are in -/
  pipes : ℕ → Option PipeEnds
  /-- the pages `pipealloc` has made pipes of, and those `pipeclose` has given to `kfree` -/
  pipesMade : List ℕ
  pipesFreed : List ℕ

/-- The programs of system calls. -/
abbrev KernM := ExceptT KernPanic (StateM Kern)

namespace Kern

open Wp

def onFs {α : Type} (m : FsM α) : KernM α := do
  let k ← get
  match runFrom m k.fs with
  | (.ok a, s) => do
    set { k with fs := s }
    pure a
  | (.error e, s) => do
    set { k with fs := s }
    throw (.fs e)

def setFile (x : Fin nfile) (u : File → File) : KernM Unit :=
  modify fun k => { k with file := update k.file x (u (k.file x)) }

/-- A store into `p->ofile`. -/
def setFd (p : Fin nproc) (fd : Fin nofile) (x : Option (Fin nfile)) : KernM Unit :=
  modify fun k => { k with
    ofile := update k.ofile p (update (k.ofile p) fd x) }

/-- `p->cwd`. -/
def curdir (p : Fin nproc) : KernM ℕ := do
  let k ← get
  match k.cwd p with
  | some c => pure c
  | none => throw .noCwd

/-- A store into `p->cwd`. -/
def setCwd (p : Fin nproc) (c : Option ℕ) : KernM Unit :=
  modify fun k => { k with cwd := update k.cwd p c }

/-! ### `file.c` -/

/-- The entry `filealloc` finds. -/
def freeFile (k : Kern) : Option (Fin nfile) :=
  (List.finRange nfile).find? fun x => (k.file x).ref == 0

def filealloc : KernM (Option (Fin nfile)) := do
  let k ← get
  match k.freeFile with
  | none => pure none
  | some x => do
    setFile x fun f => { f with ref := 1 }
    pure (some x)

def filedup (x : Fin nfile) : KernM Unit := do
  let k ← get
  if (k.file x).ref < 1 then throw .filedup
  else setFile x fun f => { f with ref := f.ref + 1 }

def pipeclose (pi : ℕ) (writable : Bool) : KernM Unit := do
  let k ← get
  match k.pipes pi with
  | none => throw .pipeGone
  | some e =>
    let e := e.shut writable
    if e.readopen = false ∧ e.writeopen = false then
      set { k with pipes := update k.pipes pi none, pipesFreed := pi :: k.pipesFreed }
    else set { k with pipes := update k.pipes pi (some e) }

def fileclose (x : Fin nfile) : KernM Unit := do
  let k ← get
  let ff := k.file x
  if ff.ref < 1 then throw .fileclose
  else if 0 < ff.ref - 1 then setFile x fun f => { f with ref := f.ref - 1 }
  else do
    setFile x fun f => { f with ref := 0, type := .none }
    if ff.type = .pipe then pipeclose ff.pipe ff.writable
    else if ff.type = .inode ∨ ff.type = .device then onFs (Fs.closeInode ff.ip)

/-- `filestat`; the result says whether `copyout` was reached. -/
def filestat (x : Fin nfile) (out : Bool) : KernM ℤ := do
  let k ← get
  let f := k.file x
  if f.type = .inode ∨ f.type = .device then do
    onFs do
      Fs.ilock f.ip
      Fs.iunlock f.ip
    pure (if out then 0 else -1)
  else pure (-1)

/-- `fileread`; `other` is what the pipe or the device returns. -/
def fileread (x : Fin nfile) (dst : ℕ → Bool) (n other : ℤ) : KernM ℤ := do
  let k ← get
  let f := k.file x
  if f.readable = false ∨ n < 0 then pure (-1)
  else match f.type with
    | .pipe => pure other
    | .device => pure other
    | .inode => do
      let r ← onFs (Fs.filereadInode f.ip dst f.off (UInt32.ofInt n))
      if 0 < r.1 then setFile x fun f => { f with off := f.off + UInt32.ofInt r.1 }
      pure r.1
    | .none => throw .fileread

/-- The loop of `filewrite`, when `i` of `n` bytes have been written: the final value of `i`. A turn
that goes on has written at least one byte. -/
def filewriteLoop (x : Fin nfile) (src : ℕ → Option UInt8) (n : ℕ) : ℕ → ℕ → KernM ℕ
  | 0, i => pure i
  | fuel + 1, i =>
    if i < n then do
      let k ← get
      let f := k.file x
      let r ← onFs (Fs.filewriteChunk f.ip (fun m => src (i + m)) f.off (UInt32.ofNat (n - i)))
      if 0 < r then setFile x fun f => { f with off := f.off + UInt32.ofInt r }
      if r ≠ min (n - i) Fs.chunkMax then pure i
      else filewriteLoop x src n fuel (i + min (n - i) Fs.chunkMax)
    else pure i

def filewrite (x : Fin nfile) (src : ℕ → Option UInt8) (n other : ℤ) : KernM ℤ := do
  let k ← get
  let f := k.file x
  if f.writable = false ∨ n < 0 then pure (-1)
  else match f.type with
    | .pipe => pure other
    | .device => pure other
    | .inode => do
      let i ← filewriteLoop x src n.toNat n.toNat 0
      pure (if (i : ℤ) = n then n else -1)
    | .none => throw .filewrite

/-! ### Descriptors -/

def argfd (k : Kern) (p : Fin nproc) (fd : ℤ) : Option (Fin nofile × Fin nfile) :=
  if h : 0 ≤ fd ∧ fd < nofile then
    (k.ofile p ⟨fd.toNat, by omega⟩).map fun x => (⟨fd.toNat, by omega⟩, x)
  else none

/-- The descriptor `fdalloc` finds. -/
def freeFd (k : Kern) (p : Fin nproc) : Option (Fin nofile) :=
  (List.finRange nofile).find? fun fd => (k.ofile p fd).isNone

def fdalloc (p : Fin nproc) (x : Fin nfile) : KernM (Option (Fin nofile)) := do
  let k ← get
  match k.freeFd p with
  | none => pure none
  | some fd => do
    setFd p fd (some x)
    pure (some fd)

def sysDup (p : Fin nproc) (fd : ℤ) : KernM ℤ := do
  let k ← get
  match k.argfd p fd with
  | none => pure (-1)
  | some (_, x) => do
    match ← fdalloc p x with
    | none => pure (-1)
    | some fd => do
      filedup x
      pure fd.val

def sysRead (p : Fin nproc) (fd : ℤ) (dst : ℕ → Bool) (n other : ℤ) : KernM ℤ := do
  let k ← get
  match k.argfd p fd with
  | none => pure (-1)
  | some (_, x) => fileread x dst n other

def sysWrite (p : Fin nproc) (fd : ℤ) (src : ℕ → Option UInt8) (n other : ℤ) : KernM ℤ := do
  let k ← get
  match k.argfd p fd with
  | none => pure (-1)
  | some (_, x) => filewrite x src n other

def sysClose (p : Fin nproc) (fd : ℤ) : KernM ℤ := do
  let k ← get
  match k.argfd p fd with
  | none => pure (-1)
  | some (fd, x) => do
    setFd p fd none
    fileclose x
    pure 0

def sysFstat (p : Fin nproc) (fd : ℤ) (out : Bool) : KernM ℤ := do
  let k ← get
  match k.argfd p fd with
  | none => pure (-1)
  | some (_, x) => filestat x out

/-- `filealloc` and `fdalloc` succeed. -/
def room (k : Kern) (p : Fin nproc) : Bool := k.freeFile.isSome && (k.freeFd p).isSome

/-- What `sys_open` stores into the open file. -/
def openedFile (ip : ℕ) (type : InodeType) (major : ℤ) (omode : UInt32) (f : File) : File :=
  if type = .device then
    { f with
      type := .device, major := major, ip := ip
      readable := decide (omode &&& oWronly = 0)
      writable := decide (omode &&& oWronly ≠ 0 ∨ omode &&& oRdwr ≠ 0) }
  else
    { f with
      type := .inode, off := 0, ip := ip
      readable := decide (omode &&& oWronly = 0)
      writable := decide (omode &&& oWronly ≠ 0 ∨ omode &&& oRdwr ≠ 0) }

/-- The end of a `sys_open` that fails with the inode at hand. -/
def openFails (ip : ℕ) : KernM ℤ := do
  onFs (Fs.iunlockput ip)
  onFs Fs.endOp
  pure (-1)

def sysOpen (p : Fin nproc) (path : Option Path) (omode : UInt32) : KernM ℤ := do
  let c ← curdir p
  match path with
  | none => pure (-1)
  | some path => do
    onFs Fs.beginOp
    match ← onFs (Fs.openInode c path omode) with
    | none => do
      onFs Fs.endOp
      pure (-1)
    | some ip => do
      let k ← get
      let ino := k.fs.ino ip
      if ino.type = .device ∧ (ino.major < 0 ∨ ndev ≤ ino.major) then openFails ip
      else do
        match ← filealloc with
        | none => openFails ip
        | some x => do
          match ← fdalloc p x with
          | none => do
            fileclose x
            openFails ip
          | some fd => do
            setFile x (openedFile ip ino.type ino.major omode)
            if omode &&& oTrunc ≠ 0 ∧ ino.type = .file then onFs (Fs.itrunc ip)
            onFs (Fs.iunlock ip)
            onFs Fs.endOp
            pure fd.val

/-! ### Pipes -/

/-- `pipealloc`; `pi` is the page, if there is one. -/
def pipealloc (pi : Option ℕ) : KernM (Option (Fin nfile × Fin nfile)) := do
  match ← filealloc with
  | none => pure none
  | some f0 => do
    match ← filealloc with
    | none => do
      fileclose f0
      pure none
    | some f1 =>
      match pi with
      | none => do
        fileclose f0
        fileclose f1
        pure none
      | some pi => do
        modify fun k => { k with
          pipes := update k.pipes pi (some ⟨true, true⟩), pipesMade := pi :: k.pipesMade }
        setFile f0 fun f =>
          { f with type := .pipe, readable := true, writable := false, pipe := pi }
        setFile f1 fun f =>
          { f with type := .pipe, readable := false, writable := true, pipe := pi }
        pure (some (f0, f1))

/-- `sys_pipe`; `out` says whether the descriptors can be copied out. -/
def sysPipe (p : Fin nproc) (pi : Option ℕ) (out : Bool) : KernM ℤ := do
  match ← pipealloc pi with
  | none => pure (-1)
  | some (rf, wf) => do
    match ← fdalloc p rf with
    | none => do
      fileclose rf
      fileclose wf
      pure (-1)
    | some fd0 => do
      match ← fdalloc p wf with
      | none => do
        setFd p fd0 none
        fileclose rf
        fileclose wf
        pure (-1)
      | some fd1 =>
        if out then pure 0
        else do
          setFd p fd0 none
          setFd p fd1 none
          fileclose rf
          fileclose wf
          pure (-1)

/-! ### Calls on names, and processes -/

/-- A call that works in the current directory. -/
def inCwd {α : Type} (p : Fin nproc) (m : ℕ → FsM α) : KernM α := do
  let c ← curdir p
  onFs (m c)

def sysChdir (p : Fin nproc) (path : Option Path) : KernM ℤ := do
  match ← inCwd p fun c => Fs.sysChdir c path with
  | none => pure (-1)
  | some ip => do
    setCwd p (some ip)
    pure 0

/-- The part of `kfork` about files, for the new process `np`. -/
def kfork (p np : Fin nproc) : KernM Unit := do
  let c ← curdir p
  forM (List.finRange nofile) fun fd => do
    let k ← get
    match k.ofile p fd with
    | none => pure ()
    | some x => do
      filedup x
      setFd np fd (some x)
  onFs (Fs.idup c)
  setCwd np (some c)

/-- The part of `kexit` about files. -/
def kexit (p : Fin nproc) : KernM Unit := do
  let c ← curdir p
  forM (List.finRange nofile) fun fd => do
    let k ← get
    match k.ofile p fd with
    | none => pure ()
    | some x => do
      fileclose x
      setFd p fd none
  onFs (Fs.closeInode c)
  setCwd p none

end Kern

/-- The system calls, with their arguments. -/
inductive Call
  | link (old new : Option Path)
  | unlink (path : Option Path)
  | mkdir (path : Option Path)
  | mknod (path : Option Path) (major minor : ℤ)
  | openFile (path : Option Path) (omode : UInt32)
  | close (fd : ℤ)
  | dup (fd : ℤ)
  | read (fd : ℤ) (dst : ℕ → Bool) (n other : ℤ)
  | write (fd : ℤ) (src : ℕ → Option UInt8) (n other : ℤ)
  | fstat (fd : ℤ) (out : Bool)
  | pipe (pi : Option ℕ) (out : Bool)
  | chdir (path : Option Path)
  | exec (path : Path) (mem : Fs.ExecMemory)
  /-- `np` is the process `allocproc` returns, if the memory can be copied -/
  | fork (np : Option (Fin nproc))
  | exit

namespace Call

open Kern

/-- A system call of the process `p`, with its result. -/
def run (p : Fin nproc) : Call → KernM ℤ
  | link old new => inCwd p fun c => Fs.sysLink c old new
  | unlink path => inCwd p fun c => Fs.sysUnlink c path
  | mkdir path => inCwd p fun c => Fs.sysMkdir c path
  | mknod path major minor => inCwd p fun c => Fs.sysMknod c path major minor
  | openFile path omode => sysOpen p path omode
  | close fd => sysClose p fd
  | dup fd => sysDup p fd
  | read fd dst n other => sysRead p fd dst n other
  | write fd src n other => sysWrite p fd src n other
  | fstat fd out => sysFstat p fd out
  | pipe pi out => sysPipe p pi out
  | chdir path => sysChdir p path
  | exec path mem => do
      let ok ← inCwd p fun c => Fs.kexecLookup c path mem
      pure (if ok then 0 else -1)
  | fork none => pure (-1)
  | fork (some np) => do
      kfork p np
      pure 0
  | exit => do
      kexit p
      pure 0

end Call

end Xv6Riscv
