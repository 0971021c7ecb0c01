import Xv6Riscv.Lib.Wp
import Xv6Riscv.Log.Ops
import Xv6Riscv.Fs.Image

/-!
Inodes and their contents (`fs.c`, up to `writei`).

A call of the file system runs alone: no other process changes the file system between its
`begin_op` and `end_op`. The functions are programs over the state `Fs`: the image on the disk, the
table of in-memory inodes, and the log. A pointer to an in-memory inode is the number of the inode,
since the table has at most one entry in use for it. `Fs.trace` lists the calls of `log_write`.

Data that comes from another part of the kernel is an argument: which bytes of a user buffer can be
read or written (`either_copyin` and `either_copyout` stop at the first that cannot).
-/

namespace Xv6Riscv

open Function (update)

/-- How a call stops without returning. All but the last are panics. -/
inductive FsPanic
  | log (e : LogPanic)
  /-- "freeing free block" -/
  | freeingFreeBlock
  /-- "iget: no inodes" -/
  | noInodes
  /-- "ilock" -/
  | ilock
  /-- "ilock: no type" -/
  | noType
  /-- "iunlock" -/
  | iunlock
  /-- "bmap: out of range" -/
  | outOfRange
  /-- "dirlookup not DIR" -/
  | notDir
  /-- "dirlookup read" -/
  | dirlookupRead
  /-- "dirlink read" -/
  | dirlinkRead
  /-- "isdirempty: readi" -/
  | isdiremptyReadi
  /-- "unlink: nlink < 1" -/
  | unlinkNlink
  /-- "unlink: writei" -/
  | unlinkWritei
  /-- "loadseg: address should exist" -/
  | loadsegAddress
  /-- The process sleeps on a lock it holds itself, or in a `begin_op` nobody lets in. -/
  | asleep
  deriving DecidableEq, Repr

/-- The file system and its tables in memory. -/
structure Fs where
  /-- what `bread` shows -/
  img : Image
  /-- `ip->ref`; an entry with `0` is unused -/
  ref : ℕ → ℤ
  /-- the number of entries of the table with `ref` zero -/
  unused : ℕ
  /-- the copy in memory, if `ip->valid` -/
  icore : ℕ → Option Dinode
  /-- `ip->lock` -/
  locked : ℕ → Bool
  log : LogVars
  /-- the calls of `log_write`, the last one first -/
  trace : List Blockno

def ninode : ℕ := 50

/-- The programs of the file system. -/
abbrev FsM := ExceptT FsPanic (StateM Fs)

namespace Fs

open Words Wp

/-- The inode `i` as its users see it: the copy in memory if there is one. -/
def ino (s : Fs) (i : ℕ) : Dinode := (s.icore i).getD (s.img.dinode i)

/-- The image with the copies in memory. -/
def view (s : Fs) : Image := { s.img with dinode := s.ino }

/-! ### The log -/

def beginOp : FsM Unit := do
  let s ← get
  match s.log.beginOp with
  | none => throw .asleep
  | some l => set { s with log := l }

def logWrite (b : Blockno) : FsM Unit := do
  let s ← get
  match s.log.logWrite b with
  | .error e => throw (.log e)
  | .ok l => set { s with log := l, trace := b :: s.trace }

/-- `end_op`; `commit` leaves the list of logged blocks empty. -/
def endOp : FsM Unit := do
  let s ← get
  match s.log.endOp with
  | .error e => throw (.log e)
  | .ok (l, true) => set { s with log := ({ l with lh := [] } : LogVars).endCommit }
  | .ok (l, false) => set { s with log := l }

/-- A section between `begin_op` and `end_op`. -/
def inOp {α : Type} (m : FsM α) : FsM α := do
  beginOp
  let r ← m
  endOp
  pure r

/-! ### Blocks -/

def bzero (b : Blockno) : FsM Unit := do
  modify fun s => { s with img := s.img.setData b fun _ => 0 }
  logWrite b

/-- `balloc`: the loops look at the bits of the map in order. -/
def balloc : FsM Blockno := do
  let s ← get
  match (List.range s.img.sb.size).find? fun b => !s.img.bitmap (UInt32.ofNat b) with
  | none => pure 0
  | some b => do
    modify fun s => { s with img := s.img.mark (UInt32.ofNat b) true }
    logWrite (s.img.sb.bblock (UInt32.ofNat b))
    bzero (UInt32.ofNat b)
    pure (UInt32.ofNat b)

def bfree (b : Blockno) : FsM Unit := do
  let s ← get
  if s.img.bitmap b then do
    set { s with img := s.img.mark b false }
    logWrite (s.img.sb.bblock b)
  else throw .freeingFreeBlock

/-! ### In-memory inodes -/

/-- Stores into the copy in memory. -/
def setIno (i : ℕ) (f : Dinode → Dinode) : FsM Unit :=
  modify fun s => { s with icore := update s.icore i (some (f (s.ino i))) }

def iupdate (i : ℕ) : FsM Unit := do
  let s ← get
  set { s with img := s.img.setDinode i (s.ino i) }
  logWrite (s.img.sb.iblock i)

/-- Stores into the copy in memory, followed by `iupdate`. -/
def setInode (i : ℕ) (f : Dinode → Dinode) : FsM Unit := do
  setIno i f
  iupdate i

def iget (i : ℕ) : FsM Unit := do
  let s ← get
  if 0 < s.ref i then set { s with ref := update s.ref i (s.ref i + 1) }
  else if s.unused = 0 then throw .noInodes
  else set { s with
    ref := update s.ref i 1
    icore := update s.icore i none
    unused := s.unused - 1 }

def idup (i : ℕ) : FsM Unit :=
  modify fun s => { s with ref := update s.ref i (s.ref i + 1) }

def ialloc (type : InodeType) : FsM (Option ℕ) := do
  let s ← get
  match (List.range' 1 (s.img.sb.ninodes - 1)).find? fun i =>
      (s.img.dinode i).type == .free with
  | none => pure none
  | some i => do
    set { s with img := s.img.setDinode i ⟨type, 0, 0, 0, 0, fun _ => 0⟩ }
    logWrite (s.img.sb.iblock i)
    iget i
    pure (some i)

def ilock (i : ℕ) : FsM Unit := do
  let s ← get
  if s.ref i < 1 then throw .ilock
  else if s.locked i then throw .asleep
  else match s.icore i with
    | some _ => set { s with locked := update s.locked i true }
    | none => do
      set { s with
        locked := update s.locked i true
        icore := update s.icore i (some (s.img.dinode i)) }
      if (s.img.dinode i).type = .free then throw .noType

def iunlock (i : ℕ) : FsM Unit := do
  let s ← get
  if s.locked i = false ∨ s.ref i < 1 then throw .iunlock
  else set { s with locked := update s.locked i false }

def ifree (i : ℕ) : FsM Unit := do
  let s ← get
  set { s with img := s.img.setDinode i { s.img.dinode i with type := .free } }
  logWrite (s.img.sb.iblock i)

/-! ### Contents -/

/-- The address `k` of the inode `i`, allocated if it is `0`. `bmap` does this for the direct
blocks and for the indirect block. -/
def addrOrAlloc (i : ℕ) (k : Fin (ndirect + 1)) : FsM Blockno := do
  let s ← get
  if (s.ino i).addrs k = 0 then do
    let addr ← balloc
    if addr = 0 then pure 0
    else do
      setIno i fun d => { d with addrs := update d.addrs k addr }
      pure addr
  else pure ((s.ino i).addrs k)

/-- The word `j` of the indirect block `ind`, allocated if it is `0`. -/
def entryOrAlloc (ind : Blockno) (j : ℕ) : FsM Blockno := do
  let s ← get
  if word (s.img.data ind) j = 0 then do
    let addr ← balloc
    if addr = 0 then pure 0
    else do
      modify fun s => { s with img := s.img.setData ind (setWord (s.img.data ind) j addr) }
      logWrite ind
      pure addr
  else pure (word (s.img.data ind) j)

def bmap (i bn : ℕ) : FsM Blockno :=
  if h : bn < ndirect then addrOrAlloc i (Fin.castSucc ⟨bn, h⟩)
  else if bn - ndirect < nindirect then do
    let ind ← addrOrAlloc i (Fin.last ndirect)
    if ind = 0 then pure 0
    else entryOrAlloc ind (bn - ndirect)
  else throw .outOfRange

/-- The loop of `itrunc` over the direct blocks, for one of them. -/
def truncDirect (i : ℕ) (k : Fin ndirect) : FsM Unit := do
  let s ← get
  if (s.ino i).addrs k.castSucc ≠ 0 then do
    bfree ((s.ino i).addrs k.castSucc)
    setIno i fun d => { d with addrs := update d.addrs k.castSucc 0 }

/-- The loop of `itrunc` over the words of the indirect block, for one of them. -/
def truncEntry (a : Block) (j : Fin nindirect) : FsM Unit :=
  if word a j ≠ 0 then bfree (word a j) else pure ()

/-- The part of `itrunc` for the indirect block. -/
def truncIndirect (i : ℕ) : FsM Unit := do
  let s ← get
  if (s.ino i).addrs (Fin.last ndirect) ≠ 0 then do
    forM (List.finRange nindirect) (truncEntry (s.img.data ((s.ino i).addrs (Fin.last ndirect))))
    bfree ((s.ino i).addrs (Fin.last ndirect))
    setIno i fun d => { d with addrs := update d.addrs (Fin.last ndirect) 0 }

def itrunc (i : ℕ) : FsM Unit := do
  forM (List.finRange ndirect) (truncDirect i)
  truncIndirect i
  setInode i fun d => { d with size := 0 }

/-- How many of the next `m` bytes of a user buffer are copied before the copy fails. -/
def copied (ok : ℕ → Bool) (tot m : ℕ) : ℕ :=
  ((List.range m).takeWhile fun k => ok (tot + k)).length

/-- The bytes `[o, o + m)` of a block. -/
def slice (c : Block) (o m : ℕ) : List UInt8 := ((List.ofFn c).drop o).take m

/-- The length of the piece of a transfer that lies in the block of `off`. -/
def pieceLen (n tot off : ℕ) : ℕ := min (n - tot) (bsize - off % bsize)

/-- The loop of `readi`. The bytes copied out are collected in `out`. -/
def readiLoop (i : ℕ) (dst : ℕ → Bool) (n : ℕ) :
    ℕ → ℕ → ℕ → List UInt8 → FsM (ℤ × List UInt8)
  | 0, tot, _, out => pure (tot, out)
  | fuel + 1, tot, off, out =>
    if tot < n then do
      let addr ← bmap i (off / bsize)
      if addr = 0 then pure (tot, out)
      else do
        let s ← get
        let c := copied dst tot (pieceLen n tot off)
        if c = pieceLen n tot off then
          readiLoop i dst n fuel (tot + c) (off + c)
            (out ++ slice (s.img.data addr) (off % bsize) c)
        else pure (-1, out ++ slice (s.img.data addr) (off % bsize) c)
    else pure (tot, out)

/-- `readi`: the result, and the bytes copied to the destination; `dst k` says whether its byte `k`
can be written. A turn of the loop copies at least one byte, so `n` turns are enough. -/
def readi (i : ℕ) (dst : ℕ → Bool) (off n : UInt32) : FsM (ℤ × List UInt8) := do
  let s ← get
  if (s.ino i).size < off ∨ off + n < off then pure (0, [])
  else
    let n := if (s.ino i).size < off + n then (s.ino i).size - off else n
    readiLoop i dst n.toNat n.toNat 0 off.toNat []

/-- A block after the copy of the next `m` bytes of the source into it, at the byte `o`. -/
def copyInto (c : Block) (src : ℕ → Option UInt8) (tot o m : ℕ) : Block := fun p =>
  if o ≤ p.val ∧ p.val < o + copied (fun k => (src k).isSome) tot m then
    (src (tot + (p.val - o))).getD 0
  else c p

/-- The loop of `writei`: the final values of `tot` and `off`. -/
def writeiLoop (i : ℕ) (src : ℕ → Option UInt8) (n : ℕ) : ℕ → ℕ → ℕ → FsM (ℕ × ℕ)
  | 0, tot, off => pure (tot, off)
  | fuel + 1, tot, off =>
    if tot < n then do
      let addr ← bmap i (off / bsize)
      if addr = 0 then pure (tot, off)
      else do
        let m := pieceLen n tot off
        modify fun s => { s with
          img := s.img.setData addr (copyInto (s.img.data addr) src tot (off % bsize) m) }
        -- a block that was updated in part is logged as well
        logWrite addr
        if copied (fun k => (src k).isSome) tot m = m then
          writeiLoop i src n fuel (tot + m) (off + m)
        else pure (tot, off)
    else pure (tot, off)

/-- `writei`; `src k` is the byte `k` of the source, if it can be read. -/
def writei (i : ℕ) (src : ℕ → Option UInt8) (off n : UInt32) : FsM ℤ := do
  let s ← get
  if (s.ino i).size < off ∨ off + n < off then pure (-1)
  else if maxfile * bsize < (off + n).toNat then pure (-1)
  else do
    let r ← writeiLoop i src n.toNat n.toNat 0 off.toNat
    setInode i fun d => if d.size.toNat < r.2 then { d with size := UInt32.ofNat r.2 } else d
    pure r.1

/-! ### The last reference -/

/-- The test of `iput`: the last reference to an inode without links. -/
def last (s : Fs) (i : ℕ) : Bool := s.ref i == 1 && (s.icore i).any fun d => d.nlink == 0

/-- `ip->ref--`; the copy in memory of an unused entry is forgotten. -/
def dropRef (i : ℕ) : FsM Unit :=
  modify fun s => { s with
    ref := update s.ref i (s.ref i - 1)
    unused := if s.ref i = 1 then s.unused + 1 else s.unused
    icore := if s.ref i = 1 then update s.icore i none else s.icore }

def iput (i : ℕ) : FsM Unit := do
  let s ← get
  if s.last i then
    if s.locked i then throw .asleep
    else do
      itrunc i
      modify fun s => { s with icore := update s.icore i none }
      dropRef i
      ifree i
  else dropRef i

def iunlockput (i : ℕ) : FsM Unit := do
  iunlock i
  iput i

/-- A turn of the loop of `ireclaim`. -/
def ireclaimStep (i : ℕ) : FsM Unit := do
  let s ← get
  if (s.img.dinode i).type ≠ .free ∧ (s.img.dinode i).nlink = 0 then do
    iget i
    inOp do
      ilock i
      iunlock i
      iput i

def ireclaim : FsM Unit := do
  let s ← get
  forM (List.range' 1 (s.img.sb.ninodes - 1)) ireclaimStep

end Fs

end Xv6Riscv
