import Xv6Riscv.Lib.RedoLog
import Xv6Riscv.Lib.Words

/-!
Disk blocks and the buffer cache as its users see it (`bio.c`).

A buffer holds the block last read from the disk or what has been stored into it since; a buffer
that differs from the disk is pinned until it has been written, so it is not recycled. What
`bread(b)` returns is therefore a function of the block number, `Buffers.cache`, whichever of the
`NBUF` buffers are in use. `bwrite` is the only function that changes the disk, and
`Buffers.writes` lists its calls in order.
-/

namespace Xv6Riscv

open RedoLog

@[irreducible] def bsize : ℕ := 1024

lemma bsize_eq : bsize = 1024 := by unfold bsize; rfl

abbrev Block := Fin bsize → UInt8

/-- A block number, a `uint`. -/
abbrev Blockno := UInt32

/-- The contents of a disk. -/
abbrev Disk := Blockno → Block

/-- The disk and its buffers. -/
structure Buffers where
  /-- what `bread` returns -/
  cache : Disk
  disk : Disk
  /-- the calls of `bwrite` -/
  writes : List (Blockno × Block)

namespace Buffers

/-- The buffers after a restart: nothing is cached. -/
def restart (d : Disk) : Buffers where
  cache := d
  disk := d
  writes := []

/-- Storing into the buffer of the block `b`. -/
def store (s : Buffers) (b : Blockno) (data : Block) : Buffers :=
  { s with cache := Function.update s.cache b data }

def bwrite (s : Buffers) (b : Blockno) : Buffers :=
  { s with
    disk := Function.update s.disk b (s.cache b)
    writes := s.writes ++ [(b, s.cache b)] }

/-- Blocks stored and written one after another. -/
def put (s : Buffers) (ws : List (Blockno × Block)) : Buffers where
  cache := after s.cache ws
  disk := after s.disk ws
  writes := s.writes ++ ws

variable {s : Buffers} {b : Blockno} {data : Block} {ws vs : List (Blockno × Block)}

@[simp] lemma put_nil : s.put [] = s := by
  simp [put]

lemma put_put : (s.put ws).put vs = s.put (ws ++ vs) := by
  simp [put, after_append]

lemma store_bwrite : (s.store b data).bwrite b = s.put [(b, data)] := by
  simp only [store, bwrite, Function.update_self]
  rfl

end Buffers

end Xv6Riscv
