import Xv6Riscv.Disk.Buffers

/-!
The file system on the disk: dinodes, the free bitmap and the data blocks (`fs.h`).

The image is what `bread` shows of the disk, read by areas: the table of dinodes, the bits of the
free map, and the blocks of the data area. The areas do not overlap, so a store into one of them
leaves the others alone.

A block is referenced from a *slot*: one of the thirteen addresses of an allocated dinode, or one of
the words of its indirect block.

* `Image.BlockOk`: every reference lies in the data area, no block is referenced from two slots, and
  the bit of a data block is set exactly if the block is referenced.
-/

namespace Xv6Riscv

open Function (update update_apply update_of_ne update_self)
open Words

def ndirect : ℕ := 12

/-- `NINDIRECT`, the number of words of a block. -/
def nindirect : ℕ := 256

def maxfile : ℕ := ndirect + nindirect

/-- The types of an inode; `free` is the type `0`. -/
inductive InodeType
  | free
  | dir
  | file
  | device
  deriving DecidableEq, Repr

/-- `struct dinode`. The `short` fields are integers in the range of a `short`. -/
structure Dinode where
  type : InodeType
  major : ℤ
  minor : ℤ
  nlink : ℤ
  size : UInt32
  addrs : Fin (ndirect + 1) → Blockno

def Dinode.withAddrs (d : Dinode) (a : Fin (ndirect + 1) → Blockno) : Dinode :=
  { d with addrs := a }

/-- The dinode of the same inode with nothing in it. -/
def Dinode.emptied (d : Dinode) : Dinode := { d with size := 0, addrs := fun _ => 0 }

/-- The part of `struct superblock` the kernel uses, with what `mkfs` guarantees of it: the data
area is the last `nblocks` of the `size` blocks. -/
structure Superblock where
  size : ℕ
  nblocks : ℕ
  ninodes : ℕ
  inodestart : Blockno
  bmapstart : Blockno
  size_lt : size < 2 ^ 32
  nblocks_lt : nblocks < size

def Superblock.dataStart (sb : Superblock) : ℕ := sb.size - sb.nblocks

lemma Superblock.dataStart_pos (sb : Superblock) : 0 < sb.dataStart :=
  Nat.sub_pos_of_lt sb.nblocks_lt

/-- `IBLOCK`: the block that holds the dinode `i`. -/
def Superblock.iblock (sb : Superblock) (i : ℕ) : Blockno := UInt32.ofNat (i / 16) + sb.inodestart

/-- `BBLOCK`: the block that holds the bit of the block `b`. -/
def Superblock.bblock (sb : Superblock) (b : Blockno) : Blockno := b / 8192 + sb.bmapstart

def Superblock.bitmapBlocks (sb : Superblock) : Set Blockno :=
  { c | ∃ b : Blockno, b.toNat < sb.size ∧ c = sb.bblock b }

/-- The file system as the buffers show it. -/
structure Image where
  sb : Superblock
  dinode : ℕ → Dinode
  bitmap : Blockno → Bool
  data : Blockno → Block

/-- The places a block can be referenced from: the addresses of a dinode and the words of its
indirect block. -/
inductive FileSlot
  | ptr (i : ℕ) (k : Fin (ndirect + 1))
  | entry (i : ℕ) (j : Fin nindirect)
  deriving DecidableEq

def FileSlot.owner : FileSlot → ℕ
  | .ptr i _ => i
  | .entry i _ => i

namespace Image

/-- The inode `i` is allocated. -/
def Typed (g : Image) (i : ℕ) : Prop := (g.dinode i).type ≠ .free

instance (g : Image) (i : ℕ) : Decidable (g.Typed i) := inferInstanceAs (Decidable (_ ≠ _))

/-- An address of the inode `i`, `0` if the inode is free. -/
def ptr (g : Image) (i : ℕ) (k : Fin (ndirect + 1)) : Blockno :=
  if g.Typed i then (g.dinode i).addrs k else 0

/-- The indirect block of the inode `i`. -/
def indirect (g : Image) (i : ℕ) : Blockno := g.ptr i (Fin.last ndirect)

/-- The block a slot refers to, or `0`. -/
def slot (g : Image) : FileSlot → Blockno
  | .ptr i k => g.ptr i k
  | .entry i j => if g.indirect i = 0 then 0 else word (g.data (g.indirect i)) j

/-! ### Stores -/

def setDinode (g : Image) (i : ℕ) (d : Dinode) : Image :=
  { g with dinode := update g.dinode i d }

def setData (g : Image) (b : Blockno) (c : Block) : Image :=
  { g with data := update g.data b c }

def mark (g : Image) (b : Blockno) (v : Bool) : Image :=
  { g with bitmap := update g.bitmap b v }

/-- The inode `i` with one of its addresses replaced. -/
def setPtr (g : Image) (i : ℕ) (k : Fin (ndirect + 1)) (b : Blockno) : Image :=
  g.setDinode i { g.dinode i with addrs := update (g.dinode i).addrs k b }

/-- What `balloc` does to the image: the block is marked and zeroed. -/
def alloc (g : Image) (b : Blockno) : Image := (g.mark b true).setData b fun _ => 0

variable {g g' : Image} {i j : ℕ} {k : Fin (ndirect + 1)} {b : Blockno} {c : Block} {x y : FileSlot}

section

variable {d : Dinode} {v : Bool} {i' : ℕ}

@[simp] lemma setDinode_sb : (g.setDinode i d).sb = g.sb := rfl
@[simp] lemma setDinode_data : (g.setDinode i d).data = g.data := rfl
@[simp] lemma setDinode_self : (g.setDinode i d).dinode i = d := update_self ..
lemma setDinode_of_ne (h : i' ≠ i) : (g.setDinode i d).dinode i' = g.dinode i' :=
  update_of_ne h ..

@[simp] lemma setData_data : (g.setData b c).data = update g.data b c := rfl

@[simp] lemma mark_bitmap : (g.mark b v).bitmap = update g.bitmap b v := rfl
@[simp] lemma mark_data : (g.mark b v).data = g.data := rfl

@[simp] lemma alloc_data : (g.alloc b).data = update g.data b fun _ => 0 := rfl

end

lemma slot_mark {v : Bool} : (g.mark b v).slot = g.slot := by
  funext x
  cases x <;> rfl

lemma ptr_of_typed (h : g.Typed i) : g.ptr i k = (g.dinode i).addrs k := if_pos h

lemma ptr_congr (h : g'.dinode i = g.dinode i) : g'.ptr i k = g.ptr i k := by
  rw [ptr, ptr, h]
  exact if_congr (by rw [Typed, Typed, h]) rfl rfl

lemma ptr_eq_zero (h : (g.dinode i).addrs k = 0) : g.ptr i k = 0 := by
  rw [ptr, h]
  split_ifs <;> rfl

lemma slot_setData (h : ∀ i, g.indirect i ≠ 0 → g.indirect i ≠ b) :
    (g.setData b c).slot = g.slot := by
  funext x
  cases x with
  | ptr i k => rfl
  | entry i j =>
    change (if g.indirect i = 0 then _ else word (update g.data b c (g.indirect i)) j) =
      if g.indirect i = 0 then _ else _
    by_cases hi : g.indirect i = 0
    · rw [if_pos hi, if_pos hi]
    · rw [if_neg hi, if_neg hi, update_of_ne (h i hi)]

variable {i' bn : ℕ}

lemma ptr_setPtr (ht : g.Typed i) {k' : Fin (ndirect + 1)} :
    (g.setPtr i k b).ptr i' k' = if i' = i ∧ k' = k then b else g.ptr i' k' := by
  have hty : (g.setPtr i k b).Typed i' ↔ g.Typed i' := by
    by_cases hi : i' = i
    · subst hi
      rw [Typed, setPtr, setDinode_self]
      rfl
    · rw [Typed, setPtr, setDinode_of_ne hi]
      rfl
  simp only [ptr, hty]
  by_cases hi : i' = i
  · subst hi
    rw [if_pos ht, if_pos ht, setPtr, setDinode_self]
    change update (g.dinode i').addrs k b k' = _
    rw [update_apply]
    simp
  · rw [setPtr, setDinode_of_ne hi, if_neg (c := i' = i ∧ k' = k) (by simp [hi])]

lemma slot_congr (hptr : ∀ i k, g'.ptr i k = g.ptr i k) (hdata : g'.data = g.data) :
    g'.slot = g.slot := by
  funext x
  cases x with
  | ptr i k => exact hptr i k
  | entry i j =>
    have hind : g'.indirect i = g.indirect i := hptr i _
    rw [slot, slot, hind, hdata]

lemma slot_setDinode {d : Dinode} (h : ∀ k, (g.setDinode i d).ptr i k = g.ptr i k) :
    (g.setDinode i d).slot = g.slot := by
  refine slot_congr (fun j k => ?_) rfl
  by_cases hj : j = i
  · subst hj
    exact h k
  · exact ptr_congr (setDinode_of_ne hj)

lemma slot_allocInode {type : InodeType} (hi : ¬ g.Typed i) :
    (g.setDinode i ⟨type, 0, 0, 0, 0, fun _ => 0⟩).slot = g.slot :=
  slot_setDinode fun k => by
    have h0 : g.ptr i k = 0 := if_neg hi
    rw [h0]
    exact ptr_eq_zero (by rw [setDinode_self])

lemma word_zero {n : ℕ} : word (fun _ : Fin n => 0) j = 0 := by
  apply UInt32.toNat_inj.mp
  have hb : ∀ j, byte (fun _ : Fin n => 0) j = 0 := fun j => by simp [byte]
  simp [word, four, hb]

lemma slot_setPtr_direct (ht : g.Typed i) {k : Fin ndirect} :
    (g.setPtr i k.castSucc b).slot = update g.slot (.ptr i k.castSucc) b := by
  have hind : ∀ i', (g.setPtr i k.castSucc b).indirect i' = g.indirect i' := by
    intro i'
    rw [indirect, ptr_setPtr ht, if_neg]
    · rfl
    · exact fun h => (Fin.castSucc_lt_last k).ne' h.2
  funext x
  rw [update_apply]
  cases x with
  | ptr i' k' => simp only [slot, ptr_setPtr ht, FileSlot.ptr.injEq]
  | entry i' j =>
    simp only [slot, hind, reduceCtorEq, if_false]
    rfl

lemma slot_setPtr_last (ht : g.Typed i) (h0 : g.indirect i = 0) (hz : g.data b = fun _ => 0) :
    (g.setPtr i (Fin.last ndirect) b).slot = update g.slot (.ptr i (Fin.last ndirect)) b := by
  have hind : ∀ i', (g.setPtr i (Fin.last ndirect) b).indirect i' =
      if i' = i then b else g.indirect i' := by
    intro i'
    rw [indirect, ptr_setPtr ht]
    simp [indirect]
  funext x
  rw [update_apply]
  cases x with
  | ptr i' k' => simp only [slot, ptr_setPtr ht, FileSlot.ptr.injEq]
  | entry i' j =>
    simp only [slot, hind, reduceCtorEq, if_false]
    by_cases hi : i' = i
    · subst hi
      rw [if_pos rfl, if_pos h0]
      split_ifs with hb
      · rfl
      · change word (g.data b) j = 0
        rw [hz, word_zero]
    · rw [if_neg hi]
      rfl

/-! ### The references to blocks -/

/-- The references to blocks and the free map agree. -/
structure BlockOk (g : Image) : Prop where
  reserved : ∀ b, b.toNat < g.sb.dataStart → g.bitmap b = true
  inData : ∀ x, g.slot x ≠ 0 → g.sb.dataStart ≤ (g.slot x).toNat ∧ (g.slot x).toNat < g.sb.size
  unique : ∀ x y, g.slot x ≠ 0 → g.slot x = g.slot y → x = y
  marked : ∀ b, g.sb.dataStart ≤ b.toNat → b.toNat < g.sb.size →
    (g.bitmap b = true ↔ ∃ x, g.slot x = b)

def Full (g : Image) : Prop := ∀ b : Blockno, b.toNat < g.sb.size → g.bitmap b = true

section

variable (h : BlockOk g)

include h

lemma BlockOk.congr (hsb : g'.sb = g.sb) (hbits : g'.bitmap = g.bitmap) (hslot : g'.slot = g.slot) :
    BlockOk g' where
  reserved := by
    rw [hsb, hbits]
    exact h.reserved
  inData := by
    rw [hsb, hslot]
    exact h.inData
  unique := by
    rw [hslot]
    exact h.unique
  marked := by
    rw [hsb, hbits, hslot]
    exact h.marked

lemma BlockOk.bit_slot (hx : g.slot x ≠ 0) : g.bitmap (g.slot x) = true :=
  (h.marked _ (h.inData x hx).1 (h.inData x hx).2).mpr ⟨x, rfl⟩

lemma BlockOk.slot_ne (hb : g.bitmap b = false) (hx : g.slot x ≠ 0) : g.slot x ≠ b := by
  rintro rfl
  rw [h.bit_slot hx] at hb
  cases hb

lemma BlockOk.dataStart_le (hb : g.bitmap b = false) : g.sb.dataStart ≤ b.toNat := by
  by_contra hlt
  rw [h.reserved b (not_le.mp hlt)] at hb
  cases hb

lemma BlockOk.ne_zero (hb : g.bitmap b = false) : b ≠ 0 := by
  rintro rfl
  exact absurd (h.dataStart_le hb) (not_le.mpr g.sb.dataStart_pos)

lemma BlockOk.attach (hb : g.bitmap b = false) (hlt : b.toNat < g.sb.size) (hx : g.slot x = 0)
    (hsb : g'.sb = g.sb) (hbits : g'.bitmap = update g.bitmap b true)
    (hslot : g'.slot = update g.slot x b) : BlockOk g' where
  reserved b' hb' := by
    rw [hsb] at hb'
    rw [hbits, update_apply]
    split_ifs
    · rfl
    · exact h.reserved b' hb'
  inData y hy := by
    rw [hslot, update_apply] at hy ⊢
    rw [hsb]
    split_ifs at hy ⊢
    · exact ⟨h.dataStart_le hb, hlt⟩
    · exact h.inData y hy
  unique y z hy hyz := by
    rw [hslot, update_apply] at hy hyz
    rw [update_apply] at hyz
    split_ifs at hy hyz with hyx hzx hzx
    · exact hyx.trans hzx.symm
    · exact absurd hyz.symm (h.slot_ne hb (hyz ▸ hy))
    · exact absurd hyz (h.slot_ne hb hy)
    · exact h.unique y z hy hyz
  marked b' h1 h2 := by
    rw [hsb] at h1 h2
    rw [hbits, hslot, update_apply]
    by_cases hbb : b' = b
    · rw [if_pos hbb]
      exact ⟨fun _ => ⟨x, by rw [update_self, hbb]⟩, fun _ => rfl⟩
    · rw [if_neg hbb, h.marked b' h1 h2]
      constructor
      · rintro ⟨y, hy⟩
        -- the slot that becomes `b` held no block
        have hyx : y ≠ x := by
          rintro rfl
          rw [hx] at hy
          subst hy
          exact absurd h1 (not_le.mpr g.sb.dataStart_pos)
        exact ⟨y, by rw [update_of_ne hyx, hy]⟩
      · rintro ⟨y, hy⟩
        rw [update_apply] at hy
        split_ifs at hy with hyx
        · exact absurd hy.symm hbb
        · exact ⟨y, hy⟩

end

/-- The bits that are left when the blocks of some slots have been freed. -/
def Freed (g : Image) (l : List FileSlot) (bits : Blockno → Bool) : Prop :=
  ∀ b, bits b = true ↔ g.bitmap b = true ∧ ∀ x ∈ l, g.slot x ≠ 0 → g.slot x ≠ b

lemma Freed.nil : g.Freed [] g.bitmap := fun b => by simp

variable {l : List FileSlot} {bits : Blockno → Bool}

lemma Freed.skip {l' : List FileSlot} (h : g.Freed l bits) (hl : ∀ x ∈ l', g.slot x = 0) :
    g.Freed (l ++ l') bits := fun b => by
  have hno : ∀ x ∈ l', g.slot x ≠ 0 → g.slot x ≠ b := fun x hx h0 => absurd (hl x hx) h0
  simp only [h b, List.mem_append, or_imp, forall_and]
  exact ⟨fun h => ⟨h.1, h.2, hno⟩, fun h => ⟨h.1, h.2.1⟩⟩

lemma Freed.bit (h : g.Freed l bits) (hok : BlockOk g) (hx : g.slot x ≠ 0) (hl : x ∉ l) :
    bits (g.slot x) = true :=
  (h _).mpr ⟨hok.bit_slot hx, fun y hy hy0 hyx => hl (hok.unique y x hy0 hyx ▸ hy)⟩

lemma Freed.free (h : g.Freed l bits) (hx : g.slot x ≠ 0) :
    g.Freed (l ++ [x]) (update bits (g.slot x) false) := fun b => by
  rw [update_apply]
  split_ifs with hb
  · subst hb
    simp [hx]
  · have hne : g.slot x ≠ b := fun h => hb h.symm
    simp [h b, or_imp, forall_and, hx, hne]

lemma BlockOk.detach (h : BlockOk g) (hsb : g'.sb = g.sb) (hbits : g.Freed l g'.bitmap)
    (hslot : ∀ x, g'.slot x = if x ∈ l then 0 else g.slot x) : BlockOk g' where
  reserved b hb := by
    rw [hsb] at hb
    refine (hbits b).mpr ⟨h.reserved b hb, fun x _ hx hxb => ?_⟩
    have := (h.inData x hx).1
    rw [hxb] at this
    omega
  inData x hx := by
    rw [hsb]
    rw [hslot] at hx ⊢
    split_ifs at hx ⊢
    · exact absurd rfl hx
    · exact h.inData x hx
  unique x y hx hxy := by
    rw [hslot] at hx hxy
    rw [hslot] at hxy
    split_ifs at hx hxy
    · exact absurd rfl hx
    · exact absurd rfl hx
    · exact absurd hxy hx
    · exact h.unique x y hx hxy
  marked b h1 h2 := by
    rw [hsb] at h1 h2
    have hb0 : b ≠ 0 := by
      rintro rfl
      exact absurd h1 (not_le.mpr g.sb.dataStart_pos)
    rw [hbits b, h.marked b h1 h2]
    constructor
    · rintro ⟨⟨x, rfl⟩, hl⟩
      refine ⟨x, ?_⟩
      rw [hslot, if_neg]
      exact fun hx => hl x hx hb0 rfl
    · rintro ⟨x, hx⟩
      rw [hslot] at hx
      split_ifs at hx with hl
      · exact absurd hx.symm hb0
      · subst hx
        exact ⟨⟨x, rfl⟩, fun y hy hy0 hyx => hl (h.unique y x hy0 hyx ▸ hy)⟩

lemma slot_alloc (h : BlockOk g) (hb : g.bitmap b = false) : (g.alloc b).slot = g.slot := by
  rw [alloc, slot_setData, slot_mark]
  exact fun i hi => h.slot_ne (x := .ptr i (Fin.last ndirect)) hb hi

lemma slot_setEntry (h : BlockOk g) {j : Fin nindirect} (hi : g.indirect i ≠ 0) :
    (g.setData (g.indirect i) (setWord (g.data (g.indirect i)) j b)).slot =
      update g.slot (.entry i j) b := by
  funext x
  rw [update_apply]
  cases x with
  | ptr i' k' => simp only [reduceCtorEq, if_false]; rfl
  | entry i' j' =>
    change (if g.indirect i' = 0 then _ else
      word (update g.data (g.indirect i) _ (g.indirect i')) j') = _
    by_cases hi' : g.indirect i' = 0
    · have hne : i' ≠ i := fun h => hi (h ▸ hi')
      simp [hne, slot, hi']
    · rw [if_neg hi']
      by_cases hii : i' = i
      · subst hii
        have hj : 4 * (j : ℕ) + 3 < bsize := by
          have : (j : ℕ) < 256 := j.isLt
          rw [bsize_eq]
          omega
        rw [update_self]
        by_cases hjj : j' = j
        · rw [hjj, word_setWord_self hj, if_pos rfl]
        · rw [word_setWord_of_ne (fun h => hjj (Fin.ext h.symm)), if_neg (by simp [hjj]), slot,
            if_neg hi']
      · have hne : g.indirect i' ≠ g.indirect i := fun he => hii <| by
          simpa using h.unique (.ptr i' (Fin.last ndirect)) (.ptr i (Fin.last ndirect)) hi' he
        rw [update_of_ne hne, if_neg (by simp [hii]), slot, if_neg hi']

/-! ### Free blocks -/

def freeBlocks (g : Image) : Finset ℕ :=
  (Finset.range g.sb.size).filter fun b => g.bitmap (UInt32.ofNat b) = false

/-- There is a free block for every empty slot of a set. -/
def Room (g : Image) (need : Finset FileSlot) : Prop :=
  (need.filter fun x => g.slot x = 0).card ≤ g.freeBlocks.card

variable {need : Finset FileSlot}

lemma Room.congr (h : g.Room need) (hsb : g'.sb = g.sb) (hbits : g'.bitmap = g.bitmap)
    (hslot : g'.slot = g.slot) : g'.Room need := by
  rw [Room, freeBlocks, hsb, hbits, hslot]
  exact h

lemma Full.not_room (h : g.Full) (hx : x ∈ need) (h0 : g.slot x = 0) : ¬ g.Room need := by
  have hnone : g.freeBlocks = ∅ := by
    refine Finset.filter_eq_empty_iff.mpr fun b hb => ?_
    have hlt : b < g.sb.size := Finset.mem_range.mp hb
    rw [h (UInt32.ofNat b) (by rwa [UInt32.toNat_ofNat_of_lt' (hlt.trans g.sb.size_lt)])]
    simp
  have hpos : 0 < (need.filter fun x => g.slot x = 0).card :=
    Finset.card_pos.mpr ⟨x, Finset.mem_filter.mpr ⟨hx, h0⟩⟩
  rw [Room, hnone, Finset.card_empty]
  omega

lemma Room.attach (h : g.Room need) (hok : BlockOk g) (hx : x ∈ need) (h0 : g.slot x = 0)
    (hb : g.bitmap b = false) (hlt : b.toNat < g.sb.size) (hsb : g'.sb = g.sb)
    (hbits : g'.bitmap = update g.bitmap b true) (hslot : g'.slot = update g.slot x b) :
    g'.Room need := by
  have hempty : (need.filter fun y => g'.slot y = 0) =
      (need.filter fun y => g.slot y = 0).erase x := by
    ext y
    rw [hslot, Finset.mem_erase, Finset.mem_filter, Finset.mem_filter, update_apply]
    by_cases hyx : y = x
    · simp [hyx, hok.ne_zero hb]
    · simp [hyx]
  have hfree : g'.freeBlocks = g.freeBlocks.erase b.toNat := by
    ext c
    rw [Finset.mem_erase, freeBlocks, freeBlocks, hsb, hbits, Finset.mem_filter, Finset.mem_filter,
      update_apply]
    by_cases hc : UInt32.ofNat c = b
    · subst hc
      simp only [if_true, Bool.true_eq_false, and_false, Finset.mem_range, false_iff, not_and]
      intro hne hlt'
      exact absurd (UInt32.toNat_ofNat_of_lt' (hlt'.trans g.sb.size_lt)).symm hne
    · have hne : c ≠ b.toNat := by
        rintro rfl
        exact hc UInt32.ofNat_toNat
      simp [hc, hne]
  have hmem : b.toNat ∈ g.freeBlocks := by
    rw [freeBlocks, Finset.mem_filter, UInt32.ofNat_toNat]
    exact ⟨Finset.mem_range.mpr hlt, hb⟩
  rw [Room, hempty, hfree, Finset.card_erase_of_mem (Finset.mem_filter.mpr ⟨hx, h0⟩),
    Finset.card_erase_of_mem hmem]
  exact Nat.sub_le_sub_right h 1

/-! ### Files -/

/-- The slots on the way to the block `bn` of the file `i`. -/
def pathSlots (i bn : ℕ) : Finset FileSlot :=
  if h : bn < ndirect then {.ptr i (Fin.castSucc ⟨bn, h⟩)}
  else if h : bn - ndirect < nindirect then
    {.ptr i (Fin.last ndirect), .entry i ⟨bn - ndirect, h⟩}
  else ∅

/-- The slot of the block `bn` of the file `i`. -/
def blockSlot (i bn : ℕ) : Option FileSlot :=
  if h : bn < ndirect then some (.ptr i (Fin.castSucc ⟨bn, h⟩))
  else if h : bn - ndirect < nindirect then some (.entry i ⟨bn - ndirect, h⟩)
  else none

/-- The block `bn` of the file `i`, or `0`. -/
def map (g : Image) (i bn : ℕ) : Blockno := (blockSlot i bn).elim 0 g.slot

/-- The byte `n` of the file `i`. -/
def fileByte (g : Image) (i n : ℕ) : UInt8 :=
  g.data (g.map i (n / bsize)) ⟨n % bsize, Nat.mod_lt _ (by rw [bsize_eq]; decide)⟩

/-- Every block of a file below its size is there. -/
def NoHoles (g : Image) : Prop :=
  ∀ i, g.Typed i → ∀ bn, bn * bsize < (g.dinode i).size.toNat → g.map i bn ≠ 0

lemma blockSlot_owner (h : blockSlot i bn = some x) : x.owner = i := by
  rw [blockSlot] at h
  split_ifs at h <;> cases h <;> rfl

lemma blockSlot_ne_last : blockSlot i bn ≠ some (.ptr i' (Fin.last ndirect)) := by
  rw [blockSlot]
  split_ifs with h1
  · intro h
    simp only [Option.some.injEq, FileSlot.ptr.injEq] at h
    exact (Fin.castSucc_lt_last _).ne h.2
  all_goals simp

lemma blockSlot_inj {bn' : ℕ} (h : blockSlot i bn = some x) (h' : blockSlot i' bn' = some x) :
    i = i' ∧ bn = bn' := by
  refine ⟨(blockSlot_owner h).symm.trans (blockSlot_owner h'), ?_⟩
  rw [blockSlot] at h h'
  split_ifs at h h' with h1 h2 h3 h4 h5
  · rw [← h'] at h
    simp only [Option.some.injEq, FileSlot.ptr.injEq, Fin.castSucc_inj, Fin.mk.injEq] at h
    exact h.2
  · rw [← h'] at h
    cases h
  · rw [← h'] at h
    cases h
  · rw [← h'] at h
    simp only [Option.some.injEq, FileSlot.entry.injEq, Fin.mk.injEq] at h
    omega

lemma map_ne_zero (h : g.map i j ≠ 0) : ∃ x, blockSlot i j = some x ∧ g.slot x = g.map i j := by
  rw [map] at h ⊢
  cases hx : blockSlot i j with
  | none => simp [hx] at h
  | some x => exact ⟨x, rfl, by simp⟩

lemma map_eq_slot (h : blockSlot i j = some x) : g.map i j = g.slot x := by
  rw [map, h]
  rfl

lemma slot_ne_zero_of_mem_pathSlots (h : g.map i bn ≠ 0) (hx : x ∈ pathSlots i bn) :
    g.slot x ≠ 0 := by
  rw [map, blockSlot] at h
  rw [pathSlots] at hx
  split_ifs at h hx with h1 h2
  · rw [Finset.mem_singleton.mp hx]
    exact h
  · have hentry : g.slot (.entry i ⟨bn - ndirect, h2⟩) ≠ 0 := h
    rcases Finset.mem_insert.mp hx with rfl | hx
    · exact fun h0 => hentry (if_pos h0)
    · rw [Finset.mem_singleton.mp hx]
      exact hentry
  · exact absurd rfl h

lemma BlockOk.map_inj (h : BlockOk g) {bn' : ℕ} (h0 : g.map i bn ≠ 0)
    (he : g.map i bn = g.map i' bn') : i = i' ∧ bn = bn' := by
  obtain ⟨x, hx, hxb⟩ := map_ne_zero h0
  obtain ⟨y, hy, hyb⟩ := map_ne_zero (he ▸ h0)
  have hxy := h.unique x y (hxb ▸ h0) (by rw [hxb, hyb, he])
  exact blockSlot_inj hx (hxy ▸ hy)

lemma BlockOk.indirect_ne_map (h : BlockOk g) (h0 : g.indirect i' ≠ 0) :
    g.indirect i' ≠ g.map i bn := by
  intro he
  obtain ⟨x, hx, hxb⟩ := map_ne_zero (he ▸ h0)
  have hxy := h.unique (.ptr i' (Fin.last ndirect)) x h0 (by rw [hxb, ← he]; rfl)
  exact blockSlot_ne_last (hxy ▸ hx)

lemma BlockOk.slot_setData (h : BlockOk g) : (g.setData (g.map i bn) c).slot = g.slot :=
  Image.slot_setData fun _ hi => h.indirect_ne_map hi

/-- A well-formed file system: the inodes have numbers in the table, their references agree with the
free map, and their files have no holes. -/
structure WellFormed (g : Image) : Prop where
  inodes : ∀ i, g.Typed i → 0 < i ∧ i < g.sb.ninodes
  blocks : BlockOk g
  holes : NoHoles g

end Image

end Xv6Riscv
