import Xv6Riscv.Disk.Buffers
import Xv6Riscv.Lib.Ring
import Xv6Riscv.Lib.Update

/-!
The protocol between the disk driver and the device (`virtio_disk.c`).

Any number of processes call `virtio_disk_rw`; `virtio_disk_intr` may run at any time, and so may
the device. What the driver does with `vdisk_lock` held is cut where the device can see the
difference: the descriptors and the entry of the avail ring are written before `avail->idx` is
raised. A process that sleeps may take the lock again whenever it is free, which covers every
wakeup. The device takes chain heads from the avail ring in order, performs the requests it has in
any order, and appends the heads of performed requests to the used ring in any order. The state has
a history: how many entries were ever put on the two rings and taken from them, which requests the
device has performed, and which buffers the interrupt handler has marked.

* `Vdisk.step`: the steps, or a panic. A null pointer in the handler and a chain the device cannot
  read count as panics.
-/

namespace Xv6Riscv

open Function (forall_update_iff update update_apply update_comm update_eq_self update_idem
  update_of_ne update_self)
open Ring

namespace Virtio

def num : ℕ := 8

lemma num_dvd : num ∣ 2 ^ 16 := by decide

/-- The panics of `virtio_disk.c`, and what has no defined meaning. -/
inductive Panic
  /-- "free_desc 1" -/
  | freeDesc1
  /-- "free_desc 2" -/
  | freeDesc2
  /-- "virtio_disk_intr status" -/
  | intrStatus
  /-- `b->disk = 0` with a null pointer -/
  | nullBuf
  /-- the device finds a chain that is not a request -/
  | badChain
  deriving DecidableEq

/-- What the address in a descriptor points to: `disk.ops[i]`, `b->data` or
`disk.info[i].status`. -/
inductive Addr (β : Type*)
  | null
  | op (i : ℕ)
  | data (b : β)
  | status (i : ℕ)

/-- `struct virtq_desc`. -/
structure Desc (β : Type*) where
  addr : Addr β
  len : UInt32
  flags : UInt16
  next : ℕ

/-- A descriptor as `free_desc` leaves it. -/
def Desc.zero {β : Type*} : Desc β := ⟨.null, 0, 0, 0⟩

/-- `VRING_DESC_F_NEXT`. -/
def descFNext : UInt16 := 1

/-- `VRING_DESC_F_WRITE`. -/
def descFWrite : UInt16 := 2

/-- `struct virtio_blk_req`. -/
structure BlkReq where
  type : UInt32
  reserved : UInt32
  sector : UInt64

/-- `VIRTIO_BLK_T_IN`. -/
def blkTIn : UInt32 := 0

/-- `VIRTIO_BLK_T_OUT`. -/
def blkTOut : UInt32 := 1

structure Request (β : Type*) where
  write : Bool
  sector : UInt64
  buf : β
  deriving DecidableEq

/-- A call of `virtio_disk_rw`, and how long the histories were when it began. -/
structure Call (β : Type*) where
  buf : β
  /-- `b->blockno` -/
  blockno : Blockno
  write : Bool
  since : ℕ
  marked : ℕ

/-- `b->blockno * (BSIZE / 512)`. -/
def Call.sector {β : Type*} (c : Call β) : UInt64 :=
  (c.blockno * (UInt32.ofNat (bsize / 512))).toUInt64

def Call.request {β : Type*} (c : Call β) : Request β := ⟨c.write, c.sector, c.buf⟩

lemma Call.request_buf {β : Type*} (c : Call β) : c.request.buf = c.buf := rfl

/-- Where a process is in `virtio_disk_rw`. -/
inductive RwPc (β : Type*)
  | outside
  /-- before `alloc3_desc`, with the lock -/
  | alloc (c : Call β)
  /-- asleep on `&disk.free[0]` -/
  | allocSleep (c : Call β)
  /-- the descriptors are allocated -/
  | format (c : Call β) (idx : Fin 3 → ℕ)
  /-- before `avail->idx += 1` -/
  | ringed (c : Call β) (idx : Fin 3 → ℕ)
  /-- before `b->disk == 1` is tested -/
  | test (c : Call β) (idx : Fin 3 → ℕ)
  /-- asleep on `b` -/
  | sleeping (c : Call β) (idx : Fin 3 → ℕ)

/-- Who holds `vdisk_lock`. -/
inductive Holder (ι : Type*)
  | proc (p : ι)
  | intr

/-- The descriptors, and which of them are free. -/
structure Descs (β : Type*) where
  desc : ℕ → Desc β
  free : ℕ → Bool

namespace Descs

variable {β : Type*}

def allocDesc (s : Descs β) : Option (ℕ × Descs β) :=
  ((List.range num).find? s.free).map fun i =>
    (i, { s with free := update s.free i false })

def freeDesc (s : Descs β) (i : ℕ) : Except Panic (Descs β) :=
  if num ≤ i then .error .freeDesc1
  else if s.free i then .error .freeDesc2
  else .ok
    { s with desc := update s.desc i .zero, free := update s.free i true }

/-- The loop of `free_chain`, with fuel: `num + 1` turns cannot all find a descriptor to free. -/
def freeChainLoop : ℕ → Descs β → ℕ → Except Panic (Descs β)
  | 0, _, _ => .error .freeDesc2
  | fuel + 1, s, i => do
      let flag := (s.desc i).flags
      let nxt := (s.desc i).next
      let s ← s.freeDesc i
      if flag &&& descFNext ≠ 0 then freeChainLoop fuel s nxt else .ok s

def freeChain (s : Descs β) (i : ℕ) : Except Panic (Descs β) := freeChainLoop (num + 1) s i

/-- The loop that gives back the descriptors `idx[j]`, for `j` in the list. -/
def freeAll (idx : Fin 3 → ℕ) : List (Fin 3) → Descs β → Except Panic (Descs β)
  | [], s => .ok s
  | j :: js, s => do
      let s ← s.freeDesc (idx j)
      freeAll idx js s

/-- The loop of `alloc3_desc`, with the values of `i` it goes through. -/
def alloc3Loop : List (Fin 3) → (Fin 3 → ℕ) → Descs β →
    Except Panic (Option (Fin 3 → ℕ) × Descs β)
  | [], idx, s => .ok (some idx, s)
  | i :: is, idx, s =>
    match s.allocDesc with
    | some (d, s) => alloc3Loop is (update idx i d) s
    | none => (freeAll idx ((List.finRange 3).filter (· < i)) s).map (none, ·)

/-- `alloc3_desc`: the descriptors, or `none` for -1. -/
def alloc3Desc (s : Descs β) : Except Panic (Option (Fin 3 → ℕ) × Descs β) :=
  alloc3Loop (List.finRange 3) (fun _ => 0) s

variable {s t : Descs β}

variable {i j : ℕ}

lemma allocDesc_eq_some (h : s.allocDesc = some (i, t)) :
    i < num ∧ s.free i = true ∧ t = { s with free := update s.free i false } := by
  rw [allocDesc, Option.map_eq_some_iff] at h
  obtain ⟨j, hj, he⟩ := h
  obtain ⟨rfl, rfl⟩ := Prod.mk.inj he
  exact ⟨List.mem_range.mp (List.mem_of_find?_eq_some hj), List.find?_some hj, rfl⟩

lemma freeDesc_eq (hi : i < num) (hfree : s.free i = false) : s.freeDesc i = .ok
    { s with desc := update s.desc i .zero, free := update s.free i true } := by
  rw [freeDesc, if_neg (not_le.mpr hi), if_neg (by simp [hfree])]

/-- **`alloc3_desc`** takes three free descriptors, or gives back those it has taken. -/
lemma alloc3Desc_cases (s : Descs β) :
    (∃ idx, s.alloc3Desc = .ok (some idx,
        { s with free := update (update (update s.free
          (idx 0) false) (idx 1) false) (idx 2) false }) ∧
      [idx 0, idx 1, idx 2].Nodup ∧ ∀ i ∈ [idx 0, idx 1, idx 2], i < num ∧ s.free i = true) ∨
    ∃ d, s.alloc3Desc = .ok (none, { s with desc := d }) ∧ ∀ i, s.free i = false →
      d i = s.desc i := by
  have hrange : List.finRange 3 = [0, 1, 2] := rfl
  rw [alloc3Desc, hrange, alloc3Loop]
  cases h0 : s.allocDesc with
  | none => exact .inr ⟨s.desc, rfl, fun _ _ => rfl⟩
  | some r0 =>
    obtain ⟨d0, s0⟩ := r0
    obtain ⟨hlt0, hf0, rfl⟩ := allocDesc_eq_some h0
    dsimp only
    rw [alloc3Loop]
    cases h1 : allocDesc { s with free := update s.free d0 false } with
    | none =>
      right
      refine ⟨update s.desc d0 .zero, ?_, fun i hi => ?_⟩
      · change Except.map _ (freeDesc _ d0 >>= _) = _
        rw [freeDesc_eq hlt0 (update_self ..)]
        change Except.ok _ = Except.ok _
        simp only [update_idem, ← hf0, update_eq_self]
      · rw [update_of_ne]
        rintro rfl
        rw [hf0] at hi
        cases hi
    | some r1 =>
      obtain ⟨d1, s1⟩ := r1
      obtain ⟨hlt1, hf1, rfl⟩ := allocDesc_eq_some h1
      dsimp only at hf1
      have hne1 : d1 ≠ d0 := by
        rintro rfl
        rw [update_self] at hf1
        cases hf1
      rw [update_of_ne hne1] at hf1
      dsimp only
      rw [alloc3Loop]
      cases h2 : allocDesc
          { s with free := update (update s.free d0 false) d1 false } with
      | none =>
        right
        refine ⟨update (update s.desc d0 .zero) d1 .zero, ?_, fun i hi => ?_⟩
        · change Except.map _ (freeDesc _ d0 >>= fun s => freeDesc s d1 >>= _) = _
          rw [freeDesc_eq hlt0 (by simp [hne1.symm])]
          change Except.map _ (freeDesc _ d1 >>= _) = _
          rw [freeDesc_eq hlt1 (by simp [hne1])]
          change Except.ok _ = Except.ok _
          have hback : update (update (update
              (update s.free d0 false) d1 false) d0 true) d1 true = s.free := by
            rw [update_comm hne1, update_idem, update_idem, ← hf0,
              update_eq_self, hf0, ← hf1, update_eq_self]
          simp only [hback]
        · rw [update_of_ne, update_of_ne]
          · rintro rfl
            rw [hf0] at hi
            cases hi
          · rintro rfl
            rw [hf1] at hi
            cases hi
      | some r2 =>
        obtain ⟨d2, s2⟩ := r2
        obtain ⟨hlt2, hf2, rfl⟩ := allocDesc_eq_some h2
        dsimp only at hf2
        have hne2 : d2 ≠ d1 := by
          rintro rfl
          rw [update_self] at hf2
          cases hf2
        rw [update_of_ne hne2] at hf2
        have hne0 : d2 ≠ d0 := by
          rintro rfl
          rw [update_self] at hf2
          cases hf2
        rw [update_of_ne hne0] at hf2
        left
        refine ⟨update (update (update (fun _ => 0) 0 d0) 1 d1) 2 d2, rfl, ?_, ?_⟩
        · simp [hne1.symm, hne2.symm, hne0.symm]
        · simp [hlt0, hlt1, hlt2, hf0, hf1, hf2]

def cleared (s : Descs β) (i : ℕ) : Descs β :=
  ⟨update s.desc i .zero, update s.free i true⟩

lemma freeChainLoop_next {fuel : ℕ} (hi : i < num) (hfree : s.free i = false)
    (hflag : (s.desc i).flags &&& descFNext ≠ 0) :
    freeChainLoop (fuel + 1) s i = freeChainLoop fuel (s.cleared i) (s.desc i).next := by
  rw [freeChainLoop, freeDesc_eq hi hfree]
  exact if_pos hflag

lemma freeChainLoop_last {fuel : ℕ} (hi : i < num) (hfree : s.free i = false)
    (hflag : (s.desc i).flags &&& descFNext = 0) :
    freeChainLoop (fuel + 1) s i = .ok (s.cleared i) := by
  rw [freeChainLoop, freeDesc_eq hi hfree]
  exact if_neg (not_not.mpr hflag)

lemma cleared_desc (h : j ≠ i) : (s.cleared i).desc j = s.desc j :=
  update_of_ne h ..

lemma cleared_free (h : j ≠ i) : (s.cleared i).free j = s.free j :=
  update_of_ne h ..

/-- **`free_chain`** frees the three descriptors of a request. -/
lemma freeChain_chain {a b c : ℕ} (hlt : ∀ i ∈ [a, b, c], i < num) (hnodup : [a, b, c].Nodup)
    (hfree : ∀ i ∈ [a, b, c], s.free i = false) (ha : (s.desc a).flags &&& descFNext ≠ 0)
    (hab : (s.desc a).next = b) (hb : (s.desc b).flags &&& descFNext ≠ 0)
    (hbc : (s.desc b).next = c) (hc : (s.desc c).flags &&& descFNext = 0) :
    s.freeChain a = .ok (((s.cleared a).cleared b).cleared c) := by
  simp only [List.nodup_cons, List.mem_cons, List.not_mem_nil, or_false, not_or] at hnodup
  obtain ⟨⟨hne1, hne2⟩, hne3, _⟩ := hnodup
  simp only [List.mem_cons, List.not_mem_nil, or_false, forall_eq_or_imp, forall_eq] at hlt hfree
  have hdesc1 : (s.cleared a).desc b = s.desc b := cleared_desc (Ne.symm hne1)
  have hdesc2 : ((s.cleared a).cleared b).desc c = s.desc c := by
    rw [cleared_desc (Ne.symm hne3), cleared_desc (Ne.symm hne2)]
  have hfree1 : (s.cleared a).free b = false := by rw [cleared_free (Ne.symm hne1), hfree.2.1]
  have hfree2 : ((s.cleared a).cleared b).free c = false := by
    rw [cleared_free (Ne.symm hne3), cleared_free (Ne.symm hne2), hfree.2.2]
  rw [freeChain, num, freeChainLoop_next hlt.1 hfree.1 ha, hab,
    freeChainLoop_next hlt.2.1 hfree1 (by rwa [hdesc1]), hdesc1, hbc,
    freeChainLoop_last hlt.2.2 hfree2 (by rwa [hdesc2])]

lemma cleared_free_iff : (s.cleared i).free j = true ↔ j = i ∨ s.free j = true := by
  rcases eq_or_ne j i with rfl | hj
  · simp [cleared]
  · rw [cleared_free hj]
    simp [hj]

end Descs

/-- The rest of the memory the driver shares with the device or with its interrupt handler, the
device, and the history. -/
structure Mem (β : Type*) where
  /-- `avail->idx` -/
  availIdx : UInt16
  /-- `avail->ring` -/
  availRing : ℕ → ℕ
  /-- `used->idx` -/
  usedIdx : UInt16
  /-- the `id` of the entries of `used->ring` -/
  usedRing : ℕ → ℕ
  /-- `disk.ops` -/
  ops : ℕ → BlkReq
  /-- `disk.info[i].status` -/
  status : ℕ → UInt8
  /-- `disk.info[i].b` -/
  infoB : ℕ → Option β
  /-- `disk.used_idx` -/
  lastUsed : UInt16
  /-- `b->disk` -/
  disk : β → Bool
  /-- how far the device has read the avail ring -/
  lastAvail : UInt16
  /-- heads the device has taken -/
  fetched : List ℕ
  /-- heads whose request is performed and whose status is written -/
  served : List ℕ
  submitted : ℕ
  consumed : ℕ
  appended : ℕ
  handled : ℕ
  performed : List (Request β)
  /-- the buffers `virtio_disk_intr` has marked -/
  completed : List β

namespace Mem

variable {β : Type*}

/-- `avail->idx += 1`. -/
def publish (m : Mem β) : Mem β :=
  { m with availIdx := m.availIdx + 1, submitted := m.submitted + 1 }

/-- `virtio_disk_intr` marks the buffer `b` of an entry of the used ring. -/
def mark [DecidableEq β] (m : Mem β) (b : β) : Mem β :=
  { m with
    disk := update m.disk b false
    lastUsed := m.lastUsed + 1
    handled := m.handled + 1
    completed := m.completed ++ [b] }

/-- The device takes the next head from the avail ring. -/
def fetch (m : Mem β) : Mem β :=
  { m with
    lastAvail := m.lastAvail + 1
    fetched := m.availRing (m.lastAvail.toNat % num) :: m.fetched
    consumed := m.consumed + 1 }

/-- The device performs the request `r` with the head `h` and writes the status byte `j`. -/
def perform (m : Mem β) (h : ℕ) (r : Request β) (j : ℕ) : Mem β :=
  { m with
    status := update m.status j 0
    performed := m.performed ++ [r]
    fetched := m.fetched.erase h
    served := h :: m.served }

/-- The device appends the head `h` to the used ring. -/
def append (m : Mem β) (h : ℕ) : Mem β :=
  { m with
    usedRing := update m.usedRing (m.usedIdx.toNat % num) h
    usedIdx := m.usedIdx + 1
    served := m.served.erase h
    appended := m.appended + 1 }

end Mem

end Virtio

open Virtio

/-- The driver and the device. -/
structure Vdisk (ι β : Type*) extends Descs β, Mem β where
  lock : Option (Holder ι)
  /-- the sleep locks of the buffers, which the callers of `virtio_disk_rw` hold -/
  busy : β → Bool
  pc : ι → RwPc β

namespace Vdisk

variable {ι β : Type*}

/-- The state after `virtio_disk_init`. -/
def init (ι β : Type*) : Vdisk ι β where
  desc _ := .zero
  availIdx := 0
  availRing _ := 0
  usedIdx := 0
  usedRing _ := 0
  ops _ := ⟨0, 0, 0⟩
  status _ := 0
  infoB _ := none
  free i := decide (i < num)
  lastUsed := 0
  disk _ := false
  lock := none
  busy _ := false
  pc _ := .outside
  lastAvail := 0
  fetched := []
  served := []
  submitted := 0
  consumed := 0
  appended := 0
  handled := 0
  performed := []
  completed := []

/-! ### The driver -/

/-- The descriptors, the status byte, the buffer and the entry of the avail ring are written. -/
def formatted [DecidableEq β] (s : Vdisk ι β) (c : Call β) (idx : Fin 3 → ℕ) : Vdisk ι β :=
  { s with
    ops := update s.ops (idx 0) ⟨if c.write then blkTOut else blkTIn, 0, c.sector⟩
    desc := update (update (update s.desc (idx 0) ⟨.op (idx 0), 16, descFNext, idx 1⟩)
      (idx 1) ⟨.data c.buf, UInt32.ofNat bsize, (if c.write then 0 else descFWrite) ||| descFNext,
        idx 2⟩)
      (idx 2) ⟨.status (idx 0), 1, descFWrite, 0⟩
    status := update s.status (idx 0) 0xff
    disk := update s.disk c.buf true
    infoB := update s.infoB (idx 0) (some c.buf)
    availRing := update s.availRing (s.availIdx.toNat % num) (idx 0) }

/-- The body of the loop of `virtio_disk_intr`. -/
def handle [DecidableEq β] (s : Vdisk ι β) : Except Panic (Vdisk ι β) :=
  let id := s.usedRing (s.lastUsed.toNat % num)
  if s.status id ≠ 0 then .error .intrStatus
  else match s.infoB id with
    | none => .error .nullBuf
    | some b => .ok { s with toMem := s.mark b }

/-! ### The device -/

/-- The request of the chain with the head `h`, and the index of the status byte. -/
def readChain (s : Vdisk ι β) (h : ℕ) : Option (Request β × ℕ) :=
  let d0 := s.desc h
  let d1 := s.desc d0.next
  let d2 := s.desc d1.next
  match d0.addr, d1.addr, d2.addr with
  | .op i, .data b, .status j =>
    if d0.flags = descFNext ∧ d0.len = 16 ∧ d1.len = UInt32.ofNat bsize ∧ d2.flags = descFWrite ∧
        d2.len = 1 then
      if (s.ops i).type = blkTOut ∧ d1.flags = descFNext then some (⟨true, (s.ops i).sector, b⟩, j)
      else if (s.ops i).type = blkTIn ∧ d1.flags = descFWrite ||| descFNext then
        some (⟨false, (s.ops i).sector, b⟩, j)
      else none
    else none
  | _, _, _ => none

/-- The device performs the request with the head `h` and writes its status. -/
def performHead (s : Vdisk ι β) (h : ℕ) : Except Panic (Vdisk ι β) :=
  match s.readChain h with
  | none => .error .badChain
  | some (r, j) => .ok { s with toMem := s.toMem.perform h r j }

/-! ### The steps -/

/-- The steps of the driver, of the interrupt handler and of the device. -/
inductive Action (ι β : Type*)
  /-- `p` calls `virtio_disk_rw` for a buffer it has locked, and acquires the lock -/
  | enter (p : ι) (b : β) (blockno : Blockno) (write : Bool)
  /-- `alloc3_desc` -/
  | alloc (p : ι)
  /-- `p` acquires the lock again after a sleep -/
  | wake (p : ι)
  | format (p : ι)
  /-- `avail->idx += 1` -/
  | publish (p : ι)
  /-- `b->disk` is tested: `p` sleeps, or frees its descriptors and returns -/
  | test (p : ι)
  /-- `virtio_disk_intr` acquires the lock -/
  | intr
  /-- its loop is tested: it handles an entry, or releases the lock -/
  | intrLoop
  /-- the device takes the next head from the avail ring -/
  | fetch
  | perform (h : ℕ)
  /-- the device appends the head to the used ring -/
  | append (h : ℕ)

variable [DecidableEq ι] [DecidableEq β]

/-- Process `p` goes on to `x`, with the lock as given. -/
def goto (s : Vdisk ι β) (p : ι) (x : RwPc β) (l : Option (Holder ι)) : Vdisk ι β :=
  { s with pc := update s.pc p x, lock := l }

/-- One step, where it is possible: the state after it, or the panic. -/
def step (s : Vdisk ι β) : Action ι β → Option (Except Panic (Vdisk ι β))
  | .enter p b blockno write =>
    match s.pc p, s.lock, s.busy b with
    | .outside, none, false => some (.ok
        { s.goto p (.alloc ⟨b, blockno, write, s.performed.length, s.completed.length⟩)
            (some (.proc p)) with
          busy := update s.busy b true })
    | _, _, _ => none
  | .alloc p =>
    match s.pc p with
    | .alloc c => some (s.alloc3Desc.map fun
        | (some idx, d) => { s with toDescs := d }.goto p (.format c idx) (some (.proc p))
        | (none, d) => { s with toDescs := d }.goto p (.allocSleep c) none)
    | _ => none
  | .wake p =>
    match s.pc p, s.lock with
    | .allocSleep c, none => some (.ok (s.goto p (.alloc c) (some (.proc p))))
    | .sleeping c idx, none => some (.ok (s.goto p (.test c idx) (some (.proc p))))
    | _, _ => none
  | .format p =>
    match s.pc p with
    | .format c idx => some (.ok ((s.formatted c idx).goto p (.ringed c idx) (some (.proc p))))
    | _ => none
  | .publish p =>
    match s.pc p with
    | .ringed c idx => some (.ok
        { s.goto p (.test c idx) (some (.proc p)) with toMem := s.toMem.publish })
    | _ => none
  | .test p =>
    match s.pc p with
    | .test c idx =>
      if s.disk c.buf then some (.ok (s.goto p (.sleeping c idx) none))
      else some ((s.freeChain (idx 0)).map fun d =>
        { s.goto p .outside none with
          toDescs := d
          infoB := update s.infoB (idx 0) none
          busy := update s.busy c.buf false })
    | _ => none
  | .intr =>
    match s.lock with
    | none => some (.ok { s with lock := some .intr })
    | _ => none
  | .intrLoop =>
    match s.lock with
    | some .intr =>
      if s.lastUsed ≠ s.usedIdx then some s.handle else some (.ok { s with lock := none })
    | _ => none
  | .fetch =>
    if s.lastAvail ≠ s.availIdx then some (.ok { s with toMem := s.toMem.fetch }) else none
  | .perform h => if h ∈ s.fetched then some (s.performHead h) else none
  | .append h =>
    if h ∈ s.served then some (.ok { s with toMem := s.toMem.append h }) else none

def Reachable (s : Vdisk ι β) : Prop :=
  Relation.ReflTransGen (fun s t : Vdisk ι β => ∃ a, s.step a = some (.ok t)) (init ι β) s

end Vdisk

/-! ### Descriptors and buffers have one owner -/

namespace Virtio

variable {ι β : Type*}

def RwPc.call : RwPc β → Option (Call β)
  | outside => none
  | alloc c | allocSleep c | format c _ | ringed c _ | test c _ | sleeping c _ => some c

def RwPc.chain : RwPc β → List ℕ
  | format _ idx | ringed _ idx | test _ idx | sleeping _ idx => [idx 0, idx 1, idx 2]
  | _ => []

def RwPc.locked : RwPc β → Bool
  | alloc _ | format _ _ | ringed _ _ | test _ _ => true
  | _ => false

/-- The descriptors of the process are written. -/
def RwPc.written : RwPc β → Option (Call β × (Fin 3 → ℕ))
  | ringed c idx | test c idx | sleeping c idx => some (c, idx)
  | _ => none

def RwPc.sent : RwPc β → Option (Call β × (Fin 3 → ℕ))
  | test c idx | sleeping c idx => some (c, idx)
  | _ => none

/-- The lock has one holder, descriptors and buffers have one owner, and what has no owner is
free. -/
structure Owns (lock : Option (Holder ι)) (busy : β → Bool) (free : ℕ → Bool) (pc : ι → RwPc β) :
    Prop where
  locked : ∀ p, (pc p).locked = true → lock = some (.proc p)
  lt : ∀ p, ∀ i ∈ (pc p).chain, i < num
  nodup : ∀ p, (pc p).chain.Nodup
  disjoint : ∀ p q i, i ∈ (pc p).chain → i ∈ (pc q).chain → p = q
  free : ∀ i < num, free i = true ↔ ∀ p, i ∉ (pc p).chain
  busy : ∀ p c, (pc p).call = some c → busy c.buf = true
  bufs : ∀ p q c d, (pc p).call = some c → (pc q).call = some d → c.buf = d.buf → p = q

namespace Owns

variable {lock l : Option (Holder ι)} {busy : β → Bool} {free f : ℕ → Bool} {pc : ι → RwPc β}
variable {p : ι} {x : RwPc β}

variable {q : ι}

section

variable (h : Owns lock busy free pc)

include h

lemma unlocked (hp : (pc p).locked = true) (hq : q ≠ p) : (pc q).locked = false := by
  cases hl : (pc q).locked with
  | false => rfl
  | true =>
    have := (h.locked q hl).symm.trans (h.locked p hp)
    exact absurd (Holder.proc.inj (Option.some.inj this)) hq

lemma unlocked_of_ne (hl : ∀ q, lock ≠ some (.proc q)) (q : ι) : (pc q).locked = false := by
  cases hq : (pc q).locked with
  | false => rfl
  | true => exact absurd (h.locked q hq) (hl q)

lemma not_free {i : ℕ} (hi : i ∈ (pc p).chain) : free i = false := by
  cases hf : free i with
  | false => rfl
  | true => exact absurd hi ((h.free i (h.lt p i hi)).mp hf p)

lemma others {i : ℕ} (hi : i ∈ (pc p).chain) (hq : q ≠ p) :
    i ∉ (pc q).chain := fun hmem => hq (h.disjoint q p i hmem hi)

end

variable {c : Call β}

lemma others_buf (h : Owns lock busy free pc) {d : Call β} (hc : (pc p).call = some c) (hq : q ≠ p)
    (hd : (pc q).call = some d) : d.buf ≠ c.buf :=
  fun hbuf => hq (h.bufs q p d c hd hc hbuf)

variable [DecidableEq ι]

/-- **One process moves**: what it takes nobody else has, and what it gives back is free. -/
lemma moved {b : β → Bool} (h : Owns lock busy free pc) (hothers : ∀ q ≠ p, (pc q).locked = false)
    (hx : x.locked = true → l = some (.proc p)) (hlt : ∀ i ∈ x.chain, i < num)
    (hnodup : x.chain.Nodup) (hnew : ∀ i ∈ x.chain, ∀ q ≠ p, i ∉ (pc q).chain)
    (hfree : ∀ i < num, f i = true ↔ i ∉ x.chain ∧ ∀ q ≠ p, i ∉ (pc q).chain)
    (hbusy : ∀ q ≠ p, ∀ c, (pc q).call = some c → b c.buf = true)
    (hcall : ∀ c, x.call = some c → b c.buf = true ∧
      ∀ q ≠ p, ∀ d, (pc q).call = some d → d.buf ≠ c.buf) : Owns l b f (update pc p x) where
  locked q hq := by
    rcases Upd.cases RwPc.locked hq with ⟨rfl, hl⟩ | ⟨hqp, hq⟩
    · exact hx hl
    · rw [hothers q hqp] at hq
      cases hq
  lt := (forall_update_iff pc fun _ y => ∀ i ∈ y.chain, i < num).mpr ⟨hlt, fun q _ => h.lt q⟩
  nodup := (forall_update_iff pc fun _ y => y.chain.Nodup).mpr ⟨hnodup, fun q _ => h.nodup q⟩
  disjoint _ _ _ := Upd.unique (K := fun y i => i ∈ RwPc.chain y) h.disjoint hnew
  free i hi := (hfree i hi).trans (forall_update_iff pc fun _ y => i ∉ y.chain).symm
  busy := (forall_update_iff pc fun _ y => ∀ c, y.call = some c → b c.buf = true).mpr
    ⟨fun c hc => (hcall c hc).1, hbusy⟩
  bufs q r c d hc hd hbuf := by
    refine Upd.unique (K := fun y b => ∃ c, RwPc.call y = some c ∧ c.buf = b) ?_ ?_
      ⟨c, hc, hbuf⟩ ⟨d, hd, rfl⟩
    · rintro q r _ ⟨c, hc, rfl⟩ ⟨d, hd, he⟩
      exact h.bufs q r c d hc hd he.symm
    · rintro _ ⟨c, hc, rfl⟩ q hq ⟨d, hd, he⟩
      exact (hcall c hc).2 q hq d hd he

/-- **A process goes on** in its call, with the lock or without it. -/
lemma goto {y : RwPc β} (h : Owns lock busy free pc) (hp : pc p = y) (hcall : x.call = y.call)
    (hchain : x.chain = y.chain) (hx : x.locked = true → l = some (.proc p))
    (hothers : ∀ q ≠ p, (pc q).locked = false) : Owns l busy free (update pc p x) := by
  subst hp
  refine h.moved hothers hx ?_ ?_ ?_ (fun i hi => ?_) (fun q _ => h.busy q) fun c hc => ?_
  · rw [hchain]
    exact h.lt p
  · rw [hchain]
    exact h.nodup p
  · rw [hchain]
    exact fun i hi q hq => h.others hi hq
  · rw [hchain, h.free i hi]
    exact (and_forall_ne p).symm
  · rw [hcall] at hc
    exact ⟨h.busy p c hc, fun q hq d hd => h.others_buf hc hq hd⟩

/-- **A call begins**, for a buffer no other call has. -/
lemma enter [DecidableEq β] (h : Owns none busy free pc) (hp : pc p = .outside)
    (hb : busy c.buf = false) :
    Owns (some (.proc p)) (update busy c.buf true) free (update pc p (.alloc c)) := by
  have hnew : ∀ q d, (pc q).call = some d → d.buf ≠ c.buf := by
    intro q d hd he
    have := h.busy q d hd
    rw [he, hb] at this
    cases this
  refine h.moved (fun q _ => h.unlocked_of_ne nofun q) (fun _ => rfl) nofun List.nodup_nil nofun
    (fun i hi => ?_) (fun q _ d hd => ?_) fun d hd => ?_
  · rw [h.free i hi, ← and_forall_ne p, hp]
    exact Iff.rfl
  · rw [update_of_ne (hnew q d hd)]
    exact h.busy q d hd
  · cases hd
    exact ⟨update_self .., fun q _ d hd => hnew q d hd⟩

/-- **Three descriptors are allocated** to a process. -/
lemma allocate (h : Owns lock busy free pc) {idx : Fin 3 → ℕ} (hp : pc p = .alloc c)
    (hnodup : [idx 0, idx 1, idx 2].Nodup)
    (hidx : ∀ i ∈ [idx 0, idx 1, idx 2], i < num ∧ free i = true) :
    Owns (some (.proc p)) busy (update (update (update free (idx 0) false) (idx 1) false) (idx 2)
        false)
      (update pc p (.format c idx)) := by
  have hcall : (pc p).call = some c := by rw [hp]; rfl
  refine h.moved (fun q hq => h.unlocked (by rw [hp]; rfl) hq) (fun _ => rfl)
    (fun i hi => (hidx i hi).1) hnodup
    (fun i hi q _ => (h.free i (hidx i hi).1).mp (hidx i hi).2 q) (fun i hi => ?_)
    (fun q _ => h.busy q) fun d hd => ?_
  · change _ ↔ i ∉ [idx 0, idx 1, idx 2] ∧ _
    by_cases hmem : i ∈ [idx 0, idx 1, idx 2]
    · have hfalse : update (update (update free (idx 0) false) (idx 1)
          false) (idx 2) false i = false := by
        simp only [List.mem_cons, List.not_mem_nil, or_false] at hmem
        simp only [update_apply]
        split_ifs <;> simp_all
      rw [hfalse]
      exact ⟨nofun, fun hno => absurd hmem hno.1⟩
    · have hne := hmem
      simp only [List.mem_cons, List.not_mem_nil, or_false, not_or] at hne
      rw [update_of_ne hne.2.2, update_of_ne hne.2.1, update_of_ne hne.1,
        h.free i hi, ← and_forall_ne p, hp]
      exact and_congr_left' (iff_of_true List.not_mem_nil hmem)
  · cases hd
    exact ⟨h.busy p c hcall, fun q hq d hd => h.others_buf hcall hq hd⟩

/-- **A call returns** its descriptors and its buffer. -/
lemma leave [DecidableEq β] (h : Owns lock busy free pc) {idx : Fin 3 → ℕ} (hp : pc p = .test c idx)
    (hf : ∀ i, f i = true ↔ i ∈ [idx 0, idx 1, idx 2] ∨ free i = true) :
    Owns none (update busy c.buf false) f (update pc p .outside) := by
  have hcall : (pc p).call = some c := by rw [hp]; rfl
  have hchain : (pc p).chain = [idx 0, idx 1, idx 2] := by rw [hp]; rfl
  refine h.moved (fun q hq => h.unlocked (by rw [hp]; rfl) hq) nofun nofun List.nodup_nil nofun
    (fun i hi => ?_) (fun q hq d hd => ?_) nofun
  · rw [hf i, h.free i hi, ← hchain]
    refine ⟨fun hor => ⟨List.not_mem_nil, fun q hq => ?_⟩, fun hno => ?_⟩
    · exact hor.elim (h.others · hq) (· q)
    · exact (em _).imp_right fun hmem => (and_forall_ne p).mp ⟨hmem, hno.2⟩
  · rw [update_of_ne (h.others_buf hcall hq hd)]
    exact h.busy q d hd

end Owns

end Virtio

end Xv6Riscv
