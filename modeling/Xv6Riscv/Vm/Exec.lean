import Xv6Riscv.Vm.Copy

/-!
`exec` (`exec.c`): a new table is built from an executable file, and then takes the place of the old
one.

The file may hold anything. The sizes in it are 64-bit numbers that are added with wrap-around and
cut to 32 bits where the code does so.

* `ExecSpace m r tf sz`: in the table that is being built all pages below the size are mapped, for
  the user; this is why `loadseg` finds its pages, and why memory runs out before the trapframe is
  reached.
* `exec_safe_and_atomic`: `kexec` does not panic, and if it fails nothing has changed.
-/

namespace Xv6Riscv

open Function (update update_of_ne update_self)
open Wp

/-! ### The file -/

/-- What `readi` reads in a file, in 32-bit arithmetic. -/
def readFile (file : List UInt8) (off n : ℕ) : List ℕ :=
  if file.length < off ∨ (off + n) % 2 ^ 32 < off then []
  else ((file.drop off).take n).map UInt8.toNat

lemma readFile_lt (file : List UInt8) (off n : ℕ) : ∀ b ∈ readFile file off n, b < 256 := by
  intro b hb
  rw [readFile] at hb
  split_ifs at hb
  · cases hb
  · obtain ⟨u, _, rfl⟩ := List.mem_map.mp hb
    exact u.toNat_lt

/-- A number in a structure, `n` bytes from an offset on, the lowest first. -/
def field (bytes : List ℕ) (off : ℕ) : ℕ → ℕ
  | 0 => 0
  | n + 1 => bytes.getD off 0 + 256 * field bytes (off + 1) n

lemma field_lt {bytes : List ℕ} (h : ∀ b ∈ bytes, b < 256) (off n : ℕ) :
    field bytes off n < 256 ^ n := by
  induction n generalizing off with
  | zero => exact Nat.one_pos
  | succ n ih =>
    have hb : bytes.getD off 0 < 256 := by
      rw [List.getD_eq_getElem?_getD]
      cases hget : bytes[off]? with
      | none => exact Nat.two_pow_pos 8
      | some b => exact h b (List.mem_of_getElem? hget)
    have := ih (off + 1)
    rw [field, pow_succ]
    omega

def elfMagic : ℕ := 0x464C457F

/-- `sizeof(struct elfhdr)`. -/
def elfhdrSize : ℕ := 64

/-- `sizeof(struct proghdr)`. -/
def proghdrSize : ℕ := 56

/-- The fields of `struct elfhdr` that are used. -/
structure Elfhdr where
  magic : ℕ
  entry : ℕ
  phoff : ℕ
  phnum : ℕ

/-- `struct elfhdr` in memory. -/
def Elfhdr.decode (bytes : List ℕ) : Elfhdr where
  magic := field bytes 0 4
  entry := field bytes 24 8
  phoff := field bytes 32 8
  phnum := field bytes 56 2

/-- The fields of `struct proghdr` that are used. -/
structure Proghdr where
  type : ℕ
  flags : ℕ
  off : ℕ
  vaddr : ℕ
  filesz : ℕ
  memsz : ℕ

/-- `struct proghdr` in memory. -/
def Proghdr.decode (bytes : List ℕ) : Proghdr where
  type := field bytes 0 4
  flags := field bytes 4 4
  off := field bytes 8 8
  vaddr := field bytes 16 8
  filesz := field bytes 32 8
  memsz := field bytes 40 8

/-- A segment that is not larger in the file than in memory, and whose end has not wrapped around,
ends where the code says. -/
lemma segment_le {vaddr memsz filesz : ℕ} (hvaddr : vaddr < 2 ^ 64) (hmemsz : memsz < 2 ^ 64)
    (hle : filesz ≤ memsz) (hwrap : vaddr ≤ (vaddr + memsz) % 2 ^ 64) :
    vaddr + filesz % 2 ^ 32 ≤ (vaddr + memsz) % 2 ^ 64 := by
  omega

def flags2perm (flags : ℕ) : ℕ :=
  let perm := if flags &&& 0x1 ≠ 0 then pteX else 0
  if flags &&& 0x2 ≠ 0 then perm ||| pteW else perm

/-! ### The code -/

/-- The loop of `loadseg`, with `n` pages to go. -/
def loadsegLoop (pagetable va : ℕ) (file : List UInt8) (offset sz : ℕ) : ℕ → ℕ → VmM ℤ
  | 0, _ => pure 0
  | n + 1, i => do
      let pa ← walkaddr pagetable (va + i)
      if pa = 0 then throw .addressShouldExist
      else do
        let len := if sz - i < pgSize then sz - i else pgSize
        let bytes := readFile file ((offset + i) % 2 ^ 32) len
        writeBytes (pageOf pa) 0 bytes
        if bytes.length ≠ len then pure (-1)
        else loadsegLoop pagetable va file offset sz n (i + pgSize)

def loadseg (pagetable va : ℕ) (file : List UInt8) (offset sz : ℕ) : VmM ℤ :=
  loadsegLoop pagetable va file offset sz ((sz + pgSize - 1) / pgSize) 0

/-- The loop over the program headers, with `n` of them to go. The result says whether it was left
with `goto bad`, and what `sz` was then. -/
def loadSegments (pagetable : ℕ) (file : List UInt8) : ℕ → ℕ → ℕ → VmM (Bool × ℕ)
  | 0, _, sz => pure (false, sz)
  | n + 1, off, sz =>
    let bytes := readFile file off proghdrSize
    let ph := Proghdr.decode bytes
    if bytes.length ≠ proghdrSize then pure (true, sz)
    else if ph.type ≠ 1 then
      loadSegments pagetable file n ((off + proghdrSize) % 2 ^ 32) sz
    else if ph.memsz < ph.filesz then pure (true, sz)
    else if (ph.vaddr + ph.memsz) % 2 ^ 64 < ph.vaddr then pure (true, sz)
    else if ph.vaddr % pgSize ≠ 0 then pure (true, sz)
    else do
      let sz1 ← uvmalloc pagetable sz ((ph.vaddr + ph.memsz) % 2 ^ 64) (flags2perm ph.flags)
      if sz1 = 0 then pure (true, sz)
      else do
        let res ← loadseg pagetable ph.vaddr file (ph.off % 2 ^ 32) (ph.filesz % 2 ^ 32)
        if res < 0 then pure (true, sz1)
        else loadSegments pagetable file n ((off + proghdrSize) % 2 ^ 32) sz1

def sub64 (a b : ℕ) : ℕ := (a + 2 ^ 64 - b) % 2 ^ 64

/-- `MAXARG`, the length of `ustack`. -/
def maxArg : ℕ := 32

/-- The loop that copies the arguments: the stack pointer goes down, and the addresses of the
strings are collected, with a 0 at the end. -/
def pushArgs (pagetable sz stackbase : ℕ) :
    List (List UInt8) → ℕ → List ℕ → VmM (Option (ℕ × List ℕ))
  | [], sp, ustack =>
    if maxArg ≤ ustack.length then throw .outOfBounds else pure (some (sp, ustack ++ [0]))
  | arg :: argv, sp, ustack => do
      let sp := sub64 sp (arg.length + 1)
      let sp := sp - sp % 16
      if sp < stackbase then pure none
      else do
        let res ← copyout pagetable sz sp (arg.map UInt8.toNat ++ [0])
        if res < 0 then pure none
        else if maxArg ≤ ustack.length then throw .outOfBounds
        else pushArgs pagetable sz stackbase argv sp (ustack ++ [sp])

def wordBytes (w : ℕ) : List ℕ := (List.range 8).map fun k => w / 256 ^ k % 256

/-- The second half of `kexec`: the stack is made and filled. The result is the stack pointer, or
nothing after `goto bad`, and what `sz` is then. -/
def makeStack (pagetable sz : ℕ) (argv : List (List UInt8)) : VmM (Option ℕ × ℕ) := do
  let sz := pgRoundUp sz
  let sz1 ← uvmalloc pagetable sz (sz + 2 * pgSize) pteW
  if sz1 = 0 then pure (none, sz)
  else do
    uvmclear pagetable (sz1 - 2 * pgSize)
    let stackbase := sz1 - pgSize
    match ← pushArgs pagetable sz1 stackbase argv sz1 [] with
    | none => pure (none, sz1)
    | some (sp, ustack) => do
        let sp := sub64 sp ((argv.length + 1) * 8)
        let sp := sp - sp % 16
        if sp < stackbase then pure (none, sz1)
        else do
          let res ← copyout pagetable sz1 sp (ustack.flatMap wordBytes)
          if res < 0 then pure (none, sz1) else pure (some sp, sz1)

def lastComponent (path : List UInt8) : List UInt8 :=
  (path.reverse.takeWhile (· ≠ 47)).reverse

/-- A process, as far as `kexec` changes it. -/
structure ExecProc where
  mem : ProcMem
  name : List UInt8
  deriving DecidableEq

/-- `p->trapframe->a1 = sp`, `epc = elf.entry`, `sp = sp`. -/
def setTrapframe (trapframe sp entry : ℕ) : VmM Unit := modify fun m =>
  m.setPage trapframe
    (update (update (update (m.page trapframe) (wordNo 15) sp) (wordNo 3) entry) (wordNo 6) sp)

/-- `kexec`; `file` is what `namei` finds. The result is with the process afterwards. -/
def kexec (p : ExecProc) (path : List UInt8) (file : Option (List UInt8))
    (argv : List (List UInt8)) : VmM (ℤ × ExecProc) :=
  match file with
  | none => pure (-1, p)
  | some file =>
    let bytes := readFile file 0 elfhdrSize
    let elf := Elfhdr.decode bytes
    if bytes.length ≠ elfhdrSize then pure (-1, p)
    else if elf.magic ≠ elfMagic then pure (-1, p)
    else do
      match ← procPagetable p.mem.trapframe with
      | none => pure (-1, p)
      | some pagetable => do
          let segs ← loadSegments pagetable file elf.phnum (elf.phoff % 2 ^ 32) 0
          if segs.1 then do
            procFreepagetable pagetable segs.2
            pure (-1, p)
          else do
            let stack ← makeStack pagetable segs.2 argv
            match stack.1 with
            | none => do
                procFreepagetable pagetable stack.2
                pure (-1, p)
            | some sp => do
                setTrapframe p.mem.trapframe sp elf.entry
                procFreepagetable p.mem.pagetable p.mem.sz
                pure (argv.length,
                  ⟨⟨pagetable, p.mem.trapframe, stack.2⟩, (lastComponent path).take 15⟩)

variable {m m' m'' : Mem} {r tf sz sz' v x : ℕ} {g : ℕ → Option Cell} {file : List UInt8}

/-! ### The table that is built -/

/-- All mapped user pages can be read. -/
def Readable (g : ℕ → Option Cell) : Prop := ∀ v ∈ userPages, ∀ c, g v = some c → c.1 &&& pteR ≠ 0

lemma Readable.grown {g' : ℕ → Option Cell} {n : ℕ} (h : Readable g) (hG : Grown n g g') :
    Readable g' := by
  intro v hv c' hc'
  rcases hG v hv with he | ⟨_, _, he⟩
  · rw [hc', Option.map_some, eq_comm, Option.map_eq_some_iff] at he
    obtain ⟨c, hc, he⟩ := he
    rw [← he]
    exact h v hv c hc
  · rw [hc', Option.map_some, Option.some.injEq] at he
    rw [he]
    exact (by decide : (pteW ||| pteU ||| pteR ||| pteV) &&& pteR ≠ 0)

lemma Readable.congr {g' : ℕ → Option Cell} (h : Readable g) (hg : ∀ v ∈ userPages, g' v = g v) :
    Readable g' :=
  h.grown (n := 0) fun v hv => .inl (by rw [hg v hv])

lemma newCell_readable (xperm : ℕ) : (newCell xperm).1 &&& pteR ≠ 0 := by
  intro h
  have hbit := congrArg (Nat.testBit · 1) h
  simp only [newCell, Nat.testBit_and, Nat.testBit_or, Nat.zero_testBit] at hbit
  revert hbit
  cases xperm.testBit 1 <;> decide

lemma newCell_user (xperm : ℕ) : (newCell xperm).1 &&& pteU ≠ 0 := by
  intro h
  have hbit := congrArg (Nat.testBit · 4) h
  simp only [newCell, Nat.testBit_and, Nat.testBit_or, Nat.zero_testBit] at hbit
  revert hbit
  cases xperm.testBit 4 <;> decide

lemma Readable.fillRange {n xperm : ℕ} (h : Readable g) :
    Readable (fillRange g v n (newCell xperm)) := by
  intro w hw c hc
  rw [Xv6Riscv.fillRange] at hc
  split_ifs at hc
  · cases hc
    exact newCell_readable xperm
  · exact h w hw c hc

/-- **The table of a program that is loaded**: all pages below the size are mapped for the user. -/
structure ExecSpace (m : Mem) (r tf sz : ℕ) : Prop where
  space : UserSpace m r tf sz
  full : ∀ v < pagesOf sz, ∃ c, m.cell r v = some c ∧ c.1 &&& pteU ≠ 0
  readable : Readable (m.cell r)

lemma ExecSpace.of_empty (h : UserSpace m r tf 0) : ExecSpace m r tf 0 where
  space := h
  full v hv := absurd hv (Nat.not_lt_zero v)
  readable v hv c hc := by
    rw [h.below v hv (Nat.zero_le v)] at hc
    cases hc

/-- The table has been worked on. -/
structure Loaded (m : Mem) (r tf : ℕ) (m' : Mem) (sz : ℕ) : Prop where
  space : ExecSpace m' r tf sz
  trade : Trade m (m.foot r userPages) m' (m'.foot r userPages)

lemma ExecSpace.loaded (h : ExecSpace m r tf sz) : Loaded m r tf m sz :=
  ⟨h, Trade.refl h.space.owned.holds⟩

lemma Loaded.trans (h : Loaded m r tf m' sz) (h' : Loaded m' r tf m'' sz') :
    Loaded m r tf m'' sz' :=
  ⟨h'.space, h.trade.trans h'.trade⟩

lemma lt_trapVpn (hsize : sz ≤ trapframeVa) (hv : v < pagesOf sz) : v ∈ userPages :=
  lt_of_lt_of_le hv (pagesOf_le hsize)

lemma ExecSpace.turns (h : ExecSpace m r tf sz) (hT : Turns m r m' g) (hsize : sz' ≤ trapframeVa)
    (hbelow : ∀ v ∈ userPages, pagesOf sz' ≤ v → g v = none)
    (hfull : ∀ v < pagesOf sz', ∃ c, g v = some c ∧ c.1 &&& pteU ≠ 0) (hread : Readable g) :
    Loaded m r tf m' sz' := by
  refine ⟨⟨h.space.turns hT hsize hbelow, fun v hv => ?_, hread.congr hT.cells⟩, hT.trade⟩
  rw [hT.cells v (lt_trapVpn hsize hv)]
  exact hfull v hv

lemma ExecSpace.gapless (h : ExecSpace m r tf sz) : Full (m.cell r) (pagesOf sz) := by
  intro v _ hv hnone
  obtain ⟨c, hc, _⟩ := h.full v hv
  rw [hnone] at hc
  cases hc

lemma le_trapframeVa (h : pagesOf sz ≤ trapVpn) : sz ≤ trapframeVa := by
  rw [pagesOf, pgSize] at h
  rw [trapframeVa_eq, pgSize]
  omega

/-- **The table grows.** -/
lemma ExecSpace.alloc_runs {newsz xperm : ℕ} (h : ExecSpace m r tf sz) (hx : xperm < 1024) :
    Returns (uvmalloc r sz newsz xperm) m fun res m' =>
      (res = max sz newsz ∧ Loaded m r tf m' (max sz newsz)) ∨ (res = 0 ∧ Loaded m r tf m' sz) := by
  refine (uvmalloc_runs hx h.space.owned h.space.size (.inr h.gapless) h.space.below).mono
    fun res m' hres => ?_
  rcases hres with ⟨rfl, hle, hT⟩ | ⟨rfl, _, hT⟩
  · have hmax : pagesOf (max sz newsz) = max (pagesOf sz) (pagesOf newsz) :=
      Monotone.map_max fun _ _ => pagesOf_mono
    refine .inl ⟨rfl, h.turns hT (le_trapframeVa hle) (fun v hv hpages => ?_) (fun v hv => ?_)
      h.readable.fillRange⟩
    · rw [hmax, max_le_iff] at hpages
      rw [fillRange, if_neg (by omega)]
      exact h.space.below v hv hpages.1
    · rw [hmax, lt_max_iff] at hv
      rw [fillRange]
      split_ifs with hnew
      · exact ⟨_, rfl, newCell_user xperm⟩
      · exact h.full v (by omega)
  · exact .inr ⟨rfl, h.turns hT h.space.size h.space.below h.full h.readable⟩

/-- **A store to a page of the table.** -/
lemma ExecSpace.store (h : ExecSpace m r tf sz) (hv : v < pagesOf sz) (hx : m.back r v = some x)
    (contents : Fin 512 → ℕ) : Loaded m r tf (m.setPage x contents) sz := by
  obtain ⟨c, hc, hU⟩ := h.full v hv
  have huser := lt_trapVpn h.space.size hv
  obtain ⟨_, hT⟩ := h.space.owned.store huser hx contents
  rw [hc, Option.map_some] at hT
  refine h.turns hT h.space.size (fun w hw hle => ?_) (fun w hw => ?_) fun w hw c' hc' => ?_
  · rw [update_of_ne (by omega)]
    exact h.space.below w hw hle
  · by_cases hwv : w = v
    · rw [hwv, update_self]
      exact ⟨_, rfl, hU⟩
    · rw [update_of_ne hwv]
      exact h.full w hw
  · by_cases hwv : w = v
    · rw [hwv, update_self] at hc'
      cases hc'
      exact h.readable v huser c hc
    · rw [update_of_ne hwv] at hc'
      exact h.readable w hw c' hc'

/-! ### Loading -/

lemma ExecSpace.walkaddr_eq (h : ExecSpace m r tf sz) (hv : v < pagesOf sz) :
    ∃ x, 0 < x ∧ m.back r v = some x ∧
      runFrom (walkaddr r (v * pgSize)) m = (.ok (x <<< 12), m) := by
  have huser := lt_trapVpn h.space.size hv
  obtain ⟨c, hc, hU⟩ := h.full v hv
  cases hback : m.back r v with
  | none =>
    rw [Mem.cell_eq_none.mpr (Mem.back_eq_none.mp hback)] at hc
    cases hc
  | some x =>
    have hpos : 0 < x := lt_of_lt_of_le h.space.owned.holds.pos
      (h.space.owned.holds.range x (.inl (.inr ⟨v, huser, hback⟩))).1
    refine ⟨x, hpos, rfl, ?_⟩
    obtain ⟨pte, hpte, hflags, _⟩ := Mem.page_of_cell hback hc
    rw [hflags, pteFlags_and pte (by decide)] at hU
    rw [Mem.back, hpte, Option.map_some] at hback
    rw [Xv6Riscv.walkaddr_eq (mul_lt_maxVa (userPages_lt huser)), vpn_mul, hpte]
    simp only [hU, if_false]
    rw [pte2pa_page, Option.some.inj hback]

/-- **`loadseg`** finds all its pages. -/
lemma loadsegLoop_runs {offset fsz : ℕ} (v : ℕ) : ∀ (n k : ℕ) (m : Mem), ExecSpace m r tf sz →
    v + k + n ≤ pagesOf sz →
    Returns (loadsegLoop r (v * pgSize) file offset fsz n (k * pgSize)) m fun _ m' =>
      Loaded m r tf m' sz
  | 0, _, _, h, _ => Returns.pure h.loaded
  | n + 1, k, m, h, hle => by
      obtain ⟨x, hx, hback, hwalk⟩ := h.walkaddr_eq (v := v + k) (by omega)
      rw [loadsegLoop, ← Nat.add_mul, Returns.bind_iff, Returns.of_eq hwalk,
        if_neg (shift_ne_zero hx), pageOf_shift]
      refine Returns.writeBytes (Returns.ite (fun _ => ?_) fun _ => ?_)
      · exact Returns.pure (h.store (by omega) hback _)
      · have hL := h.store (by omega : v + k < pagesOf sz) hback
          (putBytes (m.page x) 0 (readFile file ((offset + k * pgSize) % 2 ^ 32)
            (if fsz - k * pgSize < pgSize then fsz - k * pgSize else pgSize)))
        rw [← Nat.succ_mul]
        exact (loadsegLoop_runs v n (k + 1) _ hL.space (by omega)).mono fun _ _ h' => hL.trans h'

lemma loadseg_runs {va offset fsz : ℕ} (h : ExecSpace m r tf sz) (hva : va % pgSize = 0)
    (hle : va + fsz ≤ sz) :
    Returns (loadseg r va file offset fsz) m fun _ m' => Loaded m r tf m' sz := by
  obtain ⟨v, rfl⟩ : ∃ v, va = v * pgSize := ⟨va / pgSize, (Nat.div_mul_cancel
    (Nat.dvd_of_mod_eq_zero hva)).symm⟩
  have hpages : v + 0 + (fsz + pgSize - 1) / pgSize ≤ pagesOf sz := by
    rw [pgSize] at hle
    rw [pagesOf, pgSize]
    omega
  have hloop : Returns (loadsegLoop r _ file offset fsz _ _) m _ :=
    loadsegLoop_runs v _ 0 m h hpages
  rwa [Nat.zero_mul] at hloop

lemma flags2perm_lt (flags : ℕ) : flags2perm flags < 1024 := by
  rw [flags2perm]
  split_ifs <;> decide

/-- **The segments are loaded**, or the table is left as far as it has been built. -/
lemma loadSegments_runs : ∀ (n off sz : ℕ) (m : Mem), ExecSpace m r tf sz →
    Returns (loadSegments r file n off sz) m fun res m' => Loaded m r tf m' res.2
  | 0, _, _, _, h => Returns.pure h.loaded
  | n + 1, off, sz, m, h => by
      rw [loadSegments]
      refine Returns.ite (fun _ => Returns.pure h.loaded) fun _ => ?_
      refine Returns.ite (fun _ => loadSegments_runs n _ sz m h) fun _ => ?_
      refine Returns.ite (fun _ => Returns.pure h.loaded) fun hmem => ?_
      refine Returns.ite (fun _ => Returns.pure h.loaded) fun hwrap => ?_
      refine Returns.ite (fun _ => Returns.pure h.loaded) fun halign => ?_
      refine (h.alloc_runs (flags2perm_lt _)).bind fun sz1 m1 h1 => ?_
      refine Returns.ite (fun hzero => Returns.pure ?_) fun hpos => ?_
      · -- the size stays as it was; it was 0 if `uvmalloc` was asked for nothing
        rcases h1 with ⟨hmax, hL⟩ | ⟨_, hL⟩
        · rw [hzero] at hmax
          rw [← hmax] at hL
          rwa [Nat.eq_zero_of_le_zero ((le_max_left sz _).trans hmax.ge)]
        · exact hL
      rcases h1 with ⟨rfl, hL⟩ | ⟨rfl, _⟩
      swap
      · exact absurd rfl hpos
      refine (loadseg_runs hL.space (not_not.mp halign) ?_).bind fun res m2 h2 => ?_
      · have hbytes := readFile_lt file off proghdrSize
        exact (segment_le (field_lt hbytes 16 8) (field_lt hbytes 40 8) (not_lt.mp hmem)
          (not_lt.mp hwrap)).trans (le_max_right _ _)
      · refine Returns.ite (fun _ => Returns.pure (hL.trans h2)) fun _ => ?_
        exact (loadSegments_runs n _ _ m2 h2.space).mono fun _ _ h3 => (hL.trans h2).trans h3

/-! ### The stack -/

/-- The table has been worked on, and may have its guard page. -/
structure Staged (m : Mem) (r tf : ℕ) (m' : Mem) (sz : ℕ) : Prop where
  space : UserSpace m' r tf sz
  readable : Readable (m'.cell r)
  trade : Trade m (m.foot r userPages) m' (m'.foot r userPages)

lemma Loaded.staged (h : Loaded m r tf m' sz) : Staged m r tf m' sz :=
  ⟨h.space.space, h.space.readable, h.trade⟩

lemma Staged.trans (h : Staged m r tf m' sz) (h' : Staged m' r tf m'' sz') :
    Staged m r tf m'' sz' :=
  ⟨h'.space, h'.readable, h.trade.trans h'.trade⟩

lemma Staged.copied {a : ℕ} {bytes : List ℕ} (h : Staged m r tf m' sz)
    (hC : Copied m' r sz m'' a bytes) : Staged m r tf m'' sz :=
  ⟨h.space.copied hC, h.readable.grown hC.put.grown, h.trade.trans hC.turns.trade⟩

lemma argBytes_lt (arg : List UInt8) : ∀ b ∈ arg.map UInt8.toNat ++ [0], b < 256 := by
  intro b hb
  rcases List.mem_append.mp hb with hb | hb
  · obtain ⟨u, _, rfl⟩ := List.mem_map.mp hb
    exact u.toNat_lt
  · rw [List.mem_singleton.mp hb]
    decide

lemma wordBytes_lt (ustack : List ℕ) : ∀ b ∈ ustack.flatMap wordBytes, b < 256 := by
  intro b hb
  obtain ⟨w, _, hb⟩ := List.mem_flatMap.mp hb
  obtain ⟨k, _, rfl⟩ := List.mem_map.mp hb
  exact Nat.mod_lt _ (by decide)

/-- **The arguments are copied**; `ustack` has room for them. -/
lemma pushArgs_runs {stackbase : ℕ} : ∀ (argv : List (List UInt8)) (sp : ℕ) (ustack : List ℕ)
    (m' : Mem), Staged m r tf m' sz → ustack.length + argv.length < maxArg →
    Returns (pushArgs r sz stackbase argv sp ustack) m' fun _ m'' => Staged m r tf m'' sz
  | [], sp, ustack, m', h, hlen => by
      rw [List.length_nil, Nat.add_zero] at hlen
      rw [pushArgs, if_neg (not_le.mpr hlen)]
      exact Returns.pure h
  | arg :: argv, sp, ustack, m', h, hlen => by
      rw [List.length_cons] at hlen
      rw [pushArgs]
      refine Returns.ite (fun _ => Returns.pure h) fun _ => ?_
      refine (copyout_runs h.space.copySpace _ (argBytes_lt arg)).bind fun res m1 hC => ?_
      obtain ⟨_, _, hC, _⟩ := hC
      have h1 := h.copied hC
      refine Returns.ite (fun _ => Returns.pure h1) fun _ => ?_
      rw [if_neg (by omega)]
      refine pushArgs_runs argv _ _ m1 h1 ?_
      rw [List.length_append, List.length_singleton]
      omega

/-- **The guard page** is taken from the user. -/
lemma ExecSpace.clear_runs (h : ExecSpace m r tf sz) (hv : v < pagesOf sz) :
    Returns (uvmclear r (v * pgSize)) m fun _ m' => Staged m r tf m' sz := by
  have huser := lt_trapVpn h.space.size hv
  obtain ⟨c, hc, _⟩ := h.full v hv
  obtain ⟨pte, hpte, hcell⟩ := Option.map_eq_some_iff.mp hc
  refine (uvmclear_runs h.space.owned.space hpte).mono fun _ m' hB => ?_
  have hT := h.space.owned.reflag huser hpte (pte2pa_clearU pte) hB.2
  refine ⟨h.space.turns hT h.space.size fun w hw hle => ?_, ?_, hT.trade⟩
  · rw [update_of_ne (by omega)]
    exact h.space.below w hw hle
  · intro w hw c' hc'
    rw [hT.cells w hw] at hc'
    by_cases hwv : w = v
    · rw [hwv, update_self] at hc'
      cases hc'
      have hread := h.readable v huser c hc
      rw [← hcell, pteFlags_and pte (by decide)] at hread
      rwa [pteFlags_and _ (by decide), clearU_and pte (by decide)]
    · rw [update_of_ne hwv] at hc'
      exact h.readable w hw c' hc'

lemma ExecSpace.round_up (h : ExecSpace m r tf sz) : ExecSpace m r tf (pgRoundUp sz) := by
  have hpages : pagesOf (pgRoundUp sz) = pagesOf sz :=
    by rw [pgRoundUp_eq h.space.size, pagesOf_mul]
  refine ⟨⟨h.space.owned, le_trapframeVa ?_, ?_, h.space.high⟩, ?_, h.readable⟩
  · rw [hpages]
    exact pagesOf_le h.space.size
  · rw [hpages]
    exact h.space.below
  · rw [hpages]
    exact h.full

/-- **The stack is made.** -/
lemma makeStack_runs {argv : List (List UInt8)} (h : ExecSpace m r tf sz)
    (hargs : argv.length < maxArg) :
    Returns (makeStack r sz argv) m fun res m' => Staged m r tf m' res.2 := by
  have hup := h.round_up
  have hround := pgRoundUp_eq h.space.size
  rw [makeStack]
  refine (hup.alloc_runs (by decide)).bind fun sz1 m1 h1 => ?_
  rcases h1 with ⟨hsz1, hL⟩ | ⟨rfl, hL⟩
  swap
  · rw [if_pos rfl]
    exact Returns.pure hL.staged
  rw [max_eq_right (Nat.le_add_right _ _)] at hsz1 hL
  have hguard : sz1 - 2 * pgSize = pagesOf sz * pgSize := by rw [hsz1, hround, Nat.add_sub_cancel]
  have hbelow : pagesOf sz < pagesOf (pgRoundUp sz + 2 * pgSize) := by
    rw [hround, ← Nat.add_mul, pagesOf_mul]
    omega
  rw [if_neg (by rw [hsz1]; exact Nat.ne_of_gt (Nat.add_pos_right _ (by decide))), hguard]
  refine (hL.space.clear_runs hbelow).bind fun _ m2 hS => ?_
  have hS2 := hL.staged.trans hS
  rw [← hsz1] at hS2
  refine (pushArgs_runs argv _ _ m2 hS2 ?_).bind fun pushed m3 hS3 => ?_
  · rw [List.length_nil, Nat.zero_add]
    exact hargs
  cases pushed with
  | none => exact Returns.pure hS3
  | some stack =>
    refine Returns.ite (fun _ => Returns.pure hS3) fun _ => ?_
    refine (copyout_runs hS3.space.copySpace _ (wordBytes_lt _)).bind fun res m4 hC => ?_
    obtain ⟨_, _, hC, _⟩ := hC
    exact Returns.ite (fun _ => Returns.pure (hS3.copied hC)) fun _ => Returns.pure (hS3.copied hC)

/-! ### `kexec` -/

lemma Returns.setTrapframe {α : Type} {f : Unit → VmM α} {R : α → Mem → Prop} {sp entry : ℕ}
    (h : ∀ contents, Returns (f ()) (m.setPage tf contents) R) :
    Returns (Xv6Riscv.setTrapframe tf sp entry >>= f) m R :=
  Returns.bind_iff.mpr (Returns.iff_wp.mpr (h _))

lemma Staged.free_runs {α : Type} {a : α} (hnew : Trade m ∅ m' (m'.foot r userPages))
    (h : Staged m' r tf m'' sz) :
    Returns (do
      procFreepagetable r sz
      pure a) m'' fun res m3 => res = a ∧ Trade m ∅ m3 ∅ :=
  (procFreepagetable_runs h.space).bind fun _ _ hT =>
    Returns.pure ⟨rfl, hnew.trans (h.trade.trans hT)⟩

/-- **The new table takes the place of the old one.** -/
lemma ProcMem.commit_runs {p : ProcMem} (hP : p.Ok m) (hnew : Trade m ∅ m' (m'.foot r userPages))
    (hS : UserSpace m' r p.trapframe sz) (contents : Fin 512 → ℕ) :
    Returns (procFreepagetable p.pagetable p.sz) (m'.setPage p.trapframe contents) fun _ m'' =>
      Trade m (p.pages m) m'' (pages ⟨r, p.trapframe, sz⟩ m'') ∧ Ok ⟨r, p.trapframe, sz⟩ m'' ∧
        ∀ v ∈ userPages, m''.cell r v = m'.cell r v := by
  obtain ⟨hP', hpages, hd, _⟩ := hP.frame hnew fun _ _ h => h
  -- the pages of the process and of the new table
  have hall : Trade m (p.pages m) m' (m'.foot r userPages ∪ p.pages m') := by
    have hframe := hnew.frameOn (G := p.pages m) (by rw [Set.empty_union]; exact hP.holds)
      fun _ _ h => h
    rw [Set.empty_union] at hframe
    rwa [hpages]
  have hd' : ∀ x ∈ p.pages m', x ∉ m'.foot r userPages := by rwa [hpages]
  obtain ⟨hP1, hpages1, hwrite, _⟩ := hP'.set_trapframe contents
  obtain ⟨_, hfoot1, _, hcell1, hd1⟩ := hS.owned.frame hwrite fun x hx hx' => hd' x hx' hx
  have hS1 := hS.frame hwrite fun x hx hx' => hd' x hx' hx
  have hall1 := Trade.write hall.holds (.inr (Set.mem_insert _ _)) contents
  set m1 := m'.setPage p.trapframe contents
  -- the old table is freed; the trapframe and the new table are left
  have hrest : ∀ x ∈ pages ⟨r, p.trapframe, sz⟩ m1, x ∉ m1.foot p.pagetable userPages := by
    rintro x (rfl | hx) hx'
    · exact hP1.apart hx'
    · have hmem : x ∈ p.pages m1 := .inr hx'
      rw [hpages1] at hmem
      exact hd' x hmem (by rw [← hfoot1]; exact hx)
  have hunion : m1.foot p.pagetable userPages ∪ pages ⟨r, p.trapframe, sz⟩ m1 =
      m'.foot r userPages ∪ p.pages m' := by
    rw [← hpages1, ← hfoot1, pages, pages]
    ext x
    simp only [Set.mem_union, Set.mem_insert_iff]
    tauto
  refine (procFreepagetable_runs hP1.space).mono fun _ m2 hT2 => ?_
  obtain ⟨_, hfoot2, _, hcell2, _⟩ := hS1.owned.frame hT2 fun x hx => hrest x (.inr hx)
  have hT2' := hT2.frameOn (by rw [hunion]; exact hall1.holds) hrest
  have hpages2 : pages ⟨r, p.trapframe, sz⟩ m2 = pages ⟨r, p.trapframe, sz⟩ m1 := by
    rw [pages, pages, hfoot2]
  rw [Set.empty_union, hunion, ← hpages2] at hT2'
  refine ⟨hall.trans (hall1.trans hT2'), ⟨hS1.frame hT2 fun x hx => hrest x (.inr hx), ?_,
    hT2'.holds⟩, fun v hv => (hcell2 v hv).trans (hcell1 v hv)⟩
  change p.trapframe ∉ m2.foot r userPages
  rw [hfoot2, hfoot1]
  exact hd' _ (Set.mem_insert _ _)

/-- **`kexec`** either fails and gives all pages back, or the process has the new table. -/
lemma kexec_runs {p : ExecProc} (path : List UInt8) (file : Option (List UInt8))
    {argv : List (List UInt8)} (hP : p.mem.Ok m) (hargs : argv.length < maxArg) :
    Returns (kexec p path file argv) m fun res m' =>
      (res = (-1, p) ∧ Trade m ∅ m' ∅) ∨
      (res.1 = argv.length ∧ res.2.mem.trapframe = p.mem.trapframe ∧
        Trade m (p.mem.pages m) m' (res.2.mem.pages m') ∧ res.2.mem.Ok m' ∧
        Readable (m'.cell res.2.mem.pagetable)) := by
  have hH : Holds m ∅ := hP.holds.subset (Set.empty_subset _)
  have hfail : Returns (pure (-1, p)) m fun (res : ℤ × ExecProc) m' =>
      (res = (-1, p) ∧ Trade m ∅ m' ∅) ∨
      (res.1 = argv.length ∧ res.2.mem.trapframe = p.mem.trapframe ∧
        Trade m (p.mem.pages m) m' (res.2.mem.pages m') ∧ res.2.mem.Ok m' ∧
        Readable (m'.cell res.2.mem.pagetable)) := Returns.pure (.inl ⟨rfl, Trade.refl hH⟩)
  cases file with
  | none => exact hfail
  | some file =>
    rw [kexec]
    refine Returns.ite (fun _ => hfail) fun _ => Returns.ite (fun _ => hfail) fun _ => ?_
    refine (procPagetable_runs hH).bind fun table m1 h1 => ?_
    cases table with
    | none => exact Returns.pure (.inl ⟨rfl, h1.1⟩)
    | some r =>
      obtain ⟨hnew, hU⟩ := h1
      refine (loadSegments_runs _ _ 0 m1 (.of_empty hU)).bind fun segs m2 hL => ?_
      refine Returns.ite (fun _ => ?_) fun _ => ?_
      · exact (hL.staged.free_runs hnew).mono fun _ _ h => .inl h
      refine (makeStack_runs hL.space hargs).bind fun stack m3 hS => ?_
      have hS3 := hL.staged.trans hS
      cases hsp : stack.1 with
      | none =>
        exact (hS3.free_runs hnew).mono fun _ _ h => .inl h
      | some sp =>
        refine Returns.setTrapframe fun contents => ?_
        refine (ProcMem.commit_runs hP (hnew.trans hS3.trade) hS3.space contents).bind
          fun _ m4 h4 => Returns.pure (.inr ?_)
        exact ⟨rfl, rfl, h4.1, h4.2.1, hS3.readable.congr h4.2.2⟩

/-- **`exec` is safe and atomic on every file.** Whatever the file holds, and whichever calls of
`kalloc` fail, `kexec` does not panic. If it returns -1, the process has its page table, size,
trapframe and name as before, with the same contents in all pages, and all pages that were free are
free again. -/
theorem exec_safe_and_atomic {p : ExecProc} (hP : p.mem.Ok m) (path : List UInt8)
    (file : Option (List UInt8)) (argv : List (List UInt8)) (hargs : argv.length ≤ maxArg - 1) :
    Returns (kexec p path file argv) m fun res m' => res.1 = -1 →
      res.2 = p ∧ p.mem.Ok m' ∧ p.mem.pages m' = p.mem.pages m ∧
      (∀ x ∈ p.mem.pages m, m'.page x = m.page x) ∧
      m'.free.Nodup ∧ ∀ x, x ∈ m'.free ↔ x ∈ m.free := by
  have hlt : argv.length < maxArg := lt_of_le_of_lt hargs (by decide)
  refine (kexec_runs path file hP hlt).mono fun res m' hres hbad => ?_
  rcases hres with ⟨rfl, hT⟩ | ⟨hlen, _⟩
  · obtain ⟨hP', hpages, _⟩ := hP.frame hT fun _ _ h => h
    refine ⟨rfl, hP', hpages, fun x hx => hT.frame x (fun h => h) (hP.holds.apart x hx),
      hT.holds.nodup, fun x => ?_⟩
    simpa using hT.pages x
  · omega

/-- A program header. -/
def segmentBytes (flags : UInt8) (off vaddr filesz memsz : ℕ) : List UInt8 :=
  [1, 0, 0, 0, flags, 0, 0, 0] ++
    ([off, vaddr, 0, filesz, memsz, 0].flatMap wordBytes).map UInt8.ofNat

/-- A file with two segments, of which the second one is larger in the file than in memory. -/
def twoSegments : List UInt8 :=
  [127, 69, 76, 70] ++ List.replicate 28 0 ++ [64] ++ List.replicate 23 0 ++ [2] ++
    List.replicate 7 0 ++ segmentBytes 5 0 0 64 4096 ++ segmentBytes 6 0 4096 64 32

/-- The memory with a new table for the file, and with what has been loaded of it. -/
def execTable : Mem := (runFrom (procPagetable 8) ProcMem.oneProc).2

def execLoaded : Mem := (runFrom (loadSegments 12 twoSegments 2 64 0) execTable).2

lemma execTable_eq : runFrom (procPagetable 8) ProcMem.oneProc = (.ok (some 12), execTable) := rfl

lemma execLoaded_eq :
    runFrom (loadSegments 12 twoSegments 2 64 0) execTable = (.ok (true, 4096), execLoaded) := by
  have hres : (runFrom (loadSegments 12 twoSegments 2 64 0) execTable).1 = .ok (true, 4096) := by
    decide +kernel
  rw [execLoaded, ← hres]

/-- `kexec` fails after the first segment. -/
lemma kexec_twoSegments (hP : ProcMem.Ok ⟨9, 8, 0⟩ ProcMem.oneProc) (argv : List (List UInt8)) :
    Returns (kexec ⟨⟨9, 8, 0⟩, []⟩ [47, 97] (some twoSegments) argv) ProcMem.oneProc
      fun res _ => res.1 = -1 := by
  have hhead : (Elfhdr.decode (readFile twoSegments 0 elfhdrSize)).phnum = 2 ∧
      (Elfhdr.decode (readFile twoSegments 0 elfhdrSize)).phoff % 2 ^ 32 = 64 := by decide +kernel
  obtain ⟨hnew, hU⟩ := (Returns.of_eq execTable_eq).mp
    (procPagetable_runs (hP.holds.subset (Set.empty_subset _)))
  have hL := (Returns.of_eq execLoaded_eq).mp (loadSegments_runs _ _ 0 _ (.of_empty hU))
  rw [kexec, hhead.1, hhead.2]
  refine Returns.ite (fun h => absurd h (by decide +kernel)) fun _ =>
    Returns.ite (fun h => absurd h (by decide +kernel)) fun _ => ?_
  rw [Returns.bind_iff, Returns.of_eq execTable_eq]
  refine Returns.bind_iff.mpr ((Returns.of_eq execLoaded_eq).mpr ?_)
  exact (hL.staged.free_runs hnew).mono fun _ _ h => by rw [h.1]

/-- The hypotheses are met by a process that calls `exec` with this file. -/
theorem exec_safe_and_atomic_segments : ProcMem.Ok ⟨9, 8, 0⟩ ProcMem.oneProc ∧
    (execLoaded.lookup 12 0).isSome ∧
    Returns (kexec ⟨⟨9, 8, 0⟩, []⟩ [47, 97] (some twoSegments) [[97], [98, 99]]) ProcMem.oneProc
      fun res m' => res = (-1, ⟨⟨9, 8, 0⟩, []⟩) ∧ ∀ x, x ∈ m'.free ↔ x ∈ ProcMem.oneProc.free := by
  obtain ⟨_, hP, _⟩ := (Returns.of_eq ProcMem.oneProc_eq).mp
    (ProcMem.allocproc_runs ProcMem.thirtyPages_holds)
  refine ⟨hP, by decide +kernel, ((exec_safe_and_atomic (p := ⟨⟨9, 8, 0⟩, []⟩) hP _ _ _
    (by decide)).and (kexec_twoSegments hP _)).mono ?_⟩
  rintro res m' ⟨h, hbad⟩
  obtain ⟨hres, _, _, _, _, hfree⟩ := h hbad
  exact ⟨Prod.ext hbad hres, hfree⟩

end Xv6Riscv
