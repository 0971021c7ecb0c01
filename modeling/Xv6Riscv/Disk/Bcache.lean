import Xv6Riscv.Lib.DoublyLinked
import Xv6Riscv.Lib.Tally
import Xv6Riscv.Log.Commit

/-!
The buffer cache (`bio.c`).

The buffers are in a list through `prev` and `next`, in the order in which they were last released.
`bget` looks for the block from one end of the list and for an unused buffer from the other one, and
`brelse` moves a buffer that is no longer used to the front. The sections under `bcache.lock` are
functions on the cache; `Bio` has the cache together with the sleep locks, the disk and the
processes that use them, which may be interrupted between these sections.

* `Bio.step`: the steps of the processes. The state carries the history the properties speak about:
  who has pinned what, the data last stored into each block and the times of the releases.
-/

namespace Xv6Riscv

open Function (update update_eq_self update_of_ne update_self)
open DoublyLinked

def nbuf : ℕ := maxopblocks * 3

/-- The fields of `struct buf` that `bcache.lock` and the sleep lock protect. -/
structure Buf where
  valid : Bool
  dev : UInt32
  blockno : Blockno
  refcnt : ℕ
  data : Block

def Buf.key (b : Buf) : UInt32 × Blockno := (b.dev, b.blockno)

/-- The panics of `bio.c`. -/
inductive BioPanic
  /-- "bget: no buffers" -/
  | noBuffers
  /-- "bwrite" -/
  | bwrite
  /-- "brelse" -/
  | brelse
  deriving DecidableEq

/-- `bcache`, but for its lock. -/
structure Bcache where
  links : Links (Fin nbuf)
  buf : Fin nbuf → Buf

namespace Bcache

/-- The cache after `binit`. -/
def binit : Bcache where
  links := (List.finRange nbuf).foldl Links.pushFront Links.empty
  buf _ := { valid := false, dev := 0, blockno := 0, refcnt := 0, data := fun _ => 0 }

def modify (c : Bcache) (b : Fin nbuf) (f : Buf → Buf) : Bcache :=
  { c with buf := update c.buf b (f (c.buf b)) }

/-- The loop that looks for the block. -/
def cached (c : Bcache) (key : UInt32 × Blockno) : Option (Fin nbuf) :=
  Links.find c.links.next (fun b => (c.buf b).dev = key.1 ∧ (c.buf b).blockno = key.2) nbuf
    (c.links.next none)

/-- The loop that looks for an unused buffer. -/
def unused (c : Bcache) : Option (Fin nbuf) :=
  Links.find c.links.prev (fun b => (c.buf b).refcnt = 0) nbuf (c.links.prev none)

/-- `bget`, up to `acquiresleep`. -/
def bget (c : Bcache) (key : UInt32 × Blockno) : Except BioPanic (Fin nbuf × Bcache) :=
  match c.cached key with
  | some b => .ok (b, c.modify b fun x => { x with refcnt := x.refcnt + 1 })
  | none =>
    match c.unused with
    | some b =>
      .ok (b, c.modify b fun x =>
        { x with dev := key.1, blockno := key.2, valid := false, refcnt := 1 })
    | none => .error .noBuffers

/-- `brelse`, after `releasesleep`. -/
def drop (c : Bcache) (b : Fin nbuf) : Bcache :=
  let c := c.modify b fun x => { x with refcnt := x.refcnt - 1 }
  if (c.buf b).refcnt = 0 then { c with links := (c.links.unlink b).pushFront b } else c

def bpin (c : Bcache) (b : Fin nbuf) : Bcache :=
  c.modify b fun x => { x with refcnt := x.refcnt + 1 }

def bunpin (c : Bcache) (b : Fin nbuf) : Bcache :=
  c.modify b fun x => { x with refcnt := x.refcnt - 1 }

/-! ### The list -/

variable {c : Bcache} {l : List (Fin nbuf)} {b : Fin nbuf} {key : UInt32 × Blockno}

/-- **The list has all buffers**, each of them once. -/
structure Listed (c : Bcache) (l : List (Fin nbuf)) : Prop where
  linked : c.links.Linked l
  all : ∀ b, b ∈ l

lemma Listed.length (h : c.Listed l) : l.length = nbuf := by
  have hset : l.toFinset = Finset.univ := Finset.eq_univ_iff_forall.mpr fun b =>
    List.mem_toFinset.mpr (h.all b)
  rw [← List.toFinset_card_of_nodup h.linked.nodup, hset, Finset.card_univ, Fintype.card_fin]

lemma Listed.cached_eq (h : c.Listed l) (key : UInt32 × Blockno) :
    c.cached key = l.find? fun b => (c.buf b).key = key := by
  rw [cached, h.linked.find_next _ h.length.le]
  exact congrArg (l.find? ·) (funext fun b =>
    decide_eq_decide.mpr (Prod.ext_iff (x := (c.buf b).key) (y := key)).symm)

lemma Listed.unused_eq (h : c.Listed l) :
    c.unused = l.reverse.find? fun b => (c.buf b).refcnt = 0 :=
  h.linked.find_prev _ h.length.le

/-- **What `bget` does**: it takes the buffer of the block, or the last one of the list that is
unused, or there is none. -/
lemma Listed.bget_cases (h : c.Listed l) (key : UInt32 × Blockno) :
    (∃ b, (c.buf b).key = key ∧
      c.bget key = .ok (b, c.modify b fun x => { x with refcnt := x.refcnt + 1 })) ∨
    ((∀ b, (c.buf b).key ≠ key) ∧ ∃ b l1 l2, l = l1 ++ b :: l2 ∧ (c.buf b).refcnt = 0 ∧
      (∀ b' ∈ l2, (c.buf b').refcnt ≠ 0) ∧
      c.bget key = .ok (b, c.modify b fun x =>
        { x with dev := key.1, blockno := key.2, valid := false, refcnt := 1 })) ∨
    ((∀ b, (c.buf b).key ≠ key) ∧ (∀ b, (c.buf b).refcnt ≠ 0) ∧
      c.bget key = .error .noBuffers) := by
  rw [bget]
  cases hc : c.cached key with
  | some b =>
    rw [h.cached_eq] at hc
    exact .inl ⟨b, by simpa using List.find?_some hc, rfl⟩
  | none =>
    rw [h.cached_eq, List.find?_eq_none] at hc
    have hkey : ∀ b, (c.buf b).key ≠ key := fun b => by simpa using hc b (h.all b)
    refine .inr ?_
    cases hu : c.unused with
    | some b =>
      rw [h.unused_eq, List.find?_eq_some_iff_append] at hu
      obtain ⟨hzero, l2, l1, hl, hl2⟩ := hu
      refine .inl ⟨hkey, b, l1.reverse, l2.reverse, ?_, by simpa using hzero, ?_, rfl⟩
      · rw [← List.reverse_reverse l, hl]
        simp
      · intro b' hb'
        simpa using hl2 b' (List.mem_reverse.mp hb')
    | none =>
      rw [h.unused_eq, List.find?_eq_none] at hu
      exact .inr ⟨hkey, fun b => by simpa using hu b (List.mem_reverse.mpr (h.all b)), rfl⟩

lemma Listed.modify (h : c.Listed l) (b : Fin nbuf) (f : Buf → Buf) : (c.modify b f).Listed l :=
  ⟨h.linked, h.all⟩

lemma modify_self (c : Bcache) (b : Fin nbuf) (f : Buf → Buf) :
    (c.modify b f).buf b = f (c.buf b) := update_self ..

lemma modify_of_ne {b' : Fin nbuf} (hb : b' ≠ b) (f : Buf → Buf) :
    (c.modify b f).buf b' = c.buf b' := update_of_ne hb ..

/-- The buffer `bget` returns: that of the block, which is counted once more, or the last one of the
list that is unused, which is now the block's. -/
lemma Listed.bget_ok {c' : Bcache} (h : c.Listed l) (hget : c.bget key = .ok (b, c')) :
    c'.links = c.links ∧
    (((c.buf b).key = key ∧ ∀ b', c'.buf b' =
        { c.buf b' with refcnt := (c.buf b').refcnt + if b' = b then 1 else 0 }) ∨
      ((∀ b', (c.buf b').key ≠ key) ∧ (c.buf b).refcnt = 0 ∧
        (∃ l1 l2, l = l1 ++ b :: l2 ∧ ∀ b' ∈ l2, (c.buf b').refcnt ≠ 0) ∧
        c'.buf b = { c.buf b with dev := key.1, blockno := key.2, valid := false, refcnt := 1 } ∧
        ∀ b' ≠ b, c'.buf b' = c.buf b')) := by
  rcases h.bget_cases key with ⟨b0, hkey, heq⟩ | ⟨hkey, b0, l1, l2, hl, hzero, hl2, heq⟩ |
    ⟨-, -, heq⟩
  · obtain ⟨rfl, rfl⟩ := Prod.mk.inj (Except.ok.inj (heq.symm.trans hget))
    refine ⟨rfl, .inl ⟨hkey, fun b' => ?_⟩⟩
    rcases eq_or_ne b' b0 with rfl | hb'
    · rw [modify_self, if_pos rfl]
    · rw [modify_of_ne hb', if_neg hb']
      rfl
  · obtain ⟨rfl, rfl⟩ := Prod.mk.inj (Except.ok.inj (heq.symm.trans hget))
    exact ⟨rfl, .inr ⟨hkey, hzero, ⟨l1, l2, hl, hl2⟩, modify_self ..,
      fun b' hb' => modify_of_ne hb' _⟩⟩
  · cases heq.symm.trans hget

lemma drop_buf (c : Bcache) (b : Fin nbuf) :
    (c.drop b).buf = (c.modify b fun x => { x with refcnt := x.refcnt - 1 }).buf := by
  rw [drop]
  split_ifs <;> rfl

/-- **A buffer that is no longer used** goes to the front of the list. -/
lemma Listed.drop (h : c.Listed l) (b : Fin nbuf) :
    ((c.buf b).refcnt - 1 = 0 ∧ (c.drop b).Listed (b :: l.erase b)) ∨
      ((c.buf b).refcnt - 1 ≠ 0 ∧ (c.drop b).Listed l) := by
  rw [Bcache.drop, modify_self]
  split_ifs with hzero
  · refine .inl ⟨hzero, ?_, fun b' => ?_⟩
    · obtain ⟨l1, l2, hb, hl, herase⟩ := List.exists_erase_eq (h.all b)
      have hlinked := h.linked
      rw [hl] at hlinked
      rw [herase]
      refine hlinked.unlink.pushFront fun hmem => ?_
      rcases List.mem_append.mp hmem with hmem | hmem
      · exact hb hmem
      · exact (List.nodup_cons.mp (List.nodup_append.mp hlinked.nodup).2.1).1 hmem
    · rcases eq_or_ne b' b with rfl | hne
      · exact List.mem_cons_self
      · exact List.mem_cons_of_mem _ ((List.mem_erase_of_ne hne).mpr (h.all b'))
  · exact .inr ⟨hzero, h.modify b _⟩

lemma listed_binit : binit.Listed (List.finRange nbuf).reverse := by
  have hpush : ∀ (l l' : List (Fin nbuf)) (k : Links (Fin nbuf)), k.Linked l' → l.Nodup →
      (∀ b ∈ l, b ∉ l') → (l.foldl Links.pushFront k).Linked (l.reverse ++ l') := by
    intro l
    induction l with
    | nil => exact fun l' k hk _ _ => hk
    | cons a l ih =>
      intro l' k hk hnodup hdisj
      obtain ⟨ha, hnodup⟩ := List.nodup_cons.mp hnodup
      rw [List.foldl_cons, List.reverse_cons, List.append_assoc]
      refine ih (a :: l') _ (hk.pushFront (hdisj a List.mem_cons_self)) hnodup fun b hb => ?_
      rw [List.mem_cons, not_or]
      exact ⟨fun hba => ha (hba ▸ hb), hdisj b (List.mem_cons_of_mem _ hb)⟩
  refine ⟨?_, fun b => List.mem_reverse.mpr (List.mem_finRange b)⟩
  rw [← List.append_nil (List.finRange nbuf).reverse]
  exact hpush _ [] _ Links.linked_empty (List.nodup_finRange nbuf) (by simp)

end Bcache

/-! ### The processes -/

/-- Where a process is in `bio.c`. -/
inductive BioPc
  | idle
  /-- `bget`, in `acquiresleep` -/
  | waiting (b : Fin nbuf)
  /-- `bread`, in `virtio_disk_rw` -/
  | filling (b : Fin nbuf)
  /-- `brelse`, after `releasesleep` -/
  | releasing (b : Fin nbuf)
  deriving DecidableEq

/-- The buffer whose count includes the process, though it does not hold the sleep lock. -/
def BioPc.ref : BioPc → Option (Fin nbuf)
  | waiting b | releasing b => some b
  | idle | filling _ => none

/-- The buffers with their sleep locks, the disk and the processes. `pins` counts the calls of
`bpin` less those of `bunpin`, `latest` is what was last stored into each block, and `released` the
time of the last `brelse` of each buffer. -/
structure Bio (ι : Type*) where
  cache : Bcache
  lock : Fin nbuf → Option ι
  pc : ι → BioPc
  disk : UInt32 × Blockno → Block
  pins : Fin nbuf → ℕ
  latest : UInt32 × Blockno → Block
  released : Fin nbuf → ℕ
  clock : ℕ

/-- The steps, by the process that makes them. -/
inductive BioAction (ι : Type*)
  /-- `bread` is called, up to `acquiresleep` -/
  | bread (p : ι) (key : UInt32 × Blockno)
  /-- `acquiresleep` returns -/
  | acquire (p : ι)
  /-- `virtio_disk_rw` returns to `bread` -/
  | fill (p : ι)
  /-- the data of the buffer is changed -/
  | store (p : ι) (b : Fin nbuf) (data : Block)
  | bwrite (p : ι) (b : Fin nbuf)
  /-- `brelse` is called, up to `releasesleep` -/
  | brelse (p : ι) (b : Fin nbuf)
  /-- the rest of `brelse` -/
  | drop (p : ι)
  | bpin (p : ι) (b : Fin nbuf)
  | bunpin (p : ι) (b : Fin nbuf)

namespace Bio

variable {ι : Type*} [DecidableEq ι]

/-- After `binit`, with the given disk. -/
def init (ι : Type*) (disk : UInt32 × Blockno → Block) : Bio ι where
  cache := .binit
  lock _ := none
  pc _ := .idle
  disk := disk
  pins _ := 0
  latest := disk
  released _ := 0
  clock := 0

/-- The buffer number `b`. -/
def buf (s : Bio ι) (b : Fin nbuf) : Buf := s.cache.buf b

/-- Process `p` goes on to `x`. -/
def goto (s : Bio ι) (p : ι) (x : BioPc) : Bio ι := { s with pc := update s.pc p x }

/-- One step, where it is possible: the state after it, or the panic. -/
def step (s : Bio ι) : BioAction ι → Option (Except BioPanic (Bio ι))
  | .bread p key =>
    if s.pc p = .idle then
      some ((s.cache.bget key).map fun (b, c) => { s.goto p (.waiting b) with cache := c })
    else none
  | .acquire p =>
    match s.pc p with
    | .waiting b =>
      if s.lock b = none then
        some (.ok { s.goto p (if (s.buf b).valid then .idle else .filling b) with
          lock := update s.lock b (some p) })
      else none
    | _ => none
  | .fill p =>
    match s.pc p with
    | .filling b =>
      some (.ok { s.goto p .idle with
        cache := s.cache.modify b fun x => { x with data := s.disk x.key, valid := true } })
    | _ => none
  | .store p b data =>
    if s.pc p = .idle ∧ s.lock b = some p then
      some (.ok { s with
        cache := s.cache.modify b fun x => { x with data := data }
        latest := update s.latest (s.buf b).key data })
    else none
  | .bwrite p b =>
    if s.pc p = .idle then
      if s.lock b = some p then
        some (.ok { s with disk := update s.disk (s.buf b).key (s.buf b).data })
      else some (.error .bwrite)
    else none
  | .brelse p b =>
    if s.pc p = .idle then
      if s.lock b = some p then
        some (.ok { s.goto p (.releasing b) with lock := update s.lock b none })
      else some (.error .brelse)
    else none
  | .drop p =>
    match s.pc p with
    | .releasing b =>
      some (.ok { s.goto p .idle with
        cache := s.cache.drop b
        released := update s.released b (s.clock + 1)
        clock := s.clock + 1 })
    | _ => none
  | .bpin p b =>
    if s.pc p = .idle then
      some (.ok { s with
        cache := s.cache.bpin b
        pins := update s.pins b (s.pins b + 1) })
    else none
  | .bunpin p b =>
    if s.pc p = .idle then
      some (.ok { s with
        cache := s.cache.bunpin b
        pins := update s.pins b (s.pins b - 1) })
    else none

/-- The steps that do not panic, with their conditions. -/
inductive Step (s : Bio ι) : BioAction ι → Bio ι → Prop
  | bread {p : ι} {key : UInt32 × Blockno} {b : Fin nbuf} {c : Bcache} (hpc : s.pc p = .idle)
      (hget : s.cache.bget key = .ok (b, c)) :
      Step s (.bread p key) { s.goto p (.waiting b) with cache := c }
  | acquire {p : ι} {b : Fin nbuf} (hpc : s.pc p = .waiting b) (hlock : s.lock b = none) :
      Step s (.acquire p) { s.goto p (if (s.buf b).valid then .idle else .filling b) with
        lock := update s.lock b (some p) }
  | fill {p : ι} {b : Fin nbuf} (hpc : s.pc p = .filling b) :
      Step s (.fill p) { s.goto p .idle with
        cache := s.cache.modify b fun x => { x with data := s.disk x.key, valid := true } }
  | store {p : ι} {b : Fin nbuf} {data : Block} (hpc : s.pc p = .idle) (hlock : s.lock b = some p) :
      Step s (.store p b data) { s with
        cache := s.cache.modify b fun x => { x with data := data }
        latest := update s.latest (s.buf b).key data }
  | bwrite {p : ι} {b : Fin nbuf} (hpc : s.pc p = .idle) (hlock : s.lock b = some p) :
      Step s (.bwrite p b) { s with disk := update s.disk (s.buf b).key (s.buf b).data }
  | brelse {p : ι} {b : Fin nbuf} (hpc : s.pc p = .idle) (hlock : s.lock b = some p) :
      Step s (.brelse p b) { s.goto p (.releasing b) with lock := update s.lock b none }
  | drop {p : ι} {b : Fin nbuf} (hpc : s.pc p = .releasing b) :
      Step s (.drop p) { s.goto p .idle with
        cache := s.cache.drop b
        released := update s.released b (s.clock + 1)
        clock := s.clock + 1 }
  | bpin {p : ι} {b : Fin nbuf} (hpc : s.pc p = .idle) :
      Step s (.bpin p b) { s with
        cache := s.cache.bpin b
        pins := update s.pins b (s.pins b + 1) }
  | bunpin {p : ι} {b : Fin nbuf} (hpc : s.pc p = .idle) :
      Step s (.bunpin p b) { s with
        cache := s.cache.bunpin b
        pins := update s.pins b (s.pins b - 1) }

variable {a : BioAction ι}

/-- **What a step can do.** -/
lemma Step.of_step {s t : Bio ι} (h : s.step a = some (.ok t)) : Step s a t := by
  cases a with
  | bread p key =>
    rw [step] at h
    split_ifs at h with hpc
    cases hget : s.cache.bget key with
    | error e =>
      rw [hget] at h
      cases h
    | ok r =>
      rw [hget] at h
      cases h
      exact .bread hpc hget
  | acquire p =>
    rw [step] at h
    split at h
    · rename_i b hpc
      by_cases hlock : s.lock b = none
      · rw [if_pos hlock] at h
        cases h
        exact .acquire hpc hlock
      · rw [if_neg hlock] at h
        cases h
    · cases h
  | fill p =>
    rw [step] at h
    split at h
    · rename_i b hpc
      cases h
      exact .fill hpc
    · cases h
  | store p b data =>
    rw [step] at h
    split_ifs at h with hpc
    cases h
    exact .store hpc.1 hpc.2
  | bwrite p b =>
    rw [step] at h
    split_ifs at h with hpc hlock
    · cases h
      exact .bwrite hpc hlock
    · cases h
  | brelse p b =>
    rw [step] at h
    split_ifs at h with hpc hlock
    · cases h
      exact .brelse hpc hlock
    · cases h
  | drop p =>
    rw [step] at h
    split at h
    · rename_i b hpc
      cases h
      exact .drop hpc
    · cases h
  | bpin p b =>
    rw [step] at h
    split_ifs at h with hpc
    cases h
    exact .bpin hpc
  | bunpin p b =>
    rw [step] at h
    split_ifs at h with hpc
    cases h
    exact .bunpin hpc

/-- The states of the runs whose steps all satisfy `P`. -/
inductive Reachable (P : Bio ι → BioAction ι → Prop) (disk : UInt32 × Blockno → Block) :
    Bio ι → Prop
  | init : Reachable P disk (init ι disk)
  | step {s t : Bio ι} {a : BioAction ι} (hs : Reachable P disk s) (ha : P s a)
      (h : s.step a = some (.ok t)) : Reachable P disk t

/-- Only the holder of a buffer pins it, or takes back what was pinned. -/
def Proper (s : Bio ι) : BioAction ι → Prop
  | .bpin p b => s.lock b = some p
  | .bunpin p b => s.lock b = some p ∧ 0 < s.pins b
  | _ => True

/-- The list has all buffers, and the unused ones are in the order of their releases. -/
def Ordered (s : Bio ι) : Prop :=
  ∃ l, s.cache.Listed l ∧ l.Pairwise fun a b =>
    (s.buf a).refcnt = 0 → (s.buf b).refcnt = 0 → s.released b ≤ s.released a

/-- The count a buffer should have: of the processes that wait for it or release it, of the holder
and of the pins. -/
def refs [Fintype ι] (s : Bio ι) (b : Fin nbuf) : ℤ :=
  Tally.tally (fun p => (s.pc p).ref) b + (if s.lock b = none then 0 else 1) + s.pins b

/-- **The invariant**: the list is in order, the counts are right, and no block has two buffers. -/
structure Inv [Fintype ι] (s : Bio ι) : Prop where
  order : s.Ordered
  refcnt : ∀ b, ((s.buf b).refcnt : ℤ) = s.refs b
  filling : ∀ p b, s.pc p = .filling b → s.lock b = some p
  released : ∀ b, s.released b ≤ s.clock
  unique : ∀ a b, (s.buf a).key = (s.buf b).key → (s.buf a).dev ≠ 0 → a = b

/-! ### The steps keep the invariant -/

variable {s t : Bio ι} {p : ι} {b : Fin nbuf}

omit [DecidableEq ι] in
lemma Ordered.congr (h : s.Ordered) (hlinks : t.cache.links = s.cache.links)
    (hrel : t.released = s.released) (hzero : ∀ b, (t.buf b).refcnt = 0 → (s.buf b).refcnt = 0) :
    t.Ordered := by
  obtain ⟨l, hl, hpair⟩ := h
  refine ⟨l, ⟨hlinks ▸ hl.linked, hl.all⟩, hpair.imp fun hab ha hb => ?_⟩
  rw [hrel]
  exact hab (hzero _ ha) (hzero _ hb)

lemma Ordered.drop (h : s.Ordered) (hrel : ∀ b, s.released b ≤ s.clock) (p : ι) (b : Fin nbuf) :
    Ordered { s.goto p .idle with
      cache := s.cache.drop b
      released := update s.released b (s.clock + 1)
      clock := s.clock + 1 } := by
  obtain ⟨l, hl, hpair⟩ := h
  -- elsewhere nothing changes
  have hne : ∀ b' ≠ b, ((s.cache.drop b).buf b').refcnt = (s.buf b').refcnt := by
    intro b' hb'
    rw [Bcache.drop_buf, Bcache.modify_of_ne hb']
    rfl
  have hself : ((s.cache.drop b).buf b).refcnt = (s.buf b).refcnt - 1 := by
    rw [Bcache.drop_buf, Bcache.modify_self]
    rfl
  rcases hl.drop b with ⟨hzero, hl'⟩ | ⟨hpos, hl'⟩
  · refine ⟨b :: l.erase b, hl', List.pairwise_cons.mpr ⟨fun b' hb' _ _ => ?_, ?_⟩⟩
    · have hb'ne : b' ≠ b := fun he => (hl.linked.nodup.not_mem_erase) (he ▸ hb')
      change update s.released b _ b' ≤ update s.released b _ b
      rw [update_of_ne hb'ne, update_self]
      exact (hrel b').trans (Nat.le_succ _)
    · refine (hpair.sublist (List.erase_sublist ..)).imp_of_mem fun {a c} ha hc hac ha0 hc0 => ?_
      have hane : a ≠ b := fun he => (hl.linked.nodup.not_mem_erase) (he ▸ ha)
      have hcne : c ≠ b := fun he => (hl.linked.nodup.not_mem_erase) (he ▸ hc)
      change update s.released b _ c ≤ update s.released b _ a
      rw [update_of_ne hcne, update_of_ne hane]
      exact hac ((hne a hane).symm.trans ha0) ((hne c hcne).symm.trans hc0)
  · refine ⟨l, hl', hpair.imp fun {a c} hac ha0 hc0 => ?_⟩
    have hb0 : ∀ a, ((s.cache.drop b).buf a).refcnt = 0 → a ≠ b := by
      rintro a ha rfl
      exact hpos (hself.symm.trans ha)
    change update s.released b _ c ≤ update s.released b _ a
    rw [update_of_ne (hb0 c hc0), update_of_ne (hb0 a ha0)]
    exact hac ((hne a (hb0 a ha0)).symm.trans ha0) ((hne c (hb0 c hc0)).symm.trans hc0)

section Invariant

variable [Fintype ι]

variable {x : BioPc}

lemma refs_sub (hpc : t.pc = update s.pc p x) (b : Fin nbuf) :
    t.refs b - s.refs b = Tally.one x.ref b - Tally.one (s.pc p).ref b +
      ((if t.lock b = none then 0 else 1) - (if s.lock b = none then 0 else 1)) +
      (t.pins b - s.pins b) := by
  have hupdate : (fun q => (t.pc q).ref) = update (fun q => (s.pc q).ref) p x.ref := by
    rw [hpc]
    exact funext (Function.apply_update (fun _ x => x.ref) s.pc p x)
  rw [refs, refs, hupdate, Tally.tally_update, Pi.add_apply, Pi.sub_apply]
  ring

omit [DecidableEq ι] in
lemma refs_nonneg (s : Bio ι) (b : Fin nbuf) :
    (if s.lock b = none then 0 else 1) ≤ s.refs b ∧ (s.pins b : ℤ) ≤ s.refs b ∧
      Tally.tally (fun p => (s.pc p).ref) b ≤ s.refs b := by
  have htally := Tally.tally_nonneg (fun p => (s.pc p).ref) b
  rw [refs]
  split_ifs <;> refine ⟨?_, ?_, ?_⟩ <;> omega

omit [DecidableEq ι] in
lemma refs_pos_of_lock (hlock : s.lock b = some p) : 0 < s.refs b := by
  have h := (s.refs_nonneg b).1
  rw [if_neg (by rw [hlock]; exact Option.some_ne_none p)] at h
  omega

omit [DecidableEq ι] in
lemma refs_pos_of_ref (href : (s.pc p).ref = some b) : 0 < s.refs b := by
  have h := (s.refs_nonneg b).2.2
  have hone := Tally.one_le_tally (f := fun p => (s.pc p).ref) href
  omega

lemma Inv.refcnt_of (h : s.Inv) (hpc : t.pc = update s.pc p x)
    (hcnt : ∀ b, ((t.buf b).refcnt : ℤ) - (s.buf b).refcnt = Tally.one x.ref b -
      Tally.one (s.pc p).ref b +
      ((if t.lock b = none then 0 else 1) - (if s.lock b = none then 0 else 1)) +
      (t.pins b - s.pins b)) (b : Fin nbuf) : ((t.buf b).refcnt : ℤ) = t.refs b := by
  have hb := hcnt b
  rw [← refs_sub hpc, h.refcnt] at hb
  omega

lemma Inv.filling_of (h : s.Inv) (hpc : t.pc = update s.pc p x)
    (hlock : ∀ q ≠ p, ∀ b, s.lock b = some q → t.lock b = some q)
    (hx : ∀ b, x = .filling b → t.lock b = some p) (q : ι) (b : Fin nbuf) (hq : t.pc q = .filling b)
    : t.lock b = some q := by
  rw [hpc] at hq
  rcases Upd.cases id hq with ⟨rfl, hx'⟩ | ⟨hqp, hq⟩
  · exact hx b hx'
  · exact hlock q hqp b (h.filling q b hq)

lemma Inv.bread {key : UInt32 × Blockno} (h : s.Inv) (hidle : s.pc p = .idle)
    (hget : s.cache.bget key = .ok (b, t.cache)) (hpc : t.pc = update s.pc p (.waiting b))
    (hlock : t.lock = s.lock) (hpins : t.pins = s.pins) (hrel : t.released = s.released)
    (hclock : t.clock = s.clock) : t.Inv := by
  obtain ⟨l, hl, hpair⟩ := h.order
  have hfilling := h.filling_of hpc (fun q _ b' hb' => hlock ▸ hb') nofun
  have hrel' : ∀ b, t.released b ≤ t.clock := by
    rw [hrel, hclock]
    exact h.released
  have hcount : (∀ b', ((t.buf b').refcnt : ℤ) - (s.buf b').refcnt = Tally.one (some b) b') →
      ∀ b', ((t.buf b').refcnt : ℤ) = t.refs b' := by
    intro hcnt
    refine h.refcnt_of hpc fun b' => ?_
    rw [hcnt, hlock, hpins, hidle]
    simp [BioPc.ref]
  obtain ⟨hlinks, hhit | ⟨hkey, hzero, -, hself, hne⟩⟩ := hl.bget_ok hget
  · -- the block has a buffer
    have hbuf : ∀ b', t.buf b' =
        { s.buf b' with refcnt := (s.buf b').refcnt + if b' = b then 1 else 0 } := hhit.2
    refine ⟨h.order.congr hlinks hrel fun b' hb' => ?_, hcount fun b' => ?_, hfilling, hrel',
      fun a b' hab ha => ?_⟩
    · rw [hbuf] at hb'
      exact (Nat.add_eq_zero_iff.mp hb').1
    · rw [hbuf, Tally.one_some, Pi.single_apply]
      push_cast
      ring
    · rw [hbuf, hbuf] at hab
      rw [hbuf] at ha
      exact h.unique a b' hab ha
  · -- an unused buffer is recycled
    change t.buf b = { s.buf b with
      dev := key.1, blockno := key.2, valid := false, refcnt := 1 } at hself
    change ∀ b' ≠ b, t.buf b' = s.buf b' at hne
    refine ⟨h.order.congr hlinks hrel fun b' hb' => ?_, hcount fun b' => ?_, hfilling, hrel',
      fun a b' hab ha => ?_⟩
    · rcases eq_or_ne b' b with rfl | hb'ne
      · exact hzero
      · rwa [hne b' hb'ne] at hb'
    · rcases eq_or_ne b' b with rfl | hb'ne
      · rw [hself, Tally.one_some, Pi.single_eq_same, buf, hzero]
        rfl
      · rw [hne b' hb'ne, Tally.one_some, Pi.single_eq_of_ne hb'ne, sub_self]
    · rcases eq_or_ne a b with rfl | hane
      · rcases eq_or_ne b' a with rfl | hb'ne
        · rfl
        · rw [hself, hne b' hb'ne] at hab
          exact absurd hab.symm (hkey b')
      · rw [hne a hane] at hab ha
        rcases eq_or_ne b' b with rfl | hb'ne
        · rw [hself] at hab
          exact absurd hab (hkey a)
        · rw [hne b' hb'ne] at hab
          exact h.unique a b' hab ha

lemma Inv.same (h : s.Inv) (hpc : t.pc = update s.pc p x) (hlinks : t.cache.links = s.cache.links)
    (hbuf : ∀ b, (t.buf b).refcnt = (s.buf b).refcnt ∧ (t.buf b).key = (s.buf b).key)
    (hpins : t.pins = s.pins) (hrel : t.released = s.released) (hclock : t.clock = s.clock)
    (hbal : ∀ b, Tally.one x.ref b - Tally.one (s.pc p).ref b +
      ((if t.lock b = none then 0 else 1) - (if s.lock b = none then 0 else 1)) = 0)
    (hlock : ∀ q ≠ p, ∀ b, s.lock b = some q → t.lock b = some q)
    (hx : ∀ b, x = .filling b → t.lock b = some p) : t.Inv where
  order := h.order.congr hlinks hrel fun b hb => (hbuf b).1.symm.trans hb
  refcnt := h.refcnt_of hpc fun b => by rw [hbal, (hbuf b).1, hpins, sub_self, sub_self, add_zero]
  filling := h.filling_of hpc hlock hx
  released := by
    rw [hrel, hclock]
    exact h.released
  unique a b hab ha := by
    rw [(hbuf a).2, (hbuf b).2] at hab
    exact h.unique a b hab fun hz => ha ((congrArg Prod.fst (hbuf a).2).trans hz)

lemma Inv.acquire (h : s.Inv) (hwait : s.pc p = .waiting b) (hfree : s.lock b = none)
    (hx : x = .idle ∨ x = .filling b) :
    Inv { s.goto p x with lock := update s.lock b (some p) } := by
  refine h.same (p := p) rfl rfl (fun b' => ⟨rfl, rfl⟩) rfl rfl rfl (fun b' => ?_)
    (fun q _ b' hb' => ?_) fun b' hb' => ?_
  · have href : x.ref = none := by rcases hx with rfl | rfl <;> rfl
    rw [href, hwait]
    rcases eq_or_ne b' b with rfl | hb'
    · simp [BioPc.ref, hfree]
    · simp [BioPc.ref, hb']
  · rcases eq_or_ne b' b with rfl | hb'ne
    · rw [hfree] at hb'
      cases hb'
    · exact (update_of_ne hb'ne ..).trans hb'
  · rcases hx with rfl | rfl
    · cases hb'
    · cases hb'
      exact update_self ..

lemma Inv.brelse (h : s.Inv) (hidle : s.pc p = .idle) (hheld : s.lock b = some p) :
    Inv { s.goto p (.releasing b) with lock := update s.lock b none } := by
  refine h.same (p := p) rfl rfl (fun b' => ⟨rfl, rfl⟩) rfl rfl rfl (fun b' => ?_)
    (fun q hq b' hb' => ?_) nofun
  · rw [hidle]
    rcases eq_or_ne b' b with rfl | hb'
    · simp [BioPc.ref, hheld]
    · simp [BioPc.ref, hb']
  · rcases eq_or_ne b' b with rfl | hb'ne
    · rw [hheld] at hb'
      cases hb'
      exact absurd rfl hq
    · exact (update_of_ne hb'ne ..).trans hb'

variable {f : Buf → Buf}

lemma Inv.modify (h : s.Inv) (hf : ∀ y, (f y).refcnt = y.refcnt ∧ (f y).key = y.key)
    (hpc : t.pc = update s.pc p x) (href : x.ref = (s.pc p).ref) (hx : ∀ b, x ≠ .filling b)
    (hcache : t.cache = s.cache.modify b f) (hlock : t.lock = s.lock) (hpins : t.pins = s.pins)
    (hrel : t.released = s.released) (hclock : t.clock = s.clock) : t.Inv := by
  refine h.same hpc (by rw [hcache]; rfl) (fun b' => ?_) hpins hrel hclock (fun b' => ?_)
    (fun q _ b' hb' => hlock ▸ hb') fun b' hb' => absurd hb' (hx b')
  · rw [buf, hcache]
    rcases eq_or_ne b' b with rfl | hb'
    · rw [Bcache.modify_self]
      exact hf _
    · rw [Bcache.modify_of_ne hb']
      exact ⟨rfl, rfl⟩
  · rw [href, hlock, sub_self, sub_self, add_zero]

lemma Inv.drop (h : s.Inv) (hpc : s.pc p = .releasing b) :
    Inv { s.goto p .idle with
      cache := s.cache.drop b
      released := update s.released b (s.clock + 1)
      clock := s.clock + 1 } := by
  have hpos : 0 < (s.buf b).refcnt := by
    have hrefs := refs_pos_of_ref (s := s) (p := p) (b := b) (by rw [hpc]; rfl)
    have hcnt := h.refcnt b
    omega
  have hbuf : ∀ b', (s.cache.drop b).buf b' =
      { s.buf b' with refcnt := (s.buf b').refcnt - if b' = b then 1 else 0 } := by
    intro b'
    rw [Bcache.drop_buf]
    rcases eq_or_ne b' b with rfl | hb'
    · rw [Bcache.modify_self, if_pos rfl]
      rfl
    · rw [Bcache.modify_of_ne hb', if_neg hb']
      rfl
  refine ⟨h.order.drop h.released p b, h.refcnt_of rfl fun b' => ?_, h.filling_of rfl
    (fun q _ b' hb' => hb') nofun, fun b' => ?_, fun a b' hab ha => ?_⟩
  · change (((s.cache.drop b).buf b').refcnt : ℤ) - _ = _ - _ +
      ((if s.lock b' = none then 0 else 1) - (if s.lock b' = none then 0 else 1)) +
      ((s.pins b' : ℤ) - s.pins b')
    rw [sub_self, sub_self, hbuf, hpc]
    rcases eq_or_ne b' b with rfl | hb'
    · simp only [BioPc.ref, Tally.one_none, Tally.one_some, Pi.single_eq_same, if_true,
        Pi.zero_apply]
      omega
    · simp [BioPc.ref, hb']
  · dsimp only
    rcases eq_or_ne b' b with rfl | hb'
    · rw [update_self]
    · rw [update_of_ne hb']
      exact (h.released b').trans (Nat.le_succ _)
  · rw [buf, buf, hbuf, hbuf] at hab
    rw [buf, hbuf] at ha
    exact h.unique a b' hab ha

lemma Inv.pin {n : ℕ} (h : s.Inv) (hkey : ∀ y, (f y).key = y.key)
    (hpos : 0 < (f (s.buf b)).refcnt)
    (hcnt : ((f (s.buf b)).refcnt : ℤ) - (s.buf b).refcnt = (n : ℤ) - s.pins b) (p : ι) :
    Inv { s with cache := s.cache.modify b f, pins := update s.pins b n } := by
  have hself : (s.cache.modify b f).buf b = f (s.buf b) := Bcache.modify_self ..
  have hne : ∀ b' ≠ b, (s.cache.modify b f).buf b' = s.buf b' := fun b' hb' =>
    Bcache.modify_of_ne hb' ..
  have hkeys : ∀ b', ((s.cache.modify b f).buf b').key = (s.buf b').key := by
    intro b'
    rcases eq_or_ne b' b with rfl | hb'
    · rw [hself, hkey]
    · rw [hne b' hb']
  refine ⟨h.order.congr rfl rfl fun b' hb' => ?_,
    h.refcnt_of (p := p) (update_eq_self ..).symm fun b' => ?_, h.filling, h.released,
    fun a b' hab ha => ?_⟩
  · rw [buf] at hb'
    rcases eq_or_ne b' b with rfl | hb'ne
    · rw [hself] at hb'
      omega
    · rwa [hne b' hb'ne] at hb'
  · rw [sub_self, sub_self, zero_add, zero_add, buf]
    dsimp only
    rcases eq_or_ne b' b with rfl | hb'
    · rw [hself, update_self, hcnt]
    · rw [hne b' hb', update_of_ne hb', sub_self, sub_self]
  · rw [buf, buf, hkeys, hkeys] at hab
    exact h.unique a b' hab fun hz => ha ((congrArg Prod.fst (hkeys a)).trans hz)

/-- **Every step keeps the invariant.** -/
lemma Inv.step (h : s.Inv) (ha : s.Proper a) (hstep : s.step a = some (.ok t)) : t.Inv := by
  cases Step.of_step hstep with
  | bread hpc hget => exact h.bread hpc hget rfl rfl rfl rfl rfl
  | @acquire p b hpc hlock =>
    refine h.acquire hpc hlock ?_
    cases (s.buf b).valid
    · exact .inr rfl
    · exact .inl rfl
  | @fill p b hpc =>
    exact h.modify (f := fun x => { x with data := s.disk x.key, valid := true })
      (fun y => ⟨rfl, rfl⟩) rfl (by rw [hpc]; rfl) nofun rfl rfl rfl rfl rfl
  | @store p b data hpc hlock =>
    refine h.modify (p := p) (x := s.pc p) (f := fun x => { x with data := data })
      (fun y => ⟨rfl, rfl⟩) ?_ rfl ?_ rfl rfl rfl rfl rfl
    · rw [update_eq_self]
    · rw [hpc]
      exact nofun
  | @bwrite p b hpc hlock =>
    refine h.same (p := p) (x := s.pc p) ?_ rfl (fun b' => ⟨rfl, rfl⟩) rfl rfl rfl (fun b' => ?_)
      (fun _ _ _ hb' => hb') fun b' hb' => h.filling p b' hb'
    · rw [update_eq_self]
    · dsimp only
      rw [sub_self, sub_self, add_zero]
  | brelse hpc hlock => exact h.brelse hpc hlock
  | drop hpc => exact h.drop hpc
  | @bpin p b hpc =>
    refine h.pin (f := fun x => { x with refcnt := x.refcnt + 1 }) (n := s.pins b + 1)
      (fun y => rfl) (Nat.succ_pos _) ?_ p
    push_cast
    ring
  | @bunpin p b hpc =>
    obtain ⟨hheld, hpin⟩ := ha
    -- the holder and the pin count
    have htwo : 2 ≤ (s.buf b).refcnt := by
      have hcnt := h.refcnt b
      have htally := Tally.tally_nonneg (fun p => (s.pc p).ref) b
      rw [refs, if_neg (by rw [hheld]; exact Option.some_ne_none p)] at hcnt
      omega
    refine h.pin (f := fun x => { x with refcnt := x.refcnt - 1 }) (n := s.pins b - 1)
      (fun y => rfl) (Nat.sub_pos_of_lt htwo) ?_ p
    dsimp only
    omega

omit [DecidableEq ι] in
lemma inv_init (disk : UInt32 × Blockno → Block) : (init ι disk).Inv where
  order := ⟨_, Bcache.listed_binit, List.pairwise_of_forall fun _ _ _ _ => le_rfl⟩
  refcnt b := by
    have hzero : refs (init ι disk) b = 0 := by
      simp [refs, init, BioPc.ref]
    rw [hzero]
    rfl
  filling _ _ h := by cases h
  released _ := le_rfl
  unique _ _ _ h := absurd rfl h

/-- **The invariant holds in every state**, if only holders pin and unpin. -/
lemma Reachable.inv {P : Bio ι → BioAction ι → Prop} (hP : ∀ s a, P s a → s.Proper a)
    {disk : UInt32 × Blockno → Block} (h : Reachable P disk s) : s.Inv := by
  induction h with
  | init => exact inv_init disk
  | step _ ha hstep ih => exact ih.step (hP _ _ ha) hstep

/-! ### Blocks and counts after a step -/

omit [DecidableEq ι] [Fintype ι] in
lemma modify_key (hf : ∀ y, (f y).key = y.key ∧ (y.valid = true → (f y).valid = true)) (c : Bcache)
    (b b' : Fin nbuf) : ((c.modify b f).buf b').key = (c.buf b').key ∧
      ((c.buf b').valid = true → ((c.modify b f).buf b').valid = true) := by
  rcases eq_or_ne b' b with rfl | hb'
  · rw [Bcache.modify_self]
    exact hf _
  · rw [Bcache.modify_of_ne hb']
    exact ⟨rfl, id⟩

/-- **Only `bread` gives a buffer to another block**: an unused one to a block that has none. -/
lemma Inv.step_keys (h : s.Inv) (hstep : s.step a = some (.ok t)) :
    (∀ b, (t.buf b).key = (s.buf b).key ∧ ((s.buf b).valid = true → (t.buf b).valid = true)) ∨
      ∃ p key b, a = .bread p key ∧ (∀ b', (s.buf b').key ≠ key) ∧ (s.buf b).refcnt = 0 ∧
        (t.buf b).key = key ∧ ∀ b' ≠ b, (t.buf b').key = (s.buf b').key ∧
          ((s.buf b').valid = true → (t.buf b').valid = true) := by
  cases Step.of_step hstep with
  | @bread p key b0 c hpc hget =>
    obtain ⟨l, hl, -⟩ := h.order
    obtain ⟨-, ⟨-, hbuf⟩ | ⟨hkey, hzero, -, hself, hne⟩⟩ := hl.bget_ok hget
    · refine .inl fun b => ?_
      rw [buf, hbuf]
      exact ⟨rfl, id⟩
    · refine .inr ⟨p, key, b0, rfl, hkey, hzero, by rw [buf, hself]; rfl, fun b' hb' => ?_⟩
      rw [buf, hne b' hb']
      exact ⟨rfl, id⟩
  | acquire _ _ | bwrite _ _ | brelse _ _ => exact .inl fun b => ⟨rfl, id⟩
  | @fill p b0 hpc =>
    exact .inl fun b => modify_key (f := fun x => { x with data := s.disk x.key, valid := true })
      (fun y => ⟨rfl, fun _ => rfl⟩) s.cache b0 b
  | @store p b0 data hpc hlock =>
    exact .inl fun b =>
      modify_key (f := fun x => { x with data := data }) (fun y => ⟨rfl, id⟩) s.cache b0 b
  | @drop p b0 hpc =>
    refine .inl fun b => ?_
    rw [buf, Bcache.drop_buf]
    exact modify_key (f := fun x => { x with refcnt := x.refcnt - 1 }) (fun y => ⟨rfl, id⟩) s.cache
      b0 b
  | @bpin p b0 hpc =>
    exact .inl fun b => modify_key (f := fun x => { x with refcnt := x.refcnt + 1 })
      (fun y => ⟨rfl, id⟩) s.cache b0 b
  | @bunpin p b0 hpc =>
    exact .inl fun b => modify_key (f := fun x => { x with refcnt := x.refcnt - 1 })
      (fun y => ⟨rfl, id⟩) s.cache b0 b

omit [DecidableEq ι] [Fintype ι] in
lemma modify_refcnt_le (hf : ∀ y, (f y).refcnt ≤ y.refcnt) (c : Bcache) (b b' : Fin nbuf) :
    ((c.modify b f).buf b').refcnt ≤ (c.buf b').refcnt := by
  rcases eq_or_ne b' b with rfl | hb'
  · rw [Bcache.modify_self]
    exact hf _
  · rw [Bcache.modify_of_ne hb']

lemma Inv.step_used (h : s.Inv) (ha : s.Proper a) (hstep : s.step a = some (.ok t))
    (hb : (t.buf b).refcnt ≠ 0) :
    (s.buf b).refcnt ≠ 0 ∨ ∃ p key, a = .bread p key ∧ (t.buf b).key = key := by
  have hle : (t.buf b).refcnt ≤ (s.buf b).refcnt →
      (s.buf b).refcnt ≠ 0 ∨ ∃ p key, a = .bread p key ∧ (t.buf b).key = key :=
    fun hle => .inl fun hz => hb (Nat.le_zero.mp (hz ▸ hle))
  cases Step.of_step hstep with
  | @bread p key b0 c hpc hget =>
    rcases eq_or_ne b b0 with rfl | hne
    · obtain ⟨l, hl, -⟩ := h.order
      refine .inr ⟨p, key, rfl, ?_⟩
      obtain ⟨-, ⟨hkey, hbuf⟩ | ⟨-, -, -, hself, -⟩⟩ := hl.bget_ok hget
      · rw [buf, hbuf]
        exact hkey
      · rw [buf, hself]
        rfl
    · obtain ⟨l, hl, -⟩ := h.order
      obtain ⟨-, ⟨-, hbuf⟩ | ⟨-, -, -, -, hrest⟩⟩ := hl.bget_ok hget
      · rw [buf, hbuf] at hb
        simp only [if_neg hne, Nat.add_zero] at hb
        exact .inl hb
      · rw [buf, hrest b hne] at hb
        exact .inl hb
  | acquire _ _ | bwrite _ _ | brelse _ _ => exact .inl hb
  | @fill p b0 hpc =>
    exact hle (modify_refcnt_le (f := fun x => { x with data := s.disk x.key, valid := true })
      (fun y => le_rfl) s.cache b0 b)
  | @store p b0 data hpc hlock =>
    exact hle (modify_refcnt_le (f := fun x => { x with data := data }) (fun y => le_rfl) s.cache
      b0 b)
  | @drop p b0 hpc =>
    refine hle ?_
    rw [buf, Bcache.drop_buf]
    exact modify_refcnt_le (f := fun x => { x with refcnt := x.refcnt - 1 })
      (fun y => Nat.sub_le ..) s.cache b0 b
  | @bpin p b0 hpc =>
    rcases eq_or_ne b b0 with rfl | hne
    · refine .inl fun hz => ?_
      have hrefs := refs_pos_of_lock ha
      have hcnt := h.refcnt b
      omega
    · rw [buf, Bcache.bpin, Bcache.modify_of_ne hne] at hb
      exact .inl hb
  | @bunpin p b0 hpc =>
    exact hle (modify_refcnt_le (f := fun x => { x with refcnt := x.refcnt - 1 })
      (fun y => Nat.sub_le ..) s.cache b0 b)

omit [Fintype ι] in
lemma step_pins (hstep : s.step a = some (.ok t)) (hpin : ∀ p b, a ≠ .bpin p b)
    (hunpin : ∀ p b, a ≠ .bunpin p b) : t.pins = s.pins := by
  cases Step.of_step hstep with
  | bpin _ => exact absurd rfl (hpin _ _)
  | bunpin _ => exact absurd rfl (hunpin _ _)
  | _ => rfl

end Invariant

end Bio

end Xv6Riscv
