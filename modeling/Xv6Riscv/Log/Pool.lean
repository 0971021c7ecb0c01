import Xv6Riscv.Disk.Bcache
import Xv6Riscv.Log.Ops

/-!
The buffers that readers, operations and `commit()` need at the same time.

The cache has `NBUF` buffers for all processes. A reader holds one buffer while it waits for the
disk; an operation may log `MAXOPBLOCKS` blocks, which stay pinned until `install_trans` has written
them; and `commit()` needs two more buffers for each block it copies. `begin_op` counts the blocks
in the log, but no buffers. `Pool` has the log and the buffer cache together, with `commit()` as the
sequence of its calls.

* `Pool.bget_panics_iff`: `bget` finds no buffer exactly if `NBUF` other blocks are in use.
* `Pool.pool_exhausted`: this happens.
-/

namespace Xv6Riscv

open Function (update update_of_ne update_self)

def rootdev : UInt32 := 1

/-! ### The calls of `commit()` -/

/-- What `commit()` calls, or does with the data of buffers it has got. Buffers are named by their
blocks. -/
inductive CommitCall
  | bread (b : Blockno)
  | memmove (dst src : Blockno)
  /-- `hb->n = log.lh.n` and `hb->block[i] = log.lh.block[i]` -/
  | setHead (b : Blockno) (lh : List Blockno)
  | bwrite (b : Blockno)
  | bunpin (b : Blockno)
  | brelse (b : Blockno)
  deriving DecidableEq

/-- `write_log`. -/
def writeLogCalls (start : Blockno) (lh : List Blockno) : List CommitCall :=
  lh.zipIdx.flatMap fun (b, tail) =>
    [.bread (Log.logBlock start tail), .bread b, .memmove (Log.logBlock start tail) b,
      .bwrite (Log.logBlock start tail), .brelse b, .brelse (Log.logBlock start tail)]

/-- `write_head`. -/
def writeHeadCalls (start : Blockno) (lh : List Blockno) : List CommitCall :=
  [.bread start, .setHead start lh, .bwrite start, .brelse start]

/-- `install_trans(0)`. -/
def installTransCalls (start : Blockno) (lh : List Blockno) : List CommitCall :=
  lh.zipIdx.flatMap fun (b, tail) =>
    [.bread (Log.logBlock start tail), .bread b, .memmove b (Log.logBlock start tail), .bwrite b,
      .bunpin b, .brelse (Log.logBlock start tail), .brelse b]

/-- `commit`. -/
def commitCalls (start : Blockno) (lh : List Blockno) : List CommitCall :=
  if lh = [] then []
  else writeLogCalls start lh ++ writeHeadCalls start lh ++ installTransCalls start lh ++
    writeHeadCalls start []

def CommitCall.unpins : CommitCall → Option Blockno
  | bunpin b => some b
  | _ => none

/-- `commit()` unpins every block of the log, once. -/
lemma unpins_commitCalls (start : Blockno) (lh : List Blockno) :
    (commitCalls start lh).filterMap CommitCall.unpins = lh := by
  have hwrite : (writeLogCalls start lh).filterMap CommitCall.unpins = [] := by
    rw [List.filterMap_eq_nil_iff]
    intro c hc
    rw [writeLogCalls, List.mem_flatMap] at hc
    obtain ⟨x, -, hc⟩ := hc
    simp only [List.mem_cons, List.not_mem_nil, or_false] at hc
    rcases hc with rfl | rfl | rfl | rfl | rfl | rfl <;> rfl
  have hinstall : (installTransCalls start lh).filterMap CommitCall.unpins = lh := by
    have hone : ∀ x : Blockno × ℕ, List.filterMap CommitCall.unpins
        [.bread (Log.logBlock start x.2), .bread x.1, .memmove x.1 (Log.logBlock start x.2),
          .bwrite x.1, .bunpin x.1, .brelse (Log.logBlock start x.2), .brelse x.1] = [x.1] :=
      fun x => rfl
    rw [installTransCalls, List.filterMap_flatMap]
    simp only [hone]
    rw [← List.map_eq_flatMap, List.zipIdx_map_fst]
  have hhead : ∀ l, (writeHeadCalls start l).filterMap CommitCall.unpins = [] := fun l => rfl
  rw [commitCalls]
  split_ifs with hlh
  · rw [hlh]
    rfl
  · rw [List.filterMap_append, List.filterMap_append, List.filterMap_append, hwrite,
      hinstall, hhead, hhead, List.nil_append, List.nil_append, List.append_nil]

/-! ### The system -/

section Bio

variable {ι : Type*} [DecidableEq ι]

/-- The buffer of a block that a process has got from `bread`. -/
def Bio.held (s : Bio ι) (p : ι) (b : Blockno) : Option (Fin nbuf) :=
  (List.finRange nbuf).find? fun i => s.lock i = some p ∧ (s.buf i).key = (rootdev, b)

/-- What a call of `commit()` does in the cache. -/
def Bio.action (s : Bio ι) (p : ι) : CommitCall → Option (BioAction ι)
  | .bread b => some (.bread p (rootdev, b))
  | .memmove dst src =>
    match s.held p dst, s.held p src with
    | some i, some j => some (.store p i (s.buf j).data)
    | _, _ => none
  | .setHead b lh => (s.held p b).map fun i => .store p i (encodeHead (s.buf i).data lh)
  | .bwrite b => (s.held p b).map fun i => .bwrite p i
  | .bunpin b => (s.held p b).map fun i => .bunpin p i
  | .brelse b => (s.held p b).map fun i => .brelse p i

end Bio

/-- The buffer cache and the log, and what is left of `commit()` for a process that commits. -/
structure Pool (ι : Type*) where
  bio : Bio ι
  log : LogSys ι
  start : Blockno
  todo : ι → List CommitCall

inductive PoolAction (ι : Type*)
  /-- a step in the cache, of a reader or in an operation, or one by which a call goes on -/
  | bio (a : BioAction ι)
  /-- a step in the log -/
  | log (a : LogAction ι)
  /-- the next call of `commit()` -/
  | call (p : ι)

def LogAction.actor {ι : Type*} : LogAction ι → ι
  | beginOp p | logWrite p _ | endOp p | commit p | endCommit p | sync p | syncTest p => p

def LogPc.InOp : LogPc → Prop
  | inOp _ _ _ => True
  | _ => False

instance : DecidablePred LogPc.InOp := fun x => by
  rcases x with ⟨⟩ <;> unfold LogPc.InOp <;> infer_instance

namespace Pool

variable {ι : Type*} [DecidableEq ι]

/-- After `initlog`, with nothing to recover. -/
def init (ι : Type*) (start : Blockno) (disk : UInt32 × Blockno → Block) : Pool ι where
  bio := .init ι disk
  log := .init ι
  start := start
  todo _ := []

/-- The process is not in the cache and has no buffer. -/
def Free (s : Pool ι) (p : ι) : Prop := s.bio.pc p = .idle ∧ ∀ i, s.bio.lock i ≠ some p

/-- What readers and operations do in the cache. A reader has one buffer at a time, and it changes
no data; only the log writes and pins. -/
def MayCall (s : Pool ι) : BioAction ι → Prop
  | .bread p key => key.1 = rootdev ∧
      ((s.log.pc p).InOp ∨ (s.log.pc p = .outside ∧ ∀ i, s.bio.lock i ≠ some p))
  | .acquire _ | .fill _ | .drop _ => True
  | .store p _ _ => (s.log.pc p).InOp
  | .brelse p _ => (s.log.pc p).InOp ∨ s.log.pc p = .outside
  | .bwrite _ _ | .bpin _ _ | .bunpin _ _ => False

instance (s : Pool ι) (p : ι) : Decidable (s.Free p) := inferInstanceAs (Decidable (_ ∧ _))

instance (s : Pool ι) (a : BioAction ι) : Decidable (s.MayCall a) := by
  rcases a with ⟨⟩ <;> unfold MayCall <;> infer_instance

/-- One step, where it is possible: the state after it, or the panic. -/
def step (s : Pool ι) : PoolAction ι → Option (Except (LogPanic ⊕ BioPanic) (Pool ι))
  | .bio a =>
    if s.MayCall a then
      match s.bio.step a with
      | some (.ok t) => some (.ok { s with bio := t })
      | some (.error e) => some (.error (.inr e))
      | none => none
    else none
  | .log (.logWrite p b) =>
    match s.bio.held p b, s.bio.pc p with
    | some i, .idle =>
      match s.log.step (.logWrite p b) with
      | some (.ok l) =>
        -- a block that is new in the log is pinned
        if b ∈ s.log.log.lh then some (.ok { s with log := l })
        else
          match s.bio.step (.bpin p i) with
          | some (.ok t) => some (.ok { s with log := l, bio := t })
          | some (.error e) => some (.error (.inr e))
          | none => none
      | some (.error e) => some (.error (.inl e))
      | none => none
    | _, _ => none
  | .log (.endOp p) =>
    if s.Free p then
      match s.log.step (.endOp p) with
      | some (.ok l) =>
        some (.ok { s with
          log := l
          todo := if l.pc p = .commit then
            update s.todo p (commitCalls s.start l.log.lh) else s.todo })
      | some (.error e) => some (.error (.inl e))
      | none => none
    else none
  | .log a =>
    if s.Free a.actor ∧ s.todo a.actor = [] then
      match s.log.step a with
      | some (.ok l) => some (.ok { s with log := l })
      | some (.error e) => some (.error (.inl e))
      | none => none
    else none
  | .call p =>
    match s.log.pc p, s.todo p with
    | .commit, c :: cs =>
      match (s.bio.action p c).bind s.bio.step with
      | some (.ok t) => some (.ok { s with bio := t, todo := update s.todo p cs })
      | some (.error e) => some (.error (.inr e))
      | none => none
    | _, _ => none

/-- The steps that do not panic, with their conditions. -/
inductive Step (s : Pool ι) : PoolAction ι → Pool ι → Prop
  | bio {a : BioAction ι} {t : Bio ι} (hmay : s.MayCall a) (ht : s.bio.step a = some (.ok t)) :
      Step s (.bio a) { s with bio := t }
  | absorb {p : ι} {b : Blockno} {l : LogSys ι}
      (hl : s.log.step (.logWrite p b) = some (.ok l)) (hmem : b ∈ s.log.log.lh) :
      Step s (.log (.logWrite p b)) { s with log := l }
  | pin {p : ι} {b : Blockno} {i : Fin nbuf} {l : LogSys ι} {t : Bio ι}
      (hheld : s.bio.held p b = some i) (hl : s.log.step (.logWrite p b) = some (.ok l))
      (hnew : b ∉ s.log.log.lh) (ht : s.bio.step (.bpin p i) = some (.ok t)) :
      Step s (.log (.logWrite p b)) { s with log := l, bio := t }
  | endOp {p : ι} {l : LogSys ι} (hfree : s.Free p) (hl : s.log.step (.endOp p) = some (.ok l)) :
      Step s (.log (.endOp p)) { s with
        log := l
        todo := if l.pc p = .commit then update s.todo p (commitCalls s.start l.log.lh)
          else s.todo }
  | log {a : LogAction ι} {l : LogSys ι} (hwrite : ∀ p b, a ≠ .logWrite p b)
      (hend : ∀ p, a ≠ .endOp p) (hfree : s.Free a.actor) (hdone : s.todo a.actor = [])
      (hl : s.log.step a = some (.ok l)) : Step s (.log a) { s with log := l }
  | call {p : ι} {c : CommitCall} {cs : List CommitCall} {a : BioAction ι} {t : Bio ι}
      (hpc : s.log.pc p = .commit) (htodo : s.todo p = c :: cs) (ha : s.bio.action p c = some a)
      (ht : s.bio.step a = some (.ok t)) :
      Step s (.call p) { s with bio := t, todo := update s.todo p cs }

variable {t : Pool ι}

lemma Step.of_log {s : Pool ι} {a : LogAction ι} (hwrite : ∀ p b, a ≠ .logWrite p b)
    (hend : ∀ p, a ≠ .endOp p) (h : (if s.Free a.actor ∧ s.todo a.actor = [] then
        match s.log.step a with
        | some (.ok l) => some (.ok { s with log := l })
        | some (.error e) => some (.error (.inl e))
        | none => none
      else none : Option (Except (LogPanic ⊕ BioPanic) (Pool ι))) = some (.ok t)) :
    Step s (.log a) t := by
  split_ifs at h with hfree
  split at h
  · rename_i l hl
    cases h
    exact .log hwrite hend hfree.1 hfree.2 hl
  · cases h
  · cases h

variable {a : PoolAction ι}

/-- **What a step can do.** -/
lemma Step.of_step {s : Pool ι} (h : s.step a = some (.ok t)) : Step s a t := by
  cases a with
  | bio a =>
    rw [step] at h
    split_ifs at h with hmay
    split at h
    · rename_i t' ht
      cases h
      exact .bio hmay ht
    · cases h
    · cases h
  | log a =>
    cases a with
    | logWrite p b =>
      rw [step] at h
      split at h
      · rename_i i hheld hidle
        split at h
        · rename_i l hl
          split_ifs at h with hmem
          · cases h
            exact .absorb hl hmem
          · split at h
            · rename_i t' ht
              cases h
              exact .pin hheld hl hmem ht
            · cases h
            · cases h
        · cases h
        · cases h
      · cases h
    | endOp p =>
      rw [step] at h
      by_cases hfree : s.Free p
      · rw [if_pos hfree] at h
        split at h
        · rename_i l hl
          cases h
          exact .endOp hfree hl
        · cases h
        · cases h
      · rw [if_neg hfree] at h
        cases h
    | beginOp p | commit p | endCommit p | sync p | syncTest p => exact .of_log nofun nofun h
  | call p =>
    rw [step] at h
    split at h
    · rename_i c cs hpc htodo
      split at h
      · rename_i t' ht
        obtain ⟨a, ha, ht⟩ := Option.bind_eq_some_iff.mp ht
        cases h
        exact .call hpc htodo ha ht
      · cases h
      · cases h
    · cases h

/-- The blocks `commit()` will still unpin. -/
def unpins (s : Pool ι) (p : ι) : List Blockno := (s.todo p).filterMap CommitCall.unpins

/-- The block is in the log and has not been unpinned. -/
def Pinned (s : Pool ι) (b : Blockno) : Prop :=
  b ∈ s.log.log.lh ∧ ∀ p, s.log.pc p = .commit → b ∈ s.unpins p

/-- **The invariant**: those of the cache and of the log; buffers in use are of `ROOTDEV`; what
`commit()` will unpin is in the log; and a buffer is pinned, once, exactly if its block is. -/
structure Inv [Fintype ι] (s : Pool ι) : Prop where
  bio : s.bio.Inv
  log : s.log.Inv
  dev : ∀ i, (s.bio.buf i).refcnt ≠ 0 → (s.bio.buf i).dev = rootdev
  todo : ∀ p, s.log.pc p = .commit → (s.unpins p).Nodup ∧ s.unpins p ⊆ s.log.log.lh
  pins : ∀ i, s.bio.pins i ≤ 1 ∧
    (0 < s.bio.pins i ↔ ∃ b, (s.bio.buf i).key = (rootdev, b) ∧ s.Pinned b)
  cached : ∀ b, s.Pinned b → ∃ i, (s.bio.buf i).key = (rootdev, b)

section Invariant

variable [Fintype ι] {s t : Pool ι} {p q : ι} {b : Blockno} {i : Fin nbuf}

variable {u : Bio ι}

omit [Fintype ι] in
lemma held_spec (h : u.held p b = some i) : u.lock i = some p ∧ (u.buf i).key = (rootdev, b) := by
  simpa using List.find?_some h

lemma Inv.commit_unique (h : s.Inv) (hp : s.log.pc p = .commit) (hq : s.log.pc q = .commit) :
    q = p := by
  by_contra hne
  have hcom := h.log.committing
  have hp1 : (s.log.pc p).commits = 1 := by rw [hp]; rfl
  have hq1 : (s.log.pc q).commits = 1 := by rw [hq]; rfl
  have hsum : (s.log.pc p).commits + (s.log.pc q).commits ≤ ∑ r, (s.log.pc r).commits := by
    rw [← Finset.sum_pair (Ne.symm hne) (f := fun r => (s.log.pc r).commits)]
    exact Finset.sum_le_sum_of_subset (Finset.subset_univ _)
  rw [hcom, hp1, hq1] at hsum
  split_ifs at hsum <;> omega

variable {l : LogSys ι}

omit [DecidableEq ι] in
lemma not_commit (h : l.Inv) (hp : (l.pc p).InOp) (q : ι) : l.pc q ≠ .commit := by
  intro hq
  have hc := h.committing_of (p := q) (by rw [hq]; rfl)
  have hops := h.not_inOp hc p
  cases hpc : l.pc p with
  | inOp id added written =>
    rw [hpc] at hops
    cases hops
  | _ =>
    rw [hpc] at hp
    exact hp

omit [DecidableEq ι] in
lemma Inv.buf_unique {j : Fin nbuf} (h : s.Inv) (hi : (s.bio.buf i).key = (rootdev, b))
    (hj : (s.bio.buf j).key = (rootdev, b)) : j = i := by
  refine h.bio.unique j i (hj.trans hi.symm) ?_
  rw [show (s.bio.buf j).dev = rootdev from congrArg Prod.fst hj]
  decide

lemma Inv.bio_step {a : BioAction ι} (h : s.Inv) (ha : s.bio.Proper a)
    (hdev : ∀ p key, a = .bread p key → key.1 = rootdev) (hpin : ∀ p i, a ≠ .bpin p i)
    (hunpin : ∀ p i, a ≠ .bunpin p i) (hu : s.bio.step a = some (.ok u)) (hbio : t.bio = u)
    (hlog : t.log = s.log) (htodo : ∀ p, t.unpins p = s.unpins p) : t.Inv := by
  subst hbio
  have hpins := Bio.step_pins hu hpin hunpin
  have hpinned : ∀ b, t.Pinned b ↔ s.Pinned b := by
    intro b
    rw [Pinned, Pinned, hlog]
    simp only [htodo]
  have hdev' : ∀ i, (t.bio.buf i).refcnt ≠ 0 → (t.bio.buf i).dev = rootdev := by
    intro i hi
    rcases h.bio.step_used ha hu hi with hs | ⟨p, key, hkey, hi'⟩
    · rcases h.bio.step_keys hu with hsame | ⟨p, key, j, -, -, hzero, -, hne⟩
      · exact (congrArg Prod.fst (hsame i).1).trans (h.dev i hs)
      · have hij : i ≠ j := by
          rintro rfl
          exact hs hzero
        exact (congrArg Prod.fst (hne i hij).1).trans (h.dev i hs)
    · exact (congrArg Prod.fst hi').trans (hdev p key hkey)
  refine ⟨h.bio.step ha hu, hlog ▸ h.log, hdev', fun p hp => ?_, fun i => ?_, fun b hb => ?_⟩
  · rw [htodo, hlog]
    exact h.todo p (hlog ▸ hp)
  · rw [hpins]
    simp only [hpinned]
    rcases h.bio.step_keys hu with hsame | ⟨p, key, j, -, hkey, hzero, hj, hne⟩
    · rw [(hsame i).1]
      exact h.pins i
    · rcases eq_or_ne i j with rfl | hij
      · -- the recycled buffer is not pinned, and neither is the block it is for now
        have hcnt := h.bio.refcnt i
        have hnone := (s.bio.refs_nonneg i).2.1
        have hzero' : s.bio.pins i = 0 := by omega
        rw [hzero', hj]
        refine ⟨Nat.zero_le _, fun h0 => absurd h0 (lt_irrefl 0), ?_⟩
        rintro ⟨b, rfl, hb⟩
        obtain ⟨k, hk⟩ := h.cached b hb
        exact absurd hk (hkey k)
      · rw [(hne i hij).1]
        exact h.pins i
  · obtain ⟨i, hi⟩ := h.cached b ((hpinned b).mp hb)
    have hpos : 0 < s.bio.pins i := (h.pins i).2.mpr ⟨b, hi, (hpinned b).mp hb⟩
    refine ⟨i, ?_⟩
    rcases h.bio.step_keys hu with hsame | ⟨p, key, j, -, -, hzero, -, hne⟩
    · exact (hsame i).1.trans hi
    · refine (hne i ?_).1.trans hi
      rintro rfl
      have hnone := (s.bio.refs_nonneg i).2.1
      have hcnt := h.bio.refcnt i
      omega

omit [DecidableEq ι] [Fintype ι] in
lemma pinned_iff (hno : ∀ q, s.log.pc q ≠ .commit) : s.Pinned b ↔ b ∈ s.log.log.lh :=
  ⟨And.left, fun hb => ⟨hb, fun q hq => absurd hq (hno q)⟩⟩

omit [DecidableEq ι] in
lemma Inv.log_step (h : s.Inv) (hbio : t.bio = s.bio) (hlog : t.log.Inv)
    (htodo : ∀ p, t.log.pc p = .commit → (t.unpins p).Nodup ∧ t.unpins p ⊆ t.log.log.lh)
    (hpinned : ∀ b, t.Pinned b ↔ s.Pinned b) : t.Inv := by
  refine ⟨hbio ▸ h.bio, hlog, hbio ▸ h.dev, htodo, fun i => ?_, fun b hb => ?_⟩
  · rw [hbio]
    simp only [hpinned]
    exact h.pins i
  · rw [hbio]
    exact h.cached b ((hpinned b).mp hb)

omit [Fintype ι] in
lemma logWrite_effect (hl : s.log.step (.logWrite p b) = some (.ok l)) :
    (s.log.pc p).InOp ∧ (l.pc p).InOp ∧
      l.log.lh = if b ∈ s.log.log.lh then s.log.log.lh else s.log.log.lh ++ [b] := by
  cases LogSys.step_iff.mp hl with
  | logWrite hpc hok =>
    obtain ⟨-, -, rfl⟩ := LogVars.logWrite_eq_ok.mp hok
    refine ⟨by rw [hpc]; trivial, ?_, rfl⟩
    change (update s.log.pc p _ p).InOp
    rw [update_self]
    trivial

lemma Inv.repin {a : BioAction ι} {n : ℕ} (h : s.Inv) (hkey : (s.bio.buf i).key = (rootdev, b))
    (ha : s.bio.Proper a) (hread : ∀ q key, a ≠ .bread q key) (hu : s.bio.step a = some (.ok t.bio))
    (hlog : t.log.Inv)
    (htodo : ∀ q, t.log.pc q = .commit → (t.unpins q).Nodup ∧ t.unpins q ⊆ t.log.log.lh)
    (hpins : t.bio.pins = update s.bio.pins i n) (hn : n ≤ 1) (hpin : 0 < n ↔ t.Pinned b)
    (hothers : ∀ b' ≠ b, s.Pinned b' ↔ t.Pinned b') : t.Inv := by
  have hkeys : ∀ j, (t.bio.buf j).key = (s.bio.buf j).key := by
    intro j
    rcases h.bio.step_keys hu with hsame | ⟨_, _, _, hbread, -⟩
    · exact (hsame j).1
    · exact absurd hbread (hread _ _)
  refine ⟨h.bio.step ha hu, hlog, fun j hj => ?_, htodo, fun j => ?_, fun b' hb' => ?_⟩
  · rcases h.bio.step_used ha hu hj with hs | ⟨_, _, hbread, -⟩
    · exact (congrArg Prod.fst (hkeys j)).trans (h.dev j hs)
    · exact absurd hbread (hread _ _)
  · rw [hpins, hkeys]
    rcases eq_or_ne j i with rfl | hji
    · rw [update_self]
      refine ⟨hn, fun hpos => ⟨b, hkey, hpin.mp hpos⟩, ?_⟩
      rintro ⟨b', hb', hp⟩
      cases hkey.symm.trans hb'
      exact hpin.mpr hp
    · -- another buffer is not that of the block
      rw [update_of_ne hji]
      refine ⟨(h.pins j).1, (h.pins j).2.trans ?_⟩
      refine exists_congr fun b' => and_congr_right fun hb' => hothers b' ?_
      rintro rfl
      exact hji (h.buf_unique hkey hb')
  · by_cases hb : b' = b
    · exact ⟨i, (hkeys i).trans (hb ▸ hkey)⟩
    · obtain ⟨j, hj⟩ := h.cached b' ((hothers b' hb).mpr hb')
      exact ⟨j, (hkeys j).trans hj⟩

lemma Inv.pin (h : s.Inv) (hheld : s.bio.held p b = some i)
    (hl : s.log.step (.logWrite p b) = some (.ok l)) (hnew : b ∉ s.log.log.lh)
    (hu : s.bio.step (.bpin p i) = some (.ok u)) (hlog : l.Inv) :
    Inv { s with log := l, bio := u } := by
  obtain ⟨hlock, hkey⟩ := held_spec hheld
  obtain ⟨hin, hin', hlh⟩ := logWrite_effect hl
  rw [if_neg hnew] at hlh
  have hno' := not_commit hlog hin'
  have hpinned : ∀ b', Pinned { s with log := l, bio := u } b' ↔ s.Pinned b' ∨ b' = b := by
    intro b'
    rw [pinned_iff hno', pinned_iff (not_commit h.log hin)]
    change b' ∈ l.log.lh ↔ _
    rw [hlh, List.mem_append, List.mem_singleton]
  have hzero : s.bio.pins i = 0 := by
    by_contra hne
    obtain ⟨b', hb', hp⟩ := (h.pins i).2.mp (Nat.pos_of_ne_zero hne)
    cases hkey.symm.trans hb'
    exact hnew hp.1
  have hpins : u.pins = update s.bio.pins i 1 := by
    cases Bio.Step.of_step hu
    exact congrArg (fun n => update s.bio.pins i (n + 1)) hzero
  refine h.repin (a := .bpin p i) hkey hlock nofun hu hlog (fun q hq => absurd hq (hno' q)) hpins
    le_rfl ?_ fun b' hb' => ?_
  · exact iff_of_true Nat.one_pos ((hpinned b).mpr (.inr rfl))
  · rw [hpinned, or_iff_left hb']

lemma Inv.unpin {cs : List CommitCall} (h : s.Inv) (hpc : s.log.pc p = .commit)
    (htodo : s.todo p = .bunpin b :: cs) (hheld : s.bio.held p b = some i)
    (hu : s.bio.step (.bunpin p i) = some (.ok u)) :
    Inv { s with bio := u, todo := update s.todo p cs } := by
  obtain ⟨hlock, hkey⟩ := held_spec hheld
  have hunpins : s.unpins p = b :: cs.filterMap CommitCall.unpins := by
    rw [unpins, htodo]
    rfl
  obtain ⟨hnodup, hsub⟩ := h.todo p hpc
  rw [hunpins] at hnodup hsub
  obtain ⟨hnot, hnodup⟩ := List.nodup_cons.mp hnodup
  obtain ⟨hb, hsub⟩ := List.cons_subset.mp hsub
  have hleft : unpins { s with bio := u, todo := update s.todo p cs } p =
      cs.filterMap CommitCall.unpins := by
    rw [unpins]
    dsimp only
    rw [update_self]
  -- only this process commits
  have hpinned : ∀ {t : Pool ι} {b'}, t.log = s.log →
      (t.Pinned b' ↔ b' ∈ s.log.log.lh ∧ b' ∈ t.unpins p) := by
    intro t b' hlog
    rw [Pinned, hlog]
    refine and_congr_right fun _ => ⟨fun hb' => hb' p hpc, fun hb' q hq => ?_⟩
    rwa [h.commit_unique hpc hq]
  have hpos : 0 < s.bio.pins i :=
    (h.pins i).2.mpr ⟨b, hkey, (hpinned rfl).mpr ⟨hb, hunpins ▸ List.mem_cons_self⟩⟩
  have hpins : u.pins = update s.bio.pins i 0 := by
    have hone := (h.pins i).1
    cases Bio.Step.of_step hu
    exact congrArg (update s.bio.pins i) (by omega)
  refine h.repin (a := .bunpin p i) hkey ⟨hlock, hpos⟩ nofun hu h.log (fun q hq => ?_) hpins
    zero_le_one ?_ fun b' hb' => ?_
  · rw [h.commit_unique hpc hq, hleft]
    exact ⟨hnodup, hsub⟩
  · rw [hpinned (by rfl), hleft]
    exact iff_of_false (lt_irrefl 0) fun hmem => hnot hmem.2
  · rw [hpinned rfl, hpinned (by rfl), hleft, hunpins, List.mem_cons, or_iff_right hb']

lemma Inv.endOp (h : s.Inv) (hl : s.log.step (.endOp p) = some (.ok l)) (hlog : l.Inv) :
    Inv { s with
      log := l
      todo := if l.pc p = .commit then update s.todo p (commitCalls s.start l.log.lh)
        else s.todo } := by
  obtain ⟨hin, hlh, hothers⟩ : (s.log.pc p).InOp ∧ l.log.lh = s.log.log.lh ∧
      ∀ q ≠ p, l.pc q = s.log.pc q := by
    cases LogSys.step_iff.mp hl with
    | endOp hpc hok =>
      obtain ⟨-, -, rfl⟩ := LogVars.endOp_eq_ok.mp hok
      exact ⟨by rw [hpc]; trivial, rfl, fun q hq => update_of_ne hq ..⟩
  have hno := not_commit h.log hin
  -- only the process that ends its operation may commit
  have hcommit : ∀ q, l.pc q = .commit → q = p := by
    intro q hq
    by_contra hne
    exact hno q ((hothers q hne).symm.trans hq)
  have hunpins : ∀ q, l.pc q = .commit → unpins { s with
      log := l
      todo := if l.pc p = .commit then update s.todo p (commitCalls s.start l.log.lh)
        else s.todo } q = s.log.log.lh := by
    intro q hq
    obtain rfl := hcommit q hq
    rw [unpins]
    dsimp only
    rw [if_pos hq, update_self, unpins_commitCalls, hlh]
  refine h.log_step rfl hlog (fun q hq => ?_) fun b => ?_
  · rw [hunpins q hq]
    exact ⟨h.log.nodup, hlh ▸ List.Subset.refl _⟩
  · rw [pinned_iff hno]
    refine ⟨fun hb => hlh ▸ hb.1, fun hb => ⟨?_, fun q hq => ?_⟩⟩
    · change b ∈ l.log.lh
      rwa [hlh]
    · rw [hunpins q hq]
      exact hb

lemma Inv.log_other {a : LogAction ι} (h : s.Inv) (hwrite : ∀ p b, a ≠ .logWrite p b)
    (hend : ∀ p, a ≠ .endOp p) (hdone : s.todo a.actor = []) (hl : s.log.step a = some (.ok l)) :
    Inv { s with log := l } := by
  have hstep := LogSys.step_iff.mp hl
  have hlog : l.Inv := h.log.step hstep
  have hempty : s.unpins a.actor = [] := by
    rw [unpins, hdone]
    rfl
  -- all steps but the return of `commit()`
  have hsame : l.log.lh = s.log.log.lh → (∀ q, l.pc q = .commit ↔ s.log.pc q = .commit) →
      Inv { s with log := l } := by
    intro hlh hpc
    refine h.log_step rfl hlog (fun q hq => ?_) fun b => ?_
    · change _ ∧ _ ⊆ l.log.lh
      rw [hlh]
      exact h.todo q ((hpc q).mp hq)
    · change b ∈ l.log.lh ∧ (∀ q, l.pc q = .commit → b ∈ s.unpins q) ↔ _
      simp only [hlh, hpc]
      rfl
  have hgoto : ∀ {p : ι} {x : LogPc}, s.log.pc p ≠ .commit → x ≠ .commit →
      ∀ q, update s.log.pc p x q = .commit ↔ s.log.pc q = .commit := by
    intro p x hp hx q
    rcases eq_or_ne q p with rfl | hqp
    · rw [update_self]
      exact ⟨fun hq => absurd hq hx, fun hq => absurd hq hp⟩
    · rw [update_of_ne hqp]
  cases hstep with
  | didBegin hpc hok =>
    obtain ⟨-, -, rfl⟩ := LogVars.beginOp_eq_some.mp hok
    refine hsame rfl (hgoto ?_ nofun)
    rcases hpc with hpc | hpc <;> rw [hpc] <;> exact nofun
  | wait hpc hok =>
    refine hsame rfl (hgoto ?_ nofun)
    rcases hpc with hpc | hpc <;> rw [hpc] <;> exact nofun
  | logWrite _ _ => exact absurd rfl (hwrite _ _)
  | endOp _ _ => exact absurd rfl (hend _)
  | @commit p hpc =>
    have hno : ∀ q, (s.log.didCommit p).pc q ≠ .commit := by
      intro q hq
      rcases Upd.cases id hq with ⟨-, hq⟩ | ⟨hqp, hq⟩
      · cases hq
      · exact hqp (h.commit_unique hpc hq)
    refine h.log_step rfl hlog (fun q hq => absurd hq (hno q)) fun b => ?_
    refine ⟨fun hb => absurd hb.1 List.not_mem_nil, fun hb => ?_⟩
    have hmem := hb.2 p hpc
    rw [show s.unpins p = [] from hempty] at hmem
    exact absurd hmem List.not_mem_nil
  | endCommit hpc | syncWait hpc hn | syncReturn hpc hn =>
    exact hsame rfl (hgoto (by rw [hpc]; exact nofun) nofun)
  | syncIdle hpc hn | syncSleep hpc hn => exact hsame rfl fun q => Iff.rfl

lemma Inv.call {c : CommitCall} {cs : List CommitCall} {a : BioAction ι} (h : s.Inv)
    (htodo : s.todo p = c :: cs) (hc : c.unpins = none) (ha : s.bio.action p c = some a)
    (hu : s.bio.step a = some (.ok u)) : Inv { s with bio := u, todo := update s.todo p cs } := by
  have hkind : (∀ q i, a ≠ .bpin q i) ∧ (∀ q i, a ≠ .bunpin q i) ∧
      ∀ q key, a = .bread q key → key.1 = rootdev := by
    cases c with
    | bread b =>
      cases ha
      refine ⟨nofun, nofun, ?_⟩
      rintro q key ⟨⟩
      rfl
    | memmove dst src =>
      rw [Bio.action] at ha
      split at ha
      · cases ha
        exact ⟨nofun, nofun, nofun⟩
      · cases ha
    | bunpin b => cases hc
    | setHead b lh | bwrite b | brelse b =>
      obtain ⟨i, -, rfl⟩ := Option.map_eq_some_iff.mp ha
      exact ⟨nofun, nofun, nofun⟩
  have hproper : s.bio.Proper a := by
    cases a with
    | bpin q i => exact absurd rfl (hkind.1 q i)
    | bunpin q i => exact absurd rfl (hkind.2.1 q i)
    | _ => trivial
  refine h.bio_step hproper hkind.2.2 hkind.1 hkind.2.1 hu rfl rfl fun q => ?_
  rw [unpins, unpins]
  dsimp only
  rcases eq_or_ne q p with rfl | hqp
  · rw [update_self, htodo, List.filterMap_cons_none hc]
  · rw [update_of_ne hqp]

/-- **Every step keeps the invariant.** -/
lemma Inv.step (h : s.Inv) (hstep : s.step a = some (.ok t)) : t.Inv := by
  cases Step.of_step hstep with
  | @bio a u hmay hu =>
    have hkind : s.bio.Proper a ∧ (∀ q key, a = .bread q key → key.1 = rootdev) ∧
        (∀ q i, a ≠ .bpin q i) ∧ ∀ q i, a ≠ .bunpin q i := by
      cases a with
      | bread q key =>
        refine ⟨trivial, ?_, nofun, nofun⟩
        rintro q' key' ⟨⟩
        exact hmay.1
      | bpin q i | bunpin q i => exact hmay.elim
      | _ => exact ⟨trivial, nofun, nofun, nofun⟩
    exact h.bio_step hkind.1 hkind.2.1 hkind.2.2.1 hkind.2.2.2 hu rfl rfl fun _ => rfl
  | @absorb p b l hl hmem =>
    obtain ⟨hin, hin', hlh⟩ := logWrite_effect hl
    rw [if_pos hmem] at hlh
    have hlog : l.Inv := h.log.step (LogSys.step_iff.mp hl)
    refine h.log_step rfl hlog (fun q hq => absurd hq (not_commit hlog hin' q)) fun b' => ?_
    rw [pinned_iff (not_commit hlog hin'), pinned_iff (not_commit h.log hin)]
    exact hlh ▸ Iff.rfl
  | pin hheld hl hnew hu => exact h.pin hheld hl hnew hu (h.log.step (LogSys.step_iff.mp hl))
  | endOp _ hl => exact h.endOp hl (h.log.step (LogSys.step_iff.mp hl))
  | log hwrite hend _ hdone hl => exact h.log_other hwrite hend hdone hl
  | @call p c cs a u hpc htodo ha hu =>
    cases c with
    | bunpin b =>
      obtain ⟨i, hheld, rfl⟩ := Option.map_eq_some_iff.mp ha
      exact h.unpin hpc htodo hheld hu
    | _ => exact h.call htodo rfl ha hu

omit [DecidableEq ι] in
lemma inv_init (start : Blockno) (disk : UInt32 × Blockno → Block) : (init ι start disk).Inv where
  bio := Bio.inv_init disk
  log := LogSys.inv_init
  dev _ h := absurd rfl h
  todo _ h := by cases h
  pins i := ⟨Nat.zero_le _, fun h => absurd h (lt_irrefl 0), fun ⟨b, _, hb⟩ =>
    absurd hb.1 List.not_mem_nil⟩
  cached b h := absurd h.1 List.not_mem_nil

end Invariant

/-! ### Running out of buffers -/

def InBudget (s : Pool ι) : PoolAction ι → Prop
  | .log a => s.log.LogsInBudget a
  | .bio _ | .call _ => True

instance (s : Pool ι) (a : PoolAction ι) : Decidable (s.InBudget a) := by
  rcases a with ⟨⟩ <;> unfold InBudget <;> infer_instance

/-- The states of all runs in which every operation logs at most `MAXOPBLOCKS` blocks. -/
inductive Reachable (start : Blockno) (disk : UInt32 × Blockno → Block) : Pool ι → Prop
  | init : Reachable start disk (init ι start disk)
  | step {s t : Pool ι} {a : PoolAction ι} (hs : Reachable start disk s) (ha : s.InBudget a)
      (h : s.step a = some (.ok t)) : Reachable start disk t

variable {disk : UInt32 × Blockno → Block} {start : Blockno}

lemma Reachable.inv [Fintype ι] {s : Pool ι} (h : Reachable start disk s) : s.Inv := by
  induction h with
  | init => exact inv_init start disk
  | step _ _ hstep ih => exact ih.step hstep

/-- The process holds the buffer of the block, waits for it or is releasing it. -/
def Uses (s : Pool ι) (p : ι) (b : Blockno) : Prop :=
  ∃ i, (s.bio.buf i).key = (rootdev, b) ∧ (s.bio.lock i = some p ∨ (s.bio.pc p).ref = some i)

/-- The blocks that some process uses or that are pinned. -/
def inUse (s : Pool ι) : Set Blockno := {b | (∃ p, s.Uses p b) ∨ s.Pinned b}

/-- The block a step calls `bget` for. -/
def asks (s : Pool ι) : PoolAction ι → Option Blockno
  | .bio (.bread p key) =>
    if s.MayCall (.bread p key) ∧ s.bio.pc p = .idle then some key.2 else none
  | .call p =>
    match s.log.pc p, s.todo p, s.bio.pc p with
    | .commit, .bread b :: _, .idle => some b
    | _, _, _ => none
  | _ => none

section Panics

variable [Fintype ι] {s : Pool ι} {b : Blockno} {i : Fin nbuf}

omit [DecidableEq ι] in
lemma Inv.refcnt_ne_zero_iff (h : s.Inv) :
    (s.bio.buf i).refcnt ≠ 0 ↔ ∃ b ∈ s.inUse, (s.bio.buf i).key = (rootdev, b) := by
  have hcnt := h.bio.refcnt i
  constructor
  · intro hi
    have hkey : (s.bio.buf i).key = (rootdev, (s.bio.buf i).blockno) := by
      rw [Buf.key, h.dev i hi]
    refine ⟨_, ?_, hkey⟩
    rw [Bio.refs] at hcnt
    by_cases hpins : 0 < s.bio.pins i
    · obtain ⟨b, hb, hp⟩ := (h.pins i).2.mp hpins
      cases hkey.symm.trans hb
      exact .inr hp
    · cases hlock : s.bio.lock i with
      | some p => exact .inl ⟨p, i, hkey, .inl hlock⟩
      | none =>
        rw [if_pos hlock] at hcnt
        obtain ⟨p, hp⟩ := Tally.exists_of_tally_ne (f := fun p => (s.bio.pc p).ref) (b := i)
          (by omega)
        exact .inl ⟨p, i, hkey, .inr hp⟩
  · rintro ⟨b, hb, hkey⟩
    have hpos : 0 < s.bio.refs i := by
      rcases hb with ⟨p, j, hj, huse⟩ | hp
      · obtain rfl := h.buf_unique hkey hj
        rcases huse with hlock | href
        · exact Bio.refs_pos_of_lock hlock
        · exact Bio.refs_pos_of_ref href
      · have hpins := (h.pins i).2.mpr ⟨b, hkey, hp⟩
        have hle := (s.bio.refs_nonneg i).2.1
        omega
    omega

omit [DecidableEq ι] in
lemma Inv.inUse_eq (h : s.Inv) :
    s.inUse = (fun i => (s.bio.buf i).blockno) '' {i | (s.bio.buf i).refcnt ≠ 0} := by
  ext b
  constructor
  · intro hb
    obtain ⟨i, hkey⟩ : ∃ i, (s.bio.buf i).key = (rootdev, b) := by
      rcases hb with ⟨p, i, hkey, -⟩ | hp
      · exact ⟨i, hkey⟩
      · exact h.cached b hp
    exact ⟨i, h.refcnt_ne_zero_iff.mpr ⟨b, hb, hkey⟩, congrArg Prod.snd hkey⟩
  · rintro ⟨i, hi, rfl⟩
    obtain ⟨b, hb, hkey⟩ := h.refcnt_ne_zero_iff.mp hi
    have hblock : (s.bio.buf i).blockno = b := congrArg Prod.snd hkey
    change (s.bio.buf i).blockno ∈ s.inUse
    rwa [hblock]

omit [DecidableEq ι] in
/-- All buffers are counted exactly if `NBUF` blocks are in use. -/
lemma Inv.ncard_inUse_iff (h : s.Inv) : s.inUse.ncard = nbuf ↔ ∀ i, (s.bio.buf i).refcnt ≠ 0 := by
  have hinj : Set.InjOn (fun i => (s.bio.buf i).blockno) {i | (s.bio.buf i).refcnt ≠ 0} := by
    intro i hi j hj hij
    obtain ⟨b, -, hb⟩ := h.refcnt_ne_zero_iff.mp hi
    obtain ⟨b', -, hb'⟩ := h.refcnt_ne_zero_iff.mp hj
    have hbb : b = b' := (congrArg Prod.snd hb).symm.trans (hij.trans (congrArg Prod.snd hb'))
    exact h.buf_unique (hbb ▸ hb') hb
  rw [h.inUse_eq, hinj.ncard_image]
  constructor
  · intro hcard i
    have huniv := Set.eq_of_subset_of_ncard_le (Set.subset_univ {i | (s.bio.buf i).refcnt ≠ 0})
      (by rw [hcard, Set.ncard_univ, Nat.card_fin])
    exact (Set.ext_iff.mp huniv i).mpr trivial
  · intro hall
    rw [Set.eq_univ_of_forall (s := {i | (s.bio.buf i).refcnt ≠ 0}) hall, Set.ncard_univ,
      Nat.card_fin]

omit [DecidableEq ι] in
/-- **When `bget` finds no buffer.** -/
lemma Inv.bget_error_iff (h : s.Inv) : s.bio.cache.bget (rootdev, b) = .error .noBuffers ↔
    s.inUse.ncard = nbuf ∧ b ∉ s.inUse := by
  rw [h.ncard_inUse_iff]
  obtain ⟨l, hl, -⟩ := h.bio.order
  have hnot : (∀ i, (s.bio.buf i).refcnt ≠ 0) →
      (b ∉ s.inUse ↔ ∀ i, (s.bio.buf i).key ≠ (rootdev, b)) := by
    intro hall
    refine ⟨fun hb i hkey => ?_, fun hno hb => ?_⟩
    · obtain ⟨b', hb', hkey'⟩ := h.refcnt_ne_zero_iff.mp (hall i)
      cases hkey.symm.trans hkey'
      exact hb hb'
    · rw [h.inUse_eq] at hb
      obtain ⟨i, hi, rfl⟩ := hb
      exact hno i (by rw [Buf.key, h.dev i hi])
  rcases hl.bget_cases (rootdev, b) with ⟨i, hkey, heq⟩ | ⟨hno, i, -, -, -, hzero, -, heq⟩ |
    ⟨hno, hall, heq⟩
  · rw [heq]
    refine ⟨nofun, fun ⟨hall, hb⟩ => absurd hkey ((hnot hall).mp hb i)⟩
  · rw [heq]
    exact ⟨nofun, fun ⟨hall, _⟩ => absurd hzero (hall i)⟩
  · exact ⟨fun _ => ⟨hall, (hnot hall).mpr hno⟩, fun _ => heq⟩

omit [Fintype ι] in
lemma bread_error_iff {u : Bio ι} {p : ι} {key : UInt32 × Blockno} :
    u.step (.bread p key) = some (.error .noBuffers) ↔
      u.pc p = .idle ∧ u.cache.bget key = .error .noBuffers := by
  rw [Bio.step]
  by_cases hpc : u.pc p = .idle
  · rw [if_pos hpc]
    cases u.cache.bget key with
    | error e => simp [Except.map, hpc]
    | ok r => simp [Except.map]
  · rw [if_neg hpc]
    simp [hpc]

omit [Fintype ι] in
lemma noBuffers_of_error {u : Bio ι} {a : BioAction ι} (h : u.step a = some (.error .noBuffers)) :
    ∃ p key, a = .bread p key := by
  cases a with
  | bread p key => exact ⟨p, key, rfl⟩
  | acquire p =>
    rw [Bio.step] at h
    split at h
    · by_cases hlock : u.lock ‹_› = none
      · rw [if_pos hlock] at h
        cases h
      · rw [if_neg hlock] at h
        cases h
    · cases h
  | fill p | drop p =>
    rw [Bio.step] at h
    split at h <;> cases h
  | store p b data | bwrite p b | brelse p b | bpin p b | bunpin p b =>
    rw [Bio.step] at h
    split_ifs at h <;> cases h

omit [Fintype ι] in
lemma log_ne_noBuffers (s : Pool ι) (a : LogAction ι) :
    s.step (.log a) ≠ some (.error (.inr .noBuffers)) := by
  intro hstep
  cases a with
  | logWrite p b =>
    rw [step] at hstep
    split at hstep
    · split at hstep
      · split_ifs at hstep
        · cases hstep
        · split at hstep
          · cases hstep
          · rename_i e he
            cases hstep
            obtain ⟨_, _, hbread⟩ := noBuffers_of_error he
            cases hbread
          · cases hstep
      · cases hstep
      · cases hstep
    · cases hstep
  | endOp p =>
    rw [step] at hstep
    by_cases hfree : s.Free p
    · rw [if_pos hfree] at hstep
      split at hstep <;> cases hstep
    · rw [if_neg hfree] at hstep
      cases hstep
  | beginOp p | commit p | endCommit p | sync p | syncTest p =>
    rw [step] at hstep
    · split_ifs at hstep
      split at hstep <;> cases hstep
    all_goals exact nofun

lemma Inv.bio_panics_iff (h : s.Inv) (a : BioAction ι) :
    s.step (.bio a) = some (.error (.inr .noBuffers)) ↔
      ∃ b, s.asks (.bio a) = some b ∧ s.inUse.ncard = nbuf ∧ b ∉ s.inUse := by
  rw [Pool.step]
  by_cases hmay : s.MayCall a
  · have herr : (match s.bio.step a with
        | some (.ok t) => some (.ok { s with bio := t })
        | some (.error e) => some (.error (.inr e))
        | none => (none : Option (Except (LogPanic ⊕ BioPanic) (Pool ι)))) =
        some (.error (.inr .noBuffers)) ↔ s.bio.step a = some (.error .noBuffers) := by
      split <;> simp_all
    rw [if_pos hmay, herr]
    constructor
    · intro hstep
      obtain ⟨p, key, rfl⟩ := noBuffers_of_error hstep
      obtain ⟨hpc, hget⟩ := bread_error_iff.mp hstep
      have hkey : key = (rootdev, key.2) := Prod.ext hmay.1 rfl
      rw [hkey] at hget
      exact ⟨key.2, if_pos ⟨hmay, hpc⟩, h.bget_error_iff.mp hget⟩
    · rintro ⟨b, hb, huse⟩
      cases a with
      | bread p key =>
        rw [asks] at hb
        split_ifs at hb with hcond
        cases hb
        have hkey : key = (rootdev, key.2) := Prod.ext hmay.1 rfl
        refine bread_error_iff.mpr ⟨hcond.2, ?_⟩
        rw [hkey]
        exact h.bget_error_iff.mpr huse
      | _ => cases hb
  · rw [if_neg hmay]
    refine ⟨nofun, ?_⟩
    rintro ⟨b, hb, -⟩
    cases a with
    | bread p key =>
      rw [asks, if_neg fun hc => hmay hc.1] at hb
      cases hb
    | _ => cases hb

/-- `commit()`. -/
lemma Inv.call_panics_iff (h : s.Inv) (p : ι) :
    s.step (.call p) = some (.error (.inr .noBuffers)) ↔
      ∃ b, s.asks (.call p) = some b ∧ s.inUse.ncard = nbuf ∧ b ∉ s.inUse := by
  constructor
  · intro hstep
    rw [Pool.step] at hstep
    split at hstep
    · rename_i c cs hpc htodo
      split at hstep
      · cases hstep
      · rename_i e he
        cases hstep
        obtain ⟨a, ha, herr⟩ := Option.bind_eq_some_iff.mp he
        obtain ⟨q, key, rfl⟩ := noBuffers_of_error herr
        obtain ⟨hidle, hget⟩ := bread_error_iff.mp herr
        -- the call is `bread`
        cases c with
        | bread b =>
          cases ha
          refine ⟨b, ?_, h.bget_error_iff.mp hget⟩
          rw [asks, hpc, htodo, hidle]
        | memmove dst src =>
          rw [Bio.action] at ha
          split at ha <;> cases ha
        | setHead b lh | bwrite b | bunpin b | brelse b =>
          obtain ⟨_, -, hne⟩ := Option.map_eq_some_iff.mp ha
          cases hne
      · cases hstep
    · cases hstep
  · rintro ⟨b, hb, huse⟩
    rw [asks] at hb
    split at hb
    · rename_i b' cs hpc htodo hidle
      cases hb
      have herr : s.bio.step (.bread p (rootdev, b)) = some (.error .noBuffers) :=
        bread_error_iff.mpr ⟨hidle, h.bget_error_iff.mpr huse⟩
      have hbind : (s.bio.action p (.bread b)).bind s.bio.step = some (.error .noBuffers) := herr
      rw [Pool.step, hpc, htodo]
      dsimp only
      rw [hbind]
    · cases hb

/-- **When a process finds no buffer.** In every state, a step panics with "bget: no buffers"
exactly if it asks for a block that is not in use while `NBUF` blocks are, because processes hold
their buffers or wait for them, or because they are in the log. -/
theorem bget_panics_iff {start : Blockno} {disk : UInt32 × Blockno → Block}
    (h : Reachable start disk s) (a : PoolAction ι) :
    s.step a = some (.error (.inr .noBuffers)) ↔
      ∃ b, s.asks a = some b ∧ s.inUse.ncard = nbuf ∧ b ∉ s.inUse := by
  cases a with
  | bio a => exact h.inv.bio_panics_iff a
  | log a => exact ⟨fun hstep => absurd hstep (s.log_ne_noBuffers a), fun ⟨b, hb, _⟩ => by cases hb⟩
  | call p => exact h.inv.call_panics_iff p

end Panics

/-! ### It happens -/

/-- The state after a list of steps in which every operation stays in its budget, if they are
possible and do not panic. -/
def run (s : Pool ι) : List (PoolAction ι) → Option (Pool ι) :=
  Transition.runOk (fun s a => if s.InBudget a then s.step a else none) s

lemma Reachable.run {s : Pool ι} {as : List (PoolAction ι)} (hs : Reachable start disk s)
    (h : s.run as = some t) : Reachable start disk t := by
  refine Transition.runOk_invariant (fun s a t hs hstep => ?_) hs h
  split_ifs at hstep with ha
  exact hs.step ha hstep

/-- The step panics with "bget: no buffers". -/
def panicsSo (s : Pool ι) (a : PoolAction ι) : Bool :=
  match s.step a with
  | some (.error (.inr .noBuffers)) => true
  | _ => false

lemma step_of_panicsSo {s : Pool ι} (h : s.panicsSo a = true) :
    s.step a = some (.error (.inr .noBuffers)) := by
  rw [panicsSo] at h
  split at h
  · assumption
  · cases h

/-- A run after which a step panics. -/
lemma exists_panic (as : List (PoolAction ι))
    (h : ((init ι start disk).run as).map (fun s => s.panicsSo a) = some true) :
    ∃ s, Reachable start disk s ∧ s.step a = some (.error (.inr .noBuffers)) := by
  obtain ⟨s, hs, ha⟩ := Option.map_eq_some_iff.mp h
  exact ⟨s, Reachable.init.run hs, step_of_panicsSo ha⟩

/-- Thirty processes read a block each and wait for the disk. -/
def readers : List (PoolAction (Fin 31)) :=
  (List.finRange 30).flatMap fun p : Fin 30 =>
    [.bio (.bread p.castSucc (rootdev, 100 + UInt32.ofNat p)), .bio (.acquire p.castSucc)]

/-- One more process finds no buffer. -/
lemma readers_panic : ∃ s : Pool (Fin 31), Reachable 2 (fun _ _ => 0) s ∧
    s.step (.bio (.bread 30 (rootdev, 200))) = some (.error (.inr .noBuffers)) := by
  refine exists_panic readers ?_
  decide +kernel

def bufNo (n : ℕ) : Fin nbuf := ⟨n % nbuf, Nat.mod_lt _ (by decide)⟩

/-- Three processes log ten blocks each, and the last one begins to commit. -/
def writers : List (PoolAction (Fin 3)) :=
  (List.finRange 3).map (fun p => .log (.beginOp p)) ++
  (List.finRange 3).flatMap (fun p => (List.range 10).flatMap fun k =>
    let n := 10 * p.val + k
    [.bio (.bread p (rootdev, 100 + UInt32.ofNat n)), .bio (.acquire p), .bio (.fill p),
      .log (.logWrite p (100 + UInt32.ofNat n)), .bio (.brelse p (bufNo n)), .bio (.drop p)]) ++
  (List.finRange 3).map fun p => .log (.endOp p)

/-- **The cache runs out of buffers**: if thirty processes wait for the disk and one more reads a
block, and if three operations have logged ten blocks each and `write_log` reads the first block of
the log. -/
theorem pool_exhausted :
    (∃ s : Pool (Fin 31), Reachable 2 (fun _ _ => 0) s ∧
      s.step (.bio (.bread 30 (rootdev, 200))) = some (.error (.inr .noBuffers))) ∧
    ∃ s : Pool (Fin 3), Reachable 2 (fun _ _ => 0) s ∧
      s.step (.call 2) = some (.error (.inr .noBuffers)) := by
  refine ⟨readers_panic, exists_panic writers ?_⟩
  decide +kernel

/-- The hypothesis is met when thirty processes wait for the disk: so many blocks are in use. -/
theorem bget_panics_iff_readers : ∃ s : Pool (Fin 31), Reachable 2 (fun _ _ => 0) s ∧
    s.step (.bio (.bread 30 (rootdev, 200))) = some (.error (.inr .noBuffers)) ∧
    s.inUse.ncard = nbuf ∧ 200 ∉ s.inUse := by
  obtain ⟨s, hs, hpanic⟩ := readers_panic
  obtain ⟨b, hb, hfull, hnew⟩ := (bget_panics_iff hs _).mp hpanic
  rw [asks, Option.ite_none_right_eq_some] at hb
  cases hb.2
  exact ⟨s, hs, hpanic, hfull, hnew⟩

end Pool

end Xv6Riscv
