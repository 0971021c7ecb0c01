import Xv6Riscv.Disk.Buffers

/-!
Committing and recovering the log (`log.c`, the functions that write the disk).

The header block holds `n` and the `n` block numbers of the transaction as 32-bit integers, the
blocks behind it the new contents. A crash may come between any two calls of `bwrite`, in `commit`
or in `recover_from_log`, and leaves the disk as the calls so far have made it; a `panic` on the way
is such a crash. The functions are translated as they are; what they write is computed once
(`writeLog_eq`, `installTrans_eq`, `writeHead_eq`), and the argument about crashes is that of a redo
log with this header and these slots (`Log.layout`).

* `Log.commit_eq`, `Log.recoverFromLog_eq`: the two functions write what a redo log writes when it
  commits and when it recovers.
* `Log.crash_atomicity`: after crashes anywhere and a complete recovery, the home blocks are those
  after some prefix of the transactions, which includes all that have been committed.
-/

namespace Xv6Riscv

open RedoLog Words

def maxopblocks : ℕ := 10

def logblocks : ℕ := maxopblocks * 3

/-! ### The header block -/

/-- The entries of a header block that `read_head` copies: `n`, a signed integer, and then `n`
block numbers. -/
def decodeHead (hb : Block) : List Blockno :=
  (List.range (word hb 0).toInt32.toInt.toNat).map fun i => word hb (1 + i)

/-- The stores of `write_head` into the buffer of the header block. -/
def encodeHead (hb : Block) (lh : List Blockno) : Block :=
  lh.zipIdx.foldl (fun hb (b, i) => setWord hb (1 + i) b) (setWord hb 0 (UInt32.ofNat lh.length))

section Head

variable {lh : List Blockno} {x : Block} {m : ℕ}

lemma word_foldl_of_lt {j : ℕ} (hj : j < 1 + m) :
    word ((lh.zipIdx m).foldl (fun x (b, i) => setWord x (1 + i) b) x) j = word x j := by
  induction lh generalizing x m with
  | nil => rfl
  | cons b lh ih =>
    rw [List.zipIdx_cons, List.foldl_cons, ih (by omega), word_setWord_of_ne (by omega)]

lemma word_foldl_getElem (hm : m + lh.length ≤ logblocks) {i : ℕ} (hi : i < lh.length) :
    word ((lh.zipIdx m).foldl (fun x (b, i) => setWord x (1 + i) b) x) (1 + (m + i)) = lh[i] := by
  induction lh generalizing x m i with
  | nil => cases hi
  | cons b lh ih =>
    rw [List.zipIdx_cons, List.foldl_cons]
    rw [List.length_cons] at hm hi
    cases i with
    | zero =>
      have hfit : 4 * (1 + m) + 3 < bsize := by
        rw [bsize_eq]
        simp only [logblocks, maxopblocks] at hm
        omega
      rw [word_foldl_of_lt (by omega)]
      exact word_setWord_self hfit
    | succ i =>
      rw [List.getElem_cons_succ, ← ih (x := setWord x (1 + m) b) (m := m + 1) (by omega)
        (by omega), Nat.add_right_comm m 1 i, Nat.add_assoc m i 1]

/-- **`read_head` reads what `write_head` has written.** -/
theorem decodeHead_encodeHead (hlen : lh.length ≤ logblocks) :
    decodeHead (encodeHead x lh) = lh := by
  have hn : (word (encodeHead x lh) 0).toInt32.toInt.toNat = lh.length := by
    rw [encodeHead, word_foldl_of_lt (by omega), word_setWord_self (by rw [bsize_eq]; omega)]
    simp only [logblocks, maxopblocks] at hlen
    generalize lh.length = n at hlen
    interval_cases n <;> rfl
  rw [decodeHead, hn]
  refine List.ext_getElem (by simp) fun i _ hi => ?_
  rw [List.getElem_map, List.getElem_range, encodeHead]
  have hword := word_foldl_getElem (x := setWord x 0 (UInt32.ofNat lh.length)) (m := 0)
    (by rwa [Nat.zero_add]) hi
  rwa [Nat.zero_add] at hword

lemma decodeHead_eq_nil (h : word x 0 = 0) : decodeHead x = [] := by
  rw [decodeHead, h]
  rfl

lemma word_encodeHead_nil : word (encodeHead x []) 0 = 0 :=
  word_setWord_self (by rw [bsize_eq]; omega)

end Head

/-! ### The functions -/

/-- `struct log` as far as the disk is concerned, with the buffers: `lh` is
`lh.block[0..lh.n)`. -/
structure Log where
  start : Blockno
  lh : List Blockno
  bufs : Buffers

namespace Log

/-- The `tail`-th log block. -/
def logBlock (start : Blockno) (tail : ℕ) : Blockno := start + UInt32.ofNat tail + 1

/-- `memmove(to->data, from->data, BSIZE)` and `bwrite(to)`. -/
def copyWrite (s : Log) (dst src : Blockno) : Log :=
  { s with bufs := (s.bufs.store dst (s.bufs.cache src)).bwrite dst }

def writeLog (s : Log) : Log :=
  s.lh.zipIdx.foldl (fun t (b, tail) => t.copyWrite (logBlock s.start tail) b) s

def installTrans (s : Log) : Log :=
  s.lh.zipIdx.foldl (fun t (b, tail) => t.copyWrite b (logBlock s.start tail)) s

def readHead (s : Log) : Log := { s with lh := decodeHead (s.bufs.cache s.start) }

def writeHead (s : Log) : Log :=
  { s with
    bufs := (s.bufs.store s.start (encodeHead (s.bufs.cache s.start) s.lh)).bwrite s.start }

def recoverFromLog (s : Log) : Log :=
  let s := s.readHead.installTrans
  { s with lh := [] }.writeHead

def commit (s : Log) : Log :=
  if 0 < s.lh.length then
    let s := s.writeLog.writeHead.installTrans
    { s with lh := [] }.writeHead
  else s

/-- `initlog` up to the call of `recover_from_log`, after a restart. -/
def initlog (start : Blockno) (d : Disk) : Log where
  start := start
  lh := []
  bufs := .restart d

/-! ### The log of `log.c` as a redo log -/

/-- The log area of the disk. -/
def layout (start : Blockno) : Layout Blockno Block where
  header := start
  slot := logBlock start
  capacity := logblocks
  decode := decodeHead
  slot_inj i hi j hj h := by
    simp only [logblocks, maxopblocks] at hi hj
    rw [logBlock, logBlock, UInt32.add_left_inj, UInt32.add_right_inj, ← UInt32.toNat_inj,
      UInt32.toNat_ofNat', UInt32.toNat_ofNat'] at h
    omega
  slot_ne_header i hi h := by
    simp only [logblocks, maxopblocks] at hi
    have hz : UInt32.ofNat i + 1 = 0 := by
      rw [logBlock] at h
      grind
    rw [← UInt32.toNat_inj, UInt32.toNat_add, UInt32.toNat_ofNat'] at hz
    have h1 : (1 : UInt32).toNat = 1 := rfl
    have h0 : (0 : UInt32).toNat = 0 := rfl
    omega

/-- Blocks written through the buffers. -/
def put (s : Log) (ws : List (Blockno × Block)) : Log := { s with bufs := s.bufs.put ws }

lemma put_put {s : Log} {ws vs : List (Blockno × Block)} :
    (s.put ws).put vs = s.put (ws ++ vs) := by
  rw [put, put, put, Buffers.put_put]

variable {s : Log}

lemma copyWrite_eq (dst src : Blockno) : s.copyWrite dst src = s.put [(dst, s.bufs.cache src)] := by
  rw [copyWrite, Buffers.store_bwrite, put]

lemma writeHead_eq : s.writeHead = s.put [(s.start, encodeHead (s.bufs.cache s.start) s.lh)] := by
  rw [writeHead, Buffers.store_bwrite, put]

/-- A loop that copies blocks which it does not overwrite writes what was in them before it. -/
lemma foldl_copyWrite {γ : Type*} (l : List γ) (dst src : γ → Blockno)
    (h : ∀ x ∈ l, ∀ y ∈ l, src x ≠ dst y) (s : Log) :
    l.foldl (fun s x => s.copyWrite (dst x) (src x)) s
      = s.put (l.map fun x => (dst x, s.bufs.cache (src x))) := by
  induction l generalizing s with
  | nil => simp [put]
  | cons x l ih =>
    rw [List.foldl_cons, copyWrite_eq,
      ih (fun y hy z hz => h y (List.mem_cons_of_mem _ hy) z (List.mem_cons_of_mem _ hz)), put_put,
      List.map_cons, List.singleton_append]
    congr 2
    refine List.map_congr_left fun y hy => ?_
    have hne := h y (List.mem_cons_of_mem _ hy) x (List.mem_cons_self ..)
    exact congrArg (Prod.mk _) (write_of_ne (w := (dst x, s.bufs.cache (src x))) hne)

/-- The blocks listed in `lh` are home blocks, and there are slots for them. -/
structure Listed (s : Log) : Prop where
  length_le : s.lh.length ≤ logblocks
  home : ∀ b ∈ s.lh, (layout s.start).Home b

lemma mem_zipIdx {l : List Blockno} {x : Blockno × ℕ} (h : x ∈ l.zipIdx) :
    x.1 ∈ l ∧ x.2 < l.length := by
  obtain ⟨b, i⟩ := x
  obtain ⟨hi, he⟩ := List.getElem?_eq_some_iff.mp (List.mem_zipIdx_iff_getElem?.mp h)
  exact ⟨he ▸ List.getElem_mem hi, hi⟩

/-- **`write_log` fills the slots.** -/
lemma Listed.writeLog_eq (h : s.Listed) : s.writeLog =
    s.put ((layout s.start).stages (s.lh.map fun b => (b, s.bufs.cache b))) := by
  have hloop := foldl_copyWrite s.lh.zipIdx (fun x => logBlock s.start x.2) Prod.fst
    (fun x hx y hy => (h.home _ (mem_zipIdx hx).1).2 _ ((mem_zipIdx hy).2.trans_le h.length_le)) s
  refine Eq.trans hloop (congrArg s.put ?_)
  rw [Layout.stages, List.zipIdx_map, List.map_map]
  rfl

/-- **`install_trans` installs the slots.** -/
lemma Listed.installTrans_eq (h : s.Listed) : s.installTrans =
    s.put (s.lh.zipIdx.map fun x => (x.1, s.bufs.cache (logBlock s.start x.2))) :=
  foldl_copyWrite s.lh.zipIdx Prod.fst (fun x => logBlock s.start x.2) (fun _ hx _ hy => Ne.symm <|
      (h.home _ (mem_zipIdx hy).1).2 _ ((mem_zipIdx hx).2.trans_le h.length_le)) s

/-- **`recover_from_log` does what a redo log does to recover.** -/
lemma recoverFromLog_eq (hlh : s.bufs.cache = s.bufs.disk)
    (hwf : (layout s.start).WellFormed s.bufs.disk) :
    ∃ h0, word h0 0 = 0 ∧ s.recoverFromLog =
      { s with lh := [] }.put ((layout s.start).installs s.bufs.disk ++ [(s.start, h0)]) := by
  have hlisted : s.readHead.Listed := by
    rw [← hlh] at hwf
    exact ⟨hwf.length_le, hwf.home⟩
  refine ⟨encodeHead (after s.bufs.disk ((layout s.start).installs s.bufs.disk) s.start) [],
    word_encodeHead_nil, ?_⟩
  have hinst : s.readHead.installTrans
      = s.readHead.put ((layout s.start).installs s.bufs.disk) := by
    rw [hlisted.installTrans_eq, ← hlh]
    rfl
  rw [recoverFromLog, hinst]
  simp only [writeHead_eq]
  rw [← put_put, ← hlh]
  rfl

/-- **`commit` does what a redo log does to commit**, `l` being the blocks listed in the header with
what is in their buffers. -/
lemma commit_eq {l : List (Blockno × Block)} (hl : (layout s.start).Fits l)
    (hlh : s.lh = l.map Prod.fst) (hcache : ∀ w ∈ l, s.bufs.cache w.1 = w.2) (hne : l ≠ []) :
    s.commit = { s with lh := [] }.put ((layout s.start).commitWrites l
      (encodeHead (s.bufs.cache s.start) s.lh)
      (encodeHead (encodeHead (s.bufs.cache s.start) s.lh) [])) := by
  have hlisted : s.Listed := by
    constructor <;> rw [hlh]
    · rw [List.length_map]
      exact hl.length_le
    · intro b hb
      obtain ⟨w, hw, rfl⟩ := List.mem_map.mp hb
      exact hl.home w hw
  have hblocks : (s.lh.map fun b => (b, s.bufs.cache b)) = l := by
    rw [hlh, List.map_map, List.map_congr_left (g := id) fun w hw => ?_, List.map_id]
    exact Prod.ext rfl (hcache w hw)
  -- the slots are filled; this does not touch the header
  have hlog : s.writeLog = s.put ((layout s.start).stages l) := by
    rw [hlisted.writeLog_eq, hblocks]
  have hheader : after s.bufs.cache ((layout s.start).stages l) s.start = s.bufs.cache s.start := by
    have hframe := Layout.stages_frame (d := s.bufs.cache) hl
      (fun i hi => ((layout s.start).slot_ne_header i hi).symm) l.length
    rwa [← Layout.length_stages (L := layout s.start), List.take_length] at hframe
  -- the header is written
  have hhead : s.writeLog.writeHead = s.put ((layout s.start).stages l ++
      [(s.start, encodeHead (s.bufs.cache s.start) s.lh)]) := by
    rw [hlog, writeHead_eq, ← put_put, ← hheader]
    rfl
  have hdecode : decodeHead (encodeHead (s.bufs.cache s.start) s.lh) = l.map Prod.fst := by
    rw [decodeHead_encodeHead hlisted.length_le, hlh]
  -- the blocks are installed
  have hinst : s.writeLog.writeHead.installTrans = s.put ((layout s.start).stages l ++
      [(s.start, encodeHead (s.bufs.cache s.start) s.lh)] ++ l) := by
    have hlisted' : (s.put ((layout s.start).stages l ++
        [(s.start, encodeHead (s.bufs.cache s.start) s.lh)])).Listed :=
      ⟨hlisted.length_le, hlisted.home⟩
    rw [hhead, hlisted'.installTrans_eq, put_put]
    have hcommitted := Layout.installs_committed (d := s.bufs.cache) hl hdecode
    rw [Layout.installs, Layout.committed_entries hdecode, ← hlh, ← Layout.after_stages_header]
      at hcommitted
    exact congrArg (fun ws => s.put (_ ++ ws)) hcommitted
  -- the header is erased
  have hend : after s.bufs.cache ((layout s.start).stages l ++
      [(s.start, encodeHead (s.bufs.cache s.start) s.lh)] ++ l) s.start
      = encodeHead (s.bufs.cache s.start) s.lh := by
    rw [after_append,
      after_of_ne fun w hw (he : s.start = w.1) => (hl.home w hw).1 he.symm, after_append]
    exact Function.update_self ..
  have herase : ∀ ws, { s.put ws with lh := [] }.writeHead =
      { s with lh := [] }.put
        (ws ++ [(s.start, encodeHead (after s.bufs.cache ws s.start) [])]) := by
    intro ws
    rw [← put_put]
    exact writeHead_eq
  rw [commit, if_pos (by rw [hlh, List.length_map]; exact List.length_pos_of_ne_nil hne), hinst]
  have hfinal := herase ((layout s.start).stages l ++
    [(s.start, encodeHead (s.bufs.cache s.start) s.lh)] ++ l)
  rw [hend] at hfinal
  refine hfinal.trans (congrArg _ ?_)
  simp only [List.append_assoc, List.cons_append]
  rfl

/-! ### Transactions -/

/-- The blocks a transaction has modified: different home blocks, at most `LOGBLOCKS` of them. -/
structure Txn (start : Blockno) where
  blocks : List (Blockno × Block)
  fits : (layout start).Fits blocks

/-- The calls of `log_write` for the blocks of a transaction: they are modified in the cache and
listed in the header. -/
def modify {start : Blockno} (s : Log) (t : Txn start) : Log :=
  { s with
    lh := t.blocks.map Prod.fst
    bufs := { s.bufs with cache := after s.bufs.cache t.blocks } }

/-- A transaction: its blocks are modified, and it is committed. -/
def transact {start : Blockno} (s : Log) (t : Txn start) : Log := (s.modify t).commit

def transactions {start : Blockno} (s : Log) (ts : List (Txn start)) : Log := ts.foldl transact s

/-- The home blocks after transactions. -/
def contentAfter {start : Blockno} (d : Disk) (ts : List (Txn start)) : Disk :=
  after d (ts.flatMap Txn.blocks)

/-- No transaction is under way: nothing is logged and no buffer differs from the disk. -/
structure Clean (s : Log) : Prop where
  lh : s.lh = []
  cache : s.bufs.cache = s.bufs.disk
  entries : (layout s.start).entries s.bufs.disk = []

/-- The writes of the commit of a transaction. -/
def txnWrites {start : Blockno} (d : Disk) (t : Txn start) : List (Blockno × Block) :=
  if t.blocks = [] then []
  else
    let h1 := encodeHead (d start) (t.blocks.map Prod.fst)
    (layout start).commitWrites t.blocks h1 (encodeHead h1 [])

/-- **A transaction writes what a redo log writes**, and leaves no buffer that differs from the
disk. -/
lemma Clean.transact_eq (h : s.Clean) (t : Txn s.start) :
    s.transact t = s.put (txnWrites s.bufs.disk t) := by
  have hlh := h.lh
  by_cases hnil : t.blocks = []
  · rw [txnWrites, if_pos hnil, transact, commit, if_neg (by simp [modify, hnil])]
    cases s
    simp_all [modify, put]
  · have hheader : (s.modify t).bufs.cache s.start = s.bufs.disk s.start := by
      rw [← h.cache]
      exact after_of_ne fun w hw (he : s.start = w.1) => (t.fits.home w hw).1 he.symm
    have hcommit := commit_eq (s := s.modify t) t.fits rfl
      (fun w hw => after_of_mem t.fits.nodup hw) hnil
    rw [show (s.modify t).start = s.start from rfl, hheader] at hcommit
    rw [txnWrites, if_neg hnil, transact, hcommit]
    -- the blocks that were modified in the cache are installed, so the cache is the disk again
    have hcongr : ∀ ws, t.blocks ⊆ ws → after (s.modify t).bufs.cache ws =
        after s.bufs.cache ws := by
      intro ws hws
      refine after_congr fun a => ?_
      by_cases ha : ∃ w ∈ t.blocks, a = w.1
      · obtain ⟨w, hw, rfl⟩ := ha
        exact .inr ⟨w, hws hw, rfl⟩
      · exact .inl (after_of_ne fun w hw he => ha ⟨w, hw, he⟩)
    rw [put, put, Buffers.put, hcongr _ fun w hw => by simp [Layout.commitWrites, hw], ← hlh]
    rfl

lemma decode_txn (t : Txn s.start) (hb : Block) :
    decodeHead (encodeHead hb (t.blocks.map Prod.fst)) = t.blocks.map Prod.fst :=
  decodeHead_encodeHead (by rw [List.length_map]; exact t.fits.length_le)

lemma Clean.transact (h : s.Clean) (t : Txn s.start) :
    (s.put (txnWrites s.bufs.disk t)).Clean ∧ ∀ a, (layout s.start).Home a →
      after s.bufs.disk (txnWrites s.bufs.disk t) a = after s.bufs.disk t.blocks a := by
  have hcache : (s.put (txnWrites s.bufs.disk t)).bufs.cache
      = (s.put (txnWrites s.bufs.disk t)).bufs.disk := by
    show after s.bufs.cache _ = after s.bufs.disk _
    rw [h.cache]
  by_cases hnil : t.blocks = []
  · rw [txnWrites, if_pos hnil] at hcache ⊢
    exact ⟨⟨h.lh, hcache, h.entries⟩, fun a _ => by rw [hnil]⟩
  · rw [txnWrites, if_neg hnil] at hcache ⊢
    obtain ⟨hentries, hhome⟩ := Layout.commit_all (d := s.bufs.disk) t.fits (decode_txn t _)
      (decodeHead_eq_nil word_encodeHead_nil)
    exact ⟨⟨h.lh, hcache, hentries⟩, hhome⟩

/-- **A crash during a transaction** leaves the old contents or the new ones, and the old ones only
if the commit has not returned. -/
lemma Clean.crash (h : s.Clean) (t : Txn s.start) {n : ℕ}
    (hn : n < (txnWrites s.bufs.disk t).length) :
    (layout s.start).WellFormed (after s.bufs.disk ((txnWrites s.bufs.disk t).take n)) ∧
      ∃ j ≤ 1, ∀ a, (layout s.start).Home a →
        (layout s.start).content (after s.bufs.disk ((txnWrites s.bufs.disk t).take n)) a
          = contentAfter s.bufs.disk ([t].take j) a := by
  have hne : t.blocks ≠ [] := by
    intro hnil
    rw [txnWrites, if_pos hnil] at hn
    cases hn
  rw [txnWrites, if_neg hne]
  obtain ⟨hwf, hcontent⟩ := Layout.commit_prefix h.entries t.fits
    (decode_txn t (s.bufs.disk s.start)) (decodeHead_eq_nil word_encodeHead_nil) n
  refine ⟨hwf, if n ≤ t.blocks.length then 0 else 1, by split_ifs <;> omega, fun a ha => ?_⟩
  rw [hcontent a ha]
  split_ifs
  · rfl
  · simp [contentAfter]

lemma Clean.transactions_cons (h : s.Clean) (t : Txn s.start) (ts : List (Txn s.start)) :
    s.transactions (t :: ts) = (s.put (txnWrites s.bufs.disk t)).transactions ts := by
  rw [transactions, List.foldl_cons, h.transact_eq]
  rfl

variable {start : Blockno}

lemma length_writes_le (ts : List (Txn start)) (s : Log) (hs : s.start = start) (h : s.Clean) :
    s.bufs.writes.length ≤ (s.transactions ts).bufs.writes.length := by
  induction ts generalizing s with
  | nil => exact le_rfl
  | cons t ts ih =>
    subst hs
    rw [h.transactions_cons]
    refine le_trans ?_ (ih (s.put (txnWrites s.bufs.disk t)) rfl (h.transact t).1)
    exact (List.length_append ▸ Nat.le_add_right _ _ :
      s.bufs.writes.length ≤ (s.bufs.writes ++ txnWrites s.bufs.disk t).length)

/-- **A crash during a sequence of transactions**: the contents are those after some prefix of
them, which includes all whose commit has returned. -/
lemma transactions_spec (ts : List (Txn start)) (s : Log) (hs : s.start = start) (h : s.Clean) :
    ∃ ws, (s.transactions ts).bufs.writes = s.bufs.writes ++ ws ∧
      ∀ n, (layout start).WellFormed (after s.bufs.disk (ws.take n)) ∧
        ∃ j ≤ ts.length, (∀ a, (layout start).Home a →
            (layout start).content (after s.bufs.disk (ws.take n)) a
              = contentAfter s.bufs.disk (ts.take j) a) ∧
          ∀ m ≤ ts.length,
            (s.transactions (ts.take m)).bufs.writes.length ≤ s.bufs.writes.length + n → m ≤ j := by
  induction ts generalizing s with
  | nil =>
    subst hs
    refine ⟨[], by simp [transactions], fun n => ?_⟩
    rw [List.take_nil, after_nil]
    exact ⟨Layout.wellFormed_of_nil h.entries, 0, le_refl 0,
      fun a _ => Layout.content_of_nil h.entries, fun m hm _ => hm⟩
  | cons t ts ih =>
    subst hs
    obtain ⟨hclean, hhome⟩ := h.transact t
    obtain ⟨ws, hws, hrest⟩ := ih (s.put (txnWrites s.bufs.disk t)) rfl hclean
    have hwrites : (s.put (txnWrites s.bufs.disk t)).bufs.writes
        = s.bufs.writes ++ txnWrites s.bufs.disk t := rfl
    refine ⟨txnWrites s.bufs.disk t ++ ws,
      by rw [h.transactions_cons, hws, hwrites, List.append_assoc], fun n => ?_⟩
    by_cases hn : n < (txnWrites s.bufs.disk t).length
    · -- the crash comes in the first transaction
      rw [List.take_append_of_le_length hn.le]
      obtain ⟨hwf, j, hj, hcontent⟩ := h.crash t hn
      refine ⟨hwf, j, by rw [List.length_cons]; omega, fun a ha => ?_, fun i hi hlen => ?_⟩
      · rw [hcontent a ha]
        interval_cases j <;> rfl
      · cases i with
        | zero => exact Nat.zero_le j
        | succ i =>
          -- its commit has not returned
          rw [List.take_succ_cons, h.transactions_cons] at hlen
          have hgrow := length_writes_le (ts.take i) (s.put (txnWrites s.bufs.disk t)) rfl hclean
          rw [hwrites, List.length_append] at hgrow
          omega
    · -- the first transaction has been committed
      obtain ⟨m, rfl⟩ : ∃ m, n = (txnWrites s.bufs.disk t).length + m :=
        ⟨n - (txnWrites s.bufs.disk t).length, by omega⟩
      rw [List.take_length_add_append, after_append]
      obtain ⟨hwf, j, hj, hcontent, hdone⟩ := hrest m
      refine ⟨hwf, j + 1, by simpa using hj, fun a ha => ?_, fun i hi hlen => ?_⟩
      · refine (hcontent a ha).trans ?_
        rw [contentAfter, contentAfter, List.take_succ_cons, List.flatMap_cons, after_append]
        exact after_apply_congr (hhome a ha)
      · cases i with
        | zero => exact Nat.zero_le _
        | succ i =>
          rw [List.take_succ_cons, h.transactions_cons] at hlen
          have := hdone i (by simpa using hi) (by rw [hwrites, List.length_append]; omega)
          omega

/-! ### Crashes -/

/-- The disk after a crash that lets `n` writes of `recover_from_log` through. -/
def crashedRecovery (start : Blockno) (d : Disk) (n : ℕ) : Disk :=
  after d ((initlog start d).recoverFromLog.bufs.writes.take n)

/-- **A crash during recovery** changes nothing. -/
lemma crashedRecovery_content {d : Disk} (h : (layout start).WellFormed d) (n : ℕ) :
    (layout start).WellFormed (crashedRecovery start d n) ∧ ∀ a, (layout start).Home a →
        (layout start).content (crashedRecovery start d n) a = (layout start).content d a := by
  obtain ⟨h0, hnil, heq⟩ := recoverFromLog_eq (s := initlog start d) rfl h
  rw [crashedRecovery, heq]
  exact Layout.recover_prefix h (decodeHead_eq_nil hnil) n

/-- **Recovery completes.** -/
lemma recoverFromLog_disk {d : Disk} (h : (layout start).WellFormed d) :
    word ((initlog start d).recoverFromLog.bufs.disk start) 0 = 0 ∧ ∀ a, (layout start).Home a →
        (initlog start d).recoverFromLog.bufs.disk a = (layout start).content d a := by
  obtain ⟨h0, hnil, heq⟩ := recoverFromLog_eq (s := initlog start d) rfl h
  rw [heq]
  refine ⟨?_, (Layout.recover_all h (decodeHead_eq_nil hnil)).2⟩
  show word (after d _ start) 0 = 0
  rw [after_append]
  exact (congrArg (word · 0) (Function.update_self ..)).trans hnil

/-- **The log is atomic across crashes.** Transactions are performed one after another on a disk
whose log is empty, and the machine crashes after `n` of their block writes; recovery is then
started, crashed and started again any number of times, each time after some number of its writes.
Once it completes, the header has `n = 0` and every home block is what it is after the first `j`
transactions, for some `j` that is at least the number of transactions whose `commit` had
returned. -/
theorem crash_atomicity {start : Blockno} (d : Disk) (hd : word (d start) 0 = 0)
    (ts : List (Txn start)) (n : ℕ) (crashes : List ℕ) :
    let crashed := after d (((initlog start d).transactions ts).bufs.writes.take n)
    let s := (initlog start (crashes.foldl (crashedRecovery start) crashed)).recoverFromLog
    word (s.bufs.disk start) 0 = 0 ∧
    ∃ j ≤ ts.length, (∀ a, (layout start).Home a → s.bufs.disk a = contentAfter d (ts.take j) a) ∧
      ∀ m ≤ ts.length,
        ((initlog start d).transactions (ts.take m)).bufs.writes.length ≤ n → m ≤ j := by
  intro crashed s
  have hclean : (initlog start d).Clean := ⟨rfl, rfl, decodeHead_eq_nil hd⟩
  obtain ⟨ws, hws, hcrash⟩ := transactions_spec ts (initlog start d) rfl hclean
  obtain ⟨hwf, j, hj, hcontent, hdone⟩ := hcrash n
  rw [show (initlog start d).bufs.writes = [] from rfl, List.nil_append] at hws
  rw [← hws] at hwf hcontent
  -- interrupted recoveries change nothing
  have hloop : ∀ (crashes : List ℕ) (d₁ : Disk), (layout start).WellFormed d₁ →
      (layout start).WellFormed (crashes.foldl (crashedRecovery start) d₁) ∧
        ∀ a, (layout start).Home a →
          (layout start).content (crashes.foldl (crashedRecovery start) d₁) a
            = (layout start).content d₁ a := by
    intro crashes
    induction crashes with
    | nil => exact fun d₁ h => ⟨h, fun _ _ => rfl⟩
    | cons k crashes ih =>
      intro d₁ h
      obtain ⟨h', hsame⟩ := crashedRecovery_content h k
      obtain ⟨h'', hsame'⟩ := ih _ h'
      exact ⟨h'', fun a ha => (hsame' a ha).trans (hsame a ha)⟩
  obtain ⟨hwf', hcontent'⟩ := hloop crashes crashed hwf
  obtain ⟨hzero, hdisk⟩ := recoverFromLog_disk hwf'
  refine ⟨hzero, j, hj, fun a ha => ?_,
    fun m hm hlen => hdone m hm (hlen.trans (Nat.le_add_left _ _))⟩
  calc s.bufs.disk a
      = (layout start).content (crashes.foldl (crashedRecovery start) crashed) a := hdisk a ha
    _ = (layout start).content crashed a := hcontent' a ha
    _ = contentAfter d (ts.take j) a := hcontent a ha

/-- A transaction that fills block 100, the log being at block 2. -/
def oneBlock : Txn 2 where
  blocks := [(100, fun _ => 1)]
  fits := by
    refine ⟨List.nodup_singleton _, by decide, fun w hw => ?_⟩
    rw [List.mem_singleton.mp hw]
    exact ⟨by decide, by decide⟩

/-- The hypothesis is met by a disk of zeros: a transaction of one block crashes when its header
has been written, and the recovery after it crashes before its first write. -/
theorem crash_atomicity_one : let d : Disk := fun _ _ => 0
    let crashed := after d (((initlog 2 d).transactions [oneBlock]).bufs.writes.take 2)
    word (d 2) 0 = 0 ∧
    ∃ j ≤ 1, (initlog 2 (crashedRecovery 2 crashed 0)).recoverFromLog.bufs.disk 100
      = contentAfter d ([oneBlock].take j) 100 := by
  have hzero : word (fun _ => 0 : Block) 0 = 0 := by decide +kernel
  obtain ⟨-, j, hj, hdisk, -⟩ := crash_atomicity (fun _ _ => 0) hzero [oneBlock] 2 [0]
  exact ⟨hzero, j, hj, hdisk 100 (oneBlock.fits.home _ (List.mem_singleton.mpr rfl))⟩

end Log

end Xv6Riscv
