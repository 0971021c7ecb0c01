import Mathlib.Data.Fintype.Basic
import Mathlib.Logic.Relation
import Mathlib.Tactic

/-!
Console output (`consolewrite` of `console.c`, `uartwrite` of `uart.c`).

`consolewrite` moves the bytes of a call to the UART in batches of at most 32, and `uartwrite` holds
`tx_lock` for one batch. The machine below interleaves any number of calls, byte by byte. Waiting
for the lock or for the transmitter is no step. Every byte that was sent carries the call it belongs
to.

* `Served`: when all calls fit into one batch, what was sent is a sequence of whole calls.
* `console_writes_serialized`: the calls that are serialized in every interleaving.
-/

namespace Xv6Riscv

open Function (update update_idem update_of_ne update_self)
open Relation

/-- The size of the buffer of `consolewrite`. -/
def writeBatch : ℕ := 32

/-- Where a call of `consolewrite` is, when `i` bytes were sent in earlier batches. -/
inductive SendPc
  /-- at the head of the loop -/
  | loop (i : ℕ)
  /-- the batch has been copied, `uartwrite` is about to take `tx_lock` -/
  | copied (i : ℕ)
  /-- in `uartwrite` with `tx_lock` held, `j` bytes of the batch have been sent -/
  | sending (i j : ℕ)
  | done
  deriving DecidableEq

/-- How many bytes a call of `n` bytes has sent. -/
def SendPc.sent (n : ℕ) : SendPc → ℕ
  | .loop i => i
  | .copied i => i
  | .sending i j => i + j
  | .done => n

/-- The size of the batch of a call with `n` bytes after `i` bytes. -/
def batch (n i : ℕ) : ℕ := min writeBatch (n - i)

/-- The indices of the call are in range. -/
def SendPc.Ok (n : ℕ) : SendPc → Prop
  | .loop i => i ≤ n
  | .copied i => i < n
  | .sending i j => i < n ∧ j ≤ batch n i
  | .done => True

/-- What a call of `n` bytes has still to do. -/
def SendPc.rest (n : ℕ) : SendPc → ℕ
  | .loop i => 4 * (n - i) + 1
  | .copied i => 4 * (n - i)
  | .sending i j => 4 * (n - i) - 1 - j
  | .done => 0

/-- The calls, the holder of `tx_lock`, and what has been sent. -/
structure Transmit (ι : Type*) where
  pc : ι → SendPc
  txLock : Option ι
  out : List (ι × UInt8)

namespace Transmit

variable {ι : Type*}

def init : Transmit ι := ⟨fun _ => .loop 0, none, []⟩

def block (msg : ι → List UInt8) (c : ι) : List (ι × UInt8) := (msg c).map (c, ·)

variable [DecidableEq ι] {msg : ι → List UInt8} {s s' : Transmit ι} {c d : ι}

/-- Another place for the call `c`. -/
def goto (s : Transmit ι) (c : ι) (pc : SendPc) : Transmit ι :=
  { s with pc := update s.pc c pc }

/-- The next step of the call `c`, if it can take one. -/
def step (msg : ι → List UInt8) (c : ι) (s : Transmit ι) : Option (Transmit ι) :=
  match s.pc c with
  | .loop i =>
    if i < (msg c).length then some (s.goto c (.copied i)) else some (s.goto c .done)
  | .copied i =>
    if s.txLock.isNone then some { s.goto c (.sending i 0) with txLock := some c } else none
  | .sending i j =>
    if j < batch (msg c).length i then
      some { s.goto c (.sending i (j + 1)) with out := s.out ++ [(c, (msg c).getD (i + j) 0)] }
    else some { s.goto c (.loop (i + batch (msg c).length i)) with txLock := none }
  | .done => none

/-- What a step of the call `c` can be. -/
inductive Moves (msg : ι → List UInt8) (c : ι) (s : Transmit ι) : Transmit ι → Prop
  | copy (i : ℕ) : s.pc c = .loop i → i < (msg c).length → Moves msg c s (s.goto c (.copied i))
  | finish (i : ℕ) : s.pc c = .loop i → (msg c).length ≤ i → Moves msg c s (s.goto c .done)
  | acquire (i : ℕ) : s.pc c = .copied i → s.txLock = none →
      Moves msg c s { s.goto c (.sending i 0) with txLock := some c }
  | transmit (i j : ℕ) : s.pc c = .sending i j → j < batch (msg c).length i →
      Moves msg c s
        { s.goto c (.sending i (j + 1)) with out := s.out ++ [(c, (msg c).getD (i + j) 0)] }
  | release (i j : ℕ) : s.pc c = .sending i j → batch (msg c).length i ≤ j →
      Moves msg c s { s.goto c (.loop (i + batch (msg c).length i)) with txLock := none }

lemma step_eq_some : step msg c s = some s' ↔ Moves msg c s s' := by
  constructor
  · intro h
    rw [step] at h
    split at h
    · split_ifs at h with hi
      · exact Option.some.inj h ▸ .copy _ ‹_› hi
      · exact Option.some.inj h ▸ .finish _ ‹_› (not_lt.mp hi)
    · split_ifs at h with hlock
      · exact Option.some.inj h ▸ .acquire _ ‹_› (Option.isNone_iff_eq_none.mp hlock)
    · split_ifs at h with hj
      · exact Option.some.inj h ▸ .transmit _ _ ‹_› hj
      · exact Option.some.inj h ▸ .release _ _ ‹_› (not_lt.mp hj)
    · cases h
  · intro h
    cases h with
    | copy i hpc hi => simp only [step, hpc, if_pos hi]
    | finish i hpc hi => simp only [step, hpc, if_neg (not_lt.mpr hi)]
    | acquire i hpc hlock => simp only [step, hpc, hlock, Option.isNone_none, if_true]
    | transmit i j hpc hj => simp only [step, hpc, if_pos hj]
    | release i j hpc hj => simp only [step, hpc, if_neg (not_lt.mpr hj)]

def Run (msg : ι → List UInt8) : Transmit ι → Transmit ι → Prop :=
  ReflTransGen fun s s' => ∃ c, step msg c s = some s'

/-- What was sent is a sequence of whole calls, and every call that has bytes is among them. -/
def Serialized (msg : ι → List UInt8) (out : List (ι × UInt8)) : Prop :=
  ∃ order : List ι, order.Nodup ∧ (∀ c, msg c ≠ [] → c ∈ order) ∧ out = order.flatMap (block msg)

/-! ### What holds in every interleaving -/

def sentBlock (msg : ι → List UInt8) (s : Transmit ι) (c : ι) : List (ι × UInt8) :=
  (block msg c).take ((s.pc c).sent (msg c).length)

/-- The indices are in range, `tx_lock` is held by the call that is sending, and the bytes of each
call are sent in order. -/
structure Ordered (msg : ι → List UInt8) (s : Transmit ι) : Prop where
  ok : ∀ c, (s.pc c).Ok (msg c).length
  lock : ∀ c, s.txLock = some c ↔ ∃ i j, s.pc c = .sending i j
  out : ∀ c, s.out.filter (fun x => x.1 = c) = sentBlock msg s c

lemma goto_self (pc : SendPc) : (s.goto c pc).pc c = pc := update_self ..

lemma goto_of_ne (pc : SendPc) (h : d ≠ c) : (s.goto c pc).pc d = s.pc d :=
  update_of_ne h ..

lemma batch_le (n i : ℕ) : batch n i ≤ n - i := min_le_right _ _

omit [DecidableEq ι] in
lemma take_block_succ {k : ℕ} (h : k < (msg c).length) :
    (block msg c).take (k + 1) = (block msg c).take k ++ [(c, (msg c).getD k 0)] := by
  have hk : k < (block msg c).length := by rwa [block, List.length_map]
  rw [List.take_succ_eq_append_getElem hk]
  simp [block, List.getD_eq_getElem?_getD, h]

lemma init_ordered : Ordered msg (init : Transmit ι) where
  ok _ := Nat.zero_le _
  lock c := iff_of_false (fun h => by cases h) fun ⟨_, _, h⟩ => by cases h
  out _ := rfl

lemma Ordered.goto (h : Ordered msg s) {pc : SendPc} (lock : Option ι)
    (hok : pc.Ok (msg c).length) (hsent : pc.sent (msg c).length = (s.pc c).sent (msg c).length)
    (hself : lock = some c ↔ ∃ i j, pc = .sending i j)
    (hlock : ∀ d, d ≠ c → (lock = some d ↔ s.txLock = some d)) :
    Ordered msg { s.goto c pc with txLock := lock } where
  ok d := by
    by_cases hd : d = c
    · rw [hd, goto_self]
      exact hok
    · rw [goto_of_ne _ hd]
      exact h.ok d
  lock d := by
    by_cases hd : d = c
    · rw [hd, goto_self]
      exact hself
    · rw [goto_of_ne _ hd, ← h.lock d]
      exact hlock d hd
  out d := by
    change s.out.filter _ = _
    rw [h.out d, sentBlock, sentBlock]
    by_cases hd : d = c
    · rw [hd, goto_self, hsent]
    · rw [goto_of_ne _ hd]

/-- **Every step** keeps the bytes of each call in order. -/
lemma Ordered.step (h : Ordered msg s) (hstep : Moves msg c s s') : Ordered msg s' := by
  have hok := h.ok c
  have hsame : ∀ d, d ≠ c → (s.txLock = some d ↔ s.txLock = some d) := fun _ _ => Iff.rfl
  cases hstep with
  | copy i hpc hi =>
    refine h.goto s.txLock hi (by rw [hpc]; rfl) ?_ hsame
    rw [h.lock c, hpc]
    simp
  | finish i hpc hi =>
    rw [hpc] at hok
    have hi' : i = (msg c).length := le_antisymm hok hi
    refine h.goto s.txLock trivial (by rw [hpc, hi']; rfl) ?_ hsame
    rw [h.lock c, hpc]
    simp
  | acquire i hpc hlock =>
    rw [hpc] at hok
    refine h.goto (some c) ⟨hok, Nat.zero_le _⟩ (by rw [hpc]; rfl) (by simp) fun d hd => ?_
    rw [hlock]
    simp [Ne.symm hd]
  | transmit i j hpc hj =>
    rw [hpc] at hok
    have hlt : i + j < (msg c).length := by
      have := batch_le (msg c).length i
      omega
    have hlock : s.txLock = some c := (h.lock c).mpr ⟨i, j, hpc⟩
    refine ⟨fun d => ?_, fun d => ?_, fun d => ?_⟩
    · by_cases hd : d = c
      · rw [hd]
        change ((s.goto c (.sending i (j + 1))).pc c).Ok _
        rw [goto_self]
        exact ⟨hok.1, hj⟩
      · change ((s.goto c (.sending i (j + 1))).pc d).Ok _
        rw [goto_of_ne _ hd]
        exact h.ok d
    · change s.txLock = some d ↔ ∃ i' j', (s.goto c (.sending i (j + 1))).pc d = .sending i' j'
      by_cases hd : d = c
      · rw [hd, goto_self]
        exact iff_of_true hlock ⟨i, j + 1, rfl⟩
      · rw [goto_of_ne _ hd]
        exact h.lock d
    · change (s.out ++ [(c, (msg c).getD (i + j) 0)]).filter (fun x => x.1 = d) =
        (block msg d).take (((s.goto c (.sending i (j + 1))).pc d).sent _)
      rw [List.filter_append, h.out d, sentBlock]
      by_cases hd : d = c
      · subst hd
        rw [goto_self, hpc, SendPc.sent, SendPc.sent, ← add_assoc, take_block_succ hlt]
        simp
      · rw [goto_of_ne _ hd]
        simp [Ne.symm hd]
  | release i j hpc hj =>
    rw [hpc] at hok
    have hji : j = batch (msg c).length i := le_antisymm hok.2 hj
    have hlock : s.txLock = some c := (h.lock c).mpr ⟨i, j, hpc⟩
    have hle := batch_le (msg c).length i
    have hin : i + batch (msg c).length i ≤ (msg c).length := by
      have := hok.1
      omega
    refine h.goto none hin (by rw [hpc, hji]; rfl) (by simp) fun d hd => ?_
    rw [hlock]
    simp [Ne.symm hd]

lemma Run.ordered (h : Run msg init s) : Ordered msg s := by
  induction h with
  | refl => exact init_ordered
  | tail _ hstep ih =>
    obtain ⟨c, hc⟩ := hstep
    exact ih.step (step_eq_some.mp hc)

lemma filter_out (h : Run msg init s) (hdone : s.pc c = .done) :
    s.out.filter (fun x => x.1 = c) = block msg c := by
  rw [h.ordered.out c, sentBlock, hdone, SendPc.sent]
  exact List.take_of_length_le (by rw [block, List.length_map])

/-! ### Calls of one batch -/

/-- The calls of `order` have been sent one after another, then the part of the call that holds the
lock; the other calls have sent nothing. -/
structure Served (msg : ι → List UInt8) (s : Transmit ι) (order : List ι) : Prop where
  nodup : order.Nodup
  out : s.out = order.flatMap (block msg) ++ (s.txLock.map (sentBlock msg s)).getD []
  whole : ∀ c ∈ order, (s.pc c).sent (msg c).length = (msg c).length ∧ s.txLock ≠ some c
  others : ∀ c, c ∉ order → s.txLock ≠ some c → (s.pc c).sent (msg c).length = 0

omit [DecidableEq ι] in
lemma init_served : Served msg (init : Transmit ι) [] :=
  ⟨List.nodup_nil, rfl, fun _ hc => absurd hc List.not_mem_nil, fun _ _ _ => rfl⟩

lemma Served.goto {order : List ι} {pc : SendPc} (h : Served msg s order)
    (hsent : pc.sent (msg c).length = (s.pc c).sent (msg c).length) :
    Served msg (s.goto c pc) order := by
  have hpc : ∀ d, ((s.goto c pc).pc d).sent (msg d).length = (s.pc d).sent (msg d).length := by
    intro d
    by_cases hd : d = c
    · rw [hd, goto_self, hsent]
    · rw [goto_of_ne _ hd]
  have hblock : sentBlock msg (s.goto c pc) = sentBlock msg s := by
    funext d
    rw [sentBlock, sentBlock, hpc]
  refine ⟨h.nodup, ?_, fun d hd => ?_, fun d hd hl => ?_⟩
  · rw [hblock]
    exact h.out
  · rw [hpc]
    exact h.whole d hd
  · rw [hpc]
    exact h.others d hd hl

/-- **Every step of calls of one batch** keeps whole calls together. -/
lemma Served.step {order : List ι} (h : Served msg s order) (ho : Ordered msg s)
    (hfit : (msg c).length ≤ writeBatch) (hstep : Moves msg c s s') :
    ∃ order', Served msg s' order' := by
  have hok := ho.ok c
  cases hstep with
  | copy i hpc hi => exact ⟨order, h.goto (by rw [hpc]; rfl)⟩
  | finish i hpc hi =>
    rw [hpc] at hok
    have hi' : i = (msg c).length := le_antisymm hok hi
    exact ⟨order, h.goto (by rw [hpc, hi']; rfl)⟩
  | acquire i hpc hlock =>
    rw [hpc] at hok
    have hnot : c ∉ order := fun hc => by
      have := (h.whole c hc).1
      rw [hpc, SendPc.sent] at this
      exact absurd this (Nat.ne_of_lt hok)
    have hi : i = 0 := by
      have := h.others c hnot (by rw [hlock]; exact (Option.some_ne_none _).symm)
      rwa [hpc] at this
    refine ⟨order, h.nodup, ?_, fun d hd => ?_, fun d hd hl => ?_⟩
    · have hnone : sentBlock msg { s.goto c (.sending i 0) with txLock := some c } c = [] := by
        change (block msg c).take (((s.goto c (.sending i 0)).pc c).sent _) = []
        rw [goto_self, hi]
        rfl
      have hout := h.out
      rw [hlock] at hout
      change s.out = _ ++ sentBlock msg _ c
      rw [hnone]
      exact hout
    · have hdc : d ≠ c := fun he => hnot (he ▸ hd)
      refine ⟨?_, fun he => hdc (Option.some.inj he).symm⟩
      change ((s.goto c (.sending i 0)).pc d).sent _ = _
      rw [goto_of_ne _ hdc]
      exact (h.whole d hd).1
    · have hdc : d ≠ c := fun he => hl (by rw [he])
      change ((s.goto c (.sending i 0)).pc d).sent _ = _
      rw [goto_of_ne _ hdc]
      exact h.others d hd (by rw [hlock]; exact (Option.some_ne_none _).symm)
  | transmit i j hpc hj =>
    rw [hpc] at hok
    have hlt : i + j < (msg c).length := by
      have := batch_le (msg c).length i
      omega
    have hlock : s.txLock = some c := (ho.lock c).mpr ⟨i, j, hpc⟩
    have hout := h.out
    rw [hlock, Option.map_some, Option.getD_some, sentBlock, hpc, SendPc.sent] at hout
    have hothers : ∀ d, d ≠ c → ((s.goto c (.sending i (j + 1))).pc d).sent (msg d).length =
          (s.pc d).sent (msg d).length := fun d hd => by rw [goto_of_ne _ hd]
    refine ⟨order, h.nodup, ?_, fun d hd => ?_, fun d hd hl => ?_⟩
    · change s.out ++ [_] = order.flatMap (block msg) ++ (s.txLock.map _).getD []
      rw [hlock, Option.map_some, Option.getD_some, hout, sentBlock, List.append_assoc]
      change _ = _ ++ (block msg c).take (((s.goto c (.sending i (j + 1))).pc c).sent _)
      rw [goto_self, SendPc.sent, ← add_assoc, take_block_succ hlt]
    · have hdc : d ≠ c := fun he => (h.whole d hd).2 (he ▸ hlock)
      exact ⟨(hothers d hdc).trans (h.whole d hd).1, (h.whole d hd).2⟩
    · have hdc : d ≠ c := fun he => hl (he ▸ hlock)
      exact (hothers d hdc).trans (h.others d hd hl)
  | release i j hpc hj =>
    rw [hpc] at hok
    have hlock : s.txLock = some c := (ho.lock c).mpr ⟨i, j, hpc⟩
    have hnot : c ∉ order := fun hc => (h.whole c hc).2 hlock
    have hall : i + batch (msg c).length i = (msg c).length := by
      have := hok.1
      rw [batch, min_eq_right (by omega)]
      omega
    have hj' : i + j = (msg c).length := by
      have := hok.2
      omega
    have hself : ((s.goto c (.loop (i + batch (msg c).length i))).pc c).sent (msg c).length =
        (msg c).length := by
      rw [goto_self, SendPc.sent, hall]
    have hothers : ∀ d, d ≠ c →
        ((s.goto c (.loop (i + batch (msg c).length i))).pc d).sent (msg d).length =
          (s.pc d).sent (msg d).length := fun d hd => by rw [goto_of_ne _ hd]
    refine ⟨order ++ [c], ?_, ?_, fun d hd => ?_, fun d hd _ => ?_⟩
    · exact h.nodup.append (List.nodup_singleton c) (by simpa using hnot)
    · have hout := h.out
      rw [hlock, Option.map_some, Option.getD_some, sentBlock, hpc, SendPc.sent, hj',
        List.take_of_length_le (by rw [block, List.length_map])] at hout
      change s.out = (order ++ [c]).flatMap (block msg) ++ []
      rw [hout, List.flatMap_append, List.append_nil, List.flatMap_singleton]
    · refine ⟨?_, (Option.some_ne_none _).symm⟩
      rcases List.mem_append.mp hd with hd | hd
      · exact (hothers d fun he => hnot (he ▸ hd)).trans (h.whole d hd).1
      · rw [List.mem_singleton.mp hd]
        exact hself
    · have hdc : d ≠ c := fun he => hd (List.mem_append_right _ (List.mem_singleton.mpr he))
      refine (hothers d hdc).trans (h.others d (fun hmem => hd (List.mem_append_left _ hmem)) ?_)
      rw [hlock]
      exact fun he => hdc (Option.some.inj he).symm

lemma Run.served (h : Run msg init s) (hfit : ∀ c, (msg c).length ≤ writeBatch) :
    ∃ order, Served msg s order := by
  induction h with
  | refl => exact ⟨[], init_served⟩
  | tail hrun hstep ih =>
    obtain ⟨c, hc⟩ := hstep
    obtain ⟨order, ho⟩ := ih
    exact ho.step (Run.ordered hrun) (hfit c) (step_eq_some.mp hc)

lemma serialized_of_fit (h : Run msg init s) (hfit : ∀ c, (msg c).length ≤ writeBatch)
    (hdone : ∀ c, s.pc c = .done) : Serialized msg s.out := by
  have hlock : s.txLock = none := by
    refine Option.eq_none_iff_forall_ne_some.mpr fun c hc => ?_
    obtain ⟨i, j, hij⟩ := (h.ordered.lock c).mp hc
    rw [hdone c] at hij
    cases hij
  obtain ⟨order, ho⟩ := h.served hfit
  refine ⟨order, ho.nodup, fun c hc => ?_, ?_⟩
  · by_contra hnot
    have hzero := ho.others c hnot (by rw [hlock]; exact (Option.some_ne_none _).symm)
    rw [hdone c, SendPc.sent] at hzero
    exact hc (List.eq_nil_of_length_eq_zero hzero)
  · have hout := ho.out
    rwa [hlock, Option.map_none, Option.getD_none, List.append_nil] at hout

lemma serialized_of_single (h : Run msg init s) (hdone : ∀ c, s.pc c = .done)
    (hone : ∀ c d, msg c ≠ [] → msg d ≠ [] → c = d) : Serialized msg s.out := by
  have hmem : ∀ x ∈ s.out, msg x.1 ≠ [] := by
    intro x hx hnil
    have hfil := filter_out h (hdone x.1)
    rw [block, hnil, List.map_nil, List.filter_eq_nil_iff] at hfil
    exact hfil x hx (by simp)
  by_cases hc : ∃ c, msg c ≠ []
  · obtain ⟨c, hc⟩ := hc
    refine ⟨[c], List.nodup_singleton c, fun d hd => List.mem_singleton.mpr (hone d c hd hc), ?_⟩
    have hall : s.out.filter (fun x => x.1 = c) = s.out :=
      List.filter_eq_self.mpr fun x hx => by simpa using hone _ _ (hmem x hx) hc
    rw [List.flatMap_singleton, ← filter_out h (hdone c), hall]
  · refine ⟨[], List.nodup_nil, fun d hd => absurd ⟨d, hd⟩ hc, ?_⟩
    exact List.eq_nil_iff_forall_not_mem.mpr fun x hx => hc ⟨_, hmem x hx⟩

/-! ### Every interleaving ends -/

/-- What all calls have still to do. -/
def rest [Fintype ι] (msg : ι → List UInt8) (s : Transmit ι) : ℕ :=
  ∑ c, (s.pc c).rest (msg c).length

lemma batch_pos {n i : ℕ} (h : i < n) : 0 < batch n i := by
  have : 0 < writeBatch := by decide
  exact lt_min this (Nat.sub_pos_of_lt h)

lemma Moves.rest_lt (h : Ordered msg s) (hstep : Moves msg c s s') :
    (∀ d, d ≠ c → s'.pc d = s.pc d) ∧
      (s'.pc c).rest (msg c).length < (s.pc c).rest (msg c).length ∧ s.out <+: s'.out := by
  have hok := h.ok c
  cases hstep with
  | copy i hpc hi =>
    refine ⟨fun d hd => goto_of_ne _ hd, ?_, List.prefix_rfl⟩
    rw [goto_self, hpc]
    exact Nat.lt_succ_self _
  | finish i hpc hi =>
    refine ⟨fun d hd => goto_of_ne _ hd, ?_, List.prefix_rfl⟩
    rw [goto_self, hpc]
    exact Nat.succ_pos _
  | acquire i hpc hlock =>
    refine ⟨fun d hd => goto_of_ne _ hd, ?_, List.prefix_rfl⟩
    change ((s.goto c (.sending i 0)).pc c).rest _ < _
    rw [hpc] at hok
    have hi : i < (msg c).length := hok
    rw [goto_self, hpc, SendPc.rest, SendPc.rest]
    omega
  | transmit i j hpc hj =>
    refine ⟨fun d hd => goto_of_ne _ hd, ?_, List.prefix_append _ _⟩
    change ((s.goto c (.sending i (j + 1))).pc c).rest _ < _
    have hle := batch_le (msg c).length i
    rw [goto_self, hpc, SendPc.rest, SendPc.rest]
    omega
  | release i j hpc hj =>
    refine ⟨fun d hd => goto_of_ne _ hd, ?_, List.prefix_rfl⟩
    change ((s.goto c (.loop (i + batch (msg c).length i))).pc c).rest _ < _
    rw [hpc] at hok
    have hle := batch_le (msg c).length i
    have hpos := batch_pos hok.1
    have := hok.2
    rw [goto_self, hpc, SendPc.rest, SendPc.rest]
    omega

lemma rest_lt [Fintype ι] (h : Ordered msg s) (hstep : Moves msg c s s') :
    rest msg s' < rest msg s := by
  obtain ⟨hothers, hlt, -⟩ := hstep.rest_lt h
  refine Finset.sum_lt_sum (fun d _ => ?_) ⟨c, Finset.mem_univ c, hlt⟩
  by_cases hd : d = c
  · rw [hd]
    exact hlt.le
  · rw [hothers d hd]

lemma exists_moves (h : Ordered msg s) (hc : s.pc c ≠ .done) : ∃ d s', Moves msg d s s' := by
  cases hlock : s.txLock with
  | some d =>
    obtain ⟨i, j, hpc⟩ := (h.lock d).mp hlock
    by_cases hj : j < batch (msg d).length i
    · exact ⟨d, _, .transmit i j hpc hj⟩
    · exact ⟨d, _, .release i j hpc (not_lt.mp hj)⟩
  | none =>
    cases hpc : s.pc c with
    | loop i =>
      by_cases hi : i < (msg c).length
      · exact ⟨c, _, .copy i hpc hi⟩
      · exact ⟨c, _, .finish i hpc (not_lt.mp hi)⟩
    | copied i => exact ⟨c, _, .acquire i hpc hlock⟩
    | sending i j => exact absurd ((h.lock c).mpr ⟨i, j, hpc⟩) (by rw [hlock]; simp)
    | done => exact absurd hpc hc

/-- **From every state** the calls can all be finished. -/
lemma exists_finished [Fintype ι] (h : Ordered msg s) :
    ∃ s', Run msg s s' ∧ (∀ c, s'.pc c = .done) ∧ s.out <+: s'.out := by
  induction hn : rest msg s using Nat.strong_induction_on generalizing s with
  | _ n ih =>
    by_cases hdone : ∀ c, s.pc c = .done
    · exact ⟨s, .refl, hdone, List.prefix_rfl⟩
    · obtain ⟨c, hc⟩ := not_forall.mp hdone
      obtain ⟨d, t, ht⟩ := exists_moves h hc
      obtain ⟨s', hrun, hdone', hpre⟩ := ih _ (hn ▸ rest_lt h ht) (h.step ht) rfl
      exact ⟨s', hrun.head ⟨d, step_eq_some.mpr ht⟩, hdone', (ht.rest_lt h).2.2.trans hpre⟩

/-! ### A call that is broken up -/

lemma run_first {j : ℕ} (hpc : s.pc c = .loop 0) (hlock : s.txLock = none) (hc : msg c ≠ [])
    (hj : j ≤ batch (msg c).length 0) :
    Run msg s ⟨update s.pc c (.sending 0 j), some c, s.out ++ (block msg c).take j⟩ := by
  induction j with
  | zero =>
    have hcopy : Moves msg c s (s.goto c (.copied 0)) := .copy 0 hpc (List.length_pos_iff.mpr hc)
    have hacquire : Moves msg c (s.goto c (.copied 0))
        { (s.goto c (.copied 0)).goto c (.sending 0 0) with txLock := some c } :=
      .acquire 0 (goto_self _) hlock
    rw [goto, goto, update_idem] at hacquire
    rw [List.take_zero, List.append_nil]
    exact .tail (.single ⟨c, step_eq_some.mpr hcopy⟩) ⟨c, step_eq_some.mpr hacquire⟩
  | succ j ih =>
    set t : Transmit ι :=
      ⟨update s.pc c (.sending 0 j), some c, s.out ++ (block msg c).take j⟩ with ht
    have hstep : Moves msg c t { t.goto c (.sending 0 (j + 1)) with
        out := t.out ++ [(c, (msg c).getD (0 + j) 0)] } :=
      .transmit 0 j (update_self ..) hj
    have hlt : j < (msg c).length := by
      have := batch_le (msg c).length 0
      omega
    rw [goto, ht, update_idem, zero_add, List.append_assoc, ← take_block_succ hlt] at hstep
    exact (ih (Nat.le_of_succ_le hj)).tail ⟨c, step_eq_some.mpr hstep⟩

omit [DecidableEq ι] in
lemma Serialized.block_prefix {out : List (ι × UInt8)} {x : UInt8} (h : Serialized msg out)
    (hx : [(c, x)] <+: out) : block msg c <+: out := by
  obtain ⟨order, -, -, rfl⟩ := h
  induction order with
  | nil => exact absurd (List.prefix_nil.mp hx) (List.cons_ne_nil _ _)
  | cons d order ih =>
    rw [List.flatMap_cons] at hx ⊢
    cases hd : msg d with
    | nil =>
      have hnil : block msg d = [] := by rw [block, hd, List.map_nil]
      rw [hnil, List.nil_append] at hx ⊢
      exact ih hx
    | cons y ys =>
      have hcd : c = d := by
        rw [block, hd, List.map_cons, List.cons_append, List.cons_prefix_cons] at hx
        exact congrArg Prod.fst hx.1
      rw [hcd]
      exact List.prefix_append _ _

/-- **A longer call** is broken up in some interleaving when another call has a byte to send. -/
lemma exists_broken [Fintype ι] (hlong : writeBatch < (msg c).length) (hd : msg d ≠ [])
    (hcd : c ≠ d) : ∃ s, Run msg init s ∧ (∀ c, s.pc c = .done) ∧ ¬ Serialized msg s.out := by
  have hc : msg c ≠ [] := fun h => by simp [h] at hlong
  have hbatch : batch (msg c).length 0 = writeBatch := min_eq_left (by omega)
  -- `c` sends its first batch, then `d` its first byte, then all calls are finished
  set t : Transmit ι := ⟨update (fun _ => .loop 0) c (.loop writeBatch), none,
    (block msg c).take writeBatch⟩ with ht
  have hfirst : Run msg init t := by
    have hrun := run_first (s := init) (j := writeBatch) rfl rfl hc hbatch.ge
    set u : Transmit ι := ⟨update init.pc c (.sending 0 writeBatch), some c,
      init.out ++ (block msg c).take writeBatch⟩ with hu
    have hpc : u.pc c = .sending 0 writeBatch := by simp [hu]
    have hstep : Moves msg c u t := by
      have h := Moves.release 0 writeBatch hpc hbatch.le
      rwa [goto, hbatch, zero_add, hu, update_idem] at h
    exact hrun.tail ⟨c, step_eq_some.mpr hstep⟩
  have hpc : t.pc d = .loop 0 := by simp [ht, hcd.symm]
  have hsecond := run_first (j := 1) hpc rfl hd (batch_pos (List.length_pos_iff.mpr hd))
  have hrun := hfirst.trans hsecond
  obtain ⟨s, hrest, hdone, hpre⟩ := exists_finished (Run.ordered hrun)
  refine ⟨s, hrun.trans hrest, hdone, fun hs => ?_⟩
  obtain ⟨x, xs, hx⟩ := List.exists_cons_of_ne_nil hc
  obtain ⟨y, ys, hy⟩ := List.exists_cons_of_ne_nil hd
  have hmix : (block msg c).take writeBatch ++ [(d, y)] <+: s.out := by
    have hone : (block msg d).take 1 = [(d, y)] := by rw [block, hy]; rfl
    rwa [hone] at hpre
  have hhead : [(c, x)] <+: (block msg c).take writeBatch := by
    rw [block, hx]
    exact ⟨_, rfl⟩
  have hblock := hs.block_prefix (hhead.trans ((List.prefix_append _ _).trans hmix))
  have hlen : ((block msg c).take writeBatch ++ [(d, y)]).length ≤ (block msg c).length := by
    simp only [List.length_append, List.length_take, List.length_singleton, block, List.length_map]
    omega
  have hmem : (d, y) ∈ block msg c :=
    (List.prefix_of_prefix_length_le hmix hblock hlen).subset (by simp)
  obtain ⟨_, -, heq⟩ := List.mem_map.mp hmem
  exact hcd (congrArg Prod.fst heq)

/-- **Concurrent console writes**: in every interleaving the bytes of each call are one contiguous
block exactly if no call is longer than one batch of 32 bytes, or only one call has bytes at all. -/
theorem console_writes_serialized [Fintype ι] (msg : ι → List UInt8) :
    (∀ s, Run msg init s → (∀ c, s.pc c = .done) → Serialized msg s.out) ↔
      (∀ c, (msg c).length ≤ writeBatch) ∨ ∀ c d, msg c ≠ [] → msg d ≠ [] → c = d := by
  constructor
  · intro h
    by_contra hnot
    push Not at hnot
    obtain ⟨⟨c, hc⟩, a, b, ha, hb, hab⟩ := hnot
    -- one of the two calls is not the long one
    have hother : ∃ d, msg d ≠ [] ∧ c ≠ d := by
      by_cases hca : c = a
      · exact ⟨b, hb, hca ▸ hab⟩
      · exact ⟨a, ha, hca⟩
    obtain ⟨d, hd, hcd⟩ := hother
    obtain ⟨s, hrun, hdone, hbroken⟩ := exists_broken hc hd hcd
    exact hbroken (h s hrun hdone)
  · rintro (hfit | hone) s hrun hdone
    · exact serialized_of_fit hrun hfit hdone
    · exact serialized_of_single hrun hdone hone

/-- A call of 33 bytes beside a call of one byte. -/
theorem longWrite_broken :
    ∃ s, Run (fun c : Bool => List.replicate (if c then 33 else 1) (if c then 65 else 66)) init s ∧
      (∀ c, s.pc c = .done) ∧
      ¬ Serialized (fun c : Bool => List.replicate (if c then 33 else 1) (if c then 65 else 66))
        s.out :=
  exists_broken (c := true) (d := false) (by decide) (by decide) (by decide)

end Transmit

end Xv6Riscv
