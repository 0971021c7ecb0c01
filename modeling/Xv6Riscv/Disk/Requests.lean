import Xv6Riscv.Disk.Virtio

/-!
The requests of the disk driver, from `virtio_disk_rw` to its return.

A request that was sent and not yet marked is in exactly one of four places: on the avail ring, in
the hands of the device before or after it was performed, or on the used ring. A place is known by
the head of the chain, and a head by the process that owns its descriptors. Every step moves one
head to the next place and leaves the others where they are.

* `Rings`: the two rings as lists, and their indices modulo `2 ^ 16`.
* `Flight`: the heads between the rings are those of the requests that were sent and not marked.
* `History`: by the place of a request, what the device and the handler have done for its call.
* `virtio_request_protocol`: no step panics, no entry of the avail ring is overwritten before the
  device has taken it, and a call returns after its request was performed and marked once.
-/

namespace Xv6Riscv

open Function (update update_of_ne update_self)
open Ring

namespace Virtio

variable {ι β : Type*}

/-! ### Where the requests are -/

/-- What the device has performed on the buffer of a call since the call began. -/
def Mem.performedFor [DecidableEq β] (m : Mem β) (c : Call β) : List (Request β) :=
  (m.performed.drop c.since).filter fun r => r.buf = c.buf

/-- How often the buffer of a call was marked since the call began. -/
def Mem.markedFor [DecidableEq β] (m : Mem β) (c : Call β) : List β :=
  (m.completed.drop c.marked).filter fun b => b = c.buf

variable {m m' : Mem β}

lemma Mem.performedFor_concat [DecidableEq β] {r : Request β}
    (h : m'.performed = m.performed ++ [r]) {c : Call β} (hc : c.since ≤ m.performed.length) :
    m'.performedFor c = m.performedFor c ++ if r.buf = c.buf then [r] else [] := by
  rw [performedFor, h, List.drop_append_of_le_length hc, List.filter_append, performedFor]
  congr 1
  split_ifs with hr <;> simp [hr]

lemma Mem.markedFor_concat [DecidableEq β] {b : β} (h : m'.completed = m.completed ++ [b])
    {c : Call β} (hc : c.marked ≤ m.completed.length) :
    m'.markedFor c = m.markedFor c ++ if b = c.buf then [b] else [] := by
  rw [markedFor, h, List.drop_append_of_le_length hc, List.filter_append, markedFor]
  congr 1
  split_ifs with hb <;> simp [hb]

/-- The descriptors of a call are written. -/
structure Written (desc : ℕ → Desc β) (m : Mem β) (c : Call β) (idx : Fin 3 → ℕ) : Prop where
  op : m.ops (idx 0) = ⟨if c.write then blkTOut else blkTIn, 0, c.sector⟩
  first : desc (idx 0) = ⟨.op (idx 0), 16, descFNext, idx 1⟩
  second : desc (idx 1) = ⟨.data c.buf, UInt32.ofNat bsize,
    (if c.write then 0 else descFWrite) ||| descFNext, idx 2⟩
  third : desc (idx 2) = ⟨.status (idx 0), 1, descFWrite, 0⟩
  buf : m.infoB (idx 0) = some c.buf

/-- The heads `A` wait on the avail ring and the heads `U` on the used ring. -/
structure Rings (m : Mem β) (A U : List ℕ) : Prop where
  avail : Holds num m.availRing m.consumed A
  used : Holds num m.usedRing m.handled U
  submitted : m.submitted = m.consumed + A.length
  appended : m.appended = m.handled + U.length
  availIdx : m.availIdx = UInt16.ofNat m.submitted
  lastAvail : m.lastAvail = UInt16.ofNat m.consumed
  usedIdx : m.usedIdx = UInt16.ofNat m.appended
  lastUsed : m.lastUsed = UInt16.ofNat m.handled

lemma Rings.slot {A U : List ℕ} (h : Rings m A U) :
    m.availIdx.toNat % num = (m.consumed + A.length) % num := by
  rw [h.availIdx, ofNat_mod num_dvd, h.submitted]

/-- The heads of all requests that were sent and not yet marked: waiting on the avail ring, taken by
the device, performed, waiting on the used ring. -/
def heads (m : Mem β) (A U : List ℕ) : List ℕ := (A ++ m.fetched) ++ (m.served ++ U)

/-- The requests that were sent and not yet marked are those between the rings. -/
structure Flight (desc : ℕ → Desc β) (m : Mem β) (pc : ι → RwPc β) (A U : List ℕ) : Prop where
  written : ∀ p c idx, (pc p).written = some (c, idx) → Written desc m c idx
  ringed : ∀ p c idx, pc p = .ringed c idx →
    m.availRing (m.submitted % num) = idx 0 ∧ m.disk c.buf = true
  mem_heads : ∀ h, h ∈ heads m A U ↔
    ∃ p c idx, (pc p).sent = some (c, idx) ∧ idx 0 = h ∧ m.disk c.buf = true
  nodup : (heads m A U).Nodup
  status : ∀ h ∈ m.served ++ U, m.status h = 0

/-- What has been done for the calls, by where their requests are. -/
structure History [DecidableEq β] (m : Mem β) (pc : ι → RwPc β) (A U : List ℕ) : Prop where
  since : ∀ p c, (pc p).call = some c → c.since ≤ m.performed.length ∧ c.marked ≤ m.completed.length
  early : ∀ p c, (pc p).call = some c → (pc p).sent = none →
    m.performedFor c = [] ∧ m.markedFor c = []
  pending : ∀ p c idx, (pc p).sent = some (c, idx) → idx 0 ∈ A ++ m.fetched →
    m.performedFor c = [] ∧ m.markedFor c = []
  performed : ∀ p c idx, (pc p).sent = some (c, idx) → idx 0 ∈ m.served ++ U →
    m.performedFor c = [c.request] ∧ m.markedFor c = []
  done : ∀ p c idx, (pc p).sent = some (c, idx) → m.disk c.buf = false →
    m.performedFor c = [c.request] ∧ m.markedFor c = [c.buf]

/-! ### One process goes on -/

section Goto

variable {desc desc' : ℕ → Desc β} {m : Mem β} {pc : ι → RwPc β} {A U : List ℕ} {p : ι}
variable {x y : RwPc β} {c : Call β} {idx : Fin 3 → ℕ}

lemma RwPc.written_of_sent (h : x.sent = some (c, idx)) : x.written = some (c, idx) := by
  cases x <;> cases h <;> rfl

lemma RwPc.call_of_written (h : x.written = some (c, idx)) : x.call = some c := by
  cases x <;> cases h <;> rfl

lemma RwPc.chain_of_written (h : x.written = some (c, idx)) : x.chain = [idx 0, idx 1, idx 2] := by
  cases x <;> cases h <;> rfl

lemma RwPc.head_mem (h : x.written = some (c, idx)) : idx 0 ∈ x.chain := by
  rw [chain_of_written h]
  exact List.mem_cons_self

lemma RwPc.call_of_sent (h : x.sent = some (c, idx)) : x.call = some c :=
  call_of_written (written_of_sent h)

lemma Written.congr (h : Written desc m c idx) (hops : m'.ops (idx 0) = m.ops (idx 0))
    (hb : m'.infoB (idx 0) = m.infoB (idx 0))
    (hdesc : ∀ i ∈ [idx 0, idx 1, idx 2], desc' i = desc i) : Written desc' m' c idx := by
  simp only [List.mem_cons, List.not_mem_nil, or_false, forall_eq_or_imp, forall_eq] at hdesc
  exact ⟨by rw [hops, h.op], by rw [hdesc.1, h.first], by rw [hdesc.2.1, h.second],
    by rw [hdesc.2.2, h.third], by rw [hb, h.buf]⟩

lemma Flight.owner (h : Flight desc m pc A U) {i : ℕ} (hi : i ∈ heads m A U) :
    ∃ p c idx, (pc p).sent = some (c, idx) ∧ idx 0 = i ∧ m.disk c.buf = true ∧
      Written desc m c idx := by
  obtain ⟨p, c, idx, hs, h0, hd⟩ := (h.mem_heads i).mp hi
  exact ⟨p, c, idx, hs, h0, hd, h.written p c idx (RwPc.written_of_sent hs)⟩

variable [DecidableEq ι]

lemma Flight.goto (h : Flight desc m pc A U) (hp : pc p = y) (hw : x.written = y.written)
    (hs : x.sent = y.sent) (hr : ∀ c idx, x = .ringed c idx → y = .ringed c idx)
    (hdesc : ∀ q c idx, (pc q).written = some (c, idx) → ∀ i ∈ [idx 0, idx 1, idx 2],
      desc' i = desc i) : Flight desc' m (update pc p x) A U := by
  subst hp
  have hwritten := Upd.map RwPc.written hw
  have hsent := Upd.map RwPc.sent hs
  refine ⟨fun q c idx hq => ?_, fun q c idx hq => ?_, ?_, h.nodup, h.status⟩
  · rw [hwritten] at hq
    exact (h.written q c idx hq).congr rfl rfl (hdesc q c idx hq)
  · rcases Upd.cases id hq with ⟨rfl, hx⟩ | ⟨-, hq⟩
    · exact h.ringed q c idx (hr c idx hx)
    · exact h.ringed q c idx hq
  · simpa only [hsent] using h.mem_heads

lemma History.goto [DecidableEq β] (h : History m pc A U) (hp : pc p = y) (hc : x.call = y.call)
    (hs : x.sent = y.sent) : History m (update pc p x) A U := by
  subst hp
  have hcall := Upd.map RwPc.call hc
  have hsent := Upd.map RwPc.sent hs
  refine ⟨?_, ?_, ?_, ?_, ?_⟩
  · simpa only [hcall] using h.since
  · simpa only [hcall, hsent] using h.early
  · simpa only [hsent] using h.pending
  · simpa only [hsent] using h.performed
  · simpa only [hsent] using h.done

lemma History.enter [DecidableEq β] (h : History m pc A U) (hp : pc p = .outside)
    (hsince : c.since = m.performed.length) (hmarked : c.marked = m.completed.length) :
    History m (update pc p (.alloc c)) A U := by
  have hsent : ∀ q, (update pc p (.alloc c) q).sent = (pc q).sent :=
    Upd.map RwPc.sent (by rw [hp]; rfl)
  have hcall : ∀ q d, (update pc p (.alloc c) q).call = some d → (pc q).call = some d ∨ d = c := by
    intro q d hd
    rcases Upd.cases RwPc.call hd with ⟨-, hd⟩ | ⟨-, hd⟩
    · exact .inr (Option.some.inj hd).symm
    · exact .inl hd
  refine ⟨fun q d hd => ?_, fun q d hd hs => ?_, ?_, ?_, ?_⟩
  · rcases hcall q d hd with hd | rfl
    · exact h.since q d hd
    · exact ⟨hsince.le, hmarked.le⟩
  · rcases hcall q d hd with hd | rfl
    · exact h.early q d hd ((hsent q).symm.trans hs)
    · rw [Mem.performedFor, Mem.markedFor, hsince, hmarked, List.drop_length, List.drop_length]
      exact ⟨rfl, rfl⟩
  · simpa only [hsent] using h.pending
  · simpa only [hsent] using h.performed
  · simpa only [hsent] using h.done

end Goto

end Virtio

open Virtio

namespace Vdisk

variable {ι β : Type*} [DecidableEq β]

/-- What holds in every interleaving. -/
structure Inv (s : Vdisk ι β) (A U : List ℕ) : Prop where
  owns : Owns s.lock s.busy s.free s.pc
  rings : Rings s.toMem A U
  flight : Flight s.desc s.toMem s.pc A U
  history : History s.toMem s.pc A U

variable {s t : Vdisk ι β} {A U : List ℕ} {p : ι} {c : Call β} {idx : Fin 3 → ℕ}

lemma inv_init : (init ι β).Inv [] [] where
  owns := ⟨nofun, nofun, fun _ => List.nodup_nil, nofun,
    fun _ hi => ⟨fun _ _ => List.not_mem_nil, fun _ => decide_eq_true hi⟩, nofun, nofun⟩
  rings := ⟨Holds.nil .., Holds.nil .., rfl, rfl, rfl, rfl, rfl, rfl⟩
  flight := ⟨nofun, nofun, fun _ => ⟨nofun, nofun⟩, List.nodup_nil, nofun⟩
  history := ⟨nofun, nofun, nofun, nofun, nofun⟩

lemma formatted_written (hnodup : [idx 0, idx 1, idx 2].Nodup) :
    Written (s.formatted c idx).desc (s.formatted c idx).toMem c idx := by
  simp only [List.nodup_cons, List.mem_cons, List.not_mem_nil, or_false, not_or] at hnodup
  obtain ⟨⟨hne1, hne2⟩, hne3, _⟩ := hnodup
  refine ⟨update_self .., ?_, ?_, update_self .., update_self ..⟩
  · change update (update (update _ _ _) _ _) _ _ _ = _
    rw [update_of_ne hne2, update_of_ne hne1, update_self]
  · change update (update _ _ _) _ _ _ = _
    rw [update_of_ne hne3, update_self]

omit [DecidableEq β] in
lemma readChain_written (h : Written s.desc s.toMem c idx) :
    s.readChain (idx 0) = some (c.request, idx 0) := by
  simp only [readChain, h.first, h.second, h.third, h.op]
  cases hw : c.write with
  | true =>
    simp [Call.request, hw, blkTOut]
  | false =>
    simp [Call.request, hw, blkTOut, blkTIn]

section Invariant

variable (h : s.Inv A U) {i : ℕ}

include h

lemma Inv.head_owner (hi : i ∈ heads s.toMem A U) (hp : i ∈ (s.pc p).chain) :
    (s.pc p).sent ≠ none := by
  obtain ⟨q, d, jdx, hs, h0, _, _⟩ := h.flight.owner hi
  have hmem : i ∈ (s.pc q).chain := by
    rw [← h0]
    exact RwPc.head_mem (RwPc.written_of_sent hs)
  rw [h.owns.disjoint p q i hp hmem, hs]
  exact nofun

lemma Inv.heads_lt (hi : i ∈ heads s.toMem A U) : i < num := by
  obtain ⟨q, d, jdx, hs, h0, _, _⟩ := h.flight.owner hi
  rw [← h0]
  exact h.owns.lt q _ (RwPc.head_mem (RwPc.written_of_sent hs))

lemma Inv.length_heads_le : (heads s.toMem A U).length ≤ num := by
  have hsub : heads s.toMem A U ⊆ List.range num := fun i hi =>
    List.mem_range.mpr (h.heads_lt hi)
  have := (h.flight.nodup.subperm hsub).length_le
  rwa [List.length_range] at this

/-- While a process has descriptors for a request that is not sent, there is room on the ring. -/
lemma Inv.length_heads_lt (hi : i ∈ (s.pc p).chain) (hs : (s.pc p).sent = none) :
    (heads s.toMem A U).length < num := by
  have hnodup : (i :: heads s.toMem A U).Nodup :=
    List.nodup_cons.mpr ⟨fun hmem => h.head_owner hmem hi hs, h.flight.nodup⟩
  have hsub : i :: heads s.toMem A U ⊆ List.range num := by
    intro j hj
    rcases List.mem_cons.mp hj with rfl | hj
    · exact List.mem_range.mpr (h.owns.lt p j hi)
    · exact List.mem_range.mpr (h.heads_lt hj)
  have := (hnodup.subperm hsub).length_le
  rwa [List.length_range, List.length_cons, Nat.succ_le_iff] at this

lemma Inv.length_avail_lt (hi : i ∈ (s.pc p).chain) (hs : (s.pc p).sent = none) :
    A.length < num := by
  have := h.length_heads_lt hi hs
  rw [heads, List.length_append, List.length_append] at this
  omega

lemma Inv.marked_le (hc : (s.pc p).call = some c) : (s.markedFor c).length ≤ 1 := by
  cases hs : (s.pc p).sent with
  | none =>
    rw [(h.history.early p c hc hs).2]
    exact Nat.zero_le _
  | some r =>
    obtain ⟨d, idx⟩ := r
    obtain rfl : d = c := Option.some.inj ((RwPc.call_of_sent hs).symm.trans hc)
    cases hd : s.disk d.buf with
    | false =>
      rw [(h.history.done p d idx hs hd).2]
      exact le_rfl
    | true =>
      rcases List.mem_append.mp ((h.flight.mem_heads (idx 0)).mpr ⟨p, d, idx, hs, rfl, hd⟩)
        with hi | hi
      · rw [(h.history.pending p d idx hs hi).2]
        exact Nat.zero_le _
      · rw [(h.history.performed p d idx hs hi).2]
        exact Nat.zero_le _

lemma Inv.relock (hl : ∀ q, s.lock ≠ some (.proc q)) (l : Option (Holder ι)) :
    { s with lock := l }.Inv A U where
  owns := { h.owns with
    locked := fun q hq => by
      rw [h.owns.unlocked_of_ne hl] at hq
      cases hq }
  __ := h

/-! ### The device -/

lemma Inv.owner_unique {q : ι} {d : Call β} {jdx : Fin 3 → ℕ} (hp : (s.pc p).sent = some (c, idx))
    (hq : (s.pc q).sent = some (d, jdx)) (h0 : jdx 0 = idx 0) : q = p := by
  refine h.owns.disjoint q p (idx 0) ?_ (RwPc.head_mem (RwPc.written_of_sent hp))
  rw [← h0]
  exact RwPc.head_mem (RwPc.written_of_sent hq)

lemma Inv.mem_heads_of_perm {m : Mem β} {A' U' : List ℕ}
    (hperm : (heads m A' U').Perm (heads s.toMem A U)) (hdisk : m.disk = s.disk) (i : ℕ) :
    i ∈ heads m A' U' ↔
      ∃ p c idx, (s.pc p).sent = some (c, idx) ∧ idx 0 = i ∧ m.disk c.buf = true := by
  rw [hperm.mem_iff, h.flight.mem_heads, hdisk]

/-- **The device takes a head** from the avail ring. -/
lemma Inv.fetch (hne : s.lastAvail ≠ s.availIdx) :
    ∃ A', { s with toMem := s.toMem.fetch }.Inv A' U := by
  have hlen : A.length < 2 ^ 16 := h.rings.avail.small.trans_lt (by decide)
  rw [h.rings.lastAvail, h.rings.availIdx, h.rings.submitted, ofNat_add_ne hlen] at hne
  obtain ⟨x, A', rfl⟩ := List.exists_cons_of_length_pos (Nat.pos_of_ne_zero hne)
  have hx : s.availRing (s.lastAvail.toNat % num) = x := by
    rw [h.rings.lastAvail, ofNat_mod num_dvd]
    exact h.rings.avail.head
  have hfetched : s.toMem.fetch.fetched = x :: s.fetched := by rw [Mem.fetch, hx]
  have hperm : (heads s.toMem.fetch A' U).Perm (heads s.toMem (x :: A') U) := by
    rw [heads, hfetched]
    exact List.perm_middle.append_right _
  have hpend : ∀ i, i ∈ A' ++ x :: s.fetched ↔ i ∈ x :: A' ++ s.fetched := fun i =>
    List.perm_middle.mem_iff
  refine ⟨A', h.owns, ⟨h.rings.avail.pop, h.rings.used, ?_, h.rings.appended, h.rings.availIdx, ?_,
    h.rings.usedIdx, h.rings.lastUsed⟩, ⟨fun q d jdx hq => ?_, h.flight.ringed,
    h.mem_heads_of_perm hperm rfl, hperm.nodup_iff.mpr h.flight.nodup, h.flight.status⟩,
    ⟨h.history.since, h.history.early, fun q d jdx hq hi => ?_, h.history.performed,
      h.history.done⟩⟩
  · change s.submitted = s.consumed + 1 + A'.length
    rw [h.rings.submitted, List.length_cons]
    omega
  · change s.lastAvail + 1 = UInt16.ofNat (s.consumed + 1)
    rw [h.rings.lastAvail, UInt16.ofNat_add]
    rfl
  · exact (h.flight.written q d jdx hq).congr rfl rfl fun _ _ => rfl
  · refine h.history.pending q d jdx hq ((hpend _).mp ?_)
    rw [← hfetched]
    exact hi

/-- **The device performs a request** it has taken: it is that of the call which sent it. -/
lemma Inv.perform (hi : i ∈ s.fetched) :
    ∃ t, s.performHead i = .ok t ∧ t.Inv A U ∧ t.availRing = s.availRing := by
  have hmem : i ∈ heads s.toMem A U :=
    List.mem_append_left _ (List.mem_append_right _ hi)
  obtain ⟨p, c, idx, hp, rfl, hdisk, hwritten⟩ := h.flight.owner hmem
  rw [performHead, readChain_written hwritten]
  have hperm : (heads (s.toMem.perform (idx 0) c.request (idx 0)) A U).Perm
      (heads s.toMem A U) := by
    have hfirst : (idx 0 :: (A ++ s.fetched.erase (idx 0))).Perm (A ++ s.fetched) :=
      List.perm_middle.symm.trans ((List.perm_cons_erase hi).symm.append_left A)
    have hmove : (A ++ s.fetched.erase (idx 0) ++ idx 0 :: (s.served ++ U)).Perm
        (idx 0 :: (A ++ s.fetched.erase (idx 0) ++ (s.served ++ U))) := List.perm_middle
    exact hmove.trans (hfirst.append_right (s.served ++ U))
  -- the head has left the first half
  have hleft : idx 0 ∉ A ++ s.fetched.erase (idx 0) := by
    have := List.nodup_append.mp (hperm.nodup_iff.mpr h.flight.nodup)
    exact fun hmem => this.2.2 _ hmem _ List.mem_cons_self rfl
  have hothers : ∀ q d jdx, (s.pc q).sent = some (d, jdx) → jdx 0 ≠ idx 0 → d.buf ≠ c.buf := by
    intro q d jdx hq hne hbuf
    have hqp := h.owns.bufs q p d c (RwPc.call_of_sent hq) (RwPc.call_of_sent hp) hbuf
    subst hqp
    rw [hq] at hp
    cases hp
    exact hne rfl
  have hperf : ∀ q d, (s.pc q).call = some d → d.buf ≠ c.buf →
      (s.toMem.perform (idx 0) c.request (idx 0)).performedFor d = s.toMem.performedFor d := by
    intro q d hd hbuf
    rw [Mem.performedFor_concat rfl (h.history.since q d hd).1, Call.request_buf,
      if_neg (Ne.symm hbuf), List.append_nil]
  refine ⟨_, rfl, ⟨h.owns, { h.rings with }, ⟨fun q d jdx hq => ?_, h.flight.ringed,
    h.mem_heads_of_perm hperm rfl, hperm.nodup_iff.mpr h.flight.nodup, fun j hj => ?_⟩,
    ⟨fun q d hd => ?_, fun q d hd hs => ?_, fun q d jdx hq hj => ?_, fun q d jdx hq hj => ?_,
      fun q d jdx hq hd => ?_⟩⟩, rfl⟩
  · exact (h.flight.written q d jdx hq).congr rfl rfl fun _ _ => rfl
  · change update s.status (idx 0) 0 j = 0
    rcases eq_or_ne j (idx 0) with rfl | hne
    · exact update_self ..
    · rw [update_of_ne hne]
      exact h.flight.status j (List.mem_of_ne_of_mem hne hj)
  · refine ⟨(h.history.since q d hd).1.trans ?_, (h.history.since q d hd).2⟩
    exact (List.sublist_append_left ..).length_le
  · -- a call whose request was not sent is not the one that was served
    have hbuf : d.buf ≠ c.buf := by
      intro hbuf
      have hqp := h.owns.bufs q p d c hd (RwPc.call_of_sent hp) hbuf
      subst hqp
      exact absurd (hp.symm.trans hs) nofun
    exact ⟨(hperf q d hd hbuf).trans (h.history.early q d hd hs).1, (h.history.early q d hd hs).2⟩
  · have hne : jdx 0 ≠ idx 0 := fun he => hleft (he ▸ hj)
    obtain ⟨h1, h2⟩ := h.history.pending q d jdx hq (by
      rcases List.mem_append.mp hj with hj | hj
      · exact List.mem_append_left _ hj
      · exact List.mem_append_right _ (List.mem_of_mem_erase hj))
    exact ⟨(hperf q d (RwPc.call_of_sent hq) (hothers q d jdx hq hne)).trans h1, h2⟩
  · rcases eq_or_ne (jdx 0) (idx 0) with he | hne
    · have hqp := h.owner_unique hp hq he
      subst hqp
      rw [hp] at hq
      cases hq
      obtain ⟨h1, h2⟩ := h.history.pending q c idx hp (List.mem_append_right _ hi)
      refine ⟨?_, h2⟩
      rw [Mem.performedFor_concat rfl (h.history.since q c (RwPc.call_of_sent hp)).1, h1,
        Call.request_buf, if_pos rfl]
      rfl
    · obtain ⟨h1, h2⟩ := h.history.performed q d jdx hq (List.mem_of_ne_of_mem hne hj)
      exact ⟨(hperf q d (RwPc.call_of_sent hq) (hothers q d jdx hq hne)).trans h1, h2⟩
  · obtain ⟨h1, h2⟩ := h.history.done q d jdx hq hd
    refine ⟨(hperf q d (RwPc.call_of_sent hq) fun hbuf => ?_).trans h1, h2⟩
    change s.disk d.buf = false at hd
    rw [hbuf, hdisk] at hd
    cases hd

/-- **The device appends a head** to the used ring. -/
lemma Inv.append (hi : i ∈ s.served) : { s with toMem := s.toMem.append i }.Inv A (U ++ [i]) := by
  have hperm' : (s.served.erase i ++ (U ++ [i])).Perm (s.served ++ U) := by
    rw [← List.append_assoc]
    refine (List.perm_append_singleton i _).trans ?_
    exact (List.perm_cons_erase hi).symm.append_right U
  have hperm : (heads (s.toMem.append i) A (U ++ [i])).Perm (heads s.toMem A U) :=
    hperm'.append_left _
  have hlen : U.length < num := by
    have hle := h.length_heads_le
    have hpos := List.length_pos_of_mem hi
    rw [heads, List.length_append, List.length_append, List.length_append] at hle
    omega
  refine ⟨h.owns, ⟨h.rings.avail, ?_, h.rings.submitted, ?_, h.rings.availIdx,
    h.rings.lastAvail, ?_, h.rings.lastUsed⟩,
    ⟨fun q d jdx hq => ?_, h.flight.ringed, h.mem_heads_of_perm hperm rfl,
    hperm.nodup_iff.mpr h.flight.nodup, fun j hj => h.flight.status j (hperm'.mem_iff.mp hj)⟩,
    ⟨h.history.since, h.history.early, h.history.pending,
      fun q d jdx hq hj => h.history.performed q d jdx hq (hperm'.mem_iff.mp hj), h.history.done⟩⟩
  · change Holds num (update s.usedRing (s.usedIdx.toNat % num) i) s.handled (U ++ [i])
    rw [h.rings.usedIdx, ofNat_mod num_dvd, h.rings.appended]
    exact (h.rings.used.store hlen i).push hlen (update_self ..)
  · change s.appended + 1 = s.handled + (U ++ [i]).length
    rw [h.rings.appended, List.length_append, List.length_singleton, Nat.add_assoc]
  · change s.usedIdx + 1 = UInt16.ofNat (s.appended + 1)
    rw [h.rings.usedIdx, UInt16.ofNat_add]
    rfl
  · exact (h.flight.written q d jdx hq).congr rfl rfl fun _ _ => rfl

/-- **The handler** finds an entry whose status is zero and whose buffer is that of a call, and
marks it. -/
lemma Inv.handle (hne : s.lastUsed ≠ s.usedIdx) :
    ∃ t U', s.handle = .ok t ∧ t.Inv A U' ∧ t.availRing = s.availRing := by
  have hlen : U.length < 2 ^ 16 := h.rings.used.small.trans_lt (by decide)
  rw [h.rings.lastUsed, h.rings.usedIdx, h.rings.appended, ofNat_add_ne hlen] at hne
  obtain ⟨x, U', rfl⟩ := List.exists_cons_of_length_pos (Nat.pos_of_ne_zero hne)
  have hx : s.usedRing (s.lastUsed.toNat % num) = x := by
    rw [h.rings.lastUsed, ofNat_mod num_dvd]
    exact h.rings.used.head
  have hmem : x ∈ heads s.toMem A (x :: U') :=
    List.mem_append_right _ (List.mem_append_right _ List.mem_cons_self)
  obtain ⟨p, c, idx, hp, rfl, hdisk, hwritten⟩ := h.flight.owner hmem
  have hstatus : s.status (idx 0) = 0 :=
    h.flight.status _ (List.mem_append_right _ List.mem_cons_self)
  have hhandle : s.handle = .ok { s with toMem := s.mark c.buf } := by
    simp only [Vdisk.handle, hx, hstatus, hwritten.buf, ne_eq, not_true_eq_false, if_false]
  have hperm : (heads s.toMem A (idx 0 :: U')).Perm (idx 0 :: heads s.toMem A U') := by
    rw [heads, heads, ← List.append_assoc, ← List.append_assoc]
    exact List.perm_middle
  have hnodup := List.nodup_cons.mp (hperm.nodup_iff.mp h.flight.nodup)
  have hothers : ∀ q d, (s.pc q).call = some d → q ≠ p → d.buf ≠ c.buf := fun q d hd hq =>
    h.owns.others_buf (RwPc.call_of_sent hp) hq hd
  have hdisks : ∀ q d, (s.pc q).call = some d → q ≠ p →
      (s.toMem.mark c.buf).disk d.buf = s.disk d.buf := fun q d hd hq =>
    update_of_ne (hothers q d hd hq) ..
  have hself : (s.toMem.mark c.buf).disk c.buf = false := update_self ..
  have hmark : ∀ q d, (s.pc q).call = some d → q ≠ p →
      (s.toMem.mark c.buf).markedFor d = s.toMem.markedFor d := by
    intro q d hd hq
    rw [Mem.markedFor_concat rfl (h.history.since q d hd).2, if_neg (Ne.symm (hothers q d hd hq)),
      List.append_nil]
  -- a request that is still between the rings is not the one that was marked
  have hstill : ∀ q d jdx, (s.pc q).sent = some (d, jdx) → jdx 0 ∈ heads s.toMem A U' → q ≠ p := by
    rintro q d jdx hq hj rfl
    rw [hp] at hq
    cases hq
    exact hnodup.1 hj
  refine ⟨_, U', hhandle, ⟨h.owns, ⟨h.rings.avail, h.rings.used.pop, h.rings.submitted, ?_,
    h.rings.availIdx, h.rings.lastAvail, h.rings.usedIdx, ?_⟩, ⟨fun q d jdx hq => ?_,
    fun q d jdx hq => ?_, fun i => ?_, hnodup.2, fun j hj => ?_⟩, ⟨fun q d hd => ?_,
    fun q d hd hs => ?_, fun q d jdx hq hj => ?_, fun q d jdx hq hj => ?_,
    fun q d jdx hq hd => ?_⟩⟩, rfl⟩
  · change s.appended = s.handled + 1 + U'.length
    rw [h.rings.appended, List.length_cons]
    omega
  · change s.lastUsed + 1 = UInt16.ofNat (s.handled + 1)
    rw [h.rings.lastUsed, UInt16.ofNat_add]
    rfl
  · exact (h.flight.written q d jdx hq).congr rfl rfl fun _ _ => rfl
  · obtain ⟨h1, h2⟩ := h.flight.ringed q d jdx hq
    have hqp : q ≠ p := by
      rintro rfl
      rw [show s.pc q = .ringed d jdx from hq] at hp
      cases hp
    refine ⟨h1, (hdisks q d ?_ hqp).trans h2⟩
    rw [show s.pc q = .ringed d jdx from hq]
    rfl
  · change i ∈ heads s.toMem A U' ↔ ∃ q d jdx, (s.pc q).sent = some (d, jdx) ∧ jdx 0 = i ∧
      (s.toMem.mark c.buf).disk d.buf = true
    constructor
    · intro hi
      obtain ⟨q, d, jdx, hq, h0, hd, _⟩ := h.flight.owner
        (hperm.mem_iff.mpr (List.mem_cons_of_mem _ hi))
      have hqp := hstill q d jdx hq (h0 ▸ hi)
      exact ⟨q, d, jdx, hq, h0, (hdisks q d (RwPc.call_of_sent hq) hqp).trans hd⟩
    · rintro ⟨q, d, jdx, hq, h0, hd⟩
      have hqp : q ≠ p := by
        rintro rfl
        rw [hp] at hq
        cases hq
        rw [hself] at hd
        cases hd
      rw [hdisks q d (RwPc.call_of_sent hq) hqp] at hd
      have hi := (h.flight.mem_heads i).mpr ⟨q, d, jdx, hq, h0, hd⟩
      refine List.mem_of_ne_of_mem ?_ (hperm.mem_iff.mp hi)
      rintro rfl
      exact hqp (h.owner_unique hp hq h0)
  · refine h.flight.status j ?_
    rcases List.mem_append.mp hj with hj | hj
    · exact List.mem_append_left _ hj
    · exact List.mem_append_right _ (List.mem_cons_of_mem _ hj)
  · refine ⟨(h.history.since q d hd).1, (h.history.since q d hd).2.trans ?_⟩
    exact (List.sublist_append_left ..).length_le
  · obtain ⟨h1, h2⟩ := h.history.early q d hd hs
    refine ⟨h1, (hmark q d hd ?_).trans h2⟩
    rintro rfl
    exact absurd (hp.symm.trans hs) nofun
  · obtain ⟨h1, h2⟩ := h.history.pending q d jdx hq hj
    exact ⟨h1, (hmark q d (RwPc.call_of_sent hq)
      (hstill q d jdx hq (List.mem_append_left _ hj))).trans h2⟩
  · have hqp := hstill q d jdx hq (List.mem_append_right _ hj)
    obtain ⟨h1, h2⟩ := h.history.performed q d jdx hq (by
      rcases List.mem_append.mp hj with hj | hj
      · exact List.mem_append_left _ hj
      · exact List.mem_append_right _ (List.mem_cons_of_mem _ hj))
    exact ⟨h1, (hmark q d (RwPc.call_of_sent hq) hqp).trans h2⟩
  · rcases eq_or_ne q p with rfl | hqp
    · obtain ⟨h1, h2⟩ := h.history.performed q c idx hp (List.mem_append_right _ List.mem_cons_self)
      rw [hp] at hq
      cases hq
      refine ⟨h1, ?_⟩
      rw [Mem.markedFor_concat rfl (h.history.since q c (RwPc.call_of_sent hp)).2, h2, if_pos rfl]
      rfl
    · obtain ⟨h1, h2⟩ := h.history.done q d jdx hq
        ((hdisks q d (RwPc.call_of_sent hq) hqp).symm.trans hd)
      exact ⟨h1, (hmark q d (RwPc.call_of_sent hq) hqp).trans h2⟩

/-! ### The processes -/

variable [DecidableEq ι]

/-- **A process goes on** in its call without touching the memory. -/
lemma Inv.goto {x y : RwPc β} {l : Option (Holder ι)} (hp : s.pc p = y) (hcall : x.call = y.call)
    (hchain : x.chain = y.chain) (hw : x.written = y.written) (hs : x.sent = y.sent)
    (hr : ∀ c idx, x = .ringed c idx → y = .ringed c idx)
    (hx : x.locked = true → l = some (.proc p)) (hothers : ∀ q ≠ p, (s.pc q).locked = false) :
    (s.goto p x l).Inv A U where
  owns := h.owns.goto hp hcall hchain hx hothers
  rings := h.rings
  flight := h.flight.goto hp hw hs hr fun _ _ _ _ _ _ => rfl
  history := h.history.goto hp hcall hs

lemma Inv.enter {b : β} {blockno : Blockno} {write : Bool} (hp : s.pc p = .outside)
    (hl : s.lock = none) (hb : s.busy b = false) :
    { s.goto p (.alloc ⟨b, blockno, write, s.performed.length, s.completed.length⟩)
        (some (.proc p)) with busy := update s.busy b true }.Inv A U where
  owns := by
    have := h.owns
    rw [hl] at this
    exact this.enter (c := ⟨b, blockno, write, s.performed.length, s.completed.length⟩) hp hb
  rings := h.rings
  flight := h.flight.goto hp rfl rfl nofun fun _ _ _ _ _ _ => rfl
  history := h.history.enter hp rfl rfl

/-- **Descriptors are allocated**, or those that were taken are given back. -/
lemma Inv.alloc (hp : s.pc p = .alloc c) :
    ∃ r, s.alloc3Desc = .ok r ∧
      (match r with
        | (some idx, d) => { s with toDescs := d }.goto p (.format c idx) (some (.proc p))
        | (none, d) => { s with toDescs := d }.goto p (.allocSleep c) none).Inv A U := by
  have hlocked : (s.pc p).locked = true := by rw [hp]; rfl
  rcases s.alloc3Desc_cases with ⟨idx, he, hnodup, hidx⟩ | ⟨d, he, hd⟩
  · refine ⟨_, he, ?_, h.rings, ?_, ?_⟩
    · exact h.owns.allocate hp hnodup hidx
    · exact h.flight.goto hp rfl rfl nofun fun _ _ _ _ _ _ => rfl
    · exact h.history.goto hp rfl rfl
  · refine ⟨_, he, ?_, h.rings, ?_, ?_⟩
    · exact h.owns.goto hp rfl rfl nofun fun q hq => h.owns.unlocked hlocked hq
    · refine h.flight.goto hp rfl rfl nofun fun q c idx hq i hi => ?_
      rw [← RwPc.chain_of_written hq] at hi
      exact hd i (h.owns.not_free hi)
    · exact h.history.goto hp rfl rfl

/-- **The request is written**, to descriptors nobody else has. -/
lemma Inv.format (hp : s.pc p = .format c idx) :
    ((s.formatted c idx).goto p (.ringed c idx) (some (.proc p))).Inv A U := by
  have hlocked : (s.pc p).locked = true := by rw [hp]; rfl
  have hcall : (s.pc p).call = some c := by rw [hp]; rfl
  have hsent : (s.pc p).sent = none := by rw [hp]; rfl
  have hchain : (s.pc p).chain = [idx 0, idx 1, idx 2] := by rw [hp]; rfl
  have hhead : idx 0 ∈ (s.pc p).chain := by rw [hchain]; exact List.mem_cons_self
  have hlen := h.length_avail_lt hhead hsent
  -- the other requests have other heads and other buffers
  have hother : ∀ q ≠ p, ∀ i ∈ (s.pc q).chain, i ∉ [idx 0, idx 1, idx 2] := fun q hq i hi hmem =>
    h.owns.others (p := p) (by rwa [hchain]) hq hi
  have hdisk : ∀ q d, q ≠ p → (s.pc q).call = some d →
      (s.formatted c idx).disk d.buf = s.disk d.buf := fun q d hq hd =>
    update_of_ne (h.owns.others_buf hcall hq hd) ..
  have hsentEq : ∀ q, (update s.pc p (.ringed c idx) q).sent = (s.pc q).sent :=
    Upd.map RwPc.sent (by rw [hsent]; rfl)
  have hist := h.history.goto (x := .ringed c idx) hp rfl rfl
  have hne : ∀ q r, (s.pc q).sent = some r → q ≠ p := by
    rintro q r hq rfl
    rw [hsent] at hq
    cases hq
  refine ⟨?_, ?_, ⟨fun q d jdx hq => ?_, fun q d jdx hq => ?_, fun i => ?_, h.flight.nodup,
    fun i hi => ?_⟩, ⟨?_, ?_, ?_, ?_, fun q d jdx hq hd => ?_⟩⟩
  · exact h.owns.goto hp rfl rfl (fun _ => rfl) fun q hq => h.owns.unlocked hlocked hq
  · refine { h.rings with avail := ?_ }
    change Holds num (update s.availRing (s.availIdx.toNat % num) (idx 0)) s.consumed A
    rw [h.rings.slot]
    exact h.rings.avail.store hlen _
  · change Written (s.formatted c idx).desc (s.formatted c idx).toMem d jdx
    rcases Upd.cases RwPc.written hq with ⟨rfl, hx⟩ | ⟨hqp, hq⟩
    · obtain ⟨rfl, rfl⟩ := Prod.mk.inj (Option.some.inj hx)
      exact formatted_written (by rw [← hchain]; exact h.owns.nodup q)
    · have hj := hother q hqp
      rw [show (s.pc q).chain = _ from RwPc.chain_of_written hq] at hj
      have hmem : ∀ i ∈ [jdx 0, jdx 1, jdx 2], i ≠ idx 0 ∧ i ≠ idx 1 ∧ i ≠ idx 2 := by
        intro i hi
        simpa using hj i hi
      refine (h.flight.written q d jdx hq).congr ?_ ?_ fun i hi => ?_
      · exact update_of_ne (hmem _ List.mem_cons_self).1 ..
      · exact update_of_ne (hmem _ List.mem_cons_self).1 ..
      · obtain ⟨h0, h1, h2⟩ := hmem i hi
        change update (update (update _ _ _) _ _) _ _ i = _
        rw [update_of_ne h2, update_of_ne h1, update_of_ne h0]
  · rcases Upd.cases id hq with ⟨rfl, hx⟩ | ⟨hqp, hq⟩
    · cases hx
      refine ⟨?_, update_self ..⟩
      change update s.availRing (s.availIdx.toNat % num) _ (s.submitted % num) = _
      rw [h.rings.availIdx, ofNat_mod num_dvd, update_self]
    · have := h.owns.unlocked hlocked hqp
      rw [show s.pc q = _ from hq] at this
      cases this
  · change i ∈ heads s.toMem A U ↔ ∃ q d jdx, (update s.pc p (.ringed c idx) q).sent =
      some (d, jdx) ∧ jdx 0 = i ∧ (s.formatted c idx).disk d.buf = true
    rw [h.flight.mem_heads]
    refine exists_congr fun q => exists_congr fun d => exists_congr fun jdx => ?_
    rw [hsentEq]
    refine and_congr_right fun hq => and_congr_right fun _ => ?_
    rw [hdisk q d (hne q _ hq) (RwPc.call_of_sent hq)]
  · change update s.status (idx 0) 0xff i = 0
    rw [update_of_ne]
    · exact h.flight.status i hi
    · rintro rfl
      exact h.head_owner (List.mem_append_right _ hi) hhead hsent
  · exact hist.since
  · exact hist.early
  · exact hist.pending
  · exact hist.performed
  · change (update s.pc p (.ringed c idx) q).sent = some (d, jdx) at hq
    rw [hsentEq] at hq
    change (s.formatted c idx).disk d.buf = false at hd
    rw [hdisk q d (hne q _ hq) (RwPc.call_of_sent hq)] at hd
    exact h.history.done q d jdx hq hd

/-- **The request is sent**: its head joins those on the avail ring. -/
lemma Inv.publish (hp : s.pc p = .ringed c idx) :
    { s.goto p (.test c idx) (some (.proc p)) with toMem := s.toMem.publish }.Inv
      (A ++ [idx 0]) U := by
  have hlocked : (s.pc p).locked = true := by rw [hp]; rfl
  have hcall : (s.pc p).call = some c := by rw [hp]; rfl
  have hsent : (s.pc p).sent = none := by rw [hp]; rfl
  have hhead : idx 0 ∈ (s.pc p).chain := by rw [hp]; exact List.mem_cons_self
  obtain ⟨hslot, hdisk⟩ := h.flight.ringed p c idx hp
  have hlen := h.length_avail_lt hhead hsent
  have hnot : idx 0 ∉ heads s.toMem A U := fun hmem => h.head_owner hmem hhead hsent
  have hcalls : ∀ q, (update s.pc p (.test c idx) q).call = (s.pc q).call :=
    Upd.map RwPc.call (by rw [hp]; rfl)
  have hwritten : ∀ q, (update s.pc p (.test c idx) q).written = (s.pc q).written :=
    Upd.map RwPc.written (by rw [hp]; rfl)
  -- the heads are those there were and the new one
  have hheads : ∀ i, i ∈ heads s.toMem (A ++ [idx 0]) U ↔ i ∈ heads s.toMem A U ∨ i = idx 0 := by
    intro i
    simp only [heads, List.mem_append, List.mem_singleton]
    tauto
  refine ⟨?_, ⟨?_, h.rings.used, ?_, h.rings.appended, ?_, h.rings.lastAvail, h.rings.usedIdx,
    h.rings.lastUsed⟩, ⟨fun q d jdx hq => ?_, fun q d jdx hq => ?_, fun i => ?_, ?_,
    h.flight.status⟩, ⟨?_, fun q d hd hs => ?_, fun q d jdx hq hi => ?_, fun q d jdx hq hi => ?_,
    fun q d jdx hq hd => ?_⟩⟩
  · exact h.owns.goto hp rfl rfl (fun _ => rfl) fun q hq => h.owns.unlocked hlocked hq
  · exact h.rings.avail.push hlen (by rw [← h.rings.submitted]; exact hslot)
  · change s.submitted + 1 = s.consumed + (A ++ [idx 0]).length
    rw [h.rings.submitted, List.length_append, List.length_singleton, Nat.add_assoc]
  · change s.availIdx + 1 = UInt16.ofNat (s.submitted + 1)
    rw [h.rings.availIdx, UInt16.ofNat_add]
    rfl
  · exact (h.flight.written q d jdx ((hwritten q).symm.trans hq)).congr rfl rfl fun _ _ => rfl
  · rcases Upd.cases id hq with ⟨-, hq⟩ | ⟨hqp, hq⟩
    · cases hq
    · have := h.owns.unlocked hlocked hqp
      rw [show s.pc q = _ from hq] at this
      cases this
  · change i ∈ heads s.toMem (A ++ [idx 0]) U ↔ ∃ q d jdx,
      (update s.pc p (.test c idx) q).sent = some (d, jdx) ∧ jdx 0 = i ∧ s.disk d.buf = true
    rw [hheads, h.flight.mem_heads]
    constructor
    · rintro (⟨q, d, jdx, hq, h0, hd⟩ | rfl)
      · refine ⟨q, d, jdx, ?_, h0, hd⟩
        rwa [update_of_ne]
        rintro rfl
        rw [hsent] at hq
        cases hq
      · exact ⟨p, c, idx, by rw [update_self]; rfl, rfl, hdisk⟩
    · rintro ⟨q, d, jdx, hq, h0, hd⟩
      rcases Upd.cases RwPc.sent hq with ⟨-, hq⟩ | ⟨-, hq⟩
      · cases hq
        exact .inr h0.symm
      · exact .inl ⟨q, d, jdx, hq, h0, hd⟩
  · have hperm : (heads s.toMem (A ++ [idx 0]) U).Perm (idx 0 :: heads s.toMem A U) := by
      rw [heads, heads, List.append_assoc A, List.append_assoc A, List.append_assoc A]
      exact List.perm_middle
    exact hperm.nodup_iff.mpr (List.nodup_cons.mpr ⟨hnot, h.flight.nodup⟩)
  · exact fun q d hd => h.history.since q d ((hcalls q).symm.trans hd)
  · rcases Upd.cases RwPc.sent hs with ⟨-, hs⟩ | ⟨-, hs⟩
    · cases hs
    · exact h.history.early q d ((hcalls q).symm.trans hd) hs
  · rcases Upd.cases RwPc.sent hq with ⟨rfl, hx⟩ | ⟨hqp, hq⟩
    · cases hx
      exact h.history.early q c hcall hsent
    · refine h.history.pending q d jdx hq ?_
      change jdx 0 ∈ A ++ [idx 0] ++ s.fetched at hi
      simp only [List.mem_append, List.mem_singleton] at hi ⊢
      rcases hi with (hi | hi) | hi
      · exact .inl hi
      · refine absurd ?_ (h.owns.others hhead hqp)
        rw [← hi]
        exact RwPc.head_mem (RwPc.written_of_sent hq)
      · exact .inr hi
  · rcases Upd.cases RwPc.sent hq with ⟨-, hq⟩ | ⟨-, hq⟩
    · cases hq
      exact absurd (List.mem_append_right _ hi) hnot
    · exact h.history.performed q d jdx hq hi
  · rcases Upd.cases RwPc.sent hq with ⟨-, hq⟩ | ⟨-, hq⟩
    · cases hq
      exact absurd (hdisk.symm.trans hd) nofun
    · exact h.history.done q d jdx hq hd

/-- **A call returns** when its request is marked: `free_chain` finds the three descriptors. -/
lemma Inv.finish (hp : s.pc p = .test c idx) (hdisk : s.disk c.buf = false) :
    ∃ d, s.freeChain (idx 0) = .ok d ∧
      { s.goto p .outside none with
        toDescs := d
        infoB := update s.infoB (idx 0) none
        busy := update s.busy c.buf false }.Inv A U := by
  have hlocked : (s.pc p).locked = true := by rw [hp]; rfl
  have hchain : (s.pc p).chain = [idx 0, idx 1, idx 2] := by rw [hp]; rfl
  have hwritten := h.flight.written p c idx (by rw [hp]; rfl)
  have hfree := s.freeChain_chain (a := idx 0) (b := idx 1) (c := idx 2)
    (by rw [← hchain]; exact h.owns.lt p) (by rw [← hchain]; exact h.owns.nodup p)
    (by rw [← hchain]; exact fun i hi => h.owns.not_free hi)
    (by rw [hwritten.first]; dsimp only; decide) (by rw [hwritten.first])
    (by rw [hwritten.second]; dsimp only; split_ifs <;> decide) (by rw [hwritten.second])
    (by rw [hwritten.third]; dsimp only; decide)
  have hleft : ∀ {γ : Type _} (f : RwPc β → Option γ) (q : ι) (r : γ), f .outside = none →
      f (update s.pc p .outside q) = some r → q ≠ p ∧ f (s.pc q) = some r := fun f q r hf hq =>
    (Upd.cases f hq).resolve_left fun hq => absurd (hf.symm.trans hq.2) nofun
  refine ⟨_, hfree, ?_, { h.rings with }, ⟨fun q d jdx hq => ?_, fun q d jdx hq => ?_, fun i => ?_,
    h.flight.nodup, h.flight.status⟩, ⟨fun q d hd => ?_, fun q d hd hs => ?_,
    fun q d jdx hq hi => ?_, fun q d jdx hq hi => ?_, fun q d jdx hq hd => ?_⟩⟩
  · refine h.owns.leave hp fun i => ?_
    rw [Descs.cleared_free_iff, Descs.cleared_free_iff, Descs.cleared_free_iff]
    simp only [List.mem_cons, List.not_mem_nil, or_false]
    tauto
  · obtain ⟨hqp, hq⟩ := hleft RwPc.written q (d, jdx) rfl hq
    -- the descriptors of other requests are not those that were freed
    have hmem : ∀ i ∈ [jdx 0, jdx 1, jdx 2], i ≠ idx 0 ∧ i ≠ idx 1 ∧ i ≠ idx 2 := by
      intro i hi
      have hno := h.owns.others (p := q) (by rwa [RwPc.chain_of_written hq]) (Ne.symm hqp)
        (i := i)
      rw [hchain] at hno
      simpa using hno
    refine (h.flight.written q d jdx hq).congr rfl ?_ fun i hi => ?_
    · exact update_of_ne (hmem _ List.mem_cons_self).1 ..
    · obtain ⟨h0, h1, h2⟩ := hmem i hi
      rw [Descs.cleared_desc h2, Descs.cleared_desc h1, Descs.cleared_desc h0]
  · rcases Upd.cases id hq with ⟨-, hq⟩ | ⟨-, hq⟩
    · cases hq
    · exact h.flight.ringed q d jdx hq
  · change i ∈ heads s.toMem A U ↔ ∃ q d jdx,
      (update s.pc p .outside q).sent = some (d, jdx) ∧ jdx 0 = i ∧ s.disk d.buf = true
    rw [h.flight.mem_heads]
    constructor
    · rintro ⟨q, d, jdx, hq, h0, hd⟩
      refine ⟨q, d, jdx, ?_, h0, hd⟩
      rwa [update_of_ne]
      rintro rfl
      rw [hp] at hq
      cases hq
      rw [hdisk] at hd
      cases hd
    · rintro ⟨q, d, jdx, hq, h0, hd⟩
      exact ⟨q, d, jdx, (hleft RwPc.sent q (d, jdx) rfl hq).2, h0, hd⟩
  · exact h.history.since q d (hleft RwPc.call q d rfl hd).2
  · obtain ⟨hqp, hd⟩ := hleft RwPc.call q d rfl hd
    exact h.history.early q d hd ((congrArg RwPc.sent (update_of_ne hqp ..)).symm.trans hs)
  · exact h.history.pending q d jdx (hleft RwPc.sent q (d, jdx) rfl hq).2 hi
  · exact h.history.performed q d jdx (hleft RwPc.sent q (d, jdx) rfl hq).2 hi
  · exact h.history.done q d jdx (hleft RwPc.sent q (d, jdx) rfl hq).2 hd

end Invariant

variable [DecidableEq ι]

/-! ### All interleavings -/

/-- **No step panics**, and every step keeps the invariant. Only a process that writes its request
stores into the avail ring. -/
lemma Inv.step (h : s.Inv A U) {a : Action ι β} {r : Except Panic (Vdisk ι β)}
    (hs : s.step a = some r) : ∃ t A' U', r = .ok t ∧ t.Inv A' U' ∧
      (t.availRing = s.availRing ∨ ∃ p c idx, s.pc p = .format c idx ∧
        t.availRing = update s.availRing (s.availIdx.toNat % num) (idx 0)) := by
  cases a with
  | enter p b blockno write =>
    simp only [Vdisk.step] at hs
    split at hs
    · rename_i hp hl hb
      cases hs
      exact ⟨_, A, U, rfl, h.enter hp hl hb, .inl rfl⟩
    · cases hs
  | alloc p =>
    simp only [Vdisk.step] at hs
    split at hs
    · rename_i c hp
      obtain ⟨⟨res, d⟩, he, hinv⟩ := h.alloc hp
      rw [he] at hs
      cases hs
      cases res with
      | none | some idx => exact ⟨_, A, U, rfl, hinv, .inl rfl⟩
    · cases hs
  | wake p =>
    simp only [Vdisk.step] at hs
    split at hs
    · rename_i c hp hl
      cases hs
      exact ⟨_, A, U, rfl, h.goto hp rfl rfl rfl rfl nofun (fun _ => rfl)
        fun q _ => h.owns.unlocked_of_ne (by rw [hl]; exact nofun) q, .inl rfl⟩
    · rename_i c idx hp hl
      cases hs
      exact ⟨_, A, U, rfl, h.goto hp rfl rfl rfl rfl nofun (fun _ => rfl)
        fun q _ => h.owns.unlocked_of_ne (by rw [hl]; exact nofun) q, .inl rfl⟩
    · cases hs
  | format p =>
    simp only [Vdisk.step] at hs
    split at hs
    · rename_i c idx hp
      cases hs
      exact ⟨_, A, U, rfl, h.format hp, .inr ⟨p, c, idx, hp, rfl⟩⟩
    · cases hs
  | publish p =>
    simp only [Vdisk.step] at hs
    split at hs
    · rename_i c idx hp
      cases hs
      exact ⟨_, _, U, rfl, h.publish hp, .inl rfl⟩
    · cases hs
  | test p =>
    simp only [Vdisk.step] at hs
    split at hs
    · rename_i c idx hp
      split_ifs at hs with hd
      · cases hs
        exact ⟨_, A, U, rfl, h.goto hp rfl rfl rfl rfl nofun nofun
          fun q hq => h.owns.unlocked (by rw [hp]; rfl) hq, .inl rfl⟩
      · obtain ⟨d, he, hinv⟩ := h.finish hp (by simpa using hd)
        rw [he] at hs
        cases hs
        exact ⟨_, A, U, rfl, hinv, .inl rfl⟩
    · cases hs
  | intr =>
    simp only [Vdisk.step] at hs
    split at hs
    · rename_i hl
      cases hs
      exact ⟨_, A, U, rfl, h.relock (by rw [hl]; exact nofun) _, .inl rfl⟩
    · cases hs
  | intrLoop =>
    simp only [Vdisk.step] at hs
    split at hs
    · rename_i hl
      split_ifs at hs with hne
      · cases hs
        obtain ⟨t, U', he, hinv, hring⟩ := h.handle hne
        exact ⟨t, A, U', he, hinv, .inl hring⟩
      · cases hs
        exact ⟨_, A, U, rfl, h.relock (by rw [hl]; exact nofun) _, .inl rfl⟩
    · cases hs
  | fetch =>
    simp only [Vdisk.step] at hs
    split_ifs at hs with hne
    cases hs
    obtain ⟨A', hinv⟩ := h.fetch hne
    exact ⟨_, A', U, rfl, hinv, .inl rfl⟩
  | perform i =>
    simp only [Vdisk.step] at hs
    split_ifs at hs with hi
    cases hs
    obtain ⟨t, he, hinv, hring⟩ := h.perform hi
    exact ⟨t, A, U, he, hinv, .inl hring⟩
  | append i =>
    simp only [Vdisk.step] at hs
    split_ifs at hs with hi
    cases hs
    exact ⟨_, A, _, rfl, h.append hi, .inl rfl⟩

/-- What holds in every state. -/
lemma Reachable.inv (h : s.Reachable) : ∃ A U, s.Inv A U := by
  induction h with
  | refl => exact ⟨[], [], inv_init⟩
  | tail _ hstep ih =>
    obtain ⟨a, ha⟩ := hstep
    obtain ⟨A, U, hinv⟩ := ih
    obtain ⟨t, A', U', he, hinv', _⟩ := hinv.step ha
    cases he
    exact ⟨A', U', hinv'⟩

/-- **The avail ring**: an entry the device has not taken is not overwritten. -/
lemma Inv.availRing_kept (h : s.Inv A U) {a : Action ι β} (hs : s.step a = some (.ok t)) {n : ℕ}
    (hn : s.consumed ≤ n) (hlt : n < s.submitted) :
    t.availRing (n % num) = s.availRing (n % num) := by
  obtain ⟨_, _, _, ht, _, hring⟩ := h.step hs
  cases ht
  rcases hring with he | ⟨p, c, idx, hp, he⟩
  · rw [he]
  · have hlen := h.length_avail_lt (p := p) (i := idx 0) (by rw [hp]; exact List.mem_cons_self)
      (by rw [hp]; rfl)
    have hsub := h.rings.submitted
    rw [he, h.rings.availIdx, ofNat_mod num_dvd, update_of_ne]
    exact mod_ne hlt (by omega)

/-- **A call returns** only when its request has been performed and marked. -/
lemma Inv.returned (h : s.Inv A U) (hs : s.step (.test p) = some (.ok t)) (ht : t.pc p = .outside) :
    ∃ c, (s.pc p).call = some c ∧ s.performedFor c = [c.request] ∧ s.markedFor c = [c.buf] := by
  simp only [Vdisk.step] at hs
  split at hs
  · rename_i c idx hp
    split_ifs at hs with hd
    · cases hs
      exact absurd ((update_self ..).symm.trans ht) nofun
    · exact ⟨c, by rw [hp]; rfl, h.history.done p c idx (by rw [hp]; rfl) (by simpa using hd)⟩
  · cases hs

/-- **The virtio request protocol.** For any number of processes that call `virtio_disk_rw`, in
every interleaving of their steps, those of the device and those of `virtio_disk_intr`:

* a descriptor is free and in no chain, or belongs to the chain of exactly one call, and a chain has
  three distinct descriptors;
* no step panics: `free_desc` is not called for a free descriptor, the handler sees only entries
  with status zero and a buffer, and the device only requests;
* a step leaves the entries of the avail ring alone that the device has not yet taken;
* when a call returns, the device has performed one request on its buffer since the call began, its
  own, and the handler has marked it once, and it is never marked twice.

The indices of the rings are the numbers of entries modulo `2 ^ 16`. -/
theorem virtio_request_protocol (s : Vdisk ι β) (h : s.Reachable) :
    (∀ i < num, (s.free i = true ∧ ∀ p, i ∉ (s.pc p).chain) ∨
      s.free i = false ∧ ∃! p, i ∈ (s.pc p).chain) ∧
    (∀ p, (s.pc p).chain = [] ∨ (s.pc p).chain.length = 3 ∧ (s.pc p).chain.Nodup) ∧
    (∀ a e, s.step a ≠ some (.error e)) ∧
    (s.availIdx = UInt16.ofNat s.submitted ∧ s.lastAvail = UInt16.ofNat s.consumed ∧
      ∀ a t, s.step a = some (.ok t) → ∀ n, s.consumed ≤ n → n < s.submitted →
        t.availRing (n % num) = s.availRing (n % num)) ∧
    (∀ p t, s.step (.test p) = some (.ok t) → t.pc p = .outside →
      ∃ c, (s.pc p).call = some c ∧ s.performedFor c = [c.request] ∧ s.markedFor c = [c.buf]) ∧
    ∀ p c, (s.pc p).call = some c → (s.markedFor c).length ≤ 1 := by
  obtain ⟨A, U, hinv⟩ := h.inv
  refine ⟨fun i hi => ?_, fun p => ?_, fun a e he => ?_, ⟨hinv.rings.availIdx, hinv.rings.lastAvail,
    fun a t hs n => hinv.availRing_kept hs⟩, fun p t => hinv.returned, fun p c => hinv.marked_le⟩
  · by_cases hf : s.free i = true
    · exact .inl ⟨hf, (hinv.owns.free i hi).mp hf⟩
    · have hno := mt (hinv.owns.free i hi).mpr hf
      push Not at hno
      obtain ⟨p, hp⟩ := hno
      exact .inr ⟨by simpa using hf, p, hp, fun q hq => hinv.owns.disjoint q p i hq hp⟩
  · have hnodup := hinv.owns.nodup p
    cases hpc : s.pc p with
    | outside | alloc _ | allocSleep _ => exact .inl rfl
    | format _ _ | ringed _ _ | test _ _ | sleeping _ _ =>
      rw [hpc] at hnodup
      exact .inr ⟨rfl, hnodup⟩
  · obtain ⟨_, _, _, ht, _⟩ := hinv.step he
    cases ht

def after (s : Vdisk ι β) : List (Action ι β) → Option (Vdisk ι β)
  | [] => some s
  | a :: as =>
    match s.step a with
    | some (.ok t) => t.after as
    | _ => none

lemma after_reachable (h : s.Reachable) {as : List (Action ι β)} (hs : s.after as = some t) :
    t.Reachable := by
  induction as generalizing s with
  | nil =>
    cases hs
    exact h
  | cons a as ih =>
    rw [after] at hs
    split at hs
    · rename_i u hu
      exact ih (h.tail ⟨a, hu⟩) hs
    · cases hs

/-- The request of `p` is performed and marked while `q` waits for its own. -/
def twoCalls (p q : ι) (b c : β) : List (Action ι β) :=
  [.enter p b 5 false, .alloc p, .format p, .publish p, .fetch, .test p, .enter q c 6 true,
    .alloc q, .format q, .perform 0, .publish q, .append 0, .test q, .intr, .intrLoop, .intrLoop,
    .wake p]

theorem virtio_request_protocol_two : ∃ s : Vdisk (Fin 2) (Fin 2), s.Reachable ∧
    s.submitted = 2 ∧ s.completed = [0] ∧ ∀ a e, s.step a ≠ some (.error e) := by
  have hrun : ((init (Fin 2) (Fin 2)).after (twoCalls 0 1 0 1)).map
      (fun s => (s.submitted, s.completed)) = some (2, [0]) := by decide +kernel
  obtain ⟨s, hs, he⟩ := Option.map_eq_some_iff.mp hrun
  have hreach := after_reachable .refl hs
  exact ⟨s, hreach, congrArg Prod.fst he, congrArg Prod.snd he,
    (virtio_request_protocol s hreach).2.2.1⟩

end Vdisk

end Xv6Riscv
