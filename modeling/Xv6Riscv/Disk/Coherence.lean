import Xv6Riscv.Disk.Bcache

/-!
The buffer cache as an array of blocks.

A process that has got a buffer from `bread` sees the data last stored into the block, by whichever
process and through whichever buffer that was. What was stored is in the buffer or on the disk: a
buffer that differs from the disk is locked or pinned, and therefore counted, and only buffers that
are not counted are recycled.

* `Bio.Careful`: what is stored is written to the disk or pinned before the buffer is released, as
  the callers of `bread` do.
* `Bio.buffer_cache`: the list, the buffers and their data in every state.
-/

namespace Xv6Riscv

open Function (update update_eq_self update_of_ne update_self)
open DoublyLinked

namespace Bio

variable {ι : Type*} [DecidableEq ι]

/-- Only the holder of a buffer pins it or takes back what was pinned, and what was stored is on the
disk or pinned when the buffer is released. -/
def Careful (s : Bio ι) (a : BioAction ι) : Prop :=
  s.Proper a ∧ ∀ p b, a = .brelse p b → 0 < s.pins b ∨ s.disk (s.buf b).key = (s.buf b).data

/-- **Where the data of a block is**: in its buffer if that is valid, and else on the disk; and on
the disk unless the buffer is locked or pinned. -/
structure Coherent (s : Bio ι) : Prop where
  valid : ∀ b, (s.buf b).dev ≠ 0 → (s.buf b).valid = true → (s.buf b).data = s.latest (s.buf b).key
  invalid : ∀ b, (s.buf b).dev ≠ 0 → (s.buf b).valid = false →
    s.disk (s.buf b).key = s.latest (s.buf b).key
  uncached : ∀ k : UInt32 × Blockno, k.1 ≠ 0 → (∀ b, (s.buf b).key ≠ k) → s.disk k = s.latest k
  clean : ∀ b, (s.buf b).dev ≠ 0 → s.lock b = none → s.pins b = 0 →
    s.disk (s.buf b).key = s.latest (s.buf b).key
  held : ∀ b p, s.lock b = some p → (s.buf b).valid = true ∨ s.pc p = .filling b
  filling : ∀ p b, s.pc p = .filling b → (s.buf b).valid = false

variable {s t : Bio ι} {p : ι} {b : Fin nbuf}

omit [DecidableEq ι] in
lemma coherent_init (disk : UInt32 × Blockno → Block) : (init ι disk).Coherent where
  valid _ h := absurd rfl h
  invalid _ h := absurd rfl h
  uncached _ _ _ := rfl
  clean _ h := absurd rfl h
  held _ _ h := by cases h
  filling _ _ h := by cases h

omit [DecidableEq ι] in
/-- A process that is not in `bread` has valid buffers. -/
lemma Coherent.valid_of_idle (h : s.Coherent) (hpc : ∀ b, s.pc p ≠ .filling b)
    (hlock : s.lock b = some p) : (s.buf b).valid = true :=
  (h.held b p hlock).resolve_right (hpc b)

lemma Coherent.same {x : BioPc} (h : s.Coherent) (hpc : t.pc = update s.pc p x)
    (hbuf : ∀ b, (t.buf b).valid = (s.buf b).valid ∧ (t.buf b).key = (s.buf b).key ∧
      (t.buf b).data = (s.buf b).data) (hdisk : t.disk = s.disk) (hlatest : t.latest = s.latest)
    (hclean : ∀ b, (s.buf b).dev ≠ 0 → t.lock b = none → t.pins b = 0 →
      (s.lock b = none ∧ s.pins b = 0) ∨ s.disk (s.buf b).key = s.latest (s.buf b).key)
    (hheld : ∀ b q, t.lock b = some q → (s.buf b).valid = true ∨ t.pc q = .filling b)
    (hx : ∀ b, x = .filling b → (s.buf b).valid = false) : t.Coherent := by
  have hdev : ∀ b, (t.buf b).dev = (s.buf b).dev := fun b => congrArg Prod.fst (hbuf b).2.1
  refine ⟨fun b hd hv => ?_, fun b hd hv => ?_, fun k hk hno => ?_, fun b hd hl hp => ?_,
    fun b q hq => ?_, fun q b hq => ?_⟩
  · rw [(hbuf b).2.2, (hbuf b).2.1, hlatest]
    exact h.valid b (hdev b ▸ hd) ((hbuf b).1 ▸ hv)
  · rw [(hbuf b).2.1, hdisk, hlatest]
    exact h.invalid b (hdev b ▸ hd) ((hbuf b).1 ▸ hv)
  · rw [hdisk, hlatest]
    exact h.uncached k hk fun b => (hbuf b).2.1 ▸ hno b
  · rw [(hbuf b).2.1, hdisk, hlatest]
    rcases hclean b (hdev b ▸ hd) hl hp with ⟨hl', hp'⟩ | hsame
    · exact h.clean b (hdev b ▸ hd) hl' hp'
    · exact hsame
  · rw [(hbuf b).1]
    exact hheld b q hq
  · rw [(hbuf b).1]
    rw [hpc] at hq
    rcases Upd.cases id hq with ⟨-, hq⟩ | ⟨-, hq⟩
    · exact hx b hq
    · exact h.filling q b hq

lemma Coherent.held_of {x : BioPc} (h : s.Coherent) (hpc : t.pc = update s.pc p x)
    (hnot : ∀ b, s.pc p ≠ .filling b) {q : ι} (hq : s.lock b = some q) :
    (s.buf b).valid = true ∨ t.pc q = .filling b := by
  rcases eq_or_ne q p with rfl | hqp
  · exact .inl (h.valid_of_idle hnot hq)
  · rw [hpc, update_of_ne hqp]
    exact h.held b q hq

lemma Coherent.bread [Fintype ι] {key : UInt32 × Blockno} (h : s.Coherent) (hinv : s.Inv)
    (hidle : s.pc p = .idle) (hget : s.cache.bget key = .ok (b, t.cache))
    (hpc : t.pc = update s.pc p (.waiting b)) (hlock : t.lock = s.lock) (hpins : t.pins = s.pins)
    (hdisk : t.disk = s.disk) (hlatest : t.latest = s.latest) : t.Coherent := by
  have hnot : ∀ b, s.pc p ≠ .filling b := fun b => by rw [hidle]; exact nofun
  have hheld : ∀ b' q, t.lock b' = some q → (s.buf b').valid = true ∨ t.pc q = .filling b' :=
    fun b' q hq => h.held_of hpc hnot (hlock ▸ hq)
  obtain ⟨l, hl, -⟩ := hinv.order
  obtain ⟨-, hhit | ⟨hkey, hzero, -, hself, hne⟩⟩ := hl.bget_ok hget
  · have hbuf : ∀ b', t.buf b' =
        { s.buf b' with refcnt := (s.buf b').refcnt + if b' = b then 1 else 0 } := hhit.2
    exact h.same hpc (fun b' => by rw [hbuf]; exact ⟨rfl, rfl, rfl⟩) hdisk hlatest
      (fun b' _ hl' hp' => .inl ⟨hlock ▸ hl', hpins ▸ hp'⟩) hheld nofun
  · -- the buffer that is recycled is neither locked nor pinned, so its data is on the disk
    change t.buf b = { s.buf b with
      dev := key.1, blockno := key.2, valid := false, refcnt := 1 } at hself
    change ∀ b' ≠ b, t.buf b' = s.buf b' at hne
    have hrefs : s.refs b = 0 := by rw [← hinv.refcnt, buf, hzero, Nat.cast_zero]
    have hunlocked : s.lock b = none := by
      by_contra hsome
      obtain ⟨q, hq⟩ := Option.ne_none_iff_exists'.mp hsome
      exact (refs_pos_of_lock hq).ne' hrefs
    have hunpinned : s.pins b = 0 := by
      have := (s.refs_nonneg b).2.1
      omega
    have hkeyb : (t.buf b).key = key := by rw [hself]; rfl
    refine ⟨fun b' hd hv => ?_, fun b' hd hv => ?_, fun k hk hno => ?_, fun b' hd hl' hp => ?_,
      fun b' q hq => ?_, fun q b' hq => ?_⟩
    · rcases eq_or_ne b' b with rfl | hb'
      · rw [hself] at hv
        cases hv
      · rw [hne b' hb'] at hd hv ⊢
        rw [hlatest]
        exact h.valid b' hd hv
    · rw [hdisk, hlatest]
      rcases eq_or_ne b' b with rfl | hb'
      · rw [hkeyb]
        exact h.uncached key (hkeyb ▸ hd) hkey
      · rw [hne b' hb'] at hd hv ⊢
        exact h.invalid b' hd hv
    · rw [hdisk, hlatest]
      rcases eq_or_ne (s.buf b).key k with rfl | hold
      · exact h.clean b hk hunlocked hunpinned
      · refine h.uncached k hk fun b' => ?_
        rcases eq_or_ne b' b with rfl | hb'
        · exact hold
        · exact hne b' hb' ▸ hno b'
    · rw [hdisk, hlatest]
      rcases eq_or_ne b' b with rfl | hb'
      · rw [hkeyb]
        exact h.uncached key (hkeyb ▸ hd) hkey
      · rw [hne b' hb'] at hd ⊢
        exact h.clean b' hd (hlock ▸ hl') (hpins ▸ hp)
    · rcases eq_or_ne b' b with rfl | hb'
      · rw [hlock, hunlocked] at hq
        cases hq
      · rw [hne b' hb']
        exact hheld b' q hq
    · rcases eq_or_ne b' b with rfl | hb'
      · rw [hself]
      · rw [hne b' hb']
        rw [hpc] at hq
        rcases Upd.cases id hq with ⟨-, hq⟩ | ⟨-, hq⟩
        · cases hq
        · exact h.filling q b' hq

lemma Coherent.acquire (h : s.Coherent) (hwait : s.pc p = .waiting b) :
    Coherent { s.goto p (if (s.buf b).valid then .idle else .filling b) with
      lock := update s.lock b (some p) } := by
  have hnot : ∀ b', s.pc p ≠ .filling b' := fun b' => by rw [hwait]; exact nofun
  refine h.same (p := p) rfl (fun b' => ⟨rfl, rfl, rfl⟩) rfl rfl (fun b' _ hl _ => ?_)
    (fun b' q hq => ?_) fun b' hx => ?_
  · rcases eq_or_ne b' b with rfl | hb'
    · dsimp only at hl
      rw [update_self] at hl
      cases hl
    · dsimp only at hl
      rw [update_of_ne hb'] at hl
      exact .inl ⟨hl, ‹_›⟩
  · dsimp only at hq
    rcases eq_or_ne b' b with rfl | hb'
    · rw [update_self] at hq
      cases hq
      cases hv : (s.buf b').valid with
      | true => exact .inl rfl
      | false => exact .inr (by simp [goto])
    · rw [update_of_ne hb'] at hq
      exact h.held_of rfl hnot hq
  · cases hv : (s.buf b).valid with
    | true =>
      rw [hv] at hx
      cases hx
    | false =>
      rw [hv] at hx
      cases hx
      exact hv

omit [DecidableEq ι] in
lemma Coherent.put [Fintype ι] {f : Buf → Buf} (h : s.Coherent) (hinv : s.Inv)
    (hcache : t.cache = s.cache.modify b f) (hfvalid : (f (s.buf b)).valid = true)
    (hfkey : (f (s.buf b)).key = (s.buf b).key)
    (hfdata : (s.buf b).dev ≠ 0 → (f (s.buf b)).data = t.latest (s.buf b).key)
    (hlock : t.lock = s.lock) (hheld : s.lock b ≠ none) (hpins : t.pins = s.pins)
    (hdisk : t.disk = s.disk) (hlatest : ∀ k ≠ (s.buf b).key, t.latest k = s.latest k)
    (hpc : ∀ q b', t.pc q = .filling b' ↔ s.pc q = .filling b' ∧ b' ≠ b) : t.Coherent := by
  have hself : t.buf b = f (s.buf b) := by
    rw [buf, hcache, Bcache.modify_self]
    rfl
  have hne : ∀ b' ≠ b, t.buf b' = s.buf b' := by
    intro b' hb'
    rw [buf, hcache, Bcache.modify_of_ne hb']
    rfl
  have hkey : (t.buf b).key = (s.buf b).key := by rw [hself, hfkey]
  have hlatest' : ∀ b' ≠ b, (s.buf b').dev ≠ 0 →
      t.latest (s.buf b').key = s.latest (s.buf b').key := fun b' hb' hd =>
    hlatest _ fun heq => hb' (hinv.unique b' b heq hd)
  refine ⟨fun b' hd hv => ?_, fun b' hd hv => ?_, fun k hk hno => ?_, fun b' hd hl hp => ?_,
    fun b' q hq => ?_, fun q b' hq => ?_⟩
  · rcases eq_or_ne b' b with rfl | hb'
    · rw [hkey, hself]
      exact hfdata fun hz => hd ((congrArg Prod.fst hkey).trans hz)
    · rw [hne b' hb'] at hd hv ⊢
      rw [hlatest' b' hb' hd]
      exact h.valid b' hd hv
  · rcases eq_or_ne b' b with rfl | hb'
    · rw [hself, hfvalid] at hv
      cases hv
    · rw [hne b' hb'] at hd hv ⊢
      rw [hlatest' b' hb' hd, hdisk]
      exact h.invalid b' hd hv
  · have hno' : ∀ b', (s.buf b').key ≠ k := by
      intro b'
      rcases eq_or_ne b' b with rfl | hb'
      · exact hkey ▸ hno b'
      · exact hne b' hb' ▸ hno b'
    rw [hlatest k (hno' b).symm, hdisk]
    exact h.uncached k hk hno'
  · rcases eq_or_ne b' b with rfl | hb'
    · exact absurd (hlock ▸ hl) hheld
    · rw [hne b' hb'] at hd ⊢
      rw [hlatest' b' hb' hd, hdisk]
      exact h.clean b' hd (hlock ▸ hl) (hpins ▸ hp)
  · rcases eq_or_ne b' b with rfl | hb'
    · exact .inl (by rw [hself, hfvalid])
    · rw [hne b' hb', hpc]
      exact (h.held b' q (hlock ▸ hq)).imp id fun hf => ⟨hf, hb'⟩
  · obtain ⟨hf, hb'⟩ := (hpc q b').mp hq
    rw [hne b' hb']
    exact h.filling q b' hf

lemma Coherent.fill [Fintype ι] (h : s.Coherent) (hinv : s.Inv) (hf : s.pc p = .filling b) :
    Coherent { s.goto p .idle with
      cache := s.cache.modify b fun x => { x with data := s.disk x.key, valid := true } } := by
  have hheld : s.lock b = some p := hinv.filling p b hf
  refine h.put (f := fun x => { x with data := s.disk x.key, valid := true })
    (b := b) hinv rfl rfl rfl (fun hd => h.invalid b hd (h.filling p b hf)) rfl
    (by rw [hheld]; exact Option.some_ne_none p) rfl rfl (fun _ _ => rfl) fun q b' => ?_
  change update s.pc p .idle q = _ ↔ _
  rcases eq_or_ne q p with rfl | hqp
  · rw [update_self, hf]
    refine ⟨nofun, fun hb => ?_⟩
    cases hb.1
    exact absurd rfl hb.2
  · rw [update_of_ne hqp]
    refine ⟨fun hq => ⟨hq, ?_⟩, And.left⟩
    rintro rfl
    exact hqp (Option.some.inj ((hinv.filling q b' hq).symm.trans hheld))

omit [DecidableEq ι] in
lemma Coherent.store [Fintype ι] {data : Block} (h : s.Coherent) (hinv : s.Inv)
    (hpc : s.pc p = .idle) (hlock : s.lock b = some p) :
    Coherent { s with
      cache := s.cache.modify b fun x => { x with data := data }
      latest := update s.latest (s.buf b).key data } := by
  have hv := h.valid_of_idle (fun b' => by rw [hpc]; exact nofun) hlock
  refine h.put (f := fun x => { x with data := data }) (b := b) hinv rfl hv rfl
    (fun _ => (update_self (s.buf b).key data s.latest).symm) rfl
    (by rw [hlock]; exact Option.some_ne_none p) rfl rfl (fun k hk => update_of_ne hk ..)
    fun q b' => ⟨fun hq => ⟨hq, ?_⟩, And.left⟩
  rintro rfl
  cases Option.some.inj ((hinv.filling q b' hq).symm.trans hlock)
  cases hpc.symm.trans hq

omit [DecidableEq ι] in
lemma Coherent.bwrite (h : s.Coherent) (hpc : s.pc p = .idle) (hlock : s.lock b = some p) :
    Coherent { s with disk := update s.disk (s.buf b).key (s.buf b).data } := by
  have hv := h.valid_of_idle (fun b' => by rw [hpc]; exact nofun) hlock
  -- the block that is written is as it was stored
  have hdisk : ∀ k : UInt32 × Blockno, k.1 ≠ 0 → (s.disk k = s.latest k ∨ k = (s.buf b).key) →
      update s.disk (s.buf b).key (s.buf b).data k = s.latest k := by
    intro k hk hor
    rcases eq_or_ne k (s.buf b).key with rfl | hne
    · rw [update_self]
      exact h.valid b hk hv
    · rw [update_of_ne hne]
      exact hor.resolve_right hne
  exact ⟨h.valid, fun b' hd hv' => hdisk _ hd (.inl (h.invalid b' hd hv')),
    fun k hk hno => hdisk k hk (.inl (h.uncached k hk hno)),
    fun b' hd hl hp => hdisk _ hd (.inl (h.clean b' hd hl hp)), h.held, h.filling⟩

lemma Coherent.brelse (h : s.Coherent) (hpc : s.pc p = .idle) (hlock : s.lock b = some p)
    (hsafe : 0 < s.pins b ∨ s.disk (s.buf b).key = (s.buf b).data) :
    Coherent { s.goto p (.releasing b) with lock := update s.lock b none } := by
  have hnot : ∀ b', s.pc p ≠ .filling b' := fun b' => by rw [hpc]; exact nofun
  refine h.same (p := p) rfl (fun b' => ⟨rfl, rfl, rfl⟩) rfl rfl (fun b' hd hl hp => ?_)
    (fun b' q hq => ?_) nofun
  · rcases eq_or_ne b' b with rfl | hb'
    · refine .inr ((hsafe.resolve_left fun hpos => hpos.ne' hp).trans ?_)
      exact h.valid b' hd (h.valid_of_idle hnot hlock)
    · exact .inl ⟨(update_of_ne hb' ..).symm.trans hl, hp⟩
  · dsimp only at hq
    rcases eq_or_ne b' b with rfl | hb'
    · rw [update_self] at hq
      cases hq
    · rw [update_of_ne hb'] at hq
      exact h.held_of rfl hnot hq

lemma Coherent.drop (h : s.Coherent) (hpc : s.pc p = .releasing b) :
    Coherent { s.goto p .idle with
      cache := s.cache.drop b
      released := update s.released b (s.clock + 1)
      clock := s.clock + 1 } := by
  have hnot : ∀ b', s.pc p ≠ .filling b' := fun b' => by rw [hpc]; exact nofun
  refine h.same (p := p) rfl (fun b' => ?_) rfl rfl (fun b' _ hl hp => .inl ⟨hl, hp⟩)
    (fun b' q hq => h.held_of rfl hnot hq) nofun
  rw [buf, Bcache.drop_buf]
  rcases eq_or_ne b' b with rfl | hb'
  · rw [Bcache.modify_self]
    exact ⟨rfl, rfl, rfl⟩
  · rw [Bcache.modify_of_ne hb']
    exact ⟨rfl, rfl, rfl⟩

/-- `bpin`, and `bunpin` of a buffer that is locked. -/
lemma Coherent.pin {f : Buf → Buf} {n : ℕ} (h : s.Coherent)
    (hf : ∀ y, (f y).valid = y.valid ∧ (f y).key = y.key ∧ (f y).data = y.data)
    (hlock : s.lock b ≠ none) (p : ι) :
    Coherent { s with cache := s.cache.modify b f, pins := update s.pins b n } := by
  refine h.same (p := p) (x := s.pc p) ?_ (fun b' => ?_) rfl rfl (fun b' _ hl hp => ?_) h.held
    fun b' hb' => h.filling p b' hb'
  · rw [update_eq_self]
  · rw [buf]
    rcases eq_or_ne b' b with rfl | hb'
    · rw [Bcache.modify_self]
      exact hf _
    · rw [Bcache.modify_of_ne hb']
      exact ⟨rfl, rfl, rfl⟩
  · rcases eq_or_ne b' b with rfl | hb'
    · exact absurd hl hlock
    · exact .inl ⟨hl, (update_of_ne hb' ..).symm.trans hp⟩

/-- **Every step keeps the data.** -/
lemma Coherent.step [Fintype ι] {a : BioAction ι} (h : s.Coherent) (hinv : s.Inv) (ha : s.Careful a)
    (hstep : s.step a = some (.ok t)) : t.Coherent := by
  obtain ⟨hproper, hsafe⟩ := ha
  cases Step.of_step hstep with
  | bread hpc hget => exact h.bread hinv hpc hget rfl rfl rfl rfl rfl
  | acquire hpc _ => exact h.acquire hpc
  | fill hpc => exact h.fill hinv hpc
  | store hpc hlock => exact h.store hinv hpc hlock
  | bwrite hpc hlock => exact h.bwrite hpc hlock
  | brelse hpc hlock => exact h.brelse hpc hlock (hsafe _ _ rfl)
  | drop hpc => exact h.drop hpc
  | @bpin p b hpc =>
    exact h.pin (f := fun x => { x with refcnt := x.refcnt + 1 }) (fun y => ⟨rfl, rfl, rfl⟩)
      (fun hnone => Option.some_ne_none p (hproper.symm.trans hnone)) p
  | @bunpin p b hpc =>
    exact h.pin (f := fun x => { x with refcnt := x.refcnt - 1 }) (fun y => ⟨rfl, rfl, rfl⟩)
      (fun hnone => Option.some_ne_none p (hproper.1.symm.trans hnone)) p

lemma Reachable.coherent [Fintype ι] {disk : UInt32 × Blockno → Block}
    (h : Reachable Careful disk s) : s.Coherent := by
  induction h with
  | init => exact coherent_init disk
  | step hs ha hstep ih => exact ih.step (hs.inv fun _ _ ha => ha.1) ha hstep

/-! ### Recycling -/

omit [DecidableEq ι] in
/-- **The buffer that is recycled** is the unused one whose last release is oldest. -/
lemma Inv.oldest [Fintype ι] {key : UInt32 × Blockno} {c : Bcache} (h : s.Inv)
    (hget : s.cache.bget key = .ok (b, c)) (hno : ∀ b', (s.buf b').key ≠ key) :
    (s.buf b).refcnt = 0 ∧ ∀ b', (s.buf b').refcnt = 0 → s.released b ≤ s.released b' := by
  obtain ⟨l, hl, hpair⟩ := h.order
  obtain ⟨-, ⟨hkey, -⟩ | ⟨-, hzero, ⟨l1, l2, hsplit, hbehind⟩, -, -⟩⟩ := hl.bget_ok hget
  · exact absurd hkey (hno b)
  · refine ⟨hzero, fun b' hb' => ?_⟩
    have hmem := hl.all b'
    rw [hsplit, List.mem_append, List.mem_cons] at hmem
    rcases hmem with hmem | rfl | hmem
    · -- in front of it
      rw [hsplit] at hpair
      exact (List.pairwise_append.mp hpair).2.2 b' hmem b List.mem_cons_self hb' hzero
    · exact le_rfl
    · exact absurd hb' (hbehind b' hmem)

/-- **A buffer that is in use is not recycled.** -/
lemma Inv.key_of_pos [Fintype ι] {a : BioAction ι} (h : s.Inv) (hstep : s.step a = some (.ok t))
    (hpos : 0 < (s.buf b).refcnt) :
    (t.buf b).key = (s.buf b).key ∧ ((s.buf b).valid = true → (t.buf b).valid = true) := by
  rcases h.step_keys hstep with hsame | ⟨p, key, i, -, -, hzero, -, hne⟩
  · exact hsame b
  · refine hne b ?_
    rintro rfl
    exact hpos.ne' hzero

/-- **The buffer cache.** In every state the links through the head are those of a list of all
buffers and inverse to each other; no block has two buffers; no step recycles a buffer that is in
use, in particular none that is pinned; if what is stored is written or pinned before each release,
a process that has got a buffer from `bread` finds the data last stored into the block; and the
buffer `bget` recycles is the unused one whose last release is oldest. -/
theorem buffer_cache [Fintype ι] {disk : UInt32 × Blockno → Block} (h : Reachable Proper disk s) :
    (∃ l, s.cache.links.Linked l ∧ ∀ b, b ∈ l) ∧
    (∀ x, s.cache.links.prev (s.cache.links.next x) = x ∧
      s.cache.links.next (s.cache.links.prev x) = x) ∧
    (∀ a b, (s.buf a).key = (s.buf b).key → (s.buf a).dev ≠ 0 → a = b) ∧
    (∀ b, 0 < s.pins b → 0 < (s.buf b).refcnt) ∧
    (∀ a t, s.step a = some (.ok t) → ∀ b, 0 < (s.buf b).refcnt →
      (t.buf b).key = (s.buf b).key ∧ ((s.buf b).valid = true → (t.buf b).valid = true)) ∧
    (Reachable Careful disk s → ∀ p b, s.lock b = some p → s.pc p ≠ .filling b →
      (s.buf b).dev ≠ 0 → (s.buf b).valid = true ∧ (s.buf b).data = s.latest (s.buf b).key) ∧
    (∀ key b c, s.cache.bget key = .ok (b, c) → (∀ b', (s.buf b').key ≠ key) →
      (s.buf b).refcnt = 0 ∧ ∀ b', (s.buf b').refcnt = 0 → s.released b ≤ s.released b') := by
  have hinv : s.Inv := h.inv fun _ _ ha => ha
  obtain ⟨l, hl, -⟩ := hinv.order
  refine ⟨⟨l, hl.linked, hl.all⟩, hl.linked.inverse hl.all, hinv.unique, fun b hb => ?_,
    fun a t hstep b hb => hinv.key_of_pos hstep hb, fun hcareful p b hlock hpc hd => ?_,
    fun key b c hget hno => hinv.oldest hget hno⟩
  · have hrefs := (s.refs_nonneg b).2.1
    have hcnt := hinv.refcnt b
    omega
  · have hcoh := hcareful.coherent
    have hv := (hcoh.held b p hlock).resolve_right hpc
    exact ⟨hv, hcoh.valid b hd hv⟩

/-- The buffer that is recycled first. -/
def firstBuf : Fin nbuf := ⟨0, by decide⟩

lemma Reachable.proper {disk : UInt32 × Blockno → Block} (h : Reachable Careful disk s) :
    Reachable Proper disk s := by
  induction h with
  | init => exact .init
  | step _ ha hstep ih => exact ih.step ha.1 hstep

/-- A process has read the first block of the log. -/
lemma reachable_read (disk : UInt32 × Blockno → Block) : ∃ s : Bio (Fin 2),
    Reachable Careful disk s ∧ s.lock firstBuf = some 0 ∧ s.pc 0 = .idle ∧
      (s.buf firstBuf).key = (1, 2) := by
  have hcached : Bcache.binit.cached (1, 2) = none := by decide +kernel
  have hunused : Bcache.binit.unused = some firstBuf := by decide +kernel
  have hget : Bcache.binit.bget (1, 2) = .ok (firstBuf, Bcache.binit.modify firstBuf fun x =>
      { x with dev := 1, blockno := 2, valid := false, refcnt := 1 }) := by
    rw [Bcache.bget, hcached, hunused]
  have hbread : (init (Fin 2) disk).step (.bread 0 (1, 2)) =
      some (.ok { (init (Fin 2) disk).goto 0 (.waiting firstBuf) with
        cache := Bcache.binit.modify firstBuf fun x =>
          { x with dev := 1, blockno := 2, valid := false, refcnt := 1 } }) := by
    change some ((Bcache.binit.bget (1, 2)).map _) = _
    rw [hget]
    rfl
  have hread := Reachable.step (P := Careful) (a := .bread 0 (1, 2)) .init ⟨trivial, by simp⟩ hbread
  have hacquire := Reachable.step (a := .acquire 0) hread ⟨trivial, by simp⟩ rfl
  exact ⟨_, Reachable.step (a := .fill 0) hacquire ⟨trivial, by simp⟩ rfl, rfl, rfl, rfl⟩

theorem buffer_cache_read : ∃ s : Bio (Fin 2), Reachable Proper (fun _ _ => 7) s ∧
    Reachable Careful (fun _ _ => 7) s ∧ s.lock firstBuf = some 0 ∧
    (s.buf firstBuf).data = s.latest (1, 2) := by
  obtain ⟨s, hs, hlock, hpc, hkey⟩ := reachable_read fun _ _ => 7
  obtain ⟨-, -, -, -, -, hdata, -⟩ := buffer_cache hs.proper
  have hd : (s.buf firstBuf).dev ≠ 0 := fun hz =>
    absurd ((congrArg Prod.fst hkey).symm.trans hz) (by decide)
  refine ⟨s, hs.proper, hs, hlock, ?_⟩
  rw [(hdata hs 0 firstBuf hlock (by rw [hpc]; exact nofun) hd).2, hkey]

end Bio

end Xv6Riscv
