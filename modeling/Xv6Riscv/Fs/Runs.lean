import Xv6Riscv.Fs.Inode

/-!
The blocks a program logs.

`Runs P F k m s Q`: the program `m` started in `s` ends in a state that meets `Q`, or stops in a way
that meets `P`; in both cases the blocks it passed to `log_write` are in `F`, up to `k` others. The
rules follow the structure of programs and add the numbers up. The set `F` is for the blocks that
come back again and again, the blocks of the free map and of the inodes at hand.
-/

namespace Xv6Riscv

namespace Fs

open Words Wp

/-- The image when one block of it has been logged. -/
def logged (s : Fs) (b : Blockno) : Fs :=
  { s with
    log := { s.log with lh := if b ∈ s.log.lh then s.log.lh else s.log.lh ++ [b] }
    trace := b :: s.trace }

/-- `log_write` panics. -/
def LogFails (e : FsPanic) (s : Fs) : Prop :=
  e = .log .tooBig ∧ logblocks ≤ s.log.lh.length ∨ e = .log .outsideOfTrans ∧ s.log.outstanding < 1

/-- What is in the list `l'` and not in `l` is in `F` or in `X`. -/
def Grew (F : Set Blockno) (X : Finset Blockno) (l l' : List Blockno) : Prop :=
  ∀ b ∈ l', b ∈ l ∨ b ∈ F ∨ b ∈ X

/-- Between `s` and `s'` the blocks logged are in `F`, up to `k` others. -/
structure Logs (F : Set Blockno) (k : ℕ) (s s' : Fs) : Prop where
  blocks : ∃ X : Finset Blockno, X.card ≤ k ∧ Grew F X s.trace s'.trace ∧
    Grew F X s.log.lh s'.log.lh
  outstanding : s'.log.outstanding = s.log.outstanding
  committing : s'.log.committing = s.log.committing
  nodup : s.log.lh.Nodup → s'.log.lh.Nodup

variable {F : Set Blockno} {k p q : ℕ} {s s' s'' : Fs} {b : Blockno} {i : ℕ}

section

variable {X Y : Finset Blockno} {l l' l'' : List Blockno}

lemma Grew.trans (h : Grew F X l l') (h' : Grew F Y l' l'') : Grew F (X ∪ Y) l l'' := by
  intro b hb
  rcases h' b hb with hb | hb | hb
  · rcases h b hb with hb | hb | hb
    · exact .inl hb
    · exact .inr (.inl hb)
    · exact .inr (.inr (Finset.mem_union_left _ hb))
  · exact .inr (.inl hb)
  · exact .inr (.inr (Finset.mem_union_right _ hb))

lemma Grew.of_insert (h : Grew (insert b F) X l l') : Grew F (insert b X) l l' := by
  intro c hc
  rcases h c hc with hc | (rfl | hc) | hc
  · exact .inl hc
  · exact .inr (.inr (Finset.mem_insert_self _ X))
  · exact .inr (.inl hc)
  · exact .inr (.inr (Finset.mem_insert_of_mem hc))

end

lemma Logs.of_eq (hlog : s'.log = s.log) (htrace : s'.trace = s.trace) : Logs F k s s' where
  blocks := ⟨∅, by simp, fun b hb => .inl (htrace ▸ hb), fun b hb => .inl (hlog ▸ hb)⟩
  outstanding := by rw [hlog]
  committing := by rw [hlog]
  nodup h := by rwa [hlog]

lemma Logs.refl : Logs F k s s := .of_eq rfl rfl

lemma Logs.trans (h : Logs F p s s') (h' : Logs F q s' s'') : Logs F (p + q) s s'' where
  blocks := by
    obtain ⟨X, hX, htr, hlh⟩ := h.blocks
    obtain ⟨Y, hY, htr', hlh'⟩ := h'.blocks
    exact ⟨X ∪ Y, (Finset.card_union_le X Y).trans (Nat.add_le_add hX hY), htr.trans htr',
      hlh.trans hlh'⟩
  outstanding := h'.outstanding.trans h.outstanding
  committing := h'.committing.trans h.committing
  nodup hs := h'.nodup (h.nodup hs)

lemma Logs.mono (h : Logs F p s s') (hk : p ≤ k) : Logs F k s s' :=
  { h with
    blocks := by
      obtain ⟨X, hX, hin⟩ := h.blocks
      exact ⟨X, hX.trans hk, hin⟩ }

lemma Logs.before (h : Logs F k s' s'') (hlog : s'.log = s.log) (htrace : s'.trace = s.trace) :
    Logs F k s s'' := by
  have := (Logs.of_eq (F := F) (k := 0) hlog htrace).trans h
  rwa [zero_add] at this

lemma Logs.subset {F' : Set Blockno} (h : Logs F k s s') (hF : F ⊆ F') : Logs F' k s s' :=
  { h with
    blocks := by
      obtain ⟨X, hX, htr, hlh⟩ := h.blocks
      exact ⟨X, hX, fun b hb => (htr b hb).imp_right (Or.imp_left fun h => hF h),
        fun b hb => (hlh b hb).imp_right (Or.imp_left fun h => hF h)⟩ }

lemma Logs.of_insert (h : Logs (insert b F) k s s') : Logs F (k + 1) s s' :=
  { h with
    blocks := by
      obtain ⟨X, hX, htr, hlh⟩ := h.blocks
      exact ⟨insert b X, (Finset.card_insert_le b X).trans (Nat.add_le_add_right hX 1),
        htr.of_insert, hlh.of_insert⟩ }

lemma Logs.length_le {Y : Finset Blockno} (h : Logs F k s s') (hF : ∀ b ∈ F, b ∈ Y)
    (hlh : s.log.lh = []) : s'.log.lh.length ≤ k + Y.card := by
  obtain ⟨X, hX, -, hin⟩ := h.blocks
  have hnd : s'.log.lh.Nodup := h.nodup (hlh ▸ List.nodup_nil)
  calc s'.log.lh.length = s'.log.lh.toFinset.card := (List.toFinset_card_of_nodup hnd).symm
    _ ≤ (X ∪ Y).card := by
        refine Finset.card_le_card fun b hb => Finset.mem_union.mpr ?_
        rcases hin b (List.mem_toFinset.mp hb) with hb | hb | hb
        · rw [hlh] at hb
          cases hb
        · exact .inr (hF b hb)
        · exact .inl hb
    _ ≤ X.card + Y.card := Finset.card_union_le X Y
    _ ≤ k + Y.card := Nat.add_le_add_right hX _

lemma logged_grew {X : Finset Blockno} (hb : b ∈ F ∨ b ∈ X) :
    Grew F X s.trace (s.logged b).trace ∧ Grew F X s.log.lh (s.logged b).log.lh := by
  constructor
  · intro c hc
    rcases List.mem_cons.mp hc with rfl | hc
    · exact .inr hb
    · exact .inl hc
  · intro c hc
    simp only [Fs.logged] at hc
    split_ifs at hc with hin
    · exact .inl hc
    · rcases List.mem_append.mp hc with hc | hc
      · exact .inl hc
      · exact .inr (List.mem_singleton.mp hc ▸ hb)

lemma logged_nodup (h : s.log.lh.Nodup) : (s.logged b).log.lh.Nodup := by
  simp only [Fs.logged]
  split_ifs with hb
  · exact h
  · rw [← List.concat_eq_append]
    exact h.concat hb

lemma Logs.logged : Logs F 1 s (s.logged b) where
  blocks := ⟨{b}, by simp, logged_grew (.inr (Finset.mem_singleton_self b))⟩
  outstanding := rfl
  committing := rfl
  nodup := logged_nodup

lemma Logs.logged_mem (hb : b ∈ F) : Logs F 0 s (s.logged b) where
  blocks := ⟨∅, by simp, logged_grew (.inl hb)⟩
  outstanding := rfl
  committing := rfl
  nodup := logged_nodup

/-- The program ends in `Q` or stops in `P`, and the blocks it logs are in `F` up to `k`. -/
def Runs {α : Type} (P : FsPanic → Fs → Prop) (F : Set Blockno) (k : ℕ) (m : FsM α) (s : Fs)
    (Q : α → Fs → Prop) : Prop :=
  wp m (fun a s' => Logs F k s s' ∧ Q a s') (fun e s' => Logs F k s s' ∧ P e s') s

section

variable {α β : Type} {P P' : FsPanic → Fs → Prop} {m m' : FsM α} {f : α → FsM β}
  {Q Q' : α → Fs → Prop} {R : β → Fs → Prop} {a : α}

lemma Runs.pure (h : Q a s) : Runs P F k (pure a) s Q := ⟨.refl, h⟩

lemma Runs.throw {e : FsPanic} (h : P e s) : Runs P F k (throw e : FsM α) s Q := ⟨.refl, h⟩

lemma Runs.mono (h : Runs P F p m s Q) (hk : p ≤ k) (hQ : ∀ a s', Q a s' → Q' a s') :
    Runs P F k m s Q' :=
  wp_mono h (fun a s' h => ⟨h.1.mono hk, hQ a s' h.2⟩) fun _ _ h => ⟨h.1.mono hk, h.2⟩

lemma Runs.imp (h : Runs P F k m s Q) (hQ : ∀ a s', Q a s' → Q' a s') : Runs P F k m s Q' :=
  h.mono le_rfl hQ

lemma Runs.stops (h : Runs P F k m s Q) (hP : ∀ e s', P e s' → P' e s') : Runs P' F k m s Q :=
  wp_mono h (fun _ _ h => h) fun e s' h => ⟨h.1, hP e s' h.2⟩

lemma Runs.bind (h : Runs P F p m s Q) (hf : ∀ a s', Q a s' → Runs P F q (f a) s' R) :
    Runs P F (p + q) (m >>= f) s R := by
  refine wp_bind.mpr (wp_mono h (fun a s' h => ?_) fun e s' h => ⟨h.1.mono (by omega), h.2⟩)
  exact wp_mono (hf a s' h.2) (fun _ _ h' => ⟨h.1.trans h'.1, h'.2⟩)
    fun _ _ h' => ⟨h.1.trans h'.1, h'.2⟩

/-- The second part counts its blocks in its own way, if that agrees with the count for both. -/
lemma Runs.bind_of (h : Runs P F k m s Q)
    (hf : ∀ a s', Q a s' → ∃ G q, Runs P G q (f a) s' R ∧ ∀ s'', Logs G q s' s'' → Logs F k s s'') :
    Runs P F k (m >>= f) s R := by
  refine wp_bind.mpr (wp_mono h (fun a s' h => ?_) fun e s' h => h)
  obtain ⟨G, q, hruns, hlogs⟩ := hf a s' h.2
  exact wp_mono hruns (fun _ s'' h' => ⟨hlogs s'' h'.1, h'.2⟩)
    fun _ s'' h' => ⟨hlogs s'' h'.1, h'.2⟩

/-- A part that logs only blocks of `F`, and the rest. -/
lemma Runs.seq (h : Runs P F 0 m s Q) (hf : ∀ a s', Q a s' → Runs P F k (f a) s' R) :
    Runs P F k (m >>= f) s R :=
  (h.bind hf).mono (by omega) fun _ _ h => h

lemma Runs.bind_zero (h : Runs P F k m s Q) (hf : ∀ a s', Q a s' → Runs P F 0 (f a) s' R) :
    Runs P F k (m >>= f) s R :=
  (h.bind hf).mono (by omega) fun _ _ h => h

lemma Runs.bind_insert {c : α → Blockno}
    (h : Runs P F (p + 1) m s fun a s' => Logs (insert (c a) F) p s s' ∧ Q a s')
    (hf : ∀ a s', Q a s' → Runs P (insert (c a) F) q (f a) s' R) :
    Runs P F (p + q + 1) (m >>= f) s R := by
  refine Runs.bind_of (h.mono (by omega) fun _ _ h => h) fun a s' ⟨hl, hQ⟩ => ?_
  exact ⟨insert (c a) F, q, hf a s' hQ, fun _ h' => (hl.trans h').of_insert⟩

lemma Runs.of_insert (h : Runs P (insert b F) k m s Q) : Runs P F (k + 1) m s Q :=
  wp_mono h (fun _ _ h => ⟨h.1.of_insert, h.2⟩) fun _ _ h => ⟨h.1.of_insert, h.2⟩

/-- A first part after which nothing is logged, unless it has logged nothing itself. -/
lemma Runs.bind_or (h : Runs P F k m s Q)
    (hf : ∀ a s', Q a s' → Runs P F 0 (f a) s' R ∨ Logs F 0 s s' ∧ Runs P F k (f a) s' R) :
    Runs P F k (m >>= f) s R := by
  refine wp_bind.mpr (wp_mono h (fun a s' h => ?_) fun e s' h => h)
  rcases hf a s' h.2 with hf | ⟨hl, hf⟩
  · exact wp_mono hf (fun _ _ h' => ⟨h.1.trans h'.1, h'.2⟩) fun _ _ h' => ⟨h.1.trans h'.1, h'.2⟩
  · have hadd : ∀ s'', Logs F k s' s'' → Logs F k s s'' := fun s'' h' => by
      have := hl.trans h'
      rwa [zero_add] at this
    exact wp_mono hf (fun _ _ h' => ⟨hadd _ h'.1, h'.2⟩) fun _ _ h' => ⟨hadd _ h'.1, h'.2⟩

lemma Runs.bind_run (hm : runFrom m s = (.ok a, s)) (h : Runs P F k (f a) s R) :
    Runs P F k (m >>= f) s R :=
  wp_bind.mpr ((wp_of_eq hm).mpr h)

lemma Runs.logs (h : Runs P F k m s Q) : Runs P F k m s fun a s' => Logs F k s s' ∧ Q a s' :=
  wp_mono h (fun _ _ h => ⟨h.1, h⟩) fun _ _ h => h

lemma Runs.returns {Y : Finset Blockno} (h : Runs LogFails F k m s Q) (hF : ∀ b ∈ F, b ∈ Y)
    (hlh : s.log.lh = []) (hout : 1 ≤ s.log.outstanding) (hk : k + Y.card < logblocks) :
    ∃ a s', runFrom m s = (.ok a, s') ∧ Q a s' := by
  rcases hm : runFrom m s with ⟨⟨e⟩ | ⟨a⟩, s'⟩
  · obtain ⟨hl, hP⟩ := (wp_of_error hm).mp h
    rcases hP with ⟨-, hlen⟩ | ⟨-, hlt⟩
    · have := hl.length_le hF hlh
      omega
    · rw [hl.outstanding] at hlt
      omega
  · exact ⟨a, s', rfl, ((wp_of_eq hm).mp h).2⟩

lemma Runs.read {f : Fs → FsM β} (h : Runs P F k (f s) s R) : Runs P F k (get >>= f) s R :=
  wp_bind.mpr h

lemma Runs.put_end {s1 : Fs} {Q : PUnit → Fs → Prop} (hlog : s1.log = s.log)
    (htrace : s1.trace = s.trace) (h : Q ⟨⟩ s1) : Runs P F k (set s1 : FsM PUnit) s Q :=
  ⟨.of_eq hlog htrace, h⟩

lemma Runs.put {s1 : Fs} {f : PUnit → FsM β} (hlog : s1.log = s.log) (htrace : s1.trace = s.trace)
    (h : Runs P F k (f ⟨⟩) s1 R) : Runs P F k (set s1 >>= f) s R :=
  Runs.seq (Q := fun _ s' => s' = s1) (Runs.put_end hlog htrace rfl) fun _ _ hs => hs ▸ h

lemma Runs.store_end {g : Fs → Fs} {Q : PUnit → Fs → Prop} (hlog : (g s).log = s.log)
    (htrace : (g s).trace = s.trace) (h : Q ⟨⟩ (g s)) : Runs P F k (modify g : FsM PUnit) s Q :=
  ⟨.of_eq hlog htrace, h⟩

lemma Runs.store {g : Fs → Fs} {f : PUnit → FsM β} (hlog : (g s).log = s.log)
    (htrace : (g s).trace = s.trace) (h : Runs P F k (f ⟨⟩) (g s) R) :
    Runs P F k (modify g >>= f) s R :=
  Runs.seq (Q := fun _ s' => s' = g s) (Runs.store_end hlog htrace rfl) fun _ _ hs => hs ▸ h

lemma Runs.ite {c : Prop} [Decidable c] (h : c → Runs P F k m s Q) (h' : ¬ c → Runs P F k m' s Q) :
    Runs P F k (if c then m else m') s Q := by
  split_ifs with hc
  · exact h hc
  · exact h' hc

lemma Runs.forM {l : List α} {f : α → FsM PUnit} (I : List α → Fs → Prop)
    (hstep : ∀ pre x s, pre ++ [x] <+: l → I pre s →
      Runs P F 0 (f x) s fun _ s' => I (pre ++ [x]) s')
    (h0 : I [] s) : Runs P F 0 (forM l f) s fun _ s' => I l s' := by
  refine wp_forM (fun pre s' => Logs F 0 s s' ∧ I pre s') (fun pre x s1 hx h => ?_) ⟨.refl, h0⟩
  exact wp_mono (hstep pre x s1 hx h.2) (fun _ _ h' => ⟨h.1.trans h'.1, h'.2⟩)
    fun _ _ h' => ⟨h.1.trans h'.1, h'.2⟩

end

/-! ### The functions that log -/

/-- Nothing but the image and the log has changed. -/
structure Stored (g : Image) (s s' : Fs) : Prop where
  img : s'.img = g
  ref : s'.ref = s.ref
  icore : s'.icore = s.icore
  locked : s'.locked = s.locked

lemma Stored.ino {g : Image} (h : Stored g s s') (hg : g.dinode = s.img.dinode) :
    s'.ino = s.ino := by
  funext i
  rw [Fs.ino, Fs.ino, h.icore, h.img, hg]

lemma Stored.view {g : Image} (h : Stored g s s') (hg : g.dinode = s.img.dinode) :
    s'.view = { g with dinode := s.ino } := by
  rw [Fs.view, h.ino hg, h.img]

lemma logWrite_runs_of (hb : Logs F k s (s.logged b)) :
    Runs LogFails F k (logWrite b) s fun _ s' => s' = s.logged b := by
  refine Runs.read ?_
  cases h : s.log.logWrite b with
  | error e =>
    refine Runs.throw ?_
    simp only [LogVars.logWrite] at h
    split_ifs at h with hbig hout
    · cases h
      exact .inl ⟨rfl, hbig⟩
    · cases h
      exact .inr ⟨rfl, hout⟩
  | ok l =>
    have hl := (LogVars.logWrite_eq_ok.mp h).2.2
    subst hl
    exact ⟨hb, rfl⟩

lemma logWrite_runs (hb : b ∈ F) : Runs LogFails F 0 (logWrite b) s fun _ s' => s' = s.logged b :=
  logWrite_runs_of (Logs.logged_mem hb)

lemma logWrite_runs_one : Runs LogFails F 1 (logWrite b) s fun _ s' => s' = s.logged b :=
  logWrite_runs_of Logs.logged

/-- `balloc` finds the disk full, or allocates a free block. -/
lemma balloc_runs (hF : s.img.sb.bitmapBlocks ⊆ F) :
    Runs LogFails F 1 balloc s fun r s' => Logs (insert r F) 0 s s' ∧ (r = 0 ∧ s.img.Full ∧ s' = s ∨
        s.img.bitmap r = false ∧ r.toNat < s.img.sb.size ∧ Stored (s.img.alloc r) s s') := by
  refine Runs.read ?_
  cases hfind : (List.range s.img.sb.size).find? fun b => !s.img.bitmap (UInt32.ofNat b) with
  | none =>
    refine Runs.pure ⟨.refl, .inl ⟨rfl, fun b hb => ?_, rfl⟩⟩
    have := List.find?_eq_none.mp hfind b.toNat (List.mem_range.mpr hb)
    simpa using this
  | some n =>
    have hn : n < s.img.sb.size := List.mem_range.mp (List.mem_of_find?_eq_some hfind)
    have hfree : s.img.bitmap (UInt32.ofNat n) = false := by
      simpa using List.find?_some hfind
    have hlt : (UInt32.ofNat n).toNat < s.img.sb.size := by
      rw [UInt32.toNat_ofNat_of_lt' (hn.trans s.img.sb.size_lt)]
      exact hn
    refine Runs.store rfl rfl ?_
    refine Runs.seq (logWrite_runs (hF ⟨_, hlt, rfl⟩)) ?_
    rintro _ s1 rfl
    refine Runs.bind_zero (Q := fun _ s' => Logs (insert (UInt32.ofNat n) F) 0 s s' ∧
      Stored (s.img.alloc (UInt32.ofNat n)) s s') ?_
      fun _ s1 h => Runs.pure ⟨h.1, .inr ⟨hfree, hlt, h.2⟩⟩
    refine Runs.store rfl rfl ?_
    refine Runs.imp logWrite_runs_one ?_
    rintro _ s1 rfl
    refine ⟨?_, rfl, rfl, rfl, rfl⟩
    have h1 := Logs.logged_mem (s := s) (Set.mem_insert_of_mem (UInt32.ofNat n) (hF ⟨_, hlt, rfl⟩))
    exact (h1.trans (Logs.logged_mem (Set.mem_insert _ F))).trans (q := 0) (.of_eq rfl rfl)

lemma bfree_runs (hF : s.img.sb.bitmapBlocks ⊆ F) (hb : s.img.bitmap b = true)
    (hlt : b.toNat < s.img.sb.size) :
    Runs LogFails F 0 (bfree b) s fun _ s' => Stored (s.img.mark b false) s s' := by
  refine Runs.read ?_
  rw [if_pos hb]
  refine Runs.put rfl rfl ?_
  refine Runs.imp (logWrite_runs (hF ⟨b, hlt, rfl⟩)) ?_
  rintro _ s1 rfl
  exact ⟨rfl, rfl, rfl, rfl⟩

/-- The inode `i` is `d`, in memory and on the disk. -/
structure Updated (i : ℕ) (d : Dinode) (s s' : Fs) : Prop where
  img : s'.img = s.img.setDinode i d
  ref : s'.ref = s.ref
  icore : s'.icore = Function.update s.icore i (some d)
  locked : s'.locked = s.locked

lemma ino_setIcore {d : Dinode} :
    ({ s with icore := Function.update s.icore i (some d) } : Fs).ino i = d := by
  simp [ino]

lemma setInode_runs {f : Dinode → Dinode} (hF : s.img.sb.iblock i ∈ F) :
    Runs LogFails F 0 (setInode i f) s fun _ s' => Updated i (f (s.ino i)) s s' := by
  refine Runs.store rfl rfl (Runs.read (Runs.put rfl rfl ?_))
  refine Runs.imp (logWrite_runs hF) ?_
  rintro _ s1 rfl
  exact ⟨congrArg (s.img.setDinode i) ino_setIcore, rfl, rfl, rfl⟩

end Fs

end Xv6Riscv
