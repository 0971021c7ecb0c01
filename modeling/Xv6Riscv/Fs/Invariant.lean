import Xv6Riscv.Fs.Content

/-!
The invariant of the file system, and the functions on inodes.

Between the functions a call is made of, every copy in memory of an inode is what the disk holds, so
`Fs.view` is the image itself.

* `Halts`: the ways a call may stop. A block freed twice and a block out of range are not among
  them.
-/

namespace Xv6Riscv

open Function (update update_apply update_idem update_of_ne update_self)

namespace Fs

open Words Wp Image

/-- The file system is well formed, copies in memory are up to date and belong to entries in use,
and a locked inode has a copy. -/
structure Inv (s : Fs) : Prop where
  image : s.img.WellFormed
  clean : ∀ i d, s.icore i = some d → s.img.dinode i = d ∧ d.type ≠ .free
  nonneg : ∀ i, 0 ≤ s.ref i
  used : ∀ i, (s.icore i).isSome → 0 < s.ref i
  held : ∀ i, s.locked i = true → (s.icore i).isSome

variable {F : Set Blockno} {k : ℕ} {s s' s'' : Fs} {i j : ℕ} {b : Blockno} {d : Dinode}

lemma Inv.ino (h : Inv s) : s.ino = s.img.dinode := by
  funext i
  rw [Fs.ino]
  cases hc : s.icore i with
  | none => rfl
  | some d => exact (h.clean i d hc).1.symm

lemma Inv.view (h : Inv s) : s.view = s.img := by
  rw [Fs.view, h.ino]

lemma Inv.typed (h : Inv s) (hi : (s.icore i).isSome) : s.img.Typed i := by
  obtain ⟨d, hd⟩ := Option.isSome_iff_exists.mp hi
  obtain ⟨hdisk, ht⟩ := h.clean i d hd
  rw [Typed, hdisk]
  exact ht

lemma Inv.icore_eq_none (h : Inv s) (hi : ¬ s.img.Typed i) : s.icore i = none := by
  by_contra hne
  exact hi (h.typed (Option.isSome_iff_ne_none.mpr hne))

/-- What a function of the file system may rely on: the invariant, the superblock `sb`, the locks
`L` that are held, and the references `R`. -/
structure At (sb : Superblock) (L : ℕ → Bool) (R : ℕ → ℤ) (s : Fs) : Prop where
  inv : Inv s
  sb : s.img.sb = sb
  locked : s.locked = L
  ref : s.ref = R

variable {sb : Superblock} {L : ℕ → Bool} {R : ℕ → ℤ}

lemma At.loaded (h : At sb L R s) (hi : L i = true) : (s.icore i).isSome :=
  h.inv.held i (h.locked ▸ hi)

lemma At.typed (h : At sb L R s) (hi : L i = true) : s.img.Typed i := h.inv.typed (h.loaded hi)

lemma At.nonneg (h : At sb L R s) (i : ℕ) : 0 ≤ R i := h.ref ▸ h.inv.nonneg i

lemma At.ref_pos (h : At sb L R s) (hi : L i = true) : 0 < R i :=
  h.ref ▸ h.inv.used i (h.loaded hi)

/-- The ways a call may stop. -/
def Halts (e : FsPanic) (s : Fs) : Prop :=
  LogFails e s ∨ (∀ l, e ≠ .log l) ∧ e ≠ .freeingFreeBlock ∧ e ≠ .outOfRange ∧ e ≠ .unlinkNlink

lemma Runs.halts {α : Type} {m : FsM α} {Q : α → Fs → Prop} (h : Runs LogFails F k m s Q) :
    Runs Halts F k m s Q :=
  h.stops fun _ _ h => .inl h

lemma halt_runs {α : Type} {e : FsPanic} {Q : α → Fs → Prop}
    (h : (∀ l, e ≠ .log l) ∧ e ≠ .freeingFreeBlock ∧ e ≠ .outOfRange ∧ e ≠ .unlinkNlink) :
    Runs Halts F k (throw e : FsM α) s Q :=
  Runs.throw (.inr h)

/-! ### References and locks -/

lemma At.setRef (h : At sb L R s) {r : ℤ} {n : ℕ} {c : ℕ → Option Dinode} (hr : 0 ≤ r)
    (hc : c = s.icore ∧ ((s.icore i).isSome → 0 < r) ∨ c = update s.icore i none ∧ L i = false) :
    At sb L (update R i r)
      { s with ref := update s.ref i r, unused := n, icore := c } where
  inv :=
    { image := h.inv.image
      clean := fun j d hj => by
        change c j = some d at hj
        rcases hc with ⟨rfl, -⟩ | ⟨rfl, -⟩
        · exact h.inv.clean j d hj
        · rw [update_apply] at hj
          split_ifs at hj
          exact h.inv.clean j d hj
      nonneg := fun j => by
        change 0 ≤ update s.ref i r j
        rw [update_apply]
        split_ifs
        · exact hr
        · exact h.inv.nonneg j
      used := fun j hj => by
        change (c j).isSome at hj
        change 0 < update s.ref i r j
        rw [update_apply]
        split_ifs with hji
        · subst hji
          rcases hc with ⟨rfl, hpos⟩ | ⟨rfl, -⟩
          · exact hpos hj
          · rw [update_self] at hj
            cases hj
        · refine h.inv.used j ?_
          rcases hc with ⟨rfl, -⟩ | ⟨rfl, -⟩
          · exact hj
          · rwa [update_of_ne hji] at hj
      held := fun j hj => by
        change s.locked j = true at hj
        change (c j).isSome
        rcases hc with ⟨rfl, -⟩ | ⟨rfl, hLi⟩
        · exact h.inv.held j hj
        · have hji : j ≠ i := by
            rintro rfl
            rw [h.locked, hLi] at hj
            cases hj
          rw [update_of_ne hji]
          exact h.inv.held j hj }
  __ := h
  ref := congrArg (update · i r) h.ref

lemma At.congr (h : At sb L R s) (himg : s'.img = s.img) (hicore : s'.icore = s.icore)
    (hlocked : s'.locked = s.locked) (href : s'.ref = s.ref) : At sb L R s' := by
  obtain ⟨⟨himage, hclean, hnonneg, hused, hheld⟩, hsb, hL, hR⟩ := h
  refine ⟨⟨?_, ?_, ?_, ?_, ?_⟩, ?_, ?_, ?_⟩ <;>
    simp only [himg, hicore, hlocked, href] <;> assumption

lemma At.logged (h : At sb L R s) : At sb L R (s.logged b) := h.congr rfl rfl rfl rfl

lemma At.setDinode (h : At sb L R s) (hi : s.icore i = none)
    (hwf : (s.img.setDinode i d).WellFormed) : At sb L R { s with img := s.img.setDinode i d } where
  inv :=
    { h.inv with
      image := hwf
      clean := fun j e hj => by
        change s.icore j = some e at hj
        have hji : j ≠ i := by
          rintro rfl
          rw [hi] at hj
          cases hj
        change (s.img.setDinode i d).dinode j = e ∧ _
        rw [setDinode_of_ne hji]
        exact h.inv.clean j e hj }
  __ := h

lemma update_add_single (R : ℕ → ℤ) (i : ℕ) : update R i (R i + 1) = R + Pi.single i 1 :=
  Function.update_eq_iff.mpr ⟨by simp, fun j hj => by simp [hj]⟩

lemma add_single_self (R : ℕ → ℤ) (i : ℕ) : (R + Pi.single i 1 : ℕ → ℤ) i = R i + 1 := by simp

lemma update_sub_single (R : ℕ → ℤ) (i : ℕ) : update R i (R i - 1) = R - Pi.single i 1 :=
  Function.update_eq_iff.mpr ⟨by simp, fun j hj => by simp [hj]⟩

lemma iget_runs (h : At sb L R s) : Runs Halts F 0 (iget i) s fun _ s' =>
    At sb L (R + Pi.single i 1) s' ∧ s'.img = s.img ∧ s'.log = s.log := by
  refine Runs.read (Runs.ite (fun hpos => ?_) fun hpos => ?_)
  · refine Runs.put_end rfl rfl ⟨?_, rfl, rfl⟩
    obtain rfl := h.ref
    rw [← update_add_single]
    exact h.setRef (r := s.ref i + 1) (by omega) (.inl ⟨rfl, fun _ => by omega⟩)
  · have hL : L i = false := by
      by_contra hne
      exact hpos (h.ref ▸ h.ref_pos (by simpa using hne))
    have hzero : R i = 0 := by
      have := h.nonneg i
      rw [h.ref] at hpos
      omega
    refine Runs.ite (fun _ => halt_runs (by simp)) fun _ => Runs.put_end rfl rfl ⟨?_, rfl, rfl⟩
    rw [← update_add_single, hzero]
    exact h.setRef (by omega) (.inr ⟨rfl, hL⟩)

lemma idup_runs (h : At sb L R s) : Runs Halts F 0 (idup i) s fun _ s' =>
    At sb L (R + Pi.single i 1) s' ∧ s'.img = s.img ∧ s'.log = s.log := by
  have hnn := h.inv.nonneg i
  refine Runs.store_end rfl rfl ⟨?_, rfl, rfl⟩
  obtain rfl := h.ref
  rw [← update_add_single]
  exact h.setRef (r := s.ref i + 1) (by omega) (.inl ⟨rfl, fun _ => by omega⟩)

lemma ilock_runs (h : At sb L R s) : Runs Halts F 0 (ilock i) s fun _ s' =>
    At sb (update L i true) R s' ∧ L i = false ∧ s'.img = s.img := by
  refine Runs.read (Runs.ite (fun _ => halt_runs (by simp)) fun href => ?_)
  refine Runs.ite (fun _ => halt_runs (by simp)) fun hfree => ?_
  have hL : L i = false := by simpa [h.locked] using hfree
  have hlocks : update s.locked i true = update L i true := by rw [h.locked]
  have hheld : ∀ c : ℕ → Option Dinode, (c i).isSome → (∀ j, j ≠ i → c j = s.icore j) →
      ∀ j, update s.locked i true j = true → (c j).isSome := by
    intro c hc hother j hj
    by_cases hji : j = i
    · exact hji ▸ hc
    · rw [update_of_ne hji] at hj
      rw [hother j hji]
      exact h.inv.held j hj
  cases hc : s.icore i with
  | some d =>
    have hsome : (s.icore i).isSome := by rw [hc]; rfl
    exact Runs.put_end rfl rfl ⟨⟨{ h.inv with held := hheld s.icore hsome fun _ _ => rfl }, h.sb,
      hlocks, h.ref⟩, hL, rfl⟩
  | none =>
    refine Runs.put rfl rfl (Runs.ite (fun _ => halt_runs (by simp)) fun ht => ?_)
    refine Runs.pure ⟨⟨⟨h.inv.image, fun j d hj => ?_, h.inv.nonneg, fun j hj => ?_, ?_⟩, h.sb,
      hlocks, h.ref⟩, hL, rfl⟩
    · change update s.icore i (some (s.img.dinode i)) j = some d at hj
      rw [update_apply] at hj
      split_ifs at hj with hji
      · cases hj
        exact ⟨hji ▸ rfl, ht⟩
      · exact h.inv.clean j d hj
    · change (update s.icore i (some (s.img.dinode i)) j).isSome at hj
      by_cases hji : j = i
      · change 0 < s.ref j
        rw [hji]
        omega
      · rw [update_of_ne hji] at hj
        exact h.inv.used j hj
    · exact hheld _ (by simp) fun j hj => update_of_ne hj ..

lemma iunlock_runs (h : At sb L R s) : Runs Halts F 0 (iunlock i) s fun _ s' =>
    At sb (update L i false) R s' ∧ L i = true ∧ s'.img = s.img ∧ s'.icore = s.icore := by
  refine Runs.read (Runs.ite (fun _ => halt_runs (by simp)) fun hno => ?_)
  have hL : L i = true := by
    rw [not_or] at hno
    simpa [h.locked] using hno.1
  refine Runs.put_end rfl rfl ⟨⟨{ h.inv with held := fun j hj => h.inv.held j ?_ }, h.sb,
    ?_, h.ref⟩, hL, rfl, rfl⟩
  · change update s.locked i false j = true at hj
    rw [update_apply] at hj
    split_ifs at hj
    exact hj
  · exact congrArg (update · i false) h.locked

/-! ### Reading and writing -/

/-- An inode that has at most been given blocks past its end. -/
structure SameInode (j : ℕ) (g g' : Image) : Prop where
  dinode : ∃ a, g'.dinode j = (g.dinode j).withAddrs a
  bytes : ∀ p < (g.dinode j).size.toNat, g'.fileByte j p = g.fileByte j p

/-- The same files: types, links, sizes and contents. -/
def SameFs (g g' : Image) : Prop :=
  ∀ j, (g'.dinode j).type = (g.dinode j).type ∧ (g.Typed j → SameInode j g g')

variable {g : Image}

lemma SameFs.refl : SameFs g g := fun _ => ⟨rfl, fun _ => ⟨⟨_, rfl⟩, fun _ _ => rfl⟩⟩

/-- Where the first check of `readi` and of `writei` fails. -/
def OutOfFile (d : Dinode) (off n : UInt32) : Prop := d.size < off ∨ off + n < off

instance (d : Dinode) (off n : UInt32) : Decidable (OutOfFile d off n) :=
  inferInstanceAs (Decidable (_ ∨ _))

variable {off n : UInt32}

lemma toNat_add_of_not_outOfFile (h : ¬ OutOfFile d off n) :
    off.toNat ≤ d.size.toNat ∧ (off + n).toNat = off.toNat + n.toNat := by
  simp only [OutOfFile, not_or, UInt32.not_lt, UInt32.le_iff_toNat_le] at h
  refine ⟨h.1, ?_⟩
  have hoff := off.toNat_lt
  have hn := n.toNat_lt
  have hsum := h.2
  rw [UInt32.toNat_add] at hsum ⊢
  omega

lemma map_ne_zero_of_lt (h : Inv s) (hi : s.img.Typed i) {p : ℕ}
    (hp : p < (s.img.dinode i).size.toNat) : s.img.map i (p / bsize) ≠ 0 := by
  refine h.image.holes i hi _ (lt_of_le_of_lt ?_ hp)
  exact Nat.div_mul_le_self p bsize

/-- **`readi`** changes nothing and allocates nothing: it returns the bytes of the file. -/
lemma readi_eq {dst : ℕ → Bool} (h : Inv s) (hi : s.img.Typed i) :
    runFrom (readi i dst off n) s =
      (.ok (if OutOfFile (s.img.dinode i) off n then (0, [])
        else readResult s.img i dst off.toNat
          (min n.toNat ((s.img.dinode i).size.toNat - off.toNat))), s) := by
  rw [readi, runFrom_get_bind, h.ino]
  by_cases hout : OutOfFile (s.img.dinode i) off n
  · have hc : (s.img.dinode i).size < off ∨ off + n < off := hout
    rw [if_pos hout, if_pos hc]
    rfl
  have hc : ¬ ((s.img.dinode i).size < off ∨ off + n < off) := hout
  rw [if_neg hout, if_neg hc]
  obtain ⟨hle, hadd⟩ := toNat_add_of_not_outOfFile hout
  have hlen : (if (s.img.dinode i).size < off + n then (s.img.dinode i).size - off
      else n).toNat = min n.toNat ((s.img.dinode i).size.toNat - off.toNat) := by
    split_ifs with hlt
    · rw [UInt32.lt_iff_toNat_lt] at hlt
      rw [UInt32.toNat_sub_of_le _ _ (UInt32.le_iff_toNat_le.mpr hle)]
      omega
    · rw [UInt32.not_lt, UInt32.le_iff_toNat_le] at hlt
      omega
  simp only [hlen]
  generalize hm : min n.toNat ((s.img.dinode i).size.toNat - off.toNat) = m
  rw [readiLoop_eq (h.view ▸ hi) m 0 off.toNat [] (Nat.zero_le m) le_rfl, h.view]
  · rfl
  · intro bn _ hbn
    rw [h.view]
    exact h.image.holes i hi bn (by omega)

/-- The slots on the way to the blocks of `n` bytes from `off` on. -/
def writeSlots (i off n : ℕ) : Finset FileSlot :=
  ((Finset.range maxfile).filter fun bn => off / bsize ≤ bn ∧ bn * bsize < off + n).biUnion
    (pathSlots i)

lemma pathSlots_subset_writeSlots {off n bn : ℕ} (hmax : off + n ≤ maxfile * bsize)
    (h1 : off / bsize ≤ bn) (h2 : bn * bsize < off + n) :
    pathSlots i bn ⊆ writeSlots i off n := by
  refine Finset.subset_biUnion_of_mem (pathSlots i) (Finset.mem_filter.mpr ⟨?_, h1, h2⟩)
  exact Finset.mem_range.mpr (Nat.lt_of_mul_lt_mul_right (lt_of_lt_of_le h2 hmax))

/-- `writei` refuses a range that begins past the end of the file, wraps, or is too large. -/
def Refused (d : Dinode) (off n : UInt32) : Prop :=
  OutOfFile d off n ∨ maxfile * bsize < (off + n).toNat

/-- What `writei` has done when it returns `tot`. -/
structure Wrote (i : ℕ) (src : ℕ → Option UInt8) (off n tot : ℕ) (g g' : Image) : Prop where
  le : tot ≤ n
  size : (g'.dinode i).size.toNat = max (g.dinode i).size.toNat (off + tot)
  bytes : ∀ k < tot, src k = some (g'.fileByte i (off + k))
  same : ∀ p < (g.dinode i).size.toNat, p < off ∨ off + n ≤ p → g'.fileByte i p = g.fileByte i p
  fields : ∃ z a, g'.dinode i = { g.dinode i with size := z, addrs := a }
  other : ∀ j, j ≠ i → g'.dinode j = g.dinode j
  otherBytes : ∀ j, g.Typed j → j ≠ i → ∀ p < (g.dinode j).size.toNat,
    g'.fileByte j p = g.fileByte j p
  short : tot < n → (∃ k < n, src k = none) ∨ ¬ g.Room (writeSlots i off n)
  stop : tot = n ∨ tot = 0 ∨ (off + tot) % bsize = 0

variable {s1 : Fs}

/-- The state after `iupdate`, with the image it has. -/
lemma At.update {s2 : Fs} (h : At sb L R s) (hi : (s.icore i).isSome) (hf : Frame i s s1)
    (hu : Updated i d s1 s2) (hwf : s2.img.WellFormed) (hd : d.type ≠ .free) : At sb L R s2 where
  inv :=
    { image := hwf
      clean := fun j e hj => by
        rw [hu.icore, update_apply] at hj
        rw [hu.img]
        split_ifs at hj with hji
        · cases hj
          exact ⟨hji ▸ setDinode_self, hd⟩
        · rw [setDinode_of_ne hji, hf.dinode]
          exact h.inv.clean j e (hf.icore j hji ▸ hj)
      nonneg := by
        rw [hu.ref, hf.ref]
        exact h.inv.nonneg
      used := fun j hj => by
        rw [hu.icore, update_apply] at hj
        rw [hu.ref, hf.ref]
        split_ifs at hj with hji
        · exact hji ▸ h.inv.used i hi
        · exact h.inv.used j (hf.icore j hji ▸ hj)
      held := fun j hj => by
        rw [hu.locked, hf.locked] at hj
        rw [hu.icore, update_apply]
        split_ifs with hji
        · rfl
        · rw [hf.icore j hji]
          exact h.inv.held j hj }
  sb := by rw [hu.img, setDinode_sb, hf.sb, h.sb]
  locked := by rw [hu.locked, hf.locked, h.locked]
  ref := by rw [hu.ref, hf.ref, h.ref]

lemma Inv.setDinode_view (h : Inv s) (hf : Frame i s s1) :
    s1.img.setDinode i d = s1.view.setDinode i d := by
  rw [setDinode, setDinode]
  congr 1
  funext j
  by_cases hj : j = i
  · simp [hj]
  · rw [update_of_ne hj, update_of_ne hj]
    change s1.img.dinode j = s1.ino j
    rw [hf.ino hj, h.ino, hf.dinode]

variable {src : ℕ → Option UInt8}

lemma LoopWrote.map_ne_zero {n off : ℕ} {need : Finset FileSlot} {r : ℕ × ℕ}
    (hr : LoopWrote i src n 0 off need r s s1) (h : Inv s) (hi : s.img.Typed i)
    (hoff : off ≤ (s.img.dinode i).size.toNat) {bn : ℕ}
    (hbn : bn * bsize < max (s.img.dinode i).size.toNat r.2) : s1.view.map i bn ≠ 0 := by
  rcases lt_or_ge (bn * bsize) (s.img.dinode i).size.toNat with hlt | hge
  · have h0 : s.view.map i bn ≠ 0 := h.view ▸ h.image.holes i hi bn hlt
    rw [hr.writing.grows.map_eq h0]
    exact h0
  · have := (hr.bytes (bn * bsize) (by omega) (by omega)).1
    rwa [Nat.mul_div_cancel _ bsize_pos] at this

/-- The state after `writei` has stored the new size. -/
lemma LoopWrote.finish {off n : ℕ} {r : ℕ × ℕ} {s2 : Fs} (h : At sb L R s) (hi : L i = true)
    (hoff : off ≤ (s.img.dinode i).size.toNat) (hmax : off + n ≤ maxfile * bsize)
    (hr : LoopWrote i src n 0 off (writeSlots i off n) r s s1)
    (hu : Updated i (if (s1.ino i).size.toNat < r.2 then { s1.ino i with size := UInt32.ofNat r.2 }
      else s1.ino i) s1 s2) :
    At sb L R s2 ∧ Wrote i src off n r.1 s.img s2.img := by
  have ht := h.typed hi
  have hview : s.view = s.img := h.inv.view
  have hw := hr.writing
  have hgrows : Grows i s.img s1.view := hview ▸ hw.grows
  obtain ⟨a, ha⟩ := hgrows.fields
  replace ha : s1.ino i = { s.img.dinode i with addrs := a } := ha
  have hr2 : r.2 = off + r.1 := by
    have := hr.off_eq
    omega
  have hle := hr.le_n
  rw [bsize_eq, maxfile, ndirect, nindirect] at hmax
  -- the inode that is stored: the new addresses and the larger size
  obtain ⟨z, hz, hd⟩ : ∃ z : UInt32, z.toNat = max (s.img.dinode i).size.toNat (off + r.1) ∧
      (if (s1.ino i).size.toNat < r.2 then { s1.ino i with size := UInt32.ofNat r.2 }
        else s1.ino i) = { s.img.dinode i with size := z, addrs := a } := by
    rw [ha, hr2]
    split_ifs with hlt
    · refine ⟨UInt32.ofNat (off + r.1), ?_, rfl⟩
      rw [UInt32.toNat_ofNat_of_lt' (by rw [UInt32.size]; omega)]
      change (s.img.dinode i).size.toNat < off + r.1 at hlt
      omega
    · refine ⟨(s.img.dinode i).size, ?_, rfl⟩
      change ¬ (s.img.dinode i).size.toNat < off + r.1 at hlt
      omega
  rw [hd] at hu
  have himg : s2.img = s1.view.setDinode i { s.img.dinode i with size := z, addrs := a } := by
    rw [hu.img, h.inv.setDinode_view hw.frame]
  have hdin : s2.img.dinode i = { s.img.dinode i with size := z, addrs := a } := by
    rw [himg, setDinode_self]
  have hslot : s2.img.slot = s1.view.slot := by
    rw [himg]
    refine slot_setDinode fun k => ?_
    have ht1 : s1.view.Typed i := hgrows.typed.mpr ht
    have ht2 : (s1.view.setDinode i { s.img.dinode i with size := z, addrs := a }).Typed i := by
      rw [Typed, setDinode_self]
      exact ht
    rw [ptr_of_typed ht1, ptr_of_typed ht2, setDinode_self]
    change a k = (s1.ino i).addrs k
    rw [ha]
  have hdata : s2.img.data = s1.view.data := by rw [himg]; rfl
  have hbyte : ∀ j p, s2.img.fileByte j p = s1.view.fileByte j p := by
    intro j p
    rw [fileByte, fileByte, map_congr hslot, hdata]
  have hother : ∀ j, j ≠ i → s2.img.dinode j = s.img.dinode j := by
    intro j hj
    rw [himg, setDinode_of_ne hj, hgrows.other j hj]
  have hsb : s2.img.sb = s.img.sb := by
    rw [himg]
    exact hw.frame.sb
  have hwf : s2.img.WellFormed := by
    refine ⟨fun j hj => ?_, hw.ok.congr ?_ ?_ hslot, fun j hj bn hbn => ?_⟩
    · rw [hsb]
      refine h.inv.image.inodes j ?_
      by_cases hji : j = i
      · exact hji ▸ ht
      · rwa [Typed, hother j hji] at hj
    · rw [himg]; rfl
    · rw [himg]; rfl
    · rw [map_congr hslot]
      by_cases hji : j = i
      · subst hji
        rw [hdin] at hbn
        refine hr.map_ne_zero h.inv ht hoff ?_
        rw [hr2, ← hz]
        exact hbn
      · rw [hother j hji] at hbn
        rw [Typed, hother j hji] at hj
        have h0 := h.inv.image.holes j hj bn hbn
        rw [hgrows.map_eq h0]
        exact h0
  refine ⟨h.update (h.loaded hi) hw.frame hu hwf ht, hle, by rw [hdin]; exact hz, fun k hk => ?_,
    ?_, ⟨z, a, hdin⟩, hother, fun j hj hji p hp => ?_, ?_, hr2 ▸ hr.stop⟩
  · have := (hr.bytes (off + k) (by omega) (by omega)).2
    rwa [Nat.zero_add, Nat.add_sub_cancel_left, ← hbyte] at this
  · intro p hp hout
    rw [hbyte, hw.same p (hview ▸ map_ne_zero_of_lt h.inv ht hp) (by omega), hview]
  · rw [hbyte]
    exact hgrows.fileByte_eq h.inv.image.blocks hji (map_ne_zero_of_lt h.inv hj hp)
  · intro hlt
    exact hview ▸ hr.short hlt

/-- **`writei`**: a range that is refused changes nothing; otherwise the file gets the bytes that
could be copied. It logs a block for each piece, and at most one more. -/
lemma writei_runs (h : At sb L R s) (hi : L i = true) (hF : sb.bitmapBlocks ⊆ F)
    (hiF : sb.iblock i ∈ F) :
    Runs LogFails F (pieces off.toNat n.toNat + 1) (writei i src off n) s fun r s' => At sb L R s' ∧
      (Refused (s.img.dinode i) off n ∧ r = -1 ∧ s' = s ∨
        ¬ Refused (s.img.dinode i) off n ∧ ∃ tot : ℕ, r = tot ∧
          Wrote i src off.toNat n.toNat tot s.img s'.img) := by
  refine Runs.read ?_
  rw [h.inv.ino]
  refine Runs.ite (fun hout => Runs.pure ⟨h, .inl ⟨.inl hout, rfl, rfl⟩⟩) fun hout => ?_
  refine Runs.ite (fun hbig => Runs.pure ⟨h, .inl ⟨.inr hbig, rfl, rfl⟩⟩) fun hbig => ?_
  obtain ⟨hoff, hadd⟩ := toNat_add_of_not_outOfFile hout
  rw [hadd] at hbig
  have hmax : off.toNat + n.toNat ≤ maxfile * bsize := not_lt.mp hbig
  have ht : s.view.Typed i := h.inv.view ▸ h.typed hi
  have hok : BlockOk s.view := h.inv.view ▸ h.inv.image.blocks
  refine Runs.bind_zero (writeiLoop_runs_one (writeSlots i off.toNat n.toNat) hok ht
    (h.sb ▸ hF) hmax fun _ => pathSlots_subset_writeSlots hmax) fun r s1 hr => ?_
  refine Runs.bind_zero (setInode_runs (hr.writing.frame.sb ▸ h.sb ▸ hiF)) fun _ s2 hu => ?_
  obtain ⟨hat, hwrote⟩ := hr.finish h hi hoff hmax hu
  refine Runs.pure ⟨hat, .inr ⟨?_, r.1, rfl, hwrote⟩⟩
  rw [Refused, hadd]
  exact not_or.mpr ⟨hout, hbig⟩

lemma room_of_lt {off n : ℕ} (h : Inv s) (hi : s.img.Typed i)
    (hn : off + n ≤ (s.img.dinode i).size.toNat) : s.img.Room (writeSlots i off n) := by
  have hnone : ((writeSlots i off n).filter fun x => s.img.slot x = 0) = ∅ := by
    refine Finset.filter_eq_empty_iff.mpr fun x hx => ?_
    obtain ⟨bn, hbn, hx⟩ := Finset.mem_biUnion.mp hx
    have hlt := (Finset.mem_filter.mp hbn).2.2
    exact slot_ne_zero_of_mem_pathSlots (h.image.holes i hi bn (by omega)) hx
  rw [Room, hnone]
  exact Nat.zero_le _

/-! ### Changes of an inode -/

lemma WellFormed.setDinode (h : g.WellFormed) (hi : g.Typed i)
    (hd : d.type ≠ .free ∧ d.size = (g.dinode i).size ∧ d.addrs = (g.dinode i).addrs) :
    (g.setDinode i d).WellFormed := by
  have hti : (g.setDinode i d).Typed i := by
    rw [Typed, setDinode_self]
    exact hd.1
  have hslot : (g.setDinode i d).slot = g.slot := slot_setDinode fun k => by
    rw [ptr_of_typed hti, ptr_of_typed hi, setDinode_self, hd.2.2]
  have htyped : ∀ j, (g.setDinode i d).Typed j → g.Typed j := by
    intro j hj
    by_cases hji : j = i
    · exact hji ▸ hi
    · rwa [Typed, setDinode_of_ne hji] at hj
  refine ⟨fun j hj => h.inodes j (htyped j hj), h.blocks.congr rfl rfl hslot, fun j hj bn hbn => ?_⟩
  rw [map_congr hslot]
  refine h.holes j (htyped j hj) bn ?_
  by_cases hji : j = i
  · subst hji
    rwa [setDinode_self, hd.2.1] at hbn
  · rwa [setDinode_of_ne hji] at hbn

lemma setInode_at {f : Dinode → Dinode} (h : At sb L R s) (hi : L i = true) (hiF : sb.iblock i ∈ F)
    (hf : ∀ d, d.type ≠ .free → (f d).type ≠ .free ∧ (f d).size = d.size ∧ (f d).addrs = d.addrs) :
    Runs Halts F 0 (setInode i f) s fun _ s' => At sb L R s' ∧
      s'.img = s.img.setDinode i (f (s.img.dinode i)) := by
  refine Runs.imp (setInode_runs (h.sb ▸ hiF)).halts fun _ s1 hu => ?_
  rw [h.inv.ino] at hu
  have hd := hf _ (h.typed hi)
  refine ⟨h.update (h.loaded hi) .refl hu ?_ hd.1, hu.img⟩
  rw [hu.img]
  exact WellFormed.setDinode h.inv.image (h.typed hi) hd

lemma Truncated.img (ht : Truncated i s s1) (h : Inv s) :
    s1.img.dinode = update s.img.dinode i (s.img.dinode i).emptied ∧ s1.view = s1.img := by
  have hdin : s1.img.dinode = update s.img.dinode i (s.img.dinode i).emptied := by
    rw [ht.dinode, h.ino]
  refine ⟨hdin, ?_⟩
  rw [Fs.view]
  congr 1
  funext j
  rw [Fs.ino, ht.icore, hdin, h.ino]
  by_cases hj : j = i
  · simp [hj]
  · rw [update_of_ne hj, update_of_ne hj]
    exact congrFun h.ino j

lemma Truncated.wellFormed (ht : Truncated i s s1) (h : Inv s) : s1.img.WellFormed := by
  obtain ⟨hdin, hview⟩ := ht.img h
  have hother : ∀ j, j ≠ i → s1.img.dinode j = s.img.dinode j := fun j hj => by
    rw [hdin, update_of_ne hj]
  have hself : s1.img.dinode i = (s.img.dinode i).emptied := by rw [hdin, update_self]
  have htyped : ∀ j, s1.img.Typed j → s.img.Typed j := by
    intro j hj
    by_cases hji : j = i
    · subst hji
      rwa [Typed, hself] at hj
    · rwa [Typed, hother j hji] at hj
  have hok : BlockOk s.view := h.view ▸ h.image.blocks
  refine ⟨fun j hj => ?_, hview ▸ ht.blockOk hok, fun j hj bn hbn => ?_⟩
  · rw [ht.sb]
    exact h.image.inodes j (htyped j hj)
  · by_cases hji : j = i
    · subst hji
      rw [hself] at hbn
      exact absurd hbn (Nat.not_lt_zero _)
    · rw [hother j hji] at hbn
      have h0 := h.image.holes j (htyped j hj) bn hbn
      obtain ⟨x, hx, hxb⟩ := map_ne_zero h0
      -- the slot belongs to another inode, so it is not cleared
      have hx' : x ∉ allSlots i := fun hmem =>
        hji ((blockSlot_owner hx).symm.trans (mem_allSlots.mp hmem))
      rw [map_eq_slot hx, ← hview, ht.slot x, if_neg hx', h.view, hxb]
      exact h0

lemma itrunc_at (h : At sb L R s) (hi : (s.icore i).isSome) (hF : sb.bitmapBlocks ⊆ F)
    (hiF : sb.iblock i ∈ F) :
    Runs Halts F 0 (itrunc i) s fun _ s' => At sb L R s' ∧ Truncated i s s' := by
  have ht : s.view.Typed i := h.inv.view ▸ h.inv.typed hi
  have hok : BlockOk s.view := h.inv.view ▸ h.inv.image.blocks
  refine Runs.imp (itrunc_runs hok ht (h.sb ▸ hF) (h.sb ▸ hiF)).halts fun _ s1 ht1 => ?_
  have hsome : ∀ j, (s1.icore j).isSome ↔ (s.icore j).isSome := by
    intro j
    rw [ht1.icore, update_apply]
    split_ifs with hji
    · exact ⟨fun _ => hji ▸ hi, fun _ => rfl⟩
    · rfl
  refine ⟨⟨⟨ht1.wellFormed h.inv, fun j e hj => ?_, ?_, fun j hj => ?_, fun j hj => ?_⟩,
    ht1.sb.trans h.sb, ht1.locked.trans h.locked, ht1.ref.trans h.ref⟩, ht1⟩
  · rw [ht1.icore, update_apply] at hj
    rw [ht1.dinode]
    split_ifs at hj with hji
    · cases hj
      rw [hji, update_self, h.inv.ino]
      exact ⟨rfl, h.inv.typed hi⟩
    · rw [update_of_ne hji]
      exact h.inv.clean j e hj
  · rw [ht1.ref]
    exact h.inv.nonneg
  · rw [ht1.ref]
    exact h.inv.used j ((hsome j).mp hj)
  · rw [ht1.locked] at hj
    exact (hsome j).mpr (h.inv.held j hj)

/-! ### Allocating and freeing inodes -/

/-- The inode `i` and its blocks have been freed. -/
structure Reclaimed (i : ℕ) (g g' : Image) : Prop where
  sb : g'.sb = g.sb
  data : g'.data = g.data
  dinode : g'.dinode = update g.dinode i { (g.dinode i).emptied with type := .free }
  freed : g.Freed (allSlots i) g'.bitmap

lemma WellFormed.free (h : g.WellFormed) (hi : (g.dinode i).addrs = fun _ => 0) :
    (g.setDinode i { g.dinode i with type := .free }).WellFormed := by
  have hti : ¬ (g.setDinode i { g.dinode i with type := .free }).Typed i := by
    rw [Typed, setDinode_self, not_not]
  have hslot : (g.setDinode i { g.dinode i with type := .free }).slot = g.slot :=
    slot_setDinode fun k => by
      have h0 : g.ptr i k = 0 := ptr_eq_zero (by rw [hi])
      rw [h0, ptr, if_neg hti]
  have htyped : ∀ j, (g.setDinode i { g.dinode i with type := .free }).Typed j →
      g.Typed j ∧ j ≠ i := by
    intro j hj
    have hji : j ≠ i := by
      rintro rfl
      exact hti hj
    exact ⟨by rwa [Typed, setDinode_of_ne hji] at hj, hji⟩
  refine ⟨fun j hj => h.inodes j (htyped j hj).1, h.blocks.congr rfl rfl hslot,
    fun j hj bn hbn => ?_⟩
  rw [map_congr hslot]
  rw [setDinode_of_ne (htyped j hj).2] at hbn
  exact h.holes j (htyped j hj).1 bn hbn

/-- `iput` drops a reference. If it was the last one, to an inode without links, the inode is freed
with its blocks; otherwise the image stays. -/
lemma iput_runs (h : At sb L R s) (hR : 1 ≤ R i) (hL : L i = true → 2 ≤ R i)
    (hF : sb.bitmapBlocks ⊆ F) (hiF : s.last i = true → sb.iblock i ∈ F) :
    Runs Halts F 0 (iput i) s fun _ s' => At sb L (R - Pi.single i 1) s' ∧
      (s.last i = false ∧ s'.img = s.img ∨ s.last i = true ∧ Reclaimed i s.img s'.img) := by
  refine Runs.read (Runs.ite (fun hlast => ?_) fun hlast => ?_)
  · refine Runs.ite (fun _ => halt_runs (by simp)) fun hfree => ?_
    obtain ⟨href, d, hd, hn⟩ : s.ref i = 1 ∧ ∃ d, s.icore i = some d ∧ (d.nlink == 0) = true := by
      rwa [last, Bool.and_eq_true, beq_iff_eq, Option.any_eq_true] at hlast
    have hLi : L i = false := by simpa [h.locked] using hfree
    have hloaded : (s.icore i).isSome := by rw [hd]; rfl
    refine Runs.seq (itrunc_at h hloaded hF (hiF hlast)) fun _ s1 ⟨h1, ht⟩ => ?_
    -- the entry is given up before the inode is marked free on the disk
    refine Runs.store rfl rfl ?_
    refine Runs.store rfl rfl (Runs.read (Runs.put rfl rfl ?_))
    refine Runs.imp (logWrite_runs (h1.sb ▸ hiF hlast : s1.img.sb.iblock i ∈ F)).halts ?_
    rintro _ s2 rfl
    have hdin := (ht.img h.inv).1
    have hadd : (s1.img.dinode i).addrs = fun _ => 0 := by
      rw [hdin, update_self]
      rfl
    have hs1ref : s1.ref i = 1 := by rw [ht.ref, href]
    obtain rfl := h1.ref
    have h2 := h1.setRef (i := i) (r := s1.ref i - 1) (n := s1.unused + 1) (by omega)
      (.inr ⟨rfl, hLi⟩)
    rw [update_sub_single] at h2
    have h3 := h2.setDinode (i := i) (d := { s1.img.dinode i with type := .free })
      (update_self ..) (WellFormed.free h1.inv.image hadd)
    refine ⟨h3.congr rfl ?_ rfl (update_sub_single s1.ref i),
      .inr ⟨hlast, ht.sb, ht.data, ?_, h.inv.view ▸ ht.freed⟩⟩
    · change (if s1.ref i = 1 then _ else _ : ℕ → Option Dinode) = update s1.icore i none
      rw [if_pos hs1ref, update_idem]
    · change (s1.img.setDinode i _).dinode = _
      rw [Image.setDinode, hdin, update_idem, update_self]
  · have hlast : s.last i = false := by simpa using hlast
    refine Runs.store_end rfl rfl ⟨?_, .inl ⟨hlast, rfl⟩⟩
    obtain rfl := h.ref
    rw [← update_sub_single]
    refine h.setRef (r := s.ref i - 1) (by omega) ?_
    by_cases hone : s.ref i = 1
    · rw [if_pos hone]
      refine .inr ⟨rfl, ?_⟩
      by_contra hne
      have := hL (by simpa using hne)
      omega
    · rw [if_neg hone]
      exact .inl ⟨rfl, fun _ => by omega⟩

lemma At.last_eq_true (h : At sb L R s) (hl : s.last i = true) :
    R i = 1 ∧ (s.img.dinode i).nlink = 0 := by
  rw [last, Bool.and_eq_true, beq_iff_eq, Option.any_eq_true] at hl
  obtain ⟨href, d, hd, hn⟩ := hl
  refine ⟨h.ref ▸ href, ?_⟩
  rw [(h.inv.clean i d hd).1]
  simpa using hn

lemma At.last_of_zero (h : At sb L R s) (hone : R i = 1) (hn : (s.img.dinode i).nlink = 0)
    (hi : (s.icore i).isSome) : s.last i = true := by
  obtain ⟨d, hd⟩ := Option.isSome_iff_exists.mp hi
  rw [(h.inv.clean i d hd).1] at hn
  simp [last, h.ref, hone, hd, hn]

/-- `iput` of an inode with links, or that others hold, leaves the image and logs nothing. -/
lemma iput_keeps (h : At sb L R s) (hR : 1 ≤ R i) (hL : L i = true → 2 ≤ R i)
    (hF : sb.bitmapBlocks ⊆ F) (hi : (s.img.dinode i).nlink ≠ 0 ∨ R i ≠ 1) :
    Runs Halts F 0 (iput i) s fun _ s' => At sb L (R - Pi.single i 1) s' ∧ s'.img = s.img := by
  have hlast : s.last i = false := by
    by_contra hne
    have hl := h.last_eq_true (by simpa using hne)
    exact hi.elim (fun hi => hi hl.2) fun hi => hi hl.1
  refine Runs.imp (iput_runs h hR hL hF fun h => by rw [hlast] at h; cases h) ?_
  rintro _ s1 ⟨h1, ⟨-, himg⟩ | ⟨hl, -⟩⟩
  · exact ⟨h1, himg⟩
  · rw [hlast] at hl
    cases hl

lemma iunlockput_keeps (h : At sb L R s) (hF : sb.bitmapBlocks ⊆ F)
    (hi : (s.img.dinode i).nlink ≠ 0 ∨ R i ≠ 1) :
    Runs Halts F 0 (iunlockput i) s fun _ s' =>
      At sb (update L i false) (R - Pi.single i 1) s' ∧ s'.img = s.img := by
  refine Runs.seq (iunlock_runs h) fun _ s1 ⟨h1, hL, himg, _⟩ => ?_
  have hno : update L i false i = true → 2 ≤ R i := by simp
  exact Runs.imp (iput_keeps h1 (h.ref_pos hL) hno hF (himg ▸ hi))
    fun _ s2 h2 => ⟨h2.1, h2.2.trans himg⟩

lemma WellFormed.allocInode (h : g.WellFormed) (type : InodeType) (hi : ¬ g.Typed i)
    (hlt : 0 < i ∧ i < g.sb.ninodes) :
    (g.setDinode i ⟨type, 0, 0, 0, 0, fun _ => 0⟩).WellFormed := by
  refine ⟨fun j hj => ?_, h.blocks.congr rfl rfl (slot_allocInode hi), fun j hj bn hbn => ?_⟩
  · by_cases hji : j = i
    · exact hji ▸ hlt
    · rw [Typed, setDinode_of_ne hji] at hj
      exact h.inodes j hj
  · by_cases hji : j = i
    · subst hji
      rw [setDinode_self] at hbn
      exact absurd hbn (Nat.not_lt_zero _)
    · rw [Typed, setDinode_of_ne hji] at hj
      rw [setDinode_of_ne hji] at hbn
      rw [map_congr (slot_allocInode hi)]
      exact h.holes j hj bn hbn

/-- **`ialloc`** takes the first free inode, if there is one. -/
lemma ialloc_runs {type : InodeType} (h : At sb L R s) :
    Runs Halts F 1 (ialloc type) s fun r s' =>
      r = none ∧ s' = s ∧ (∀ i, 0 < i → i < sb.ninodes → s.img.Typed i) ∨
        ∃ i, r = some i ∧ At sb L (R + Pi.single i 1) s' ∧ Logs (insert (sb.iblock i) F) 0 s s' ∧
          ¬ s.img.Typed i ∧ 0 < i ∧ i < sb.ninodes ∧
          s'.img = s.img.setDinode i ⟨type, 0, 0, 0, 0, fun _ => 0⟩ := by
  refine Runs.read ?_
  cases hfind : (List.range' 1 (s.img.sb.ninodes - 1)).find? fun i =>
      (s.img.dinode i).type == .free with
  | none =>
    refine Runs.pure (.inl ⟨rfl, rfl, fun i h1 h2 => ?_⟩)
    rw [← h.sb] at h2
    have := List.find?_eq_none.mp hfind i (List.mem_range'_1.mpr (by omega))
    simpa [Typed] using this
  | some i =>
    have hmem := List.mem_range'_1.mp (List.mem_of_find?_eq_some hfind)
    have hfree : ¬ s.img.Typed i := by simpa [Typed] using List.find?_some hfind
    have h₁ := h.setDinode (h.inv.icore_eq_none hfree)
      (WellFormed.allocInode h.inv.image type hfree (by omega))
    refine Runs.put rfl rfl (Runs.bind_zero logWrite_runs_one.halts.logs ?_)
    rintro _ s1 ⟨hlogs, rfl⟩
    refine Runs.seq (iget_runs h₁.logged).logs fun _ s2 hs2 => ?_
    obtain ⟨hl2, h3, himg, -⟩ := hs2
    refine Runs.pure (.inr ⟨i, rfl, h3, ?_, hfree, by omega, h.sb ▸ by omega, himg⟩)
    have hl1 : Logs (insert (sb.iblock i) F) 0 s (({ s with
        img := s.img.setDinode i ⟨type, 0, 0, 0, 0, fun _ => 0⟩ } : Fs).logged
          (s.img.sb.iblock i)) :=
      (Logs.logged_mem (h.sb ▸ Set.mem_insert _ F)).before rfl rfl
    exact hl1.trans (hl2.subset (Set.subset_insert _ F))

end Fs

end Xv6Riscv
