import Xv6Riscv.Fs.Runs

/-!
The blocks of a file: `bmap` and `itrunc`.

Between the change of an inode in memory and `iupdate` the dinode on the disk is old. The facts
about blocks are therefore stated over `Fs.view`, in which the copies in memory stand for the
dinodes.

* `bmap_runs`: `bmap` returns the block of the file, or `0` when the disk is full.
* `itrunc_runs`: `itrunc` empties the slots of the inode, frees exactly their blocks and never meets
  a block that is free already.
-/

namespace Xv6Riscv

open Function (update update_apply update_comm update_of_ne update_self)

namespace Image

/-- From `g` to `g'` the file `i` has grown and its blocks have been stored into; nothing else has
changed. -/
structure Grows (i : ℕ) (g g' : Image) : Prop where
  sb : g'.sb = g.sb
  other : ∀ j, j ≠ i → g'.dinode j = g.dinode j
  fields : ∃ a, g'.dinode i = { g.dinode i with addrs := a }
  slots : ∀ x, g.slot x ≠ 0 → g'.slot x = g.slot x
  owner : ∀ x, x.owner ≠ i → g'.slot x = g.slot x
  fresh : ∀ x, g'.slot x ≠ g.slot x → g.bitmap (g'.slot x) = false
  bits : ∀ b, g.bitmap b = true → g'.bitmap b = true
  data : ∀ b, g.bitmap b = true → (∀ x, x.owner = i → g.slot x ≠ 0 → g.slot x ≠ b) →
    g'.data b = g.data b

variable {g g' g'' : Image} {i : ℕ}

lemma Grows.refl : Grows i g g :=
  ⟨rfl, fun _ _ => rfl, ⟨_, rfl⟩, fun _ _ => rfl, fun _ _ => rfl, fun _ h => absurd rfl h,
    fun _ h => h, fun _ _ _ => rfl⟩

lemma Grows.trans (h : Grows i g g') (h' : Grows i g' g'') : Grows i g g'' where
  sb := h'.sb.trans h.sb
  other j hj := (h'.other j hj).trans (h.other j hj)
  fields := by
    obtain ⟨a, ha⟩ := h.fields
    obtain ⟨a', ha'⟩ := h'.fields
    exact ⟨a', by rw [ha', ha]⟩
  slots x hx := by
    have hx' := h.slots x hx
    rw [h'.slots x (hx' ▸ hx), hx']
  owner x hx := (h'.owner x hx).trans (h.owner x hx)
  fresh x hx := by
    by_cases hx' : g''.slot x = g'.slot x
    · rw [hx'] at hx ⊢
      exact h.fresh x hx
    · have hfree := h'.fresh x hx'
      cases hb : g.bitmap (g''.slot x) with
      | false => rfl
      | true =>
        rw [h.bits _ hb] at hfree
        cases hfree
  bits b hb := h'.bits b (h.bits b hb)
  data b hb hx := by
    rw [h'.data b (h.bits b hb), h.data b hb hx]
    -- a slot that has become `b` would be fresh
    intro x hxi hx0 hxb
    by_cases hsame : g'.slot x = g.slot x
    · exact hx x hxi (hsame ▸ hx0) (hsame ▸ hxb)
    · have hfree := h.fresh x hsame
      rw [hxb, hb] at hfree
      cases hfree

lemma Grows.map_eq (h : Grows i g g') {j bn : ℕ} (h0 : g.map j bn ≠ 0) :
    g'.map j bn = g.map j bn := by
  obtain ⟨x, hx, hxb⟩ := map_ne_zero h0
  rw [map_eq_slot hx, map_eq_slot hx, h.slots x (hxb ▸ h0)]

lemma Grows.typed (h : Grows i g g') {j : ℕ} : g'.Typed j ↔ g.Typed j := by
  by_cases hj : j = i
  · subst hj
    obtain ⟨a, ha⟩ := h.fields
    rw [Typed, Typed, ha]
  · rw [Typed, Typed, h.other j hj]

end Image

namespace Fs

open Words Wp Image

/-- What a program that works on the inode `i` leaves alone until it calls `iupdate`. -/
structure Frame (i : ℕ) (s s' : Fs) : Prop where
  sb : s'.img.sb = s.img.sb
  dinode : s'.img.dinode = s.img.dinode
  ref : s'.ref = s.ref
  locked : s'.locked = s.locked
  icore : ∀ j, j ≠ i → s'.icore j = s.icore j

variable {F : Set Blockno} {s s' s'' : Fs} {i j bn : ℕ} {b : Blockno} {d : Dinode}

lemma Frame.refl : Frame i s s := ⟨rfl, rfl, rfl, rfl, fun _ _ => rfl⟩

lemma Frame.trans (h : Frame i s s') (h' : Frame i s' s'') : Frame i s s'' :=
  ⟨h'.sb.trans h.sb, h'.dinode.trans h.dinode, h'.ref.trans h.ref, h'.locked.trans h.locked,
    fun j hj => (h'.icore j hj).trans (h.icore j hj)⟩

lemma Frame.ino (h : Frame i s s') (hj : j ≠ i) : s'.ino j = s.ino j := by
  rw [Fs.ino, Fs.ino, h.icore j hj, h.dinode]

lemma view_setIcore :
    ({ s with icore := update s.icore i (some d) } : Fs).view = s.view.setDinode i d := by
  rw [view, view, setDinode]
  congr 1
  funext j
  by_cases hj : j = i
  · subst hj
    simp [ino]
  · simp [ino, hj]

lemma Stored.frame {g : Image} (h : Stored g s s') (hsb : g.sb = s.img.sb)
    (hg : g.dinode = s.img.dinode) : Frame i s s' :=
  ⟨h.img ▸ hsb, h.img ▸ hg, h.ref, h.locked, fun _ _ => by rw [h.icore]⟩

/-! ### Allocation -/

/-- Blocks have been allocated to slots of the inode `i` out of the set `X`; what was in its blocks
is still there. -/
structure Extends (i : ℕ) (X : Finset FileSlot) (s s' : Fs) : Prop where
  frame : Frame i s s'
  grows : Grows i s.view s'.view
  ok : BlockOk s'.view
  room : ∀ need, X ⊆ need → s.view.Room need → s'.view.Room need
  rest : ∀ x ∉ X, s'.view.slot x = s.view.slot x
  same : ∀ bn, s.view.map i bn ≠ 0 → s'.img.data (s.view.map i bn) = s.img.data (s.view.map i bn)

variable {X : Finset FileSlot}

lemma Extends.refl (h : BlockOk s.view) : Extends i X s s :=
  ⟨.refl, .refl, h, fun _ _ h => h, fun _ _ => rfl, fun _ _ => rfl⟩

lemma Extends.mono {Y : Finset FileSlot} (h : Extends i X s s') (hX : X ⊆ Y) : Extends i Y s s' :=
  { h with
    room := fun need hneed => h.room need (hX.trans hneed)
    rest := fun x hx => h.rest x fun hxX => hx (hX hxX) }

lemma Extends.trans (h : Extends i X s s') (h' : Extends i X s' s'') : Extends i X s s'' where
  frame := h.frame.trans h'.frame
  grows := h.grows.trans h'.grows
  ok := h'.ok
  room need hneed hroom := h'.room need hneed (h.room need hneed hroom)
  rest x hx := (h'.rest x hx).trans (h.rest x hx)
  same bn hbn := by
    have hmap := h.grows.map_eq hbn
    rw [← h.same bn hbn, ← hmap]
    exact h'.same bn (hmap ▸ hbn)

lemma Extends.of_attach {x : FileSlot} (hok : BlockOk s.view) (hframe : Frame i s s')
    (hfields : ∃ a, s'.ino i = { s.ino i with addrs := a }) (hx : s.view.slot x = 0)
    (hxi : x.owner = i) (hb : s.img.bitmap b = false) (hlt : b.toNat < s.img.sb.size)
    (hbits : s'.img.bitmap = update s.img.bitmap b true)
    (hslot : s'.view.slot = update s.view.slot x b)
    (hdata : ∀ c, s.img.bitmap c = true → (c = s.view.indirect i → c = 0) →
      s'.img.data c = s.img.data c) : Extends i {x} s s' where
  frame := hframe
  grows :=
    { sb := hframe.sb
      other := fun j hj => hframe.ino hj
      fields := hfields
      slots := fun y hy => by
        rw [hslot, update_of_ne]
        rintro rfl
        exact hy hx
      owner := fun y hy => by
        rw [hslot, update_of_ne]
        rintro rfl
        exact hy hxi
      fresh := fun y hy => by
        have hyx : y = x := by
          by_contra hne
          rw [hslot, update_of_ne hne] at hy
          exact hy rfl
        rw [hyx, hslot, update_self]
        exact hb
      bits := fun c hc => by
        change s'.img.bitmap c = true
        rw [hbits, update_apply]
        split_ifs
        · rfl
        · exact hc
      data := fun c hc hown => hdata c hc fun hind => by
        by_contra h0
        rw [hind] at h0
        exact hown (.ptr i (Fin.last ndirect)) rfl h0 hind.symm }
  ok := hok.attach hb hlt hx hframe.sb hbits hslot
  room need hneed hroom :=
    hroom.attach hok (hneed (Finset.mem_singleton_self x)) hx hb hlt hframe.sb hbits hslot
  rest y hy := by
    rw [hslot, update_of_ne]
    rintro rfl
    exact hy (Finset.mem_singleton_self y)
  same bn hbn := by
    obtain ⟨y, hy, hyb⟩ := map_ne_zero hbn
    refine hdata _ (hyb ▸ hok.bit_slot (hyb ▸ hbn)) fun hind => ?_
    exact absurd hind.symm (hok.indirect_ne_map (hind ▸ hbn))

variable {k : Fin (ndirect + 1)}

lemma slot_setPtr_alloc (hok : BlockOk s.view) (ht : s.view.Typed i) (hb : s.img.bitmap b = false)
    (hk : s.view.ptr i k = 0) :
    ((s.view.alloc b).setPtr i k b).slot = update s.view.slot (.ptr i k) b := by
  have hslot := slot_alloc hok hb
  have ht' : (s.view.alloc b).Typed i := ht
  rw [← hslot]
  induction k using Fin.lastCases with
  | last =>
    refine slot_setPtr_last ht' hk ?_
    rw [alloc_data, update_self]
  | cast k => exact slot_setPtr_direct ht'

lemma Stored.data_eq (h : Stored (s.img.alloc b) s s') (hb : s.img.bitmap b = false) {c : Blockno}
    (hc : s.img.bitmap c = true) : s'.img.data c = s.img.data c := by
  have hne : c ≠ b := by
    rintro rfl
    rw [hc] at hb
    cases hb
  rw [h.img, alloc_data, update_of_ne hne]

/-- The slot `x` is empty, and gets the block that `balloc` returns. -/
lemma fillSlot_runs {x : FileSlot} {store : Blockno → FsM Blockno} (hok : BlockOk s.view)
    (hF : s.img.sb.bitmapBlocks ⊆ F) (h0 : s.view.slot x = 0)
    (hstore : ∀ r s', s.img.bitmap r = false → r.toNat < s.img.sb.size →
      Stored (s.img.alloc r) s s' → Runs LogFails F 0 (store r) s' fun r' s'' =>
        r' = r ∧ Logs F 0 s' s'' ∧ Extends i {x} s s'' ∧ s''.view.slot x = r) :
    Runs LogFails F 1 (do
      let addr ← balloc
      if addr = 0 then pure 0 else store addr) s fun r s' =>
        Logs (insert r F) 0 s s' ∧ Extends i {x} s s' ∧ (r = 0 → s'.view.Full) ∧
          s'.view.slot x = r := by
  refine Runs.bind_zero (balloc_runs hF) ?_
  rintro r s1 ⟨hlogs, ⟨rfl, hfull, rfl⟩ | ⟨hfree, hlt, hst⟩⟩
  · rw [if_pos rfl]
    exact Runs.pure ⟨hlogs, .refl hok, fun _ => hfull, h0⟩
  have hr0 : r ≠ 0 := hok.ne_zero (g := s.view) hfree
  rw [if_neg hr0]
  refine Runs.imp (hstore r s1 hfree hlt hst) ?_
  rintro _ s2 ⟨rfl, hl, hext, hslot⟩
  exact ⟨hlogs.trans (q := 0) (hl.subset (Set.subset_insert _ F)), hext, fun h => absurd h hr0,
    hslot⟩

lemma addrOrAlloc_runs (hok : BlockOk s.view) (ht : s.view.Typed i)
    (hF : s.img.sb.bitmapBlocks ⊆ F) : Runs LogFails F 1 (addrOrAlloc i k) s fun r s' =>
      Logs (insert r F) 0 s s' ∧ Extends i {.ptr i k} s s' ∧ (r = 0 → s'.view.Full) ∧
        s'.view.ptr i k = r := by
  refine Runs.read ?_
  have hptr : s.view.ptr i k = (s.ino i).addrs k := ptr_of_typed ht
  rw [← hptr]
  refine Runs.ite (fun h0 => ?_) fun h0 => Runs.pure ⟨.refl, .refl hok, fun h => absurd h h0, rfl⟩
  refine fillSlot_runs (x := .ptr i k) hok hF h0 fun r s1 hfree hlt hst => ?_
  rw [setIno]
  refine Runs.store rfl rfl (Runs.pure ⟨rfl, .of_eq rfl rfl, ?_⟩)
  generalize hs2 : ({ s1 with icore := _ } : Fs) = s2
  have hview : s2.view = (s.view.alloc r).setPtr i k r := by
    rw [← hs2, view_setIcore, hst.view rfl, hst.ino rfl]
    rfl
  have hslot : s2.view.slot = update s.view.slot (.ptr i k) r := by
    rw [hview, slot_setPtr_alloc hok ht hfree h0]
  refine ⟨Extends.of_attach (b := r) hok ?_ ?_ h0 rfl hfree hlt ?_ hslot fun c hc _ => ?_, ?_⟩
  · refine (hst.frame rfl rfl).trans (hs2 ▸ ⟨rfl, rfl, rfl, rfl, fun j hj => ?_⟩)
    exact update_of_ne hj ..
  · refine ⟨update (s.ino i).addrs k r, ?_⟩
    change s2.view.dinode i = _
    rw [hview, setPtr, setDinode_self]
    rfl
  · rw [← hs2]
    exact congrArg Image.bitmap hst.img
  · rw [← hs2]
    exact hst.data_eq hfree hc
  · rw [hslot, update_self]

lemma entryOrAlloc_runs {j : Fin nindirect} (hok : BlockOk s.view)
    (hi : s.view.indirect i ≠ 0) (hF : s.img.sb.bitmapBlocks ⊆ F) (hind : s.view.indirect i ∈ F) :
    Runs LogFails F 1 (entryOrAlloc (s.view.indirect i) j) s fun r s' =>
      Logs (insert r F) 0 s s' ∧ Extends i {.entry i j} s s' ∧ (r = 0 → s'.view.Full) ∧
        s'.view.slot (.entry i j) = r := by
  refine Runs.read ?_
  have hentry : s.view.slot (.entry i j) = word (s.img.data (s.view.indirect i)) j := if_neg hi
  rw [← hentry]
  refine Runs.ite (fun h0 => ?_) fun h0 => Runs.pure ⟨.refl, .refl hok, fun h => absurd h h0, rfl⟩
  refine fillSlot_runs (x := .entry i j) hok hF h0 fun r s1 hfree hlt hst => ?_
  refine Runs.store rfl rfl (Runs.seq (logWrite_runs hind).logs ?_)
  rintro _ s2 ⟨hl, hs2⟩
  refine Runs.pure ⟨rfl, hl.before rfl rfl, ?_⟩
  -- the block of the slot is the one that `balloc` has marked; the words of the others stay
  have hne : s.view.indirect i ≠ r := hok.slot_ne (x := .ptr i (Fin.last ndirect)) hfree hi
  have hdata : s1.img.data (s.view.indirect i) = s.img.data (s.view.indirect i) := by
    rw [hst.img, alloc_data, update_of_ne hne]
  have hview : s2.view = (s.view.setData (s.view.indirect i)
      (setWord (s.view.data (s.view.indirect i)) j r)).alloc r := by
    have h2 : s2.view = s1.view.setData (s.view.indirect i)
        (setWord (s1.img.data (s.view.indirect i)) j r) := by rw [hs2]; rfl
    rw [h2, hst.view rfl, hdata]
    simp only [alloc, setData, mark]
    rw [update_comm hne]
    rfl
  have hslot : s2.view.slot = update s.view.slot (.entry i j) r := by
    rw [hview, alloc, Image.slot_setData, slot_mark, slot_setEntry hok hi]
    intro i' hi'
    exact hok.slot_ne (x := .ptr i' (Fin.last ndirect)) hfree hi'
  refine ⟨Extends.of_attach (b := r) hok ?_ ⟨(s.ino i).addrs, ?_⟩ h0 rfl hfree hlt ?_ hslot
    fun c hc hci => ?_, ?_⟩
  · exact (hst.frame rfl rfl).trans (hs2 ▸ ⟨rfl, rfl, rfl, rfl, fun _ _ => rfl⟩)
  · rw [show s2.ino = s1.ino by rw [hs2]; rfl, hst.ino rfl]
  · rw [hs2]
    exact congrArg Image.bitmap hst.img
  · have hcind : c ≠ s.view.indirect i := fun h => hi (h ▸ hci h)
    rw [hs2]
    change update s1.img.data _ _ c = _
    rw [update_of_ne hcind, hst.data_eq hfree hc]
  · rw [hslot, update_self]

/-- The number of indirect blocks, none or one, that the file has not got yet. -/
def noIndirect (s : Fs) (i : ℕ) : ℕ := if s.view.indirect i = 0 then 1 else 0

/-- The indirect block of the file, if it has one, is in the set. -/
def IndirectIn (i : ℕ) (F : Set Blockno) (s : Fs) : Prop :=
  s.view.indirect i ≠ 0 → s.view.indirect i ∈ F

/-- The blocks in `G` have been logged. Beyond those in `F` they are a block of the file and, if the
file had no indirect block, the one it has got. -/
structure Paid (i : ℕ) (F G : Set Blockno) (s s' : Fs) : Prop where
  subset : F ⊆ G
  indirect : IndirectIn i G s'
  logs : Logs G 0 s s'
  pays : ∀ k s'', Logs G (k + s'.noIndirect i) s s'' → Logs F (k + 1 + s.noIndirect i) s s''

lemma Logs.of_insert_indirect {q : ℕ} (h : Logs (insert b F) q s s'') (hF : IndirectIn i F s)
    (hb : s.view.indirect i ≠ 0 → b = s.view.indirect i) : Logs F (q + s.noIndirect i) s s'' := by
  rw [noIndirect]
  split_ifs with h0
  · exact h.of_insert
  · rwa [Set.insert_eq_of_mem (hb h0 ▸ hF h0)] at h

/-- A block of the file has been logged, and the file has the indirect block it had. -/
lemma Paid.of_insert (h : Logs (insert b F) 0 s s') (hF : IndirectIn i F s)
    (hind : s'.view.indirect i = s.view.indirect i) : Paid i F (insert b F) s s' where
  subset := Set.subset_insert b F
  indirect h0 := by
    rw [hind] at h0 ⊢
    exact Set.mem_insert_of_mem b (hF h0)
  logs := h
  pays k s'' h := by
    rw [noIndirect, hind] at h
    exact h.of_insert.mono (by rw [noIndirect]; omega)

/-- **`bmap`** returns the block `bn` of the file, allocated if it was not there, or `0` if there is
no room for the blocks that are missing on the way to it. The indirect block is counted once. -/
lemma bmap_runs (hok : BlockOk s.view) (ht : s.view.Typed i) (hF : s.img.sb.bitmapBlocks ⊆ F)
    (hindF : IndirectIn i F s) (hbn : bn < maxfile) :
    Runs LogFails F (1 + s.noIndirect i) (bmap i bn) s fun r s' =>
      (∃ G, r ∈ G ∧ Paid i F G s s') ∧ Extends i (pathSlots i bn) s s' ∧
        (r = 0 → ∀ need, pathSlots i bn ⊆ need → ¬ s'.view.Room need) ∧
        (r ≠ 0 → s'.view.map i bn = r) := by
  rw [bmap]
  split_ifs with hdir hind
  · have hslot : blockSlot i bn = some (.ptr i (Fin.castSucc ⟨bn, hdir⟩)) := dif_pos hdir
    have hpath : pathSlots i bn = {.ptr i (Fin.castSucc ⟨bn, hdir⟩)} := dif_pos hdir
    refine Runs.mono (addrOrAlloc_runs hok ht hF) (by omega) ?_
    rintro r s1 ⟨hlogs, hext, hfull, hr⟩
    rw [map_eq_slot hslot, hpath]
    refine ⟨⟨_, Set.mem_insert r F, .of_insert hlogs hindF (hext.rest (.ptr i (Fin.last _)) ?_)⟩,
      hext, fun h0 need hneed => ?_, fun _ => hr⟩
    · rw [Finset.mem_singleton, FileSlot.ptr.injEq]
      exact fun h => Fin.castSucc_ne_last _ h.2.symm
    · exact (hfull h0).not_room (hneed (Finset.mem_singleton_self _)) (hr.trans h0)
  · have hslot : blockSlot i bn = some (.entry i ⟨bn - ndirect, hind⟩) := by
      rw [blockSlot, dif_neg hdir, dif_pos hind]
    have hpath : pathSlots i bn = {.ptr i (Fin.last ndirect), .entry i ⟨bn - ndirect, hind⟩} := by
      rw [pathSlots, dif_neg hdir, dif_pos hind]
    simp only [map_eq_slot hslot, hpath]
    refine Runs.bind_of (Q := fun ind s' => Logs (insert ind F) 0 s s' ∧
      Extends i {.ptr i (Fin.last ndirect)} s s' ∧ (ind = 0 → s'.view.Full) ∧
        s'.view.indirect i = ind) ((addrOrAlloc_runs hok ht hF).mono (by omega) fun _ _ h => h) ?_
    rintro ind s1 ⟨hlogs, hext, hfull, rfl⟩
    have hkeep : s.view.indirect i ≠ 0 → s1.view.indirect i = s.view.indirect i :=
      hext.grows.slots (.ptr i (Fin.last ndirect))
    refine ⟨insert (s1.view.indirect i) F, 1, Runs.ite (fun h0 => ?_) fun h0 => ?_, fun s'' h => ?_⟩
    · have h00 : s.view.indirect i = 0 := by
        by_contra hne
        exact hne ((hkeep hne).symm.trans h0)
      refine Runs.pure ⟨⟨_, Set.mem_insert 0 F, .of_insert (h0 ▸ hlogs) hindF (h0.trans h00.symm)⟩,
        hext.mono (by simp), fun _ need hneed => ?_, fun h => absurd rfl h⟩
      exact (hfull h0).not_room (x := .ptr i (Fin.last ndirect)) (hneed (by simp)) h0
    · have hF1 : s1.img.sb.bitmapBlocks ⊆ insert (s1.view.indirect i) F := by
        rw [hext.frame.sb]
        exact hF.trans (Set.subset_insert _ F)
      refine Runs.imp (entryOrAlloc_runs (j := ⟨bn - ndirect, hind⟩) hext.ok h0 hF1
        (Set.mem_insert _ F)) ?_
      rintro r s2 ⟨hlogs2, hext2, hfull2, hr⟩
      have hind2 : s2.view.indirect i = s1.view.indirect i :=
        hext2.grows.slots (.ptr i (Fin.last ndirect)) h0
      refine ⟨⟨_, Set.mem_insert r _, ?_, ?_, (hlogs.subset (Set.subset_insert r _)).trans hlogs2,
        fun k s'' h => ?_⟩, (hext.mono (by simp)).trans (hext2.mono (by simp)),
        fun h0 need hneed => ?_, fun _ => hr⟩
      · exact (Set.subset_insert _ F).trans (Set.subset_insert r _)
      · exact fun _ => hind2 ▸ Set.mem_insert_of_mem r (Set.mem_insert _ F)
      · rw [noIndirect, hind2, if_neg h0] at h
        exact h.of_insert.of_insert_indirect hindF hkeep
      · exact (hfull2 h0).not_room (hneed (by simp)) (hr.trans h0)
    · have hboth := hlogs.trans h
      rw [zero_add] at hboth
      exact hboth.of_insert_indirect hindF hkeep
  · rw [maxfile] at hbn
    omega

/-! ### Truncation -/

/-- The slots of the inode `i`, in the order in which `itrunc` frees their blocks. -/
def allSlots (i : ℕ) : List FileSlot :=
  (List.finRange ndirect).map (fun k => .ptr i k.castSucc) ++
    (List.finRange nindirect).map (fun j => .entry i j) ++ [.ptr i (Fin.last ndirect)]

lemma mem_allSlots {x : FileSlot} : x ∈ allSlots i ↔ x.owner = i := by
  rw [allSlots]
  cases x with
  | ptr i' k =>
    induction k using Fin.lastCases with
    | last => simp [FileSlot.owner, Fin.castSucc_ne_last]
    | cast k => simp [FileSlot.owner, Fin.castSucc_ne_last, eq_comm]
  | entry i' j => simp [FileSlot.owner, eq_comm]

/-- The state in the middle of `itrunc`: the blocks of the slots `l` are free, and the addresses in
`ks` have been cleared. -/
structure Clearing (i : ℕ) (l : List FileSlot) (ks : List (Fin (ndirect + 1))) (s s' : Fs) :
    Prop where
  frame : Frame i s s'
  data : s'.img.data = s.img.data
  freed : s.view.Freed l s'.img.bitmap
  ino : s'.ino i = (s.ino i).withAddrs fun k => if k ∈ ks then 0 else (s.ino i).addrs k

lemma Clearing.refl : Clearing i [] [] s s :=
  ⟨.refl, rfl, .nil, by simp [Dinode.withAddrs]⟩

variable {l : List FileSlot} {ks : List (Fin (ndirect + 1))} {x : FileSlot}

section

variable (h : Clearing i l ks s s')

include h

lemma Clearing.addrs (hk : k ∉ ks) : (s'.ino i).addrs k = (s.ino i).addrs k := by
  rw [h.ino]
  exact if_neg hk

lemma Clearing.skip {l' : List FileSlot} (hl : ∀ x ∈ l', s.view.slot x = 0) :
    Clearing i (l ++ l') ks s s' :=
  { h with freed := h.freed.skip hl }

lemma Clearing.keep (hk : (s.ino i).addrs k = 0) : Clearing i l (ks ++ [k]) s s' :=
  { h with
    ino := by
      rw [h.ino]
      congr 1
      funext k'
      by_cases hk' : k' = k
      · simp [hk', hk]
      · simp [hk'] }

lemma Clearing.bfree (hok : BlockOk s.view) (hF : s.img.sb.bitmapBlocks ⊆ F)
    (hx : s.view.slot x ≠ 0) (hl : x ∉ l) :
    Runs LogFails F 0 (bfree (s.view.slot x)) s' fun _ s'' =>
      Clearing i (l ++ [x]) ks s s'' ∧ s''.icore = s'.icore := by
  have hlt := (hok.inData x hx).2
  refine Runs.imp (bfree_runs (h.frame.sb ▸ hF) (h.freed.bit hok hx hl) (h.frame.sb ▸ hlt)) ?_
  intro _ s'' hst
  refine ⟨⟨h.frame.trans (hst.frame rfl rfl), ?_, ?_, ?_⟩, hst.icore⟩
  · rw [hst.img, mark_data, h.data]
  · rw [hst.img, mark_bitmap]
    exact h.freed.free hx
  · rw [hst.ino rfl, h.ino]

lemma Clearing.clear :
    Runs LogFails F 0 (setIno i fun d => { d with addrs := update d.addrs k 0 }) s'
      fun _ s'' => Clearing i l (ks ++ [k]) s s'' := by
  refine Runs.store_end rfl rfl ⟨h.frame.trans ⟨rfl, rfl, rfl, rfl, fun j hj => ?_⟩, h.data,
    h.freed, ?_⟩
  · exact update_of_ne hj ..
  · rw [Fs.ino]
    simp only [update_self, Option.getD_some, h.ino]
    change (s.ino i).withAddrs (update _ k 0) = _
    congr 1
    funext k'
    by_cases hk' : k' = k
    · simp [hk']
    · simp [hk', Dinode.withAddrs]

end

lemma truncDirect_runs (hok : BlockOk s.view) (ht : s.view.Typed i)
    (hF : s.img.sb.bitmapBlocks ⊆ F) {k : Fin ndirect} (h : Clearing i l ks s s')
    (hk : k.castSucc ∉ ks) (hl : .ptr i k.castSucc ∉ l) :
    Runs LogFails F 0 (truncDirect i k) s' fun _ s'' =>
      Clearing i (l ++ [.ptr i k.castSucc]) (ks ++ [k.castSucc]) s s'' := by
  have hslot : s.view.slot (.ptr i k.castSucc) = (s.ino i).addrs k.castSucc := ptr_of_typed ht
  refine Runs.read ?_
  rw [h.addrs hk, ← hslot]
  refine Runs.ite (fun h0 => ?_) fun h0 => ?_
  · refine Runs.seq (h.bfree hok hF h0 hl) ?_
    rintro _ s1 ⟨h1, -⟩
    exact h1.clear
  · rw [not_not] at h0
    exact Runs.pure ((h.skip (by simpa using h0)).keep (hslot ▸ h0))

lemma truncIndirect_runs (hok : BlockOk s.view) (ht : s.view.Typed i)
    (hF : s.img.sb.bitmapBlocks ⊆ F)
    (h : Clearing i ((List.finRange ndirect).map fun k => .ptr i k.castSucc)
      ((List.finRange ndirect).map Fin.castSucc) s s') :
    Runs LogFails F 0 (truncIndirect i) s' fun _ s'' => ∃ ks, (∀ k, k ∈ ks) ∧
      Clearing i (allSlots i) ks s s'' := by
  have hlast : Fin.last ndirect ∉ (List.finRange ndirect).map Fin.castSucc := by
    simp [Fin.castSucc_ne_last]
  have hmem : ∀ k, k ∈ (List.finRange ndirect).map Fin.castSucc ++ [Fin.last ndirect] := by
    intro k
    induction k using Fin.lastCases with
    | last => simp
    | cast k => simp
  have hslot : s.view.slot (.ptr i (Fin.last ndirect)) = (s.ino i).addrs (Fin.last ndirect) :=
    ptr_of_typed ht
  refine Runs.read ?_
  rw [h.addrs hlast, ← hslot]
  refine Runs.ite (fun h0 => ?_) fun h0 => ?_
  · -- the words are those of the indirect block before anything was freed
    have hword : ∀ j : Fin nindirect,
        word (s'.img.data (s.view.slot (.ptr i (Fin.last ndirect)))) j =
        s.view.slot (.entry i j) := by
      intro j
      rw [h.data]
      exact (if_neg h0).symm
    refine Runs.seq (Runs.forM (fun pre s'' => Clearing i
      (((List.finRange ndirect).map fun k => .ptr i k.castSucc) ++
        pre.map fun j => .entry i j) ((List.finRange ndirect).map Fin.castSucc) s s'') ?_
        (by simpa using h)) ?_
    · intro pre j s1 hpre h1
      have hj : j ∉ pre := by
        have hnd := (List.nodup_finRange nindirect).sublist hpre.sublist
        rw [List.nodup_append] at hnd
        exact fun hj => hnd.2.2 j hj j (List.mem_singleton_self j) rfl
      rw [truncEntry, hword, List.map_append, ← List.append_assoc]
      refine Runs.ite (fun h0 => ?_) fun h0 => ?_
      · refine Runs.imp (h1.bfree hok hF h0 ?_) fun _ _ h => h.1
        simp [hj]
      · exact Runs.pure (h1.skip (by simpa using h0))
    · intro _ s1 h1
      refine Runs.seq (h1.bfree hok hF h0 (by simp [Fin.castSucc_ne_last])) ?_
      rintro _ s2 ⟨h2, -⟩
      exact Runs.imp h2.clear fun _ s3 h3 => ⟨_, hmem, h3⟩
  · rw [not_not] at h0
    have hentry : ∀ j, s.view.slot (.entry i j) = 0 := fun j => if_pos h0
    refine Runs.pure ⟨_, hmem, ((h.skip ?_).skip ?_).keep (hslot ▸ h0)⟩
    · simpa using hentry
    · simpa using h0

/-- The state after `itrunc`. -/
structure Truncated (i : ℕ) (s s' : Fs) : Prop where
  sb : s'.img.sb = s.img.sb
  data : s'.img.data = s.img.data
  ref : s'.ref = s.ref
  locked : s'.locked = s.locked
  icore : s'.icore = update s.icore i (some (s.ino i).emptied)
  dinode : s'.img.dinode = update s.img.dinode i (s.ino i).emptied
  freed : s.view.Freed (allSlots i) s'.img.bitmap

/-- **`itrunc`** empties the inode and frees its blocks, each of which is marked. -/
lemma itrunc_runs (hok : BlockOk s.view) (ht : s.view.Typed i) (hF : s.img.sb.bitmapBlocks ⊆ F)
    (hi : s.img.sb.iblock i ∈ F) : Runs LogFails F 0 (itrunc i) s fun _ s' => Truncated i s s' := by
  refine Runs.seq (Runs.forM (fun pre s' => Clearing i (pre.map fun k => .ptr i k.castSucc)
    (pre.map Fin.castSucc) s s') ?_ .refl) fun _ s1 h1 => ?_
  · intro pre k s1 hpre h1
    have hk : k ∉ pre := by
      have hnd := (List.nodup_finRange ndirect).sublist hpre.sublist
      rw [List.nodup_append] at hnd
      exact fun hk => hnd.2.2 k hk k (List.mem_singleton_self k) rfl
    rw [List.map_append, List.map_append]
    exact truncDirect_runs hok ht hF h1 (by simp [hk]) (by simp [hk])
  refine Runs.seq (truncIndirect_runs hok ht hF h1) ?_
  rintro _ s2 ⟨ks, hall, h2⟩
  have hino : s2.ino i = (s.ino i).withAddrs fun _ => 0 := by
    rw [h2.ino]
    simp [hall]
  refine Runs.imp (setInode_runs (h2.frame.sb ▸ hi)) fun _ s3 h3 => ?_
  have hemp : { s2.ino i with size := 0 } = (s.ino i).emptied := by
    rw [hino]
    rfl
  rw [hemp] at h3
  refine ⟨?_, ?_, h3.ref.trans h2.frame.ref, h3.locked.trans h2.frame.locked, ?_, ?_, ?_⟩
  · rw [h3.img, setDinode_sb, h2.frame.sb]
  · rw [h3.img, setDinode_data, h2.data]
  · rw [h3.icore]
    funext j
    by_cases hj : j = i
    · subst hj
      simp
    · simp [hj, h2.frame.icore j hj]
  · rw [h3.img, ← h2.frame.dinode]
    rfl
  · rw [h3.img]
    exact h2.freed

lemma Truncated.slot (h : Truncated i s s') (x : FileSlot) :
    s'.view.slot x = if x ∈ allSlots i then 0 else s.view.slot x := by
  have hino : s'.ino = update s.ino i (s.ino i).emptied := by
    funext j
    rw [Fs.ino, h.icore, h.dinode]
    by_cases hj : j = i
    · subst hj
      simp
    · simp [hj, Fs.ino]
  have hptr : ∀ j k, s'.view.ptr j k = if j = i then 0 else s.view.ptr j k := by
    intro j k
    have hj' := congrFun hino j
    split_ifs with hj
    · subst hj
      rw [update_self] at hj'
      refine ptr_eq_zero ?_
      change (s'.ino j).addrs k = 0
      rw [hj']
      rfl
    · rw [update_of_ne hj] at hj'
      exact ptr_congr hj'
  simp only [mem_allSlots]
  cases x with
  | ptr j k => exact hptr j k
  | entry j n =>
    simp only [Image.slot, indirect, hptr, FileSlot.owner]
    by_cases hj : j = i
    · simp [hj]
    · have hdata : s'.view.data = s.view.data := h.data
      simp only [if_neg hj, hdata]
      exact (if_neg hj).symm

lemma Truncated.blockOk (h : Truncated i s s') (hok : BlockOk s.view) : BlockOk s'.view :=
  hok.detach h.sb h.freed h.slot

end Fs

end Xv6Riscv
