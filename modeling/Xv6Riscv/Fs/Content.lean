import Mathlib.Data.List.TakeWhile
import Xv6Riscv.Fs.Bmap

/-!
Files as arrays of bytes: `readi` and `writei`.

The byte `p` of a file is `Image.fileByte`; it is in the block `p / BSIZE` of the file. A transfer
goes through the blocks one piece at a time, and its first and last pieces may begin and end inside
a block.

* `writeiLoop_runs`: what the loop of `writei` has written when it ends, where it can end early, and
  that besides those of the free map it logs one block for each piece and the indirect block.
-/

namespace Xv6Riscv

namespace Image

variable {g g' : Image} {i j bn p : ℕ} {c : Block}

lemma bsize_pos : 0 < bsize := by rw [bsize_eq]; decide

lemma map_congr (h : g'.slot = g.slot) : g'.map i bn = g.map i bn := by
  rw [map, map, h]

lemma fileByte_setData_self (hslot : (g.setData (g.map i bn) c).slot = g.slot)
    (hp : p / bsize = bn) :
    (g.setData (g.map i bn) c).fileByte i p = c ⟨p % bsize, Nat.mod_lt _ bsize_pos⟩ := by
  rw [fileByte, map_congr hslot, hp, setData_data, Function.update_self]

lemma fileByte_setData_of_ne (hok : BlockOk g) (h0 : g.map j (p / bsize) ≠ 0)
    (hne : j ≠ i ∨ p / bsize ≠ bn) : (g.setData (g.map i bn) c).fileByte j p = g.fileByte j p := by
  have hb : g.map j (p / bsize) ≠ g.map i bn := by
    intro he
    have := hok.map_inj h0 he
    omega
  rw [fileByte, map_congr hok.slot_setData, setData_data, Function.update_of_ne hb, fileByte]

lemma Grows.setData (hok : BlockOk g) (h0 : g.map i bn ≠ 0) :
    Grows i g (g.setData (g.map i bn) c) where
  sb := rfl
  other _ _ := rfl
  fields := ⟨_, rfl⟩
  slots x _ := congrFun hok.slot_setData x
  owner x _ := congrFun hok.slot_setData x
  fresh x h := absurd (congrFun hok.slot_setData x) h
  bits _ h := h
  data b hb hown := by
    obtain ⟨x, hx, hxb⟩ := map_ne_zero h0
    rw [setData_data, Function.update_of_ne]
    rintro rfl
    exact hown x (blockSlot_owner hx) (hxb ▸ h0) hxb

lemma Grows.fileByte_eq (h : Grows i g g') (hok : BlockOk g) (hj : j ≠ i)
    (h0 : g.map j (p / bsize) ≠ 0) : g'.fileByte j p = g.fileByte j p := by
  obtain ⟨x, hx, hxb⟩ := map_ne_zero h0
  have hbit : g.bitmap (g.map j (p / bsize)) = true := hxb ▸ hok.bit_slot (hxb ▸ h0)
  rw [fileByte, h.map_eq h0, h.data _ hbit, fileByte]
  intro y hy hy0 hyb
  have hyx := hok.unique y x hy0 (hyb.trans hxb.symm)
  exact hj (by rw [← blockSlot_owner hx, ← hyx, hy])

end Image

namespace Fs

open Words Wp Image

/-! ### Copies -/

section

variable {ok : ℕ → Bool} {tot m k : ℕ}

lemma copied_le : copied ok tot m ≤ m := by
  rw [copied]
  exact (List.takeWhile_prefix _).length_le.trans List.length_range.le

lemma ok_of_lt_copied (hk : k < copied ok tot m) : ok (tot + k) = true := by
  rw [copied] at hk
  have hmem := List.getElem_mem hk
  have hval : ((List.range m).takeWhile fun k => ok (tot + k))[k] = k := by
    rw [(List.takeWhile_prefix _).getElem hk, List.getElem_range]
  rw [hval] at hmem
  exact List.all_eq_true.mp List.all_takeWhile k hmem

lemma exists_of_copied_lt (h : copied ok tot m < m) : ∃ k < m, ok (tot + k) = false := by
  by_contra hall
  push Not at hall
  have hfull : (List.range m).takeWhile (fun k => ok (tot + k)) = List.range m := by
    rw [List.takeWhile_eq_self_iff]
    intro k hk
    simpa using hall k (List.mem_range.mp hk)
  rw [copied, hfull, List.length_range] at h
  exact lt_irrefl m h

lemma copied_eq (h : ∀ k < m, ok (tot + k) = true) : copied ok tot m = m := by
  by_contra hne
  obtain ⟨k, hk, hbad⟩ := exists_of_copied_lt (lt_of_le_of_ne copied_le hne)
  rw [h k hk] at hbad
  cases hbad

end

/-- The number of blocks that `n` bytes from the byte `off` on lie in. -/
def pieces (off n : ℕ) : ℕ := if n = 0 then 0 else (off % bsize + n + bsize - 1) / bsize

variable {n tot m : ℕ}

lemma pieces_step (off : ℕ) (h : tot < n) :
    pieces (off + pieceLen n tot off) (n - (tot + pieceLen n tot off)) + 1 ≤
      pieces off (n - tot) := by
  have hmod : off % bsize < bsize := Nat.mod_lt _ bsize_pos
  rw [pieceLen, pieces, pieces, if_neg (by omega : ¬ n - tot = 0)]
  rw [bsize_eq] at *
  split_ifs with h0 <;> omega

lemma piece_end (off : ℕ) (h : tot < n) :
    tot + pieceLen n tot off = n ∨ (off + pieceLen n tot off) % bsize = 0 := by
  have hmod : off % bsize < bsize := Nat.mod_lt _ bsize_pos
  rw [pieceLen]
  rw [bsize_eq] at *
  omega

lemma pieceLen_pos (off : ℕ) (h : tot < n) : 0 < pieceLen n tot off := by
  have hmod : off % bsize < bsize := Nat.mod_lt _ bsize_pos
  rw [pieceLen]
  omega

/-! ### Writing -/

variable {F : Set Blockno} {s s' s'' : Fs} {i : ℕ} {need : Finset FileSlot} {lo hi : ℕ}

/-- Blocks have been allocated to the slots `need` of the file `i`, and the bytes from `lo` up to
`hi` may have changed. -/
structure Writing (i : ℕ) (need : Finset FileSlot) (lo hi : ℕ) (s s' : Fs) : Prop where
  frame : Frame i s s'
  grows : Grows i s.view s'.view
  ok : BlockOk s'.view
  room : s.view.Room need → s'.view.Room need
  same : ∀ p, s.view.map i (p / bsize) ≠ 0 → p < lo ∨ hi ≤ p →
    s'.view.fileByte i p = s.view.fileByte i p

lemma Writing.refl (h : BlockOk s.view) : Writing i need lo hi s s :=
  ⟨.refl, .refl, h, fun h => h, fun _ _ _ => rfl⟩

lemma Writing.trans (h : Writing i need lo hi s s') (h' : Writing i need lo hi s' s'') :
    Writing i need lo hi s s'' where
  frame := h.frame.trans h'.frame
  grows := h.grows.trans h'.grows
  ok := h'.ok
  room hroom := h'.room (h.room hroom)
  same p hp hout := by
    rw [h'.same p (h.grows.map_eq hp ▸ hp) hout, h.same p hp hout]

lemma Writing.mono {lo' hi' : ℕ} (h : Writing i need lo hi s s') (hlo : lo' ≤ lo) (hhi : hi ≤ hi') :
    Writing i need lo' hi' s s' :=
  { h with same := fun p hp hout => h.same p hp (by omega) }

lemma Extends.writing {X : Finset FileSlot} (h : Extends i X s s') (hX : X ⊆ need) :
    Writing i need lo hi s s' where
  __ := h
  room := h.room need hX
  same p hp _ := by
    rw [fileByte, fileByte, h.grows.map_eq hp]
    exact congrFun (h.same _ hp) _

/-- The state after a piece has been copied into the block `bn` of the file and logged. -/
lemma Writing.of_copy (need : Finset FileSlot) {bn o : ℕ} {c : Block} (hok : BlockOk s.view)
    (h0 : s.view.map i bn ≠ 0)
    (hc : ∀ p : Fin bsize, p.val < o ∨ o + m ≤ p.val → c p = s.img.data (s.view.map i bn) p) :
    Writing i need (bn * bsize + o) (bn * bsize + o + m) s
      (({ s with img := s.img.setData (s.view.map i bn) c } : Fs).logged (s.view.map i bn)) where
  frame := ⟨rfl, rfl, rfl, rfl, fun _ _ => rfl⟩
  grows := Grows.setData hok h0
  ok := hok.congr rfl rfl hok.slot_setData
  room h := h.congr rfl rfl hok.slot_setData
  same p hp hout := by
    change (s.view.setData (s.view.map i bn) c).fileByte i p = _
    by_cases hbn : p / bsize = bn
    · have hdm := Nat.div_add_mod' p bsize
      rw [hbn] at hdm
      rw [fileByte_setData_self hok.slot_setData hbn, hc _ (by simp only; omega), fileByte, hbn]
      rfl
    · exact fileByte_setData_of_ne hok hp (.inr hbn)

/-- What the loop of `writei` has done when it ends with `tot' = r.1` and `off' = r.2`. -/
structure LoopWrote (i : ℕ) (src : ℕ → Option UInt8) (n tot off : ℕ) (need : Finset FileSlot)
    (r : ℕ × ℕ) (s s' : Fs) : Prop where
  le : tot ≤ r.1
  le_n : r.1 ≤ n
  off_eq : r.2 + tot = off + r.1
  writing : Writing i need off (off + (n - tot)) s s'
  bytes : ∀ p, off ≤ p → p < r.2 →
    s'.view.map i (p / bsize) ≠ 0 ∧ src (tot + (p - off)) = some (s'.view.fileByte i p)
  short : r.1 < n → (∃ k < n, src k = none) ∨ ¬ s.view.Room need
  stop : r.1 = n ∨ r.1 = tot ∨ r.2 % bsize = 0

section

variable {src : ℕ → Option UInt8} {off : ℕ} {r : ℕ × ℕ}

lemma LoopWrote.stopped (hle : tot ≤ n) (hw : Writing i need off (off + (n - tot)) s s')
    (hshort : tot < n → (∃ k < n, src k = none) ∨ ¬ s.view.Room need) :
    LoopWrote i src n tot off need (tot, off) s s' :=
  ⟨le_rfl, hle, rfl, hw, fun _ h1 h2 => absurd h2 (not_lt.mpr h1), hshort, .inr (.inl rfl)⟩

/-- A piece has been copied into the block of `off`; the block holds its bytes. -/
lemma bytes_of_copy {addr : Blockno} (hok : BlockOk s.view)
    (hmap : s.view.map i (off / bsize) = addr) (h0 : addr ≠ 0)
    (hview : s'.view = s.view.setData addr
      (copyInto (s.img.data addr) src tot (off % bsize) m))
    (hmb : off % bsize + m ≤ bsize) (hall : copied (fun k => (src k).isSome) tot m = m) {p : ℕ}
    (h1 : off ≤ p) (h2 : p < off + m) : s'.view.map i (p / bsize) ≠ 0 ∧
      src (tot + (p - off)) = some (s'.view.fileByte i p) := by
  subst hmap
  have hdm := Nat.div_add_mod' off bsize
  have hpb : p / bsize = off / bsize := by
    rw [Nat.div_eq_iff bsize_pos]
    omega
  have hpm : p % bsize = off % bsize + (p - off) := by
    have := Nat.div_add_mod' p bsize
    rw [hpb] at this
    omega
  have hlt : p - off < copied (fun k => (src k).isSome) tot m := by omega
  obtain ⟨v, hv⟩ := Option.isSome_iff_exists.mp (ok_of_lt_copied hlt)
  refine ⟨?_, ?_⟩
  · rw [hview, map_congr hok.slot_setData, hpb]
    exact h0
  · rw [hview, fileByte_setData_self hok.slot_setData hpb, copyInto, if_pos]
    · simp only [hpm, Nat.add_sub_cancel_left]
      rw [hv]
      rfl
    · simp only [hpm]
      omega

/-- A piece has been written, and then the rest of the loop has run. -/
lemma LoopWrote.next (hlt : tot < n) (hm : pieceLen n tot off = m)
    (hw : Writing i need off (off + (n - tot)) s s')
    (hbytes : ∀ p, off ≤ p → p < off + m → s'.view.map i (p / bsize) ≠ 0 ∧
      src (tot + (p - off)) = some (s'.view.fileByte i p))
    (hl : LoopWrote i src n (tot + m) (off + m) need r s' s'') :
    LoopWrote i src n tot off need r s s'' := by
  have hmn : pieceLen n tot off ≤ n - tot := min_le_left _ _
  have hrle := hl.le
  have hroff := hl.off_eq
  have hw' := hl.writing
  refine ⟨by omega, hl.le_n, by omega, hw.trans (hw'.mono (by omega) (by omega)), ?_, ?_, ?_⟩
  · intro p h1 h2
    by_cases hp : p < off + m
    · obtain ⟨hp0, hpv⟩ := hbytes p h1 hp
      rw [hw'.same p hp0 (.inl hp), hw'.grows.map_eq hp0]
      exact ⟨hp0, hpv⟩
    · have := hl.bytes p (by omega) h2
      rwa [show tot + m + (p - (off + m)) = tot + (p - off) by omega] at this
  · intro hr
    exact (hl.short hr).imp_right fun h hr => h (hw.room hr)
  · rcases hl.stop with hstop | hstop | hstop
    · exact .inl hstop
    · -- only the first piece: it ends the transfer or fills its block
      have hr2 : r.2 = off + m := by omega
      rw [hr2, hstop, ← hm]
      exact (piece_end off hlt).imp_right .inr
    · exact .inr (.inr hstop)

end

/-- **The loop of `writei`**, from any point on. -/
lemma writeiLoop_runs {src : ℕ → Option UInt8} (need : Finset FileSlot) :
    ∀ (fuel tot off : ℕ) (F : Set Blockno) (s : Fs), BlockOk s.view → s.view.Typed i →
    s.img.sb.bitmapBlocks ⊆ F → IndirectIn i F s → tot ≤ n →
    n - tot ≤ fuel → off + (n - tot) ≤ maxfile * bsize →
    (∀ bn, off / bsize ≤ bn → bn * bsize < off + (n - tot) → pathSlots i bn ⊆ need) →
    Runs LogFails F (pieces off (n - tot) + s.noIndirect i) (writeiLoop i src n fuel tot off) s
      fun r s' => LoopWrote i src n tot off need r s s' := by
  intro fuel
  induction fuel with
  | zero =>
    intro tot off F s hok ht hF hindF hle hfuel hmax hneed
    exact Runs.pure (.stopped hle (.refl hok) (by omega))
  | succ fuel ih =>
    intro tot off F s hok ht hF hindF hle hfuel hmax hneed
    rw [writeiLoop]
    refine Runs.ite (fun hlt => ?_) fun hlt => Runs.pure (.stopped hle (.refl hok) (by omega))
    have hm := pieceLen_pos off hlt
    have hstep := pieces_step off hlt
    have hmn : pieceLen n tot off ≤ n - tot := min_le_left _ _
    have hmb : off % bsize + pieceLen n tot off ≤ bsize := by
      have hmod : off % bsize < bsize := Nat.mod_lt _ bsize_pos
      have : pieceLen n tot off ≤ bsize - off % bsize := min_le_right _ _
      omega
    generalize hpiece : pieceLen n tot off = m at hm hstep hmn hmb ⊢
    have hdm := Nat.div_add_mod' off bsize
    have hbn : off / bsize < maxfile := by
      rw [Nat.div_lt_iff_lt_mul bsize_pos]
      omega
    have hpath := hneed (off / bsize) le_rfl (by omega)
    refine Runs.bind_of ((bmap_runs hok ht hF hindF hbn).mono (by omega) fun _ _ h => h) ?_
    rintro addr s1 ⟨⟨G, haddr, hpaid⟩, hext, hroom, hmap⟩
    refine ⟨G, pieces (off + m) (n - (tot + m)) + s1.noIndirect i, ?_, fun s'' h => ?_⟩
    swap
    · have hboth := hpaid.logs.trans h
      rw [zero_add] at hboth
      exact (hpaid.pays _ _ hboth).mono (by omega)
    have hw1 : Writing i need off (off + (n - tot)) s s1 := hext.writing hpath
    refine Runs.ite (fun h0 => Runs.pure (.stopped hle hw1 fun _ => .inr fun h => ?_)) fun h0 => ?_
    · exact hroom h0 need hpath (hw1.room h)
    -- the piece is copied into the block and the block is logged
    have hmap1 := hmap h0
    refine Runs.store rfl rfl (Runs.seq (logWrite_runs haddr) ?_)
    intro _ s2 hs2
    have hview : s2.view = s1.view.setData addr
        (copyInto (s1.img.data addr) src tot (off % bsize) m) := by
      rw [hs2]
      rfl
    have hind2 : s2.view.indirect i = s1.view.indirect i := by
      rw [hview]
      exact congrFun (hmap1 ▸ hext.ok.slot_setData) (.ptr i (Fin.last ndirect))
    have hw2 : Writing i need off (off + m) s1 s2 := by
      have hcopied : copied (fun k => (src k).isSome) tot m ≤ m := copied_le
      have hcopy := Writing.of_copy need (i := i) (o := off % bsize) (m := m)
        (c := copyInto (s1.img.data addr) src tot (off % bsize) m) hext.ok (hmap1 ▸ h0)
        fun p hp => by rw [copyInto, if_neg (by omega), hmap1]
      rw [hdm, hmap1] at hcopy
      rw [hs2]
      exact hcopy
    have hwrote := hw1.trans (hw2.mono le_rfl (by omega))
    refine Runs.ite (fun hall => ?_) fun hall => Runs.pure (.stopped hle hwrote fun _ => ?_)
    · have hcost : s1.noIndirect i = s2.noIndirect i := by rw [noIndirect, noIndirect, hind2]
      rw [hcost]
      refine Runs.imp (ih (tot + m) (off + m) G s2 hwrote.ok (hwrote.grows.typed.mpr ht) ?_ ?_
        (by omega) (by omega) (by omega) ?_) fun r s3 hl => ?_
      · rw [hwrote.frame.sb]
        exact hF.trans hpaid.subset
      · rw [IndirectIn, hind2]
        exact hpaid.indirect
      · intro bn h1 h2
        exact hneed bn ((Nat.div_le_div_right (by omega)).trans h1) (by omega)
      · exact hl.next hlt hpiece hwrote fun p => bytes_of_copy hext.ok hmap1 h0 hview hmb hall
    · obtain ⟨k, hk, hbad⟩ := exists_of_copied_lt (lt_of_le_of_ne copied_le hall)
      exact .inl ⟨tot + k, by omega, by simpa using hbad⟩

/-- The whole loop logs the indirect block at most once. -/
lemma writeiLoop_runs_one {src : ℕ → Option UInt8} {off : ℕ} (need : Finset FileSlot)
    (hok : BlockOk s.view) (ht : s.view.Typed i) (hF : s.img.sb.bitmapBlocks ⊆ F)
    (hmax : off + n ≤ maxfile * bsize)
    (hneed : ∀ bn, off / bsize ≤ bn → bn * bsize < off + n → pathSlots i bn ⊆ need) :
    Runs LogFails F (pieces off n + 1) (writeiLoop i src n n 0 off) s fun r s' =>
      LoopWrote i src n 0 off need r s s' := by
  have hloop : ∀ G : Set Blockno, F ⊆ G → IndirectIn i G s →
      Runs LogFails G (pieces off n + s.noIndirect i) (writeiLoop i src n n 0 off) s fun r s' =>
        LoopWrote i src n 0 off need r s s' := fun G hG hind =>
    writeiLoop_runs need n 0 off G s hok ht (hF.trans hG) hind (Nat.zero_le _) le_rfl hmax hneed
  by_cases h0 : s.view.indirect i = 0
  · have hruns := hloop F subset_rfl fun h => absurd h0 h
    rwa [noIndirect, if_pos h0] at hruns
  · have hruns := hloop _ (Set.subset_insert (s.view.indirect i) F) fun _ => Set.mem_insert _ F
    rw [noIndirect, if_neg h0] at hruns
    exact hruns.of_insert

/-! ### Reading -/

/-- The bytes from `off` on of the file `i`. -/
def fileBytes (g : Image) (i off m : ℕ) : List UInt8 :=
  (List.range m).map fun k => g.fileByte i (off + k)

lemma fileBytes_add {g : Image} {off m' : ℕ} :
    fileBytes g i off (m + m') = fileBytes g i off m ++ fileBytes g i (off + m) m' := by
  simp only [fileBytes, List.range_add, List.map_append, List.map_map]
  congr 1
  refine List.map_congr_left fun k _ => ?_
  rw [Function.comp, add_assoc]

lemma slice_eq_fileBytes {g : Image} {off : ℕ} (h : off % bsize + m ≤ bsize) :
    slice (g.data (g.map i (off / bsize))) (off % bsize) m = fileBytes g i off m := by
  have hdm := Nat.div_add_mod' off bsize
  refine List.ext_getElem ?_ fun k hk hk' => ?_
  · simp only [slice, fileBytes, List.length_take, List.length_drop, List.length_ofFn,
      List.length_map, List.length_range]
    omega
  · have hkm : k < m := by simpa [fileBytes] using hk'
    have hdiv : (off + k) / bsize = off / bsize := by
      rw [Nat.div_eq_iff bsize_pos]
      omega
    have hmod : (off + k) % bsize = off % bsize + k := by
      have := Nat.div_add_mod' (off + k) bsize
      rw [hdiv] at this
      omega
    simp only [slice, fileBytes, List.getElem_take, List.getElem_drop, List.getElem_ofFn,
      List.getElem_map, List.getElem_range, fileByte, hdiv, hmod]

lemma copied_add {ok : ℕ → Bool} {m' : ℕ} : copied ok tot (m + m') =
    if copied ok tot m = m then m + copied ok (tot + m) m' else copied ok tot m := by
  simp only [copied, List.range_add, List.takeWhile_append, List.takeWhile_map,
    List.length_range, Function.comp_def, add_assoc]
  split_ifs with h
  · rw [List.length_append, List.length_range, List.length_map]
  · rfl

lemma addrOrAlloc_eq {k : Fin (ndirect + 1)} (h : (s.ino i).addrs k ≠ 0) :
    runFrom (addrOrAlloc i k) s = (.ok ((s.ino i).addrs k), s) := by
  rw [addrOrAlloc, runFrom_get_bind, if_neg h]
  rfl

lemma bmap_eq {bn : ℕ} (ht : s.view.Typed i) (h : s.view.map i bn ≠ 0) :
    runFrom (bmap i bn) s = (.ok (s.view.map i bn), s) := by
  obtain ⟨x, hx, hxb⟩ := map_ne_zero h
  rw [← hxb] at h ⊢
  rw [blockSlot] at hx
  rw [bmap]
  split_ifs at hx ⊢ with hdir hind
  · cases hx
    have hptr : s.view.slot (.ptr i (Fin.castSucc ⟨bn, hdir⟩)) = (s.ino i).addrs _ :=
      ptr_of_typed ht
    rw [hptr] at h ⊢
    exact addrOrAlloc_eq h
  · cases hx
    have hptr : s.view.indirect i = (s.ino i).addrs (Fin.last ndirect) := ptr_of_typed ht
    have hi : s.view.indirect i ≠ 0 := fun hi => h (if_pos hi)
    have hentry : s.view.slot (.entry i ⟨bn - ndirect, hind⟩) =
        word (s.img.data (s.view.indirect i)) (bn - ndirect) := if_neg hi
    rw [hentry] at h ⊢
    rw [hptr] at h hi ⊢
    rw [runFrom_bind_ok (addrOrAlloc_eq hi), if_neg hi, entryOrAlloc, runFrom_get_bind, if_neg h]
    rfl

/-- What `readi` returns and copies out, for a transfer of `m` bytes of the file. -/
def readResult (g : Image) (i : ℕ) (dst : ℕ → Bool) (off m : ℕ) : ℤ × List UInt8 :=
  (if copied dst 0 m = m then m else -1, fileBytes g i off (copied dst 0 m))

/-- **The loop of `readi`** on blocks that are there, from any point on. -/
lemma readiLoop_eq {dst : ℕ → Bool} (ht : s.view.Typed i) : ∀ (fuel tot off : ℕ)
    (out : List UInt8), tot ≤ n → n - tot ≤ fuel →
    (∀ bn, off / bsize ≤ bn → bn * bsize < off + (n - tot) → s.view.map i bn ≠ 0) →
    runFrom (readiLoop i dst n fuel tot off out) s =
      (.ok (if copied dst tot (n - tot) = n - tot then (n : ℤ) else -1,
        out ++ fileBytes s.view i off (copied dst tot (n - tot))), s) := by
  intro fuel
  induction fuel with
  | zero =>
    intro tot off out hle hfuel _
    have hn : n = tot := by omega
    subst hn
    simp [readiLoop, copied, fileBytes]
    rfl
  | succ fuel ih =>
    intro tot off out hle hfuel hmap
    rw [readiLoop]
    by_cases hlt : tot < n
    swap
    · have hn : n = tot := by omega
      subst hn
      simp [copied, fileBytes]
      rfl
    have hm := pieceLen_pos off hlt
    have hmod : off % bsize < bsize := Nat.mod_lt _ bsize_pos
    have hdm := Nat.div_add_mod' off bsize
    have h0 := hmap (off / bsize) le_rfl (by omega)
    rw [if_pos hlt, runFrom_bind_ok (bmap_eq ht h0), if_neg h0, runFrom_get_bind]
    have hmn : pieceLen n tot off ≤ n - tot := min_le_left _ _
    have hmb : off % bsize + pieceLen n tot off ≤ bsize := by
      have : pieceLen n tot off ≤ bsize - off % bsize := min_le_right _ _
      omega
    generalize pieceLen n tot off = m at hm hmn hmb ⊢
    have hcm : copied dst tot m ≤ m := copied_le
    have hsplit : n - tot = m + (n - (tot + m)) := by omega
    have hslice : slice (s.img.data (s.view.map i (off / bsize))) (off % bsize)
        (copied dst tot m) = fileBytes s.view i off (copied dst tot m) := by
      have hcb : off % bsize + copied dst tot m ≤ bsize := by omega
      exact slice_eq_fileBytes (g := s.view) hcb
    simp only [hslice]
    rw [hsplit, copied_add]
    by_cases hall : copied dst tot m = m
    · rw [if_pos hall, if_pos hall, hall, ih (tot + m) (off + m) _ (by omega) (by omega)]
      · rw [fileBytes_add, List.append_assoc]
        simp only [Nat.add_left_cancel_iff]
      · intro bn h1 h2
        exact hmap bn ((Nat.div_le_div_right (by omega)).trans h1) (by omega)
    · rw [if_neg hall, if_neg hall, if_neg (by omega)]
      rfl

end Fs

end Xv6Riscv
