import Xv6Riscv.Fs.Files

/-!
What `sys_link` and `sys_unlink` do.

For the body of each section: the file system stays well formed, the references and locks the
section took are given back, and the number of blocks it logs is bounded, whatever is on the disk.
If the names are tidy, the effect on the abstract file system is one of a few changes, and none if
the call fails.
-/

namespace Xv6Riscv

open Function (update update_comm update_eq_self update_idem update_of_ne update_self)
open Fs

namespace FileSys

variable {f : FileSys} {i j k : ℕ} {n m : ℤ}

lemma addLinks_of_ne (h : j ≠ i) : f.addLinks i n j = f j := change_of_ne h

lemma addLinks_addLinks : (f.addLinks i n).addLinks i m = f.addLinks i (n + m) := by
  rw [addLinks, change, addLinks, change_self, change, update_idem, Option.map_map]
  simp only [addLinks, change, Function.comp_def, add_assoc]

lemma addLinks_zero : f.addLinks i 0 = f :=
  Function.update_eq_self_iff.mpr (by cases f i <;> simp)

lemma has_addLinks {e : Dirent} : (f.addLinks i n).Has j k e ↔ f.Has j k e :=
  has_change fun _ => ⟨rfl, rfl⟩

variable {x : Node}

lemma write_some (h : f j = some x) (i off : ℕ) (b : List UInt8) :
    ∃ c, f.write i off b j = some { x with content := c } := by
  by_cases hj : j = i
  · subst hj
    rw [write, change_self, h]
    exact ⟨_, rfl⟩
  · rw [write, change_of_ne hj, h]
    exact ⟨_, rfl⟩

lemma addLinks_self (h : f i = some x) :
    f.addLinks i n i = some { x with nlink := x.nlink + n } := by
  rw [addLinks, change_self, h]
  rfl

lemma addLinks_some (h : f j = some x) : ∃ m, f.addLinks i n j = some { x with nlink := m } := by
  by_cases hj : j = i
  · subst hj
    rw [addLinks, change_self, h]
    exact ⟨_, rfl⟩
  · rw [addLinks_of_ne hj, h]
    exact ⟨_, rfl⟩

lemma isSome_change {u : Node → Node} : (f.change i u j).isSome ↔ (f j).isSome := by
  by_cases hj : j = i
  · rw [hj, change_self, Option.isSome_map]
  · rw [change_of_ne hj]

lemma linked_addLinks (hi : f i = some x) (hx : x.type ≠ .dir) :
    (f.addLinks i n).Linked j ↔ f.Linked j := by
  by_cases hj : j = i
  · subst hj
    have hno : ¬ f.Linked j := by
      rintro ⟨y, hy, hdir, -⟩
      rw [hi] at hy
      cases hy
      exact hx hdir
    refine ⟨fun h => ?_, fun h => absurd h hno⟩
    obtain ⟨y, hy, hdir, -⟩ := h
    rw [addLinks, change_self, hi] at hy
    cases hy
    exact absurd hdir hx
  · rw [Linked, Linked, addLinks_of_ne hj]

lemma enter_of_ne {inum : ℕ} {name : List UInt8} (h : j ≠ i) : f.enter i k inum name j = f j :=
  change_of_ne h

end FileSys

namespace Fs

open Wp Image

variable {F : Set Blockno} {s s' : Fs} {sb : Superblock} {L : ℕ → Bool} {R : ℕ → ℤ}
  {i j cwd dp ip : ℕ} {g g' : Image}

/-! ### Common steps -/

lemma relock (h : L i = false) : update (update L i true) i false = L := by
  rw [update_idem, ← h, update_eq_self]

lemma At.back (h : At sb (Function.update (Function.update L i true) i false)
    (R + Pi.single i 1 - Pi.single i 1) s) (hL : L i = false) : At sb L R s := by
  rwa [relock hL, add_sub_cancel_right] at h

lemma locked_both (h : update L i true j = false) : i ≠ j ∧ L j = false ∧
    update (update L i true) j true j = true ∧ update (update L i true) j true i = true := by
  have hne : i ≠ j := by
    rintro rfl
    rw [update_self] at h
    cases h
  rw [update_of_ne hne.symm] at h
  exact ⟨hne, h, update_self .., by rw [update_of_ne hne, update_self]⟩

lemma relock_comm (hi : L i = false) (hne : i ≠ j) :
    update (update (update L i true) j true) i false = update L j true := by
  rw [update_comm hne, relock]
  rwa [update_of_ne hne]

lemma le_add_single (h : 1 ≤ R j) : 1 ≤ (R + Pi.single i 1 : ℕ → ℤ) j := by
  rw [Pi.add_apply, Pi.single_apply]
  split_ifs <;> omega

lemma Dropped.eq (h : Dropped i R g g') (hi : (g.dinode i).nlink ≠ 0 ∨ R i ≠ 1) : g' = g := by
  rcases h with h | ⟨hone, hn, -⟩
  · exact h
  · exact absurd hone (hi.resolve_left (not_not.mpr hn))

lemma files_isSome : (g.files i).isSome ↔ g.Typed i := by
  rw [files]
  split_ifs with h <;> simp [h]

lemma nlink_of_files {n : Node} (h : g.files i = some n) : (g.dinode i).nlink = n.nlink := by
  obtain ⟨-, rfl⟩ := files_eq_some.mp h
  rfl

lemma type_of_files {n : Node} (h : g.files i = some n) : (g.dinode i).type = n.type := by
  obtain ⟨-, rfl⟩ := files_eq_some.mp h
  rfl

lemma addLinks_runs {n : ℤ} (h : At sb L R s) (hi : L i = true) (hiF : sb.iblock i ∈ F) :
    Runs Halts F 0 (addLinks i n) s fun _ s' => At sb L R s' ∧
      s'.img.files = s.img.files.addLinks i n := by
  refine Runs.imp (setInode_at h hi hiF fun d hd => ⟨hd, rfl, rfl⟩) ?_
  rintro _ s1 ⟨h1, himg⟩
  refine ⟨h1, ?_⟩
  have ht := h.typed hi
  have hfiles := files_setDinode (d := { s.img.dinode i with nlink := (s.img.dinode i).nlink + n })
    ht ⟨ht, rfl, rfl⟩
  rw [himg, hfiles, FileSys.addLinks, FileSys.change, files_of_typed ht]
  rfl

/-- The effect of `dirlink` on the file system. -/
inductive Dirlinked (f : FileSys) (dp inum : ℕ) (name : List UInt8) : FileSys → ℤ → Prop
  | failed : Dirlinked f dp inum name f (-1)
  | entered (k : ℕ) : f.Lacks dp name → f.Vacant dp k →
      Dirlinked f dp inum name (f.enter dp k inum name) 0

variable {name : List UInt8} {inum : ℕ}

lemma Dirlinked.cases {f f' : FileSys} {r : ℤ} (h : Dirlinked f dp inum name f' r) :
    r < 0 ∧ f' = f ∨ ¬ r < 0 ∧ f.Lacks dp name ∧
      ∃ k, f.Vacant dp k ∧ f' = f.enter dp k inum name := by
  cases h with
  | failed => exact .inl ⟨by decide, rfl⟩
  | entered k hl hv => exact .inr ⟨by decide, hl, k, hv, rfl⟩

lemma Dirlinked.nlink {r : ℤ} (h : Dirlinked g.files dp inum name g'.files r) (hi : g.Typed i) :
    (g'.dinode i).nlink = (g.dinode i).nlink := by
  rcases h.cases with ⟨-, hf⟩ | ⟨-, -, k, -, hf⟩
  · exact nlink_of_files (hf ▸ files_of_typed hi)
  · obtain ⟨c, hc⟩ := FileSys.write_some (files_of_typed hi) dp (16 * k) (direntBytes inum name)
    rw [← FileSys.enter, ← hf] at hc
    exact nlink_of_files hc

/-- **`dirlink`**, on the file system: it changes nothing if it fails, provided that the inode the
name has already is not given up. -/
lemma dirlink_files (h : At sb L R s) (hdp : L dp = true) (hF : sb.bitmapBlocks ⊆ F)
    (hdpF : sb.iblock dp ∈ F) :
    Runs Halts F 2 (dirlink dp name inum) s fun r s' => At sb L R s' ∧
      (s.img.dinode dp).type = .dir ∧
      ((∀ k e, s.img.files.Has dp k e → namecmp name e.name = 0 → (s.img.dinode e.inum).nlink ≠ 0) →
        Dirlinked s.img.files dp inum name s'.img.files r) := by
  refine Runs.imp (dirlink_runs h hdp hF hdpF) fun r s1 ⟨h1, hdir, hres⟩ => ⟨h1, hdir, fun hn => ?_⟩
  cases hres with
  | present off i hent hdrop =>
    obtain ⟨k, e, -, hhas, rfl, hname⟩ := (hasEntry_iff hdir).mp hent
    rcases hdrop with himg | ⟨-, h0, -⟩
    · rw [himg]
      exact .failed
    · exact absurd h0 (hn k e hhas hname)
  | noRoom _ hsame =>
    rw [files_of_sameFs hsame]
    exact .failed
  | entered off hno hent =>
    obtain ⟨k, hv, hfiles⟩ := hent.files hdir
    rw [hfiles]
    exact .entered k (lacks_files hdir hno) hv

lemma names_files : Names g j i ↔ g.files.Linked j ∧ ∃ k e, g.files.Has j k e ∧ e.inum = i := by
  rw [linked_files]
  constructor
  · rintro ⟨hj, off, name, hent⟩
    obtain ⟨k, e, -, hhas, hnum, -⟩ := (hasEntry_iff hj.1).mp hent
    exact ⟨hj, k, e, hhas, hnum⟩
  · rintro ⟨hj, k, e, hhas, hnum⟩
    exact ⟨hj, 16 * k, e.name,
      (hasEntry_iff hj.1).mpr ⟨k, e, rfl, hhas, hnum, namecmp_eq_zero.mpr rfl⟩⟩

lemma Tidy.has (h : Tidy g) (hj : Linked g j) {k : ℕ} {e : Dirent} (he : g.files.Has j k e) :
    1 ≤ (g.dinode e.inum).nlink :=
  (h.names j e.inum (names_files.mpr ⟨linked_files.mpr hj, k, e, he, rfl⟩)).2

lemma nlink_addLinks {n : ℤ} (h : g'.files = g.files.addLinks i n) (hi : g.Typed i) :
    (g'.dinode i).nlink = (g.dinode i).nlink + n := by
  refine nlink_of_files (n := { g.node i with nlink := (g.dinode i).nlink + n }) ?_
  rw [h, FileSys.addLinks, FileSys.change_self, files_of_typed hi]
  rfl

/-! ### `sys_link` -/

/-- The effect of `sys_link`. -/
inductive Linking (f : FileSys) : FileSys → ℤ → Prop
  | failed : Linking f f (-1)
  | linked (dp k ip : ℕ) (name : List UInt8) (n : Node) : f.Linked dp → f.Lacks dp name →
      f.Vacant dp k → f ip = some n → n.type ≠ .dir → n.nlink < nlinkMax →
      Linking f ((f.addLinks ip 1).enter dp k ip name) 0

lemma linkBad_runs (h : At sb L R s) (hF : sb.bitmapBlocks ⊆ F) (hiF : sb.iblock ip ∈ F) :
    Runs Halts F 0 (linkBad ip) s fun r s' => r = -1 ∧ At sb L (R - Pi.single ip 1) s' ∧
      ((s.img.dinode ip).nlink ≠ 1 → s'.img.files = s.img.files.addLinks ip (-1)) := by
  refine Runs.seq (ilock_runs h) fun _ s1 ⟨h1, hL, himg1⟩ => ?_
  have hlocked : update L ip true ip = true := update_self ..
  refine Runs.seq (addLinks_runs h1 hlocked hiF) fun _ s2 ⟨h2, hf2⟩ => ?_
  refine Runs.seq (iunlockput_drops h2 hF hiF) fun _ s3 ⟨h3, hdrop, _⟩ => Runs.pure ⟨rfl, ?_, ?_⟩
  · rwa [relock hL] at h3
  · intro hn
    have hn2 := nlink_addLinks hf2 (h1.typed hlocked)
    rw [himg1] at hn2 hf2
    rw [hdrop.eq (.inl (by omega)), hf2]

/-- `sys_link` from `nameiparent(new)` on, for an inode with the raised number of links. -/
lemma linkNew_runs {new : Path} (h : At sb L R s) (hcwd : 1 ≤ R cwd) (hip : 1 ≤ R ip)
    (hL : L ip = false) (htip : s.img.Typed ip) (hF : sb.bitmapBlocks ⊆ F)
    (hiF : sb.iblock ip ∈ F) :
    Runs Halts F 3 (linkNew cwd ip new) s fun r s' => At sb L (R - Pi.single ip 1) s' ∧
      (Tidy s.img → 2 ≤ (s.img.dinode ip).nlink →
        r = -1 ∧ s'.img.files = s.img.files.addLinks ip (-1) ∨
        r = 0 ∧ ∃ dp k name, s.img.files.Linked dp ∧ s.img.files.Lacks dp name ∧
          s.img.files.Vacant dp k ∧ s'.img.files = s.img.files.enter dp k ip name) := by
  refine Runs.bind_or ((namex_runs h hcwd hF).mono (by omega) fun _ _ h => h) ?_
  rintro _ s1 (⟨h1, himg⟩ | ⟨dp, name, hl1, h1, himg1, -, hpar⟩)
  · refine .inl (Runs.imp (linkBad_runs h1 hF hiF) ?_)
    rintro r s2 ⟨rfl, h2, hf2⟩
    refine ⟨h2, fun htidy hn => .inl ⟨rfl, ?_⟩⟩
    rw [himg htidy] at hf2
    exact hf2 (by omega)
  refine .inr ⟨hl1, Runs.of_insert (b := sb.iblock dp) ?_⟩
  have hF' : sb.bitmapBlocks ⊆ insert (sb.iblock dp) F := hF.trans (Set.subset_insert _ F)
  have hiF' : sb.iblock ip ∈ insert (sb.iblock dp) F := Set.mem_insert_of_mem _ hiF
  have hdF' : sb.iblock dp ∈ insert (sb.iblock dp) F := Set.mem_insert _ F
  refine Runs.seq (ilock_runs h1) fun _ s2 ⟨h2, hLdp, himg2⟩ => ?_
  have himg2' : s2.img = s.img := himg2.trans himg1
  have hlocked : update L dp true dp = true := update_self ..
  have hlinked : Linked s.img dp := hpar rfl
  refine Runs.read ?_
  rw [h2.inv.ino, himg2', if_neg hlinked.2]
  refine Runs.bind_zero (dirlink_files h2 hlocked hF' hdF') fun r s3 ⟨h3, hdir, hdl⟩ => ?_
  rw [himg2'] at hdl
  have hdl' (htidy : Tidy s.img) : Dirlinked s.img.files dp ip name s3.img.files r :=
    hdl fun k e he _ => by
      have := htidy.has hlinked he
      omega
  have htdp : s.img.Typed dp := himg2' ▸ h2.typed hlocked
  -- the parent is given back, and has links as before
  refine Runs.ite (fun hr => ?_) fun hr => ?_
  · refine Runs.seq (iunlockput_drops h3 hF' hdF') fun _ s4 ⟨h4, hdrop, _⟩ => ?_
    refine Runs.imp (linkBad_runs (h4.back hLdp) hF' hiF') ?_
    rintro r' s5 ⟨rfl, h5, hf5⟩
    refine ⟨h5, fun htidy hn => .inl ⟨rfl, ?_⟩⟩
    have hdl3 := hdl' htidy
    have himg4 : s4.img = s3.img := hdrop.eq (.inl (hdl3.nlink htdp ▸ hlinked.2))
    obtain ⟨-, hf3⟩ := hdl3.cases.resolve_right fun h => h.1 hr
    have hn4 : (s4.img.dinode ip).nlink = (s.img.dinode ip).nlink := by
      rw [himg4]
      exact hdl3.nlink htip
    rw [hf5 (by omega), himg4, hf3]
  · refine Runs.seq (iunlockput_drops h3 hF' hdF') fun _ s4 ⟨h4, hdrop, _⟩ => ?_
    refine Runs.seq (iput_drops (h4.back hLdp) hip (by simp [hL]) hF' hiF')
      fun _ s5 ⟨h5, hdrop5⟩ => ?_
    refine Runs.pure ⟨h5, fun htidy hn => .inr ⟨rfl, ?_⟩⟩
    have hdl3 := hdl' htidy
    have himg4 : s4.img = s3.img := hdrop.eq (.inl (hdl3.nlink htdp ▸ hlinked.2))
    obtain ⟨-, hlacks, k, hv, hf3⟩ := hdl3.cases.resolve_left fun h => hr h.1
    have hn4 : (s4.img.dinode ip).nlink = (s.img.dinode ip).nlink := by
      rw [himg4]
      exact hdl3.nlink htip
    refine ⟨dp, k, name, linked_files.mpr hlinked, hlacks, hv, ?_⟩
    rw [hdrop5.eq (.inl (by omega)), himg4, hf3]

lemma found_keeps (htidy : Tidy g) (hcwd : 1 ≤ R cwd)
    (h : ip = rootino ∨ ip = cwd ∨ ∃ j, Names g j ip) :
    (g.dinode ip).nlink ≠ 0 ∨ (R + Pi.single ip 1 : ℕ → ℤ) ip ≠ 1 := by
  rcases h with rfl | rfl | ⟨j, hj⟩
  · exact .inl htidy.root.2
  · have := add_single_self R ip
    exact .inr (by omega)
  · have := (htidy.names j ip hj).2
    exact .inl (by omega)

lemma Tidy.addLinks (h : Tidy g) (hsb : g'.sb = g.sb) (hf : g'.files = g.files.addLinks i 1)
    (hi : g.Typed i) (hdir : (g.dinode i).type ≠ .dir) : Tidy g' := by
  have hlinked : ∀ j, g'.files.Linked j ↔ g.files.Linked j := by
    intro j
    rw [hf]
    exact FileSys.linked_addLinks (files_of_typed hi) hdir
  have htyped : ∀ j, g'.Typed j ↔ g.Typed j := by
    intro j
    rw [← files_isSome, ← files_isSome, hf, FileSys.addLinks, FileSys.isSome_change]
  have hle : ∀ j, g.Typed j → (g.dinode j).nlink ≤ (g'.dinode j).nlink := by
    intro j hj
    by_cases hji : j = i
    · rw [hji, nlink_addLinks hf hi]
      omega
    · have hj' : g'.files j = some (g.node j) := by
        rw [hf, FileSys.addLinks_of_ne hji, files_of_typed hj]
      exact (nlink_of_files hj').ge
  refine ⟨hsb ▸ h.ninodes, ?_, fun j x hx => ?_, fun j x name off hj hx hd hdd hdir' => ?_,
    fun j hj => ?_⟩
  · exact linked_files.mp ((hlinked rootino).mpr (linked_files.mpr h.root))
  · rw [names_files, hlinked, hf] at hx
    simp only [FileSys.has_addLinks] at hx
    obtain ⟨ht, hn⟩ := h.names j x (names_files.mpr hx)
    exact ⟨(htyped x).mpr ht, hn.trans (hle x ht)⟩
  · have hj0 := linked_files.mp ((hlinked j).mp (linked_files.mpr hj))
    have htj : g.Typed j := by
      rw [Typed, hj0.1]
      decide
    rw [hasEntry_iff hj.1, hf] at hx
    simp only [FileSys.has_addLinks] at hx
    have htype : (g.dinode x).type = .dir := by
      have hxt : g'.Typed x := by
        rw [Typed, hdir']
        decide
      obtain ⟨c, hc⟩ := FileSys.addLinks_some (i := i) (n := 1) (files_of_typed ((htyped x).mp hxt))
      rw [← hf] at hc
      exact (type_of_files hc).symm.trans hdir'
    exact (h.parents j x name off hj0 ((hasEntry_iff hj0.1).mpr hx) hd hdd htype).trans (hle j htj)
  · have ht := (htyped j).mp hj
    exact (h.nonneg j ht).trans (hle j ht)

lemma linkBody_runs {old new : Path} (h : At sb L R s) (hcwd : 1 ≤ R cwd)
    (hF : sb.bitmapBlocks ⊆ F) :
    Runs Halts F 4 (linkBody cwd old new) s fun r s' => At sb L R s' ∧
      (Tidy s.img → (s.img.dinode cwd).type = .dir → Linking s.img.files s'.img.files r) := by
  refine Runs.bind_or ((namei_runs h hcwd hF).mono (by omega) fun _ _ h => h) ?_
  rintro _ s1 (⟨rfl, h1, himg⟩ | ⟨ip, rfl, hl1, h1, himg1, hfound⟩)
  · refine .inl (Runs.pure ⟨h1, fun htidy _ => ?_⟩)
    rw [himg htidy]
    exact .failed
  refine .inr ⟨hl1, ?_⟩
  refine Runs.seq (ilock_runs h1) fun _ s2 ⟨h2, hL, himg2⟩ => ?_
  have himg2' : s2.img = s.img := himg2.trans himg1
  have hlocked : update L ip true ip = true := update_self ..
  -- the ways out before anything is changed
  have hout : Runs Halts F 4 (do iunlockput ip; pure (-1 : ℤ)) s2 fun r s' => At sb L R s' ∧
      (Tidy s.img → (s.img.dinode cwd).type = .dir → Linking s.img.files s'.img.files r) := by
    refine Runs.mono (k := 4) (Runs.bind_zero (iunlockput_cases h2 hF) ?_) (by omega) fun _ _ h => h
    rintro _ s3 ⟨h3, hdrop⟩
    refine Runs.pure ⟨h3.back hL, fun htidy _ => ?_⟩
    rw [hdrop.eq (himg2' ▸ found_keeps htidy hcwd hfound), himg2']
    exact .failed
  refine Runs.read ?_
  rw [h2.inv.ino, himg2']
  refine Runs.ite (fun _ => hout) fun hdir => Runs.ite (fun _ => hout) fun hmax => ?_
  refine Runs.of_insert (b := sb.iblock ip) ?_
  have hF' : sb.bitmapBlocks ⊆ insert (sb.iblock ip) F := hF.trans (Set.subset_insert _ F)
  have hiF' : sb.iblock ip ∈ insert (sb.iblock ip) F := Set.mem_insert _ F
  refine Runs.seq (addLinks_runs h2 hlocked hiF') fun _ s3 ⟨h3, hf3⟩ => ?_
  refine Runs.seq (iunlock_runs h3) fun _ s4 ⟨h4, _, himg4, _⟩ => ?_
  rw [relock hL] at h4
  have hself := add_single_self R ip
  have hnn := h.nonneg ip
  refine Runs.imp (linkNew_runs h4 (le_add_single hcwd) (by omega) hL
    (himg4 ▸ h3.typed hlocked) hF' hiF') ?_
  rintro r s5 ⟨h5, heff⟩
  rw [add_sub_cancel_right] at h5
  refine ⟨h5, fun htidy hcwddir => ?_⟩
  have htip : s.img.Typed ip := himg2' ▸ h2.typed hlocked
  rw [himg2', ← himg4] at hf3
  have hpos : 1 ≤ (s.img.dinode ip).nlink := by
    rcases hfound with rfl | rfl | ⟨j, hj⟩
    · exact absurd htidy.root.1 hdir
    · exact absurd hcwddir hdir
    · exact (htidy.names j ip hj).2
  have hn4 := nlink_addLinks hf3 htip
  have htidy4 : Tidy s4.img := htidy.addLinks (h4.sb.trans h.sb.symm) hf3 htip hdir
  rcases heff htidy4 (by omega) with ⟨rfl, hf5⟩ | ⟨rfl, dp, k, name, hl, hlacks, hv, hf5⟩
  · rw [hf5, hf3, FileSys.addLinks_addLinks, add_neg_cancel, FileSys.addLinks_zero]
    exact .failed
  · rw [hf3] at hl hlacks hv
    rw [FileSys.linked_addLinks (files_of_typed htip) hdir] at hl
    have hne : dp ≠ ip := by
      rintro rfl
      exact hdir (linked_files.mp hl).1
    rw [FileSys.Vacant, FileSys.addLinks_of_ne hne] at hv
    rw [hf5, hf3]
    exact .linked dp k ip name _ hl (fun k e he => hlacks k e (FileSys.has_addLinks.mpr he)) hv
      (files_of_typed htip) hdir (not_le.mp hmax)

/-! ### `sys_unlink` -/

/-- The file system without the entry `k` of `dp`, which named `ip`. A directory also gives up its
link to the parent. -/
def unlinked (f : FileSys) (dp k ip : ℕ) (n : Node) : FileSys :=
  (if n.type = .dir then (f.clear dp k).addLinks dp (-1) else f.clear dp k).addLinks ip (-1)

/-- The entry is cleared, and the inode it named is freed if that was its last link and nobody
refers to it. -/
def Removed (R : ℕ → ℤ) (f : FileSys) (dp k ip : ℕ) (n : Node) (f' : FileSys) : Prop :=
  f' = unlinked f dp k ip n ∨ n.nlink = 1 ∧ R ip = 0 ∧ f' = update (unlinked f dp k ip n) ip none

/-- The effect of `sys_unlink`, for the references `R`: an entry that is not "." or ".." goes. -/
inductive Unlinking (R : ℕ → ℤ) (f : FileSys) : FileSys → ℤ → Prop
  | failed : Unlinking R f f (-1)
  | removed (dp k : ℕ) (e : Dirent) (n : Node) (f' : FileSys) : f.Linked dp → f.Has dp k e →
      namecmp e.name dot ≠ 0 → namecmp e.name dotdot ≠ 0 → f e.inum = some n →
      (n.type = .dir → ∀ k e', f.Has e.inum k e' → k < 2) → Removed R f dp k e.inum n f' →
      Unlinking R f f' 0

lemma clear_of_ne {f : FileSys} {k : ℕ} (h : j ≠ i) : f.clear i k j = f j := FileSys.change_of_ne h

/-- `sys_unlink` when the entry has been cleared and the links of the parent adjusted. -/
lemma unlinkEnd_runs {f : FileSys} {k : ℕ} {n : Node}
    (h : At sb (update (update L dp true) ip true) (R + Pi.single dp 1 + Pi.single ip 1) s)
    (hLdp : L dp = false) (hLip : L ip = false) (hne : dp ≠ ip) (hF : sb.bitmapBlocks ⊆ F)
    (hdF : sb.iblock dp ∈ F) (hiF : sb.iblock ip ∈ F) (hip : f ip = some n)
    (hf : s.img.files = if n.type = .dir then (f.clear dp k).addLinks dp (-1) else f.clear dp k) :
    Runs Halts F 0 (do iunlockput dp; addLinks ip (-1); iunlockput ip; pure (0 : ℤ)) s
      fun r s' => r = 0 ∧ At sb L R s' ∧
        ((s.img.dinode dp).nlink ≠ 0 → Removed R f dp k ip n s'.img.files) := by
  refine Runs.seq (iunlockput_drops h hF hdF) fun _ s1 ⟨h1, hdrop1, _⟩ => ?_
  rw [relock_comm hLdp hne, add_sub_right_comm, add_sub_cancel_right] at h1
  refine Runs.seq (addLinks_runs h1 (update_self ..) hiF) fun _ s2 ⟨h2, hf2⟩ => ?_
  refine Runs.seq (iunlockput_drops h2 hF hiF) fun _ s3 ⟨h3, hdrop3, _⟩ => ?_
  refine Runs.pure ⟨rfl, h3.back hLip, fun hdp => ?_⟩
  rw [hdrop1.eq (.inl hdp), hf] at hf2
  have hsame : (if n.type = .dir then (f.clear dp k).addLinks dp (-1) else f.clear dp k) ip =
      some n := by
    split_ifs
    · rw [FileSys.addLinks_of_ne hne.symm, clear_of_ne hne.symm, hip]
    · rw [clear_of_ne hne.symm, hip]
  rcases hdrop3 with himg | ⟨hone, hzero, hrec⟩
  · exact .inl (himg ▸ hf2)
  · have hn2 : (s2.img.dinode ip).nlink = n.nlink + -1 :=
      nlink_of_files (hf2 ▸ FileSys.addLinks_self hsame)
    have hR := add_single_self R ip
    refine .inr ⟨by omega, by omega, ?_⟩
    rw [hrec.files, hf2]
    rfl

lemma unlinkEntry_runs {off : UInt32}
    (h : At sb (update (update L dp true) ip true) (R + Pi.single dp 1 + Pi.single ip 1) s)
    (hLdp : L dp = false) (hLip : update L dp true ip = false) (hF : sb.bitmapBlocks ⊆ F)
    (hdF : sb.iblock dp ∈ F) (hiF : sb.iblock ip ∈ F) (hent : HasEntry s.img dp name off.toNat ip)
    (hlinked : Linked s.img dp) :
    Runs Halts F 2 (unlinkEntry dp ip off) s fun r s' => r = 0 ∧ At sb L R s' ∧
      (Tidy s.img → namecmp name dot ≠ 0 → namecmp name dotdot ≠ 0 →
        Removed R s.img.files dp (off.toNat / 16) ip (s.img.node ip) s'.img.files) := by
  obtain ⟨hne, hLip, hlip, hldp⟩ := locked_both hLip
  have htip := h.typed hlip
  have htdp := h.typed hldp
  have hmod : off.toNat % 16 = 0 := hent.1
  have hw : Runs Halts F _ (writei dp (fun _ => some 0) off 16) s _ :=
    (writei_runs h hldp hF hdF).halts
  have h16 : (16 : UInt32).toNat = 16 := rfl
  rw [h16, pieces_entry hmod] at hw
  refine Runs.bind_zero hw ?_
  rintro w s1 ⟨h1, ⟨-, rfl, rfl⟩ | ⟨-, tot, rfl, hwrote⟩⟩
  · rw [if_pos (by decide)]
    exact halt_runs (by simp)
  refine Runs.ite (fun _ => halt_runs (by simp)) fun hall => ?_
  obtain rfl : tot = 16 := by
    have := not_not.mp hall
    omega
  have hclear : s1.img.files = s.img.files.clear dp (off.toNat / 16) := by
    have hin := hent.2.1
    have hfiles := hwrote.files (b := List.replicate 16 0) htdp (by omega) (by simp) fun k hk => by
      rw [List.getElem?_replicate, if_pos hk]
    rw [hfiles, FileSys.clear, Nat.mul_div_cancel' (Nat.dvd_of_mod_eq_zero hmod)]
  have htype : (s1.img.dinode ip).type = (s.img.node ip).type := by
    rw [hwrote.other ip hne.symm, node]
  have hn1 : (s1.img.dinode dp).nlink = (s.img.dinode dp).nlink := by
    obtain ⟨z, a, hd⟩ := hwrote.fields
    rw [hd]
  refine Runs.read ?_
  rw [h1.inv.ino, htype]
  refine Runs.ite (fun hdir => ?_) fun hdir => ?_
  · refine Runs.seq (addLinks_runs h1 hldp hdF) fun _ s2 hs2 => ?_
    obtain ⟨h2, hf2⟩ := hs2
    refine Runs.imp (unlinkEnd_runs h2 hLdp hLip hne hF hdF hiF (files_of_typed htip)
      (by rw [hf2, hclear, if_pos hdir])) ?_
    rintro r s3 ⟨rfl, h3, hrem⟩
    refine ⟨rfl, h3, fun htidy hd hdd => hrem ?_⟩
    -- the parent of a directory has another link
    have htwo := htidy.parents dp ip name _ hlinked hent hd hdd hdir
    have hn2 := nlink_addLinks hf2 (hwrote.typed htdp)
    omega
  · refine Runs.imp (unlinkEnd_runs h1 hLdp hLip hne hF hdF hiF (files_of_typed htip)
      (by rw [hclear, if_neg hdir])) ?_
    rintro r s3 ⟨rfl, h3, hrem⟩
    exact ⟨rfl, h3, fun _ _ _ => hrem (hn1 ▸ hlinked.2)⟩

/-- The ways a call may stop, "unlink: nlink < 1" only if `T` fails. -/
def HaltsUnless (T : Prop) (e : FsPanic) (s : Fs) : Prop := Halts e s ∨ ¬ T ∧ e = .unlinkNlink

lemma Runs.unless {α : Type} {m : FsM α} {Q : α → Fs → Prop} {T : Prop} {k : ℕ}
    (h : Runs Halts F k m s Q) : Runs (HaltsUnless T) F k m s Q :=
  h.stops fun _ _ h => .inl h

/-- The entry `dirlookup` has found, in the file system. -/
lemma Unlinking.of_entry {off : ℕ} {f' : FileSys} (hlinked : Linked g dp)
    (hent : HasEntry g dp name off ip) (hd : namecmp name dot ≠ 0) (hdd : namecmp name dotdot ≠ 0)
    (hip : g.Typed ip) (hempty : (g.dinode ip).type = .dir → ∀ off, off % 16 = 0 → 32 ≤ off →
      off + 16 ≤ (g.dinode ip).size.toNat → (entryAt g ip off).inum = 0)
    (h : Removed R g.files dp (off / 16) ip (g.node ip) f') : Unlinking R g.files f' 0 := by
  obtain ⟨k, e, rfl, hhas, rfl, hname⟩ := (hasEntry_iff hlinked.1).mp hent
  rw [Nat.mul_div_cancel_left k (by decide)] at h
  rw [Ne, namecmp_eq_zero, namecmp_eq_zero.mp hname, ← namecmp_eq_zero] at hd hdd
  refine .removed dp k e _ f' (linked_files.mpr hlinked) hhas hd hdd (files_of_typed hip)
    (fun hdir k' e' he' => ?_) h
  obtain ⟨n, hn, -, hlen, rfl, h0⟩ := he'
  obtain ⟨-, rfl⟩ := files_eq_some.mp hn
  rw [length_content] at hlen
  by_contra hge
  refine h0 ?_
  rw [← entryAt_eq hlen]
  exact hempty hdir (16 * k') (by omega) (by omega) hlen

/-- **`sys_unlink`**. -/
lemma unlinkBody_runs {path : Path} (h : At sb L R s) (hcwd : 1 ≤ R cwd)
    (hF : sb.bitmapBlocks ⊆ F) :
    Runs (HaltsUnless (Tidy s.img)) F 4 (unlinkBody cwd path) s fun r s' => At sb L R s' ∧
      (Tidy s.img → Unlinking R s.img.files s'.img.files r) := by
  refine Runs.bind_or ((namex_runs h hcwd hF).mono (by omega) fun _ _ h => h).unless ?_
  rintro _ s1 (⟨h1, himg⟩ | ⟨dp, name, hl1, h1, himg1, -, hpar⟩)
  · refine .inl (Runs.pure ⟨h1, fun htidy => ?_⟩)
    rw [himg htidy]
    exact .failed
  refine .inr ⟨hl1, Runs.of_insert (b := sb.iblock dp) ?_⟩
  have hF1 : sb.bitmapBlocks ⊆ insert (sb.iblock dp) F := hF.trans (Set.subset_insert _ F)
  have hdF1 : sb.iblock dp ∈ insert (sb.iblock dp) F := Set.mem_insert _ F
  refine Runs.seq (ilock_runs h1).unless fun _ s2 ⟨h2, hLdp, himg2⟩ => ?_
  have himg2' : s2.img = s.img := himg2.trans himg1
  have hlinked : Linked s.img dp := hpar rfl
  -- the label `bad`
  have hbad : ∀ {s3 : Fs}, s3.img = s.img → At sb (update L dp true) (R + Pi.single dp 1) s3 →
      Runs Halts (insert (sb.iblock dp) F) 3 (do iunlockput dp; pure (-1 : ℤ)) s3
        fun r s' => At sb L R s' ∧ (Tidy s.img → Unlinking R s.img.files s'.img.files r) := by
    intro s3 himg3 h3
    refine Runs.seq (iunlockput_keeps h3 hF1 (.inl (himg3 ▸ hlinked.2))) fun _ s4 ⟨h4, himg4⟩ => ?_
    refine Runs.pure ⟨h4.back hLdp, fun _ => ?_⟩
    rw [himg4, himg3]
    exact .failed
  refine Runs.ite (fun _ => (hbad himg2' h2).unless) fun hdots => ?_
  rw [not_or] at hdots
  refine Runs.seq (dirlookup_runs h2 (update_self ..)).unless ?_
  rintro r s3 ⟨himg3, -, ⟨rfl, rfl, -⟩ | ⟨ip, off, rfl, h3, hent⟩⟩
  · exact (hbad himg2' h2).unless
  rw [himg2'] at hent himg3
  refine Runs.seq (ilock_runs h3).unless fun _ s4 ⟨h4, hLip, himg4⟩ => ?_
  have himg4' : s4.img = s.img := himg4.trans himg3
  have hlip : update (update L dp true) ip true ip = true :=
    update_self ..
  have htip : s.img.Typed ip := himg4' ▸ h4.typed hlip
  have hnames : Names s.img dp ip := ⟨hlinked, off.toNat, name, hent⟩
  refine Runs.of_insert (b := sb.iblock ip) ?_
  have hF2 := hF1.trans (Set.subset_insert (sb.iblock ip) _)
  have hdF2 := Set.mem_insert_of_mem (sb.iblock ip) hdF1
  have hiF2 := Set.mem_insert (sb.iblock ip) (insert (sb.iblock dp) F)
  have hentry : ((s.img.dinode ip).type = .dir → ∀ off, off % 16 = 0 → 32 ≤ off →
      off + 16 ≤ (s.img.dinode ip).size.toNat → (entryAt s.img ip off).inum = 0) →
      Runs Halts (insert (sb.iblock ip) (insert (sb.iblock dp) F)) 2 (unlinkEntry dp ip off) s4
        fun r s' => At sb L R s' ∧ (Tidy s.img → Unlinking R s.img.files s'.img.files r) := by
    intro hempty
    refine Runs.imp (unlinkEntry_runs h4 hLdp hLip hF2 hdF2 hiF2 (himg4' ▸ hent)
      (himg4' ▸ hlinked)) ?_
    rintro r s5 ⟨rfl, h5, hrem⟩
    rw [himg4'] at hrem
    exact ⟨h5, fun htidy => .of_entry hlinked hent hdots.1 hdots.2 htip hempty
      (hrem htidy hdots.1 hdots.2)⟩
  refine Runs.read ?_
  rw [h4.inv.ino, himg4']
  refine Runs.ite (fun hlt => Runs.throw (.inr ⟨fun htidy => ?_, rfl⟩)) fun _ => ?_
  · have := (htidy.names dp ip hnames).2
    omega
  refine Runs.ite (fun hdir => ?_) fun hdir => (hentry fun h => absurd h hdir).unless
  refine Runs.seq (isdirempty_runs h4 hlip).unless ?_
  rintro empty s5 ⟨rfl, hempty⟩
  rw [himg4'] at hempty
  refine Runs.ite (fun hyes => (hentry fun _ => hempty hyes).unless) fun _ => ?_
  refine Runs.unless (Runs.seq (iunlockput_drops h4 hF2 hiF2) fun _ s6 ⟨h6, hdrop, _⟩ => ?_)
  refine Runs.seq (iunlockput_drops (h6.back hLip) hF2 hdF2) fun _ s7 ⟨h7, hdrop', _⟩ => ?_
  refine Runs.pure ⟨h7.back hLdp, fun htidy => ?_⟩
  have hpos := (htidy.names dp ip hnames).2
  have himg6 : s6.img = s.img := by
    rw [hdrop.eq (.inl (by rw [himg4']; omega)), himg4']
  rw [hdrop'.eq (.inl (himg6 ▸ hlinked.2)), himg6]
  exact .failed

end Fs

end Xv6Riscv
