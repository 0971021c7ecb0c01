import Xv6Riscv.Fs.Links

/-!
What `create` and the calls around it do.

As for `sys_link`: the state stays well formed and the number of logged blocks is bounded, whatever
is on the disk; if the names are tidy and every referenced inode is allocated, the effect on the
abstract file system is exact.
-/

namespace Xv6Riscv

open Function (update update_eq_self update_idem update_of_ne update_self)
open Fs

namespace FileSys

variable {f f' : FileSys} {i j k : ℕ}

/-- The file system with the inode `i` replaced. -/
def put (f : FileSys) (i : ℕ) (n : Node) : FileSys := update f i (some n)

variable {n : Node}

lemma put_self : f.put i n i = some n := update_self ..

lemma put_of_ne (h : j ≠ i) : f.put i n j = f j := update_of_ne h ..

lemma has_congr {e : Dirent} (h : f' j = f j) : f'.Has j k e ↔ f.Has j k e := by rw [Has, Has, h]

lemma vacant_congr (h : f' j = f j) : f'.Vacant j k ↔ f.Vacant j k := by rw [Vacant, Vacant, h]

lemma Vacant.eq_zero (h : f.Vacant j k) (hn : f j = some n) (hc : n.content = []) : k = 0 := by
  obtain ⟨n', hn', -, hk⟩ := h
  rw [hn] at hn'
  cases hn'
  rw [hc, List.length_nil] at hk
  omega

lemma Vacant.eq_one {inum : ℕ} {name : List UInt8} (hv : f.Vacant j 0)
    (h : (f.enter j 0 inum name).Vacant j k) (hn : f j = some n) (hc : n.content = [])
    (hlt : inum < 65536) (h0 : inum ≠ 0) : k = 1 := by
  have hhas := (has_enter (j := j) (e := ⟨inum, paddedName name⟩) hv hlt h0).mpr
    (.inl ⟨rfl, rfl, rfl⟩)
  have hk : k ≠ 0 := by
    rintro rfl
    exact h.not_has hhas
  obtain ⟨n', hn', -, hplace⟩ := h
  rw [enter, write, change_self, hn, Option.map_some, Option.some.injEq] at hn'
  have hlen : n'.content.length = 16 := by
    rw [← hn', hc]
    simp [splice, length_direntBytes]
  omega

end FileSys

namespace Fs

open Wp Image

variable {F : Set Blockno} {s s' : Fs} {sb : Superblock} {L : ℕ → Bool} {R : ℕ → ℤ}
  {i j cwd dp ip : ℕ} {g g' : Image}

lemma cname_dotdot_ne : cname dotdot ≠ cname dot := by decide

lemma createDots_runs (h : At sb L R s) (hip : L ip = true) (hF : sb.bitmapBlocks ⊆ F)
    (hiF : sb.iblock ip ∈ F) :
    Runs Halts F 4 (createDots dp ip) s fun r s' => At sb L R s' ∧
      ((s.img.node ip).content = [] → ip ≠ 0 → ip < 65536 →
        r = true ∧ s'.img.files = (s.img.files.enter ip 0 ip dot).enter ip 1 dp dotdot ∨
        r = false ∧ ∀ j, j ≠ ip → s'.img.files j = s.img.files j) := by
  have hfip := files_of_typed (h.typed hip)
  refine Runs.bind (q := 2) (dirlink_files h hip hF hiF) fun r1 s1 ⟨h1, hdir, hdl1⟩ => ?_
  have hnone : (s.img.node ip).content = [] → ∀ k e, ¬ s.img.files.Has ip k e := by
    rintro hc k e ⟨n, hn, -, hlen, -⟩
    rw [hfip] at hn
    cases hn
    rw [hc, List.length_nil] at hlen
    omega
  refine Runs.ite (fun hr => Runs.pure ⟨h1, fun hc _ _ => .inr ⟨rfl, fun j _ => ?_⟩⟩) fun hr => ?_
  · have hcases := (hdl1 fun k e he => absurd he (hnone hc k e)).cases
    rw [(hcases.resolve_right fun h => h.1 hr).2]
  refine Runs.bind_zero (dirlink_files h1 hip hF hiF) fun r2 s2 ⟨h2, _, hdl2⟩ => ?_
  refine Runs.pure ⟨h2, fun hc h0 hlt => ?_⟩
  have hcases := (hdl1 fun k e he => absurd he (hnone hc k e)).cases
  obtain ⟨-, -, k1, hv1, hf1⟩ := hcases.resolve_left fun h => hr h.1
  obtain rfl := hv1.eq_zero hfip hc
  -- the only entry so far is "."
  have hent : ∀ k e, s1.img.files.Has ip k e → namecmp dotdot e.name ≠ 0 := by
    intro k e he hname
    rw [hf1, FileSys.has_enter hv1 hlt h0] at he
    rcases he with ⟨-, -, rfl⟩ | he
    · rw [namecmp_eq_zero, cname_paddedName] at hname
      exact cname_dotdot_ne hname
    · exact hnone hc k e he
  rcases (hdl2 fun k e he hname => absurd hname (hent k e he)).cases with
    ⟨hneg, hf2⟩ | ⟨hpos, -, k2, hv2, hf2⟩
  · refine .inr ⟨decide_eq_false (not_not.mpr hneg), fun j hj => ?_⟩
    rw [hf2, hf1, FileSys.enter_of_ne hj]
  · rw [hf1] at hv2 hf2
    obtain rfl := hv1.eq_one hv2 hfip hc hlt h0
    exact .inl ⟨decide_eq_true hpos, hf2⟩

/-- The new inode `n`; a directory has its entries "." and "..". -/
def withDots (f : FileSys) (dp ip : ℕ) (n : Node) : FileSys :=
  if n.type = .dir then ((f.put ip n).enter ip 0 ip dot).enter ip 1 dp dotdot else f.put ip n

/-- The new inode with its entry in the directory `dp`. A directory is a link to the parent. -/
def made (f : FileSys) (dp k ip : ℕ) (name : List UInt8) (n : Node) : FileSys :=
  if n.type = .dir then ((withDots f dp ip n).enter dp k ip name).addLinks dp 1
  else (withDots f dp ip n).enter dp k ip name

lemma withDots_of_ne {f : FileSys} {n : Node} (h : j ≠ ip) : withDots f dp ip n j = f j := by
  rw [withDots]
  split_ifs
  · rw [FileSys.enter_of_ne h, FileSys.enter_of_ne h, FileSys.put_of_ne h]
  · rw [FileSys.put_of_ne h]

/-- The effect of `create` when it makes the inode `ip`. -/
structure Making (f : FileSys) (n : Node) (ip : ℕ) (f' : FileSys) : Prop where
  pos : ip ≠ 0
  lt : ip < 65536
  free : f ip = none
  entry : ∃ dp k name, f.Linked dp ∧ f.Lacks dp name ∧ f.Vacant dp k ∧
    (n.type = .dir → ∃ d, f dp = some d ∧ d.nlink < nlinkMax) ∧ f' = made f dp k ip name n

variable {type : InodeType} {name : List UInt8}

/-- What the entries `create` writes are for, on the file system: `f` has the new inode already. -/
lemma createEntries_runs (h : At sb L R s) (hip : L ip = true) (hdp : L dp = true) (hne : dp ≠ ip)
    (hF : sb.bitmapBlocks ⊆ F) (hiF : sb.iblock ip ∈ F) (hdF : sb.iblock dp ∈ F) :
    Runs Halts F 6 (createEntries type dp ip name) s fun r s' => At sb L R s' ∧
      ((s.img.node ip).content = [] → ip ≠ 0 → ip < 65536 → s.img.files.Lacks dp name →
        r = true ∧ (∃ k, s.img.files.Vacant dp k ∧ s'.img.files =
          (if type = .dir then (s.img.files.enter ip 0 ip dot).enter ip 1 dp dotdot
            else s.img.files).enter dp k ip name) ∨
        r = false ∧ ∀ j, j ≠ ip → s'.img.files j = s.img.files j) := by
  -- the entry in the parent comes last
  have hlast : ∀ {s1 : Fs}, At sb L R s1 →
      Runs Halts F 2 (do let r ← dirlink dp name ip; pure (decide (¬ r < 0))) s1 fun r s' =>
        At sb L R s' ∧ (s1.img.files.Lacks dp name → r = true ∧ (∃ k, s1.img.files.Vacant dp k ∧
            s'.img.files = s1.img.files.enter dp k ip name) ∨
          r = false ∧ s'.img.files = s1.img.files) := by
    intro s1 h1
    refine Runs.bind_zero (dirlink_files h1 hdp hF hdF) fun r s2 ⟨h2, _, hdl⟩ => ?_
    refine Runs.pure ⟨h2, fun hlacks => ?_⟩
    rcases (hdl fun k e he hname => absurd hname (hlacks k e he)).cases with
      ⟨hneg, hf2⟩ | ⟨hpos, -, k, hv, hf2⟩
    · exact .inr ⟨decide_eq_false (not_not.mpr hneg), hf2⟩
    · exact .inl ⟨decide_eq_true hpos, k, hv, hf2⟩
  by_cases hdir : type = .dir
  · subst hdir
    refine Runs.bind (p := 4) (q := 2) (createDots_runs h hip hF hiF) fun ok s1 ⟨h1, hdots⟩ => ?_
    refine Runs.ite (fun hok => ?_) fun hok => Runs.pure ⟨h1, fun hc h0 hlt _ => .inr ⟨rfl, ?_⟩⟩
    · refine Runs.imp (hlast h1) fun r s2 ⟨h2, hres⟩ => ⟨h2, fun hc h0 hlt hlacks => ?_⟩
      obtain ⟨-, hf1⟩ := (hdots hc h0 hlt).resolve_right fun h => by
        rw [h.1] at hok
        cases hok
      have hsame : ∀ j, j ≠ ip → s1.img.files j = s.img.files j := fun j hj => by
        rw [hf1, FileSys.enter_of_ne hj, FileSys.enter_of_ne hj]
      rcases hres fun k e he => hlacks k e ((FileSys.has_congr (hsame dp hne)).mp he) with
        ⟨rfl, k, hv, hf2⟩ | ⟨rfl, hf2⟩
      · refine .inl ⟨rfl, k, (FileSys.vacant_congr (hsame dp hne)).mp hv, ?_⟩
        rw [hf2, hf1, if_pos rfl]
      · exact .inr ⟨rfl, fun j hj => hf2 ▸ hsame j hj⟩
    · exact ((hdots hc h0 hlt).resolve_left fun h => hok h.1).2
  · rw [createEntries, if_neg hdir]
    refine Runs.mono (k := 6) (hlast h) (by omega) fun r s1 ⟨h1, hres⟩ =>
      ⟨h1, fun _ _ _ hlacks => ?_⟩
    rcases hres hlacks with ⟨rfl, k, hv, hf1⟩ | ⟨rfl, hf1⟩
    · exact .inl ⟨rfl, k, hv, by rw [hf1, if_neg hdir]⟩
    · exact .inr ⟨rfl, fun j _ => by rw [hf1]⟩

/-- A new inode `ip`, to be entered into the directory `dp`. -/
structure Fresh (R : ℕ → ℤ) (g : Image) (dp ip : ℕ) (type : InodeType) (name : List UInt8) :
    Prop where
  pos : ip ≠ 0
  lt : ip < 65536
  new : g.files ip = some ⟨type, 0, 0, 0, []⟩
  linked : Linked g dp
  links : 1 ≤ (g.dinode dp).nlink
  lacks : g.files.Lacks dp name
  unreferenced : R ip = 0

lemma setInode_files {u : Dinode → Dinode} (h : At sb L R s) (hi : L i = true)
    (hiF : sb.iblock i ∈ F)
    (hu : ∀ d, (u d).type = d.type ∧ (u d).size = d.size ∧ (u d).addrs = d.addrs) :
    Runs Halts F 0 (setInode i u) s fun _ s' => At sb L R s' ∧
      s'.img.files = s.img.files.put i ⟨(s.img.dinode i).type, (u (s.img.dinode i)).major,
        (u (s.img.dinode i)).minor, (u (s.img.dinode i)).nlink, (s.img.node i).content⟩ := by
  refine Runs.imp (setInode_at h hi hiF fun d hd => ⟨by rwa [(hu d).1], (hu d).2⟩) ?_
  rintro _ s1 ⟨h1, himg⟩
  have ht := h.typed hi
  refine ⟨h1, ?_⟩
  rw [himg, files_setDinode ht ⟨by rwa [(hu _).1], (hu _).2⟩, (hu _).1]
  rfl

lemma createFail_runs
    (h : At sb (update (update L dp true) ip true) (R + Pi.single dp 1 + Pi.single ip 1) s)
    (hLdp : L dp = false) (hLip : L ip = false) (hne : dp ≠ ip) (hF : sb.bitmapBlocks ⊆ F)
    (hdF : sb.iblock dp ∈ F) (hiF : sb.iblock ip ∈ F) :
    Runs Halts F 0 (do
        setInode ip fun d => { d with nlink := 0 }
        iunlockput ip
        iunlockput dp
        pure (none : Option ℕ)) s fun r s' => r = none ∧ At sb L R s' ∧
      (R ip = 0 → (s.img.dinode dp).nlink ≠ 0 → s'.img.files = update s.img.files ip none) := by
  have hlip : update (update L dp true) ip true ip = true :=
    update_self ..
  have htdp : s.img.Typed dp := h.typed (by rw [update_of_ne hne, update_self])
  refine Runs.seq (setInode_files h hlip hiF fun d => ⟨rfl, rfl, rfl⟩) fun _ s1 ⟨h1, hf1⟩ => ?_
  refine Runs.seq (iunlockput_drops h1 hF hiF) fun _ s2 ⟨h2, _, hrec⟩ => ?_
  have hback : update (update (update L dp true) ip true) ip false =
      update L dp true := relock (by rwa [update_of_ne hne.symm])
  rw [hback, add_sub_cancel_right] at h2
  refine Runs.seq (iunlockput_drops h2 hF hdF) fun _ s3 ⟨h3, hdrop, _⟩ => ?_
  refine Runs.pure ⟨rfl, h3.back hLdp, fun hR hn => ?_⟩
  have hone : (R + Pi.single dp 1 + Pi.single ip 1 : ℕ → ℤ) ip = 1 := by simp [hR, hne.symm]
  have hzero : (s1.img.dinode ip).nlink = 0 := nlink_of_files (hf1 ▸ FileSys.put_self)
  have hf2 : s2.img.files = update s.img.files ip none := by
    rw [(hrec hone hzero).files, hf1, FileSys.put, update_idem]
  have hn2 : (s2.img.dinode dp).nlink = (s.img.dinode dp).nlink := by
    refine nlink_of_files (n := s.img.node dp) ?_
    rw [hf2, update_of_ne hne, files_of_typed htdp]
  rw [hdrop.eq (.inl (hn2 ▸ hn)), hf2]

variable {major minor : ℤ}

lemma Fresh.put (h : Fresh R g dp ip type name) (hne : dp ≠ ip)
    (hf : g'.files = g.files.put ip ⟨(g.dinode ip).type, major, minor, 1, (g.node ip).content⟩) :
    g'.files = g.files.put ip ⟨type, major, minor, 1, []⟩ ∧ (g'.node ip).content = [] ∧
      g'.files.Lacks dp name := by
  obtain ⟨-, hnode⟩ := files_eq_some.mp h.new
  have htype : (g.dinode ip).type = type := congrArg Node.type hnode
  have hcont : (g.node ip).content = [] := congrArg Node.content hnode
  rw [htype, hcont] at hf
  have hdp : g'.files dp = g.files dp := by rw [hf, FileSys.put_of_ne hne]
  obtain ⟨-, hnode'⟩ := files_eq_some.mp (hf ▸ FileSys.put_self : g'.files ip = _)
  exact ⟨hf, congrArg Node.content hnode',
    fun k e he => h.lacks k e ((FileSys.has_congr hdp).mp he)⟩

lemma createEnd_runs
    (h : At sb (update (update L dp true) ip true) (R + Pi.single dp 1 + Pi.single ip 1) s)
    (hLdp : L dp = false) (hne : dp ≠ ip) (hF : sb.bitmapBlocks ⊆ F) (hdF : sb.iblock dp ∈ F) :
    Runs Halts F 0 (do iunlockput dp; pure (some ip)) s fun r s' => r = some ip ∧
      At sb (update L ip true) (R + Pi.single ip 1) s' ∧
        ((s.img.dinode dp).nlink ≠ 0 → s'.img = s.img) := by
  refine Runs.seq (iunlockput_drops h hF hdF) fun _ s1 ⟨h1, hdrop, _⟩ => ?_
  rw [relock_comm hLdp hne, add_sub_right_comm, add_sub_cancel_right] at h1
  exact Runs.pure ⟨rfl, h1, fun hn => hdrop.eq (.inl hn)⟩

lemma createNew_runs (h : At sb (update L dp true) (R + Pi.single dp 1 + Pi.single ip 1) s)
    (hLdp : L dp = false) (hF : sb.bitmapBlocks ⊆ F) (hdF : sb.iblock dp ∈ F)
    (hiF : sb.iblock ip ∈ F) :
    Runs Halts F 6 (createNew type major minor dp ip name) s fun r s' =>
      r = none ∧ At sb L R s' ∧ (Fresh R s.img dp ip type name →
        s'.img.files = update s.img.files ip none) ∨
      r = some ip ∧ At sb (update L ip true) (R + Pi.single ip 1) s' ∧ L ip = false ∧
        (Fresh R s.img dp ip type name → ∃ k, s.img.files.Vacant dp k ∧
          s'.img.files = made s.img.files dp k ip name ⟨type, major, minor, 1, []⟩) := by
  refine Runs.seq (ilock_runs h) fun _ s1 hs1 => ?_
  obtain ⟨h1, hLip, himg1⟩ := hs1
  obtain ⟨hne, hLip, hlip, hldp⟩ := locked_both hLip
  have htdp : s.img.Typed dp := himg1 ▸ h1.typed hldp
  refine Runs.seq (setInode_files h1 hlip hiF fun d => ⟨rfl, rfl, rfl⟩) fun _ s2 hs2 => ?_
  obtain ⟨h2, hf2⟩ := hs2
  rw [himg1] at hf2
  refine Runs.bind_zero (createEntries_runs h2 hlip hldp hne hF hiF hdF) ?_
  rintro ok s3 ⟨h3, hent⟩
  refine Runs.ite (fun hok => ?_) fun hok => ?_
  · have hmade (hfr : Fresh R s.img dp ip type name) : ∃ k, s.img.files.Vacant dp k ∧
        s3.img.files = (withDots s.img.files dp ip ⟨type, major, minor, 1, []⟩).enter dp k ip name ∧
        (s3.img.dinode dp).nlink = (s.img.dinode dp).nlink := by
      obtain ⟨hf, hc, hlacks⟩ := hfr.put hne hf2
      obtain ⟨-, k, hk, hf3⟩ := (hent hc hfr.pos hfr.lt hlacks).resolve_right fun h => by
        rw [h.1] at hok
        cases hok
      have hdp2 : s2.img.files dp = s.img.files dp := by rw [hf, FileSys.put_of_ne hne]
      have hdots : s3.img.files =
          (withDots s.img.files dp ip ⟨type, major, minor, 1, []⟩).enter dp k ip name := by
        rw [hf3, hf]
        rfl
      obtain ⟨c, hc⟩ := FileSys.write_some
        ((withDots_of_ne hne).trans (files_of_typed htdp)) dp (16 * k) (direntBytes ip name)
      rw [← FileSys.enter, ← hdots] at hc
      exact ⟨k, (FileSys.vacant_congr hdp2).mp hk, hdots, nlink_of_files hc⟩
    -- whether the directory counts the new one or not, it has links
    refine Runs.ite (fun hdir => ?_) fun hdir => ?_
    · refine Runs.seq (addLinks_runs h3 hldp hdF) fun _ s4 hs4 => ?_
      obtain ⟨h4, hf4⟩ := hs4
      refine Runs.imp (createEnd_runs h4 hLdp hne hF hdF) ?_
      rintro r s5 ⟨rfl, h5, himg5⟩
      refine .inr ⟨rfl, h5, hLip, fun hfr => ?_⟩
      obtain ⟨k, hk, hf3, hn3⟩ := hmade hfr
      have hn4 := nlink_addLinks hf4 (h3.typed hldp)
      have hlinks := hfr.links
      exact ⟨k, hk, by rw [himg5 (by omega), hf4, hf3, made, if_pos hdir]⟩
    · refine Runs.imp (createEnd_runs h3 hLdp hne hF hdF) ?_
      rintro r s5 ⟨rfl, h5, himg5⟩
      refine .inr ⟨rfl, h5, hLip, fun hfr => ?_⟩
      obtain ⟨k, hk, hf3, hn3⟩ := hmade hfr
      exact ⟨k, hk, by rw [himg5 (hn3 ▸ hfr.linked.2), hf3, made, if_neg hdir]⟩
  · refine Runs.imp (createFail_runs h3 hLdp hLip hne hF hdF hiF) ?_
    rintro r s4 ⟨rfl, h4, hf4⟩
    refine .inl ⟨rfl, h4, fun hfr => ?_⟩
    obtain ⟨hf, hc, hlacks⟩ := hfr.put hne hf2
    have hsame := ((hent hc hfr.pos hfr.lt hlacks).resolve_left fun h => hok h.1).2
    have hn3 : (s3.img.dinode dp).nlink = (s.img.dinode dp).nlink :=
      nlink_of_files (n := s.img.node dp)
        (by rw [hsame dp hne, hf, FileSys.put_of_ne hne, files_of_typed htdp])
    rw [hf4 hfr.unreferenced (hn3 ▸ hfr.linked.2)]
    funext j
    by_cases hj : j = ip
    · rw [hj, update_self, update_self]
    · rw [update_of_ne hj, update_of_ne hj, hsame j hj, hf, FileSys.put_of_ne hj]

/-- Every inode with a reference is allocated. -/
def Held (R : ℕ → ℤ) (g : Image) : Prop := ∀ i, R i ≠ 0 → g.Typed i

/-- How `create` ends, for the inode `n` it is to make. -/
inductive CreateResult (sb : Superblock) (L : ℕ → Bool) (R : ℕ → ℤ) (n : Node) (g : Image)
    (s' : Fs) : Option ℕ → Prop
  | failed : At sb L R s' → (Tidy g → Held R g → s'.img.files = g.files) →
      CreateResult sb L R n g s' none
  | found (ip : ℕ) : At sb (update L ip true) (R + Pi.single ip 1) s' → L ip = false →
      s'.img = g → n.type = .file → ((g.dinode ip).type = .file ∨ (g.dinode ip).type = .device) →
      (∃ j, Names g j ip) → CreateResult sb L R n g s' (some ip)
  | made (ip : ℕ) : At sb (update L ip true) (R + Pi.single ip 1) s' → L ip = false →
      (Tidy g → Held R g → Making g.files n ip s'.img.files) →
      CreateResult sb L R n g s' (some ip)

lemma Tidy.links_pos (h : Tidy g) (hj : Linked g j) : 1 ≤ (g.dinode j).nlink := by
  have hnn := h.nonneg j (by rw [Typed, hj.1]; decide)
  have := hj.2
  omega

lemma createAlloc_runs (h : At sb (update L dp true) (R + Pi.single dp 1) s) (hLdp : L dp = false)
    (hF : sb.bitmapBlocks ⊆ F) (hdF : sb.iblock dp ∈ F) (htype : type ≠ .free)
    (hlinked : Linked s.img dp) (hno : ∀ off inum, ¬ HasEntry s.img dp name off inum)
    (hlimit : type = .dir → (s.img.dinode dp).nlink < nlinkMax) :
    Runs Halts F 7 (do
        match ← ialloc type with
        | none => do
          iunlockput dp
          pure none
        | some ip => createNew type major minor dp ip name) s fun r s' =>
      CreateResult sb L R ⟨type, major, minor, 1, []⟩ s.img s' r := by
  refine Runs.bind_insert (p := 0) (q := 6) (c := fun r => r.elim 0 sb.iblock)
    (Q := fun r s' => r = none ∧ s' = s ∨ ∃ i, r = some i ∧
      At sb (update L dp true) (R + Pi.single dp 1 + Pi.single i 1) s' ∧
      ¬ s.img.Typed i ∧ 0 < i ∧ i < sb.ninodes ∧
      s'.img = s.img.setDinode i ⟨type, 0, 0, 0, 0, fun _ => 0⟩)
    (Runs.imp (ialloc_runs h) ?_) ?_
  · rintro r s1 (⟨rfl, rfl, -⟩ | ⟨i, rfl, h1, hlogs, hrest⟩)
    · exact ⟨.refl, .inl ⟨rfl, rfl⟩⟩
    · exact ⟨hlogs, .inr ⟨i, rfl, h1, hrest⟩⟩
  rintro r s1 (⟨rfl, rfl⟩ | ⟨ip, rfl, h1, hfree, hpos, hlt, himg⟩)
  · refine Runs.seq (iunlockput_keeps h (hF.trans (Set.subset_insert _ F)) (.inl hlinked.2)) ?_
    rintro _ s2 ⟨h2, himg2⟩
    exact Runs.pure (.failed (h2.back hLdp) fun _ _ => by rw [himg2])
  have hf1 : s1.img.files = s.img.files.put ip ⟨type, 0, 0, 0, []⟩ := by
    rw [himg, files_allocInode hfree htype]
    rfl
  have htdp : s.img.Typed dp := by
    rw [Typed, hlinked.1]
    decide
  have hne : dp ≠ ip := by
    rintro rfl
    exact hfree htdp
  have hdp1 : s1.img.dinode dp = s.img.dinode dp := by rw [himg, setDinode_of_ne hne]
  have hfdp : s1.img.files dp = s.img.files dp := by rw [hf1, FileSys.put_of_ne hne]
  have hfresh (htidy : Tidy s.img) (hheld : Held R s.img) : Fresh R s1.img dp ip type name := by
    refine ⟨by omega, ?_, hf1 ▸ FileSys.put_self, ?_, ?_, ?_, ?_⟩
    · have := htidy.ninodes
      rw [h.sb] at this
      omega
    · rw [Linked, hdp1]
      exact hlinked
    · rw [hdp1]
      exact htidy.links_pos hlinked
    · exact fun k e he => lacks_files hlinked.1 hno k e ((FileSys.has_congr hfdp).mp he)
    · by_contra hR
      exact hfree (hheld ip hR)
  have hfiles : s.img.files ip = none := files_eq_none hfree
  refine Runs.imp (createNew_runs h1 hLdp (hF.trans (Set.subset_insert _ F))
    (Set.mem_insert_of_mem _ hdF) (Set.mem_insert _ F)) ?_
  rintro r s2 (⟨rfl, h2, hf2⟩ | ⟨rfl, h2, hLip, hf2⟩)
  · refine .failed h2 fun htidy hheld => ?_
    rw [hf2 (hfresh htidy hheld), hf1, FileSys.put, update_idem, ← hfiles, update_eq_self]
  · refine .made ip h2 hLip fun htidy hheld => ?_
    have hfr := hfresh htidy hheld
    obtain ⟨k, hk, hf2⟩ := hf2 hfr
    refine ⟨by omega, hfr.lt, hfiles, dp, k, name, linked_files.mpr hlinked,
      lacks_files hlinked.1 hno, (FileSys.vacant_congr hfdp).mp hk,
      fun hdir => ⟨_, files_of_typed htdp, hlimit hdir⟩, ?_⟩
    have hput : ∀ n, s1.img.files.put ip n = s.img.files.put ip n := fun n => by
      rw [hf1, FileSys.put, FileSys.put, FileSys.put, update_idem]
    rw [hf2, made, made, withDots, withDots, hput]

/-- **`create`** logs at most eight blocks besides those of the free map. -/
lemma create_runs {path : Path} (h : At sb L R s) (hcwd : 1 ≤ R cwd) (hF : sb.bitmapBlocks ⊆ F)
    (htype : type ≠ .free) :
    Runs Halts F 8 (create cwd path type major minor) s fun r s' =>
      CreateResult sb L R ⟨type, major, minor, 1, []⟩ s.img s' r := by
  refine Runs.bind_or ((namex_runs h hcwd hF).mono (by omega) fun _ _ h => h) ?_
  rintro _ s1 (⟨h1, himg⟩ | ⟨dp, name, hl1, h1, himg1, -, hpar⟩)
  · exact .inl (Runs.pure (.failed h1 fun htidy _ => by rw [himg htidy]))
  refine .inr ⟨hl1, Runs.of_insert (b := sb.iblock dp) ?_⟩
  have hF1 : sb.bitmapBlocks ⊆ insert (sb.iblock dp) F := hF.trans (Set.subset_insert _ F)
  refine Runs.seq (ilock_runs h1) fun _ s2 ⟨h2, hLdp, himg2⟩ => ?_
  have himg2' : s2.img = s.img := himg2.trans himg1
  have hlinked : Linked s.img dp := hpar rfl
  refine Runs.read ?_
  rw [h2.inv.ino, himg2', if_neg hlinked.2]
  refine Runs.ite (fun _ => ?_) fun hlimit => ?_
  · refine Runs.seq (iunlockput_keeps h2 hF1 (.inl (himg2' ▸ hlinked.2))) fun _ s3 ⟨h3, himg3⟩ => ?_
    exact Runs.pure (.failed (h3.back hLdp) fun _ _ => by rw [himg3, himg2'])
  refine Runs.seq (dirlookup_runs h2 (update_self ..)) ?_
  rintro r s3 ⟨himg3, -, ⟨rfl, rfl, hno⟩ | ⟨ip, off, rfl, h3, hent⟩⟩
  · rw [← himg2'] at hlinked hlimit ⊢
    exact createAlloc_runs h2 hLdp hF1 (Set.mem_insert _ F) htype hlinked hno
      fun hdir => not_le.mp fun hle => hlimit ⟨hdir, hle⟩
  · rw [himg2'] at himg3 hent
    refine Runs.seq (iunlockput_keeps h3 hF1 (.inl (himg3 ▸ hlinked.2))) fun _ s4 ⟨h4, himg4⟩ => ?_
    rw [relock hLdp, add_sub_right_comm, add_sub_cancel_right] at h4
    have himg4' : s4.img = s.img := himg4.trans himg3
    have hnames : Names s.img dp ip := ⟨hlinked, off.toNat, name, hent⟩
    refine Runs.seq (ilock_runs h4) fun _ s5 ⟨h5, hLip, himg5⟩ => ?_
    have himg5' : s5.img = s.img := himg5.trans himg4'
    refine Runs.read ?_
    rw [h5.inv.ino, himg5']
    refine Runs.ite (fun hc => ?_) fun _ => ?_
    · exact Runs.pure (.found ip h5 hLip himg5' hc.1 hc.2 ⟨dp, hnames⟩)
    · refine Runs.mono (k := 7) (Runs.bind_zero (iunlockput_cases h5 hF1)
        fun _ s6 ⟨h6, hdrop⟩ => ?_) (by omega) fun _ _ h => h
      refine Runs.pure (.failed (h6.back hLip) fun htidy _ => ?_)
      have hpos := (htidy.names dp ip hnames).2
      rw [hdrop.eq (.inl (by rw [himg5']; omega)), himg5']

end Fs

end Xv6Riscv
