import Xv6Riscv.Lib.DirTree
import Xv6Riscv.Fs.Sections

/-!
The tree of directories.

A file system shows the directories and link counts of `DirTree`: the name of an entry is the bytes
before its end, and the entries `0` and `1` of a directory are "." and "..". The effects of the
calls are the operations there, so all of them keep the tree.
-/

namespace Xv6Riscv

open Function (update update_of_ne update_self)
open Fs DirTree

namespace FileSys

/-- The directories and links of a file system. -/
def dirs (f : FileSys) : Dirs ℕ (List UInt8) where
  kind i := (f i).map fun n => (decide (n.type = .dir), n.nlink)
  entry j k := (f j).bind fun n =>
    if n.type = .dir ∧ 16 * k + 16 ≤ n.content.length ∧ (n.entry k).inum ≠ 0 then
      some (cname (n.entry k).name, (n.entry k).inum)
    else none

variable {f f' : FileSys} {i j k m dp ip inum : ℕ} {name a : List UInt8} {n : Node}

lemma entry_eq_some : f.dirs.entry j k = some (a, i) ↔
    ∃ e, f.Has j k e ∧ cname e.name = a ∧ e.inum = i := by
  simp only [dirs, Has, Option.bind_eq_some_iff]
  constructor
  · rintro ⟨n, hn, h⟩
    split_ifs at h with hc
    cases h
    exact ⟨_, ⟨n, hn, hc.1, hc.2.1, rfl, hc.2.2⟩, rfl, rfl⟩
  · rintro ⟨_, ⟨n, hn, hdir, hlen, rfl, h0⟩, rfl, rfl⟩
    exact ⟨n, hn, if_pos ⟨hdir, hlen, h0⟩⟩

lemma entry_eq_none : f.dirs.entry j k = none ↔ ∀ e, ¬ f.Has j k e := by
  constructor
  · intro h e he
    have := entry_eq_some.mpr ⟨e, he, rfl, rfl⟩
    rw [h] at this
    cases this
  · intro h
    rcases hx : f.dirs.entry j k with _ | ⟨a, i⟩
    · rfl
    · obtain ⟨e, he, -⟩ := entry_eq_some.mp hx
      exact absurd he (h e)

lemma kind_of_some (h : f i = some n) : f.dirs.kind i = some (decide (n.type = .dir), n.nlink) := by
  simp only [dirs, h, Option.map_some]

lemma kind_eq_none : f.dirs.kind i = none ↔ f i = none := by simp [dirs]

lemma linked_dirs : f.dirs.Linked j ↔ f.Linked j := by
  simp only [Dirs.Linked, dirs, Option.map_eq_some_iff, Prod.mk.injEq, decide_eq_true_eq, Linked]
  constructor
  · rintro ⟨l, ⟨n, hn, hdir, rfl⟩, h0⟩
    exact ⟨n, hn, hdir, h0⟩
  · rintro ⟨n, hn, hdir, h0⟩
    exact ⟨n.nlink, ⟨n, hn, hdir, rfl⟩, h0⟩

lemma isDir_dirs : f.dirs.IsDir j ↔ ∃ n, f j = some n ∧ n.type = .dir := by
  simp only [Dirs.IsDir, dirs, Option.map_eq_some_iff, Prod.mk.injEq, decide_eq_true_eq]
  constructor
  · rintro ⟨l, n, hn, hdir, -⟩
    exact ⟨n, hn, hdir⟩
  · rintro ⟨n, hn, hdir⟩
    exact ⟨n.nlink, n, hn, hdir, rfl⟩

lemma dirs_ext {d : Dirs ℕ (List UInt8)} (hkind : ∀ j, f.dirs.kind j = d.kind j)
    (hentry : ∀ j k, f.dirs.entry j k = d.entry j k) : f.dirs = d := by
  rcases hf : f.dirs with ⟨kind, entry⟩
  rw [hf] at hkind hentry
  cases d
  congr 1
  · exact funext hkind
  · exact funext fun j => funext (hentry j)

lemma kind_write {off : ℕ} {b : List UInt8} : (f.write i off b).dirs.kind = f.dirs.kind :=
  funext (Upd.map (Option.map _) (by rw [Option.map_map]; rfl))

lemma dirs_enter (hv : f.Vacant dp k) (hlt : inum < 65536) (h0 : inum ≠ 0) :
    (f.enter dp k inum name).dirs = f.dirs.setEntry dp k (some (cname name, inum)) := by
  refine dirs_ext (fun j => congrFun kind_write j) fun j m => ?_
  rw [Dirs.entry_setEntry]
  refine Option.ext fun ⟨a, i⟩ => ?_
  rw [entry_eq_some]
  simp only [has_enter hv hlt h0]
  split_ifs with hjm
  · obtain ⟨rfl, rfl⟩ := hjm
    constructor
    · rintro ⟨e, ⟨-, -, rfl⟩ | he, rfl, rfl⟩
      · rw [cname_paddedName]
      · exact absurd he hv.not_has
    · intro h
      cases h
      exact ⟨_, .inl ⟨rfl, rfl, rfl⟩, cname_paddedName, rfl⟩
  · rw [entry_eq_some]
    constructor
    · rintro ⟨e, ⟨h1, h2, -⟩ | he, h3, h4⟩
      · exact absurd ⟨h1, h2⟩ hjm
      · exact ⟨e, he, h3, h4⟩
    · rintro ⟨e, he, h3, h4⟩
      exact ⟨e, .inr he, h3, h4⟩

lemma dirs_clear {e : Dirent} (h : f.Has dp k e) :
    (f.clear dp k).dirs = f.dirs.setEntry dp k none := by
  refine dirs_ext (fun j => congrFun kind_write j) fun j m => ?_
  rw [Dirs.entry_setEntry]
  refine Option.ext fun ⟨a, i⟩ => ?_
  rw [entry_eq_some]
  simp only [has_clear h]
  split_ifs with hjm
  · exact iff_of_false (fun ⟨_, ⟨hn, _⟩, _⟩ => hn hjm) fun h => by cases h
  · rw [entry_eq_some]
    simp only [hjm, not_false_eq_true, true_and]

lemma entry_congr (h : f' j = f j) : f'.dirs.entry j k = f.dirs.entry j k := by
  simp only [dirs, h]

variable {l : ℤ}

lemma kind_update (x : Option Node) (j : ℕ) : (FileSys.dirs (update f i x)).kind j =
    update f.dirs.kind i (x.map fun n => (decide (n.type = .dir), n.nlink)) j :=
  Function.apply_update (fun _ => Option.map fun n : Node => (decide (n.type = .dir), n.nlink)) ..

lemma dirs_addLinks : (f.addLinks i l).dirs = f.dirs.link i l := by
  refine dirs_ext (fun j => ?_) fun j m => ?_
  · rw [addLinks, change, kind_update, Option.map_map]
    change _ = update f.dirs.kind i (((f i).map _).map _) j
    rw [Option.map_map]
    rfl
  · change _ = f.dirs.entry j m
    refine Option.ext fun p => ?_
    obtain ⟨a, i⟩ := p
    rw [entry_eq_some, entry_eq_some]
    simp only [has_addLinks]

lemma dirs_put (h : f i = none) (hn : n.content = []) :
    (f.put i n).dirs = f.dirs.setKind i (decide (n.type = .dir)) n.nlink := by
  refine dirs_ext (fun j => ?_) fun j m => ?_
  · exact kind_update ..
  · change _ = f.dirs.entry j m
    by_cases hj : j = i
    · subst hj
      rw [entry_eq_none.mpr fun e => ?_, entry_eq_none.mpr fun e => ?_]
      · rintro ⟨n', hn', -⟩
        rw [h] at hn'
        cases hn'
      · rintro ⟨n', hn', -, hlen, -⟩
        rw [put_self] at hn'
        cases hn'
        rw [hn, List.length_nil] at hlen
        omega
    · exact entry_congr (put_of_ne hj)

lemma dirs_remove : FileSys.dirs (update f i none) = f.dirs.drop i := by
  refine dirs_ext (fun j => ?_) fun j m => ?_
  · exact kind_update ..
  · rw [Dirs.entry_drop]
    split_ifs with hj
    · subst hj
      rw [entry_eq_none]
      rintro e ⟨n, hn, -⟩
      rw [update_self] at hn
      cases hn
    · exact entry_congr (update_of_ne hj ..)

/-! ### The invariant -/

/-- The numbers of inodes fit into an entry, and directories are lists of entries. -/
structure Sized (f : FileSys) : Prop where
  bounds : ∀ i n, f i = some n → 0 < i ∧ i < 65536
  aligned : ∀ i n, f i = some n → n.type = .dir → n.content.length % 16 = 0

section

variable (h : f.Sized)

include h

lemma Sized.change {u : Node → Node}
    (hu : ∀ n, f i = some n → (u n).type = .dir → (u n).content.length % 16 = 0) :
    (f.change i u).Sized := by
  refine ⟨fun j n hn => ?_, fun j n hn hdir => ?_⟩
  · by_cases hj : j = i
    · subst hj
      rw [change_self, Option.map_eq_some_iff] at hn
      obtain ⟨n', hn', -⟩ := hn
      exact h.bounds j n' hn'
    · rw [change_of_ne hj] at hn
      exact h.bounds j n hn
  · by_cases hj : j = i
    · subst hj
      rw [change_self, Option.map_eq_some_iff] at hn
      obtain ⟨n', hn', rfl⟩ := hn
      exact hu n' hn' hdir
    · rw [change_of_ne hj] at hn
      exact h.aligned j n hn hdir

lemma Sized.write {b : List UInt8} (hb : b.length = 16)
    (hk : ∀ n, f i = some n → 16 * k ≤ n.content.length) : (f.write i (16 * k) b).Sized := by
  refine h.change fun n hn hdir => ?_
  have hlen := length_splice (b := b) (hk n hn)
  have hold := h.aligned i n hn hdir
  change (splice n.content (16 * k) b).length % 16 = 0
  omega

lemma Sized.enter (hv : f.Vacant dp k) : (f.enter dp k inum name).Sized := by
  obtain ⟨n, hn, -, hk⟩ := hv
  refine h.write length_direntBytes fun n' hn' => ?_
  rw [hn] at hn'
  cases hn'
  omega

lemma Sized.clear {e : Dirent} (he : f.Has dp k e) : (f.clear dp k).Sized := by
  obtain ⟨n, hn, -, hk, -⟩ := he
  refine h.write (List.length_replicate ..) fun n' hn' => ?_
  rw [hn] at hn'
  cases hn'
  omega

lemma Sized.addLinks : (f.addLinks i l).Sized :=
  h.change fun n hn hdir => h.aligned i n hn hdir

lemma Sized.put (hi : 0 < i ∧ i < 65536) (hn : n.content = []) : (f.put i n).Sized := by
  refine ⟨fun j n' hn' => ?_, fun j n' hn' hdir => ?_⟩
  · by_cases hj : j = i
    · exact hj ▸ hi
    · rw [put_of_ne hj] at hn'
      exact h.bounds j n' hn'
  · by_cases hj : j = i
    · rw [hj, put_self] at hn'
      cases hn'
      rw [hn]
      rfl
    · rw [put_of_ne hj] at hn'
      exact h.aligned j n' hn' hdir

lemma Sized.remove : Sized (update f i none) := by
  have hold : ∀ {j n}, update f i none j = some n → f j = some n := by
    intro j n hn
    rcases Upd.cases id hn with ⟨-, hn⟩ | ⟨-, hn⟩
    · cases hn
    · exact hn
  exact ⟨fun j n hn => h.bounds j n (hold hn), fun j n hn => h.aligned j n (hold hn)⟩

end

/-- **The linked directories are a tree**, and the link counts are right. -/
structure Tree (f : FileSys) : Prop where
  sized : f.Sized
  dirs : f.dirs.Tree dot dotdot rootino nlinkMax

lemma vacant_addLinks (h : f.Vacant dp k) : (f.addLinks i l).Vacant dp k := by
  obtain ⟨n, hn, hdir, hk⟩ := h
  by_cases hj : dp = i
  · subst hj
    exact ⟨_, addLinks_self hn, hdir, hk⟩
  · exact ⟨n, (addLinks_of_ne hj).trans hn, hdir, hk⟩

lemma Lacks.entry_ne (h : f.Lacks dp name) (m j : ℕ) :
    f.dirs.entry dp m ≠ some (cname name, j) := by
  intro he
  obtain ⟨e, hhas, hname, -⟩ := entry_eq_some.mp he
  exact h m e hhas (namecmp_eq_zero.mpr hname.symm)

lemma Vacant.entry_eq_none (h : f.Vacant dp k) : f.dirs.entry dp k = none :=
  FileSys.entry_eq_none.mpr fun _ => h.not_has

end FileSys

open FileSys

variable {f f' : FileSys} {n : Node} {ip : ℕ}

lemma link_eq_setKind {d : Dirs ℕ (List UInt8)} {i : ℕ} {l l' : ℤ}
    (h : d.kind i = some (false, l)) : d.link i l' = d.setKind i false (l + l') := by
  rw [Dirs.link, h]
  rfl

lemma kind_leaf {i : ℕ} (h : f i = some n) (hn : n.type ≠ .dir) :
    f.dirs.kind i = some (false, n.nlink) := by
  rw [kind_of_some h, decide_eq_false hn]

/-- **`sys_link`** keeps the tree. -/
theorem Fs.Linking.tree {r : ℤ} (h : f.Tree) (hl : Linking f f' r) : f'.Tree := by
  cases hl with
  | failed => exact h
  | linked dp k ip name n hdp hlacks hv hip hdir hmax =>
    have hv' := vacant_addLinks (i := ip) (l := 1) hv
    have hb := h.sized.bounds ip n hip
    have hkind := kind_leaf hip hdir
    refine ⟨h.sized.addLinks.enter hv', ?_⟩
    rw [dirs_enter hv' hb.2 hb.1.ne', dirs_addLinks, link_eq_setKind hkind]
    refine h.dirs.addLeaf (linked_dirs.mpr hdp) ?_ hv.entry_eq_none hlacks.entry_ne
      (h.dirs.count ip false _ hkind) hmax
    rw [isDir_dirs]
    rintro ⟨n', hn', hdir'⟩
    rw [hip] at hn'
    cases hn'
    exact hdir hdir'

/-- **`create`** keeps the tree. -/
theorem Fs.Making.tree (h : f.Tree) (hn : n.nlink = 1) (hc : n.content = [])
    (hm : Making f n ip f') : f'.Tree := by
  obtain ⟨dp, k, name, hdp, hlacks, hv, hmax, rfl⟩ := hm.entry
  have hip : f.dirs.kind ip = none := kind_eq_none.mpr hm.free
  have hb : 0 < ip ∧ ip < 65536 := ⟨Nat.pos_of_ne_zero hm.pos, hm.lt⟩
  have hne : dp ≠ ip := by
    rintro rfl
    obtain ⟨d, hd, -⟩ := hdp
    rw [hm.free] at hd
    cases hd
  have hsput := h.sized.put hb hc
  have hdput := dirs_put hm.free hc
  rw [made]
  split_ifs with hdir
  · obtain ⟨d, hd, hlt⟩ := hmax hdir
    obtain ⟨d', hd', hddir, hd0⟩ := hdp
    obtain rfl : d = d' := by
      rw [hd] at hd'
      exact Option.some.inj hd'
    have hdb := h.sized.bounds dp d hd
    have hv0 : (f.put ip n).Vacant ip 0 := ⟨n, put_self, hdir, .inl (by rw [hc]; rfl)⟩
    have hv1 : ((f.put ip n).enter ip 0 ip dot).Vacant ip 1 := by
      have hself : (f.put ip n).enter ip 0 ip dot ip =
          some { n with content := splice n.content (16 * 0) (direntBytes ip dot) } := by
        rw [enter, write, change_self, put_self, Option.map_some]
      refine ⟨_, hself, hdir, .inl ?_⟩
      rw [hc]
      simp [splice, length_direntBytes]
    have hv2 : (((f.put ip n).enter ip 0 ip dot).enter ip 1 dp dotdot).Vacant dp k := by
      refine (vacant_congr ?_).mpr hv
      rw [enter_of_ne hne, enter_of_ne hne, put_of_ne hne]
    rw [withDots, if_pos hdir]
    refine ⟨(((hsput.enter hv0).enter hv1).enter hv2).addLinks, ?_⟩
    rw [dirs_addLinks, dirs_enter hv2 hm.lt hm.pos, dirs_enter hv1 hdb.2 hdb.1.ne',
      dirs_enter hv0 hm.lt hm.pos, hdput, hn, decide_eq_true hdir]
    have hmakes : f.dirs.Makes dp k ip d.nlink :=
      { kind := by rw [kind_of_some hd, decide_eq_true hddir]
        pos := hd0
        new := hip
        free := hv.entry_eq_none
        ordinary := h.dirs.two_le_of_free (linked_dirs.mpr ⟨d, hd, hddir, hd0⟩) hv.entry_eq_none
        empty := fun m => FileSys.entry_eq_none.mpr fun e he => by
          obtain ⟨n', hn', -⟩ := he
          rw [hm.free] at hn'
          cases hn' }
    exact h.dirs.addDir hmakes hlacks.entry_ne (by decide) hlt
  · have hv' : (f.put ip n).Vacant dp k := (vacant_congr (put_of_ne hne)).mpr hv
    rw [withDots, if_neg hdir]
    refine ⟨hsput.enter hv', ?_⟩
    rw [dirs_enter hv' hm.lt hm.pos, hdput, hn, decide_eq_false hdir]
    refine h.dirs.addLeaf (l := 0) (linked_dirs.mpr hdp) ?_ hv.entry_eq_none hlacks.entry_ne ?_
      (by decide)
    · rintro ⟨l, hl⟩
      rw [hip] at hl
      cases hl
    · rw [h.dirs.refs_of_none hip, Set.ncard_empty]
      rfl

/-- An inode without links is freed. -/
theorem FileSys.Tree.remove {i : ℕ} (h : f.Tree) (hi : f i = some n) (h0 : n.nlink = 0) :
    FileSys.Tree (update f i none) := by
  refine ⟨h.sized.remove, ?_⟩
  rw [dirs_remove]
  refine h.dirs.drop (b := decide (n.type = .dir)) ?_
  rw [kind_of_some hi, h0]

/-- The content of a file changes. -/
theorem FileSys.Tree.content {i : ℕ} {c : List UInt8} (h : f.Tree) (hi : f i = some n)
    (hdir : n.type ≠ .dir) : (f.change i fun n => { n with content := c }).Tree := by
  have hsame : (f.change i fun n => { n with content := c }).dirs = f.dirs := by
    refine dirs_ext (fun j => ?_) fun j m => ?_
    · by_cases hj : j = i
      · subst hj
        simp only [FileSys.dirs, change_self, Option.map_map]
        rfl
      · simp only [FileSys.dirs, change_of_ne hj]
    · by_cases hj : j = i
      · subst hj
        simp only [FileSys.dirs, change_self, hi, Option.map_some, Option.bind_some, hdir,
          false_and, if_false]
      · exact entry_congr (change_of_ne hj)
  refine ⟨h.sized.change fun n' hn' hd => ?_, hsame ▸ h.dirs⟩
  rw [hi] at hn'
  cases hn'
  exact absurd hd hdir

variable {e : Dirent}

lemma FileSys.Tree.two_le_of_name {j k : ℕ} (h : f.Tree) (hj : f.Linked j) (he : f.Has j k e)
    (hdot : namecmp e.name dot ≠ 0) (hdotdot : namecmp e.name dotdot ≠ 0) : 2 ≤ k := by
  have hdir := (linked_dirs.mpr hj).isDir
  have hentry := entry_eq_some.mpr ⟨e, he, rfl, rfl⟩
  by_contra hlt
  obtain rfl | rfl : k = 0 ∨ k = 1 := by omega
  · rw [h.dirs.self j hdir, Option.some.injEq, Prod.mk.injEq] at hentry
    exact hdot (namecmp_eq_zero.mpr hentry.1.symm)
  · obtain ⟨p, hp⟩ := h.dirs.up j hdir
    rw [hp, Option.some.injEq, Prod.mk.injEq] at hentry
    exact hdotdot (namecmp_eq_zero.mpr hentry.1.symm)

lemma tree_unlinked {dp k : ℕ} (h : f.Tree) (hhas : f.Has dp k e) (hk : 2 ≤ k)
    (hip : f e.inum = some n) (hempty : n.type = .dir → ∀ m e', f.Has e.inum m e' → m < 2) :
    (unlinked f dp k e.inum n).Tree := by
  have hentry : f.dirs.entry dp k = some (cname e.name, e.inum) :=
    entry_eq_some.mpr ⟨e, hhas, rfl, rfl⟩
  rw [unlinked]
  split_ifs with hdir
  · refine ⟨(h.sized.clear hhas).addLinks.addLinks, ?_⟩
    rw [dirs_addLinks, dirs_addLinks, dirs_clear hhas]
    obtain ⟨l, hcut⟩ := h.dirs.cuts (isDir_dirs.mpr ⟨n, hip, hdir⟩) ⟨hk, _, hentry⟩
      (fun m j hc => by
      obtain ⟨hm, a, ha⟩ := hc
      obtain ⟨e', he', -⟩ := entry_eq_some.mp ha
      have := hempty hdir m e' he'
      omega)
    exact h.dirs.removeDir hcut
  · refine ⟨(h.sized.clear hhas).addLinks, ?_⟩
    have hkind := kind_leaf hip hdir
    have hset : (f.dirs.setEntry dp k none).kind e.inum = some (false, n.nlink) := hkind
    rw [dirs_addLinks, dirs_clear hhas, link_eq_setKind hset, ← sub_eq_add_neg]
    exact h.dirs.removeLeaf hk hkind hentry

/-- **`sys_unlink`** keeps the tree. -/
theorem Fs.Unlinking.tree {R : ℕ → ℤ} {r : ℤ} (h : f.Tree) (hu : Unlinking R f f' r) : f'.Tree := by
  cases hu with
  | failed => exact h
  | removed dp k e n f' hdp hhas hdot hdotdot hip hempty hrem =>
    have hk := h.two_le_of_name hdp hhas hdot hdotdot
    have htree := tree_unlinked h hhas hk hip hempty
    rcases hrem with rfl | ⟨hone, -, rfl⟩
    · exact htree
    · have hne : e.inum ≠ dp := by
        intro he
        obtain ⟨d, hd, hdir, -⟩ := hdp
        rw [he, hd] at hip
        cases hip
        have := hempty hdir k e (he ▸ hhas)
        omega
      refine htree.remove (n := { n with nlink := n.nlink + -1 }) ?_ (by rw [hone]; rfl)
      rw [unlinked]
      refine addLinks_self ?_
      split_ifs
      · rw [addLinks_of_ne hne, clear_of_ne hne, hip]
      · rw [clear_of_ne hne, hip]

/-- **`sys_open`** keeps the tree. -/
theorem Fs.Opened.tree {omode : UInt32} {room : Bool} {r : Option (ℕ × InodeType × ℤ)} (h : f.Tree)
    (ho : Opened omode room f f' r) : f'.Tree := by
  cases ho with
  | failed => exact h
  | stranded ip f' _ _ hm | created ip f' _ hm => exact Making.tree h rfl rfl hm
  | opened ip n => exact h
  | truncated ip n _ hn hfile =>
    have hput : f.put ip { n with content := [] } =
        f.change ip fun n => { n with content := [] } := by
      rw [put, change, hn, Option.map_some]
    rw [hput]
    exact h.content hn (by rw [hfile]; decide)

lemma FileSys.Tree.one_le_nlink {j k : ℕ} (h : f.Tree) (hj : f.Linked j) (he : f.Has j k e) :
    ∃ n, f e.inum = some n ∧ 1 ≤ n.nlink := by
  have hentry := entry_eq_some.mpr ⟨e, he, rfl, rfl⟩
  have hkind := h.dirs.named j k _ _ (linked_dirs.mpr hj) hentry
  obtain ⟨n, hn⟩ := Option.ne_none_iff_exists'.mp (mt kind_eq_none.mpr hkind)
  refine ⟨n, hn, ?_⟩
  have hcount := h.dirs.count e.inum _ _ (kind_of_some hn)
  rcases h.dirs.mem_refs (linked_dirs.mpr hj) hentry with hmem | ⟨-, hself⟩
  · have hpos := (Set.ncard_pos (h.dirs.refs_finite e.inum)).mpr ⟨_, hmem⟩
    omega
  · obtain ⟨n', hn', -, h0⟩ := hj
    rw [← hself, hn] at hn'
    cases hn'
    omega

/-- The disk is tidy when the directories are a tree. -/
theorem FileSys.Tree.tidy {g : Image} (h : g.files.Tree) (hn : g.sb.ninodes ≤ 65536) : Tidy g where
  ninodes := hn
  root := linked_files.mp (linked_dirs.mp h.dirs.root_linked)
  names j i hji := by
    obtain ⟨hj, k, e, he, rfl⟩ := names_files.mp hji
    obtain ⟨n, hn, h1⟩ := h.one_le_nlink hj he
    obtain ⟨htyped, rfl⟩ := Image.files_eq_some.mp hn
    exact ⟨htyped, h1⟩
  parents j i name off hj hent hdot hdotdot hdir := by
    obtain ⟨k, e, -, he, rfl, hname⟩ := (hasEntry_iff hj.1).mp hent
    have hj' := linked_files.mpr hj
    have hne : ∀ a, namecmp name a ≠ 0 → namecmp e.name a ≠ 0 := by
      intro a ha h0
      rw [namecmp_eq_zero] at hname h0
      exact ha (namecmp_eq_zero.mpr (hname.trans h0))
    have hk := h.two_le_of_name hj' he (hne _ hdot) (hne _ hdotdot)
    obtain ⟨n, hn, h1⟩ := h.one_le_nlink hj' he
    obtain ⟨htyped, rfl⟩ := Image.files_eq_some.mp hn
    have htj : g.Typed j := by
      rw [Image.Typed, hj.1]
      decide
    refine h.dirs.two_le (linked_dirs.mpr ⟨_, hn, hdir, by omega⟩)
      ⟨hk, _, entry_eq_some.mpr ⟨e, he, rfl, rfl⟩⟩ ?_
    rw [kind_of_some (Image.files_of_typed htj),
      decide_eq_true (show (g.node j).type = .dir from hj.1)]
    rfl
  nonneg i hi := by
    have hcount := h.dirs.count i _ _ (kind_of_some (Image.files_of_typed hi))
    change 0 ≤ (g.node i).nlink
    omega

end Xv6Riscv
