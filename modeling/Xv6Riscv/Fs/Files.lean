import Xv6Riscv.Fs.Calls

/-!
The abstract file system: what the calls are about.

A file system assigns to the number of each allocated inode its type, the number of its links and
its content, a list of bytes. Where the blocks of a file are, and which blocks are free, is not part
of it. The content of a directory is read as a list of entries.
-/

namespace Xv6Riscv

open Function (eq_update_iff update update_of_ne update_self)

/-- A file, a directory or a device. -/
structure Node where
  type : InodeType
  major : ℤ
  minor : ℤ
  nlink : ℤ
  content : List UInt8

/-- A file system: the allocated inodes by their numbers. -/
abbrev FileSys := ℕ → Option Node

open Fs

namespace Image

/-- The inode `i` with its content. -/
def node (g : Image) (i : ℕ) : Node where
  type := (g.dinode i).type
  major := (g.dinode i).major
  minor := (g.dinode i).minor
  nlink := (g.dinode i).nlink
  content := fileBytes g i 0 (g.dinode i).size.toNat

def files (g : Image) : FileSys := fun i => if g.Typed i then some (g.node i) else none

variable {g g' : Image} {i j : ℕ} {d : Dinode}

lemma files_of_typed (h : g.Typed i) : g.files i = some (g.node i) := if_pos h

lemma files_eq_none (h : ¬ g.Typed i) : g.files i = none := if_neg h

lemma files_eq_some {n : Node} : g.files i = some n ↔ g.Typed i ∧ g.node i = n := by
  rw [files]
  split_ifs with h <;> simp [h]

lemma length_content : (g.node i).content.length = (g.dinode i).size.toNat := by
  simp [node, fileBytes]

lemma node_congr (h : SameInode i g g') : g'.node i = g.node i := by
  obtain ⟨a, ha⟩ := h.dinode
  have hbytes : fileBytes g' i 0 (g.dinode i).size.toNat =
      fileBytes g i 0 (g.dinode i).size.toNat := by
    refine List.map_congr_left fun k hk => ?_
    rw [zero_add]
    exact h.bytes k (List.mem_range.mp hk)
  simp only [node, ha, Dinode.withAddrs, hbytes]

lemma files_congr (ht : (g'.dinode i).type = (g.dinode i).type)
    (h : g.Typed i → SameInode i g g') : g'.files i = g.files i := by
  have htyped : g'.Typed i ↔ g.Typed i := by rw [Typed, Typed, ht]
  by_cases hi : g.Typed i
  · rw [files_of_typed hi, files_of_typed (htyped.mpr hi), node_congr (h hi)]
  · rw [files_eq_none hi, files_eq_none (mt htyped.mp hi)]

/-- **The file system does not see where blocks are.** -/
lemma files_of_sameFs (h : SameFs g g') : g'.files = g.files :=
  funext fun j => files_congr (h j).1 (h j).2

lemma sameInode_of_slot (hd : g'.dinode i = g.dinode i) (hslot : g'.slot = g.slot)
    (hdata : g'.data = g.data) : SameInode i g g' := by
  refine ⟨⟨_, hd⟩, fun p _ => ?_⟩
  rw [fileByte, fileByte, map_congr hslot, hdata]

lemma files_setDinode (hi : g.Typed i)
    (hd : d.type ≠ .free ∧ d.size = (g.dinode i).size ∧ d.addrs = (g.dinode i).addrs) :
    (g.setDinode i d).files =
      update g.files i (some ⟨d.type, d.major, d.minor, d.nlink, (g.node i).content⟩) := by
  have hti : (g.setDinode i d).Typed i := by
    rw [Typed, setDinode_self]
    exact hd.1
  have hslot : (g.setDinode i d).slot = g.slot := slot_setDinode fun k => by
    rw [ptr_of_typed hti, ptr_of_typed hi, setDinode_self, hd.2.2]
  refine eq_update_iff.mpr ⟨?_, fun j hj => ?_⟩
  · rw [files_of_typed hti, node, setDinode_self, hd.2.1, node]
    have hbytes : fileBytes (g.setDinode i d) i = fileBytes g i := by
      funext off m
      refine List.map_congr_left fun k _ => ?_
      rw [fileByte, fileByte, map_congr hslot]
      rfl
    rw [hbytes]
  · have hdj : (g.setDinode i d).dinode j = g.dinode j := setDinode_of_ne hj
    exact files_congr (by rw [hdj]) fun _ => sameInode_of_slot hdj hslot rfl

lemma files_allocInode {type : InodeType} (hi : ¬ g.Typed i) (ht : type ≠ .free) :
    (g.setDinode i ⟨type, 0, 0, 0, 0, fun _ => 0⟩).files =
      update g.files i (some ⟨type, 0, 0, 0, []⟩) := by
  refine eq_update_iff.mpr ⟨?_, fun j hj => ?_⟩
  · rw [files_of_typed (by rwa [Typed, setDinode_self]), node, setDinode_self]
    rfl
  · have hdj : (g.setDinode i ⟨type, 0, 0, 0, 0, fun _ => 0⟩).dinode j = g.dinode j :=
      setDinode_of_ne hj
    exact files_congr (by rw [hdj]) fun _ => sameInode_of_slot hdj (slot_allocInode hi) rfl

lemma sameInode_of_data (hd : g'.dinode j = g.dinode j) (hdata : g'.data = g.data) :
    SameInode j g g' := by
  have hmap : ∀ bn, g'.map j bn = g.map j bn := by
    intro bn
    rw [map, map]
    cases hx : blockSlot j bn with
    | none => rfl
    | some x =>
      have hown := blockSlot_owner hx
      cases x with
      | ptr i k => exact ptr_congr (by rw [show i = j from hown]; exact hd)
      | entry i k =>
        have hind : g'.indirect i = g.indirect i :=
          ptr_congr (by rw [show i = j from hown]; exact hd)
        change g'.slot (.entry i k) = g.slot (.entry i k)
        rw [slot, slot, hind, hdata]
  refine ⟨⟨_, hd⟩, fun p _ => ?_⟩
  rw [fileByte, fileByte, hmap, hdata]

end Image

namespace Fs

open Image

variable {g g' : Image} {i : ℕ}

/-- **A freed inode is gone**, and nothing else is. -/
lemma Reclaimed.files (h : Reclaimed i g g') : g'.files = update g.files i none := by
  refine eq_update_iff.mpr ⟨(files_eq_none ?_), fun j hj => ?_⟩
  · rw [Typed, h.dinode, update_self, not_not]
  · have hd : g'.dinode j = g.dinode j := by rw [h.dinode, update_of_ne hj]
    exact files_congr (by rw [hd]) fun _ => sameInode_of_data hd h.data

/-- **`itrunc` makes the file empty.** -/
lemma Truncated.files {s s' : Fs} (h : Truncated i s s') (hs : Inv s) (hi : s.img.Typed i) :
    s'.img.files = update s.img.files i (some { s.img.node i with content := [] }) := by
  have hdin := (h.img hs).1
  have hself : s'.img.dinode i = (s.img.dinode i).emptied := by rw [hdin, update_self]
  refine eq_update_iff.mpr ⟨?_, fun j hj => ?_⟩
  · rw [files_of_typed (by rw [Typed, hself]; exact hi), node, hself]
    rfl
  · have hd : s'.img.dinode j = s.img.dinode j := by rw [hdin, update_of_ne hj]
    exact files_congr (by rw [hd]) fun _ => sameInode_of_data hd h.data

end Fs

/-! ### Writing -/

/-- A list of bytes with some of them replaced, or added at the end. -/
def splice (c : List UInt8) (off : ℕ) (b : List UInt8) : List UInt8 :=
  c.take off ++ b ++ c.drop (off + b.length)

variable {b name : List UInt8} {off k inum : ℕ}

lemma length_splice {d : List UInt8} (h : off ≤ d.length) :
    (splice d off b).length = max d.length (off + b.length) := by
  simp only [splice, List.length_append, List.length_take, List.length_drop]
  omega

lemma getElem?_splice_of_lt {d : List UInt8} (h : off ≤ d.length) (hk : k < off) :
    (splice d off b)[k]? = d[k]? := by
  rw [splice, List.append_assoc, List.getElem?_append_left (by simp; omega), List.getElem?_take,
    if_pos hk]

lemma getElem?_splice_mid {d : List UInt8} (h : off ≤ d.length) (hk : k < b.length) :
    (splice d off b)[off + k]? = b[k]? := by
  have hlen : (d.take off).length = off := by simp; omega
  rw [splice, List.append_assoc, List.getElem?_append_right (by omega), hlen,
    Nat.add_sub_cancel_left, List.getElem?_append_left hk]

lemma getElem?_splice_of_ge {d : List UInt8} (h : off ≤ d.length) (hk : off + b.length ≤ k) :
    (splice d off b)[k]? = d[k]? := by
  have hlen : (d.take off).length = off := by simp; omega
  rw [splice, List.getElem?_append_right (by simp [hlen]; omega), List.length_append, hlen,
    List.getElem?_drop]
  congr 1
  omega

namespace FileSys

def change (f : FileSys) (i : ℕ) (u : Node → Node) : FileSys :=
  update f i ((f i).map u)

/-- Bytes written into the inode `i`. -/
def write (f : FileSys) (i off : ℕ) (b : List UInt8) : FileSys :=
  f.change i fun n => { n with content := splice n.content off b }

def addLinks (f : FileSys) (i : ℕ) (n : ℤ) : FileSys :=
  f.change i fun x => { x with nlink := x.nlink + n }

variable {f : FileSys} {i j : ℕ} {u : Node → Node}

lemma change_of_ne (h : j ≠ i) : f.change i u j = f j := update_of_ne h ..

lemma change_self : f.change i u i = (f i).map u := update_self ..

end FileSys

namespace Fs

open Image

variable {g g' : Image} {i off n tot : ℕ} {src : ℕ → Option UInt8}

lemma fileBytes_getElem? {m : ℕ} :
    (fileBytes g i off m)[k]? = if k < m then some (g.fileByte i (off + k)) else none := by
  rw [fileBytes, List.getElem?_map]
  split_ifs with hk
  · rw [List.getElem?_range hk]
    rfl
  · rw [List.getElem?_eq_none (by simpa using hk)]
    rfl

section

variable (h : Wrote i src off n tot g g')

include h

lemma Wrote.files_of_ne {j : ℕ} (hj : j ≠ i) : g'.files j = g.files j := by
  have hd := h.other j hj
  exact files_congr (by rw [hd]) fun hty => ⟨⟨_, hd⟩, h.otherBytes j hty hj⟩

lemma Wrote.typed (hi : g.Typed i) : g'.Typed i := by
  obtain ⟨z, a, hd⟩ := h.fields
  rw [Typed, hd]
  exact hi

lemma Wrote.files_node (hi : g.Typed i) :
    g'.files = g.files.change i fun x => { x with content := (g'.node i).content } := by
  obtain ⟨z, a, hd⟩ := h.fields
  refine eq_update_iff.mpr ⟨?_, fun j hj => h.files_of_ne hj⟩
  rw [files_of_typed (h.typed hi), files_of_typed hi]
  simp only [Option.map_some, node, hd]

lemma Wrote.files_content (hi : g.Typed i) :
    ∃ c, g'.files = g.files.change i fun x => { x with content := c } :=
  ⟨_, h.files_node hi⟩

end

/-- **A write that is complete** puts the source into the file. -/
lemma Wrote.files (h : Wrote i src off n n g g') (hi : g.Typed i)
    (hoff : off ≤ (g.dinode i).size.toNat) (hb : b.length = n) (hsrc : ∀ k < n, src k = b[k]?) :
    g'.files = g.files.write i off b := by
  obtain ⟨z, a, hd⟩ := h.fields
  refine eq_update_iff.mpr ⟨?_, fun j hj => h.files_of_ne hj⟩
  rw [files_of_typed (h.typed hi), files_of_typed hi, Option.map_some]
  have hlen : (g.node i).content.length = (g.dinode i).size.toNat := length_content
  have hcontent : (g'.node i).content = splice (g.node i).content off b := by
    refine List.ext_getElem? fun k => ?_
    have hk' : (g'.node i).content[k]? =
        if k < max (g.dinode i).size.toNat (off + n) then some (g'.fileByte i k) else none := by
      rw [node, fileBytes_getElem?, h.size, zero_add]
    have hk : (g.node i).content[k]? =
        if k < (g.dinode i).size.toNat then some (g.fileByte i k) else none := by
      rw [node, fileBytes_getElem?, zero_add]
    rw [hk']
    rcases lt_or_ge k off with hlt | hge
    · rw [getElem?_splice_of_lt (by omega) hlt, hk, if_pos (by omega), if_pos (by omega),
        h.same k (by omega) (.inl hlt)]
    rcases lt_or_ge k (off + n) with hlt | hge'
    · obtain ⟨m, rfl⟩ := Nat.exists_eq_add_of_le hge
      rw [getElem?_splice_mid (by omega) (by omega), if_pos (by omega), ← hsrc m (by omega),
        h.bytes m (by omega)]
    · rw [getElem?_splice_of_ge (by omega) (by omega), hk]
      by_cases hin : k < (g.dinode i).size.toNat
      · rw [if_pos hin, if_pos (by omega), h.same k hin (.inr hge')]
      · rw [if_neg hin, if_neg (by omega)]
  rw [← hcontent]
  simp only [node, hd]

end Fs

/-! ### Directories -/

/-- The entry `k` of a directory. -/
def Node.entry (n : Node) (k : ℕ) : Dirent := decodeDirent ((n.content.drop (16 * k)).take 16)

def direntBytes (inum : ℕ) (name : List UInt8) : List UInt8 :=
  (List.range 16).map fun k => (encodeDirent inum name k).getD 0

/-- A name as it is stored, filled up with NULs. -/
def paddedName (name : List UInt8) : List UInt8 :=
  cname name ++ List.replicate (dirsiz - (cname name).length) 0

lemma cname_paddedName : cname (paddedName name) = cname name := by
  have hlen : (cname name).length ≤ dirsiz :=
    (List.takeWhile_prefix _).length_le.trans (by simp)
  have hall : ∀ a ∈ cname name, (a != 0) = true := fun a ha =>
    List.mem_takeWhile_imp (p := (· != 0)) ha
  have htake : (paddedName name).take dirsiz = paddedName name :=
    List.take_of_length_le (by simp [paddedName]; omega)
  rw [cname, htake, paddedName, List.takeWhile_append_of_pos hall]
  simp

lemma length_direntBytes : (direntBytes inum name).length = 16 := by
  simp [direntBytes]

/-- **Entries are read as they were written.** -/
lemma decode_direntBytes (h : inum < 65536) :
    decodeDirent (direntBytes inum name) = ⟨inum, paddedName name⟩ := by
  have hget : ∀ k < 16, (direntBytes inum name)[k]? = encodeDirent inum name k := by
    intro k hk
    rw [direntBytes, List.getElem?_map, List.getElem?_range hk]
    rfl
  have h0 : (direntBytes inum name).getD 0 0 = UInt8.ofNat inum := by
    rw [List.getD_eq_getElem?_getD, hget 0 (by decide)]
    rfl
  have h1 : (direntBytes inum name).getD 1 0 = UInt8.ofNat (inum / 256) := by
    rw [List.getD_eq_getElem?_getD, hget 1 (by decide)]
    rfl
  have hname : ((direntBytes inum name).drop 2).take dirsiz = paddedName name := by
    refine List.ext_getElem? fun k => ?_
    have hlen : (cname name).length ≤ dirsiz :=
      (List.takeWhile_prefix _).length_le.trans (by simp)
    rw [List.getElem?_take, List.getElem?_drop, paddedName]
    split_ifs with hk
    · have hk' : k < 14 := hk
      rw [hget (2 + k) (by omega), encodeDirent, if_neg (by omega), if_neg (by omega),
        Nat.add_sub_cancel_left, List.getD_eq_getElem?_getD]
      rcases lt_or_ge k (cname name).length with hlt | hge
      · rw [List.getElem?_append_left hlt, ← cname, List.getElem?_eq_getElem hlt]
        rfl
      · rw [List.getElem?_append_right hge, ← cname, List.getElem?_eq_none hge,
          List.getElem?_replicate, if_pos (by omega)]
        rfl
    · rw [List.getElem?_eq_none]
      simp
      omega
  rw [decodeDirent, h0, h1, hname, UInt8.toNat_ofNat', UInt8.toNat_ofNat']
  congr 1
  omega

lemma entry_splice {c : List UInt8} (hb : b.length = 16) (hk : 16 * k ≤ c.length) (k' : ℕ) :
    ((splice c (16 * k) b).drop (16 * k')).take 16 =
      if k' = k then b else (c.drop (16 * k')).take 16 := by
  refine List.ext_getElem? fun m => ?_
  rw [List.getElem?_take, List.getElem?_drop]
  split_ifs with hm he he
  · subst he
    rw [getElem?_splice_mid hk (by omega)]
  · rw [List.getElem?_take, if_pos hm, List.getElem?_drop]
    rcases lt_or_gt_of_ne he with hlt | hgt
    · rw [getElem?_splice_of_lt hk (by omega)]
    · rw [getElem?_splice_of_ge hk (by omega)]
  · rw [List.getElem?_eq_none (by omega)]
  · rw [List.getElem?_take, if_neg hm]

namespace FileSys

/-- The entry `k` of the directory `j` is in use. -/
def Has (f : FileSys) (j k : ℕ) (e : Dirent) : Prop :=
  ∃ n, f j = some n ∧ n.type = .dir ∧ 16 * k + 16 ≤ n.content.length ∧ n.entry k = e ∧ e.inum ≠ 0

/-- A directory that has not been removed. -/
def Linked (f : FileSys) (j : ℕ) : Prop := ∃ n, f j = some n ∧ n.type = .dir ∧ n.nlink ≠ 0

/-- The directory `j` has no entry with this name. -/
def Lacks (f : FileSys) (j : ℕ) (name : List UInt8) : Prop :=
  ∀ k e, f.Has j k e → namecmp name e.name ≠ 0

/-- The entry `k` of the directory `j` is unused, or the next after its end. -/
def Vacant (f : FileSys) (j k : ℕ) : Prop :=
  ∃ n, f j = some n ∧ n.type = .dir ∧ (n.content.length = 16 * k ∨
    16 * k + 16 ≤ n.content.length ∧ (n.entry k).inum = 0)

def enter (f : FileSys) (j k inum : ℕ) (name : List UInt8) : FileSys :=
  f.write j (16 * k) (direntBytes inum name)

def clear (f : FileSys) (j k : ℕ) : FileSys := f.write j (16 * k) (List.replicate 16 0)

variable {f : FileSys} {i j k k' : ℕ} {e : Dirent} {u : Node → Node}

lemma has_change (hu : ∀ n, (u n).type = n.type ∧ (u n).content = n.content) :
    (f.change i u).Has j k e ↔ f.Has j k e := by
  by_cases hj : j = i
  · subst hj
    rw [Has, Has, change_self]
    cases f j with
    | none => simp
    | some n => simp [Node.entry, (hu n).1, (hu n).2]
  · rw [Has, Has, change_of_ne hj]

lemma has_write {n : Node} (hb : b.length = 16) (hi : f i = some n) (hdir : n.type = .dir)
    (hk : 16 * k ≤ n.content.length) :
    (f.write i (16 * k) b).Has j k' e ↔
      if j = i ∧ k' = k then decodeDirent b = e ∧ e.inum ≠ 0 else f.Has j k' e := by
  by_cases hj : j = i
  · subst hj
    have hentry : ({ n with content := splice n.content (16 * k) b } : Node).entry k' =
        if k' = k then decodeDirent b else n.entry k' := by
      rw [Node.entry, entry_splice hb hk]
      split_ifs <;> rfl
    have hlen : ({ n with content := splice n.content (16 * k) b } : Node).content.length =
        max n.content.length (16 * k + 16) := by
      exact (length_splice hk).trans (by rw [hb])
    rw [Has, write, change_self, hi, Option.map_some]
    simp only [Option.some.injEq, exists_eq_left', hlen, hentry]
    split_ifs with he he' he'
    · subst he
      exact ⟨fun h => ⟨h.2.2.1, h.2.2.2⟩, fun h => ⟨hdir, by omega, h⟩⟩
    · exact absurd ⟨trivial, he⟩ he'
    · exact absurd he'.2 he
    · rw [Has, hi]
      simp only [Option.some.injEq, exists_eq_left']
      have : 16 * k' + 16 ≤ max n.content.length (16 * k + 16) ↔
          16 * k' + 16 ≤ n.content.length := by omega
      rw [this]
  · rw [if_neg fun h => hj h.1, Has, Has, write, change_of_ne hj]

lemma Vacant.not_has (h : f.Vacant j k) : ¬ f.Has j k e := by
  rintro ⟨n, hn, -, hk, he, h0⟩
  obtain ⟨n', hn', -, h⟩ := h
  rw [hn] at hn'
  cases hn'
  rcases h with h | ⟨-, h⟩
  · omega
  · exact h0 (he ▸ h)

lemma has_enter (hv : f.Vacant i k) (hn : inum < 65536) (h0 : inum ≠ 0) :
    (f.enter i k inum name).Has j k' e ↔
      j = i ∧ k' = k ∧ e = ⟨inum, paddedName name⟩ ∨ f.Has j k' e := by
  obtain ⟨n, hi, hdir, hplace⟩ := id hv
  rw [enter, has_write length_direntBytes hi hdir (by omega), decode_direntBytes hn]
  split_ifs with h
  · obtain ⟨rfl, rfl⟩ := h
    refine ⟨fun ⟨he, _⟩ => .inl ⟨rfl, rfl, he.symm⟩, ?_⟩
    rintro (⟨-, -, rfl⟩ | hhas)
    · exact ⟨rfl, h0⟩
    · exact absurd hhas hv.not_has
  · refine ⟨.inr, ?_⟩
    rintro (⟨hj, hk, -⟩ | hhas)
    · exact absurd ⟨hj, hk⟩ h
    · exact hhas

lemma has_clear (h : f.Has i k e) {e' : Dirent} :
    (f.clear i k).Has j k' e' ↔ ¬ (j = i ∧ k' = k) ∧ f.Has j k' e' := by
  obtain ⟨n, hi, hdir, hlen, -⟩ := h
  rw [clear, has_write (by simp) hi hdir (by omega)]
  split_ifs with hc
  · have hzero : (decodeDirent (List.replicate 16 0)).inum = 0 := by decide
    refine ⟨?_, fun h => absurd hc h.1⟩
    rintro ⟨rfl, h0⟩
    exact absurd hzero h0
  · exact ⟨fun h => ⟨hc, h⟩, fun h => h.2⟩

end FileSys

namespace Fs

open Image

variable {g g' : Image} {s s' : Fs} {i dp ip : ℕ}

lemma linked_files : g.files.Linked i ↔ Linked g i := by
  rw [FileSys.Linked, Linked]
  constructor
  · rintro ⟨n, hn, hdir, hl⟩
    obtain ⟨-, rfl⟩ := files_eq_some.mp hn
    exact ⟨hdir, hl⟩
  · rintro ⟨hdir, hl⟩
    have ht : g.Typed i := by
      rw [Typed, hdir]
      decide
    exact ⟨_, files_of_typed ht, hdir, hl⟩

lemma entryAt_eq (h : 16 * k + 16 ≤ (g.dinode i).size.toNat) :
    entryAt g i (16 * k) = (g.node i).entry k := by
  rw [entryAt, Node.entry]
  congr 1
  refine List.ext_getElem? fun m => ?_
  rw [fileBytes_getElem?, List.getElem?_take, List.getElem?_drop, node, fileBytes_getElem?]
  split_ifs with h1 h2
  · rw [zero_add]
  · omega
  · rfl

lemma hasEntry_iff (hdir : (g.dinode i).type = .dir) :
    HasEntry g i name off inum ↔
      ∃ k e, off = 16 * k ∧ g.files.Has i k e ∧ e.inum = inum ∧ namecmp name e.name = 0 := by
  have ht : g.Typed i := by
    rw [Typed, hdir]
    decide
  constructor
  · rintro ⟨hmod, hin, hnum, h0, hname⟩
    obtain ⟨k, rfl⟩ : ∃ k, off = 16 * k := ⟨off / 16, by omega⟩
    rw [entryAt_eq hin] at hnum hname
    refine ⟨k, _, rfl, ⟨_, files_of_typed ht, hdir, ?_, rfl, hnum ▸ h0⟩, hnum, hname⟩
    rwa [length_content]
  · rintro ⟨k, e, rfl, ⟨n, hn, -, hlen, he, h0⟩, rfl, hname⟩
    obtain ⟨-, rfl⟩ := files_eq_some.mp hn
    rw [length_content] at hlen
    refine ⟨by omega, hlen, ?_, h0, ?_⟩ <;> rw [entryAt_eq hlen, he]
    exact hname

lemma lacks_files (hdir : (g.dinode i).type = .dir) (h : ∀ off inum, ¬ HasEntry g i name off inum) :
    g.files.Lacks i name :=
  fun k e hhas hname => h (16 * k) e.inum ((hasEntry_iff hdir).mpr ⟨k, e, rfl, hhas, rfl, hname⟩)

/-- **A new entry**, in the file system. -/
lemma Entered.files (h : Entered dp off inum name g g') (hdir : (g.dinode dp).type = .dir) :
    ∃ k, g.files.Vacant dp k ∧ g'.files = g.files.enter dp k inum name := by
  have ht : g.Typed dp := by
    rw [Typed, hdir]
    decide
  obtain ⟨k, rfl⟩ : ∃ k, off = 16 * k := ⟨off / 16, by have := h.aligned; omega⟩
  have hlen : (g.node dp).content.length = (g.dinode dp).size.toNat := length_content
  refine ⟨k, ⟨_, files_of_typed ht, hdir, ?_⟩, ?_⟩
  · rw [hlen]
    rcases h.place with hp | ⟨hp, h0⟩
    · exact .inl hp.symm
    · exact .inr ⟨hp, entryAt_eq hp ▸ h0⟩
  · refine h.wrote.files ht ?_ length_direntBytes fun m hm => ?_
    · rcases h.place with hp | hp <;> omega
    · rw [direntBytes, List.getElem?_map, List.getElem?_range hm]
      rfl

end Fs

end Xv6Riscv
