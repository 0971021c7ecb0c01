import Xv6Riscv.Fs.Syscalls
import Xv6Riscv.Fs.System

/-!
Names, links and open files over all runs of the system.

* `link_counts`: the number of links of an inode is the number of entries that name it.
* `directory_tree`: the directories are a tree.
* `open_file_references`: the counts of open files, the ends of pipes and the references to inodes.
-/

namespace Xv6Riscv

open Fs Wp Tally DirTree FileSys

/-! ### Link counts -/

namespace FileSys

variable {f : FileSys} {i j : ℕ}

/-- The entries that count as links of `i`: not ".", and ".." only in linked directories. -/
def linkEntries (f : FileSys) (i : ℕ) : Set (ℕ × ℕ) :=
  {x | ∃ e, f.Has x.1 x.2 e ∧ e.inum = i ∧ namecmp e.name dot ≠ 0 ∧
    (namecmp e.name dotdot = 0 → f.Linked x.1)}

variable {e : Dirent} {k : ℕ}

lemma Has.isDir (h : f.Has j k e) : f.dirs.IsDir j := by
  obtain ⟨n, hn, hdir, -⟩ := h
  exact isDir_dirs.mpr ⟨n, hn, hdir⟩

lemma Has.entry (h : f.Has j k e) :
    f.dirs.entry j k = some (cname e.name, e.inum) := entry_eq_some.mpr ⟨e, h, rfl, rfl⟩

lemma Tree.name_zero (h : f.Tree) (he : f.Has j 0 e) : namecmp e.name dot = 0 ∧ e.inum = j := by
  have hentry := he.entry
  rw [h.dirs.self j he.isDir, Option.some.injEq, Prod.mk.injEq] at hentry
  exact ⟨namecmp_eq_zero.mpr hentry.1.symm, hentry.2.symm⟩

lemma Tree.name_one (h : f.Tree) (he : f.Has j 1 e) : namecmp e.name dotdot = 0 := by
  have hentry := he.entry
  obtain ⟨p, hp⟩ := h.dirs.up j he.isDir
  rw [hp, Option.some.injEq, Prod.mk.injEq] at hentry
  exact namecmp_eq_zero.mpr hentry.1.symm

lemma Tree.name_ordinary (h : f.Tree) (he : f.Has j k e) (hk : 2 ≤ k) :
    f.Linked j ∧ namecmp e.name dot ≠ 0 ∧ namecmp e.name dotdot ≠ 0 := by
  have hlinked := h.dirs.inLinked j k e.inum ⟨hk, _, he.entry⟩
  refine ⟨linked_dirs.mp hlinked, fun hdot => ?_, fun hdot => ?_⟩
  · have hentry := he.entry
    rw [namecmp_eq_zero.mp hdot] at hentry
    have := h.dirs.unique j k 0 _ _ _ hlinked hentry (h.dirs.self j he.isDir)
    omega
  · have hentry := he.entry
    obtain ⟨p, hp⟩ := h.dirs.up j he.isDir
    rw [namecmp_eq_zero.mp hdot] at hentry
    have := h.dirs.unique j k 1 _ _ _ hlinked hentry hp
    omega

lemma namecmp_dots {name : List UInt8} (h : namecmp name dotdot = 0) : namecmp name dot ≠ 0 := by
  rw [namecmp_eq_zero] at h
  rw [Ne, namecmp_eq_zero, h]
  decide

lemma Tree.linkEntries_eq (h : f.Tree) : f.linkEntries i = f.dirs.refs i := by
  ext ⟨j, k⟩
  constructor
  · rintro ⟨e, he, rfl, hdot, hup⟩
    rcases Nat.lt_or_ge k 2 with hk | hk
    · obtain rfl | rfl : k = 0 ∨ k = 1 := by omega
      · exact absurd (h.name_zero he).1 hdot
      · exact .inr ⟨rfl, linked_dirs.mpr (hup (h.name_one he)), _, he.entry⟩
    · exact .inl ⟨hk, _, he.entry⟩
  · rintro (⟨hk, a, ha⟩ | ⟨hk, hlinked, a, ha⟩)
    · obtain ⟨e, he, -, rfl⟩ := entry_eq_some.mp ha
      obtain ⟨hl, hdot, hdotdot⟩ := h.name_ordinary he hk
      exact ⟨e, he, rfl, hdot, fun _ => hl⟩
    · cases hk
      obtain ⟨e, he, -, rfl⟩ := entry_eq_some.mp ha
      exact ⟨e, he, rfl, namecmp_dots (h.name_one he), fun _ => linked_dirs.mp hlinked⟩

/-- The entry `m` of the directory `j` names `i`, and is not "." or "..". -/
def Names (f : FileSys) (j m i : ℕ) : Prop :=
  ∃ e, f.Has j m e ∧ e.inum = i ∧ namecmp e.name dot ≠ 0 ∧ namecmp e.name dotdot ≠ 0

lemma Tree.lt_two_iff (h : f.Tree) {m : ℕ} (he : f.Has j m e) :
    m < 2 ↔ namecmp e.name dot = 0 ∨ namecmp e.name dotdot = 0 := by
  constructor
  · intro hm
    obtain rfl | rfl : m = 0 ∨ m = 1 := by omega
    · exact .inl (h.name_zero he).1
    · exact .inr (h.name_one he)
  · intro hname
    by_contra hm
    obtain ⟨-, hdot, hdotdot⟩ := h.name_ordinary he (by omega)
    exact hname.elim hdot hdotdot

lemma Tree.names_iff (h : f.Tree) {m : ℕ} : f.Names j m i ↔ f.dirs.Child j m i := by
  constructor
  · rintro ⟨e, he, rfl, hdot, hdotdot⟩
    refine ⟨?_, _, he.entry⟩
    by_contra hm
    exact ((h.lt_two_iff he).mp (by omega)).elim hdot hdotdot
  · rintro ⟨hm, a, ha⟩
    obtain ⟨e, he, -, rfl⟩ := entry_eq_some.mp ha
    exact ⟨e, he, rfl, (h.name_ordinary he hm).2⟩

end FileSys

namespace Kern

variable {k : Kern}

/-- **Link counts are exact**: in every state between calls the number of links of an inode is the
number of entries that count, and within bounds; nothing names an inode that is not allocated; and
no call finds a link count too small. -/
theorem link_counts (h : Reachable k) :
    (∀ i n, k.files i = some n → (k.files.linkEntries i).Finite ∧
      n.nlink = (k.files.linkEntries i).ncard ∧ 0 ≤ n.nlink ∧ n.nlink ≤ nlinkMax) ∧
    (∀ i, k.files i = none → k.files.linkEntries i = ∅) ∧
    ∀ p c e k', Call.Enabled p k c → runFrom (c.run p) k = (.error e, k') →
      e ≠ .fs .unlinkNlink := by
  have htree := h.ok.tree
  refine ⟨fun i n hn => ?_, fun i hi => ?_, fun p c e k' hc hrun => ?_⟩
  · have hkind := kind_of_some hn
    have hcount := htree.dirs.count i _ _ hkind
    rw [htree.linkEntries_eq]
    exact ⟨htree.dirs.refs_finite i, hcount, by omega, htree.dirs.le_max i _ _ hkind⟩
  · rw [htree.linkEntries_eq]
    exact htree.dirs.refs_of_none (kind_eq_none.mpr hi)
  · rintro rfl
    exact (h.stops hc hrun).2 rfl

/-! ### A small system -/

lemma smallImage_files {i : ℕ} {n : Node} (h : smallImage.files i = some n) :
    i = rootino ∧ n = smallImage.node rootino := by
  obtain ⟨htyped, rfl⟩ := Image.files_eq_some.mp h
  obtain rfl := smallImage_typed.mp htyped
  exact ⟨rfl, rfl⟩

lemma smallImage_tree : smallImage.files.Tree := by
  have htyped : smallImage.Typed rootino := smallImage_typed.mpr rfl
  have hroot := Image.files_of_typed htyped
  have hlen : (smallImage.node rootino).content.length = 32 := Image.length_content
  have hnone : ∀ i, i ≠ rootino → smallImage.files i = none := fun i hi =>
    Image.files_eq_none (mt smallImage_typed.mp hi)
  refine ⟨⟨fun i n hn => ?_, fun i n hn _ => ?_⟩, ?_⟩
  · obtain ⟨rfl, -⟩ := smallImage_files hn
    decide
  · obtain ⟨rfl, rfl⟩ := smallImage_files hn
    rw [hlen]
  · refine Dirs.Tree.lone (by decide) (by decide) (kind_of_some hroot) (fun i hi => ?_)
      (by decide +kernel) (by decide +kernel) fun p k hpk => ?_
    · exact kind_eq_none.mpr (hnone i hi)
    · refine FileSys.entry_eq_none.mpr fun e ⟨n, hn, _, hk, _⟩ => ?_
      obtain ⟨rfl, rfl⟩ := smallImage_files hn
      rw [hlen] at hk
      rcases hpk with hp | hk2
      · exact hp rfl
      · omega

/-- The small disk with the first process, before any call. -/
def smallKern : Kern where
  fs := smallFs
  file _ := ⟨.none, 0, false, false, 0, 0, 0, 0⟩
  ofile _ _ := none
  cwd := Function.update (fun _ => none) 0 (some rootino)
  pipes _ := none
  pipesMade := []
  pipesFreed := []

lemma smallKern_booted : Booted 0 smallKern where
  rest := smallFs_rest
  ninodes := by decide
  tree := smallImage_tree
  ref := by
    funext i
    rw [Pi.single_apply]
    rfl
  cwd := rfl
  ofile _ _ := rfl
  file _ := ⟨rfl, rfl⟩
  pipes _ := rfl
  made := rfl
  freed := rfl

lemma smallKern_reachable : Reachable smallKern := .boot 0 _ smallKern_booted

/-- The state after a call of the first process. -/
def afterCall (k : Kern) (c : Call) : Kern := (runFrom (c.run 0) k).2

lemma Reachable.after {c : Call} {r : ℤ} (h : Reachable k ∧ k.cwd 0 ≠ none)
    (hc : k.cwd 0 ≠ none → c.Enabled 0 k)
    (hr : (runFrom (c.run 0) k).1 = .ok r ∧ (k.afterCall c).cwd 0 ≠ none) :
    Reachable (k.afterCall c) ∧ (k.afterCall c).cwd 0 ≠ none :=
  ⟨.call 0 c r k _ h.1 (hc h.2) (Prod.ext hr.1 rfl), hr.2⟩

/-- The first process makes the directory "d", creates the file "f" and opens it, links it as
"d/g". -/
def linkedKern : Kern :=
  ((smallKern.afterCall (.mkdir (some [100]))).afterCall
    (.openFile (some [102]) (oCreate ||| oRdwr))).afterCall
    (.link (some [102]) (some [100, 47, 103]))

/-- Then it makes a pipe in the page `7`, and duplicates the descriptor of the file. -/
def busyKern : Kern := (linkedKern.afterCall (.pipe (some 7) true)).afterCall (.dup 0)

lemma linkedKern_reachable : Reachable linkedKern ∧ linkedKern.cwd 0 ≠ none := by
  have hdir := Reachable.after (c := .mkdir (some [100])) (r := 0)
    ⟨smallKern_reachable, by decide⟩ id (by decide +kernel)
  have hopen := Reachable.after (c := .openFile (some [102]) (oCreate ||| oRdwr)) (r := 0) hdir id
    (by decide +kernel)
  exact Reachable.after (r := 0) hopen id (by decide +kernel)

lemma busyKern_reachable : Reachable busyKern := by
  have hpipe := Reachable.after (c := .pipe (some 7) true) (r := 0) linkedKern_reachable
    (fun h => ⟨h, by decide +kernel⟩) (by decide +kernel)
  exact (Reachable.after (r := 3) hpipe id (by decide +kernel)).1

/-- The file has the two names it was given; the root has its own ".." and that of the new
directory. -/
theorem link_counts_linked : Reachable linkedKern ∧
    (linkedKern.files.linkEntries 3).ncard = 2 ∧
    (linkedKern.files.linkEntries rootino).ncard = 2 := by
  have hlinks : ∀ i ∈ [3, rootino], ((linkedKern.files i).map fun n => n.nlink) = some 2 := by
    decide +kernel
  have hcount : ∀ i ∈ [3, rootino], (linkedKern.files.linkEntries i).ncard = 2 := by
    intro i hi
    obtain ⟨n, hn, hlink⟩ := Option.map_eq_some_iff.mp (hlinks i hi)
    have := ((link_counts linkedKern_reachable.1).1 i n hn).2.1
    omega
  exact ⟨linkedKern_reachable.1, hcount 3 (by simp), hcount rootino (by simp)⟩

/-! ### Directories -/

/-- **The directories are a tree**: in every state between calls they have whole entries; in the
linked ones names are unique, the first two entries are "." and "..", all entries name allocated
inodes; and the linked directories are a tree with the root `rootino`, in which every other
directory is named by exactly one entry, in its parent. -/
theorem directory_tree (h : Reachable k) :
    (∀ j n, k.files j = some n → n.type = .dir → n.content.length % 16 = 0) ∧
    (∀ j a b e e', k.files.Linked j → k.files.Has j a e → k.files.Has j b e' →
      namecmp e.name e'.name = 0 → a = b) ∧
    (∀ j, k.files.Linked j → (∃ e, k.files.Has j 0 e ∧ namecmp e.name dot = 0 ∧ e.inum = j) ∧
      ∃ e, k.files.Has j 1 e ∧ namecmp e.name dotdot = 0 ∧ k.files.Linked e.inum ∧
        if j = rootino then e.inum = rootino else ∃ m, k.files.Names e.inum m j) ∧
    (∀ j m e, k.files.Linked j → k.files.Has j m e →
      (m < 2 ↔ namecmp e.name dot = 0 ∨ namecmp e.name dotdot = 0)) ∧
    (∀ j m e, k.files.Linked j → k.files.Has j m e → k.files e.inum ≠ none) ∧
    k.files.Linked rootino ∧ (∀ j m, ¬ k.files.Names j m rootino) ∧
    (∀ j, k.files.Linked j → j ≠ rootino → ∃! x : ℕ × ℕ, k.files.Names x.1 x.2 j) ∧
    ∀ j, k.files.Linked j → Relation.ReflTransGen
      (fun a b => k.files.Linked a ∧ ∃ e, k.files.Has a 1 e ∧ e.inum = b) j rootino := by
  have htree := h.ok.tree
  refine ⟨htree.sized.aligned, fun j a b e e' hj he he' hname => ?_, fun j hj => ⟨?_, ?_⟩,
    fun j m e hj he => htree.lt_two_iff he, fun j m e hj he hnone => ?_,
    linked_dirs.mp htree.dirs.root_linked, fun j m hn => ?_, fun j hj hroot => ?_, fun j hj => ?_⟩
  · refine htree.dirs.unique j a b _ _ e'.inum (linked_dirs.mpr hj) he.entry ?_
    rw [he'.entry, namecmp_eq_zero.mp hname]
  · obtain ⟨e, he, -⟩ := entry_eq_some.mp (htree.dirs.self j (linked_dirs.mpr hj).isDir)
    exact ⟨e, he, htree.name_zero he⟩
  · obtain ⟨p, hp⟩ := htree.dirs.up j (linked_dirs.mpr hj).isDir
    obtain ⟨e, he, -, rfl⟩ := entry_eq_some.mp hp
    have hup := htree.dirs.child_of_up (linked_dirs.mpr hj) ⟨_, hp⟩
    refine ⟨e, he, htree.name_one he, ?_⟩
    split_ifs with hroot
    · have hself : e.inum = rootino := Dirs.Up.unique ⟨_, hroot ▸ hp⟩ htree.dirs.root_up
      exact ⟨hself ▸ linked_dirs.mp htree.dirs.root_linked, hself⟩
    · obtain ⟨hj', -⟩ | ⟨m, hm⟩ := hup
      · exact absurd hj' hroot
      · exact ⟨linked_dirs.mp (htree.dirs.inLinked _ m j hm), m, htree.names_iff.mpr hm⟩
  · exact htree.dirs.named j m _ _ (linked_dirs.mpr hj) he.entry (kind_eq_none.mpr hnone)
  · exact htree.dirs.root_child j m (htree.names_iff.mp hn)
  · obtain ⟨p, m, hc, -⟩ := htree.dirs.parent j (linked_dirs.mpr hj) hroot
    refine ⟨(p, m), htree.names_iff.mpr hc, fun ⟨q, m'⟩ hq => ?_⟩
    obtain ⟨rfl, rfl⟩ := htree.dirs.once j q m' p m (linked_dirs.mpr hj).isDir
      (htree.names_iff.mp hq) hc
    rfl
  · refine Relation.ReflTransGen.mono ?_ _ _ (htree.dirs.reach j (linked_dirs.mpr hj))
    rintro a b ⟨ha, name, hb⟩
    obtain ⟨e, he, -, rfl⟩ := entry_eq_some.mp hb
    exact ⟨linked_dirs.mp ha, e, he, rfl⟩

/-- The new directory is linked, one entry names it, and its ".." leads to the root. -/
theorem directory_tree_linked : Reachable linkedKern ∧ linkedKern.files.Linked 2 ∧
    (∃! x : ℕ × ℕ, linkedKern.files.Names x.1 x.2 2) ∧
    Relation.ReflTransGen (fun a b => linkedKern.files.Linked a ∧
      ∃ e, linkedKern.files.Has a 1 e ∧ e.inum = b) 2 rootino := by
  have hlinked : linkedKern.files.Linked 2 := by
    have hdir : ((linkedKern.files 2).map fun n => (n.type, n.nlink)) = some (.dir, 1) := by
      decide +kernel
    obtain ⟨n, hn, hkind⟩ := Option.map_eq_some_iff.mp hdir
    rw [Prod.mk.injEq] at hkind
    exact ⟨n, hn, hkind.1, by rw [hkind.2]; decide⟩
  obtain ⟨-, -, -, -, -, -, -, honce, hup⟩ := directory_tree linkedKern_reachable.1
  exact ⟨linkedKern_reachable.1, hlinked, honce 2 hlinked (by decide), hup 2 hlinked⟩

/-! ### Open files -/

lemma Ok.slots_eq (h : k.Ok) (x : Fin nfile) :
    (k.file x).ref = {q : Fin nproc × Fin nofile | k.ofile q.1 q.2 = some x}.ncard := by
  have href := h.file_ref x
  rw [Pi.zero_apply, add_zero] at href
  rw [href]
  exact tally_eq_ncard _ x

lemma Ok.pos_of_type (h : k.Ok) {x : Fin nfile} (hx : (k.file x).type ≠ .none) :
    0 < (k.file x).ref := by
  have hne : (k.file x).ref ≠ 0 := fun h0 => hx (h.closed x h0)
  have := h.slots_eq x
  omega

lemma Ok.isOpen_iff (h : k.Ok) {pi : ℕ} {w : Bool} :
    ((k.pipes pi).any fun e => e.isOpen w) = true ↔
      ∃ x, (k.file x).type = .pipe ∧ (k.file x).pipe = pi ∧ (k.file x).writable = w ∧
        0 < (k.file x).ref := by
  have hends := congrFun h.ends (pi, w)
  rw [add_zero, openEnds] at hends
  have hend : ∀ x, (k.file x).pipeEnd = some (pi, w) ↔
      (k.file x).type = .pipe ∧ (k.file x).pipe = pi ∧ (k.file x).writable = w := by
    intro x
    rw [File.pipeEnd]
    split_ifs with hx
    · simp [hx]
    · simp [hx]
  constructor
  · intro hopen
    rw [if_pos hopen] at hends
    obtain ⟨x, hx⟩ := exists_of_tally_ne (f := fun x => (k.file x).pipeEnd) (b := (pi, w))
      (by change k.ends (pi, w) ≠ 0; omega)
    obtain ⟨htype, hpi, hw⟩ := (hend x).mp hx
    exact ⟨x, htype, hpi, hw, h.pos_of_type (by rw [htype]; decide)⟩
  · rintro ⟨x, htype, hpi, hw, -⟩
    have hone : 1 ≤ k.ends (pi, w) :=
      one_le_tally (f := fun x => (k.file x).pipeEnd) (i := x) ((hend x).mpr ⟨htype, hpi, hw⟩)
    by_contra hno
    rw [if_neg hno] at hends
    omega

/-- **The references of open files**: in every state between calls, each count of an entry is the
number of descriptors; a free entry has no type; the ends of a pipe are open as long as there are
entries for them; each page of a pipe that is not in use was freed as often as it was made a pipe;
the references to inodes are the current directories and the entries; and no call finds one of the
counts too small, or the page of a pipe freed. -/
theorem open_file_references (h : Reachable k) :
    (∀ x, (k.file x).ref = {q : Fin nproc × Fin nofile | k.ofile q.1 q.2 = some x}.ncard) ∧
    (∀ x, (k.file x).ref = 0 → (k.file x).type = .none) ∧
    (∀ pi e, k.pipes pi = some e →
      (e.readopen = true ↔ ∃ x, (k.file x).type = .pipe ∧ (k.file x).pipe = pi ∧
        (k.file x).writable = false ∧ 0 < (k.file x).ref) ∧
      (e.writeopen = true ↔ ∃ x, (k.file x).type = .pipe ∧ (k.file x).pipe = pi ∧
        (k.file x).writable = true ∧ 0 < (k.file x).ref) ∧
      (e.readopen = true ∨ e.writeopen = true)) ∧
    (∀ x, (k.file x).type = .pipe → k.pipes (k.file x).pipe ≠ none) ∧
    (∀ pi, k.pipesMade.count pi = k.pipesFreed.count pi + if (k.pipes pi).isSome then 1 else 0) ∧
    (∀ i, k.fs.ref i = {q | k.cwd q = some i}.ncard +
      {x | ((k.file x).type = .inode ∨ (k.file x).type = .device) ∧ (k.file x).ip = i}.ncard) ∧
    ∀ p c e k', Call.Enabled p k c → runFrom (c.run p) k = (.error e, k') →
      e ≠ .filedup ∧ e ≠ .fileclose ∧ e ≠ .pipeGone := by
  have hok := h.ok
  refine ⟨hok.slots_eq, hok.closed, fun pi e he => ⟨?_, ?_, hok.halfOpen pi e he⟩,
    fun x hx hnone => ?_, hok.pages, fun i => ?_, fun p c e k' hc hrun => ?_⟩
  · rw [← hok.isOpen_iff, he]
    rfl
  · rw [← hok.isOpen_iff, he]
    rfl
  · have hopen := hok.isOpen_iff.mpr ⟨x, hx, rfl, rfl, hok.pos_of_type (by rw [hx]; decide)⟩
    rw [hnone] at hopen
    cases hopen
  · rw [hok.ref_eq, Pi.zero_apply, add_zero, holders, Pi.add_apply, tally_eq_ncard, tally_eq_ncard]
    congr 3
    ext x
    simp [File.holds]
  · have hstops := h.stops hc hrun
    exact ⟨fun he => by rw [he] at hstops; exact hstops,
      fun he => by rw [he] at hstops; exact hstops, fun he => by rw [he] at hstops; exact hstops⟩

/-- The open file has two descriptors and is one reference to its inode; the pipe has an open file
for its end to write. -/
theorem open_file_references_busy : Reachable busyKern ∧
    {q : Fin nproc × Fin nofile | busyKern.ofile q.1 q.2 = some ⟨0, by decide⟩}.ncard = 2 ∧
    {q | busyKern.cwd q = some 3}.ncard +
      {x | ((busyKern.file x).type = .inode ∨ (busyKern.file x).type = .device) ∧
        (busyKern.file x).ip = 3}.ncard = 1 ∧
    ∃ x, (busyKern.file x).type = .pipe ∧ (busyKern.file x).pipe = 7 ∧
      (busyKern.file x).writable = true ∧ 0 < (busyKern.file x).ref := by
  obtain ⟨hslots, -, hends, -, -, hrefs, -⟩ := open_file_references busyKern_reachable
  obtain ⟨href, hino, hpipe⟩ : (busyKern.file ⟨0, by decide⟩).ref = 2 ∧ busyKern.fs.ref 3 = 1 ∧
      busyKern.pipes 7 = some ⟨true, true⟩ := by decide +kernel
  refine ⟨busyKern_reachable, ?_, ?_, (hends 7 _ hpipe).2.1.mp rfl⟩
  · have := hslots ⟨0, by decide⟩
    omega
  · have := hrefs 3
    omega

end Kern

end Xv6Riscv
