import Xv6Riscv.Fs.Tree

/-!
What the sections of system calls do between calls.

The specifications of the sections, for a disk that is tidy and on which all that is referred to is
allocated: the references afterwards, and the effect on the file system.
-/

namespace Xv6Riscv

open Fs Wp

namespace Fs

open Image

variable {F : Set Blockno} {s s' : Fs} {f f' : FileSys} {R : ℕ → ℤ} {i c : ℕ}

/-! ### Sections, exactly -/

/-- The state after a call that returned: the references are `R`, and the file system is in `P`. -/
structure Ended (s : Fs) (R : ℕ → ℤ) (P : FileSys → Prop) (s' : Fs) : Prop where
  rest : AtRest s'
  sb : s'.img.sb = s.img.sb
  ref : s'.ref = R
  files : P s'.img.files

/-- The ways a call does not stop on a tidy disk. -/
def Stops (e : FsPanic) : Prop := e ≠ .freeingFreeBlock ∧ e ≠ .unlinkNlink

lemma inOp_spec {α : Type} (k : ℕ) {m : FsM α} (R' : α → ℕ → ℤ) {P : α → FileSys → Prop}
    (h : AtRest s) (htidy : Tidy s.img)
    (hm : ∀ s1, At s.img.sb (fun _ => false) s.ref s1 → s1.img = s.img →
      Runs (HaltsUnless (Tidy s.img)) s.img.sb.bitmapBlocks k m s1 fun a s' =>
        At s.img.sb (fun _ => false) (R' a) s' ∧ P a s'.img.files) :
    wp (inOp m) (fun a => Ended s (R' a) (P a)) (fun e _ => Stops e) s := by
  refine wp_mono (inOp_within h.quiet (hm _ (h.state.congr rfl rfl rfl rfl) rfl)
    fun _ _ _ h => ⟨h.1.congr rfl rfl rfl rfl, h.2⟩) ?_ fun e _ h => ⟨h.2.1, h.2.2 htidy⟩
  rintro a s' ⟨-, ⟨hat, hP⟩, hq⟩
  exact ⟨hat.rest hq, hat.sb, hat.ref, hP⟩

lemma ended_refl {P : FileSys → Prop} (h : AtRest s) (hP : P s.img.files) : Ended s s.ref P s :=
  ⟨h, rfl, rfl, hP⟩

/-- The references when `sys_open` has returned the inode it opens. -/
def openRefs (R : ℕ → ℤ) (r : Option (ℕ × InodeType × ℤ)) : ℕ → ℤ :=
  r.elim R fun x => R + Pi.single x.1 1

section

variable (h : AtRest s) (htidy : Tidy s.img) (hc : 1 ≤ s.ref c)

include h htidy hc

lemma sysLink_spec (hdir : (s.img.dinode c).type = .dir) {old new : Option Path} :
    wp (sysLink c old new) (fun r => Ended s s.ref fun f' => Linking s.img.files f' r)
      (fun e _ => Stops e) s := by
  cases old with
  | none => exact ended_refl h .failed
  | some old =>
    cases new with
    | none => exact ended_refl h .failed
    | some new =>
      refine inOp_spec 4 (fun _ => s.ref) h htidy fun s1 h1 himg => ?_
      refine (linkBody_runs h1 hc subset_rfl).unless.imp fun r s2 ⟨h2, hl⟩ => ⟨h2, ?_⟩
      rw [himg] at hl
      exact hl htidy hdir

variable {path : Option Path}

lemma sysUnlink_spec :
    wp (sysUnlink c path) (fun r => Ended s s.ref fun f' => Unlinking s.ref s.img.files f' r)
      (fun e _ => Stops e) s := by
  cases path with
  | none => exact ended_refl h .failed
  | some path =>
    refine inOp_spec 4 (fun _ => s.ref) h htidy fun s1 h1 himg => ?_
    have hruns : Runs _ s.img.sb.bitmapBlocks 4 (unlinkBody c path) s1 _ :=
      unlinkBody_runs h1 hc subset_rfl
    rw [himg] at hruns
    exact hruns.imp fun r s2 ⟨h2, hl⟩ => ⟨h2, hl htidy⟩

lemma sysOpen_spec (hheld : Held s.ref s.img) {omode : UInt32} {room : Bool} :
    wp (sysOpen c path omode room) (fun r => Ended s (openRefs s.ref r) fun f' =>
      Opened omode room s.img.files f' r) (fun e _ => Stops e) s := by
  cases path with
  | none => exact ended_refl h .failed
  | some path =>
    refine inOp_spec 9 (openRefs s.ref) h htidy fun s1 h1 himg => ?_
    refine (openBody_runs h1 hc subset_rfl).unless.imp fun r s2 ⟨h2, ho⟩ => ⟨h2, ?_⟩
    rw [himg] at ho
    exact ho htidy hheld

/-- **`sys_mkdir` and `sys_mknod`**, between calls. -/
lemma makeBody_spec (hheld : Held s.ref s.img) {type : InodeType} {major minor : ℤ}
    (htype : type = .dir ∨ type = .device) :
    wp (inOp (makeBody c type major minor path)) (fun r => Ended s s.ref fun f' =>
      r = -1 ∧ f' = s.img.files ∨
        r = 0 ∧ ∃ ip, Making s.img.files ⟨type, major, minor, 1, []⟩ ip f')
        (fun e _ => Stops e) s := by
  refine inOp_spec 9 (fun _ => s.ref) h htidy fun s1 h1 himg => ?_
  refine (makeBody_runs h1 hc subset_rfl htype).unless.imp fun r s2 ⟨h2, hm⟩ => ⟨h2, ?_⟩
  rw [himg] at hm
  exact hm htidy hheld

lemma kexecLookup_spec {path : Path} {mem : ExecMemory} :
    wp (kexecLookup c path mem) (fun _ => Ended s s.ref fun f' => f' = s.img.files)
      (fun e _ => Stops e) s := by
  refine inOp_spec 1 (fun _ => s.ref) h htidy fun s1 h1 himg => ?_
  refine (kexecBody_runs h1 hc subset_rfl).unless.imp fun r s2 ⟨h2, hm⟩ => ⟨h2, ?_⟩
  rw [himg] at hm
  rw [hm htidy]

end

/-- A reference to `i`, of those in `R`, was given back. -/
def GaveBack (R : ℕ → ℤ) (i : ℕ) (f f' : FileSys) : Prop :=
  f' = f ∨ R i = 1 ∧ (∃ n, f i = some n ∧ n.nlink = 0) ∧ f' = Function.update f i none

lemma Dropped.gaveBack {g g' : Image} (h : Dropped i R g g') (hi : g.Typed i) :
    GaveBack R i g.files g'.files := by
  rcases h with rfl | ⟨hR, hn, hrec⟩
  · exact .inl rfl
  · exact .inr ⟨hR, ⟨_, files_of_typed hi, hn⟩, hrec.files⟩

/-- The references when `sys_chdir` has returned the new directory. -/
def chdirRefs (R : ℕ → ℤ) (c : ℕ) (r : Option ℕ) : ℕ → ℤ :=
  r.elim R fun ip => R + Pi.single ip 1 - Pi.single c 1

/-- The effect of `sys_chdir` in the directory `c`. -/
def ChangedDir (R : ℕ → ℤ) (c : ℕ) (f f' : FileSys) (r : Option ℕ) : Prop :=
  r = none ∧ f' = f ∨ ∃ ip n, r = some ip ∧ f ip = some n ∧ n.type = .dir ∧
    GaveBack (R + Pi.single ip 1) c f f'

section

variable (h : AtRest s)

include h

lemma sysChdir_spec (htidy : Tidy s.img) (hc : 1 ≤ s.ref c) (hheld : Held s.ref s.img)
    {path : Option Path} :
    wp (sysChdir c path) (fun r => Ended s (chdirRefs s.ref c r) fun f' =>
      ChangedDir s.ref c s.img.files f' r) (fun e _ => Stops e) s := by
  refine inOp_spec 1 (chdirRefs s.ref c) h htidy fun s1 h1 himg => ?_
  refine (chdirBody_runs h1 hc rfl subset_rfl).unless.imp ?_
  rw [himg]
  rintro _ s2 (⟨rfl, h2, himg2⟩ | ⟨ip, rfl, h2, hdir, hdrop⟩)
  · exact ⟨h2, .inl ⟨rfl, by rw [himg2 htidy]⟩⟩
  · have htip : s.img.Typed ip := by
      rw [Typed, hdir]
      decide
    exact ⟨h2, .inr ⟨ip, _, rfl, files_of_typed htip, hdir, hdrop.gaveBack (hheld c (by omega))⟩⟩

lemma closeInode_spec (htidy : Tidy s.img) (hi : 1 ≤ s.ref i) (hti : s.img.Typed i) :
    wp (closeInode i) (fun _ => Ended s (s.ref - Pi.single i 1) (GaveBack s.ref i s.img.files))
      (fun e _ => Stops e) s := by
  refine inOp_spec 1 (fun _ => s.ref - Pi.single i 1) h htidy fun s1 h1 himg => ?_
  refine (iput_cases h1 hi (by simp) subset_rfl).unless.imp fun _ s2 ⟨h2, hdrop⟩ => ⟨h2, ?_⟩
  rw [himg] at hdrop
  exact hdrop.gaveBack hti

lemma filewriteChunk_spec (htidy : Tidy s.img) {src : ℕ → Option UInt8} {off left : UInt32} :
    wp (filewriteChunk i src off left) (fun _ => Ended s s.ref fun f' =>
      f' = s.img.files ∨ ∃ c, f' = s.img.files.change i fun n => { n with content := c })
      (fun e _ => Stops e) s := by
  refine inOp_spec (pieces off.toNat
    (if chunkMax < left.toNat then UInt32.ofNat chunkMax else left).toNat + 2) (fun _ => s.ref) h
    htidy fun s1 h1 himg => ?_
  refine (writeBody_runs h1 subset_rfl).unless.imp ?_
  rw [himg]
  rintro r s2 ⟨h2, htyped, ⟨-, -, himg2⟩ | ⟨-, tot, -, hw⟩⟩
  · exact ⟨h2, .inl (by rw [himg2])⟩
  · exact ⟨h2, .inr (hw.files_content htyped)⟩

lemma Runs.spec {α : Type} {m : FsM α} {R' : ℕ → ℤ} {P : FileSys → Prop}
    (hm : Runs Halts ∅ 0 m s fun _ s' => At s.img.sb (fun _ => false) R' s' ∧ P s'.img.files) :
    wp m (fun _ => Ended s R' P) (fun e _ => Stops e) s := by
  refine wp_mono hm ?_ ?_
  · rintro a s' ⟨hl, hat, hP⟩
    have hlh := hl.length_le (Y := ∅) (by simp) h.quiet.lh
    refine ⟨hat.rest ⟨hl.outstanding.trans h.quiet.outstanding,
      hl.committing.trans h.quiet.committing, ?_⟩, hat.sb, hat.ref, hP⟩
    exact List.eq_nil_of_length_eq_zero (Nat.le_zero.mp hlh)
  · rintro e s' ⟨-, (⟨rfl, -⟩ | ⟨rfl, -⟩) | ⟨-, hfree, -, hun⟩⟩
    · exact ⟨by simp, by simp⟩
    · exact ⟨by simp, by simp⟩
    · exact ⟨hfree, hun⟩

lemma filereadInode_spec {dst : ℕ → Bool} {off n : UInt32} :
    wp (filereadInode i dst off n) (fun _ => Ended s s.ref fun f' => f' = s.img.files)
      (fun e _ => Stops e) s := by
  refine Runs.spec h (Runs.seq (ilock_runs h.state) fun _ s1 ⟨h1, hL, himg⟩ => ?_)
  refine Runs.bind_run (readi_eq h1.inv (h1.typed (Function.update_self ..))) ?_
  refine Runs.seq (iunlock_runs h1) fun _ s2 ⟨h2, _, himg2, _⟩ => Runs.pure ?_
  rw [relock hL] at h2
  exact ⟨h2, by rw [himg2, himg]⟩

lemma stat_spec :
    wp (do ilock i; iunlock i) (fun _ => Ended s s.ref fun f' => f' = s.img.files)
      (fun e _ => Stops e) s := by
  refine Runs.spec h (Runs.seq (ilock_runs h.state) fun _ s1 ⟨h1, hL, himg⟩ => ?_)
  refine Runs.imp (iunlock_runs h1) fun _ s2 ⟨h2, _, himg2, _⟩ => ?_
  rw [relock hL] at h2
  exact ⟨h2, by rw [himg2, himg]⟩

lemma idup_spec :
    wp (idup i) (fun _ => Ended s (s.ref + Pi.single i 1) fun f' => f' = s.img.files)
      (fun e _ => Stops e) s :=
  Runs.spec h ((idup_runs h.state).imp fun _ _ h => ⟨h.1, by rw [h.2.1]⟩)

end

/-! ### Inodes in use -/

/-- Inodes that are referred to stay, with their types. -/
def Keeps (R : ℕ → ℤ) (f f' : FileSys) : Prop :=
  ∀ i n, R i ≠ 0 → f i = some n → ∃ n', f' i = some n' ∧ n'.type = n.type

lemma Keeps.refl : Keeps R f f := fun _ n _ h => ⟨n, h, rfl⟩

lemma Keeps.trans {f'' : FileSys} (h : Keeps R f f') (h' : Keeps R f' f'') : Keeps R f f'' := by
  intro i n hR hi
  obtain ⟨n', hn', ht'⟩ := h i n hR hi
  obtain ⟨n'', hn'', ht''⟩ := h' i n' hR hn'
  exact ⟨n'', hn'', ht''.trans ht'⟩

lemma Keeps.change {u : Node → Node} (hu : ∀ n, (u n).type = n.type) :
    Keeps R f (f.change i u) := by
  intro j n _ hj
  by_cases hji : j = i
  · subst hji
    exact ⟨u n, by rw [FileSys.change_self, hj]; rfl, hu n⟩
  · exact ⟨n, (FileSys.change_of_ne hji).trans hj, rfl⟩

lemma Keeps.addLinks {l : ℤ} : Keeps R f (f.addLinks i l) := Keeps.change fun _ => rfl

lemma Keeps.write {off : ℕ} {b : List UInt8} : Keeps R f (f.write i off b) :=
  Keeps.change fun _ => rfl

lemma Keeps.update {x : Option Node} (hi : R i = 0 ∨ f i = none) :
    Keeps R f (Function.update f i x) := by
  intro j n hR hj
  have hji : j ≠ i := by
    rintro rfl
    rcases hi with h0 | hnone
    · exact hR h0
    · rw [hnone] at hj
      cases hj
  exact ⟨n, (Function.update_of_ne hji ..).trans hj, rfl⟩

lemma Linking.keeps {r : ℤ} (h : Linking f f' r) : Keeps R f f' := by
  cases h with
  | failed => exact .refl
  | linked dp k ip name n => exact Keeps.addLinks.trans .write

lemma Unlinking.keeps {r : ℤ} (h : Unlinking R f f' r) : Keeps R f f' := by
  cases h with
  | failed => exact .refl
  | removed dp k e n f' _ _ _ _ _ _ hrem =>
    have hun : Keeps R f (unlinked f dp k e.inum n) := by
      rw [unlinked]
      split_ifs
      · exact (Keeps.write.trans .addLinks).trans .addLinks
      · exact Keeps.write.trans .addLinks
    rcases hrem with rfl | ⟨-, hR, rfl⟩
    · exact hun
    · exact hun.trans (.update (.inl hR))

lemma Making.keeps {n : Node} {ip : ℕ} (h : Making f n ip f') : Keeps R f f' := by
  obtain ⟨dp, k, name, -, -, -, -, rfl⟩ := h.entry
  have hput : Keeps R f (f.put ip n) := .update (.inr h.free)
  have hdots : Keeps R f (withDots f dp ip n) := by
    rw [withDots]
    split_ifs
    · exact (hput.trans .write).trans .write
    · exact hput
  rw [made]
  split_ifs
  · exact (hdots.trans .write).trans .addLinks
  · exact hdots.trans .write

lemma Opened.keeps {omode : UInt32} {room : Bool} {r : Option (ℕ × InodeType × ℤ)}
    (h : Opened omode room f f' r) : Keeps R f f' := by
  cases h with
  | failed => exact .refl
  | stranded ip f' _ _ hm | created ip f' _ hm => exact hm.keeps
  | opened ip n => exact .refl
  | truncated ip n _ hn =>
    intro j n' _ hj
    by_cases hji : j = ip
    · subst hji
      rw [hn] at hj
      cases hj
      exact ⟨_, FileSys.put_self, rfl⟩
    · exact ⟨n', (FileSys.put_of_ne hji).trans hj, rfl⟩

lemma Opened.node {omode : UInt32} {room : Bool} {type : InodeType} {major : ℤ}
    (h : Opened omode room f f' (some (i, type, major))) :
    room = true ∧ ∃ n, f' i = some n ∧ (n.type = .dir → omode = 0) := by
  cases h with
  | opened ip n hroom hn hdir => exact ⟨hroom, n, hn, hdir⟩
  | truncated ip n hroom hn hfile =>
    exact ⟨hroom, _, FileSys.put_self, fun hdir => by rw [hfile] at hdir; cases hdir⟩
  | created ip f' hroom hm =>
    exact ⟨hroom, _, hm.file_self (by decide), fun hdir => by cases hdir⟩

lemma GaveBack.keeps (h : GaveBack R i f f') : Keeps (R - Pi.single i 1) f f' := by
  rcases h with rfl | ⟨hR, -, rfl⟩
  · exact .refl
  · refine .update (.inl ?_)
    rw [Pi.sub_apply, Pi.single_eq_same, hR, sub_self]

lemma GaveBack.tree (h : GaveBack R i f f') (hf : f.Tree) : f'.Tree := by
  rcases h with rfl | ⟨-, ⟨n, hn, h0⟩, rfl⟩
  · exact hf
  · exact hf.remove hn h0

end Fs

end Xv6Riscv
