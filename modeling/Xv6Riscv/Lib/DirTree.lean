import Mathlib.Data.Set.Card
import Mathlib.Logic.Relation
import Mathlib.Tactic

/-!
Trees of directories with link counts.

A node is a leaf or a directory and has a number of links. A directory has numbered entries, each
with a name and the node it names. The entries `0` and `1` of a directory are special: the first
names the directory itself, the second its parent. The other entries are ordinary. A directory
without links has been removed: it may still be there, but it is no longer part of the tree.

The number of links of a node is the number of ordinary entries that name it, and of the linked
directories whose parent it is.

* `Dirs`: nodes and entries. `Dirs.Tree`: the invariant.
* `Tree.drop`, `Tree.addLeaf`, `Tree.addDir`, `Tree.removeLeaf`, `Tree.removeDir`: it is kept when a
  node without links goes, and when an entry comes or goes together with the links it stands for.
* `Tree.lone`: the tree of a root directory.
-/

namespace DirTree

open Function (update update_apply update_of_ne update_self)
open Relation

variable {ι ν : Type*}

/-- Nodes, each a directory or not and with its number of links, and the entries of directories. -/
structure Dirs (ι ν : Type*) where
  kind : ι → Option (Bool × ℤ)
  entry : ι → ℕ → Option (ν × ι)

namespace Dirs

variable {d : Dirs ι ν} {i j p q : ι} {k m : ℕ} {a : ν}

def IsDir (d : Dirs ι ν) (i : ι) : Prop := ∃ l, d.kind i = some (true, l)

/-- The node is a directory that has not been removed. -/
def Linked (d : Dirs ι ν) (i : ι) : Prop := ∃ l, d.kind i = some (true, l) ∧ l ≠ 0

/-- The ordinary entry `k` of `p` names `i`. -/
def Child (d : Dirs ι ν) (p : ι) (k : ℕ) (i : ι) : Prop := 2 ≤ k ∧ ∃ a, d.entry p k = some (a, i)

/-- The parent of `i` is `p`. -/
def Up (d : Dirs ι ν) (i p : ι) : Prop := ∃ a, d.entry i 1 = some (a, p)

/-- From a linked directory to its parent. -/
def Step (d : Dirs ι ν) (i p : ι) : Prop := d.Linked i ∧ d.Up i p

/-- The entries that count as links of `i`. -/
def refs (d : Dirs ι ν) (i : ι) : Set (ι × ℕ) := {x | d.Child x.1 x.2 i ∨ x.2 = 1 ∧ d.Step x.1 i}

/-- The linked directories are a tree, and the numbers of links are right. -/
structure Tree (dot dotdot : ν) (root : ι) (max : ℤ) (d : Dirs ι ν) : Prop where
  dirs : ∀ p k x, d.entry p k = some x → d.IsDir p
  finite : {x : ι × ℕ | d.entry x.1 x.2 ≠ none}.Finite
  self : ∀ i, d.IsDir i → d.entry i 0 = some (dot, i)
  up : ∀ i, d.IsDir i → ∃ p, d.entry i 1 = some (dotdot, p)
  unique : ∀ p k m a i j, d.Linked p → d.entry p k = some (a, i) → d.entry p m = some (a, j) → k = m
  named : ∀ p k a i, d.Linked p → d.entry p k = some (a, i) → d.kind i ≠ none
  inLinked : ∀ p k i, d.Child p k i → d.Linked p
  count : ∀ i b l, d.kind i = some (b, l) → l = (d.refs i).ncard
  le_max : ∀ i b l, d.kind i = some (b, l) → l ≤ max
  root_linked : d.Linked root
  root_up : d.Up root root
  root_child : ∀ p k, ¬ d.Child p k root
  parent : ∀ i, d.Linked i → i ≠ root → ∃ p k, d.Child p k i ∧ d.Up i p
  once : ∀ i p k q m, d.IsDir i → d.Child p k i → d.Child q m i → p = q ∧ k = m
  reach : ∀ i, d.Linked i → ReflTransGen d.Step i root

lemma Linked.isDir (h : d.Linked i) : d.IsDir i := by
  obtain ⟨l, hl, -⟩ := h
  exact ⟨l, hl⟩

lemma Up.unique (h : d.Up i p) (h' : d.Up i q) : p = q := by
  obtain ⟨a, ha⟩ := h
  obtain ⟨b, hb⟩ := h'
  rw [ha] at hb
  cases hb
  rfl

namespace Tree

variable {dot dotdot : ν} {root : ι} {max : ℤ}

section

variable (h : Tree dot dotdot root max d)

include h

lemma refs_finite (i : ι) : (d.refs i).Finite := by
  refine h.finite.subset fun x hx => ?_
  rcases hx with ⟨-, a, ha⟩ | ⟨hk, -, a, ha⟩
  · exact fun he => by rw [ha] at he; cases he
  · change d.entry x.1 x.2 ≠ none
    rw [hk, ha]
    exact Option.some_ne_none _

lemma refs_eq_empty {b : Bool} (hi : d.kind i = some (b, 0)) : d.refs i = ∅ := by
  have hcount := h.count i b 0 hi
  rwa [eq_comm, Nat.cast_eq_zero, Set.ncard_eq_zero (h.refs_finite i)] at hcount

lemma refs_of_none (hi : d.kind i = none) : d.refs i = ∅ := by
  refine Set.eq_empty_iff_forall_notMem.mpr fun x hx => ?_
  rcases hx with hc | ⟨-, hl, a, ha⟩
  · obtain ⟨-, a, ha⟩ := id hc
    exact h.named _ _ a i (h.inLinked _ _ i hc) ha hi
  · exact h.named _ _ a i hl ha hi

/-- The entry of a linked directory that names `i` is a link, or names the directory itself. -/
lemma mem_refs (hp : d.Linked p) (he : d.entry p k = some (a, i)) :
    (p, k) ∈ d.refs i ∨ k = 0 ∧ i = p := by
  rcases Nat.lt_or_ge k 2 with hk | hk
  · obtain rfl | rfl : k = 0 ∨ k = 1 := by omega
    · rw [h.self p hp.isDir] at he
      cases he
      exact .inr ⟨rfl, rfl⟩
    · exact .inl (.inr ⟨rfl, hp, a, he⟩)
  · exact .inl (.inl ⟨hk, a, he⟩)

lemma two_le_of_free (hp : d.Linked p) (he : d.entry p k = none) : 2 ≤ k := by
  by_contra hlt
  obtain rfl | rfl : k = 0 ∨ k = 1 := by omega
  · rw [h.self p hp.isDir] at he
    cases he
  · obtain ⟨q, hq⟩ := h.up p hp.isDir
    rw [hq] at he
    cases he

/-- A directory that is named by an ordinary entry has this parent. -/
lemma up_of_child (hi : d.Linked i) (hc : d.Child p k i) : d.Up i p := by
  have hroot : i ≠ root := by
    rintro rfl
    exact h.root_child p k hc
  obtain ⟨q, m, hq, hup⟩ := h.parent i hi hroot
  rwa [(h.once i p k q m hi.isDir hc hq).1]

/-- A directory that is the parent of another has an entry for it. -/
lemma child_of_up (hj : d.Linked j) (hup : d.Up j i) :
    j = root ∧ i = root ∨ ∃ k, d.Child i k j := by
  by_cases hroot : j = root
  · subst hroot
    exact .inl ⟨rfl, hup.unique h.root_up⟩
  · obtain ⟨p, k, hc, hp⟩ := h.parent j hj hroot
    exact .inr ⟨k, hup.unique hp ▸ hc⟩

/-- A directory with a directory in it has at least two links. -/
lemma two_le (hi : d.Linked i) (hc : d.Child p k i) {l : ℤ} (hl : d.kind p = some (true, l)) :
    2 ≤ l := by
  have hup := h.up_of_child hi hc
  have hmem : (i, 1) ∈ d.refs p := .inr ⟨rfl, hi, hup⟩
  -- the other link: the entry of `p` itself, or the parent of the root
  obtain ⟨x, hx, hne⟩ : ∃ x ∈ d.refs p, x ≠ (i, 1) := by
    by_cases hroot : p = root
    · subst hroot
      refine ⟨(p, 1), .inr ⟨rfl, h.root_linked, h.root_up⟩, ?_⟩
      rintro ⟨⟩
      exact h.root_child _ _ hc
    · obtain ⟨q, m, hq, -⟩ := h.parent p (h.inLinked p k i hc) hroot
      refine ⟨(q, m), .inl hq, ?_⟩
      rintro ⟨⟩
      exact absurd hq.1 (by decide)
  have hsub : ({x, (i, 1)} : Set (ι × ℕ)) ⊆ d.refs p := by
    rintro y (rfl | rfl)
    · exact hx
    · exact hmem
  have hcard := Set.ncard_le_ncard hsub (h.refs_finite p)
  rw [Set.ncard_pair hne] at hcard
  rw [h.count p true l hl]
  exact_mod_cast hcard

end

end Tree

/-! ### Nodes that go -/

section

variable [DecidableEq ι]

/-- Without the node `i`. -/
def drop (d : Dirs ι ν) (i : ι) : Dirs ι ν where
  kind := update d.kind i none
  entry := update d.entry i fun _ => none

def link (d : Dirs ι ν) (i : ι) (n : ℤ) : Dirs ι ν :=
  { d with kind := update d.kind i ((d.kind i).map fun x => (x.1, x.2 + n)) }

/-- With the node `i`. -/
def setKind (d : Dirs ι ν) (i : ι) (b : Bool) (l : ℤ) : Dirs ι ν :=
  { d with kind := update d.kind i (some (b, l)) }

def setEntry (d : Dirs ι ν) (p : ι) (k : ℕ) (x : Option (ν × ι)) : Dirs ι ν :=
  { d with entry := update d.entry p (update (d.entry p) k x) }

variable {x : Option (ν × ι)}

lemma entry_setEntry (q : ι) (m : ℕ) :
    (d.setEntry p k x).entry q m = if q = p ∧ m = k then x else d.entry q m := by
  change update d.entry p (update (d.entry p) k x) q m = _
  by_cases hq : q = p
  · subst hq
    rw [update_self, update_apply]
    simp
  · rw [update_of_ne hq, if_neg fun h => hq h.1]

lemma entry_drop (q : ι) (m : ℕ) : (d.drop i).entry q m = if q = i then none else d.entry q m := by
  change update d.entry i (fun _ => none) q m = _
  by_cases hq : q = i
  · subst hq
    rw [update_self, if_pos rfl]
  · rw [update_of_ne hq, if_neg hq]

section

variable {l : ℤ} (hi : ¬ d.IsDir i)

include hi

lemma isDir_setLeaf (j : ι) : ((d.setKind i false l).setEntry p k x).IsDir j ↔ d.IsDir j := by
  change (∃ l', update d.kind i (some (false, l)) j = some (true, l')) ↔ _
  by_cases hj : j = i
  · subst hj
    rw [update_self]
    exact iff_of_false (fun ⟨_, hl⟩ => by cases hl) hi
  · rw [update_of_ne hj, IsDir]

lemma linked_setLeaf (j : ι) : ((d.setKind i false l).setEntry p k x).Linked j ↔ d.Linked j := by
  change (∃ l', update d.kind i (some (false, l)) j = some (true, l') ∧ l' ≠ 0) ↔ _
  by_cases hj : j = i
  · subst hj
    rw [update_self]
    exact iff_of_false (fun ⟨_, hl, _⟩ => by cases hl) fun hl => hi hl.isDir
  · rw [update_of_ne hj, Linked]

lemma step_setLeaf (hk : 2 ≤ k) : ((d.setKind i false l).setEntry p k x).Step = d.Step := by
  funext j q
  rw [Step, Up, entry_setEntry, if_neg (by omega)]
  exact propext (and_congr_left' (linked_setLeaf hi j))

/-- The links after the ordinary entry `k` of `p` has been set. -/
lemma mem_refs_setLeaf (hk : 2 ≤ k) (y : ι × ℕ) :
    y ∈ ((d.setKind i false l).setEntry p k x).refs j ↔
      if y = (p, k) then ∃ a, x = some (a, j) else y ∈ d.refs j := by
  rw [refs, Set.mem_ofPred_eq, step_setLeaf hi hk, Child, entry_setEntry]
  split_ifs with h1 h2 h2
  · subst h2
    refine ⟨fun hy => ?_, fun hx => .inl ⟨hk, hx⟩⟩
    rcases hy with ⟨-, hx⟩ | ⟨h1, -⟩
    · exact hx
    · change k = 1 at h1
      omega
  · exact absurd (Prod.ext h1.1 h1.2) h2
  · exact absurd ⟨congrArg Prod.fst h2, congrArg Prod.snd h2⟩ h1
  · rfl

end

namespace Tree

variable {dot dotdot : ν} {root : ι} {max : ℤ}

/-- **A node without links** can go. -/
theorem drop (h : Tree dot dotdot root max d) {b : Bool} (hi : d.kind i = some (b, 0)) :
    Tree dot dotdot root max (d.drop i) := by
  have hnot : ¬ d.Linked i := by
    rintro ⟨l, hl, h0⟩
    rw [hi] at hl
    cases hl
    exact h0 rfl
  have hempty := h.refs_eq_empty hi
  have hkind : ∀ {j}, j ≠ i → (d.drop i).kind j = d.kind j := fun hj => update_of_ne hj ..
  have hself : (d.drop i).kind i = none := update_self ..
  have hne : ∀ {j x}, (d.drop i).kind j = some x → j ≠ i := by
    rintro j x hj rfl
    rw [hself] at hj
    cases hj
  have hentry : ∀ {q m}, q ≠ i → (d.drop i).entry q m = d.entry q m := fun hq => by
    rw [entry_drop, if_neg hq]
  have hentry' : ∀ {q m y}, (d.drop i).entry q m = some y → q ≠ i ∧ d.entry q m = some y := by
    intro q m y hy
    rw [entry_drop] at hy
    split_ifs at hy with hq
    exact ⟨hq, hy⟩
  have hlinked : ∀ j, (d.drop i).Linked j ↔ d.Linked j := by
    intro j
    constructor
    · rintro ⟨l, hl, h0⟩
      exact ⟨l, hkind (hne hl) ▸ hl, h0⟩
    · intro hj
      have hji : j ≠ i := fun he => hnot (he ▸ hj)
      rwa [Linked, hkind hji]
  have hdir : ∀ {j}, (d.drop i).IsDir j → j ≠ i ∧ d.IsDir j := by
    rintro j ⟨l, hl⟩
    exact ⟨hne hl, l, hkind (hne hl) ▸ hl⟩
  have hchild : ∀ q m j, (d.drop i).Child q m j ↔ d.Child q m j := by
    intro q m j
    constructor
    · rintro ⟨hm, a, ha⟩
      exact ⟨hm, a, (hentry' ha).2⟩
    · intro hc
      have hq : q ≠ i := fun he => hnot (he ▸ h.inLinked q m j hc)
      rwa [Child, hentry hq]
  have hstep : ∀ j q, (d.drop i).Step j q ↔ d.Step j q := by
    intro j q
    rw [Step, Step, hlinked]
    refine and_congr_right fun hj => ?_
    rw [Up, hentry fun he => hnot (he ▸ hj), Up]
  have hrefs : (d.drop i).refs = d.refs := by
    funext j
    simp only [refs, hchild, hstep]
  have hstep' : (d.drop i).Step = d.Step := by
    funext j q
    exact propext (hstep j q)
  exact
    { dirs := fun q m y hy => by
        obtain ⟨hq, hy⟩ := hentry' hy
        obtain ⟨l, hl⟩ := h.dirs q m y hy
        exact ⟨l, (hkind hq).trans hl⟩
      finite := h.finite.subset fun y hy => by
        change (d.drop i).entry y.1 y.2 ≠ none at hy
        obtain ⟨z, hz⟩ := Option.ne_none_iff_exists'.mp hy
        exact fun he => by rw [(hentry' hz).2] at he; cases he
      self := fun j hj => by
        obtain ⟨hji, hj⟩ := hdir hj
        rw [hentry hji]
        exact h.self j hj
      up := fun j hj => by
        obtain ⟨hji, hj⟩ := hdir hj
        rw [hentry hji]
        exact h.up j hj
      unique := fun q m m' a j j' hq h1 h2 =>
        h.unique q m m' a j j' ((hlinked q).mp hq) (hentry' h1).2 (hentry' h2).2
      named := fun q m a j hq he => by
        obtain ⟨hqi, he'⟩ := hentry' he
        have hq' := (hlinked q).mp hq
        have hji : j ≠ i := by
          rintro rfl
          rcases h.mem_refs hq' he' with hmem | ⟨-, hjq⟩
          · rw [hempty] at hmem
            exact hmem
          · exact hqi hjq.symm
        rw [hkind hji]
        exact h.named q m a j hq' he'
      inLinked := fun q m j hc => (hlinked q).mpr (h.inLinked q m j ((hchild q m j).mp hc))
      count := fun j b l hl => by
        rw [hrefs]
        exact h.count j b l (hkind (hne hl) ▸ hl)
      le_max := fun j b l hl => h.le_max j b l (hkind (hne hl) ▸ hl)
      root_linked := (hlinked root).mpr h.root_linked
      root_up := ((hstep root root).mpr ⟨h.root_linked, h.root_up⟩).2
      root_child := fun q m hc => h.root_child q m ((hchild q m root).mp hc)
      parent := fun j hj hr => by
        obtain ⟨q, m, hc, hup⟩ := h.parent j ((hlinked j).mp hj) hr
        exact ⟨q, m, (hchild q m j).mpr hc, ((hstep j q).mpr ⟨(hlinked j).mp hj, hup⟩).2⟩
      once := fun j q m q' m' hj h1 h2 =>
        h.once j q m q' m' (hdir hj).2 ((hchild q m j).mp h1) ((hchild q' m' j).mp h2)
      reach := fun j hj => by
        rw [hstep']
        exact h.reach j ((hlinked j).mp hj) }

/-! ### Entries of leaves -/

variable {l : ℤ}

/-- **An ordinary entry for the leaf `i`** comes or goes, and the number of links is set right. -/
theorem setLeaf (h : Tree dot dotdot root max d) (hp : d.Linked p) (hk : 2 ≤ k) (hi : ¬ d.IsDir i)
    (hold : ∀ y, d.entry p k = some y → y.2 = i)
    (hnew : ∀ y, x = some y → y.2 = i ∧ ∀ m j, d.entry p m ≠ some (y.1, j))
    (hl : l = (((d.setKind i false l).setEntry p k x).refs i).ncard) (hmax : l ≤ max) :
    Tree dot dotdot root max ((d.setKind i false l).setEntry p k x) := by
  have hkind : ∀ {j}, j ≠ i → ((d.setKind i false l).setEntry p k x).kind j = d.kind j :=
    fun hj => update_of_ne hj ..
  have hself : ((d.setKind i false l).setEntry p k x).kind i = some (false, l) :=
    update_self ..
  have hentry := entry_setEntry (d := d.setKind i false l) (p := p) (k := k) (x := x)
  change ∀ q m, _ = if q = p ∧ m = k then x else d.entry q m at hentry
  have hdir := isDir_setLeaf hi (p := p) (k := k) (x := x) (l := l)
  have hlinked := linked_setLeaf hi (p := p) (k := k) (x := x) (l := l)
  have hstep := step_setLeaf hi (p := p) (x := x) (l := l) hk
  generalize ((d.setKind i false l).setEntry p k x) = e at *
  have hlow : ∀ q m, m < 2 → e.entry q m = d.entry q m := fun q m hm => by
    rw [hentry, if_neg (by omega)]
  have hcases : ∀ {q m y}, e.entry q m = some y →
      q = p ∧ m = k ∧ x = some y ∨ d.entry q m = some y := by
    intro q m y hy
    rw [hentry] at hy
    split_ifs at hy with hc
    · exact .inl ⟨hc.1, hc.2, hy⟩
    · exact .inr hy
  -- entries that do not name the leaf are as before
  have hother : ∀ {j}, j ≠ i → ∀ q m a, e.entry q m = some (a, j) ↔ d.entry q m = some (a, j) := by
    intro j hj q m a
    rw [hentry]
    split_ifs with hc
    · obtain ⟨rfl, rfl⟩ := hc
      exact iff_of_false (fun hx => hj (hnew _ hx).1) fun hy => hj (hold _ hy)
    · rfl
  have hchild : ∀ {j}, j ≠ i → ∀ q m, e.Child q m j ↔ d.Child q m j := by
    intro j hj q m
    simp only [Child, hother hj]
  have hroot : root ≠ i := by
    rintro rfl
    exact hi h.root_linked.isDir
  have hne : ∀ {j}, d.IsDir j → j ≠ i := by
    rintro j hj rfl
    exact hi hj
  exact
    { dirs := fun q m y hy => (hdir q).mpr <| by
        rcases hcases hy with ⟨rfl, -⟩ | hy
        · exact hp.isDir
        · exact h.dirs q m y hy
      finite := (h.finite.insert (p, k)).subset fun y hy => by
        obtain ⟨z, hz⟩ := Option.ne_none_iff_exists'.mp hy
        rcases hcases hz with ⟨h1, h2, -⟩ | hz
        · exact .inl (Prod.ext h1 h2)
        · exact .inr fun hn => by rw [hz] at hn; cases hn
      self := fun j hj => by
        rw [hlow j 0 (by decide)]
        exact h.self j ((hdir j).mp hj)
      up := fun j hj => by
        rw [hlow j 1 (by decide)]
        exact h.up j ((hdir j).mp hj)
      unique := fun q m m' a j j' hq h1 h2 => by
        rcases hcases h1 with ⟨rfl, rfl, hx⟩ | h1 <;> rcases hcases h2 with ⟨hqp, rfl, hx'⟩ | h2
        · rfl
        · exact absurd h2 ((hnew _ hx).2 m' j')
        · subst hqp
          exact absurd h1 ((hnew _ hx').2 m j)
        · exact h.unique q m m' a j j' ((hlinked q).mp hq) h1 h2
      named := fun q m a j hq he => by
        by_cases hj : j = i
        · rw [hj, hself]
          exact Option.some_ne_none _
        · rw [hkind hj]
          exact h.named q m a j ((hlinked q).mp hq) ((hother hj q m a).mp he)
      inLinked := fun q m j hc => (hlinked q).mpr <| by
        obtain ⟨hm, a, ha⟩ := hc
        rcases hcases ha with ⟨rfl, -⟩ | ha
        · exact hp
        · exact h.inLinked q m j ⟨hm, a, ha⟩
      count := fun j b l' hl' => by
        by_cases hj : j = i
        · subst hj
          rw [hself] at hl'
          cases hl'
          exact hl
        · have hrefs : e.refs j = d.refs j := by simp only [refs, hchild hj, hstep]
          rw [hrefs]
          exact h.count j b l' (hkind hj ▸ hl')
      le_max := fun j b l' hl' => by
        by_cases hj : j = i
        · subst hj
          rw [hself] at hl'
          cases hl'
          exact hmax
        · exact h.le_max j b l' (hkind hj ▸ hl')
      root_linked := (hlinked root).mpr h.root_linked
      root_up := by
        rw [Up, hlow root 1 (by decide)]
        exact h.root_up
      root_child := fun q m hc => h.root_child q m ((hchild hroot q m).mp hc)
      parent := fun j hj hr => by
        have hj' := (hlinked j).mp hj
        obtain ⟨q, m, hc, hup⟩ := h.parent j hj' hr
        refine ⟨q, m, (hchild (hne hj'.isDir) q m).mpr hc, ?_⟩
        rwa [Up, hlow j 1 (by decide)]
      once := fun j q m q' m' hj h1 h2 => by
        have hj' := (hdir j).mp hj
        exact h.once j q m q' m' hj' ((hchild (hne hj') q m).mp h1) ((hchild (hne hj') q' m').mp h2)
      reach := fun j hj => by
        rw [hstep]
        exact h.reach j ((hlinked j).mp hj) }

/-- **A new ordinary entry** for a leaf, which may be new as well. -/
theorem addLeaf (h : Tree dot dotdot root max d) (hp : d.Linked p) (hi : ¬ d.IsDir i)
    (hfree : d.entry p k = none) (hname : ∀ m j, d.entry p m ≠ some (a, j))
    (hl : l = (d.refs i).ncard) (hmax : l < max) :
    Tree dot dotdot root max ((d.setKind i false (l + 1)).setEntry p k (some (a, i))) := by
  have hk := h.two_le_of_free hp hfree
  refine h.setLeaf hp hk hi ?_ ?_ ?_ (by omega)
  · intro y hy
    rw [hfree] at hy
    cases hy
  · rintro _ ⟨⟩
    exact ⟨rfl, hname⟩
  · have hnot : (p, k) ∉ d.refs i := by
      rintro (⟨-, b, hb⟩ | ⟨h1, -⟩)
      · change d.entry p k = _ at hb
        rw [hfree] at hb
        cases hb
      · change k = 1 at h1
        omega
    have hrefs : ((d.setKind i false (l + 1)).setEntry p k (some (a, i))).refs i =
        insert (p, k) (d.refs i) := by
      ext y
      rw [mem_refs_setLeaf hi hk, Set.mem_insert_iff]
      split_ifs with hy
      · exact iff_of_true ⟨a, rfl⟩ (.inl hy)
      · rw [or_iff_right hy]
    rw [hrefs, Set.ncard_insert_of_notMem hnot (h.refs_finite i), hl]
    push_cast
    rfl

/-- **An ordinary entry of a leaf** goes. -/
theorem removeLeaf (h : Tree dot dotdot root max d) (hk : 2 ≤ k) (hi : d.kind i = some (false, l))
    (he : d.entry p k = some (a, i)) :
    Tree dot dotdot root max ((d.setKind i false (l - 1)).setEntry p k none) := by
  have hmax := h.le_max i false l hi
  have hleaf : ¬ d.IsDir i := by
    rintro ⟨l', hl'⟩
    rw [hi] at hl'
    cases hl'
  refine h.setLeaf (h.inLinked p k i ⟨hk, a, he⟩) hk hleaf ?_ ?_ ?_ (by omega)
  · intro y hy
    rw [he] at hy
    cases hy
    rfl
  · rintro _ ⟨⟩
  · have hmem : (p, k) ∈ d.refs i := .inl ⟨hk, a, he⟩
    have hrefs : ((d.setKind i false (l - 1)).setEntry p k none).refs i = d.refs i \ {(p, k)} := by
      ext y
      rw [mem_refs_setLeaf hleaf hk, Set.mem_sdiff, Set.mem_singleton_iff]
      split_ifs with hy
      · exact iff_of_false (fun ⟨_, hx⟩ => by cases hx) fun hx => hx.2 hy
      · rw [and_iff_left hy]
    have hcard := Set.ncard_sdiff_singleton_add_one hmem (h.refs_finite i)
    rw [hrefs, h.count i false l hi, ← hcard]
    push_cast
    ring

end Tree

/-! ### New directories -/

/-- With the new directory `i`, named by the entry `k` of its parent `p`. -/
def makeDir (d : Dirs ι ν) (dot dotdot : ν) (p : ι) (k : ℕ) (a : ν) (i : ι) : Dirs ι ν :=
  ((((d.setKind i true 1).setEntry i 0 (some (dot, i))).setEntry i 1
    (some (dotdot, p))).setEntry p k (some (a, i))).link p 1

/-- What a new directory in `p` needs. -/
structure Makes (d : Dirs ι ν) (p : ι) (k : ℕ) (i : ι) (l : ℤ) : Prop where
  kind : d.kind p = some (true, l)
  pos : l ≠ 0
  new : d.kind i = none
  free : d.entry p k = none
  ordinary : 2 ≤ k
  empty : ∀ m, d.entry i m = none

section

variable {dot dotdot : ν} {l : ℤ} (h : d.Makes p k i l)

include h

omit [DecidableEq ι] in
lemma Makes.ne : i ≠ p := by
  rintro rfl
  have := h.kind
  rw [h.new] at this
  cases this

omit [DecidableEq ι] in
lemma Makes.linked_parent : d.Linked p := ⟨l, h.kind, h.pos⟩

lemma Makes.kind_eq (j : ι) : (d.makeDir dot dotdot p k a i).kind j =
    if j = p then some (true, l + 1) else if j = i then some (true, 1) else d.kind j := by
  change update (update d.kind i (some (true, 1))) p
    ((update d.kind i (some (true, 1)) p).map fun x => (x.1, x.2 + 1)) j = _
  rw [update_apply, update_of_ne h.ne.symm, h.kind, Option.map_some]
  split_ifs with hj hi
  · rfl
  · rw [hi, update_self]
  · rw [update_of_ne hi]

omit h in
lemma entry_makeDir (q : ι) (m : ℕ) : (d.makeDir dot dotdot p k a i).entry q m =
    if q = p ∧ m = k then some (a, i) else if q = i ∧ m = 1 then some (dotdot, p)
      else if q = i ∧ m = 0 then some (dot, i) else d.entry q m := by
  change (((d.setKind i true 1).setEntry i 0 (some (dot, i))).setEntry i 1
    (some (dotdot, p)) |>.setEntry p k (some (a, i))).entry q m = _
  rw [entry_setEntry, entry_setEntry, entry_setEntry]
  rfl

/-- The entries are those there were, the two of the new directory, and its own. -/
lemma Makes.entry_iff (q : ι) (m : ℕ) (y : ν × ι) :
    (d.makeDir dot dotdot p k a i).entry q m = some y ↔ d.entry q m = some y ∨
      q = p ∧ m = k ∧ y = (a, i) ∨ q = i ∧ m = 1 ∧ y = (dotdot, p) ∨
      q = i ∧ m = 0 ∧ y = (dot, i) := by
  have hne := h.ne
  rw [entry_makeDir]
  split_ifs with h1 h2 h3
  · obtain ⟨rfl, rfl⟩ := h1
    simp [h.free, hne.symm, eq_comm]
  · obtain ⟨rfl, rfl⟩ := h2
    simp [h.empty, hne, eq_comm]
  · obtain ⟨rfl, rfl⟩ := h3
    simp [h.empty, hne, eq_comm]
  · constructor
    · exact .inl
    · rintro (hy | ⟨rfl, rfl, -⟩ | ⟨rfl, rfl, -⟩ | ⟨rfl, rfl, -⟩)
      · exact hy
      · exact absurd ⟨rfl, rfl⟩ h1
      · exact absurd ⟨rfl, rfl⟩ h2
      · exact absurd ⟨rfl, rfl⟩ h3

lemma Makes.isDir (j : ι) : (d.makeDir dot dotdot p k a i).IsDir j ↔ d.IsDir j ∨ j = i := by
  rw [IsDir, h.kind_eq]
  split_ifs with hp hi
  · exact iff_of_true ⟨_, rfl⟩ (.inl (hp ▸ h.linked_parent.isDir))
  · exact iff_of_true ⟨_, rfl⟩ (.inr hi)
  · rw [or_iff_left hi, IsDir]

lemma Makes.linked (hl : l + 1 ≠ 0) (j : ι) :
    (d.makeDir dot dotdot p k a i).Linked j ↔ d.Linked j ∨ j = i := by
  rw [Linked, h.kind_eq]
  split_ifs with hp hi
  · exact iff_of_true ⟨_, rfl, hl⟩ (.inl (hp ▸ h.linked_parent))
  · exact iff_of_true ⟨_, rfl, one_ne_zero⟩ (.inr hi)
  · rw [or_iff_left hi, Linked]

lemma Makes.child (q : ι) (m : ℕ) (j : ι) : (d.makeDir dot dotdot p k a i).Child q m j ↔
    d.Child q m j ∨ q = p ∧ m = k ∧ j = i := by
  rw [Child, Child]
  constructor
  · rintro ⟨hm, b, hb⟩
    rcases (h.entry_iff q m _).mp hb with hb | ⟨rfl, rfl, hy⟩ | ⟨-, rfl, -⟩ | ⟨-, rfl, -⟩
    · exact .inl ⟨hm, b, hb⟩
    · cases hy
      exact .inr ⟨rfl, rfl, rfl⟩
    · omega
    · omega
  · rintro (⟨hm, b, hb⟩ | ⟨rfl, rfl, rfl⟩)
    · exact ⟨hm, b, (h.entry_iff q m _).mpr (.inl hb)⟩
    · exact ⟨h.ordinary, a, (h.entry_iff _ _ _).mpr (.inr (.inl ⟨rfl, rfl, rfl⟩))⟩

lemma Makes.up (j q : ι) : (d.makeDir dot dotdot p k a i).Up j q ↔ d.Up j q ∨ j = i ∧ q = p := by
  have hk := h.ordinary
  rw [Up, Up]
  constructor
  · rintro ⟨b, hb⟩
    rcases (h.entry_iff j 1 _).mp hb with hb | ⟨-, rfl, -⟩ | ⟨rfl, -, hy⟩ | ⟨-, h0, -⟩
    · exact .inl ⟨b, hb⟩
    · omega
    · cases hy
      exact .inr ⟨rfl, rfl⟩
    · omega
  · rintro (⟨b, hb⟩ | ⟨rfl, rfl⟩)
    · exact ⟨b, (h.entry_iff j 1 _).mpr (.inl hb)⟩
    · exact ⟨dotdot, (h.entry_iff j 1 _).mpr (.inr (.inr (.inl ⟨rfl, rfl, rfl⟩)))⟩

lemma Makes.step (hl : l + 1 ≠ 0) (j q : ι) :
    (d.makeDir dot dotdot p k a i).Step j q ↔ d.Step j q ∨ j = i ∧ q = p := by
  rw [Step, h.linked hl, h.up, Step]
  constructor
  · rintro ⟨hj, hup | hup⟩
    · rcases hj with hj | rfl
      · exact .inl ⟨hj, hup⟩
      · obtain ⟨b, hb⟩ := hup
        rw [h.empty] at hb
        cases hb
    · exact .inr hup
  · rintro (⟨hj, hup⟩ | ⟨rfl, rfl⟩)
    · exact ⟨.inl hj, .inl hup⟩
    · exact ⟨.inr rfl, .inr ⟨rfl, rfl⟩⟩

lemma Makes.mem_refs (hl : l + 1 ≠ 0) (j : ι) (y : ι × ℕ) :
    y ∈ (d.makeDir dot dotdot p k a i).refs j ↔
      y ∈ d.refs j ∨ y = (p, k) ∧ j = i ∨ y = (i, 1) ∧ j = p := by
  obtain ⟨q, m⟩ := y
  simp only [refs, Set.mem_ofPred_eq, h.child, h.step hl, Prod.mk.injEq]
  tauto

end

namespace Tree

variable {dot dotdot : ν} {root : ι} {max : ℤ}

lemma unique_makeDir (h : Tree dot dotdot root max d) {l : ℤ} (hm : d.Makes p k i l)
    (hl : l + 1 ≠ 0) (hname : ∀ m j, d.entry p m ≠ some (a, j)) (hdots : dot ≠ dotdot) {q : ι}
    {m m' : ℕ} {b : ν} {j j' : ι} (hq : (d.makeDir dot dotdot p k a i).Linked q)
    (h1 : (d.makeDir dot dotdot p k a i).entry q m = some (b, j))
    (h2 : (d.makeDir dot dotdot p k a i).entry q m' = some (b, j')) : m = m' := by
  have hold : ∀ {q m y}, d.entry q m = some y → q ≠ i := by
    rintro q m y hy rfl
    rw [hm.empty] at hy
    cases hy
  have hpi := hm.ne
  rcases (hm.entry_iff q m _).mp h1 with e1 | ⟨rfl, rfl, hy⟩ | ⟨rfl, rfl, hy⟩ | ⟨rfl, rfl, hy⟩
  · rcases (hm.entry_iff q m' _).mp h2 with e2 | ⟨rfl, rfl, hy'⟩ | ⟨rfl, rfl, -⟩ | ⟨rfl, rfl, -⟩
    · have hq' := ((hm.linked hl q).mp hq).resolve_right (hold e1)
      exact h.unique q m m' b j j' hq' e1 e2
    · cases hy'
      exact absurd e1 (hname m j)
    · exact absurd rfl (hold e1)
    · exact absurd rfl (hold e1)
  · cases hy
    rcases (hm.entry_iff q m' _).mp h2 with e2 | ⟨-, rfl, -⟩ | ⟨hqi, -⟩ | ⟨hqi, -⟩
    · exact absurd e2 (hname m' j')
    · rfl
    · exact absurd hqi.symm hpi
    · exact absurd hqi.symm hpi
  · cases hy
    rcases (hm.entry_iff q m' _).mp h2 with e2 | ⟨hqp, -⟩ | ⟨-, rfl, -⟩ | ⟨-, -, hy'⟩
    · exact absurd rfl (hold e2)
    · exact absurd hqp hpi
    · rfl
    · cases hy'
      exact absurd rfl hdots
  · cases hy
    rcases (hm.entry_iff q m' _).mp h2 with e2 | ⟨hqp, -⟩ | ⟨-, -, hy'⟩ | ⟨-, rfl, -⟩
    · exact absurd rfl (hold e2)
    · exact absurd hqp hpi
    · cases hy'
      exact absurd rfl hdots
    · rfl

/-- The links of the parent, of the new directory, and of the others. -/
lemma count_makeDir (h : Tree dot dotdot root max d) {l : ℤ} (hm : d.Makes p k i l) (hl : l + 1 ≠ 0)
    {b : Bool} {l' : ℤ} (hl' : (d.makeDir dot dotdot p k a i).kind j = some (b, l')) :
    l' = ((d.makeDir dot dotdot p k a i).refs j).ncard := by
  have hrefs : ∀ y, y ∈ (d.makeDir dot dotdot p k a i).refs j ↔
      y ∈ d.refs j ∨ y = (p, k) ∧ j = i ∨ y = (i, 1) ∧ j = p := hm.mem_refs hl j
  rw [hm.kind_eq] at hl'
  split_ifs at hl' with hj hj'
  · cases hl'
    subst hj
    have hnot : (i, 1) ∉ d.refs j := by
      rintro (⟨h2, -⟩ | ⟨-, -, b, hb⟩)
      · exact absurd (show 2 ≤ 1 from h2) (by decide)
      · rw [hm.empty] at hb
        cases hb
    have hset : (d.makeDir dot dotdot j k a i).refs j = insert (i, 1) (d.refs j) := by
      ext y
      rw [hrefs, Set.mem_insert_iff]
      have := hm.ne
      tauto
    rw [hset, Set.ncard_insert_of_notMem hnot (h.refs_finite j), h.count j true l hm.kind]
    push_cast
    rfl
  · cases hl'
    subst hj'
    have hset : (d.makeDir dot dotdot p k a j).refs j = {(p, k)} := by
      ext y
      rw [hrefs, h.refs_of_none hm.new, Set.mem_singleton_iff]
      have := Set.notMem_empty y
      tauto
    rw [hset, Set.ncard_singleton]
    rfl
  · have hset : (d.makeDir dot dotdot p k a i).refs j = d.refs j := by
      ext y
      rw [hrefs, or_iff_left]
      rintro (⟨-, he⟩ | ⟨-, he⟩)
      · exact hj' he
      · exact hj he
    rw [hset]
    exact h.count j b l' hl'

/-- **A new directory**, named by an ordinary entry of its parent. -/
theorem addDir (h : Tree dot dotdot root max d) {l : ℤ} (hm : d.Makes p k i l)
    (hname : ∀ m j, d.entry p m ≠ some (a, j)) (hdots : dot ≠ dotdot) (hmax : l < max) :
    Tree dot dotdot root max (d.makeDir dot dotdot p k a i) := by
  have hcount := h.count p true l hm.kind
  have hl : l + 1 ≠ 0 := by omega
  have hp := hm.linked_parent
  have hdiri : ¬ d.IsDir i := fun ⟨l', hl'⟩ => by
    rw [hm.new] at hl'
    cases hl'
  have hroot : root ≠ i := fun he => hdiri (he ▸ h.root_linked.isDir)
  have hnochild : ∀ q m, ¬ d.Child q m i := fun q m hc => by
    have : (q, m) ∈ d.refs i := .inl hc
    rw [h.refs_of_none hm.new] at this
    exact this
  exact
    { dirs := fun q m y hy => (hm.isDir q).mpr <| by
        rcases (hm.entry_iff q m y).mp hy with hy | ⟨rfl, -⟩ | ⟨rfl, -⟩ | ⟨rfl, -⟩
        · exact .inl (h.dirs q m y hy)
        · exact .inl hp.isDir
        · exact .inr rfl
        · exact .inr rfl
      finite := (((h.finite.insert (p, k)).insert (i, 1)).insert (i, 0)).subset fun y hy => by
        obtain ⟨z, hz⟩ := Option.ne_none_iff_exists'.mp hy
        rcases (hm.entry_iff _ _ z).mp hz with hz | ⟨h1, h2, -⟩ | ⟨h1, h2, -⟩ | ⟨h1, h2, -⟩
        · exact .inr (.inr (.inr fun hn => by rw [hz] at hn; cases hn))
        · exact .inr (.inr (.inl (Prod.ext h1 h2)))
        · exact .inr (.inl (Prod.ext h1 h2))
        · exact .inl (Prod.ext h1 h2)
      self := fun j hj => (hm.entry_iff j 0 _).mpr <| by
        rcases (hm.isDir j).mp hj with hj | rfl
        · exact .inl (h.self j hj)
        · exact .inr (.inr (.inr ⟨rfl, rfl, rfl⟩))
      up := fun j hj => by
        rcases (hm.isDir j).mp hj with hj | rfl
        · obtain ⟨q, hq⟩ := h.up j hj
          exact ⟨q, (hm.entry_iff j 1 _).mpr (.inl hq)⟩
        · exact ⟨p, (hm.entry_iff j 1 _).mpr (.inr (.inr (.inl ⟨rfl, rfl, rfl⟩)))⟩
      unique := fun q m m' b j j' hq h1 h2 => h.unique_makeDir hm hl hname hdots hq h1 h2
      named := fun q m b j hq he => by
        rw [hm.kind_eq]
        split_ifs with hj hj'
        · exact Option.some_ne_none _
        · exact Option.some_ne_none _
        · rcases (hm.entry_iff q m _).mp he with he | ⟨rfl, rfl, hy⟩ | ⟨rfl, rfl, hy⟩ |
            ⟨rfl, rfl, hy⟩
          · have hq' : d.Linked q := ((hm.linked hl q).mp hq).resolve_right fun hqi =>
              hdiri (hqi ▸ h.dirs q m _ he)
            exact h.named q m b j hq' he
          · cases hy
            exact absurd rfl hj'
          · cases hy
            exact absurd rfl hj
          · cases hy
            exact absurd rfl hj'
      inLinked := fun q m j hc => (hm.linked hl q).mpr <| by
        rcases (hm.child q m j).mp hc with hc | ⟨rfl, -⟩
        · exact .inl (h.inLinked q m j hc)
        · exact .inl hp
      count := fun j b l' hl' => h.count_makeDir hm hl hl'
      le_max := fun j b l' hl' => by
        have hpos := hm.pos
        rw [hm.kind_eq] at hl'
        split_ifs at hl' with hj hj'
        · cases hl'
          omega
        · cases hl'
          omega
        · exact h.le_max j b l' hl'
      root_linked := (hm.linked hl root).mpr (.inl h.root_linked)
      root_up := (hm.up root root).mpr (.inl h.root_up)
      root_child := fun q m hc => by
        rcases (hm.child q m root).mp hc with hc | ⟨-, -, hri⟩
        · exact h.root_child q m hc
        · exact hroot hri
      parent := fun j hj hr => by
        rcases (hm.linked hl j).mp hj with hj | rfl
        · obtain ⟨q, m, hc, hq⟩ := h.parent j hj hr
          exact ⟨q, m, (hm.child q m j).mpr (.inl hc), (hm.up j q).mpr (.inl hq)⟩
        · exact ⟨p, k, (hm.child p k j).mpr (.inr ⟨rfl, rfl, rfl⟩),
            (hm.up j p).mpr (.inr ⟨rfl, rfl⟩)⟩
      once := fun j q m q' m' hj h1 h2 => by
        rcases (hm.child q m j).mp h1 with c1 | ⟨rfl, rfl, rfl⟩
        · rcases (hm.child q' m' j).mp h2 with c2 | ⟨rfl, rfl, rfl⟩
          · have hj' := ((hm.isDir j).mp hj).resolve_right fun hji => hnochild q m (hji ▸ c1)
            exact h.once j q m q' m' hj' c1 c2
          · exact absurd c1 (hnochild q m)
        · rcases (hm.child q' m' j).mp h2 with c2 | ⟨rfl, rfl, -⟩
          · exact absurd c2 (hnochild q' m')
          · exact ⟨rfl, rfl⟩
      reach := fun j hj => by
        have hold : ∀ j, d.Linked j → ReflTransGen (d.makeDir dot dotdot p k a i).Step j root :=
          fun j hj => ReflTransGen.mono (fun q m hs => (hm.step hl q m).mpr (.inl hs)) _ _
            (h.reach j hj)
        rcases (hm.linked hl j).mp hj with hj | rfl
        · exact hold j hj
        · exact (hold p hp).head ((hm.step hl j p).mpr (.inr ⟨rfl, rfl⟩)) }

end Tree

/-! ### Directories that are removed -/

/-- Without the entry `k` of `p` that names the directory `i`, and without the links between
them. -/
def cutDir (d : Dirs ι ν) (p : ι) (k : ℕ) (i : ι) : Dirs ι ν :=
  ((d.setEntry p k none).link p (-1)).link i (-1)

/-- What the removal of the directory `i` from `p` needs: it is empty, and `p` is its parent. -/
structure Cuts (d : Dirs ι ν) (p : ι) (k : ℕ) (i : ι) (l : ℤ) : Prop where
  kind : d.kind i = some (true, 1)
  parent_kind : d.kind p = some (true, l)
  two_le : 2 ≤ l
  child : d.Child p k i
  up : d.Up i p
  empty : ∀ m j, ¬ d.Child i m j
  refs : d.refs i = {(p, k)}

section

variable {l : ℤ} (h : d.Cuts p k i l)

include h

omit [DecidableEq ι] in
lemma Cuts.ne : p ≠ i := by
  rintro rfl
  exact h.empty k p h.child

omit [DecidableEq ι] in
lemma Cuts.linked_self : d.Linked i := ⟨1, h.kind, one_ne_zero⟩

omit [DecidableEq ι] in
lemma Cuts.linked_parent : d.Linked p := ⟨l, h.parent_kind, by have := h.two_le; omega⟩

lemma Cuts.kind_eq (j : ι) : (d.cutDir p k i).kind j =
    if j = i then some (true, 0) else if j = p then some (true, l - 1) else d.kind j := by
  change update (update d.kind p ((d.kind p).map fun x => (x.1, x.2 + -1))) i
    ((update d.kind p ((d.kind p).map fun x => (x.1, x.2 + -1)) i).map
      fun x => (x.1, x.2 + -1)) j = _
  rw [update_apply, update_of_ne h.ne.symm, h.kind, h.parent_kind]
  split_ifs with h1 h2
  · rfl
  · rw [h2, update_self]
    rfl
  · rw [update_of_ne h2]

omit h in
lemma entry_cutDir (q : ι) (m : ℕ) (y : ν × ι) : (d.cutDir p k i).entry q m = some y ↔
    d.entry q m = some y ∧ ¬ (q = p ∧ m = k) := by
  have hentry : (d.cutDir p k i).entry q m = if q = p ∧ m = k then none else d.entry q m :=
    entry_setEntry q m
  rw [hentry]
  split_ifs with hqm
  · exact iff_of_false (fun hy => by cases hy) fun hy => hy.2 hqm
  · rw [and_iff_left hqm]

lemma Cuts.low (q : ι) {m : ℕ} (hm : m < 2) : (d.cutDir p k i).entry q m = d.entry q m := by
  have hk := h.child.1
  exact (entry_setEntry q m).trans (if_neg (by omega))

lemma Cuts.isDir (j : ι) : (d.cutDir p k i).IsDir j ↔ d.IsDir j := by
  rw [IsDir, h.kind_eq]
  split_ifs with h1 h2
  · exact iff_of_true ⟨_, rfl⟩ (h1 ▸ h.linked_self.isDir)
  · exact iff_of_true ⟨_, rfl⟩ (h2 ▸ h.linked_parent.isDir)
  · rw [IsDir]

lemma Cuts.linked (j : ι) : (d.cutDir p k i).Linked j ↔ d.Linked j ∧ j ≠ i := by
  have h2 := h.two_le
  rw [Linked, h.kind_eq]
  split_ifs with hj hp
  · refine iff_of_false ?_ fun hl => hl.2 hj
    rintro ⟨l', hl', h0⟩
    cases hl'
    exact h0 rfl
  · exact iff_of_true ⟨_, rfl, by omega⟩ ⟨hp ▸ h.linked_parent, hj⟩
  · rw [and_iff_left hj, Linked]

lemma Cuts.mem_child (q : ι) (m : ℕ) (j : ι) :
    (d.cutDir p k i).Child q m j ↔ d.Child q m j ∧ j ≠ i := by
  constructor
  · rintro ⟨hm, a, ha⟩
    obtain ⟨he, hqm⟩ := (entry_cutDir q m _).mp ha
    refine ⟨⟨hm, a, he⟩, ?_⟩
    rintro rfl
    have hmem : (q, m) ∈ d.refs j := .inl ⟨hm, a, he⟩
    rw [h.refs, Set.mem_singleton_iff, Prod.mk.injEq] at hmem
    exact hqm hmem
  · rintro ⟨⟨hm, a, ha⟩, hj⟩
    refine ⟨hm, a, (entry_cutDir q m _).mpr ⟨ha, ?_⟩⟩
    rintro ⟨rfl, rfl⟩
    obtain ⟨-, b, hb⟩ := h.child
    rw [ha] at hb
    cases hb
    exact hj rfl

lemma Cuts.mem_up (j q : ι) : (d.cutDir p k i).Up j q ↔ d.Up j q := by
  rw [Up, h.low j (by decide), Up]

lemma Cuts.step (j q : ι) : (d.cutDir p k i).Step j q ↔ d.Step j q ∧ j ≠ i := by
  rw [Step, h.linked, h.mem_up, Step]
  tauto

lemma Cuts.mem_refs (j : ι) (y : ι × ℕ) : y ∈ (d.cutDir p k i).refs j ↔
    y ∈ d.refs j ∧ j ≠ i ∧ ¬ (y = (i, 1) ∧ j = p) := by
  obtain ⟨q, m⟩ := y
  simp only [Dirs.refs, Set.mem_ofPred_eq, h.mem_child, h.step, Prod.mk.injEq]
  constructor
  · rintro (⟨hq, hj⟩ | ⟨rfl, hq, hqi⟩)
    · refine ⟨.inl hq, hj, ?_⟩
      rintro ⟨⟨rfl, rfl⟩, -⟩
      exact h.empty _ _ hq
    · refine ⟨.inr ⟨rfl, hq⟩, ?_, fun hq' => hqi hq'.1.1⟩
      rintro rfl
      have hmem : (q, 1) ∈ d.refs j := .inr ⟨rfl, hq⟩
      have hk := h.child.1
      rw [h.refs, Set.mem_singleton_iff, Prod.mk.injEq] at hmem
      omega
  · rintro ⟨hq | ⟨rfl, hq⟩, hj, hup⟩
    · exact .inl ⟨hq, hj⟩
    · refine .inr ⟨rfl, hq, ?_⟩
      rintro rfl
      exact hup ⟨⟨rfl, rfl⟩, hq.2.unique h.up⟩

end

namespace Tree

variable {dot dotdot : ν} {root : ι} {max : ℤ}

section

variable (h : Tree dot dotdot root max d)

include h

omit [DecidableEq ι] in
/-- An empty directory has one link, and its parent at least two. -/
lemma cuts (hi : d.IsDir i) (hc : d.Child p k i) (hempty : ∀ m j, ¬ d.Child i m j) :
    ∃ l, d.Cuts p k i l := by
  have hrefs : d.refs i = {(p, k)} := by
    ext ⟨q, m⟩
    rw [Set.mem_singleton_iff, Prod.mk.injEq]
    constructor
    · rintro (hq | ⟨-, hq, hup⟩)
      · exact h.once i q m p k hi hq hc
      · rcases h.child_of_up hq hup with ⟨-, rfl⟩ | ⟨m', hm'⟩
        · exact absurd hc (h.root_child p k)
        · exact absurd hm' (hempty m' q)
    · rintro ⟨rfl, rfl⟩
      exact .inl hc
  obtain ⟨li, hli⟩ := id hi
  obtain rfl : li = 1 := by
    rw [h.count i true li hli, hrefs, Set.ncard_singleton]
    rfl
  have hil : d.Linked i := ⟨1, hli, one_ne_zero⟩
  obtain ⟨l, hl, -⟩ := h.inLinked p k i hc
  exact ⟨l, hli, hl, h.two_le hil hc hl, hc, h.up_of_child hil hc, hempty, hrefs⟩

/-- The links of the parent, of the removed directory, and of the others. -/
lemma count_cutDir {l : ℤ} (hc : d.Cuts p k i l) {b : Bool} {l' : ℤ}
    (hl' : (d.cutDir p k i).kind j = some (b, l')) : l' = ((d.cutDir p k i).refs j).ncard := by
  have hrefs := hc.mem_refs j
  rw [hc.kind_eq] at hl'
  split_ifs at hl' with h1 h2
  · cases hl'
    have hset : (d.cutDir p k i).refs j = ∅ :=
      Set.eq_empty_iff_forall_notMem.mpr fun y hy => ((hrefs y).mp hy).2.1 h1
    rw [hset, Set.ncard_empty]
    rfl
  · cases hl'
    subst h2
    have hset : (d.cutDir j k i).refs j = d.refs j \ {(i, 1)} := by
      ext y
      rw [hrefs, Set.mem_sdiff, Set.mem_singleton_iff, and_iff_right h1, and_iff_left rfl]
    have hmem : (i, 1) ∈ d.refs j := .inr ⟨rfl, hc.linked_self, hc.up⟩
    have hcard := Set.ncard_sdiff_singleton_add_one hmem (h.refs_finite j)
    rw [hset, h.count j true l hc.parent_kind, ← hcard]
    push_cast
    ring
  · have hset : (d.cutDir p k i).refs j = d.refs j := by
      ext y
      rw [hrefs, and_iff_left ⟨h1, fun hy => h2 hy.2⟩]
    rw [hset]
    exact h.count j b l' hl'

lemma reach_cutDir {l : ℤ} (hc : d.Cuts p k i l) (hj : ReflTransGen d.Step j root) (hji : j ≠ i) :
    ReflTransGen (d.cutDir p k i).Step j root := by
  induction hj using ReflTransGen.head_induction_on with
  | refl => exact .refl
  | @head j q hs _ ih =>
    have hqi : q ≠ i := by
      rintro rfl
      rcases h.child_of_up hs.1 hs.2 with ⟨-, rfl⟩ | ⟨m, hm⟩
      · exact h.root_child p k hc.child
      · exact hc.empty m j hm
    exact (ih hqi).head ((hc.step j q).mpr ⟨hs, hji⟩)

/-- **An empty directory** is removed from its parent. -/
theorem removeDir {l : ℤ} (hc : d.Cuts p k i l) : Tree dot dotdot root max (d.cutDir p k i) := by
  have hroot : root ≠ i := by
    rintro rfl
    exact h.root_child p k hc.child
  exact
    { dirs := fun q m y hy => (hc.isDir q).mpr (h.dirs q m y ((entry_cutDir q m y).mp hy).1)
      finite := h.finite.subset fun y hy => by
        obtain ⟨z, hz⟩ := Option.ne_none_iff_exists'.mp hy
        exact fun hn => by rw [((entry_cutDir _ _ z).mp hz).1] at hn; cases hn
      self := fun j hj => by
        rw [hc.low j (by decide)]
        exact h.self j ((hc.isDir j).mp hj)
      up := fun j hj => by
        rw [hc.low j (by decide)]
        exact h.up j ((hc.isDir j).mp hj)
      unique := fun q m m' b j j' hq h1 h2 => h.unique q m m' b j j' ((hc.linked q).mp hq).1
        ((entry_cutDir q m _).mp h1).1 ((entry_cutDir q m' _).mp h2).1
      named := fun q m b j hq he => by
        rw [hc.kind_eq]
        split_ifs
        · exact Option.some_ne_none _
        · exact Option.some_ne_none _
        · exact h.named q m b j ((hc.linked q).mp hq).1 ((entry_cutDir q m _).mp he).1
      inLinked := fun q m j hcj => by
        have hcj' := ((hc.mem_child q m j).mp hcj).1
        refine (hc.linked q).mpr ⟨h.inLinked q m j hcj', ?_⟩
        rintro rfl
        exact hc.empty m j hcj'
      count := fun j b l' hl' => h.count_cutDir hc hl'
      le_max := fun j b l' hl' => by
        have hi := h.le_max i true 1 hc.kind
        have hp := h.le_max p true l hc.parent_kind
        rw [hc.kind_eq] at hl'
        split_ifs at hl'
        · cases hl'
          omega
        · cases hl'
          omega
        · exact h.le_max j b l' hl'
      root_linked := (hc.linked root).mpr ⟨h.root_linked, hroot⟩
      root_up := (hc.mem_up root root).mpr h.root_up
      root_child := fun q m hcq => h.root_child q m ((hc.mem_child q m root).mp hcq).1
      parent := fun j hj hr => by
        obtain ⟨hj, hji⟩ := (hc.linked j).mp hj
        obtain ⟨q, m, hcq, hq⟩ := h.parent j hj hr
        exact ⟨q, m, (hc.mem_child q m j).mpr ⟨hcq, hji⟩, (hc.mem_up j q).mpr hq⟩
      once := fun j q m q' m' hj h1 h2 => h.once j q m q' m' ((hc.isDir j).mp hj)
        ((hc.mem_child q m j).mp h1).1 ((hc.mem_child q' m' j).mp h2).1
      reach := fun j hj =>
        h.reach_cutDir hc (h.reach j ((hc.linked j).mp hj).1) ((hc.linked j).mp hj).2 }

end

end Tree

end

/-- **A root directory alone** is a tree. -/
theorem Tree.lone {dot dotdot : ν} {root : ι} {max : ℤ} (hdots : dot ≠ dotdot) (hmax : 1 ≤ max)
    (hroot : d.kind root = some (true, 1)) (hkind : ∀ i, i ≠ root → d.kind i = none)
    (h0 : d.entry root 0 = some (dot, root)) (h1 : d.entry root 1 = some (dotdot, root))
    (hrest : ∀ p k, p ≠ root ∨ 2 ≤ k → d.entry p k = none) : Tree dot dotdot root max d := by
  have hof : ∀ {i x}, d.kind i = some x → i = root ∧ x = (true, 1) := by
    intro i x hx
    by_cases hi : i = root
    · subst hi
      rw [hroot] at hx
      exact ⟨rfl, (Option.some.inj hx).symm⟩
    · rw [hkind i hi] at hx
      cases hx
  have hentry : ∀ {p k x}, d.entry p k = some x →
      p = root ∧ (k = 0 ∧ x = (dot, root) ∨ k = 1 ∧ x = (dotdot, root)) := by
    intro p k x hx
    have hp : p = root := by
      by_contra hp
      rw [hrest p k (.inl hp)] at hx
      cases hx
    have hk : k < 2 := by
      by_contra hk
      rw [hrest p k (.inr (by omega))] at hx
      cases hx
    subst hp
    obtain rfl | rfl : k = 0 ∨ k = 1 := by omega
    · rw [h0] at hx
      exact ⟨rfl, .inl ⟨rfl, (Option.some.inj hx).symm⟩⟩
    · rw [h1] at hx
      exact ⟨rfl, .inr ⟨rfl, (Option.some.inj hx).symm⟩⟩
  have hchild : ∀ p k i, ¬ d.Child p k i := by
    rintro p k i ⟨hk, a, ha⟩
    rcases (hentry ha).2 with ⟨rfl, -⟩ | ⟨rfl, -⟩ <;> omega
  have hlinked : d.Linked root := ⟨1, hroot, one_ne_zero⟩
  have honly : ∀ {i}, d.Linked i → i = root := fun ⟨_, hl, _⟩ => (hof hl).1
  have hrefs : d.refs root = {(root, 1)} := by
    ext ⟨p, k⟩
    constructor
    · rintro (hc | ⟨rfl, hs, -⟩)
      · exact absurd hc (hchild p k root)
      · exact congrArg (·, 1) (honly hs)
    · rintro ⟨⟩
      exact .inr ⟨rfl, hlinked, dotdot, h1⟩
  exact
    { dirs := fun p k x hx => (hentry hx).1 ▸ hlinked.isDir
      finite := by
        refine (Set.toFinite {(root, 0), (root, 1)}).subset fun ⟨p, k⟩ hx => ?_
        obtain ⟨x, hx⟩ := Option.ne_none_iff_exists'.mp hx
        obtain ⟨rfl, ⟨rfl, -⟩ | ⟨rfl, -⟩⟩ := hentry hx
        · exact .inl rfl
        · exact .inr rfl
      self := fun i ⟨l, hl⟩ => by rw [(hof hl).1, h0]
      up := fun i ⟨l, hl⟩ => ⟨root, by rw [(hof hl).1, h1]⟩
      unique := fun p k m a i j _ hk hm => by
        rcases (hentry hk).2 with ⟨rfl, ha⟩ | ⟨rfl, ha⟩ <;>
          rcases (hentry hm).2 with ⟨rfl, ha'⟩ | ⟨rfl, ha'⟩
        · rfl
        · cases ha
          cases ha'
          exact absurd rfl hdots
        · cases ha
          cases ha'
          exact absurd rfl hdots
        · rfl
      named := fun p k a i _ hk => by
        rcases (hentry hk).2 with ⟨-, ha⟩ | ⟨-, ha⟩ <;>
        · cases ha
          rw [hroot]
          exact Option.some_ne_none _
      inLinked := fun p k i hc => absurd hc (hchild p k i)
      count := fun i b l hl => by
        obtain ⟨rfl, heq⟩ := hof hl
        cases heq
        rw [hrefs, Set.ncard_singleton]
        rfl
      le_max := fun i b l hl => by
        cases (hof hl).2
        exact hmax
      root_linked := hlinked
      root_up := ⟨dotdot, h1⟩
      root_child := fun p k => hchild p k root
      parent := fun i hi hne => absurd (honly hi) hne
      once := fun i p k q m _ hc => absurd hc (hchild p k i)
      reach := fun i hi => honly hi ▸ .refl }

end Dirs

end DirTree
