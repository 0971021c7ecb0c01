import Mathlib.Data.Set.Basic
import Mathlib.Tactic

/-!
Radix trees in memory.

A memory has pages, and a page has an entry for every index. Some entries name a further page: their
`child`. From a root page a path of indices leads along the children to a page: `node`. The memory
below the root is a tree of depth `d` if no page is reached by two paths of at most that length; the
entries of the pages at the full depth are the leaves, and what they hold is of no concern here.

* `node_congr`: a path depends only on the entries along it.
* `node_set_of_not_prefix`: in a tree, a store changes only the paths through its entry.
* `Grows`: an empty entry is made to name a new empty page; `Grows.node_set`, `Grows.tree_set` and
  `Grows.nodes_set` say what that does to the paths, to the tree and to its pages.
* `Tree.subtree`, `mem_nodes_succ`: a tree and its subtrees.
-/

namespace Radix

open Function (update update_of_ne update_self)

variable {P I E : Type*} {child : E → Option P} {mem mem' : P → I → E} {r x y : P} {p q : List I}
  {i : I} {d : ℕ}

/-- The page at the end of a path. -/
def node (child : E → Option P) (mem : P → I → E) (x : P) : List I → Option P
  | [] => some x
  | i :: p => (child (mem x i)).bind fun y => node child mem y p

@[simp] lemma node_nil : node child mem x [] = some x := rfl

lemma node_cons : node child mem x (i :: p) =
    (child (mem x i)).bind fun y => node child mem y p := rfl

lemma node_of_child (hx : child (mem r i) = some x) :
    node child mem r (i :: p) = node child mem x p := by
  rw [node_cons, hx, Option.bind_some]

lemma node_append : node child mem x (p ++ q) =
    (node child mem x p).bind fun y => node child mem y q := by
  induction p generalizing x with
  | nil => rfl
  | cons i p ih =>
    rw [List.cons_append, node_cons, node_cons, Option.bind_assoc]
    exact Option.bind_congr fun y _ => ih

lemma node_concat : node child mem x (p ++ [i]) =
    (node child mem x p).bind fun y => child (mem y i) := by
  rw [node_append]
  refine Option.bind_congr fun y _ => ?_
  rw [node_cons]
  cases child (mem y i) <;> rfl

lemma length_lt_of_isPref (h : p ++ [i] <+: q) : p.length < q.length := by
  simpa using h.length_le

lemma node_congr (h : ∀ q i y, q ++ [i] <+: p → node child mem x q = some y →
    child (mem' y i) = child (mem y i)) : node child mem' x p = node child mem x p := by
  induction p generalizing x with
  | nil => rfl
  | cons i p ih =>
    have hx : child (mem' x i) = child (mem x i) :=
      h [] i x (List.cons_prefix_cons.mpr ⟨rfl, List.nil_prefix⟩) rfl
    rw [node_cons, node_cons, hx]
    refine Option.bind_congr fun y hy => ih fun q j z hq hz => ?_
    refine h (i :: q) j z (List.cons_prefix_cons.mpr ⟨rfl, hq⟩) ?_
    rw [node_cons, hy]
    exact hz

/-- The pages that are reached by paths of length at most `d`. -/
def nodes (child : E → Option P) (d : ℕ) (mem : P → I → E) (r : P) : Set P :=
  {x | ∃ p, p.length ≤ d ∧ node child mem r p = some x}

lemma root_mem_nodes : r ∈ nodes child d mem r := ⟨[], Nat.zero_le _, rfl⟩

lemma node_congr_nodes (h : ∀ x ∈ nodes child d mem r, mem' x = mem x) (hp : p.length ≤ d + 1) :
    node child mem' r p = node child mem r p := by
  refine node_congr fun q i y hq hy => ?_
  have hlen := length_lt_of_isPref hq
  rw [h y ⟨q, by omega, hy⟩]

lemma nodes_of_node (h : ∀ p, p.length ≤ d → node child mem' r p = node child mem r p) :
    nodes child d mem' r = nodes child d mem r := by
  ext x
  exact exists_congr fun p => and_congr_right fun hp => by rw [h p hp]

lemma nodes_congr (h : ∀ x ∈ nodes child d mem r, mem' x = mem x) :
    nodes child d mem' r = nodes child d mem r :=
  nodes_of_node fun _ hp => node_congr_nodes h (Nat.le_succ_of_le hp)

/-- No page is reached by two paths. -/
def Tree (child : E → Option P) (d : ℕ) (mem : P → I → E) (r : P) : Prop :=
  ∀ p q x, p.length ≤ d → q.length ≤ d → node child mem r p = some x →
    node child mem r q = some x → p = q

lemma Tree.of_node (hT : Tree child d mem r)
    (h : ∀ p, p.length ≤ d → node child mem' r p = node child mem r p) : Tree child d mem' r :=
  fun p q x hp hq hpx hqx => hT p q x hp hq (h p hp ▸ hpx) (h q hq ▸ hqx)

lemma Tree.congr (hT : Tree child d mem r) (h : ∀ x ∈ nodes child d mem r, mem' x = mem x) :
    Tree child d mem' r :=
  hT.of_node fun _ hp => node_congr_nodes h (Nat.le_succ_of_le hp)

lemma node_of_empty (h : ∀ i, child (mem r i) = none) (hp : p ≠ []) :
    node child mem r p = none := by
  cases p with
  | nil => exact absurd rfl hp
  | cons i p => rw [node_cons, h i, Option.bind_none]

lemma Tree.of_empty (h : ∀ i, child (mem r i) = none) : Tree child d mem r := by
  have hnil : ∀ p x, node child mem r p = some x → p = [] := by
    intro p x hpx
    by_contra hp
    rw [node_of_empty h hp] at hpx
    cases hpx
  intro p q x _ _ hpx hqx
  rw [hnil p x hpx, hnil q x hqx]

/-! ### Subtrees -/

lemma Tree.subtree (hT : Tree child (d + 1) mem r) (hx : child (mem r i) = some x) :
    Tree child d mem x := by
  intro p q y hp hq hpy hqy
  have heq := hT (i :: p) (i :: q) y (Nat.succ_le_succ hp) (Nat.succ_le_succ hq)
    ((node_of_child hx).trans hpy) ((node_of_child hx).trans hqy)
  exact (List.cons.inj heq).2

lemma mem_nodes_succ : y ∈ nodes child (d + 1) mem r ↔
    y = r ∨ ∃ i x, child (mem r i) = some x ∧ y ∈ nodes child d mem x := by
  constructor
  · rintro ⟨p, hp, hpy⟩
    cases p with
    | nil => exact .inl (Option.some.inj hpy).symm
    | cons i p =>
      rw [node_cons, Option.bind_eq_some_iff] at hpy
      obtain ⟨x, hx, hxy⟩ := hpy
      exact .inr ⟨i, x, hx, p, Nat.le_of_succ_le_succ hp, hxy⟩
  · rintro (rfl | ⟨i, x, hx, p, hp, hpy⟩)
    · exact root_mem_nodes
    · exact ⟨i :: p, Nat.succ_le_succ hp, (node_of_child hx).trans hpy⟩

lemma Tree.disjoint {j : I} {z : P} (hT : Tree child (d + 1) mem r) (hx : child (mem r i) = some x)
    (hy : child (mem r j) = some y) (hzx : z ∈ nodes child d mem x)
    (hzy : z ∈ nodes child d mem y) : i = j := by
  obtain ⟨p, hp, hpz⟩ := hzx
  obtain ⟨q, hq, hqz⟩ := hzy
  have heq := hT (i :: p) (j :: q) z (Nat.succ_le_succ hp) (Nat.succ_le_succ hq)
    ((node_of_child hx).trans hpz) ((node_of_child hy).trans hqz)
  exact (List.cons.inj heq).1

lemma Tree.root_not_mem (hT : Tree child (d + 1) mem r) (hx : child (mem r i) = some x) :
    r ∉ nodes child d mem x := by
  rintro ⟨p, hp, hpr⟩
  have heq := hT (i :: p) [] r (Nat.succ_le_succ hp) (Nat.zero_le _)
    ((node_of_child hx).trans hpr) rfl
  cases heq

/-! ### Stores -/

section Set

variable [DecidableEq P] [DecidableEq I] {e : E}

def set (mem : P → I → E) (x : P) (i : I) (e : E) : P → I → E :=
  update mem x (update (mem x) i e)

lemma set_self : set mem x i e x i = e := by rw [set, update_self, update_self]

lemma set_of_ne {j : I} (h : y ≠ x ∨ j ≠ i) : set mem x i e y j = mem y j := by
  rw [set]
  by_cases hy : y = x
  · rw [hy, update_self, update_of_ne (h.resolve_left (not_not.mpr hy))]
  · rw [update_of_ne hy]

lemma set_page_of_ne (h : y ≠ x) : set mem x i e y = mem y := update_of_ne h ..

/-- **In a tree**, a store changes only the paths through its entry. -/
lemma node_set_of_not_prefix (hT : Tree child d mem r) (hp : p.length ≤ d)
    (hpx : node child mem r p = some x) (hq : q.length ≤ d + 1) (hnot : ¬ p ++ [i] <+: q) :
    node child (set mem x i e) r q = node child mem r q := by
  refine node_congr fun t j y ht hy => ?_
  have hlen := length_lt_of_isPref ht
  rw [set_of_ne]
  by_contra hsame
  push Not at hsame
  obtain ⟨rfl, rfl⟩ := hsame
  -- the entry is the stored one, so the path is the path to it
  obtain rfl := hT t p y (by omega) hp hy hpx
  exact hnot ht

lemma node_set_leaf (hT : Tree child d mem r) (hp : p.length = d)
    (hpx : node child mem r p = some x) (hq : q.length ≤ d) :
    node child (set mem x i e) r q = node child mem r q := by
  refine node_set_of_not_prefix hT hp.le hpx (Nat.le_succ_of_le hq) fun hpre => ?_
  have hlen := length_lt_of_isPref hpre
  omega

/-- An entry without a child is made to name an empty page outside the tree. -/
structure Grows (child : E → Option P) (d : ℕ) (mem : P → I → E) (r : P) (p : List I)
    (x : P) (i : I) (e : E) (y : P) : Prop where
  tree : Tree child d mem r
  short : p.length < d
  path : node child mem r p = some x
  old : child (mem x i) = none
  new : child e = some y
  fresh : y ∉ nodes child d mem r
  empty : ∀ j, child (mem y j) = none

namespace Grows

variable (h : Grows child d mem r p x i e y)

include h

/-- **A new page** is at the end of one path, and the other paths are as before. -/
lemma node_set (hq : q.length ≤ d) : node child (set mem x i e) r q =
    if q = p ++ [i] then some y else node child mem r q := by
  have hp := h.short
  have hyx : y ≠ x := fun hyx => h.fresh (hyx ▸ ⟨p, hp.le, h.path⟩)
  have hpath : node child (set mem x i e) r p = some x := by
    rw [ node_set_of_not_prefix h.tree hp.le h.path (by omega), h.path]
    exact fun hpre => (length_lt_of_isPref hpre).ne rfl
  by_cases hpre : p ++ [i] <+: q
  · obtain ⟨t, rfl⟩ := hpre
    have hnode : node child (set mem x i e) r (p ++ [i]) = some y := by
      rw [node_concat, hpath, Option.bind_some, set_self, h.new]
    have hnone : node child mem r (p ++ [i]) = none := by
      rw [node_concat, h.path, Option.bind_some, h.old]
    rw [node_append, hnode, Option.bind_some, node_append, hnone, Option.bind_none]
    cases t with
    | nil => rw [List.append_nil, if_pos rfl, node_nil]
    | cons j t =>
      rw [if_neg (fun h => by simpa using congrArg List.length h), node_cons,
        set_of_ne (.inl hyx), h.empty j, Option.bind_none]
  · rw [ node_set_of_not_prefix h.tree hp.le h.path (Nat.le_succ_of_le hq) hpre, if_neg]
    rintro rfl
    exact hpre List.prefix_rfl

lemma tree_set : Tree child d (set mem x i e) r := by
  intro a b z ha hb haz hbz
  rw [h.node_set ha] at haz
  rw [h.node_set hb] at hbz
  split_ifs at haz hbz with hap hbp hbp
  · rw [hap, hbp]
  · cases haz
    exact absurd ⟨b, hb, hbz⟩ h.fresh
  · cases hbz
    exact absurd ⟨a, ha, haz⟩ h.fresh
  · exact h.tree a b z ha hb haz hbz

lemma nodes_set : nodes child d (set mem x i e) r = insert y (nodes child d mem r) := by
  ext z
  constructor
  · rintro ⟨q, hq, hqz⟩
    rw [h.node_set hq] at hqz
    split_ifs at hqz
    · exact .inl (Option.some.inj hqz).symm
    · exact .inr ⟨q, hq, hqz⟩
  · rintro (rfl | ⟨q, hq, hqz⟩)
    · have hlen : (p ++ [i]).length ≤ d := by
        rw [List.length_append, List.length_singleton]
        exact h.short
      exact ⟨p ++ [i], hlen, by rw [h.node_set hlen, if_pos rfl]⟩
    · refine ⟨q, hq, ?_⟩
      rw [h.node_set hq, if_neg, hqz]
      rintro rfl
      rw [node_concat, h.path, Option.bind_some, h.old] at hqz
      cases hqz

end Grows

lemma Tree.set_leaf (hT : Tree child d mem r) (hp : p.length = d)
    (hpx : node child mem r p = some x) : Tree child d (set mem x i e) r :=
  hT.of_node fun _ => node_set_leaf hT hp hpx

lemma nodes_set_leaf (hT : Tree child d mem r) (hp : p.length = d)
    (hpx : node child mem r p = some x) :
    nodes child d (set mem x i e) r = nodes child d mem r :=
  nodes_of_node fun _ => node_set_leaf hT hp hpx

end Set

end Radix
