import Xv6Riscv.Vm.Memory

/-!
Page tables: the tree, and the walk down the tree (`vm.c`).

A page table is a radix tree of depth two in memory, with 512 entries in each page; the entries of
the pages at depth two are the leaves. Virtual pages are known by their numbers.
-/

namespace Xv6Riscv

open Wp Radix

/-! ### The code -/

/-- The loop of `walk`, at a level. -/
def walkFrom (va : ℕ) (alloc : Bool) : ℕ → ℕ → VmM (Option (ℕ × Fin 512))
  | 0, pagetable => pure (some (pagetable, px 0 va))
  | level + 1, pagetable => do
      let pte ← readPte (pagetable, px (level + 1) va)
      if Valid pte then walkFrom va alloc level (pageOf (pte2pa pte))
      else if alloc then
        match ← kalloc with
        | none => pure none
        | some x => do
            setPage x (filled 0)
            writePte (pagetable, px (level + 1) va) (pa2pte (x <<< 12) ||| pteV)
            walkFrom va alloc level x
      else pure none

/-- `walk`; an entry is known by its page and its index, `none` is the null pointer. -/
def walk (pagetable va : ℕ) (alloc : Bool) : VmM (Option (ℕ × Fin 512)) :=
  if maxVa ≤ va then throw .walk else walkFrom va alloc 2 pagetable

/-- `walkaddr`; the result is an address, 0 if there is none. -/
def walkaddr (pagetable va : ℕ) : VmM ℕ :=
  if maxVa ≤ va then pure 0
  else do
    match ← walk pagetable va false with
    | none => pure 0
    | some slot => do
        let pte ← readPte slot
        if ¬ Valid pte then pure 0
        else if pte &&& pteU = 0 then pure 0
        else pure (pte2pa pte)

/-! ### The tree -/

/-- The page-table page at the end of a path of indices. -/
abbrev Mem.node (m : Mem) (r : ℕ) (p : List (Fin 512)) : Option ℕ :=
  Radix.node entryChild m.page r p

variable {p : List (Fin 512)}

lemma Mem.node_concat {m : Mem} {r : ℕ} {i : Fin 512} :
    m.node r (p ++ [i]) = (m.node r p).bind fun x => entryChild (m.page x i) :=
  Radix.node_concat

abbrev Mem.nodes (m : Mem) (r : ℕ) : Set ℕ := Radix.nodes entryChild 2 m.page r

/-- The indices of an address from a level down. -/
def pathFrom (va : ℕ) : ℕ → List (Fin 512)
  | 0 => []
  | level + 1 => px (level + 1) va :: pathFrom va level

/-- The path of a virtual page to the page with its entry. -/
def leafPath (v : ℕ) : List (Fin 512) := pathFrom (v * pgSize) 2

def leafIndex (v : ℕ) : Fin 512 := px 0 (v * pgSize)

/-- **The entry of a virtual page**, if there is a valid one. -/
def Mem.lookup (m : Mem) (r v : ℕ) : Option ℕ :=
  if v < maxVpn then (m.node r (leafPath v)).bind fun x =>
    if Valid (m.page x (leafIndex v)) then some (m.page x (leafIndex v)) else none
  else none

/-- A well-formed page table: a tree whose inner entries have no permission bits and whose leaves
have some, in pages that are not free. -/
structure Space (m : Mem) (r : ℕ) : Prop where
  holds : Holds m (m.nodes r)
  tree : Radix.Tree entryChild 2 m.page r
  inner : ∀ p x i, p.length < 2 → m.node r p = some x → Valid (m.page x i) →
    m.page x i &&& pteRWX = 0
  leaf : ∀ p x i, p.length = 2 → m.node r p = some x → Valid (m.page x i) →
    m.page x i &&& pteRWX ≠ 0
  low : ∀ i : Fin 512, 256 ≤ i.val → ¬ Valid (m.page r i)

variable {m m' m'' : Mem} {r v w va x y pte : ℕ} {i : Fin 512}

lemma leafPath_length (v : ℕ) : (leafPath v).length = 2 := rfl

lemma leafPath_vpn (va : ℕ) : leafPath (vpn va) = pathFrom va 2 := by
  have h : vpn (vpn va * pgSize) = vpn va := vpn_mul _
  rw [leafPath, pathFrom, pathFrom, pathFrom, px_congr 2 h, px_congr 1 h]
  rfl

lemma leafIndex_vpn (va : ℕ) : leafIndex (vpn va) = px 0 va := px_congr 0 (vpn_mul _)

lemma leaf_inj (hv : v < maxVpn) (hw : w < maxVpn) (hpath : leafPath v = leafPath w)
    (hindex : leafIndex v = leafIndex w) : v = w := by
  have hcons := List.cons.inj hpath
  exact px_inj hv hw hcons.1 (List.cons.inj hcons.2).1 hindex

lemma Mem.lookup_eq_some : m.lookup r v = some pte ↔ v < maxVpn ∧
    ∃ x, m.node r (leafPath v) = some x ∧ m.page x (leafIndex v) = pte ∧ Valid pte := by
  rw [Mem.lookup]
  by_cases hv : v < maxVpn
  · rw [if_pos hv, Option.bind_eq_some_iff]
    constructor
    · rintro ⟨x, hx, hpte⟩
      split_ifs at hpte with hvalid
      cases hpte
      exact ⟨hv, x, hx, rfl, hvalid⟩
    · rintro ⟨_, x, hx, rfl, hvalid⟩
      exact ⟨x, hx, if_pos hvalid⟩
  · rw [if_neg hv]
    exact ⟨nofun, fun h => absurd h.1 hv⟩

lemma Mem.lookup_of_node (hv : v < maxVpn) (hx : m.node r (leafPath v) = some x) :
    m.lookup r v =
      if Valid (m.page x (leafIndex v)) then some (m.page x (leafIndex v)) else none := by
  rw [Mem.lookup, if_pos hv, hx, Option.bind_some]

lemma Mem.lookup_of_node_none (hx : m.node r (leafPath v) = none) : m.lookup r v = none := by
  rw [Mem.lookup, hx, Option.bind_none, ite_self]

lemma entryChild_eq_none : entryChild pte = none ↔ ¬ Valid pte := by
  rw [entryChild]
  split_ifs with h <;> simp [h]

lemma entryChild_of_valid (h : Valid pte) : entryChild pte = some (pageOf (pte2pa pte)) := if_pos h

/-! ### A table that is left alone -/

section

variable (h : ∀ x ∈ m.nodes r, m'.page x = m.page x)

include h

lemma Mem.node_of_same (hp : p.length ≤ 2) : m'.node r p = m.node r p :=
  Radix.node_congr_nodes h (Nat.le_succ_of_le hp)

lemma Mem.nodes_of_same : m'.nodes r = m.nodes r :=
  Radix.nodes_congr h

lemma Mem.lookup_of_same (v : ℕ) : m'.lookup r v = m.lookup r v := by
  rw [Mem.lookup, Mem.lookup, Mem.node_of_same h (leafPath_length v).le]
  refine if_congr Iff.rfl (Option.bind_congr fun x hx => ?_) rfl
  rw [h x ⟨_, (leafPath_length v).le, hx⟩]

end

lemma Space.of_same (hS : Space m r) (h : ∀ x ∈ m.nodes r, m'.page x = m.page x)
    (hH : Holds m' (m.nodes r)) : Space m' r where
  holds := by rwa [Mem.nodes_of_same h]
  tree := hS.tree.congr h
  inner p x i hp hx := by
    rw [Mem.node_of_same h hp.le] at hx
    rw [h x ⟨p, hp.le, hx⟩]
    exact hS.inner p x i hp hx
  leaf p x i hp hx := by
    rw [Mem.node_of_same h hp.le] at hx
    rw [h x ⟨p, hp.le, hx⟩]
    exact hS.leaf p x i hp hx
  low i := by
    rw [h r Radix.root_mem_nodes]
    exact hS.low i

/-! ### A store to a leaf -/

section Leaf

lemma leaf_mem (hx : m.node r (leafPath v) = some x) : x ∈ m.nodes r :=
  ⟨_, (leafPath_length v).le, hx⟩

variable (hS : Space m r) (hv : v < maxVpn) (hx : m.node r (leafPath v) = some x)

include hS hx

lemma Space.setLeaf_node (hp : p.length ≤ 2) : (m.setEntry x i pte).node r p = m.node r p :=
  Radix.node_set_leaf hS.tree (leafPath_length v) hx hp

lemma Space.setLeaf_nodes : (m.setEntry x i pte).nodes r = m.nodes r :=
  Radix.nodes_set_leaf hS.tree (leafPath_length v) hx

lemma Space.path_eq (hp : p.length ≤ 2) (hpx : m.node r p = some x) : p = leafPath v :=
  hS.tree p _ x hp (leafPath_length v).le hpx hx

lemma Space.setLeaf (hpte : Valid pte → pte &&& pteRWX ≠ 0) : Space (m.setEntry x i pte) r where
  holds := by
    rw [hS.setLeaf_nodes hx]
    exact ⟨hS.holds.nodup, hS.holds.apart, hS.holds.range, hS.holds.pos⟩
  tree := hS.tree.set_leaf (leafPath_length v) hx
  inner p y j hp hy := by
    rw [hS.setLeaf_node hx hp.le] at hy
    have hne : y ≠ x := by
      rintro rfl
      rw [hS.path_eq hx hp.le hy, leafPath_length] at hp
      exact lt_irrefl _ hp
    rw [m.setEntry_of_ne pte (.inl hne)]
    exact hS.inner p y j hp hy
  leaf p y j hp hy := by
    rw [hS.setLeaf_node hx hp.le] at hy
    by_cases hsame : y = x ∧ j = i
    · rw [hsame.1, hsame.2, m.setEntry_self]
      exact hpte
    · rw [m.setEntry_of_ne pte (not_and_or.mp hsame)]
      exact hS.leaf p y j hp hy
  low j hj := by
    have hne : r ≠ x := by
      rintro rfl
      have hnil := congrArg List.length (hS.path_eq hx (p := []) (Nat.zero_le 2) rfl)
      rw [leafPath_length] at hnil
      exact absurd hnil (by decide)
    rw [m.setEntry_of_ne pte (.inl hne)]
    exact hS.low j hj

lemma Space.setLeaf_trade :
    Trade m (m.nodes r) (m.setEntry x i pte) ((m.setEntry x i pte).nodes r) := by
  rw [hS.setLeaf_nodes hx]
  exact Trade.write hS.holds (leaf_mem hx) _

include hv

/-- **A store to a leaf** changes the entry of its page only. -/
lemma Space.setLeaf_lookup : (m.setEntry x (leafIndex v) pte).lookup r =
    Function.update (m.lookup r) v (if Valid pte then some pte else none) := by
  funext w
  by_cases hw : w < maxVpn
  swap
  · have hne : w ≠ v := fun h => hw (h ▸ hv)
    rw [Function.update_of_ne hne, Mem.lookup, if_neg hw, Mem.lookup, if_neg hw]
  by_cases hwv : w = v
  · rw [hwv, Function.update_self, Mem.lookup_of_node hv (x := x), m.setEntry_self]
    rw [hS.setLeaf_node hx (leafPath_length v).le, hx]
  · rw [Function.update_of_ne hwv, Mem.lookup, Mem.lookup, if_pos hw, if_pos hw,
      hS.setLeaf_node hx (leafPath_length w).le]
    refine Option.bind_congr fun y hy => ?_
    -- the same page and the same index would make the two pages equal
    have hne : y ≠ x ∨ leafIndex w ≠ leafIndex v := by
      by_contra hsame
      push Not at hsame
      obtain ⟨rfl, hindex⟩ := hsame
      exact hwv (leaf_inj hw hv (hS.path_eq hx (leafPath_length w).le hy) hindex)
    rw [m.setEntry_of_ne pte hne]

end Leaf

/-! ### A new inner page -/

/-- **The table has changed**: its lookups are now `f`, and no pages but its own and free ones are
touched. -/
structure Becomes (m : Mem) (r : ℕ) (m' : Mem) (f : ℕ → Option ℕ) : Prop where
  space : Space m' r
  trade : Trade m (m.nodes r) m' (m'.nodes r)
  lookup : m'.lookup r = f

/-- The lookups are the same; there may be more pages. -/
abbrev Kept (m : Mem) (r : ℕ) (m' : Mem) : Prop := Becomes m r m' (m.lookup r)

lemma Kept.refl (hS : Space m r) : Kept m r m := ⟨hS, Trade.refl hS.holds, rfl⟩

lemma Becomes.trans {f g : ℕ → Option ℕ} (h : Becomes m r m' f) (h' : Becomes m' r m'' g) :
    Becomes m r m'' g :=
  ⟨h'.space, h.trade.trans h'.trade, h'.lookup⟩

lemma Kept.trans (h : Kept m r m') (h' : Kept m' r m'') : Kept m r m'' :=
  ⟨h'.space, h.trade.trans h'.trade, h'.lookup.trans h.lookup⟩

lemma Space.setLeaf_becomes (hS : Space m r) (hv : v < maxVpn)
    (hx : m.node r (leafPath v) = some x) (pte : ℕ) (hpte : Valid pte → pte &&& pteRWX ≠ 0) :
    Becomes m r (m.setEntry x (leafIndex v) pte)
      (Function.update (m.lookup r) v (if Valid pte then some pte else none)) :=
  ⟨hS.setLeaf hx hpte, hS.setLeaf_trade hx, hS.setLeaf_lookup hv hx⟩

lemma mkPte_inner (x : ℕ) : pa2pte (x <<< 12) ||| pteV = mkPte (x <<< 12) 0 := by
  rw [mkPte, Nat.or_zero]

lemma pgSize_dvd_shift (x : ℕ) : pgSize ∣ x <<< 12 := by
  rw [Nat.shiftLeft_eq]
  exact Dvd.intro_left x rfl

lemma pageOf_shift (x : ℕ) : pageOf (x <<< 12) = x := by
  rw [pageOf, Nat.shiftLeft_shiftRight]

lemma entryChild_inner (x : ℕ) : entryChild (mkPte (x <<< 12) 0) = some x := by
  obtain ⟨hpa, _, hvalid⟩ := mkPte_spec (pgSize_dvd_shift x) (by decide : 0 < 1024)
  rw [entryChild_of_valid hvalid, hpa, pageOf_shift]

lemma inner_and (x : ℕ) : mkPte (x <<< 12) 0 &&& pteRWX = 0 :=
  (mkPte_and (pgSize_dvd_shift x) (by decide) (by decide)).trans (by decide)

lemma not_valid_filled (i : Fin 512) : ¬ Valid (filled 0 i) := by
  rw [filled, Nat.zero_mul]
  exact not_valid_zero

section Grow

variable {p : List (Fin 512)} {free : List ℕ} (deny : List Bool)

/-- The memory after a page has been taken from the free list and cleared. -/
def Mem.cleared (m : Mem) (y : ℕ) (free : List ℕ) (deny : List Bool) : Mem :=
  { m with free := free, deny := deny }.setPage y (filled 0)

variable (hS : Space m r) (hfree : m.free = y :: free) (hp : p.length < 2)
  (hx : m.node r p = some x) (hi : p = [] → i.val < 256) (hold : ¬ Valid (m.page x i))

include hS hfree

lemma Space.fresh_not_mem : y ∉ m.nodes r := fun hy =>
  hS.holds.apart y hy (by rw [hfree]; exact List.mem_cons_self)

lemma Space.cleared_same : ∀ z ∈ m.nodes r, (m.cleared y free deny).page z = m.page z := by
  intro z hz
  rw [Mem.cleared, Mem.setPage_of_ne]
  rintro rfl
  exact hS.fresh_not_mem hfree hz

lemma Space.cleared : Space (m.cleared y free deny) r :=
  hS.of_same (hS.cleared_same deny hfree)
    ((Trade.taken hS.holds hfree deny (filled 0)).holds.subset (Set.subset_insert _ _))

include hp hx hold

lemma Space.grows : Radix.Grows entryChild 2 (m.cleared y free deny).page r p x i
    (mkPte (y <<< 12) 0) y where
  tree := (hS.cleared deny hfree).tree
  short := hp
  path := (Mem.node_of_same (hS.cleared_same deny hfree) hp.le).trans hx
  old := by
    rw [hS.cleared_same deny hfree x ⟨p, hp.le, hx⟩]
    exact entryChild_eq_none.mpr hold
  new := entryChild_inner y
  fresh := by
    rw [← Mem.nodes, Mem.nodes_of_same (hS.cleared_same deny hfree)]
    exact hS.fresh_not_mem hfree
  empty j := by
    rw [Mem.cleared, Mem.setPage_self]
    exact entryChild_eq_none.mpr (not_valid_filled j)

lemma Space.grow_node {q : List (Fin 512)} (hq : q.length ≤ 2) :
    ((m.cleared y free deny).setEntry x i (mkPte (y <<< 12) 0)).node r q =
      if q = p ++ [i] then some y else m.node r q := by
  rw [← Mem.node_of_same (hS.cleared_same deny hfree) hq]
  exact (hS.grows deny hfree hp hx hold).node_set hq

lemma Space.grow_nodes : ((m.cleared y free deny).setEntry x i (mkPte (y <<< 12) 0)).nodes r =
    insert y (m.nodes r) := by
  rw [← Mem.nodes_of_same (hS.cleared_same deny hfree)]
  exact (hS.grows deny hfree hp hx hold).nodes_set

lemma Space.grow_entry {q : List (Fin 512)} {z : ℕ} (hq : q.length ≤ 2)
    (hz : ((m.cleared y free deny).setEntry x i (mkPte (y <<< 12) 0)).node r q = some z)
    (j : Fin 512) :
    (q = p ++ [i] ∧
      ¬ Valid (((m.cleared y free deny).setEntry x i (mkPte (y <<< 12) 0)).page z j)) ∨
    (q = p ∧ j = i ∧ ((m.cleared y free deny).setEntry x i (mkPte (y <<< 12) 0)).page z j =
      mkPte (y <<< 12) 0) ∨
    (m.node r q = some z ∧
      ((m.cleared y free deny).setEntry x i (mkPte (y <<< 12) 0)).page z j = m.page z j) := by
  have hyx : y ≠ x := fun h => hS.fresh_not_mem hfree (h ▸ ⟨p, hp.le, hx⟩)
  rw [hS.grow_node deny hfree hp hx hold hq] at hz
  split_ifs at hz with hqp
  · cases hz
    left
    rw [Mem.setEntry_of_ne _ _ (.inl hyx), Mem.cleared, Mem.setPage_self]
    exact ⟨hqp, not_valid_filled j⟩
  · right
    by_cases hsame : z = x ∧ j = i
    · obtain ⟨rfl, rfl⟩ := hsame
      exact .inl ⟨hS.tree q p z hq hp.le hz hx, rfl, Mem.setEntry_self ..⟩
    · right
      rw [Mem.setEntry_of_ne _ _ (not_and_or.mp hsame), hS.cleared_same deny hfree z ⟨q, hq, hz⟩]
      exact ⟨hz, rfl⟩

include hi

lemma Space.grow : Space ((m.cleared y free deny).setEntry x i (mkPte (y <<< 12) 0)) r where
  holds := by
    rw [hS.grow_nodes deny hfree hp hx hold]
    have h := (Trade.taken hS.holds hfree deny (filled 0)).holds
    exact { h with }
  tree := (hS.grows deny hfree hp hx hold).tree_set
  inner q z j hq hz hvalid := by
    rcases hS.grow_entry deny hfree hp hx hold hq.le hz j with ⟨_, hnew⟩ | ⟨_, _, hnew⟩ |
      ⟨hz', hsame⟩
    · exact absurd hvalid hnew
    · rw [hnew]
      exact inner_and y
    · rw [hsame] at hvalid ⊢
      exact hS.inner q z j hq hz' hvalid
  leaf q z j hq hz hvalid := by
    rcases hS.grow_entry deny hfree hp hx hold hq.le hz j with ⟨_, hnew⟩ | ⟨rfl, _⟩ | ⟨hz', hsame⟩
    · exact absurd hvalid hnew
    · exact absurd hq hp.ne
    · rw [hsame] at hvalid ⊢
      exact hS.leaf q z j hq hz' hvalid
  low j hj hvalid := by
    rcases hS.grow_entry deny hfree hp hx hold (q := []) (Nat.zero_le 2) rfl j with
      ⟨_, hnew⟩ | ⟨hnil, rfl, _⟩ | ⟨_, hsame⟩
    · exact hnew hvalid
    · exact absurd (hi hnil.symm) (not_lt.mpr hj)
    · rw [hsame] at hvalid
      exact hS.low j hj hvalid

/-- **A new page in the table** leaves the lookups as they are. -/
lemma Space.grow_kept : Kept m r ((m.cleared y free deny).setEntry x i (mkPte (y <<< 12) 0)) where
  space := hS.grow deny hfree hp hx hi hold
  trade := by
    rw [hS.grow_nodes deny hfree hp hx hold]
    have h := Trade.taken hS.holds hfree deny (filled 0)
    exact h.trans (Trade.write h.holds (Set.mem_insert_of_mem _ ⟨p, hp.le, hx⟩) _)
  lookup := by
    funext w
    rw [Mem.lookup, Mem.lookup]
    refine if_congr Iff.rfl ?_ rfl
    have hlen := leafPath_length w
    rw [hS.grow_node deny hfree hp hx hold hlen.le]
    split_ifs with hw
    · -- the new page is the one with the entry of `w`; there was none before
      have hnone : m.node r (leafPath w) = none := by
        rw [hw, Mem.node_concat, hx, Option.bind_some]
        exact entryChild_eq_none.mpr hold
      rw [hnone, Option.bind_none, Option.bind_some, if_neg]
      have hz : ((m.cleared y free deny).setEntry x i (mkPte (y <<< 12) 0)).node r (leafPath w) =
          some y := by rw [hS.grow_node deny hfree hp hx hold hlen.le, if_pos hw]
      rcases hS.grow_entry deny hfree hp hx hold hlen.le hz (leafIndex w) with
        ⟨_, hnew⟩ | ⟨hwp, _⟩ | ⟨hy, _⟩
      · exact hnew
      · exact absurd (hwp ▸ hp) (by rw [hlen]; exact lt_irrefl 2)
      · exact absurd ⟨_, hlen.le, hy⟩ (hS.fresh_not_mem hfree)
    · refine Option.bind_congr fun z hz => ?_
      have hz' : ((m.cleared y free deny).setEntry x i (mkPte (y <<< 12) 0)).node r (leafPath w) =
          some z := by rw [hS.grow_node deny hfree hp hx hold hlen.le, if_neg hw, hz]
      rcases hS.grow_entry deny hfree hp hx hold hlen.le hz' (leafIndex w) with
        ⟨hwp, _⟩ | ⟨hwp, _⟩ | ⟨_, hsame⟩
      · exact absurd hwp hw
      · exact absurd (hwp ▸ hp) (by rw [hlen]; exact lt_irrefl 2)
      · rw [hsame]

end Grow

/-! ### `walk` -/

lemma walkFrom_false (va level x : ℕ) : runFrom (walkFrom va false level x) m =
    (.ok ((m.node x (pathFrom va level)).map fun y => (y, px 0 va)), m) := by
  induction level generalizing x with
  | zero => rfl
  | succ level ih =>
    change runFrom (if Valid (m.page x (px (level + 1) va)) then _ else pure none) m = _
    rw [Mem.node, pathFrom, Radix.node_cons]
    by_cases hvalid : Valid (m.page x (px (level + 1) va))
    · rw [if_pos hvalid, ih, entryChild_of_valid hvalid, Option.bind_some]
    · rw [if_neg hvalid, entryChild_eq_none.mpr hvalid]
      rfl

/-- **A walk without allocation** reads the tree. -/
lemma walk_false (hva : va < maxVa) : runFrom (walk r va false) m =
    (.ok ((m.node r (leafPath (vpn va))).map fun y => (y, leafIndex (vpn va))), m) := by
  rw [walk, if_neg (not_le.mpr hva), walkFrom_false, leafPath_vpn, leafIndex_vpn]

lemma Returns.walk_false {α : Type} {f : Option (ℕ × Fin 512) → VmM α} {R : α → Mem → Prop}
    (hva : va < maxVa)
    (h : Returns (f ((m.node r (leafPath (vpn va))).map fun y => (y, leafIndex (vpn va)))) m R) :
    Returns (walk r va false >>= f) m R := by
  rw [Returns.bind_iff, Returns.of_eq (Xv6Riscv.walk_false hva)]
  exact h

/-- What a walk with allocation returns: the place of an entry, or nothing. -/
def Walked (m : Mem) (r : ℕ) (p : List (Fin 512)) (i : Fin 512) (m' : Mem) :
    Option (ℕ × Fin 512) → Prop
  | none => m.failures < m'.failures
  | some slot => m'.node r p = some slot.1 ∧ slot.2 = i

lemma walkFrom_runs (hva : va < maxVa) : ∀ (level : ℕ) (p : List (Fin 512)) (x : ℕ) (m : Mem),
    Space m r → p.length + level = 2 → m.node r p = some x →
    Returns (walkFrom va true level x) m fun res m' =>
      Kept m r m' ∧ Walked m r (p ++ pathFrom va level) (px 0 va) m' res
  | 0, p, x, m, hS, _, hx => by
      refine Returns.pure ⟨Kept.refl hS, ?_, rfl⟩
      rw [pathFrom, List.append_nil]
      exact hx
  | level + 1, p, x, m, hS, hp, hx => by
      have hpath : p ++ pathFrom va (level + 1) =
          p ++ [px (level + 1) va] ++ pathFrom va level := by
        rw [pathFrom, List.append_assoc, List.singleton_append]
      have hlen : (p ++ [px (level + 1) va]).length + level = 2 := by
        rw [List.length_append, List.length_singleton]
        omega
      rw [hpath]
      refine Returns.readPte (Returns.ite (fun hvalid => ?_) fun hvalid => ?_)
      · refine walkFrom_runs hva level _ _ m hS hlen ?_
        rw [Mem.node_concat, hx, Option.bind_some, entryChild_of_valid hvalid]
      · refine Returns.bind_iff.mpr (Returns.kalloc (fun deny => ?_) fun y free deny hfree => ?_)
        · have hT := Trade.denied hS.holds deny
          exact Returns.pure ⟨⟨hS.of_same (fun _ _ => rfl) hT.holds, hT, rfl⟩, Nat.lt_succ_self _⟩
        · refine Returns.setPage (Returns.writePte ?_)
          rw [Mem.setPage_setPage, mkPte_inner]
          have hi : p = [] → (px (level + 1) va).val < 256 := by
            rintro rfl
            obtain rfl : level = 1 := by simpa using hp
            rw [← px_congr 2 (vpn_mul (vpn va))]
            exact px_two_lt (vpn_lt hva)
          have hK := hS.grow_kept deny hfree (by omega) hx hi hvalid
          have hnode := hS.grow_node deny hfree (by omega) hx hvalid
            (q := p ++ [px (level + 1) va]) (by omega)
          rw [if_pos rfl] at hnode
          refine (walkFrom_runs hva level _ y _ hK.space hlen hnode).mono fun res m' h => ?_
          refine ⟨hK.trans h.1, ?_⟩
          cases res with
          | none => exact lt_of_le_of_lt hK.trade.failures h.2
          | some slot => exact h.2

/-- **A walk with allocation** may add pages to the table. -/
lemma walk_runs (hS : Space m r) (hva : va < maxVa) : Returns (walk r va true) m fun res m' =>
    Kept m r m' ∧ Walked m r (leafPath (vpn va)) (leafIndex (vpn va)) m' res := by
  rw [walk, if_neg (not_le.mpr hva), leafPath_vpn, leafIndex_vpn]
  exact walkFrom_runs hva 2 [] r m hS rfl rfl

end Xv6Riscv
