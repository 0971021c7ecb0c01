import Xv6Riscv.Vm.Mapping

/-!
A page table is a partial map from virtual pages to entries (`vm.c`).

* `Built m r`: the tables that the kernel's own operations build; `Built.space` says that they are
  well formed.
* `page_table_partial_map`: `mappages`, `uvmunmap` and `freewalk` on such a table, by what `walk`
  finds.
-/

namespace Xv6Riscv

open Wp Radix

/-! ### `freewalk` -/

/-- The body of the loop of `freewalk`, for one entry; `freewalkChild` is the recursive call. -/
def freewalkEntry (freewalkChild : ℕ → VmM Unit) (pagetable : ℕ) (i : Fin 512) : VmM Unit := do
  let pte ← readPte (pagetable, i)
  if Valid pte ∧ pte &&& pteRWX = 0 then do
    freewalkChild (pageOf (pte2pa pte))
    writePte (pagetable, i) 0
  else if Valid pte then throw .leaf
  else pure ()

/-- `freewalk`, with a bound on its recursion. -/
def freewalk : ℕ → ℕ → VmM Unit
  | 0, _ => throw .depth
  | d + 1, pagetable => do
      forM (List.finRange 512) (freewalkEntry (freewalk d) pagetable)
      kfree pagetable

variable {m m' : Mem} {r x y d : ℕ}

/-- The pages `F` have been put on the free list. -/
structure Freed (m : Mem) (F : Set ℕ) (m' : Mem) : Prop where
  trade : Trade m F m' ∅
  list : m.free <:+ m'.free

section Loop

variable {sub : Fin 512 → Set ℕ}

/-- The pages that are left when the entries in `pre` have been treated. -/
def leftOver (x : ℕ) (sub : Fin 512 → Set ℕ) (pre : List (Fin 512)) : Set ℕ :=
  {y | y = x ∨ ∃ i, i ∉ pre ∧ y ∈ sub i}

lemma leftOver_concat (x : ℕ) (sub : Fin 512 → Set ℕ) (pre : List (Fin 512)) {i : Fin 512}
    (hi : i ∉ pre) : leftOver x sub pre = sub i ∪ leftOver x sub (pre ++ [i]) := by
  ext y
  constructor
  · rintro (rfl | ⟨j, hj, hy⟩)
    · exact .inr (.inl rfl)
    · by_cases hji : j = i
      · exact .inl (hji ▸ hy)
      · refine .inr (.inr ⟨j, ?_, hy⟩)
        rw [List.mem_append, List.mem_singleton]
        exact not_or.mpr ⟨hj, hji⟩
  · rintro (hy | rfl | ⟨j, hj, hy⟩)
    · exact .inr ⟨i, hi, hy⟩
    · exact .inl rfl
    · exact .inr ⟨j, fun h => hj (List.mem_append_left _ h), hy⟩

/-- What holds in the loop of `freewalk`. -/
structure Freeing (m : Mem) (x : ℕ) (sub : Fin 512 → Set ℕ) (pre : List (Fin 512)) (m' : Mem) :
    Prop where
  trade : Trade m (leftOver x sub []) m' (leftOver x sub pre)
  list : m.free <:+ m'.free
  same : ∀ i ∉ pre, ∀ y ∈ sub i, m'.page y = m.page y
  entry : ∀ i ∉ pre, m'.page x i = m.page x i

variable (hx : ∀ i, x ∉ sub i) (hdisj : ∀ i j y, y ∈ sub i → y ∈ sub j → i = j)
  (hnone : ∀ i, ¬ Valid (m.page x i) → sub i = ∅)
  (hsome : ∀ i, Valid (m.page x i) → m.page x i &&& pteRWX = 0 ∧ ∀ m1 : Mem,
    (∀ y ∈ sub i, m1.page y = m.page y) → Holds m1 (sub i) →
    Returns (freewalk d (pageOf (pte2pa (m.page x i)))) m1 fun _ m2 => Freed m1 (sub i) m2)

include hx hdisj hnone hsome

lemma freewalk_step {m1 : Mem} {pre : List (Fin 512)} {i : Fin 512} (hi : i ∉ pre)
    (h : Freeing m x sub pre m1) :
    Returns (freewalkEntry (freewalk d) x i) m1 fun _ m2 => Freeing m x sub (pre ++ [i]) m2 := by
  have hout : ∀ {j : Fin 512}, j ∉ pre ++ [i] → j ∉ pre ∧ j ≠ i := fun hj => by
    rw [List.mem_append, List.mem_singleton] at hj
    exact not_or.mp hj
  have hsplit := leftOver_concat x sub pre hi
  refine Returns.readPte ?_
  rw [h.entry i hi]
  by_cases hvalid : Valid (m.page x i)
  · obtain ⟨hrwx, hrec⟩ := hsome i hvalid
    rw [if_pos ⟨hvalid, hrwx⟩]
    have hH := h.trade.holds
    rw [hsplit] at hH
    refine (hrec m1 (h.same i hi) (hH.subset Set.subset_union_left)).bind fun _ m2 hF => ?_
    -- the other subtrees and the page itself are apart from the freed subtree
    have hapart : ∀ y ∈ leftOver x sub (pre ++ [i]), y ∉ sub i := by
      rintro y (rfl | ⟨j, hj, hy⟩) hyi
      · exact hx i hyi
      · exact (hout hj).2 (hdisj j i y hy hyi)
    have hT := hF.trade.frameOn hH hapart
    have hpage := fun y hy => hF.trade.page_eq hH hapart (x := y) hy
    rw [Set.empty_union, ← hsplit] at hT
    refine Returns.writePte_end ⟨h.trade.trans (hT.trans (Trade.write hT.holds (.inl rfl) _)),
      h.list.trans hF.list, fun j hj y hy => ?_, fun j hj => ?_⟩
    · have hyx : y ≠ x := fun hyx => hx j (hyx ▸ hy)
      refine (Radix.set_page_of_ne hyx).trans ?_
      rw [hpage y (.inr ⟨j, hj, hy⟩), h.same j (hout hj).1 y hy]
    · refine (Mem.setEntry_of_ne _ _ (.inr (hout hj).2)).trans ?_
      rw [hpage x (.inl rfl), h.entry j (hout hj).1]
  · rw [if_neg (fun hv => hvalid hv.1), if_neg hvalid]
    rw [hnone i hvalid, Set.empty_union] at hsplit
    refine Returns.pure ⟨?_, h.list, fun j hj => h.same j (hout hj).1,
      fun j hj => h.entry j (hout hj).1⟩
    rw [← hsplit]
    exact h.trade

lemma freewalk_entries {l : List (Fin 512)} (hl : l.Nodup) (hH : Holds m (leftOver x sub [])) :
    Returns (forM l (freewalkEntry (freewalk d) x)) m fun _ m' => Freeing m x sub l m' := by
  refine Returns.forM (fun pre m' => Freeing m x sub pre m') (fun pre i m1 hpre h => ?_)
    ⟨Trade.refl hH, List.suffix_rfl, fun _ _ _ _ => rfl, fun _ _ => rfl⟩
  refine freewalk_step hx hdisj hnone hsome (fun hi => ?_) h
  have hnd := hpre.sublist.nodup hl
  exact (List.nodup_append.mp hnd).2.2 i hi i (List.mem_singleton_self i) rfl

lemma freewalk_loop (hH : Holds m (leftOver x sub [])) :
    Returns (freewalk (d + 1) x) m fun _ m' => Freed m (leftOver x sub []) m' := by
  rw [freewalk]
  refine (freewalk_entries hx hdisj hnone hsome (List.nodup_finRange 512) hH).bind fun _ m1 h => ?_
  have hall : leftOver x sub (List.finRange 512) = insert x ∅ := by
    ext y
    constructor
    · rintro (rfl | ⟨i, hi, _⟩)
      · exact Set.mem_insert _ _
      · exact absurd (List.mem_finRange i) hi
    · rintro (rfl | hy)
      · exact .inl rfl
      · exact hy.elim
  have hT := h.trade
  rw [hall] at hT
  have hrange := hT.holds.range x (.inl (Set.mem_insert _ _))
  refine Returns.kfree hrange.1 hrange.2 (hT.holds.apart x (Set.mem_insert _ _)) ⟨?_, ?_⟩
  · exact hT.trans (Trade.given hT.holds (Set.notMem_empty x) _)
  · exact h.list.trans (List.suffix_cons _ _)

end Loop

/-- The pages below an entry. -/
def below (m : Mem) (d x : ℕ) (i : Fin 512) : Set ℕ :=
  {y | ∃ c, entryChild (m.page x i) = some c ∧ y ∈ Radix.nodes entryChild d m.page c}

lemma leftOver_below (m : Mem) (d x : ℕ) :
    leftOver x (below m d x) [] = Radix.nodes entryChild (d + 1) m.page x := by
  ext y
  rw [Radix.mem_nodes_succ]
  constructor
  · rintro (rfl | ⟨i, _, c, hc, hy⟩)
    · exact .inl rfl
    · exact .inr ⟨i, c, hc, hy⟩
  · rintro (rfl | ⟨i, c, hc, hy⟩)
    · exact .inl rfl
    · exact .inr ⟨i, List.not_mem_nil, c, hc, hy⟩

/-- **The recursion of `freewalk`**, over a tree of depth `d` without valid leaves. -/
lemma freewalk_tree : ∀ (d x : ℕ) (m : Mem), Radix.Tree entryChild d m.page x →
    (∀ p y i, p.length < d → m.node x p = some y → Valid (m.page y i) → m.page y i &&& pteRWX = 0) →
    (∀ p y i, p.length = d → m.node x p = some y → ¬ Valid (m.page y i)) →
    Holds m (Radix.nodes entryChild d m.page x) →
    Returns (freewalk (d + 1) x) m fun _ m' => Freed m (Radix.nodes entryChild d m.page x) m'
  | 0, x, m, _, _, hleaf, hH => by
      have hall : leftOver x (fun _ => ∅) [] = Radix.nodes entryChild 0 m.page x := by
        ext y
        constructor
        · rintro (rfl | ⟨i, _, hy⟩)
          · exact Radix.root_mem_nodes
          · exact hy.elim
        · rintro ⟨p, hp, hpy⟩
          obtain rfl := List.eq_nil_of_length_eq_zero (Nat.le_zero.mp hp)
          exact .inl (Option.some.inj hpy).symm
      have hinvalid : ∀ i, ¬ Valid (m.page x i) := fun i => hleaf [] x i rfl rfl
      rw [← hall] at hH ⊢
      exact freewalk_loop (fun _ h => h.elim) (fun _ _ _ h => h.elim) (fun _ _ => rfl)
        (fun i hi => absurd hi (hinvalid i)) hH
  | d + 1, x, m, hT, hinner, hleaf, hH => by
      rw [← leftOver_below] at hH ⊢
      refine freewalk_loop ?_ ?_ ?_ ?_ hH
      · rintro i ⟨c, hc, hx⟩
        exact hT.root_not_mem hc hx
      · rintro i j y ⟨c, hc, hy⟩ ⟨c', hc', hy'⟩
        exact hT.disjoint hc hc' hy hy'
      · intro i hi
        refine Set.eq_empty_of_forall_notMem ?_
        rintro y ⟨c, hc, _⟩
        rw [entryChild_eq_none.mpr hi] at hc
        cases hc
      · intro i hi
        have hc := entryChild_of_valid hi
        have hbelow : below m d x i =
            Radix.nodes entryChild d m.page (pageOf (pte2pa (m.page x i))) := by
          ext y
          constructor
          · rintro ⟨c, hc', hy⟩
            cases hc.symm.trans hc'
            exact hy
          · exact fun hy => ⟨_, hc, hy⟩
        refine ⟨hinner [] x i (Nat.succ_pos d) rfl hi, fun m1 hsame hH1 => ?_⟩
        rw [hbelow] at hsame hH1 ⊢
        -- the subtree in the memory of that moment is the one from the start
        have hnode : ∀ p, p.length ≤ d + 1 →
            m1.node (pageOf (pte2pa (m.page x i))) p = m.node x (i :: p) := fun p hp => by
          rw [Mem.node, Radix.node_congr_nodes hsame hp, Mem.node, Radix.node_cons, hc,
            Option.bind_some]
        have hpage : ∀ p y, p.length ≤ d → m.node x (i :: p) = some y → m1.page y = m.page y :=
          fun p y hp hy => hsame y ⟨p, hp, by
            rw [Mem.node, Radix.node_cons, hc, Option.bind_some] at hy
            exact hy⟩
        rw [← Radix.nodes_congr hsame] at hH1 ⊢
        refine freewalk_tree d _ m1 ((hT.subtree hc).congr hsame) ?_ ?_ hH1
        · intro p y j hp hy
          rw [hnode p (by omega)] at hy
          rw [hpage p y hp.le hy]
          exact hinner (i :: p) y j (Nat.succ_lt_succ hp) hy
        · intro p y j hp hy
          rw [hnode p (by omega)] at hy
          rw [hpage p y hp.le hy]
          exact hleaf (i :: p) y j (congrArg Nat.succ hp) hy

lemma Space.leaf_of_lookup (hS : Space m r) (hnone : m.lookup r = fun _ => none)
    {p : List (Fin 512)} {i : Fin 512} (hp : p.length = 2) (hx : m.node r p = some x) :
    ¬ Valid (m.page x i) := by
  intro hvalid
  obtain ⟨a, b, rfl⟩ := List.length_eq_two.mp hp
  -- the top index is in the lower half, since the root has no other valid entries
  have ha : a.val < 256 := by
    by_contra hge
    have hroot := hS.low a (not_lt.mp hge)
    rw [Mem.node, Radix.node_cons, entryChild_eq_none.mpr hroot] at hx
    cases hx
  obtain ⟨v, hv, rfl, rfl, rfl⟩ := exists_vpn a b i ha
  have hlookup : m.lookup r v = some _ := Mem.lookup_eq_some.mpr ⟨hv, x, hx, rfl, hvalid⟩
  rw [hnone] at hlookup
  cases hlookup

/-- **`freewalk`** frees a table without entries. -/
lemma freewalk_runs (hS : Space m r) (hnone : m.lookup r = fun _ => none) :
    Returns (freewalk 3 r) m fun _ m' => Freed m (m.nodes r) m' :=
  freewalk_tree 2 r m hS.tree hS.inner (fun _ _ _ hp hx => hS.leaf_of_lookup hnone hp hx) hS.holds

/-- The pages on the free list after `Freed`, each once. -/
lemma Freed.exists_list {F : Set ℕ} (h : Freed m F m') (hH : Holds m F) :
    ∃ l : List ℕ, l.Nodup ∧ (∀ x, x ∈ l ↔ x ∈ F) ∧ m'.free = l ++ m.free := by
  obtain ⟨l, hl⟩ := h.list
  have hnd := h.trade.holds.nodup
  rw [← hl, List.nodup_append] at hnd
  refine ⟨l, hnd.1, fun x => ?_, hl.symm⟩
  have hpages := h.trade.pages x
  rw [← hl, List.mem_append] at hpages
  constructor
  · intro hx
    exact (hpages.mp (.inr (.inl hx))).resolve_right fun hf => hnd.2.2 x hx x hf rfl
  · intro hx
    rcases hpages.mpr (.inl hx) with h | h | h
    · exact h.elim
    · exact h
    · exact absurd h (hH.apart x hx)

/-! ### Tables built by the kernel -/

/-- The entry that `walk` finds for an address, if it is valid. -/
def findPte (pagetable va : ℕ) : VmM (Option ℕ) := do
  match ← walk pagetable va false with
  | none => pure none
  | some slot => do
      let pte ← readPte slot
      if Valid pte then pure (some pte) else pure none

/-- The result of `findPte`. -/
def Mem.find (m : Mem) (r va : ℕ) : Option ℕ :=
  match (runFrom (findPte r va) m).1 with
  | .ok res => res
  | .error _ => none

variable {va : ℕ}

lemma Mem.find_eq (hva : va < maxVa) : m.find r va = m.lookup r (vpn va) := by
  have hrun : runFrom (findPte r va) m = (.ok (m.lookup r (vpn va)), m) := by
    rw [findPte, runFrom_bind_ok (walk_false hva)]
    cases hx : m.node r (leafPath (vpn va)) with
    | none =>
      rw [Mem.lookup_of_node_none hx]
      rfl
    | some x =>
      rw [Mem.lookup_of_node (vpn_lt hva) hx]
      change runFrom (if Valid (m.page x (leafIndex (vpn va))) then _ else _) m = _
      split_ifs <;> rfl
  rw [Mem.find, hrun]

/-- **The tables that the kernel builds**: an empty table is made, entries are written, removed and
barred to the user, and in between other code works on other pages. Where `uvmunmap` frees the
pages behind its range, the table has to own them. -/
inductive Built : Mem → ℕ → Prop
  | create {m m' : Mem} {r : ℕ} (hfree : Holds m ∅)
      (hrun : runFrom uvmcreate m = (.ok (some r), m')) : Built m' r
  | map {m m' : Mem} {r va n pa perm : ℕ} {res : ℤ} (h : Built m r) (hva : pgSize ∣ va) (hn : 0 < n)
      (hmax : va + n * pgSize ≤ maxVa) (hpa : pgSize ∣ pa) (htop : pa + n * pgSize ≤ 2 ^ 56)
      (hperm : perm < 1024) (hrwx : perm &&& pteRWX ≠ 0)
      (hrun : runFrom (mappages r va (n * pgSize) pa perm) m = (.ok res, m')) : Built m' r
  | unmap {m m' : Mem} {r va n : ℕ} {doFree : Bool} (h : Built m r) (hva : pgSize ∣ va)
      (hmax : va + n * pgSize ≤ maxVa)
      (hown : doFree = true → Owned m r (pageRange (vpn va) n))
      (hrun : runFrom (uvmunmap r va n doFree) m = (.ok (), m')) : Built m' r
  | clear {m m' : Mem} {r va : ℕ} (h : Built m r) (hva : pgSize ∣ va) (hmax : va < maxVa)
      (hrun : runFrom (uvmclear r va) m = (.ok (), m')) : Built m' r
  | elsewhere {m m' : Mem} {r : ℕ} (h : Built m r) (hsame : ∀ x ∈ m.nodes r, m'.page x = m.page x)
      (hholds : Holds m' (m.nodes r)) : Built m' r

/-- `uvmclear` on any page that has a place for its entry. -/
lemma uvmclear_wp (hS : Space m r) (hva : va < maxVa) :
    wp (uvmclear r va) (fun _ m' => Space m' r) (fun e _ => e = .uvmclear) m := by
  rw [uvmclear, wp_bind, wp_of_eq (walk_false hva)]
  cases hy : m.node r (leafPath (vpn va)) with
  | none => rfl
  | some y =>
    refine hS.setLeaf hy fun hvalid => ?_
    rw [clearU_and _ (by decide)]
    exact hS.leaf _ y _ (leafPath_length _) hy ((valid_clearU _).mp hvalid)

/-- **Every table that the kernel builds** is well formed. -/
lemma Built.space (h : Built m r) : Space m r := by
  induction h with
  | create hfree hrun =>
    have h := (Returns.of_eq hrun).mp (uvmcreate_runs hfree)
    exact h.2.2.1
  | map _ hva hn hmax hpa _ hperm hrwx hrun hS =>
    have h := (wp_of_eq hrun).mp (mappages_wp hperm hrwx hS hva hn hmax hpa)
    rcases h with ⟨_, h⟩ | ⟨_, _, _, _, h⟩
    · exact h.space
    · exact h.space
  | @unmap m m' r va n doFree _ hva hmax hown hrun hS =>
    obtain ⟨v, rfl⟩ := hva
    rw [Nat.mul_comm pgSize v] at hmax hown hrun
    rw [vpn_mul] at hown
    have hv : v + n ≤ maxVpn := by
      rw [pgSize, maxVa] at hmax
      rw [maxVpn]
      omega
    exact ((Returns.of_eq hrun).mp (uvmunmap_runs doFree hS hv hown)).space
  | clear _ _ hmax hrun hS => exact (wp_of_eq hrun).mp (uvmclear_wp hS hmax)
  | elsewhere _ hsame hholds hS => exact hS.of_same hsame hholds

lemma vpn_ne {vb : ℕ} (hva : pgSize ∣ va) (hvb : pgSize ∣ vb) (h : vb ≠ va) : vpn vb ≠ vpn va := by
  intro heq
  rw [← Nat.div_mul_cancel hva, ← Nat.div_mul_cancel hvb] at h
  exact h (congrArg (· * pgSize) heq)

lemma mem_range_iff {vb n : ℕ} (hva : pgSize ∣ va) (hvb : pgSize ∣ vb) :
    vpn va ≤ vpn vb ∧ vpn vb < vpn va + n ↔ va ≤ vb ∧ vb < va + n * pgSize := by
  obtain ⟨v, rfl⟩ := hva
  obtain ⟨w, rfl⟩ := hvb
  rw [Nat.mul_comm pgSize v, Nat.mul_comm pgSize w, vpn_mul, vpn_mul, pgSize]
  omega

/-- **The page table is a partial map.** `mappages` of one page adds the entry that decodes to the
address and flags given, and changes no other lookup; when it fails it changes none. `uvmunmap`
clears the lookups of its range and no others. When there are no entries left, `freewalk` puts each
page of the table on the free list once. -/
theorem page_table_partial_map (h : Built m r) :
    (∀ va pa perm : ℕ, pgSize ∣ va → va < maxVa → pgSize ∣ pa → pa < 2 ^ 56 → perm < 1024 →
      perm &&& pteRWX ≠ 0 →
      wp (mappages r va pgSize pa perm) (fun res m' =>
          (res = 0 ∧ (∃ pte, m'.find r va = some pte ∧ pte2pa pte = pa ∧
              pteFlags pte = perm ||| pteV) ∧
            ∀ vb, pgSize ∣ vb → vb < maxVa → vb ≠ va → m'.find r vb = m.find r vb) ∨
          (res = -1 ∧ ∀ vb, pgSize ∣ vb → vb < maxVa → m'.find r vb = m.find r vb))
        (fun e _ => e = .remap ∧ m.find r va ≠ none) m) ∧
    (∀ (va n : ℕ) (doFree : Bool), pgSize ∣ va → va + n * pgSize ≤ maxVa →
      (doFree = true → Owned m r (pageRange (vpn va) n)) →
      Returns (uvmunmap r va n doFree) m fun _ m' => ∀ vb, pgSize ∣ vb → vb < maxVa →
        m'.find r vb = if va ≤ vb ∧ vb < va + n * pgSize then none else m.find r vb) ∧
    ((∀ va, pgSize ∣ va → va < maxVa → m.find r va = none) → Returns (freewalk 3 r) m fun _ m' =>
        ∃ l : List ℕ, l.Nodup ∧ (∀ x, x ∈ l ↔ x ∈ m.nodes r) ∧ m'.free = l ++ m.free) := by
  have hS := h.space
  refine ⟨fun va pa perm halign hva hpa _ hperm hrwx => ?_, fun va n doFree halign hmax hown => ?_,
    fun hnone => ?_⟩
  · have hmax : va + 1 * pgSize ≤ maxVa := by
      obtain ⟨v, rfl⟩ := halign
      rw [pgSize, maxVa] at hva ⊢
      omega
    have hmap := mappages_wp hperm hrwx hS halign Nat.one_pos hmax hpa
    rw [Nat.one_mul] at hmap
    refine wp_mono hmap (fun res m' hres => ?_) ?_
    · rcases hres with ⟨rfl, hB⟩ | ⟨rfl, _, k, hk, hB⟩
      · rw [mapRange_one] at hB
        obtain ⟨hdec, hflags, _⟩ := mkPte_spec hpa hperm
        refine .inl ⟨rfl, ⟨mkPte pa perm, ?_, hdec, hflags⟩, fun vb hvb hlt hne => ?_⟩
        · rw [Mem.find_eq hva, hB.lookup, Function.update_self]
        · rw [Mem.find_eq hlt, Mem.find_eq hlt, hB.lookup,
            Function.update_of_ne (vpn_ne halign hvb hne)]
      · obtain rfl : k = 0 := by omega
        rw [mapRange_zero] at hB
        refine .inr ⟨rfl, fun vb _ hlt => ?_⟩
        rw [Mem.find_eq hlt, Mem.find_eq hlt, hB.lookup]
    · rintro e _ ⟨rfl, w, hle, hlt, hw⟩
      obtain rfl : w = vpn va := by omega
      exact ⟨rfl, by rwa [Mem.find_eq hva]⟩
  · have hv : vpn va + n ≤ maxVpn := by
      obtain ⟨v, rfl⟩ := halign
      rw [Nat.mul_comm pgSize v, pgSize, maxVa] at hmax
      rw [Nat.mul_comm pgSize v, vpn_mul, maxVpn]
      omega
    have hrun := uvmunmap_runs doFree hS hv hown
    rw [vpn, Nat.div_mul_cancel halign] at hrun
    refine hrun.mono fun _ m' hU vb hvb hlt => ?_
    rw [Mem.find_eq hlt, Mem.find_eq hlt, hU.lookup]
    exact if_congr (mem_range_iff halign hvb) rfl rfl
  · have hlookup : m.lookup r = fun _ => none := by
      funext v
      by_cases hv : v < maxVpn
      · have h := hnone (v * pgSize) (Nat.dvd_mul_left _ _) (mul_lt_maxVa hv)
        rwa [Mem.find_eq (mul_lt_maxVa hv), vpn_mul] at h
      · rw [Mem.lookup, if_neg hv]
    exact (freewalk_runs hS hlookup).mono fun _ m' hF => hF.exists_list hS.holds

def threePages : Mem :=
  { page := fun _ _ => 0, free := [8, 9, 10], deny := [], failures := 0, kend := 5 }

lemma threePages_holds : Holds threePages ∅ where
  nodup := by decide
  apart _ hx := hx.elim
  range x hx := by
    have hmem : x ∈ [8, 9, 10] := hx.resolve_left fun h => h
    simp only [List.mem_cons, List.not_mem_nil, or_false] at hmem
    change 5 ≤ x ∧ x < 0x88000
    omega
  pos := by decide

lemma threePages_create :
    runFrom uvmcreate threePages = (.ok (some 8), threePages.cleared 8 [9, 10] []) := by
  rw [Mem.cleared, ← Mem.setPage_setPage _ 8 (filled 5)]
  rfl

/-- A page has been mapped, and its mapping has been removed again. -/
def onePage : Mem :=
  (runFrom (mappages 8 4096 4096 0x80000000 (pteR ||| pteU)) (threePages.cleared 8 [9, 10] [])).2

def noPage : Mem := (runFrom (uvmunmap 8 4096 1 false) onePage).2

lemma onePage_eq : runFrom (mappages 8 4096 4096 0x80000000 (pteR ||| pteU))
    (threePages.cleared 8 [9, 10] []) = (.ok 0, onePage) := rfl

lemma noPage_eq : runFrom (uvmunmap 8 4096 1 false) onePage = (.ok (), noPage) := rfl

/-- The hypothesis is met by a table with a page, and by the same table without it. -/
theorem page_table_partial_map_page : Built onePage 8 ∧ onePage.find 8 4096 ≠ none ∧
    onePage.free = [] ∧ Built noPage 8 ∧ noPage.find 8 4096 = none ∧
    Returns (freewalk 3 8) noPage fun _ m' => ∃ l : List ℕ, l.Nodup ∧
      (∀ x, x ∈ l ↔ x ∈ noPage.nodes 8) ∧ m'.free = l ++ noPage.free := by
  have hnew : Built (threePages.cleared 8 [9, 10] []) 8 :=
    .create threePages_holds threePages_create
  have hone : Built onePage 8 := hnew.map (n := 1) (by decide) (by decide) (by decide) (by decide)
    (by decide) (by decide) (by decide) onePage_eq
  have hno : Built noPage 8 := by
    refine hone.unmap ?_ ?_ ?_ noPage_eq
    · decide
    · decide
    · nofun
  have hmap := (wp_of_eq onePage_eq).mp ((page_table_partial_map hnew).1 4096 0x80000000 _
    (by decide) (by decide) (by decide) (by decide) (by decide) (by decide))
  have hunmap := (Returns.of_eq noPage_eq).mp
    ((page_table_partial_map hone).2.1 4096 1 false (by decide) (by decide) nofun)
  rcases hmap with ⟨-, ⟨pte, hfind, -⟩, hrest⟩ | ⟨h0, -⟩
  · have hnone : ∀ va, pgSize ∣ va → va < maxVa → noPage.find 8 va = none := fun va hva hlt => by
      rw [hunmap va hva hlt]
      split_ifs with hin
      · rfl
      · have hne : va ≠ 4096 := by
          rintro rfl
          exact hin (by decide)
        rw [hrest va hva hlt hne, Mem.find_eq hlt, (Space.of_cleared threePages_holds rfl).2.1]
    exact ⟨hone, by rw [hfind]; nofun, rfl, hno, hnone 4096 (by decide) (by decide),
      (page_table_partial_map hno).2.2 hnone⟩
  · exact absurd h0 (by decide)

end Xv6Riscv
