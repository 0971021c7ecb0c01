import Xv6Riscv.Vm.Table

/-!
Mapping and unmapping (`vm.c`).
-/

namespace Xv6Riscv

open Function (update update_eq_self update_of_ne update_self)
open Wp Radix

/-! ### The code -/

/-- The loop of `mappages`, with `n` pages to go. -/
def mappagesLoop (pagetable perm : ℕ) : ℕ → ℕ → ℕ → VmM ℤ
  | 0, _, _ => pure 0
  | n + 1, a, pa => do
      match ← walk pagetable a true with
      | none => pure (-1)
      | some slot => do
          let pte ← readPte slot
          if Valid pte then throw .remap
          writePte slot (mkPte pa perm)
          mappagesLoop pagetable perm n (a + pgSize) (pa + pgSize)

def mappages (pagetable va size pa perm : ℕ) : VmM ℤ := do
  if va % pgSize ≠ 0 then throw .vaNotAligned
  if size % pgSize ≠ 0 then throw .sizeNotAligned
  if size = 0 then throw .size
  mappagesLoop pagetable perm (size / pgSize) va pa

def uvmcreate : VmM (Option ℕ) := do
  match ← kalloc with
  | none => pure none
  | some x => do
      setPage x (filled 0)
      pure (some x)

/-- What `uvmunmap` does for one page. -/
def unmapPage (pagetable : ℕ) (doFree : Bool) (a : ℕ) : VmM Unit := do
  match ← walk pagetable a false with
  | none => pure ()
  | some slot => do
      let pte ← readPte slot
      if Valid pte then
        if doFree then
          kfree (pageOf (pte2pa pte))
          writePte slot 0
        else writePte slot 0
      else pure ()

/-- The loop of `uvmunmap`, with `n` pages to go. -/
def uvmunmapLoop (pagetable : ℕ) (doFree : Bool) : ℕ → ℕ → VmM Unit
  | 0, _ => pure ()
  | n + 1, a => do
      unmapPage pagetable doFree a
      uvmunmapLoop pagetable doFree n (a + pgSize)

def uvmunmap (pagetable va npages : ℕ) (doFree : Bool) : VmM Unit := do
  if va % pgSize ≠ 0 then throw .notAligned
  uvmunmapLoop pagetable doFree npages va

/-- `pte & ~PTE_U`. -/
def clearU (pte : ℕ) : ℕ := pte ^^^ (pte &&& pteU)

def uvmclear (pagetable va : ℕ) : VmM Unit := do
  match ← walk pagetable va false with
  | none => throw .uvmclear
  | some slot => do
      let pte ← readPte slot
      writePte slot (clearU pte)

variable {m m' m'' : Mem} {r v w va x y pte : ℕ} {i : Fin 512}

/-! ### `mappages` -/

/-- The lookups with `k` pages mapped from `v` on. -/
def mapRange (f : ℕ → Option ℕ) (v k pa perm : ℕ) : ℕ → Option ℕ := fun w =>
  if v ≤ w ∧ w < v + k then some (mkPte (pa + (w - v) * pgSize) perm) else f w

lemma mapRange_zero (f : ℕ → Option ℕ) (v pa perm : ℕ) : mapRange f v 0 pa perm = f := by
  funext w
  rw [mapRange, if_neg (by omega)]

lemma mapRange_succ (f : ℕ → Option ℕ) (v k pa perm : ℕ) :
    mapRange (update f v (some (mkPte pa perm))) (v + 1) k (pa + pgSize) perm =
      mapRange f v (k + 1) pa perm := by
  funext w
  rw [mapRange, mapRange]
  by_cases hwv : w = v
  · rw [hwv, if_neg (by omega), if_pos (by omega), update_self, Nat.sub_self, Nat.zero_mul,
      Nat.add_zero]
  · rw [update_of_ne hwv]
    by_cases hw : v + 1 ≤ w ∧ w < v + 1 + k
    · have hsub : pa + pgSize + (w - (v + 1)) * pgSize = pa + (w - v) * pgSize := by
        rw [show w - v = w - (v + 1) + 1 by omega, Nat.succ_mul]
        omega
      rw [if_pos hw, if_pos (by omega), hsub]
    · rw [if_neg hw, if_neg (by omega)]

lemma mapRange_one (f : ℕ → Option ℕ) (v pa perm : ℕ) :
    mapRange f v 1 pa perm = update f v (some (mkPte pa perm)) := by
  rw [← mapRange_succ, mapRange_zero]

lemma vpn_add (va : ℕ) : vpn (va + pgSize) = vpn va + 1 := Nat.add_div_right va (by decide)

variable {pa perm n : ℕ}

lemma mkPte_leaf (hpa : pgSize ∣ pa) (hperm : perm < 1024) (hrwx : perm &&& pteRWX ≠ 0) :
    mkPte pa perm &&& pteRWX ≠ 0 := by
  rw [mkPte_and hpa hperm (by decide), Nat.and_or_distrib_right,
    show pteV &&& pteRWX = 0 by decide, Nat.or_zero]
  exact hrwx

section Map

variable {perm : ℕ} (hperm : perm < 1024) (hrwx : perm &&& pteRWX ≠ 0)

include hperm hrwx

/-- The loop of `mappages` maps some pages from the first on, all of them if it returns 0. -/
lemma mappagesLoop_wp : ∀ (n va pa : ℕ) (m : Mem), Space m r → va + n * pgSize ≤ maxVa →
    pgSize ∣ pa → wp (mappagesLoop r perm n va pa) (fun res m' =>
      (res = 0 ∧ Becomes m r m' (mapRange (m.lookup r) (vpn va) n pa perm)) ∨
      (res = -1 ∧ m.failures < m'.failures ∧
        ∃ k < n, Becomes m r m' (mapRange (m.lookup r) (vpn va) k pa perm)))
      (fun e _ => e = .remap ∧ ∃ w, vpn va ≤ w ∧ w < vpn va + n ∧ m.lookup r w ≠ none) m
  | 0, va, pa, m, hS, _, _ => by
      left
      rw [mapRange_zero]
      exact ⟨rfl, Kept.refl hS⟩
  | n + 1, va, pa, m, hS, hva, hpa => by
      have hlt : va < maxVa := by
        rw [pgSize] at hva
        omega
      have hwalk := Returns.iff_wp.mp (walk_runs hS hlt)
      refine wp_bind_of (wp_mono hwalk (fun _ _ h => h) (by simp)) fun res m1 h => ?_
      obtain ⟨hK, hW⟩ := h
      cases res with
      | none =>
        refine .inr ⟨rfl, hW, 0, Nat.succ_pos n, ?_⟩
        rw [mapRange_zero]
        exact hK
      | some slot =>
        obtain ⟨y, i⟩ := slot
        obtain ⟨hy, rfl⟩ : m1.node r (leafPath (vpn va)) = some y ∧ i = leafIndex (vpn va) := hW
        have hlookup := Mem.lookup_of_node (vpn_lt hlt) hy
        rw [hK.lookup] at hlookup
        change wp (if Valid (m1.page y (leafIndex (vpn va))) then _ else _) _ _ _
        by_cases hvalid : Valid (m1.page y (leafIndex (vpn va)))
        · rw [if_pos hvalid]
          refine ⟨rfl, vpn va, le_rfl, by omega, ?_⟩
          rw [hlookup, if_pos hvalid]
          exact Option.some_ne_none _
        · rw [if_neg hvalid]
          have hB := hK.space.setLeaf_becomes (vpn_lt hlt) hy _ fun _ => mkPte_leaf hpa hperm hrwx
          rw [if_pos (mkPte_spec hpa hperm).2.2, hK.lookup] at hB
          have hrest := mappagesLoop_wp n (va + pgSize) (pa + pgSize) _ hB.space
            (by rw [Nat.succ_mul] at hva; omega) ((Nat.dvd_add_right hpa).mpr dvd_rfl)
          rw [hB.lookup, vpn_add] at hrest
          have hT := Becomes.trans hK hB
          refine wp_mono hrest (fun res m' h => ?_) ?_
          · rcases h with ⟨rfl, h⟩ | ⟨rfl, hf, k, hk, h⟩
            · rw [mapRange_succ] at h
              exact .inl ⟨rfl, hT.trans h⟩
            · rw [mapRange_succ] at h
              exact .inr ⟨rfl, lt_of_le_of_lt hT.trade.failures hf, k + 1, by omega, hT.trans h⟩
          · rintro e _ ⟨rfl, w, hle, hlt', hw⟩
            rw [update_of_ne (by omega)] at hw
            exact ⟨rfl, w, by omega, by omega, hw⟩

end Map

/-- **Mapping pages** below `MAXVA`. -/
lemma mappages_wp (hperm : perm < 1024) (hrwx : perm &&& pteRWX ≠ 0) (hS : Space m r)
    (halign : pgSize ∣ va) (hn : 0 < n) (hva : va + n * pgSize ≤ maxVa) (hpa : pgSize ∣ pa) :
    wp (mappages r va (n * pgSize) pa perm) (fun res m' =>
      (res = 0 ∧ Becomes m r m' (mapRange (m.lookup r) (vpn va) n pa perm)) ∨
      (res = -1 ∧ m.failures < m'.failures ∧
        ∃ k < n, Becomes m r m' (mapRange (m.lookup r) (vpn va) k pa perm)))
      (fun e _ => e = .remap ∧ ∃ w, vpn va ≤ w ∧ w < vpn va + n ∧ m.lookup r w ≠ none) m := by
  have hsize : n * pgSize ≠ 0 := (Nat.mul_pos hn (by decide)).ne'
  rw [mappages, if_neg (not_not.mpr (Nat.mod_eq_zero_of_dvd halign))]
  change wp (if n * pgSize % pgSize ≠ 0 then _ else _) _ _ _
  rw [if_neg (not_not.mpr (Nat.mul_mod_left n pgSize))]
  change wp (if n * pgSize = 0 then _ else _) _ _ _
  rw [if_neg hsize, Nat.mul_div_cancel n (by decide)]
  exact mappagesLoop_wp hperm hrwx n va pa m hS hva hpa

lemma mappages_runs (hperm : perm < 1024) (hrwx : perm &&& pteRWX ≠ 0) (hS : Space m r)
    (hv : v < maxVpn) (hnone : m.lookup r v = none) (hpa : pgSize ∣ pa) :
    Returns (mappages r (v * pgSize) pgSize pa perm) m fun res m' =>
      (res = 0 ∧ Becomes m r m' (update (m.lookup r) v (some (mkPte pa perm)))) ∨
      (res = -1 ∧ m.failures < m'.failures ∧ Kept m r m') := by
  have hva : v * pgSize + 1 * pgSize ≤ maxVa := by
    rw [maxVpn] at hv
    rw [pgSize, maxVa]
    omega
  have h := mappages_wp hperm hrwx hS (Nat.dvd_mul_left pgSize v) Nat.one_pos hva hpa
  rw [Nat.one_mul, vpn_mul] at h
  refine Returns.iff_wp.mpr (wp_mono h (fun res m' h => ?_) ?_)
  · rcases h with ⟨rfl, h⟩ | ⟨rfl, hf, k, hk, h⟩
    · rw [mapRange_one] at h
      exact .inl ⟨rfl, h⟩
    · obtain rfl : k = 0 := by omega
      rw [mapRange_zero] at h
      exact .inr ⟨rfl, hf, h⟩
  · rintro e _ ⟨_, w, hle, hlt, hw⟩
    obtain rfl : w = v := by omega
    exact hw hnone

/-! ### Ownership of the pages behind a table -/

/-- The physical page behind a virtual page. -/
def Mem.back (m : Mem) (r v : ℕ) : Option ℕ := (m.lookup r v).map fun pte => pageOf (pte2pa pte)

/-- The physical pages behind a set of virtual pages. -/
def Mem.users (m : Mem) (r : ℕ) (A : Set ℕ) : Set ℕ := {x | ∃ v ∈ A, m.back r v = some x}

/-- The pages of a table and those behind it. -/
def Mem.foot (m : Mem) (r : ℕ) (A : Set ℕ) : Set ℕ := m.nodes r ∪ m.users r A

/-- **The table owns the pages behind `A`**: they are apart from the pages of the table, and each is
behind one virtual page. -/
structure Owned (m : Mem) (r : ℕ) (A : Set ℕ) : Prop where
  space : Space m r
  holds : Holds m (m.foot r A)
  apart : ∀ x ∈ m.users r A, x ∉ m.nodes r
  inj : ∀ v ∈ A, ∀ w ∈ A, ∀ x, m.back r v = some x → m.back r w = some x → v = w

variable {A B F : Set ℕ}

lemma Mem.back_eq_none : m.back r v = none ↔ m.lookup r v = none := Option.map_eq_none_iff

lemma Mem.back_mkPte (hpa : pgSize ∣ pa) (hperm : perm < 1024)
    (h : m.lookup r v = some (mkPte pa perm)) : m.back r v = some (pageOf pa) := by
  rw [Mem.back, h, Option.map_some, (mkPte_spec hpa hperm).1]

lemma Mem.users_mono (hAB : A ⊆ B) : m.users r A ⊆ m.users r B :=
  fun _ ⟨v, hv, h⟩ => ⟨v, hAB hv, h⟩

lemma Owned.mono (h : Owned m r B) (hAB : A ⊆ B) : Owned m r A where
  space := h.space
  holds := h.holds.subset (Set.union_subset_union_right _ (Mem.users_mono hAB))
  apart x hx := h.apart x (Mem.users_mono hAB hx)
  inj v hv w hw := h.inj v (hAB hv) w (hAB hw)

/-- The table and the pages behind it after a trade that touched neither the pages now behind `A`
nor other pages. -/
lemma Owned.of_trade (hS : Space m' r) (hT : Trade m F m' (m'.nodes r))
    (hF : Holds m (F ∪ m'.users r A)) (hd : ∀ x ∈ m'.users r A, x ∉ F)
    (hinj : ∀ v ∈ A, ∀ w ∈ A, ∀ x, m'.back r v = some x → m'.back r w = some x → v = w) :
    Owned m' r A ∧ Trade m (F ∪ m'.users r A) m' (m'.foot r A) ∧
      ∀ x ∈ m'.users r A, m'.page x = m.page x := by
  have hT' := hT.frameOn hF hd
  refine ⟨⟨hS, hT'.holds, fun x hx => ?_, hinj⟩, hT', fun x hx => hT.page_eq hF hd hx⟩
  exact (hT.not_mem (hd x hx) (hF.apart x (.inr hx))).1

/-! ### `uvmunmap` -/

/-- The lookups without `k` pages from `v` on. -/
def unmapRange {α : Type} (f : ℕ → Option α) (v k : ℕ) : ℕ → Option α := fun w =>
  if v ≤ w ∧ w < v + k then none else f w

variable {α : Type}

lemma unmapRange_zero (f : ℕ → Option α) (v : ℕ) : unmapRange f v 0 = f := by
  funext w
  rw [unmapRange, if_neg (by omega)]

lemma unmapRange_succ (f : ℕ → Option α) (v k : ℕ) :
    unmapRange (update f v none) (v + 1) k = unmapRange f v (k + 1) := by
  funext w
  rw [unmapRange, unmapRange]
  by_cases hwv : w = v
  · rw [hwv, update_self, ite_self, if_pos (by omega)]
  · rw [update_of_ne hwv]
    exact if_congr (by omega) rfl rfl

def pageRange (v n : ℕ) : Set ℕ := {w | v ≤ w ∧ w < v + n}

lemma unmapRange_of_mem (f : ℕ → Option α) (h : w ∈ pageRange v n) : unmapRange f v n w = none :=
  if_pos h

lemma unmapRange_of_not_mem (f : ℕ → Option α) (h : w ∉ pageRange v n) : unmapRange f v n w = f w :=
  if_neg h

/-- The pages that `uvmunmap` frees. -/
def Mem.dropped (m : Mem) (r : ℕ) (doFree : Bool) (A : Set ℕ) : Set ℕ :=
  if doFree then m.users r A else ∅

/-- A table that has lost some entries, with the pages behind them if they are freed. -/
structure Unmaps (m : Mem) (r : ℕ) (doFree : Bool) (A : Set ℕ) (m' : Mem) (f : ℕ → Option ℕ) :
    Prop where
  space : Space m' r
  nodes : m'.nodes r = m.nodes r
  trade : Trade m (m.nodes r ∪ m.dropped r doFree A) m' (m'.nodes r)
  lookup : m'.lookup r = f

variable {doFree : Bool}

lemma Unmaps.trans {f g : ℕ → Option ℕ} (h : Unmaps m r doFree A m' f)
    (h' : Unmaps m' r doFree B m'' g) (hdrop : m'.dropped r doFree B = m.dropped r doFree B)
    (hH : Holds m (m.nodes r ∪ m.dropped r doFree (A ∪ B)))
    (hAB : ∀ x ∈ m.dropped r doFree B, x ∉ m.nodes r ∪ m.dropped r doFree A) :
    Unmaps m r doFree (A ∪ B) m'' g := by
  have hunion : m.dropped r doFree (A ∪ B) = m.dropped r doFree A ∪ m.dropped r doFree B := by
    cases doFree with
    | false => simp [Mem.dropped]
    | true =>
      ext x
      constructor
      · rintro ⟨v, hv | hv, hx⟩
        · exact .inl ⟨v, hv, hx⟩
        · exact .inr ⟨v, hv, hx⟩
      · rintro (⟨v, hv, hx⟩ | ⟨v, hv, hx⟩)
        · exact ⟨v, .inl hv, hx⟩
        · exact ⟨v, .inr hv, hx⟩
  refine ⟨h'.space, h'.nodes.trans h.nodes, ?_, h'.lookup⟩
  rw [hunion, ← Set.union_assoc] at hH ⊢
  have hframe := h.trade.frameOn hH hAB
  rw [← hdrop] at hframe ⊢
  exact hframe.trans h'.trade

lemma Mem.users_singleton_of_none (h : m.lookup r v = none) : m.users r {v} = ∅ := by
  ext x
  simp [Mem.users, Mem.back_eq_none.mpr h]

lemma Mem.dropped_of_none (doFree : Bool) (h : m.lookup r v = none) :
    m.dropped r doFree {v} = ∅ := by
  cases doFree with
  | false => rfl
  | true => exact Mem.users_singleton_of_none h

lemma Unmaps.of_none (doFree : Bool) (hS : Space m r) (h : m.lookup r v = none) :
    Unmaps m r doFree {v} m (update (m.lookup r) v none) := by
  refine ⟨hS, rfl, ?_, ?_⟩
  · rw [Mem.dropped_of_none doFree h, Set.union_empty]
    exact Trade.refl hS.holds
  · rw [← h, update_eq_self]

/-- **One page is unmapped**; if it is freed, the table has to own it. -/
lemma unmapPage_runs (doFree : Bool) (hS : Space m r) (hva : va < maxVa)
    (hown : doFree = true → Owned m r {vpn va}) :
    Returns (unmapPage r doFree va) m fun _ m' =>
      Unmaps m r doFree {vpn va} m' (update (m.lookup r) (vpn va) none) := by
  refine Returns.walk_false hva ?_
  cases hy : m.node r (leafPath (vpn va)) with
  | none => exact Returns.pure (Unmaps.of_none doFree hS (Mem.lookup_of_node_none hy))
  | some y =>
    have hlookup := Mem.lookup_of_node (vpn_lt hva) hy
    refine Returns.readPte (Returns.ite (fun hvalid => ?_) fun hvalid => ?_)
    swap
    · rw [if_neg hvalid] at hlookup
      exact Returns.pure (Unmaps.of_none doFree hS hlookup)
    change Valid (m.page y (leafIndex (vpn va))) at hvalid
    rw [if_pos hvalid] at hlookup
    cases doFree with
    | false =>
      have hB := hS.setLeaf_becomes (vpn_lt hva) hy 0 nofun
      rw [if_neg not_valid_zero] at hB
      rw [if_neg Bool.false_ne_true]
      refine Returns.writePte_end ⟨hB.space, hS.setLeaf_nodes hy, ?_, hB.lookup⟩
      rw [Mem.dropped, if_neg Bool.false_ne_true, Set.union_empty]
      exact hB.trade
    | true =>
      have hO := hown rfl
      set x := pageOf (pte2pa (m.page y (leafIndex (vpn va)))) with hxdef
      have hback : m.back r (vpn va) = some x := by rw [Mem.back, hlookup, Option.map_some]
      have husers : m.users r {vpn va} = {x} := by
        ext z
        simp [Mem.users, hback, eq_comm]
      have hx : x ∉ m.nodes r := hO.apart x (by rw [husers]; rfl)
      have hH : Holds m (insert x (m.nodes r)) := by
        have h := hO.holds
        rwa [Mem.foot, husers, Set.union_singleton] at h
      have hrange := hH.range x (.inl (Set.mem_insert _ _))
      rw [if_pos rfl]
      refine Returns.bind_iff.mpr
        (Returns.kfree hrange.1 hrange.2 (hH.apart x (Set.mem_insert _ _)) ?_)
      -- the freed page is not in the table, which is therefore as before
      have hT := Trade.given hH hx (filled 1)
      have hsame : ∀ z ∈ m.nodes r,
          ({ m with free := x :: m.free }.setPage x (filled 1)).page z = m.page z :=
        fun z hz => Mem.setPage_of_ne _ _ (ne_of_mem_of_not_mem hz hx)
      have hS' := hS.of_same hsame hT.holds
      have hy' := (Mem.node_of_same hsame (leafPath_length (vpn va)).le).trans hy
      have hB := hS'.setLeaf_becomes (vpn_lt hva) hy' 0 nofun
      have hlook : _ = m.lookup r := funext (Mem.lookup_of_same hsame)
      have hnodes := Mem.nodes_of_same hsame
      rw [if_neg not_valid_zero, hlook] at hB
      refine Returns.writePte_end ⟨hB.space, (hS'.setLeaf_nodes hy').trans hnodes, ?_, hB.lookup⟩
      rw [Mem.dropped, if_pos rfl, husers, Set.union_singleton]
      exact hT.trans (hnodes ▸ hB.trade)

lemma pageRange_succ (v n : ℕ) : pageRange v (n + 1) = {v} ∪ pageRange (v + 1) n := by
  ext w
  change v ≤ w ∧ w < v + (n + 1) ↔ w = v ∨ (v + 1 ≤ w ∧ w < v + 1 + n)
  omega

lemma Unmaps.back_of_ne (h : Unmaps m r doFree A m' (update (m.lookup r) v none)) (hw : w ≠ v) :
    m'.back r w = m.back r w := by
  rw [Mem.back, Mem.back, h.lookup, update_of_ne hw]

lemma Unmaps.users_eq (h : Unmaps m r doFree A m' (update (m.lookup r) v none)) (hB : v ∉ B) :
    m'.users r B = m.users r B := by
  ext x
  refine exists_congr fun w => and_congr_right fun hw => ?_
  rw [h.back_of_ne (ne_of_mem_of_not_mem hw hB)]

lemma Unmaps.owned_rest (h : Unmaps m r true {v} m' (update (m.lookup r) v none))
    (hO : Owned m r ({v} ∪ B)) (hB : v ∉ B) : Owned m' r B := by
  have husers := h.users_eq hB
  have hBO := Owned.mono hO (Set.subset_union_right (s := {v}) (t := B))
  refine (Owned.of_trade h.space h.trade ?_ ?_ ?_).1
  · refine hO.holds.subset ?_
    rw [husers]
    rintro x ((hx | hx) | hx)
    · exact .inl hx
    · exact .inr (Mem.users_mono Set.subset_union_left hx)
    · exact .inr (Mem.users_mono Set.subset_union_right hx)
  · rw [husers]
    rintro x hx (hn | ⟨w, rfl, hw⟩)
    · exact hBO.apart x hx hn
    · obtain ⟨u, hu, hux⟩ := hx
      obtain rfl := hO.inj u (.inr hu) w (.inl rfl) x hux hw
      exact hB hu
  · intro u hu w hw x
    rw [h.back_of_ne (ne_of_mem_of_not_mem hu hB), h.back_of_ne (ne_of_mem_of_not_mem hw hB)]
    exact hBO.inj u hu w hw x

/-- **The loop of `uvmunmap`** clears the entries of its range. -/
lemma uvmunmapLoop_runs (doFree : Bool) : ∀ (n va : ℕ) (m : Mem), Space m r →
    va + n * pgSize ≤ maxVa → (doFree = true → Owned m r (pageRange (vpn va) n)) →
    Returns (uvmunmapLoop r doFree n va) m fun _ m' =>
      Unmaps m r doFree (pageRange (vpn va) n) m' (unmapRange (m.lookup r) (vpn va) n)
  | 0, va, m, hS, _, _ => by
      refine Returns.pure ⟨hS, rfl, ?_, (unmapRange_zero _ _).symm⟩
      have hnone : m.dropped r doFree (pageRange (vpn va) 0) = ∅ := by
        cases doFree with
        | false => rfl
        | true =>
          refine Set.eq_empty_of_forall_notMem ?_
          rintro x ⟨w, ⟨hle, hlt⟩, _⟩
          omega
      rw [hnone, Set.union_empty]
      exact Trade.refl hS.holds
  | n + 1, va, m, hS, hva, hown => by
      have hva' : va + pgSize + n * pgSize ≤ maxVa := by
        rw [Nat.succ_mul] at hva
        omega
      have hlt : va < maxVa := by
        rw [pgSize] at hva'
        omega
      have hout : vpn va ∉ pageRange (vpn va + 1) n := fun h => by
        have := h.1
        omega
      rw [pageRange_succ] at hown ⊢
      refine (unmapPage_runs doFree hS hlt fun h => (hown h).mono Set.subset_union_left).bind
        fun _ m1 h1 => ?_
      have hrest := uvmunmapLoop_runs doFree n (va + pgSize) m1 h1.space hva' ?_
      · refine hrest.mono fun _ m' h => ?_
        rw [vpn_add, h1.lookup, unmapRange_succ] at h
        refine h1.trans h ?_ ?_ ?_
        · cases doFree with
          | false => rfl
          | true => exact h1.users_eq hout
        · cases doFree with
          | false =>
            rw [Mem.dropped, if_neg Bool.false_ne_true, Set.union_empty]
            exact hS.holds
          | true => exact (hown rfl).holds
        · cases doFree with
          | false => exact fun _ hx => hx.elim
          | true =>
            have hO := hown rfl
            rintro x ⟨w, hw, hwx⟩ (hn | ⟨_, rfl, hux⟩)
            · exact hO.apart x ⟨w, .inr hw, hwx⟩ hn
            · obtain rfl := hO.inj w (.inr hw) _ (.inl rfl) x hwx hux
              exact hout hw
      · rintro rfl
        rw [vpn_add]
        exact h1.owned_rest (hown rfl) hout

/-- **`uvmunmap`** clears the entries of its range; if it frees the pages, the table has to own
them. -/
lemma uvmunmap_runs (doFree : Bool) (hS : Space m r) (hv : v + n ≤ maxVpn)
    (hown : doFree = true → Owned m r (pageRange v n)) :
    Returns (uvmunmap r (v * pgSize) n doFree) m fun _ m' =>
      Unmaps m r doFree (pageRange v n) m' (unmapRange (m.lookup r) v n) := by
  have hva : v * pgSize + n * pgSize ≤ maxVa := by
    rw [maxVpn] at hv
    rw [pgSize, maxVa]
    omega
  have h := uvmunmapLoop_runs doFree n (v * pgSize) m hS hva (by rwa [vpn_mul])
  rw [vpn_mul] at h
  rw [uvmunmap, if_neg (not_not.mpr (Nat.mul_mod_left v pgSize))]
  exact h

/-! ### `uvmclear` and `uvmcreate` -/

lemma testBit_clearU (pte n : ℕ) : (clearU pte).testBit n = (pte.testBit n && !pteU.testBit n) := by
  rw [clearU, Nat.testBit_xor, Nat.testBit_and]
  cases pte.testBit n <;> cases pteU.testBit n <;> rfl

lemma clearU_and (pte : ℕ) {k : ℕ} (hk : k &&& pteU = 0) : clearU pte &&& k = pte &&& k := by
  apply Nat.eq_of_testBit_eq
  intro n
  have hn := congrArg (Nat.testBit · n) hk
  rw [Nat.testBit_and, Nat.zero_testBit] at hn
  rw [Nat.testBit_and, Nat.testBit_and, testBit_clearU]
  revert hn
  cases pte.testBit n <;> cases pteU.testBit n <;> cases k.testBit n <;> decide

lemma valid_clearU (pte : ℕ) : Valid (clearU pte) ↔ Valid pte := by
  rw [Valid, Valid, clearU_and pte (by decide)]

lemma pte2pa_clearU (pte : ℕ) : pte2pa (clearU pte) = pte2pa pte := by
  rw [pte2pa, pte2pa]
  congr 1
  apply Nat.eq_of_testBit_eq
  intro n
  have hn : pteU.testBit (10 + n) = false :=
    Nat.testBit_lt_two_pow (lt_of_lt_of_le (by decide : pteU < 2 ^ 10)
      (Nat.pow_le_pow_right Nat.two_pos (Nat.le_add_right 10 n)))
  rw [Nat.testBit_shiftRight, Nat.testBit_shiftRight, testBit_clearU, hn, Bool.not_false,
    Bool.and_true]

/-- **`uvmclear`** on a page that is mapped. -/
lemma uvmclear_runs (hS : Space m r) (hlookup : m.lookup r v = some pte) :
    Returns (uvmclear r (v * pgSize)) m fun _ m' =>
      m'.nodes r = m.nodes r ∧ Becomes m r m' (update (m.lookup r) v (some (clearU pte))) := by
  obtain ⟨hv, y, hy, rfl, hvalid⟩ := Mem.lookup_eq_some.mp hlookup
  refine Returns.walk_false (mul_lt_maxVa hv) ?_
  rw [vpn_mul, hy]
  refine Returns.readPte (Returns.writePte_end ⟨hS.setLeaf_nodes hy, ?_⟩)
  have hB := hS.setLeaf_becomes hv hy (clearU (m.page y (leafIndex v))) fun _ => by
    rw [clearU_and _ (by decide)]
    exact hS.leaf _ y _ (leafPath_length v) hy hvalid
  rwa [if_pos ((valid_clearU _).mpr hvalid)] at hB

/-- **A new table** is empty. -/
lemma Space.of_cleared {free : List ℕ} {deny : List Bool} (hH : Holds m ∅)
    (hfree : m.free = x :: free) :
    Space (m.cleared x free deny) x ∧ (m.cleared x free deny).lookup x = (fun _ => none) ∧
      (m.cleared x free deny).nodes x = {x} := by
  have hpage : (m.cleared x free deny).page x = filled 0 := Mem.setPage_self ..
  have hempty : ∀ j, entryChild ((m.cleared x free deny).page x j) = none := fun j => by
    rw [hpage]
    exact entryChild_eq_none.mpr (not_valid_filled j)
  have hnil : ∀ p y, (m.cleared x free deny).node x p = some y → p = [] ∧ y = x := fun p y h => by
    by_cases hp : p = []
    · subst hp
      exact ⟨rfl, (Option.some.inj h).symm⟩
    · rw [Mem.node, Radix.node_of_empty hempty hp] at h
      cases h
  have hnodes : (m.cleared x free deny).nodes x = {x} := by
    ext y
    constructor
    · rintro ⟨p, _, hp⟩
      exact (hnil p y hp).2
    · rintro rfl
      exact Radix.root_mem_nodes
  refine ⟨⟨?_, Radix.Tree.of_empty hempty, ?_, ?_, ?_⟩, ?_, hnodes⟩
  · rw [hnodes, ← insert_empty_eq x]
    exact (Trade.taken hH hfree deny (filled 0)).holds
  · intro p y i _ hy hvalid
    rw [(hnil p y hy).2, hpage] at hvalid
    exact absurd hvalid (not_valid_filled i)
  · intro p y i _ hy hvalid
    rw [(hnil p y hy).2, hpage] at hvalid
    exact absurd hvalid (not_valid_filled i)
  · intro i _
    rw [hpage]
    exact not_valid_filled i
  · funext v
    refine Mem.lookup_of_node_none (Radix.node_of_empty hempty ?_)
    exact List.ne_nil_of_length_pos (by rw [leafPath_length]; decide)

lemma uvmcreate_runs (hH : Holds m F) : Returns uvmcreate m fun res m' =>
    match res with
    | none => Trade m F m' F ∧ m'.page = m.page ∧ m.failures < m'.failures
    | some r => r ∈ m.free ∧ Trade m F m' (insert r F) ∧ Space m' r ∧
        m'.lookup r = (fun _ => none) ∧ m'.nodes r = {r} := by
  refine Returns.bind_iff.mpr (Returns.kalloc (fun deny => ?_) fun x free deny hfree => ?_)
  · exact Returns.pure ⟨Trade.denied hH deny, rfl, Nat.lt_succ_self _⟩
  · refine Returns.setPage (Returns.pure ?_)
    rw [Mem.setPage_setPage]
    refine ⟨hfree ▸ List.mem_cons_self, Trade.taken hH hfree deny (filled 0), ?_⟩
    exact Space.of_cleared (hH.subset (Set.empty_subset F)) hfree

end Xv6Riscv
