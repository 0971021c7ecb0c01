import Xv6Riscv.Vm.PageMap

/-!
User memory (`vm.c`): what a process sees, and what happens to it when pages come and go.

The user pages of a table are the virtual pages below the trapframe. What a process sees at a user
page is a cell: the flags of the entry and the contents of the page behind it. Which physical page
that is does not matter, as long as it is owned.
-/

namespace Xv6Riscv

open Function (update update_of_ne update_self)
open Wp

/-! ### Cells -/

/-- The number of user pages: those below the trapframe. -/
def trapVpn : ℕ := maxVpn - 2

def userPages : Set ℕ := {v | v < trapVpn}

/-- What a process sees at a page: flags and contents. -/
abbrev Cell := ℕ × (Fin 512 → ℕ)

def Mem.cell (m : Mem) (r v : ℕ) : Option Cell :=
  (m.lookup r v).map fun pte => (pteFlags pte, m.page (pageOf (pte2pa pte)))

variable {m m' m'' : Mem} {r r' v w x : ℕ} {g g' : ℕ → Option Cell}

lemma userPages_lt (hv : v ∈ userPages) : v < maxVpn :=
  lt_of_lt_of_le hv (Nat.sub_le _ _)

lemma Mem.cell_eq_none : m.cell r v = none ↔ m.lookup r v = none := Option.map_eq_none_iff

lemma Mem.cell_mkPte {pa perm : ℕ} (hpa : pgSize ∣ pa) (hperm : perm < 1024)
    (h : m.lookup r v = some (mkPte pa perm)) :
    m.cell r v = some (perm ||| pteV, m.page (pageOf pa)) := by
  obtain ⟨hdec, hflags, _⟩ := mkPte_spec hpa hperm
  rw [Mem.cell, h, Option.map_some, hdec, hflags]

lemma Mem.cell_congr (hlookup : m'.lookup r v = m.lookup r v)
    (hpage : ∀ x, m.back r v = some x → m'.page x = m.page x) : m'.cell r v = m.cell r v := by
  rw [Mem.cell, Mem.cell, hlookup]
  cases h : m.lookup r v with
  | none => rfl
  | some pte =>
    have hback : m.back r v = some (pageOf (pte2pa pte)) := by rw [Mem.back, h, Option.map_some]
    rw [Option.map_some, Option.map_some, hpage _ hback]

lemma Mem.back_eq_none_iff_cell : m.back r v = none ↔ m.cell r v = none :=
  Mem.back_eq_none.trans Mem.cell_eq_none.symm

/-- **User memory has changed**: the cells of the table are now `g`. A virtual page that was mapped
before and is mapped now still has the same page behind it. -/
structure Turns (m : Mem) (r : ℕ) (m' : Mem) (g : ℕ → Option Cell) : Prop where
  owned : Owned m' r userPages
  trade : Trade m (m.foot r userPages) m' (m'.foot r userPages)
  cells : ∀ v ∈ userPages, m'.cell r v = g v
  high : ∀ v ∉ userPages, m'.lookup r v = m.lookup r v
  stays : ∀ v ∈ userPages, m.cell r v ≠ none → g v ≠ none → m'.back r v = m.back r v

lemma Turns.refl (h : Owned m r userPages) : Turns m r m (m.cell r) :=
  ⟨h, Trade.refl h.holds, fun _ _ => rfl, fun _ _ => rfl, fun _ _ _ _ => rfl⟩

/-- Two changes, if what is mapped before and after is mapped in between. -/
lemma Turns.trans (h : Turns m r m' g) (h' : Turns m' r m'' g')
    (hg : ∀ v ∈ userPages, m.cell r v ≠ none → g' v ≠ none → g v ≠ none) : Turns m r m'' g' where
  owned := h'.owned
  trade := h.trade.trans h'.trade
  cells := h'.cells
  high v hv := (h'.high v hv).trans (h.high v hv)
  stays v hv hm hm'' := by
    have hm' := hg v hv hm hm''
    rw [h'.stays v hv (by rwa [h.cells v hv]) hm'', h.stays v hv hm hm']

lemma Turns.congr (h : Turns m r m' g) (hg : ∀ v ∈ userPages, g v = g' v) : Turns m r m' g' :=
  ⟨h.owned, h.trade, fun v hv => (h.cells v hv).trans (hg v hv), h.high,
    fun v hv hm hg' => h.stays v hv hm (by rwa [hg v hv])⟩

lemma update_ne_none {c : Cell} (h : g w ≠ none) : update g v (some c) w ≠ none := by
  by_cases hwv : w = v
  · rw [hwv, update_self]
    exact Option.some_ne_none c
  · rwa [update_of_ne hwv]

lemma Turns.back_eq (h : Turns m r m' (m.cell r)) : ∀ v ∈ userPages, m'.back r v = m.back r v := by
  intro v hv
  by_cases hnone : m.cell r v = none
  · rw [Mem.back_eq_none_iff_cell.mpr hnone, Mem.back_eq_none_iff_cell, h.cells v hv, hnone]
  · exact h.stays v hv hnone hnone

/-! ### Another table -/

/-- **A table is left alone** by a trade that does not own its pages. -/
lemma Owned.frame {F F' A : Set ℕ} (hO : Owned m r A) (hT : Trade m F m' F')
    (hd : ∀ x ∈ m.foot r A, x ∉ F) :
    Owned m' r A ∧ m'.foot r A = m.foot r A ∧ m'.lookup r = m.lookup r ∧
      (∀ v ∈ A, m'.cell r v = m.cell r v) ∧ ∀ x ∈ m.foot r A, x ∉ F' := by
  have hpage : ∀ x ∈ m.foot r A, m'.page x = m.page x := fun x hx =>
    hT.frame x (hd x hx) (hO.holds.apart x hx)
  have hsame : ∀ x ∈ m.nodes r, m'.page x = m.page x := fun x hx => hpage x (.inl hx)
  have hlookup : m'.lookup r = m.lookup r := funext (Mem.lookup_of_same hsame)
  have hback : m'.back r = m.back r := by
    funext v
    rw [Mem.back, Mem.back, hlookup]
  have hnodes := Mem.nodes_of_same hsame
  have hfoot : m'.foot r A = m.foot r A := by rw [Mem.foot, Mem.foot, Mem.users, hnodes, hback]; rfl
  have hout := fun x hx => hT.not_mem (hd x hx) (hO.holds.apart x hx)
  have hH : Holds m' (m.foot r A) := by
    refine ⟨hT.holds.nodup, fun x hx => (hout x hx).2, fun x hx => ?_, hT.holds.pos⟩
    rcases hx with hx | hx
    · rw [hT.kend]
      exact hO.holds.range x (.inl hx)
    · exact hT.holds.range x (.inr hx)
  refine ⟨⟨hO.space.of_same hsame (hH.subset Set.subset_union_left), ?_, ?_, ?_⟩, hfoot, hlookup,
    fun v hv => ?_, fun x hx => (hout x hx).1⟩
  · rwa [hfoot]
  · rw [hnodes, Mem.users, hback]
    exact hO.apart
  · rw [hback]
    exact hO.inj
  · refine Mem.cell_congr (congrFun hlookup v) fun x hx => hpage x (.inr ⟨v, hv, hx⟩)

/-! ### One page -/

section

variable (hO : Owned m r userPages)

include hO

lemma Owned.same_back {f : ℕ → Option ℕ} (hB : Becomes m r m' f)
    (hback : ∀ v ∈ userPages, m'.back r v = m.back r v) :
    Owned m' r userPages ∧ Trade m (m.foot r userPages) m' (m'.foot r userPages) ∧
      ∀ v ∈ userPages, ∀ x, m.back r v = some x → m'.page x = m.page x := by
  have husers : m'.users r userPages = m.users r userPages := by
    ext x
    exact exists_congr fun v => and_congr_right fun hv => by rw [hback v hv]
  obtain ⟨hO', hT, hpage⟩ := Owned.of_trade (A := userPages) hB.space hB.trade
    (by rw [husers]; exact hO.holds) (by rw [husers]; exact hO.apart)
    (fun v hv w hw x hvx hwx => hO.inj v hv w hw x (hback v hv ▸ hvx) (hback w hw ▸ hwx))
  rw [husers] at hT hpage
  exact ⟨hO', hT, fun v hv x hx => hpage x ⟨v, hv, hx⟩⟩

lemma Owned.becomes {f : ℕ → Option ℕ} (hB : Becomes m r m' f)
    (hf : ∀ v ∈ userPages, f v = m.lookup r v) :
    Owned m' r userPages ∧ Trade m (m.foot r userPages) m' (m'.foot r userPages) ∧
      ∀ v ∈ userPages, m'.cell r v = m.cell r v := by
  have hlookup : ∀ v ∈ userPages, m'.lookup r v = m.lookup r v := fun v hv => by
    rw [hB.lookup, hf v hv]
  obtain ⟨hO', hT, hpage⟩ := hO.same_back hB fun v hv => by rw [Mem.back, Mem.back, hlookup v hv]
  exact ⟨hO', hT, fun v hv => Mem.cell_congr (hlookup v hv) (hpage v hv)⟩

/-- **An entry gets other flags**, and keeps its page. -/
lemma Owned.reflag {pte pte' : ℕ} (hv : v ∈ userPages) (hpte : m.lookup r v = some pte)
    (hpa : pte2pa pte' = pte2pa pte) (hB : Becomes m r m' (update (m.lookup r) v (some pte'))) :
    Turns m r m' (update (m.cell r) v (some (pteFlags pte', m.page (pageOf (pte2pa pte))))) := by
  have hnew : m'.lookup r v = some pte' := by rw [hB.lookup, update_self]
  have hold : ∀ {w}, w ≠ v → m'.lookup r w = m.lookup r w := fun hw => by
    rw [hB.lookup, update_of_ne hw]
  have hbackv : m.back r v = some (pageOf (pte2pa pte)) := by rw [Mem.back, hpte, Option.map_some]
  have hback : ∀ w ∈ userPages, m'.back r w = m.back r w := fun w _ => by
    by_cases hwv : w = v
    · rw [hwv, hbackv, Mem.back, hnew, Option.map_some, hpa]
    · rw [Mem.back, Mem.back, hold hwv]
  obtain ⟨hO', hT, hpage⟩ := hO.same_back hB hback
  refine ⟨hO', hT, fun w hw => ?_, fun w hw => hold (ne_of_mem_of_not_mem hv hw).symm,
    fun w hw _ _ => hback w hw⟩
  by_cases hwv : w = v
  · rw [hwv, update_self, Mem.cell, hnew, Option.map_some, hpa, hpage v hv _ hbackv]
  · rw [update_of_ne hwv]
    exact Mem.cell_congr (hold hwv) (hpage w hw)

lemma Owned.kept (hK : Kept m r m') : Turns m r m' (m.cell r) := by
  obtain ⟨hO', hT, hcells⟩ := hO.becomes hK fun _ _ => rfl
  refine ⟨hO', hT, hcells, fun v _ => congrFun hK.lookup v, fun v _ _ _ => ?_⟩
  rw [Mem.back, Mem.back, hK.lookup]

/-- **A page is mapped** that the program owns. -/
lemma Owned.map {perm : ℕ} (hx : x ∉ m.foot r userPages)
    (hH : Holds m (insert x (m.foot r userPages))) (hv : v ∈ userPages)
    (hnone : m.lookup r v = none) (hperm : perm < 1024)
    (hB : Becomes m r m' (update (m.lookup r) v (some (mkPte (x <<< 12) perm)))) :
    Owned m' r userPages ∧ Trade m (insert x (m.foot r userPages)) m' (m'.foot r userPages) ∧
      (∀ w ∈ userPages, m'.cell r w = update (m.cell r) v (some (perm ||| pteV, m.page x)) w) ∧
      (∀ w ∉ userPages, m'.lookup r w = m.lookup r w) ∧ m'.back r v = some x ∧
      ∀ w, w ≠ v → m'.back r w = m.back r w := by
  have hnew : m'.lookup r v = some (mkPte (x <<< 12) perm) := by
    rw [hB.lookup, update_self]
  have hold : ∀ {w}, w ≠ v → m'.lookup r w = m.lookup r w := fun hw => by
    rw [hB.lookup, update_of_ne hw]
  have hbackv : m'.back r v = some x := by
    rw [Mem.back_mkPte (pgSize_dvd_shift x) hperm hnew, pageOf_shift]
  have hback : ∀ {w}, w ≠ v → m'.back r w = m.back r w := fun hw => by
    rw [Mem.back, Mem.back, hold hw]
  have hnoback : m.back r v = none := Mem.back_eq_none.mpr hnone
  have husers : m'.users r userPages = insert x (m.users r userPages) := by
    ext y
    constructor
    · rintro ⟨w, hw, hwy⟩
      by_cases hwv : w = v
      · rw [hwv, hbackv] at hwy
        exact .inl (Option.some.inj hwy).symm
      · exact .inr ⟨w, hw, (hback hwv).symm.trans hwy⟩
    · rintro (rfl | ⟨w, hw, hwy⟩)
      · exact ⟨v, hv, hbackv⟩
      · refine ⟨w, hw, (hback ?_).trans hwy⟩
        rintro rfl
        rw [hnoback] at hwy
        cases hwy
  have hfoot : m.nodes r ∪ insert x (m.users r userPages) = insert x (m.foot r userPages) :=
    Set.union_insert
  obtain ⟨hO', hT, hpage⟩ := Owned.of_trade (A := userPages) hB.space hB.trade
    (by rw [husers, hfoot]; exact hH)
    (by
      rw [husers]
      rintro y (rfl | hy)
      · exact fun hn => hx (.inl hn)
      · exact hO.apart y hy)
    (by
      -- the new page is behind `v` only
      intro w hw u hu y hwy huy
      by_cases hwv : w = v <;> by_cases huv : u = v
      · rw [hwv, huv]
      · rw [hwv, hbackv] at hwy
        rw [hback huv] at huy
        exact absurd (.inr ⟨u, hu, hwy ▸ huy⟩) hx
      · rw [huv, hbackv] at huy
        rw [hback hwv] at hwy
        exact absurd (.inr ⟨w, hw, huy ▸ hwy⟩) hx
      · rw [hback hwv] at hwy
        rw [hback huv] at huy
        exact hO.inj w hw u hu y hwy huy)
  rw [husers, hfoot] at hT
  rw [husers] at hpage
  refine ⟨hO', hT, fun w hw => ?_, fun w hw => hold (ne_of_mem_of_not_mem hv hw).symm, hbackv,
    fun w hw => hback hw⟩
  by_cases hwv : w = v
  · rw [hwv, update_self, Mem.cell_mkPte (pgSize_dvd_shift x) hperm hnew, pageOf_shift,
      hpage x (Set.mem_insert _ _)]
  · rw [update_of_ne hwv]
    exact Mem.cell_congr (hold hwv) fun y hy => hpage y (.inr ⟨w, hw, hy⟩)

end

variable {n sz : ℕ}

/-- **A range is unmapped** and its pages are freed. -/
lemma Owned.unmap (hO : Owned m r userPages) (hr : pageRange v n ⊆ userPages)
    (hU : Unmaps m r true (pageRange v n) m' (unmapRange (m.lookup r) v n)) :
    Turns m r m' (unmapRange (m.cell r) v n) := by
  have hgone : ∀ {w}, w ∈ pageRange v n → m'.lookup r w = none := fun {w} hw => by
    rw [hU.lookup, unmapRange_of_mem _ hw]
  have hold : ∀ {w}, w ∉ pageRange v n → m'.lookup r w = m.lookup r w := fun {w} hw => by
    rw [hU.lookup, unmapRange_of_not_mem _ hw]
  have hback : ∀ {w y}, m'.back r w = some y → w ∉ pageRange v n ∧ m.back r w = some y :=
    fun {w y} h => by
      by_cases hw : w ∈ pageRange v n
      · rw [Mem.back_eq_none.mpr (hgone hw)] at h
        cases h
      · rw [Mem.back, hold hw] at h
        exact ⟨hw, h⟩
  have hsplit : m.users r userPages = m.users r (pageRange v n) ∪ m'.users r userPages := by
    ext y
    constructor
    · rintro ⟨w, hw, hwy⟩
      by_cases hwr : w ∈ pageRange v n
      · exact .inl ⟨w, hwr, hwy⟩
      · exact .inr ⟨w, hw, by rw [Mem.back, hold hwr]; exact hwy⟩
    · rintro (⟨w, hw, hwy⟩ | ⟨w, hw, hwy⟩)
      · exact ⟨w, hr hw, hwy⟩
      · exact ⟨w, hw, (hback hwy).2⟩
  have hfoot : m.foot r userPages =
      m.nodes r ∪ m.users r (pageRange v n) ∪ m'.users r userPages := by
    rw [Mem.foot, hsplit, Set.union_assoc]
  obtain ⟨hO', hT, hpage⟩ := Owned.of_trade (A := userPages) hU.space hU.trade
    (by rw [Mem.dropped, if_pos rfl, ← hfoot]; exact hO.holds)
    (by
      rintro y ⟨w, hw, hwy⟩ (hn | ⟨u, hu, huy⟩)
      · exact hO.apart y ⟨w, hw, (hback hwy).2⟩ hn
      · obtain rfl := hO.inj w hw u (hr hu) y (hback hwy).2 huy
        exact (hback hwy).1 hu)
    (fun w hw u hu y hwy huy => hO.inj w hw u hu y (hback hwy).2 (hback huy).2)
  rw [Mem.dropped, if_pos rfl, ← hfoot] at hT
  refine ⟨hO', hT, fun w hw => ?_, fun w hw => hold fun h => hw (hr h), fun w _ _ hw => ?_⟩
  by_cases hwr : w ∈ pageRange v n
  · rw [unmapRange_of_mem _ hwr]
    exact Mem.cell_eq_none.mpr (hgone hwr)
  · rw [unmapRange_of_not_mem _ hwr]
    refine Mem.cell_congr (hold hwr) fun y hy => hpage y ⟨w, hw, ?_⟩
    rw [Mem.back, hold hwr]
    exact hy
  · rw [Mem.back, Mem.back, hold fun hwr => hw (unmapRange_of_mem _ hwr)]

/-- **A store to a user page** changes its cell only. -/
lemma Owned.store (hO : Owned m r userPages) (hv : v ∈ userPages) (hx : m.back r v = some x)
    (contents : Fin 512 → ℕ) :
    (m.setPage x contents).lookup r = m.lookup r ∧ Turns m r (m.setPage x contents)
        (update (m.cell r) v ((m.cell r v).map fun c => (c.1, contents))) := by
  have huser : x ∈ m.users r userPages := ⟨v, hv, hx⟩
  have hsame : ∀ y ∈ m.nodes r, (m.setPage x contents).page y = m.page y := fun y hy =>
    Mem.setPage_of_ne _ _ (ne_of_mem_of_not_mem hy (hO.apart x huser))
  have hlookup : (m.setPage x contents).lookup r = m.lookup r :=
    funext (Mem.lookup_of_same hsame)
  have hback : (m.setPage x contents).back r = m.back r := by
    funext w
    rw [Mem.back, Mem.back, hlookup]
  have hnodes := Mem.nodes_of_same hsame
  have hfoot : (m.setPage x contents).foot r userPages = m.foot r userPages := by
    rw [Mem.foot, Mem.foot, Mem.users, hnodes, hback]
    rfl
  have hT := Trade.write hO.holds (.inr huser : x ∈ m.foot r userPages) contents
  refine ⟨hlookup, ⟨hO.space.of_same hsame (hT.holds.subset Set.subset_union_left), ?_, ?_, ?_⟩, ?_,
    fun w hw => ?_, fun w _ => congrFun hlookup w, fun w _ _ _ => congrFun hback w⟩
  · rw [hfoot]
    exact hT.holds
  · rw [hnodes, Mem.users, hback]
    exact hO.apart
  · rw [hback]
    exact hO.inj
  · rw [hfoot]
    exact hT
  · by_cases hwv : w = v
    · subst hwv
      rw [update_self, Mem.cell, Mem.cell, hlookup]
      cases h : m.lookup r w with
      | none => rfl
      | some pte =>
        rw [Mem.back, h, Option.map_some] at hx
        rw [Option.map_some, Option.map_some, Option.map_some, Option.some.inj hx, Mem.setPage_self]
    · rw [update_of_ne hwv]
      refine Mem.cell_congr (congrFun hlookup w) fun y hy => Mem.setPage_of_ne _ _ ?_
      rintro rfl
      exact hwv (hO.inj w hw v hv y hy hx)

/-! ### A new page -/

section NewPage

variable {α : Type} {free : List ℕ} {deny : List Bool} {c1 c2 : VmM α} {R : α → Mem → Prop}
  {perm : ℕ} {contents : Fin 512 → ℕ}

/-- **A new page is mapped**: it has been taken from the free list and filled. If `mappages` fails
the page is freed again, and nothing has changed. -/
lemma mapNew_runs (hO : Owned m r userPages) (hv : v ∈ userPages) (hnone : m.lookup r v = none)
    (hperm : perm < 1024) (hrwx : perm &&& pteRWX ≠ 0) (hfree : m.free = x :: free)
    (hbad : ∀ m', Turns m r m' (m.cell r) → m.failures < m'.failures → Returns c1 m' R)
    (hok : ∀ m', Turns m r m' (update (m.cell r) v (some (perm ||| pteV, contents))) →
      m'.back r v = some x → Returns c2 m' R) :
    Returns (do
      let res ← mappages r (v * pgSize) pgSize (x <<< 12) perm
      if res ≠ 0 then do
        kfree x
        c1
      else c2) ({ m with free := free, deny := deny }.setPage x contents) R := by
  have hmem : x ∈ m.free := hfree ▸ List.mem_cons_self
  have hx : x ∉ m.foot r userPages := fun h => hO.holds.apart x h hmem
  have hT := Trade.taken hO.holds hfree deny contents
  -- the table is the same after the page has been taken
  obtain ⟨hO1, hfoot, hlookup, hcell, -⟩ := hO.frame
    (Trade.taken (hO.holds.subset (Set.empty_subset _)) hfree deny contents)
    fun _ _ h => h
  have hpage : ({ m with free := free, deny := deny }.setPage x contents).page x = contents :=
    Mem.setPage_self ..
  set m1 := { m with free := free, deny := deny }.setPage x contents with hm1
  have hx1 : x ∉ m1.foot r userPages := by rwa [hfoot]
  have hH1 : Holds m1 (insert x (m1.foot r userPages)) := by
    rw [hfoot]
    exact hT.holds
  have hnone1 : m1.lookup r v = none := by rw [hlookup, hnone]
  refine (mappages_runs hperm hrwx hO1.space (userPages_lt hv) hnone1 (pgSize_dvd_shift x)).bind
    fun res m2 hres => ?_
  rcases hres with ⟨rfl, hB⟩ | ⟨rfl, hf, hK⟩
  · rw [if_neg (not_not.mpr rfl)]
    obtain ⟨hO2, hT2, hcells, hhigh, hback, hother⟩ := hO1.map hx1 hH1 hv hnone1 hperm hB
    rw [hfoot] at hT2
    refine hok m2 ⟨hO2, hT.trans hT2, fun w hw => ?_, fun w hw => ?_, fun w _ hw _ => ?_⟩ hback
    · rw [hcells w hw, hpage]
      by_cases hwv : w = v
      · rw [hwv, update_self, update_self]
      · rw [update_of_ne hwv, update_of_ne hwv, hcell w hw]
    · rw [hhigh w hw, hlookup]
    · -- the new page was not mapped before
      have hwv : w ≠ v := by
        rintro rfl
        exact hw (Mem.cell_eq_none.mpr hnone)
      rw [hother w hwv, Mem.back, Mem.back, hlookup]
  · rw [if_pos (by decide)]
    have hK2 := hO1.kept hK
    have hH1' : Holds m1 (m1.foot r userPages ∪ {x}) := by rwa [Set.union_singleton]
    have hd : ∀ y ∈ ({x} : Set ℕ), y ∉ m1.foot r userPages := by
      rintro y rfl
      exact hx1
    have hT2 := hK2.trade.frameOn hH1' hd
    rw [Set.union_singleton, Set.union_singleton] at hT2
    have hx2 : x ∉ m2.foot r userPages :=
      (hK2.trade.not_mem hx1 (hH1.apart x (Set.mem_insert _ _))).1
    have hsingle : insert x ∅ ∪ m2.foot r userPages = insert x (m2.foot r userPages) := by
      rw [Set.insert_union, Set.empty_union]
    have hd2 : ∀ y ∈ m2.foot r userPages, y ∉ (insert x ∅ : Set ℕ) := by
      rintro y hy (rfl | h)
      · exact hx2 hy
      · exact h
    have hH2 : Holds m2 (insert x ∅ ∪ m2.foot r userPages) := by
      rw [hsingle]
      exact hT2.holds
    refine (kfree_runs (hH2.subset Set.subset_union_left) (Set.notMem_empty x)).bind
      fun _ m3 hT3 => ?_
    -- giving the page back does not touch the table either
    obtain ⟨hO3, hfoot3, hlookup3, hcell3, -⟩ := hK2.owned.frame hT3 hd2
    have hT3' := hT3.frameOn hH2 hd2
    rw [hsingle, Set.empty_union] at hT3'
    rw [hfoot] at hT2
    refine hbad m3 ⟨hO3, ?_, fun w hw => ?_, fun w hw => ?_, fun w hw hc _ => ?_⟩
      (lt_of_le_of_lt hT.failures (lt_of_lt_of_le hf hT3.failures))
    · rw [hfoot3]
      exact hT.trans (hT2.trans hT3')
    · rw [hcell3 w hw, hK2.cells w hw, hcell w hw]
    · rw [hlookup3, hK2.high w hw, hlookup]
    · rw [Mem.back, hlookup3, ← Mem.back, hK2.back_eq w hw, Mem.back, hlookup, Mem.back]

end NewPage

lemma Turns.denied (hO : Owned m r userPages) (deny : List Bool) :
    Turns m r { m with deny := deny, failures := m.failures + 1 } (m.cell r) := by
  obtain ⟨hO', hfoot, hlookup, hcell, -⟩ := hO.frame
    (Trade.denied (hO.holds.subset (Set.empty_subset _)) deny) fun _ _ h => h
  refine ⟨hO', ?_, hcell, fun v _ => congrFun hlookup v, fun v _ _ _ => ?_⟩
  · rw [hfoot]
    exact Trade.denied hO.holds deny
  · rw [Mem.back, hlookup, Mem.back]

/-! ### Sizes -/

def pagesOf (sz : ℕ) : ℕ := (sz + pgSize - 1) / pgSize

lemma trapframeVa_eq : trapframeVa = trapVpn * pgSize := by decide

lemma pgRoundUp_eq (h : sz ≤ trapframeVa) : pgRoundUp sz = pagesOf sz * pgSize := by
  have hlt : sz + pgSize - 1 < 2 ^ 64 := by
    rw [trapframeVa, trampolineVa, maxVa, pgSize] at h
    rw [pgSize]
    omega
  rw [pgRoundUp, pagesOf, Nat.mod_eq_of_lt hlt]

lemma pagesOf_le (h : sz ≤ trapframeVa) : pagesOf sz ≤ trapVpn := by
  rw [trapframeVa_eq, pgSize] at h
  rw [pagesOf, pgSize]
  omega

lemma pagesOf_mono {a b : ℕ} (h : a ≤ b) : pagesOf a ≤ pagesOf b := by
  rw [pagesOf, pagesOf, pgSize]
  omega

lemma pagesOf_mul (v : ℕ) : pagesOf (v * pgSize) = v := by
  rw [pagesOf, pgSize]
  omega

lemma vpn_lt_pagesOf {va : ℕ} (h : va < sz) : vpn va < pagesOf sz := by
  rw [vpn, pagesOf, pgSize]
  omega

/-! ### `uvmdealloc` -/

/-- `uvmdealloc`. Sizes are at most `TRAPFRAME`, so the number of pages fits the `int` of the
code. -/
def uvmdealloc (pagetable oldsz newsz : ℕ) : VmM ℕ :=
  if oldsz ≤ newsz then pure oldsz
  else if pgRoundUp newsz < pgRoundUp oldsz then do
    uvmunmap pagetable (pgRoundUp newsz) ((pgRoundUp oldsz - pgRoundUp newsz) / pgSize) true
    pure newsz
  else pure newsz

lemma pageRange_subset (h : v + n ≤ trapVpn) : pageRange v n ⊆ userPages :=
  fun _ hw => lt_of_lt_of_le hw.2 h

lemma uvmunmap_user (hO : Owned m r userPages) (h : v + n ≤ trapVpn) :
    Returns (uvmunmap r (v * pgSize) n true) m fun _ m' =>
      Turns m r m' (unmapRange (m.cell r) v n) := by
  have hr := pageRange_subset h
  refine (uvmunmap_runs true hO.space (h.trans (Nat.sub_le _ _)) fun _ => hO.mono hr).mono ?_
  exact fun _ m' hU => hO.unmap hr hU

/-- **`uvmdealloc`** frees the pages above the new size. -/
lemma uvmdealloc_runs {oldsz newsz : ℕ} (hO : Owned m r userPages) (hold : oldsz ≤ trapframeVa) :
    Returns (uvmdealloc r oldsz newsz) m fun res m' =>
      res = min oldsz newsz ∧
        Turns m r m' (unmapRange (m.cell r) (pagesOf newsz) (pagesOf oldsz - pagesOf newsz)) := by
  have hnothing : pagesOf oldsz ≤ pagesOf newsz → Turns m r m
      (unmapRange (m.cell r) (pagesOf newsz) (pagesOf oldsz - pagesOf newsz)) := fun h => by
    rw [Nat.sub_eq_zero_of_le h, unmapRange_zero]
    exact Turns.refl hO
  rw [uvmdealloc]
  refine Returns.ite (fun hle => ?_) fun hlt => ?_
  · exact Returns.pure ⟨(min_eq_left hle).symm, hnothing (pagesOf_mono hle)⟩
  · have hmin : newsz = min oldsz newsz := (min_eq_right (not_le.mp hlt).le).symm
    rw [pgRoundUp_eq hold, pgRoundUp_eq ((not_le.mp hlt).le.trans hold)]
    refine Returns.ite (fun hpages => ?_) fun hpages => ?_
    · have hlt' : pagesOf newsz < pagesOf oldsz := lt_of_mul_lt_mul_right hpages (Nat.zero_le _)
      rw [← Nat.sub_mul, Nat.mul_div_cancel _ (by decide)]
      refine (uvmunmap_user hO ?_).bind fun _ m' h => Returns.pure ⟨hmin, h⟩
      have := pagesOf_le hold
      omega
    · refine Returns.pure ⟨hmin, hnothing (not_lt.mp fun h => hpages ?_)⟩
      exact Nat.mul_lt_mul_of_pos_right h (by decide)

end Xv6Riscv
