import Mathlib.Tactic

/-!
Circular doubly linked lists through a head.

The nodes are the elements of a type and the head, which is `none`. Each node has a link to the next
and to the previous one, so that a list is a circle from the head back to it.

* `Links.Seg`: the links from one node through a list of elements to another one, in both
  directions.
* `Links.Linked`: the links are those of a list without duplicates.
* `Links.unlink`, `Links.pushFront`, with `Linked.unlink` and `Linked.pushFront`: an element is
  taken out, and put behind the head.
* `Links.find`, with `Linked.find_next` and `Linked.find_prev`: the loops that follow the links in
  one direction find the first element of the list, or of the reversed one.
-/

namespace DoublyLinked

open Function (update update_of_ne update_self)

variable {α : Type*}

/-- The links of the nodes; `none` is the head. -/
structure Links (α : Type*) where
  next : Option α → Option α
  prev : Option α → Option α

namespace Links

/-- `a.next.prev = a.prev; a.prev.next = a.next`. -/
def unlink [DecidableEq α] (k : Links α) (a : α) : Links α :=
  let k := { k with prev := update k.prev (k.next (some a)) (k.prev (some a)) }
  { k with next := update k.next (k.prev (some a)) (k.next (some a)) }

/-- `a.next = head.next; a.prev = head; head.next.prev = a; head.next = a`. -/
def pushFront [DecidableEq α] (k : Links α) (a : α) : Links α :=
  let k := { k with next := update k.next (some a) (k.next none) }
  let k := { k with prev := update k.prev (some a) none }
  let k := { k with prev := update k.prev (k.next none) (some a) }
  { k with next := update k.next none (some a) }

/-- The links of a list without elements. -/
def empty : Links α where
  next _ := none
  prev _ := none

/-- The loop that begins at a node and follows the links up to the head, for at most `n` nodes, and
returns the first element with the property. -/
def find (link : Option α → Option α) (p : α → Bool) : ℕ → Option α → Option α
  | 0, _ => none
  | _, none => none
  | n + 1, some a => if p a then some a else find link p n (link (some a))

/-! ### Segments -/

/-- The links from `x` through the elements of the list to `y`. -/
def Seg (k : Links α) : Option α → List α → Option α → Prop
  | x, [], y => k.next x = y ∧ k.prev y = x
  | x, a :: l, y => k.next x = some a ∧ k.prev (some a) = x ∧ Seg k (some a) l y

variable {k k' : Links α} {x y : Option α} {a : α} {l l1 l2 : List α}

lemma seg_append : k.Seg x (l1 ++ a :: l2) y ↔ k.Seg x l1 (some a) ∧ k.Seg (some a) l2 y := by
  induction l1 generalizing x with
  | nil => simp only [List.nil_append, Seg, and_assoc]
  | cons b l1 ih => simp only [List.cons_append, Seg, ih, and_assoc]

lemma Seg.congr (h : k.Seg x l y) (hx : k'.next x = k.next x) (hy : k'.prev y = k.prev y)
    (hnext : ∀ a ∈ l, k'.next (some a) = k.next (some a))
    (hprev : ∀ a ∈ l, k'.prev (some a) = k.prev (some a)) : k'.Seg x l y := by
  induction l generalizing x with
  | nil => exact ⟨hx.trans h.1, hy.trans h.2⟩
  | cons b l ih =>
    obtain ⟨hn, hp, hseg⟩ := h
    refine ⟨hx.trans hn, (hprev b List.mem_cons_self).trans hp, ih hseg (hnext b List.mem_cons_self)
      (fun a ha => hnext a (List.mem_cons_of_mem _ ha))
      fun a ha => hprev a (List.mem_cons_of_mem _ ha)⟩

lemma Seg.prev_end (h : k.Seg x l y) : k.prev y = x ∨ ∃ a ∈ l, k.prev y = some a := by
  induction l generalizing x with
  | nil => exact .inl h.2
  | cons b l ih =>
    rcases ih h.2.2 with hb | ⟨a, ha, hp⟩
    · exact .inr ⟨b, List.mem_cons_self, hb⟩
    · exact .inr ⟨a, List.mem_cons_of_mem _ ha, hp⟩

lemma Seg.next_start (h : k.Seg x l y) : k.next x = y ∨ ∃ a ∈ l, k.next x = some a := by
  cases l with
  | nil => exact .inl h.1
  | cons b l => exact .inr ⟨b, List.mem_cons_self, h.1⟩

lemma Seg.prev_next (h : k.Seg x l y) :
    k.prev (k.next x) = x ∧ ∀ a ∈ l, k.prev (k.next (some a)) = some a := by
  induction l generalizing x with
  | nil => exact ⟨by rw [h.1, h.2], by simp⟩
  | cons b l ih =>
    obtain ⟨hn, hp, hseg⟩ := h
    obtain ⟨hb, hl⟩ := ih hseg
    exact ⟨by rw [hn, hp], List.forall_mem_cons.mpr ⟨hb, hl⟩⟩

lemma Seg.next_prev (h : k.Seg x l y) :
    k.next (k.prev y) = y ∧ ∀ a ∈ l, k.next (k.prev (some a)) = some a := by
  induction l generalizing x with
  | nil => exact ⟨by rw [h.2, h.1], by simp⟩
  | cons b l ih =>
    obtain ⟨hn, hp, hseg⟩ := h
    obtain ⟨hy, hl⟩ := ih hseg
    exact ⟨hy, List.forall_mem_cons.mpr ⟨by rw [hp, hn], hl⟩⟩

/-! ### Lists -/

/-- **The links are those of the list.** -/
structure Linked (k : Links α) (l : List α) : Prop where
  seg : k.Seg none l none
  nodup : l.Nodup

lemma linked_empty : (empty : Links α).Linked [] := ⟨⟨rfl, rfl⟩, List.nodup_nil⟩

/-- If all elements are in the list, the links in the two directions are inverse to each other. -/
lemma Linked.inverse (h : k.Linked l) (hall : ∀ a, a ∈ l) (x : Option α) :
    k.prev (k.next x) = x ∧ k.next (k.prev x) = x := by
  cases x with
  | none => exact ⟨h.seg.prev_next.1, h.seg.next_prev.1⟩
  | some a => exact ⟨h.seg.prev_next.2 a (hall a), h.seg.next_prev.2 a (hall a)⟩

/-! ### Loops -/

lemma find_none (link : Option α → Option α) (p : α → Bool) (n : ℕ) :
    find link p n none = none := by
  cases n <;> rfl

variable {n : ℕ}

lemma Seg.find_next (h : k.Seg x l none) (p : α → Bool) (hn : l.length ≤ n) :
    find k.next p n (k.next x) = l.find? p := by
  induction l generalizing x n with
  | nil => rw [h.1, find_none, List.find?_nil]
  | cons a l ih =>
    obtain ⟨hnext, -, hseg⟩ := h
    cases n with
    | zero => exact absurd hn (Nat.not_succ_le_zero _)
    | succ n =>
      rw [hnext, find, ih hseg (Nat.succ_le_succ_iff.mp hn), List.find?_cons]
      cases p a <;> rfl

/-- **The loop from the head to the end** finds the first element of the list. -/
lemma Linked.find_next (h : k.Linked l) (p : α → Bool) (hn : l.length ≤ n) :
    find k.next p n (k.next none) = l.find? p := h.seg.find_next p hn

/-- The links in the other direction. -/
def swap (k : Links α) : Links α := ⟨k.prev, k.next⟩

lemma Seg.snoc (h : k.Seg x l (some a)) (hn : k.next (some a) = y) (hp : k.prev y = some a) :
    k.Seg x (l ++ [a]) y := seg_append.mpr ⟨h, hn, hp⟩

lemma Seg.swap (h : k.Seg x l y) : k.swap.Seg y l.reverse x := by
  induction l generalizing x with
  | nil => exact ⟨h.2, h.1⟩
  | cons a l ih =>
    obtain ⟨hn, hp, hseg⟩ := h
    rw [List.reverse_cons]
    exact (ih hseg).snoc hp hn

/-- **The loop from the end to the head** finds the last element of the list. -/
lemma Linked.find_prev (h : k.Linked l) (p : α → Bool) (hn : l.length ≤ n) :
    find k.prev p n (k.prev none) = l.reverse.find? p :=
  h.seg.swap.find_next p (by rwa [List.length_reverse])

/-! ### Removal and insertion -/

variable [DecidableEq α]

lemma unlink_next (hne : k.next (some a) ≠ some a) :
    (k.unlink a).next = update k.next (k.prev (some a)) (k.next (some a)) := by
  simp only [unlink, update_of_ne (Ne.symm hne)]

lemma unlink_prev : (k.unlink a).prev = update k.prev (k.next (some a)) (k.prev (some a)) :=
  rfl

/-- **Taking out an element** joins the segments in front of it and behind it. The induction is on
the elements in front of it. -/
lemma Seg.unlink (h1 : k.Seg x l1 (some a)) (h2 : k.Seg (some a) l2 none)
    (hnodup : (l1 ++ a :: l2).Nodup) (hx : ∀ b ∈ l1 ++ a :: l2, x ≠ some b) :
    (k.unlink a).Seg x (l1 ++ l2) none := by
  have hself : k.next (some a) ≠ some a := by
    rcases h2.next_start with hn | ⟨b, hb, hn⟩
    · rw [hn]
      exact (Option.some_ne_none a).symm
    · rw [hn]
      rintro ⟨⟩
      exact (List.nodup_cons.mp (List.nodup_append.mp hnodup).2.1).1 hb
  induction l1 generalizing x with
  | nil =>
    obtain ⟨hn, hp⟩ := h1
    have hnext := unlink_next hself
    rw [hp] at hnext
    have hprev := unlink_prev (k := k) (a := a)
    rw [hp] at hprev
    obtain ⟨ha, hl2⟩ := List.nodup_cons.mp hnodup
    cases l2 with
    | nil =>
      refine ⟨?_, ?_⟩
      · rw [hnext, update_self, h2.1]
      · rw [hprev, h2.1, update_self]
    | cons c l2 =>
      obtain ⟨hc, hpc, hseg⟩ := h2
      obtain ⟨hcl, -⟩ := List.nodup_cons.mp hl2
      rw [hc] at hnext hprev
      have hxc : ∀ b ∈ c :: l2, x ≠ some b := fun b hb => hx b (List.mem_cons_of_mem _ hb)
      refine ⟨by rw [hnext, update_self], by rw [hprev, update_self],
        hseg.congr ?_ ?_ ?_ ?_⟩
      · rw [hnext, update_of_ne (hxc c List.mem_cons_self).symm]
      · rw [hprev, update_of_ne (Option.some_ne_none c).symm]
      · intro b hb
        rw [hnext, update_of_ne (hxc b (List.mem_cons_of_mem _ hb)).symm]
      · intro b hb
        rw [hprev, update_of_ne]
        rintro ⟨⟩
        exact hcl hb
  | cons d l1 ih =>
    obtain ⟨hn, hp, hseg⟩ := h1
    rw [List.cons_append, List.nodup_cons] at hnodup
    obtain ⟨hd, hrest⟩ := hnodup
    refine ⟨?_, ?_, ih hseg hrest fun b hb => ?_⟩
    · -- the element before `a` is not `x`
      rw [unlink_next hself, update_of_ne, hn]
      intro hxa
      rcases hseg.prev_end with he | ⟨b, hb, he⟩
      · exact hx d List.mem_cons_self (hxa.trans he)
      · exact hx b (List.mem_cons_of_mem _ (List.mem_append_left _ hb)) (hxa.trans he)
    · -- the element after `a` is not `d`
      rw [unlink_prev, update_of_ne, hp]
      intro hda
      rcases h2.next_start with he | ⟨b, hb, he⟩
      · exact absurd (hda.trans he) nofun
      · cases hda.trans he
        exact hd (List.mem_append_right _ (List.mem_cons_of_mem _ hb))
    · rintro ⟨⟩
      exact hd hb

lemma Linked.unlink (h : k.Linked (l1 ++ a :: l2)) : (k.unlink a).Linked (l1 ++ l2) := by
  obtain ⟨h1, h2⟩ := seg_append.mp h.seg
  refine ⟨h1.unlink h2 h.nodup fun b _ => nofun, ?_⟩
  exact h.nodup.sublist (List.Sublist.append (List.Sublist.refl _) (List.sublist_cons_self ..))

/-- **Putting an element behind the head.** -/
lemma Linked.pushFront (h : k.Linked l) (ha : a ∉ l) : (k.pushFront a).Linked (a :: l) := by
  have hhead : (update k.next (some a) (k.next none)) none = k.next none :=
    update_of_ne (Option.some_ne_none a).symm ..
  have hnext : (k.pushFront a).next =
      update (update k.next (some a) (k.next none)) none (some a) := rfl
  have hprev : (k.pushFront a).prev =
      update (update k.prev (some a) none) (k.next none) (some a) := by
    rw [Links.pushFront]
    dsimp only
    rw [hhead]
  have hfirst : k.next none ≠ some a := by
    rcases h.seg.next_start with hn | ⟨b, hb, hn⟩
    · rw [hn]
      exact (Option.some_ne_none a).symm
    · rw [hn]
      rintro ⟨⟩
      exact ha hb
  refine ⟨⟨by rw [hnext, update_self], ?_, ?_⟩, List.nodup_cons.mpr ⟨ha, h.nodup⟩⟩
  · rw [hprev, update_of_ne hfirst.symm, update_self]
  · have hna : (k.pushFront a).next (some a) = k.next none := by
      rw [hnext, update_of_ne (Option.some_ne_none a), update_self]
    have hnb : ∀ b ∈ l, (k.pushFront a).next (some b) = k.next (some b) := by
      intro b hb
      rw [hnext, update_of_ne (Option.some_ne_none b), update_of_ne]
      rintro ⟨⟩
      exact ha hb
    cases l with
    | nil =>
      refine ⟨hna.trans h.seg.1, ?_⟩
      rw [hprev, h.seg.1, update_self]
    | cons c l =>
      obtain ⟨hc, -, hseg⟩ := h.seg
      refine ⟨hna.trans hc, by rw [hprev, hc, update_self],
        hseg.congr (hnb c List.mem_cons_self) ?_
          (fun b hb => hnb b (List.mem_cons_of_mem _ hb)) fun b hb => ?_⟩
      · rw [hprev, hc, update_of_ne (Option.some_ne_none c).symm,
          update_of_ne (Option.some_ne_none a).symm]
      · rw [hprev, hc, update_of_ne, update_of_ne]
        · rintro ⟨⟩
          exact ha (List.mem_cons_of_mem _ hb)
        · rintro ⟨⟩
          exact (List.nodup_cons.mp h.nodup).1 hb

end Links

end DoublyLinked
