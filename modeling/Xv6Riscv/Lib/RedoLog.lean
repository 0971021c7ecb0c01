import Mathlib.Tactic

/-!
Physical redo logs.

A disk maps addresses to blocks and is changed by writing one block at a time. A redo log sets aside
a header block and a number of slots; the header lists home addresses, and slot `i` holds the new
block of the `i`-th of them. What counts is not what the home blocks hold but their `content`: the
block in the slot for an address on the list, the home block for the others. Installing a listed
block and erasing a list that has been installed do not change it, filling the slots under an empty
list does not either, and writing the header changes it for all addresses of the list at once.

* `after_take_invariant`: the rule for crashes: what every write of a sequence preserves holds
  after every prefix of it.
* `recover_prefix`, `recover_all`: recovery, interrupted anywhere, leaves the content alone, and
  once complete the log is empty.
* `commit_prefix`, `commit_all`: a commit, interrupted anywhere, leaves the old content or the new
  one, according to whether the header has been written.
-/

namespace RedoLog

variable {α β : Type*}

/-! ### The layout of a log -/

/-- The parts of a disk that belong to a log, and how its header is read. -/
structure Layout (α β : Type*) where
  header : α
  slot : ℕ → α
  capacity : ℕ
  decode : β → List α
  slot_inj : ∀ i < capacity, ∀ j < capacity, slot i = slot j → i = j
  slot_ne_header : ∀ i < capacity, slot i ≠ header

namespace Layout

variable (L : Layout α β)

/-- The addresses outside the log. -/
def Home (a : α) : Prop := a ≠ L.header ∧ ∀ i < L.capacity, a ≠ L.slot i

def entries (d : α → β) : List α := L.decode (d L.header)

/-- The header lists different home addresses, no more than there are slots. -/
structure WellFormed (d : α → β) : Prop where
  nodup : (L.entries d).Nodup
  length_le : (L.entries d).length ≤ L.capacity
  home : ∀ a ∈ L.entries d, L.Home a

/-- The writes that install the list. -/
def installs (d : α → β) : List (α × β) := (L.entries d).zipIdx.map fun (a, i) => (a, d (L.slot i))

/-- The writes that fill the slots with the blocks of a transaction. -/
def stages (l : List (α × β)) : List (α × β) := l.zipIdx.map fun (w, i) => (L.slot i, w.2)

/-- The writes of a commit, `h1` and `h0` being the two versions of the header. -/
def commitWrites (l : List (α × β)) (h1 h0 : β) : List (α × β) :=
  L.stages l ++ (L.header, h1) :: (l ++ [(L.header, h0)])

/-- The blocks of a transaction: different home addresses, no more than there are slots. -/
structure Fits (l : List (α × β)) : Prop where
  nodup : (l.map Prod.fst).Nodup
  length_le : l.length ≤ L.capacity
  home : ∀ w ∈ l, L.Home w.1

variable {L} {d : α → β} {l : List (α × β)} {w : α × β}

lemma wellFormed_of_nil (h : L.entries d = []) : L.WellFormed d := by
  constructor <;> rw [h] <;> simp

lemma mem_installs : w ∈ L.installs d ↔
    ∃ i, ∃ h : i < (L.entries d).length, w = ((L.entries d)[i], d (L.slot i)) := by
  simp only [installs, List.mem_map, Prod.exists, List.mem_zipIdx_iff_getElem?,
    List.getElem?_eq_some_iff]
  constructor
  · rintro ⟨a, i, ⟨hi, ha⟩, rfl⟩
    exact ⟨i, hi, by rw [ha]⟩
  · rintro ⟨i, hi, rfl⟩
    exact ⟨_, i, ⟨hi, rfl⟩, rfl⟩

lemma map_fst_installs : (L.installs d).map Prod.fst = L.entries d := by
  simp [installs, Function.comp_def]

lemma mem_stages : w ∈ L.stages l ↔ ∃ i, ∃ h : i < l.length, w = (L.slot i, l[i].2) := by
  simp only [stages, List.mem_map, Prod.exists, List.mem_zipIdx_iff_getElem?,
    List.getElem?_eq_some_iff]
  constructor
  · rintro ⟨a, v, i, ⟨hi, he⟩, rfl⟩
    exact ⟨i, hi, by rw [he]⟩
  · rintro ⟨i, hi, rfl⟩
    exact ⟨l[i].1, l[i].2, i, ⟨hi, rfl⟩, rfl⟩

@[simp] lemma length_stages : (L.stages l).length = l.length := by simp [stages]

end Layout

/-! ### Disks and writes -/

variable [DecidableEq α]

def write (d : α → β) (w : α × β) : α → β := Function.update d w.1 w.2

def after (d : α → β) (ws : List (α × β)) : α → β := ws.foldl write d

variable {d : α → β} {ws vs : List (α × β)} {w : α × β} {a : α}

@[simp] lemma after_nil : after d [] = d := rfl

lemma after_cons : after d (w :: ws) = after (write d w) ws := rfl

lemma after_append : after d (ws ++ vs) = after (after d ws) vs := List.foldl_append

lemma write_of_ne (h : a ≠ w.1) : write d w a = d a := Function.update_of_ne h _ _

@[simp] lemma write_self : write d w w.1 = w.2 := Function.update_self _ _ _

lemma after_of_ne (h : ∀ w ∈ ws, a ≠ w.1) : after d ws a = d a := by
  induction ws generalizing d with
  | nil => rfl
  | cons w ws ih =>
    rw [after_cons, ih fun w' hw' => h w' (List.mem_cons_of_mem _ hw'),
      write_of_ne (h w (List.mem_cons_self ..))]

/-- Where no address is written twice, each holds what has been written to it. -/
lemma after_of_mem (hnd : (ws.map Prod.fst).Nodup) (h : w ∈ ws) : after d ws w.1 = w.2 := by
  induction ws generalizing d with
  | nil => cases h
  | cons v ws ih =>
    rw [List.map_cons, List.nodup_cons] at hnd
    rcases List.mem_cons.mp h with rfl | h
    · rw [after_cons, after_of_ne, write_self]
      intro w' hw' he
      exact hnd.1 (he ▸ List.mem_map_of_mem hw')
    · exact ih hnd.2 h

lemma after_apply_congr {d d' : α → β} (h : d a = d' a) : after d ws a = after d' ws a := by
  induction ws generalizing d d' with
  | nil => exact h
  | cons w ws ih =>
    refine ih ?_
    by_cases ha : a = w.1
    · rw [ha, write_self, write_self]
    · rw [write_of_ne ha, write_of_ne ha, h]

/-- What the disk held at the addresses written does not matter. -/
lemma after_congr {d d' : α → β} (h : ∀ a, d a = d' a ∨ ∃ w ∈ ws, a = w.1) :
    after d ws = after d' ws := by
  induction ws generalizing d d' with
  | nil => exact funext fun a => (h a).resolve_right fun ⟨_, hw, _⟩ => nomatch hw
  | cons w ws ih =>
    refine ih fun a => ?_
    by_cases ha : a = w.1
    · exact .inl (by rw [ha, write_self, write_self])
    · rcases h a with hd | ⟨w', hw', rfl⟩
      · exact .inl (by rw [write_of_ne ha, write_of_ne ha, hd])
      · exact .inr ⟨w', (List.mem_cons.mp hw').resolve_left fun he => ha (he ▸ rfl), rfl⟩

/-- **The rule for crashes**: a property of disks that each write of a sequence preserves holds
after every prefix of the sequence. -/
lemma after_take_invariant {I : (α → β) → Prop} (hstep : ∀ w ∈ ws, ∀ d, I d → I (write d w))
    (h : I d) (n : ℕ) : I (after d (ws.take n)) := by
  induction ws generalizing d n with
  | nil => rwa [List.take_nil]
  | cons w ws ih =>
    cases n with
    | zero => exact h
    | succ n =>
      exact ih (fun w' hw' => hstep w' (List.mem_cons_of_mem _ hw'))
        (hstep w (List.mem_cons_self ..) d h) n

lemma after_invariant {I : (α → β) → Prop} (hstep : ∀ w ∈ ws, ∀ d, I d → I (write d w))
    (h : I d) : I (after d ws) := by
  have := after_take_invariant hstep h ws.length
  rwa [List.take_length] at this

/-! ### Contents -/

namespace Layout

/-- What a home address holds once the list has been installed. -/
def content (L : Layout α β) (d : α → β) (a : α) : β :=
  if a ∈ L.entries d then d (L.slot ((L.entries d).idxOf a)) else d a

variable {L : Layout α β} {d' : α → β} {l : List (α × β)} {h0 h1 : β}

lemma content_of_nil (h : L.entries d = []) : L.content d a = d a := by
  rw [content, h, if_neg List.not_mem_nil]

lemma WellFormed.content_eq_snd (h : L.WellFormed d) (hw : w ∈ L.installs d) :
    L.content d w.1 = w.2 := by
  obtain ⟨i, hi, rfl⟩ := mem_installs.mp hw
  rw [content, if_pos (List.getElem_mem hi), h.nodup.idxOf_getElem]

/-- Disks that agree on the header, on the slots in use and on the contents. -/
structure Same (L : Layout α β) (d d' : α → β) : Prop where
  header : d' L.header = d L.header
  slot : ∀ i < L.capacity, d' (L.slot i) = d (L.slot i)
  content : ∀ a, L.Home a → L.content d' a = L.content d a

lemma Same.refl : L.Same d d := ⟨rfl, fun _ _ => rfl, fun _ _ => rfl⟩

lemma Same.entries (h : L.Same d d') : L.entries d' = L.entries d := congrArg L.decode h.header

lemma Same.wellFormed (h : L.Same d d') (hd : L.WellFormed d) : L.WellFormed d' := by
  constructor <;> rw [h.entries]
  · exact hd.nodup
  · exact hd.length_le
  · exact hd.home

/-- **Installing a block keeps the content.** -/
lemma Same.install (hd : L.WellFormed d) (h : L.Same d d') (hw : w ∈ L.installs d) :
    L.Same d (write d' w) := by
  have hmem : w.1 ∈ L.entries d := by
    rw [← map_fst_installs]
    exact List.mem_map_of_mem hw
  have hhome := hd.home _ hmem
  have hheader : write d' w L.header = d L.header :=
    (write_of_ne (Ne.symm hhome.1)).trans h.header
  have hentries : L.entries (write d' w) = L.entries d := congrArg L.decode hheader
  refine ⟨hheader, fun i hi => (write_of_ne (Ne.symm (hhome.2 i hi))).trans (h.slot i hi),
    fun a ha => ?_⟩
  rw [← h.content a ha, Layout.content, Layout.content, hentries, h.entries]
  split_ifs with hin
  · -- a listed address: its content is in a slot, which is not written
    have hlt := (List.idxOf_lt_length_iff.mpr hin).trans_le hd.length_le
    exact write_of_ne (Ne.symm (hhome.2 _ hlt))
  · exact write_of_ne fun he => hin (he ▸ hmem)

/-- **Erasing an installed list keeps the content.** -/
lemma content_erase (h0nil : L.decode h0 = []) (h : L.Same d d')
    (hin : ∀ w ∈ L.installs d, d' w.1 = w.2) (hd : L.WellFormed d) (ha : L.Home a) :
    L.content (write d' (L.header, h0)) a = L.content d a := by
  have hnil : L.entries (write d' (L.header, h0)) = [] := by
    rw [Layout.entries, show write d' (L.header, h0) L.header = h0 from write_self, h0nil]
  rw [content_of_nil hnil, write_of_ne ha.1]
  by_cases hmem : a ∈ L.entries d
  · rw [← map_fst_installs] at hmem
    obtain ⟨w, hw, rfl⟩ := List.mem_map.mp hmem
    rw [hin w hw, hd.content_eq_snd hw]
  · rw [← h.content a ha, content, h.entries, if_neg hmem]

/-! ### Recovery -/

/-- The list has been installed after all writes of `installs`. -/
lemma same_installs (hd : L.WellFormed d) : L.Same d (after d (L.installs d)) :=
  after_invariant (fun _ hw _ h => Same.install hd h hw) Same.refl

lemma entries_write_header : L.entries (write d (L.header, h0)) = L.decode h0 :=
  congrArg L.decode write_self

/-- **Recovery completes**: the content is what it was, and the log is empty. -/
theorem recover_all (hd : L.WellFormed d) (h0nil : L.decode h0 = []) :
    L.entries (after d (L.installs d ++ [(L.header, h0)])) = [] ∧
      ∀ a, L.Home a → after d (L.installs d ++ [(L.header, h0)]) a = L.content d a := by
  have hentries : L.entries (after d (L.installs d ++ [(L.header, h0)])) = [] := by
    rw [after_append]
    exact entries_write_header.trans h0nil
  refine ⟨hentries, fun a ha => ?_⟩
  rw [← content_of_nil hentries, after_append]
  refine content_erase h0nil (same_installs hd) (fun w hw => ?_) hd ha
  exact after_of_mem (by rw [map_fst_installs]; exact hd.nodup) hw

/-- **Recovery may be interrupted anywhere**: the content is what it was. -/
theorem recover_prefix (hd : L.WellFormed d) (h0nil : L.decode h0 = []) (n : ℕ) :
    L.WellFormed (after d ((L.installs d ++ [(L.header, h0)]).take n)) ∧ ∀ a, L.Home a →
        L.content (after d ((L.installs d ++ [(L.header, h0)]).take n)) a = L.content d a := by
  by_cases hn : n ≤ (L.installs d).length
  · rw [List.take_append_of_le_length hn]
    have hsame : L.Same d (after d ((L.installs d).take n)) :=
      after_take_invariant (fun _ hw _ h => Same.install hd h hw) Same.refl n
    exact ⟨hsame.wellFormed hd, hsame.content⟩
  · rw [List.take_of_length_le (by simp; omega)]
    obtain ⟨hnil, hcontent⟩ := recover_all hd h0nil
    exact ⟨wellFormed_of_nil hnil, fun a ha => (content_of_nil hnil).trans (hcontent a ha)⟩

/-! ### Commit -/

/-- Filling the slots touches neither the header nor the home blocks. -/
lemma stages_frame (hl : L.Fits l) (ha : ∀ i < L.capacity, a ≠ L.slot i) (n : ℕ) :
    after d ((L.stages l).take n) a = d a := by
  refine after_of_ne fun w hw => ?_
  obtain ⟨i, hi, rfl⟩ := mem_stages.mp (List.mem_of_mem_take hw)
  exact ha i (hi.trans_le hl.length_le)

lemma stages_slot (hl : L.Fits l) {i : ℕ} (hi : i < l.length) :
    after d (L.stages l) (L.slot i) = l[i].2 := by
  have hnd : ((L.stages l).map Prod.fst).Nodup := by
    rw [List.nodup_iff_injective_getElem]
    intro i j hij
    have hi : i.val < l.length := by simpa using i.isLt
    have hj : j.val < l.length := by simpa using j.isLt
    simp only [stages, List.getElem_map, List.getElem_zipIdx, zero_add] at hij
    exact Fin.ext (L.slot_inj _ (hi.trans_le hl.length_le) _ (hj.trans_le hl.length_le) hij)
  exact after_of_mem hnd (mem_stages.mpr ⟨i, hi, rfl⟩)

/-- The disk when the header of a commit has been written. -/
def committed (L : Layout α β) (d : α → β) (l : List (α × β)) (h1 : β) : α → β :=
  write (after d (L.stages l)) (L.header, h1)

lemma committed_entries (h1list : L.decode h1 = l.map Prod.fst) :
    L.entries (L.committed d l h1) = l.map Prod.fst := entries_write_header.trans h1list

section

variable (hl : L.Fits l) (h1list : L.decode h1 = l.map Prod.fst)

include hl h1list

lemma committed_wellFormed : L.WellFormed (L.committed d l h1) := by
  constructor <;> rw [committed_entries h1list]
  · exact hl.nodup
  · rw [List.length_map]
    exact hl.length_le
  · intro a ha
    obtain ⟨w, hw, rfl⟩ := List.mem_map.mp ha
    exact hl.home w hw

lemma installs_committed : L.installs (L.committed d l h1) = l := by
  refine List.ext_getElem (by simp [installs, committed_entries h1list]) fun i _ hi => ?_
  have hslot : L.committed d l h1 (L.slot i) = l[i].2 := by
    rw [committed, write_of_ne (L.slot_ne_header i (hi.trans_le hl.length_le)), stages_slot hl hi]
  simp only [installs, committed_entries h1list, List.getElem_map, List.getElem_zipIdx, zero_add,
    hslot]

/-- **Writing the header is the commit point**: the content becomes that after the
transaction. -/
lemma content_committed (ha : L.Home a) : L.content (L.committed d l h1) a = after d l a := by
  by_cases hmem : a ∈ l.map Prod.fst
  · obtain ⟨w, hw, rfl⟩ := List.mem_map.mp hmem
    rw [after_of_mem hl.nodup hw]
    exact (committed_wellFormed hl h1list).content_eq_snd (by rwa [installs_committed hl h1list])
  · have hframe : after d (L.stages l) a = d a := by
      have := stages_frame (d := d) hl ha.2 l.length
      rwa [← length_stages (L := L), List.take_length] at this
    rw [content, committed_entries h1list, if_neg hmem, committed, write_of_ne ha.1, hframe,
      after_of_ne fun w hw (he : a = w.1) => hmem (he ▸ List.mem_map_of_mem hw)]

lemma commitWrites_eq :
    L.commitWrites l h1 h0 = L.stages l ++ [(L.header, h1)] ++
      (L.installs (L.committed d l h1) ++ [(L.header, h0)]) := by
  rw [installs_committed hl h1list, commitWrites, List.append_assoc, List.singleton_append]

end

lemma after_stages_header :
    after d (L.stages l ++ [(L.header, h1)]) = L.committed d l h1 := after_append

/-- **A commit completes**: the home blocks are those after the transaction, and the log is
empty. -/
theorem commit_all (hl : L.Fits l) (h1list : L.decode h1 = l.map Prod.fst)
    (h0nil : L.decode h0 = []) :
    L.entries (after d (L.commitWrites l h1 h0)) = [] ∧
      ∀ a, L.Home a → after d (L.commitWrites l h1 h0) a = after d l a := by
  rw [commitWrites_eq (d := d) hl h1list, after_append, after_stages_header]
  obtain ⟨hnil, hcontent⟩ := recover_all (committed_wellFormed hl h1list) h0nil
  exact ⟨hnil, fun a ha => (hcontent a ha).trans (content_committed hl h1list ha)⟩

/-- **A commit may be interrupted anywhere**: before the header has been written the content is
the old one, from then on it is the new one. -/
theorem commit_prefix (hd : L.entries d = []) (hl : L.Fits l)
    (h1list : L.decode h1 = l.map Prod.fst) (h0nil : L.decode h0 = []) (n : ℕ) :
    L.WellFormed (after d ((L.commitWrites l h1 h0).take n)) ∧
      ∀ a, L.Home a → L.content (after d ((L.commitWrites l h1 h0).take n)) a =
        if n ≤ l.length then d a else after d l a := by
  rw [commitWrites_eq (d := d) hl h1list]
  split_ifs with hn
  · -- the header has not been written
    rw [List.append_assoc, List.take_append_of_le_length (by simpa using hn)]
    have hnil : L.entries (after d ((L.stages l).take n)) = [] := by
      rw [entries, stages_frame hl (fun i hi => (L.slot_ne_header i hi).symm)]
      exact hd
    refine ⟨wellFormed_of_nil hnil, fun a ha => ?_⟩
    rw [content_of_nil hnil, stages_frame hl ha.2]
  · -- the log is being installed, as recovery would do it
    have hlen : (L.stages l ++ [(L.header, h1)]).length = l.length + 1 := by simp
    obtain ⟨m, rfl⟩ : ∃ m, n = (L.stages l ++ [(L.header, h1)]).length + m :=
      ⟨n - (l.length + 1), by omega⟩
    rw [List.take_length_add_append, after_append, after_stages_header]
    obtain ⟨hwf, hcontent⟩ := recover_prefix (committed_wellFormed (d := d) hl h1list) h0nil m
    exact ⟨hwf, fun a ha => (hcontent a ha).trans (content_committed hl h1list ha)⟩

end Layout

end RedoLog
