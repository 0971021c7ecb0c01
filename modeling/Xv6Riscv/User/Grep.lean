import Mathlib.Tactic

/-!
The program `grep.c`: its matcher and its loop over the input.

A string is the list of its bytes; `'\0'` is its end. The pattern is read from the left as a
sequence of items, and a `'*'` makes an item of the character before it, whatever that is.

* `matchhere_iff`, `matchRe_iff`: the matcher decides the language of the items.
* `grep_eq`, `grep_filters`: however the input comes in pieces, the lines that match are written, up
  to the first line that fills the buffer.
-/

namespace Xv6Riscv.Grep

/-! ### The program -/

mutual

/-- `matchhere`: search for `re` at the beginning of `text`. -/
def matchhere : List UInt8 → List UInt8 → Bool
  | [], _ => true
  | c :: re, text =>
    if re.head? = some '*'.toUInt8 then matchstar c re.tail text
    else if c = '$'.toUInt8 ∧ re = [] then text.isEmpty
    else text.head?.any (fun t => c = '.'.toUInt8 ∨ c = t) && matchhere re text.tail
termination_by re => (re.length, 0)

/-- `matchstar`: search for `c*re` at the beginning of `text`. -/
def matchstar (c : UInt8) (re text : List UInt8) : Bool :=
  matchhere re text || match text with
    | [] => false
    | t :: text => (t = c ∨ c = '.'.toUInt8) && matchstar c re text
termination_by (re.length, text.length + 1)

end

/-- The search of `match` over the suffixes of the text. -/
def search (re : List UInt8) : List UInt8 → Bool
  | [] => matchhere re []
  | t :: text => matchhere re (t :: text) || search re text

/-- `match`. -/
def matchRe (re text : List UInt8) : Bool :=
  if re.head? = some '^'.toUInt8 then matchhere re.tail text else search re text

/-! ### The language -/

inductive Item
  | star (c : UInt8)
  | one (c : UInt8)
  | eol

def items : List UInt8 → List Item
  | [] => []
  | c :: re =>
    if re.head? = some '*'.toUInt8 then .star c :: items re.tail
    else if c = '$'.toUInt8 ∧ re = [] then [.eol]
    else .one c :: items re
termination_by re => re.length
decreasing_by all_goals (simp; try omega)

/-- A character that `c` stands for. -/
def Fits (c x : UInt8) : Prop := c = '.'.toUInt8 ∨ x = c

/-- An item matches `w` before the rest of a text. -/
def Item.Matches (w rest : List UInt8) : Item → Prop
  | .star c => ∀ x ∈ w, Fits c x
  | .one c => ∃ x, w = [x] ∧ Fits c x
  | .eol => w = [] ∧ rest = []

/-- A prefix of the text is matched by the items. -/
def Begins : List Item → List UInt8 → Prop
  | [], _ => True
  | i :: is, text => ∃ w rest, text = w ++ rest ∧ i.Matches w rest ∧ Begins is rest

/-! ### The matcher decides the language -/

lemma matchstar_iff (c : UInt8) (re text : List UInt8) :
    matchstar c re text ↔ ∃ w rest, text = w ++ rest ∧ (∀ x ∈ w, Fits c x) ∧ matchhere re rest := by
  induction text with
  | nil =>
    rw [matchstar]
    simp
  | cons t text ih =>
    rw [matchstar, Bool.or_eq_true, Bool.and_eq_true, ih, decide_eq_true_eq]
    constructor
    · rintro (h | ⟨ht, w, rest, rfl, hw, h⟩)
      · exact ⟨[], _, rfl, nofun, h⟩
      · exact ⟨t :: w, rest, rfl, List.forall_mem_cons.mpr ⟨ht.symm, hw⟩, h⟩
    · rintro ⟨w, rest, he, hw, h⟩
      cases w with
      | nil => exact .inl (he ▸ h)
      | cons x w =>
        obtain ⟨rfl, rfl⟩ := List.cons.inj he
        obtain ⟨ht, hw⟩ := List.forall_mem_cons.mp hw
        exact .inr ⟨ht.symm, w, rest, rfl, hw, h⟩

/-- **`matchhere` decides** whether a prefix of the text is matched. -/
lemma matchhere_iff (re text : List UInt8) : matchhere re text ↔ Begins (items re) text := by
  induction re using items.induct generalizing text with
  | case1 => simp [matchhere, items, Begins]
  | case2 c re hstar ih =>
    rw [matchhere, items, if_pos hstar, if_pos hstar, matchstar_iff]
    simp only [ih]
    rfl
  | case3 c re hstar hend =>
    rw [matchhere, items, if_neg hstar, if_neg hstar, if_pos hend, if_pos hend]
    simp [Begins, Item.Matches]
  | case4 c re hstar hend ih =>
    rw [matchhere, items, if_neg hstar, if_neg hstar, if_neg hend, if_neg hend,
      Bool.and_eq_true, ih]
    cases text with
    | nil => simp [Begins, Item.Matches]
    | cons t text =>
      rw [List.head?_cons, Option.any_some, decide_eq_true_eq, List.tail_cons]
      constructor
      · rintro ⟨hc, h⟩
        exact ⟨[t], text, rfl, ⟨t, rfl, hc.imp_right Eq.symm⟩, h⟩
      · rintro ⟨_, rest, he, ⟨x, rfl, hx⟩, h⟩
        obtain ⟨rfl, rfl⟩ := List.cons.inj he
        exact ⟨hx.imp_right Eq.symm, h⟩

lemma search_iff (re text : List UInt8) : search re text ↔ ∃ s, s <:+ text ∧ matchhere re s := by
  induction text with
  | nil => simp [search]
  | cons t text ih => simp [search, ih, List.suffix_cons_iff, or_and_right, exists_or]

/-- **The matcher decides its language**: some suffix of the text has a prefix that the items match,
and the text itself if the pattern begins with `'^'`. -/
theorem matchRe_iff (re text : List UInt8) :
    matchRe re text ↔ if re.head? = some '^'.toUInt8 then Begins (items re.tail) text
      else ∃ s, s <:+ text ∧ Begins (items re) s := by
  rw [matchRe]
  split_ifs
  · exact matchhere_iff ..
  · simp only [search_iff, matchhere_iff]

/-! ### The loop over the input -/

/-- `strchr`, as what stands before the character and after it. -/
def strchr (c : UInt8) : List UInt8 → Option (List UInt8 × List UInt8)
  | [] => none
  | x :: s =>
    if x = 0 then none
    else if x = c then some ([], s)
    else (strchr c s).map fun (line, rest) => (x :: line, rest)

lemma strchr_eq_some {c : UInt8} {s line rest : List UInt8} (h : strchr c s = some (line, rest)) :
    s = line ++ c :: rest ∧ c ∉ line := by
  induction s generalizing line with
  | nil => cases h
  | cons x s ih =>
    rw [strchr] at h
    split_ifs at h with h0 hc
    · cases h
      exact ⟨by rw [hc]; rfl, List.not_mem_nil⟩
    · obtain ⟨⟨line', rest'⟩, hs, he⟩ := Option.map_eq_some_iff.mp h
      cases he
      obtain ⟨rfl, hline⟩ := ih hs
      exact ⟨rfl, List.not_mem_cons_of_ne_of_not_mem (Ne.symm hc) hline⟩

lemma strchr_eq_none {c : UInt8} {s : List UInt8} (h0 : 0 ∉ s) (h : strchr c s = none) : c ∉ s := by
  induction s with
  | nil => exact List.not_mem_nil
  | cons x s ih =>
    rw [List.mem_cons, not_or] at h0
    rw [strchr, if_neg (Ne.symm h0.1)] at h
    split_ifs at h with hc
    exact List.not_mem_cons_of_ne_of_not_mem (Ne.symm hc) (ih h0.2 (Option.map_eq_none_iff.mp h))

def nl : UInt8 := '\n'.toUInt8

/-- The inner loop of `grep`: what it writes, and what it leaves of the buffer. -/
def lines (re p : List UInt8) : List UInt8 × List UInt8 :=
  match _h : strchr nl p with
  | none => ([], p)
  | some (line, rest) =>
    ((if matchRe re line then line ++ [nl] else []) ++ (lines re rest).1, (lines re rest).2)
termination_by p.length
decreasing_by all_goals (rw [(strchr_eq_some _h).1]; simp; omega)

/-- What `grep` writes, with `m` carried over in the buffer; a read returns what is asked for, or
what is there, or a piece of the next of the given `sizes` plus one. -/
def grep (re : List UInt8) (sizes : ℕ → ℕ) (m input : List UInt8) : List UInt8 :=
  let n := min (1024 - m.length - 1) (min input.length (sizes 0 + 1))
  if n = 0 then []
  else
    let r := lines re (m ++ input.take n)
    r.1 ++ grep re (fun k => sizes (k + 1)) r.2 (input.drop n)
termination_by input.length
decreasing_by simp; omega

/-- The newline-terminated lines of a stream. -/
def terminated (s : List UInt8) : List (List UInt8) := (s.splitOn nl).dropLast

/-- The lines for which `match` holds, as they are written. -/
def passed (re : List UInt8) (ls : List (List UInt8)) : List UInt8 :=
  (ls.filter (matchRe re)).flatMap (· ++ [nl])

/-- A line that fits into the buffer with its newline. -/
def short (l : List UInt8) : Bool := l.length < 1023

variable {re line m s : List UInt8}

lemma terminated_append (h : nl ∉ line) (s : List UInt8) :
    terminated (line ++ nl :: s) = line :: terminated s := by
  rw [terminated, List.splitOn, List.splitOnP_append_cons_of_forall_mem (by grind) nl (by simp),
    List.dropLast_cons_of_ne_nil (by simp)]
  rfl

lemma terminated_eq_nil (h : nl ∉ s) : terminated s = [] := by
  rw [terminated, List.splitOn, List.splitOnP_eq_singleton (by grind)]
  rfl

lemma takeWhile_short (h : nl ∉ m) (hm : 1023 ≤ m.length) (s : List UInt8) :
    (terminated (m ++ s)).takeWhile short = [] := by
  by_cases hs : nl ∈ s
  · obtain ⟨l, t, rfl, hl⟩ := List.eq_append_cons_of_mem hs
    rw [← List.append_assoc, terminated_append (by simp [h, hl])]
    exact List.takeWhile_cons_of_neg (by simp [short]; omega)
  · rw [terminated_eq_nil (by simp [h, hs])]
    rfl

/-- What the inner loop leaves is without newline, and the lines it has seen are dealt with. -/
lemma lines_spec (re : List UInt8) {p : List UInt8} (h0 : 0 ∉ p) (hp : p.length ≤ 1023) :
    nl ∉ (lines re p).2 ∧ (lines re p).2 <:+ p ∧
      ∀ s, passed re ((terminated (p ++ s)).takeWhile short) =
        (lines re p).1 ++ passed re ((terminated ((lines re p).2 ++ s)).takeWhile short) := by
  induction p using lines.induct with
  | case1 p h =>
    rw [lines, h]
    exact ⟨strchr_eq_none h0 h, List.suffix_rfl, fun s => rfl⟩
  | case2 p line rest h ih =>
    obtain ⟨rfl, hline⟩ := strchr_eq_some h
    rw [List.length_append, List.length_cons] at hp
    obtain ⟨h1, h2, h3⟩ := ih (by simp_all) (by omega)
    rw [lines, h]
    refine ⟨h1, h2.trans ⟨line ++ [nl], by simp⟩, fun s => ?_⟩
    rw [List.append_assoc, List.cons_append, terminated_append hline,
      List.takeWhile_cons_of_pos (by simp [short]; omega), List.append_assoc, ← h3, passed, passed,
      List.filter_cons]
    split_ifs <;> simp

/-- **`grep` writes the lines that match before the first one that is not short.** -/
lemma grep_eq (re : List UInt8) (sizes : ℕ → ℕ) {i : List UInt8} (h : nl ∉ m)
    (hm : m.length ≤ 1023) (h0 : 0 ∉ m ++ i) :
    grep re sizes m i = passed re ((terminated (m ++ i)).takeWhile short) := by
  induction hlen : i.length using Nat.strong_induction_on generalizing sizes m i with
  | _ k ih =>
    rw [grep]
    dsimp only
    split_ifs with hn
    · by_cases hin : i = []
      · rw [hin, List.append_nil, terminated_eq_nil h]
        rfl
      · have hpos := List.length_pos_iff.mpr hin
        rw [takeWhile_short h (by omega)]
        rfl
    · set n := min (1024 - m.length - 1) (min i.length (sizes 0 + 1))
      have hsplit : m ++ i = (m ++ i.take n) ++ i.drop n := by simp
      have h0' : 0 ∉ m ++ i.take n := fun hx => h0 (by rw [hsplit]; exact List.mem_append_left _ hx)
      obtain ⟨h1, h2, h3⟩ := lines_spec re h0' (by simp; omega)
      rw [hsplit, h3]
      congr 1
      have hle := h2.length_le
      refine ih _ ?_ _ h1 ?_ ?_ rfl
      · simp; omega
      · simp at hle; omega
      · intro hx
        rcases List.mem_append.mp hx with hx | hx
        · exact h0' (h2.mem hx)
        · exact h0 (List.mem_append_right _ (List.mem_of_mem_drop hx))

/-- **`grep` filters the lines of its input unless one that it should write comes with or after a
line of 1023 bytes**: such a line fills the buffer, the next read is one of no bytes, and `grep`
ends. -/
theorem grep_filters (re : List UInt8) (sizes : ℕ → ℕ) (input : List UInt8) (h0 : 0 ∉ input) :
    grep re sizes [] input = passed re (terminated input) ↔
      ∀ l ∈ (terminated input).dropWhile short, ¬ matchRe re l := by
  rw [grep_eq re sizes List.not_mem_nil (by simp) h0, List.nil_append]
  nth_rewrite 2 [← List.takeWhile_append_dropWhile (p := short) (l := terminated input)]
  simp [passed, -List.takeWhile_append_dropWhile]

theorem grep_filters_line : grep [] (fun _ => 0) [] [97, nl] = passed [] (terminated [97, nl]) ↔
    ∀ l ∈ (terminated [97, nl]).dropWhile short, ¬ matchRe [] l :=
  grep_filters [] _ _ (by decide)

/-- A line of 1023 bytes, which the empty pattern matches, is not written. -/
theorem grep_loses : grep [] (fun _ => 0) [] (List.replicate 1023 97 ++ [nl]) = [] ∧
    passed [] (terminated (List.replicate 1023 97 ++ [nl])) = List.replicate 1023 97 ++ [nl] := by
  have hlen : (List.replicate 1023 (97 : UInt8)).length = 1023 := List.length_replicate
  have hmem : ∀ x ∈ List.replicate 1023 (97 : UInt8), x = 97 := fun x => List.eq_of_mem_replicate
  generalize List.replicate 1023 (97 : UInt8) = line at hlen hmem
  have hnl : nl ∉ line := fun h => absurd (hmem _ h) (by decide)
  have h0 : 0 ∉ line ++ [nl] := by
    rw [List.mem_append, not_or]
    exact ⟨fun h => absurd (hmem _ h) (by decide), by decide⟩
  constructor
  · rw [grep_eq [] _ (m := []) (i := line ++ [nl]) List.not_mem_nil (by simp) h0, List.nil_append,
      takeWhile_short hnl hlen.ge]
    rfl
  · have hmatch : matchRe [] line = true := by
      rw [matchRe, if_neg (by simp), search_iff]
      exact ⟨line, List.suffix_rfl, by rw [matchhere]⟩
    rw [terminated_append hnl, terminated_eq_nil List.not_mem_nil, passed,
      List.filter_cons_of_pos hmatch]
    simp

end Xv6Riscv.Grep
