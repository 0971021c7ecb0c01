import Xv6Riscv.Lib.Ring
import Xv6Riscv.Lib.Transition
import Xv6Riscv.Lib.Update

/-!
Console input (`consoleintr` and `consoleread` of `console.c`).

Characters arrive through `consoleintr`, which edits the current line and commits it; `consoleread`
takes committed bytes. Both hold `cons.lock` while they look at the buffer, so a step below is what
happens from `acquire` to `release`: one character, or one stretch of `consoleread` up to its return
or its `sleep`. A sleeping reader may go on at any time.

`Editor` says what the buffer is for, with lists in place of indices: a line that is being edited,
and the sequence of all bytes that have been committed. It runs beside the code. Every byte that a
reader takes from the buffer is recorded with the call it was given to.

* `ConsInv`: the indices, and the buffer as the unread and the edited part of the editor.
* `Lines`: no call has been given bytes of two lines. It is kept as long as no reader takes bytes
  while another one is asleep in the middle of a line.
* `console_line_discipline`: both, over whole runs.
-/

namespace Xv6Riscv

open Function (update update_of_ne update_self)
open Ring

def inputBufSize : ℕ := 128

/-- The buffer and the indices of `cons`. -/
structure Cons where
  buf : ℕ → UInt8
  r : UInt32
  w : UInt32
  e : UInt32

/-- `'\n'`. -/
def newline : UInt8 := 10

/-- `C('D')`. -/
def ctrlD : UInt8 := 4

/-- The characters that end a line. -/
def IsEnd (c : UInt8) : Prop := c = newline ∨ c = ctrlD

instance (c : UInt8) : Decidable (IsEnd c) := by rw [IsEnd]; infer_instance

namespace Cons

/-- The loop of `C('U')`, which turns at most `n` times. -/
def killLine : ℕ → Cons → Cons
  | 0, s => s
  | n + 1, s =>
    if s.e ≠ s.w ∧ s.buf (slot inputBufSize (s.e - 1)) ≠ newline then
      killLine n { s with e := s.e - 1 }
    else s

/-- The stored character: a carriage return becomes a newline. -/
def stored (c : UInt8) : UInt8 := if c = 13 then newline else c

/-- The `default` case of `consoleintr`. -/
def append (s : Cons) (c : UInt8) : Cons :=
  let s := { s with buf := update s.buf (slot inputBufSize s.e) c, e := s.e + 1 }
  if c = newline ∨ c = ctrlD ∨ s.e - s.r = 128 then { s with w := s.e } else s

/-- `consoleintr`, without the echo. -/
def consoleintr (s : Cons) (c : UInt8) : Cons :=
  if c = 16 then s
  else if c = 21 then killLine (count s.w s.e) s
  else if c = 8 ∨ c = 127 then (if s.e ≠ s.w then { s with e := s.e - 1 } else s)
  else if c ≠ 0 ∧ s.e - s.r < 128 then s.append (stored c) else s

end Cons

/-- How a stretch of `consoleread` ends. -/
inductive ReadEnd
  /-- asleep, with `left` bytes still wanted -/
  | asleep (left : ℕ)
  /-- about to return `v` -/
  | done (v : ℤ)
  deriving DecidableEq

/-- A byte taken from the buffer, with the number of the call it was given to, if any. -/
abbrev Taken := Option ℕ × UInt8

/-- The loop of `consoleread` in the call `id` of `target` bytes, when the loop has `n` bytes to go:
`killed` is the mark of the process, `ok i` says whether the copy of byte `i` succeeds. -/
def readLoop (id target : ℕ) (killed : Bool) (ok : ℕ → Bool) :
    ℕ → Cons → List Taken → Cons × List Taken × ReadEnd
  | 0, s, l => (s, l, .done target)
  | n + 1, s, l =>
    if s.r = s.w then (s, l, if killed then .done (-1) else .asleep (n + 1))
    else
      let c := s.buf (slot inputBufSize s.r)
      let next := { s with r := s.r + 1 }
      if c = ctrlD then
        -- left for the next call if this one has bytes to return
        if n + 1 < target then ({ next with r := next.r - 1 }, l, .done (target - (n + 1)))
        else (next, l ++ [(none, c)], .done (target - (n + 1)))
      else if ok (target - (n + 1)) then
        if c = newline then (next, l ++ [(some id, c)], .done (target - n))
        else readLoop id target killed ok n next (l ++ [(some id, c)])
      else (next, l ++ [(none, c)], .done (target - (n + 1)))

/-! ### What the buffer is for -/

/-- The line that is being edited, and all bytes committed so far. -/
structure Editor where
  committed : List UInt8
  line : List UInt8

/-- A character for the editor, when `unread` of the committed bytes have not been read. -/
def Editor.key (ed : Editor) (unread : ℕ) (c : UInt8) : Editor :=
  if c = 16 then ed
  else if c = 21 then { ed with line := [] }
  else if c = 8 ∨ c = 127 then { ed with line := ed.line.dropLast }
  else if c ≠ 0 ∧ unread + ed.line.length < inputBufSize then
    let line := ed.line ++ [Cons.stored c]
    if IsEnd (Cons.stored c) ∨ unread + line.length = inputBufSize then
      ⟨ed.committed ++ line, []⟩
    else { ed with line := line }
  else ed

/-! ### The machine -/

/-- A call of `consoleread` in progress. -/
structure Reading where
  id : ℕ
  target : ℕ
  left : ℕ

/-- The console, the calls in progress, the number of calls so far, the bytes taken from the buffer,
the results of the calls that have returned, and the editor. -/
structure Console (ι : Type*) where
  cons : Cons
  reader : ι → Option Reading
  calls : ℕ
  taken : List Taken
  results : List (ℕ × ℤ)
  ed : Editor

/-- What can happen next. -/
inductive ConsAct (ι : Type*)
  | intr (c : UInt8)
  /-- a process calls `consoleread` with the size `n`; the loop does not turn if `n` is negative -/
  | call (p : ι) (n : ℤ)
  /-- a process in `consoleread` acquires the lock and goes on -/
  | run (p : ι) (killed : Bool) (ok : ℕ → Bool)

namespace Console

variable {ι : Type*} [DecidableEq ι]

/-- The process `p` in another call, or in none. -/
def setReader (s : Console ι) (p : ι) (rd : Option Reading) : Console ι :=
  { s with reader := update s.reader p rd }

/-- The end of a stretch of the call `rd` of the process `p`. -/
def finish (s : Console ι) (p : ι) (rd : Reading) : ReadEnd → Console ι
  | .asleep left => s.setReader p (some { rd with left := left })
  | .done v => { s.setReader p none with results := s.results ++ [(rd.id, v)] }

def act (s : Console ι) : ConsAct ι → Option (Console ι)
  | .intr c => some { s with
      cons := s.cons.consoleintr c
      ed := s.ed.key (s.ed.committed.length - s.taken.length) c }
  | .call p n =>
    if (s.reader p).isNone then
      some { s.setReader p (some ⟨s.calls, n.toNat, n.toNat⟩) with calls := s.calls + 1 }
    else none
  | .run p killed ok =>
    (s.reader p).map fun rd =>
      let (cons, taken, stop) := readLoop rd.id rd.target killed ok rd.left s.cons s.taken
      { s with cons := cons, taken := taken }.finish p rd stop

/-- The console after `consoleinit`. -/
def init : Console ι where
  cons := ⟨fun _ => 0, 0, 0, 0⟩
  reader _ := none
  calls := 0
  taken := []
  results := []
  ed := ⟨[], []⟩

/-- The copies to user space succeed. -/
def Copies : ConsAct ι → Prop
  | .run _ _ ok => ∀ i, ok i = true
  | _ => True

/-- The runs in which all copies succeed. -/
def Run : Console ι → Console ι → Prop :=
  Relation.ReflTransGen fun s s' => ∃ a, Copies a ∧ s.act a = some s'

end Console

/-! ### The buffer -/

/-- The indices are in order, a full buffer has been committed, and the buffer holds the unread
bytes and the line of the editor. -/
structure Cons.Holds (s : Cons) (ed : Editor) (taken : List Taken) : Prop where
  bound : count s.r s.w + count s.w s.e ≤ inputBufSize
  full : count s.r s.w + count s.w s.e = inputBufSize → s.w = s.e
  line : queue inputBufSize s.buf s.w s.e = ed.line
  plain : ∀ c ∈ ed.line, ¬ IsEnd c
  stream : ed.committed = taken.map Prod.snd ++ queue inputBufSize s.buf s.r s.w

namespace Cons

variable {s : Cons} {ed : Editor} {taken : List Taken}

lemma inputBufSize_dvd : inputBufSize ∣ 2 ^ 32 := by decide

lemma inputBufSize_lt : inputBufSize + 1 < 2 ^ 32 := by decide

lemma killLine_eq {n : ℕ} (hn : count s.w s.e = n)
    (hplain : newline ∉ queue inputBufSize s.buf s.w s.e) : killLine n s = { s with e := s.w } := by
  induction n generalizing s with
  | zero =>
    have he : s.e = s.w := (count_eq_zero.mp hn).symm
    exact congrArg (fun e => { s with e := e }) he
  | succ n ih =>
    have hne : s.w ≠ s.e := fun he => by
      rw [count_eq_zero.mpr he] at hn
      cases hn
    rw [queue_unpush hne, List.mem_append, not_or, List.mem_singleton] at hplain
    have hcount := count_pred_right hne
    rw [killLine, if_pos ⟨hne.symm, Ne.symm hplain.2⟩]
    exact ih (s := { s with e := s.e - 1 }) (by change count s.w (s.e - 1) = n; omega) hplain.1

namespace Holds

section

variable (h : s.Holds ed taken)

include h

lemma count_eq : count s.r s.e = count s.r s.w + count s.w s.e := by
  have := h.bound
  have := inputBufSize_lt
  exact count_trans (by omega)

lemma length_line : ed.line.length = count s.w s.e := by
  rw [← h.line, length_queue]

lemma unread : ed.committed.length - taken.length = count s.r s.w := by
  rw [h.stream, List.length_append, List.length_map, length_queue, Nat.add_sub_cancel_left]

lemma shrink {e : UInt32} {line : List UInt8} (hcount : count s.w e ≤ count s.w s.e)
    (hne : count s.w e = count s.w s.e → e = s.e) (hline : queue inputBufSize s.buf s.w e = line)
    (hsub : ∀ c ∈ line, c ∈ ed.line) : Holds { s with e := e } { ed with line := line } taken where
  bound := by
    have := h.bound
    change count s.r s.w + count s.w e ≤ _
    omega
  full := by
    intro hfull
    have hfull' : count s.r s.w + count s.w e = inputBufSize := hfull
    have hb := h.bound
    have he := hne (by omega)
    change s.w = e
    rw [he] at hfull' ⊢
    exact h.full hfull'
  line := hline
  plain c hc := h.plain c (hsub c hc)
  stream := h.stream

lemma append (c : UInt8) (hroom : count s.r s.w + ed.line.length < inputBufSize) :
    (s.append c).Holds
      (if IsEnd c ∨ count s.r s.w + (ed.line ++ [c]).length = inputBufSize then
        ⟨ed.committed ++ (ed.line ++ [c]), []⟩ else { ed with line := ed.line ++ [c] }) taken := by
  rw [h.length_line] at hroom
  have hlt := inputBufSize_lt
  have hcount : count s.w (s.e + 1) = count s.w s.e + 1 := count_succ_right (by omega)
  have hcount' : count s.r (s.e + 1) = count s.r s.w + count s.w s.e + 1 := by
    rw [count_trans (w := s.w) (by omega), hcount, add_assoc]
  have hpush : queue inputBufSize (update s.buf (slot inputBufSize s.e) c) s.w (s.e + 1) =
      queue inputBufSize s.buf s.w s.e ++ [c] :=
    queue_push inputBufSize_dvd (by omega) (by omega) c
  have hsame : queue inputBufSize (update s.buf (slot inputBufSize s.e) c) s.r s.w =
      queue inputBufSize s.buf s.r s.w :=
    queue_update inputBufSize_dvd hroom (by omega) c
  have hlen : count s.r s.w + (ed.line ++ [c]).length = count s.r (s.e + 1) := by
    rw [List.length_append, h.length_line, List.length_singleton, hcount', add_assoc]
  have htest : s.e + 1 - s.r = 128 ↔ count s.r (s.e + 1) = inputBufSize := by
    rw [count, inputBufSize, ← UInt32.toNat_inj]
    rfl
  have hcond : (c = newline ∨ c = ctrlD ∨ s.e + 1 - s.r = 128) ↔
      IsEnd c ∨ count s.r s.w + (ed.line ++ [c]).length = inputBufSize := by
    rw [htest, hlen, IsEnd, or_assoc]
  rw [h.line] at hpush
  rw [Cons.append]
  by_cases hcommit : IsEnd c ∨ count s.r s.w + (ed.line ++ [c]).length = inputBufSize
  · rw [if_pos hcommit]
    dsimp only
    rw [if_pos (hcond.mpr hcommit)]
    refine ⟨?_, fun _ => rfl, ?_, fun c hc => absurd hc List.not_mem_nil, ?_⟩
    · change count s.r (s.e + 1) + count (s.e + 1) (s.e + 1) ≤ _
      rw [count_self]
      omega
    · exact queue_eq_nil.mpr rfl
    · change ed.committed ++ (ed.line ++ [c]) = _ ++ queue _ _ s.r (s.e + 1)
      rw [queue_split (w := s.w) (by omega), hsame, hpush, h.stream, List.append_assoc]
  · rw [if_neg hcommit]
    dsimp only
    rw [if_neg fun hc => hcommit (hcond.mp hc)]
    refine ⟨?_, fun hfull => absurd ?_ hcommit, hpush, fun d hd => ?_, ?_⟩
    · change count s.r s.w + count s.w (s.e + 1) ≤ _
      omega
    · have hfull' : count s.r s.w + count s.w (s.e + 1) = inputBufSize := hfull
      exact .inr (by omega)
    · rcases List.mem_append.mp hd with hd | hd
      · exact h.plain d hd
      · rw [List.mem_singleton.mp hd]
        exact fun hend => hcommit (.inl hend)
    · exact h.stream.trans (by rw [← hsame])

/-- **`consoleintr`** does to the buffer what the editor does to its lists. -/
lemma intr (c : UInt8) :
    (s.consoleintr c).Holds (ed.key (ed.committed.length - taken.length) c) taken := by
  rw [h.unread, consoleintr, Editor.key]
  by_cases hp : c = 16
  · rw [if_pos hp, if_pos hp]
    exact h
  rw [if_neg hp, if_neg hp]
  by_cases hu : c = 21
  · have hplain : newline ∉ queue inputBufSize s.buf s.w s.e := fun hmem =>
      h.plain _ (h.line ▸ hmem) (.inl rfl)
    rw [if_pos hu, if_pos hu, killLine_eq rfl hplain]
    exact h.shrink (by rw [count_self]; exact Nat.zero_le _)
      (fun he => count_eq_zero.mp (by rw [← he, count_self])) (queue_eq_nil.mpr rfl) (by simp)
  rw [if_neg hu, if_neg hu]
  by_cases hback : c = 8 ∨ c = 127
  · rw [if_pos hback, if_pos hback]
    by_cases hne : s.e = s.w
    · have hnil : ed.line = [] := by rw [← h.line, queue_eq_nil, hne]
      rw [if_neg (not_not.mpr hne), hnil, List.dropLast_nil, ← hnil]
      exact h
    · have hcount := count_pred_right (Ne.symm hne)
      rw [if_pos hne]
      refine h.shrink (by omega) (fun he => by omega) ?_ fun c hc => List.mem_of_mem_dropLast hc
      rw [← h.line, queue_unpush (Ne.symm hne), List.dropLast_concat]
  rw [if_neg hback, if_neg hback]
  have htest : s.e - s.r < 128 ↔ count s.r s.w + ed.line.length < inputBufSize := by
    rw [h.length_line, ← h.count_eq, UInt32.lt_iff_toNat_lt]
    rfl
  by_cases hroom : c ≠ 0 ∧ s.e - s.r < 128
  · rw [if_pos hroom, if_pos ⟨hroom.1, htest.mp hroom.2⟩]
    exact h.append (stored c) (htest.mp hroom.2)
  · rw [if_neg hroom, if_neg fun hr => hroom ⟨hr.1, htest.mpr hr.2⟩]
    exact h

lemma erase {c : UInt8} (hc : c = 21 ∨ c = 8 ∨ c = 127) : ∃ e, s.consoleintr c = { s with e := e } ∧
      queue inputBufSize s.buf s.w e <+: queue inputBufSize s.buf s.w s.e := by
  rcases hc with rfl | hc
  · have hplain : newline ∉ queue inputBufSize s.buf s.w s.e := fun hmem =>
      h.plain _ (h.line ▸ hmem) (.inl rfl)
    refine ⟨s.w, killLine_eq rfl hplain, ?_⟩
    rw [queue_eq_nil.mpr rfl]
    exact List.nil_prefix
  · have hne : c ≠ 16 ∧ c ≠ 21 := by rcases hc with rfl | rfl <;> decide
    rw [consoleintr, if_neg hne.1, if_neg hne.2, if_pos hc]
    by_cases hew : s.e = s.w
    · rw [if_neg (not_not.mpr hew)]
      exact ⟨s.e, rfl, List.prefix_rfl⟩
    · rw [if_pos hew]
      refine ⟨s.e - 1, rfl, ?_⟩
      rw [queue_unpush (Ne.symm hew)]
      exact List.prefix_append _ _

lemma take (hne : s.r ≠ s.w) (o : Option ℕ) :
    Holds { s with r := s.r + 1 } ed (taken ++ [(o, s.buf (slot inputBufSize s.r))]) where
  bound := by
    have hcount := count_succ_left hne
    have hb := h.bound
    change count (s.r + 1) s.w + count s.w s.e ≤ _
    omega
  full := by
    intro hfull
    have hfull' : count (s.r + 1) s.w + count s.w s.e = inputBufSize := hfull
    have hcount := count_succ_left hne
    have hb := h.bound
    omega
  __ := h
  stream := by
    rw [h.stream, queue_pop hne, List.map_append, List.append_assoc]
    rfl

end

end Holds

end Cons

/-! ### Reading -/

section Loop

variable {id target n : ℕ} {killed : Bool} {ok : ℕ → Bool} {s : Cons} {l : List Taken}

/-- The rule for the loop of `consoleread`, when the copies succeed: `P` is its invariant and `R`
what holds at its end. -/
lemma readLoop_rule {P : ℕ → Cons → List Taken → Prop} {R : Cons → List Taken → ReadEnd → Prop}
    (hok : ∀ i, ok i = true)
    (hnone : ∀ s l, P 0 s l → R s l (.done target))
    (hwait : ∀ n s l, P (n + 1) s l → s.r = s.w →
      R s l (if killed then .done (-1) else .asleep (n + 1)))
    (hlater : ∀ n s l, P (n + 1) s l → s.r ≠ s.w → s.buf (slot inputBufSize s.r) = ctrlD →
      n + 1 < target → R s l (.done (target - (n + 1))))
    (heof : ∀ n s l, P (n + 1) s l → s.r ≠ s.w → s.buf (slot inputBufSize s.r) = ctrlD →
      target ≤ n + 1 →
      R { s with r := s.r + 1 } (l ++ [(none, ctrlD)]) (.done (target - (n + 1))))
    (hline : ∀ n s l, P (n + 1) s l → s.r ≠ s.w → s.buf (slot inputBufSize s.r) = newline →
      R { s with r := s.r + 1 } (l ++ [(some id, newline)]) (.done (target - n)))
    (htake : ∀ n s l c, P (n + 1) s l → s.r ≠ s.w → s.buf (slot inputBufSize s.r) = c →
      ¬ IsEnd c → P n { s with r := s.r + 1 } (l ++ [(some id, c)]))
    (h : P n s l) :
    R (readLoop id target killed ok n s l).1 (readLoop id target killed ok n s l).2.1
      (readLoop id target killed ok n s l).2.2 := by
  induction n generalizing s l with
  | zero => exact hnone s l h
  | succ n ih =>
    rw [readLoop]
    by_cases hrw : s.r = s.w
    · rw [if_pos hrw]
      exact hwait n s l h hrw
    · rw [if_neg hrw]
      dsimp only
      rw [if_pos (hok _)]
      by_cases hd : s.buf (slot inputBufSize s.r) = ctrlD
      · rw [if_pos hd]
        by_cases hlt : n + 1 < target
        · rw [if_pos hlt]
          have hback : s.r + 1 - 1 = s.r := UInt32.add_sub_cancel s.r 1
          dsimp only
          rw [hback]
          exact hlater n s l h hrw hd hlt
        · rw [if_neg hlt, hd]
          exact heof n s l h hrw hd (not_lt.mp hlt)
      · rw [if_neg hd]
        by_cases hnl : s.buf (slot inputBufSize s.r) = newline
        · rw [if_pos hnl, hnl]
          exact hline n s l h hrw hnl
        · rw [if_neg hnl]
          exact ih (htake n s l _ h hrw rfl fun hend => hend.elim hnl hd)

lemma readLoop_holds {ed : Editor} (hok : ∀ i, ok i = true) (h : s.Holds ed l) :
    (readLoop id target killed ok n s l).1.Holds ed (readLoop id target killed ok n s l).2.1 := by
  refine readLoop_rule (P := fun _ s l => s.Holds ed l) (R := fun s l _ => s.Holds ed l) hok
    (fun _ _ h => h) (fun _ _ _ h _ => h) (fun _ _ _ h _ _ _ => h) ?_ ?_ ?_ h
  · intro n s l h hne hc _
    have htake := h.take hne none
    rwa [hc] at htake
  · intro n s l h hne hc
    have htake := h.take hne (some id)
    rwa [hc] at htake
  · intro n s l c h hne hc _
    have htake := h.take hne (some id)
    rwa [hc] at htake

lemma readLoop_of_eq (h : s.r = s.w) : (readLoop id target killed ok n s l).2.1 = l := by
  cases n with
  | zero => rfl
  | succ n => rw [readLoop, if_pos h]

/-- How many bytes the call `k` has been given. -/
def given (k : ℕ) (l : List Taken) : ℕ := l.countP fun x => x.1 = some k

lemma given_append (k : ℕ) (l : List Taken) (x : Taken) :
    given k (l ++ [x]) = given k l + if x.1 = some k then 1 else 0 := by
  rw [given, given, List.countP_append, List.countP_singleton]
  by_cases hx : x.1 = some k <;> simp [hx]

/-- Every byte that is not given to a call is an end-of-file. -/
def Marked (l : List Taken) : Prop := ∀ x ∈ l, x.1 = none ↔ x.2 = ctrlD

variable {x : Taken}

lemma Marked.append {l : List Taken} (h : Marked l) (hx : x.1 = none ↔ x.2 = ctrlD) :
    Marked (l ++ [x]) := by
  intro y hy
  rcases List.mem_append.mp hy with hy | hy
  · exact h y hy
  · rw [List.mem_singleton.mp hy]
    exact hx

/-- What a stretch of the call `id` gives to the calls: nothing to others, and to itself what it
reports. -/
structure Serves (id target : ℕ) (l l' : List Taken) (stop : ReadEnd) : Prop where
  others : ∀ k, k ≠ id → given k l' = given k l
  asleep : ∀ left, stop = .asleep left → left ≤ target ∧ given id l' = target - left
  done : ∀ v, stop = .done v → v = -1 ∨ v = given id l'
  marked : Marked l'

lemma readLoop_serves (hok : ∀ i, ok i = true) (hn : n ≤ target) (hgiven : given id l = target - n)
    (hmarked : Marked l) :
    Serves id target l (readLoop id target killed ok n s l).2.1
      (readLoop id target killed ok n s l).2.2 := by
  refine readLoop_rule (P := fun m _ l' => (∀ k, k ≠ id → given k l' = given k l) ∧ m ≤ target ∧
      given id l' = target - m ∧ Marked l')
    (R := fun _ l' stop => Serves id target l l' stop) hok ?_ ?_ ?_ ?_ ?_ ?_
    ⟨fun _ _ => rfl, hn, hgiven, hmarked⟩
  · rintro s l' ⟨hothers, hm, hg, hmark⟩
    refine ⟨hothers, nofun, fun v hv => .inr ?_, hmark⟩
    cases hv
    rw [hg, Nat.sub_zero]
  · rintro m s l' ⟨hothers, hm, hg, hmark⟩ -
    refine ⟨hothers, fun left hleft => ?_, fun v hv => .inl ?_, hmark⟩
    · split_ifs at hleft
      cases hleft
      exact ⟨hm, hg⟩
    · split_ifs at hv
      cases hv
      rfl
  · rintro m s l' ⟨hothers, hm, hg, hmark⟩ - - -
    refine ⟨hothers, nofun, fun v hv => .inr ?_, hmark⟩
    cases hv
    omega
  · rintro m s l' ⟨hothers, hm, hg, hmark⟩ - - hle
    have hsame : ∀ k, given k (l' ++ [(none, ctrlD)]) = given k l' := fun k => by
      rw [given_append]
      rfl
    refine ⟨fun k hk => (hsame k).trans (hothers k hk), nofun, fun v hv => .inr ?_,
      hmark.append (by simp)⟩
    cases hv
    rw [hsame]
    omega
  · rintro m s l' ⟨hothers, hm, hg, hmark⟩ - -
    refine ⟨fun k hk => ?_, nofun, fun v hv => .inr ?_, hmark.append (by simp; decide)⟩
    · rw [given_append, if_neg fun he => hk (Option.some.inj he).symm, hothers k hk, add_zero]
    · cases hv
      rw [given_append, if_pos rfl]
      omega
  · rintro m s l' c ⟨hothers, hm, hg, hmark⟩ - - hc
    refine ⟨fun k hk => ?_, by omega, ?_, hmark.append ?_⟩
    · rw [given_append, if_neg fun he => hk (Option.some.inj he).symm, hothers k hk, add_zero]
    · rw [given_append, if_pos rfl]
      omega
    · exact iff_of_false nofun fun he => hc (.inr he)

/-! ### Lines -/

/-- The number of the line that a byte belongs to: how many ends of lines were taken before it. -/
def lineOf (l : List Taken) (i : ℕ) : ℕ := (l.take i).countP fun x => IsEnd x.2

/-- No call has been given bytes of two lines. -/
def OneLine (l : List Taken) : Prop :=
  ∀ k i j c d, l[i]? = some (some k, c) → l[j]? = some (some k, d) → lineOf l i = lineOf l j

/-- What the call `k` has been given belongs to the line that has not ended yet. -/
def Current (k : ℕ) (l : List Taken) : Prop :=
  ∀ i c, l[i]? = some (some k, c) → lineOf l i = lineOf l l.length

lemma lineOf_append {i : ℕ} (hi : i ≤ l.length) : lineOf (l ++ [x]) i = lineOf l i := by
  rw [lineOf, lineOf, List.take_append_of_le_length hi]

lemma getElem?_concat {y : Taken} {i : ℕ} (h : (l ++ [x])[i]? = some y) :
    i < l.length ∧ l[i]? = some y ∨ i = l.length ∧ x = y := by
  rcases lt_trichotomy i l.length with hi | hi | hi
  · rw [List.getElem?_append_left hi] at h
    exact .inl ⟨hi, h⟩
  · rw [hi, List.getElem?_concat_length] at h
    exact .inr ⟨hi, Option.some.inj h⟩
  · rw [List.getElem?_eq_none (by rw [List.length_append, List.length_singleton]; omega)] at h
    cases h

lemma OneLine.append (h : OneLine l) (hx : ∀ k, x.1 = some k → Current k l) :
    OneLine (l ++ [x]) := by
  intro k i j c d hi hj
  rcases getElem?_concat hi with ⟨hil, hi'⟩ | ⟨rfl, rfl⟩
  · rw [lineOf_append hil.le]
    rcases getElem?_concat hj with ⟨hjl, hj'⟩ | ⟨rfl, rfl⟩
    · rw [lineOf_append hjl.le]
      exact h k i j c d hi' hj'
    · rw [lineOf_append le_rfl]
      exact hx k rfl i c hi'
  · rw [lineOf_append le_rfl]
    rcases getElem?_concat hj with ⟨hjl, hj'⟩ | ⟨rfl, -⟩
    · rw [lineOf_append hjl.le]
      exact (hx k rfl j d hj').symm
    · rw [lineOf_append le_rfl]

lemma Current.append {k : ℕ} (h : Current k l) (hx : ¬ IsEnd x.2) : Current k (l ++ [x]) := by
  have hlen : lineOf (l ++ [x]) (l ++ [x]).length = lineOf l l.length := by
    rw [lineOf, lineOf, List.take_length, List.take_length, List.countP_append,
      List.countP_singleton, if_neg (by simpa using hx), add_zero]
  intro i c hi
  rw [hlen]
  rcases getElem?_concat hi with ⟨hil, hi⟩ | ⟨rfl, -⟩
  · rw [lineOf_append hil.le]
    exact h i c hi
  · rw [lineOf_append le_rfl]

lemma current_of_given {k : ℕ} (h : given k l = 0) : Current k l := by
  intro i c hi
  have hmem := List.mem_of_getElem? hi
  exact absurd (List.countP_eq_zero.mp h _ hmem) (by simp)

lemma readLoop_lines (hok : ∀ i, ok i = true) (h : OneLine l) (hcur : Current id l) :
    OneLine (readLoop id target killed ok n s l).2.1 ∧
      ∀ left, (readLoop id target killed ok n s l).2.2 = .asleep left →
        Current id (readLoop id target killed ok n s l).2.1 := by
  refine readLoop_rule (P := fun _ _ l => OneLine l ∧ Current id l)
    (R := fun _ l stop => OneLine l ∧ ∀ left, stop = .asleep left → Current id l) hok ?_ ?_ ?_ ?_
    ?_ ?_ ⟨h, hcur⟩
  · exact fun s l h => ⟨h.1, fun _ _ => h.2⟩
  · exact fun n s l h _ => ⟨h.1, fun _ _ => h.2⟩
  · exact fun n s l h _ _ _ => ⟨h.1, fun _ _ => h.2⟩
  · exact fun n s l h _ _ _ => ⟨h.1.append nofun, nofun⟩
  · refine fun n s l h _ _ => ⟨h.1.append fun k hk => ?_, nofun⟩
    cases hk
    exact h.2
  · refine fun n s l c h _ _ hc => ⟨h.1.append fun k hk => ?_, h.2.append hc⟩
    cases hk
    exact h.2

end Loop

/-! ### Whole runs -/

namespace Console

variable {ι : Type*} [DecidableEq ι] {s s' : Console ι} {a : ConsAct ι}

/-- The invariant of the machine: the buffer, the bytes given to the calls in progress and to those
that have returned. -/
structure ConsInv (s : Console ι) : Prop where
  holds : s.cons.Holds s.ed s.taken
  marked : Marked s.taken
  reading : ∀ p rd, s.reader p = some rd →
    rd.id < s.calls ∧ rd.left ≤ rd.target ∧ given rd.id s.taken = rd.target - rd.left
  distinct : ∀ p q rd rd', s.reader p = some rd → s.reader q = some rd' → rd.id = rd'.id → p = q
  fresh : ∀ k, s.calls ≤ k → given k s.taken = 0
  returned : ∀ k v, (k, v) ∈ s.results → k < s.calls ∧
    (∀ p rd, s.reader p = some rd → rd.id ≠ k) ∧ (v = -1 ∨ v = given k s.taken)

omit [DecidableEq ι] in
lemma consInv_init : ConsInv (init : Console ι) where
  holds := ⟨(congrArg₂ (· + ·) (count_self 0) (count_self 0)).trans_le (Nat.zero_le _),
    fun _ => rfl, queue_eq_nil.mpr rfl, fun _ hc => absurd hc List.not_mem_nil,
    (queue_eq_nil.mpr rfl).symm⟩
  marked _ hx := absurd hx List.not_mem_nil
  reading _ _ h := by cases h
  distinct _ _ _ _ h := by cases h
  fresh _ _ := rfl
  returned _ _ h := absurd h List.not_mem_nil

lemma setReader_cases {p q : ι} {rd : Option Reading} {rd' : Reading}
    (h : (s.setReader p rd).reader q = some rd') :
    q = p ∧ rd = some rd' ∨ q ≠ p ∧ s.reader q = some rd' :=
  Upd.cases id h

lemma ConsInv.call (h : s.ConsInv) (p : ι) (n : ℕ) :
    ConsInv { s.setReader p (some ⟨s.calls, n, n⟩) with calls := s.calls + 1 } := by
  have hlt : ∀ q rd, s.reader q = some rd → rd.id < s.calls := fun q rd hq => (h.reading q rd hq).1
  refine ⟨h.holds, h.marked, fun q rd hq => ?_, fun q q' rd rd' hq hq' hid => ?_,
    fun k hk => h.fresh k (Nat.le_of_succ_le hk), fun k v hkv => ?_⟩
  · rcases setReader_cases hq with ⟨-, hrd⟩ | ⟨-, hold⟩
    · cases hrd
      exact ⟨Nat.lt_succ_self _, le_rfl, (h.fresh _ le_rfl).trans (Nat.sub_self n).symm⟩
    · exact ⟨Nat.lt_succ_of_lt (hlt q rd hold), (h.reading q rd hold).2⟩
  · rcases setReader_cases hq with ⟨hqp, hrd⟩ | ⟨-, hold⟩ <;>
      rcases setReader_cases hq' with ⟨hqp', hrd'⟩ | ⟨-, hold'⟩
    · exact hqp.trans hqp'.symm
    · cases hrd
      exact absurd (hlt q' rd' hold') (not_lt.mpr hid.le)
    · cases hrd'
      exact absurd (hlt q rd hold) (not_lt.mpr hid.ge)
    · exact h.distinct q q' rd rd' hold hold' hid
  · obtain ⟨hk, hne, hv⟩ := h.returned k v hkv
    refine ⟨Nat.lt_succ_of_lt hk, fun q rd hq => ?_, hv⟩
    rcases setReader_cases hq with ⟨-, hrd⟩ | ⟨-, hold⟩
    · cases hrd
      exact hk.ne'
    · exact hne q rd hold

lemma ConsInv.finish (h : s.ConsInv) {p : ι} {rd : Reading} (hp : s.reader p = some rd)
    {cons : Cons} {taken : List Taken} {stop : ReadEnd} (hholds : cons.Holds s.ed taken)
    (hserves : Serves rd.id rd.target s.taken taken stop) :
    ConsInv (({ s with cons := cons, taken := taken } : Console ι).finish p rd stop) := by
  have hlt := (h.reading p rd hp).1
  have hfresh : ∀ k, s.calls ≤ k → given k taken = 0 := fun k hk => by
    rw [hserves.others k (by omega)]
    exact h.fresh k hk
  -- the other calls in progress are given nothing
  have hother : ∀ q rd', q ≠ p → s.reader q = some rd' → rd'.id ≠ rd.id ∧
      rd'.id < s.calls ∧ rd'.left ≤ rd'.target ∧ given rd'.id taken = rd'.target - rd'.left := by
    intro q rd' hqp hq
    have hne : rd'.id ≠ rd.id := fun he => hqp (h.distinct q p rd' rd hq hp he)
    obtain ⟨hlt', hle, hg⟩ := h.reading q rd' hq
    exact ⟨hne, hlt', hle, (hserves.others _ hne).trans hg⟩
  have hreturned : ∀ k v, (k, v) ∈ s.results → k ≠ rd.id ∧ k < s.calls ∧
      (∀ q rd', s.reader q = some rd' → rd'.id ≠ k) ∧ (v = -1 ∨ v = given k taken) := by
    intro k v hkv
    obtain ⟨hk, hne, hv⟩ := h.returned k v hkv
    have hkid : k ≠ rd.id := (hne p rd hp).symm
    exact ⟨hkid, hk, hne, by rwa [hserves.others k hkid]⟩
  cases stop with
  | asleep left =>
    obtain ⟨hle, hg⟩ := hserves.asleep left rfl
    refine ⟨hholds, hserves.marked, fun q rd' hq => ?_, fun q q' rd1 rd2 hq hq' hid => ?_, hfresh,
      fun k v hkv => ?_⟩
    · rcases setReader_cases hq with ⟨-, hrd⟩ | ⟨hqp, hold⟩
      · cases hrd
        exact ⟨hlt, hle, hg⟩
      · exact (hother q rd' hqp hold).2
    · rcases setReader_cases hq with ⟨hqp, hrd⟩ | ⟨hqp, hold⟩ <;>
        rcases setReader_cases hq' with ⟨hqp', hrd'⟩ | ⟨hqp', hold'⟩
      · exact hqp.trans hqp'.symm
      · cases hrd
        exact absurd hid.symm (hother q' rd2 hqp' hold').1
      · cases hrd'
        exact absurd hid (hother q rd1 hqp hold).1
      · exact h.distinct q q' rd1 rd2 hold hold' hid
    · obtain ⟨hkid, hk, hne, hv⟩ := hreturned k v hkv
      refine ⟨hk, fun q rd' hq => ?_, hv⟩
      rcases setReader_cases hq with ⟨-, hrd⟩ | ⟨-, hold⟩
      · cases hrd
        exact hkid.symm
      · exact hne q rd' hold
  | done v =>
    -- only the calls of the other processes are left
    have hleft : ∀ q rd', (s.setReader p none).reader q = some rd' →
        q ≠ p ∧ s.reader q = some rd' := by
      intro q rd' hq
      rcases setReader_cases hq with ⟨-, hrd⟩ | hold
      · cases hrd
      · exact hold
    refine ⟨hholds, hserves.marked, fun q rd' hq => ?_, fun q q' rd1 rd2 hq hq' hid => ?_, hfresh,
      fun k v' hkv => ?_⟩
    · obtain ⟨hqp, hold⟩ := hleft q rd' hq
      exact (hother q rd' hqp hold).2
    · exact h.distinct q q' rd1 rd2 (hleft q rd1 hq).2 (hleft q' rd2 hq').2 hid
    · rcases List.mem_append.mp hkv with hkv | hkv
      · obtain ⟨-, hk, hne, hv⟩ := hreturned k v' hkv
        exact ⟨hk, fun q rd' hq => hne q rd' (hleft q rd' hq).2, hv⟩
      · obtain ⟨rfl, rfl⟩ := Prod.mk.inj (List.mem_singleton.mp hkv)
        refine ⟨hlt, fun q rd' hq => ?_, hserves.done v' rfl⟩
        obtain ⟨hqp, hold⟩ := hleft q rd' hq
        exact (hother q rd' hqp hold).1

/-- **Every step** keeps the invariant. -/
lemma ConsInv.step (h : s.ConsInv) (hcopies : Copies a) (ha : s.act a = some s') : s'.ConsInv := by
  cases a with
  | intr c =>
    cases ha
    exact { h with holds := h.holds.intr c }
  | call p n =>
    rw [act] at ha
    split_ifs at ha
    cases ha
    exact h.call p n.toNat
  | run p killed ok =>
    obtain ⟨rd, hp, rfl⟩ := Option.map_eq_some_iff.mp ha
    obtain ⟨-, hle, hg⟩ := h.reading p rd hp
    exact h.finish hp (readLoop_holds hcopies h.holds) (readLoop_serves hcopies hle hg h.marked)

lemma Run.consInv (hrun : Run init s) : s.ConsInv := by
  induction hrun with
  | refl => exact consInv_init
  | tail _ hstep ih =>
    obtain ⟨a, hcopies, ha⟩ := hstep
    exact ih.step hcopies ha

/-- No call takes bytes while another one is in the middle of a line. -/
def Turns (s : Console ι) : ConsAct ι → Prop
  | .run p _ _ => s.cons.r ≠ s.cons.w → ∀ q rd, q ≠ p → s.reader q = some rd → rd.left = rd.target
  | _ => True

/-- The runs in which readers take turns. -/
def TurnRun : Console ι → Console ι → Prop :=
  Relation.ReflTransGen fun s s' => ∃ a, Copies a ∧ s.Turns a ∧ s.act a = some s'

lemma TurnRun.run (h : TurnRun s s') : Run s s' :=
  Relation.ReflTransGen.mono (fun _ _ ⟨a, hc, _, ha⟩ => ⟨a, hc, ha⟩) _ _ h

/-- No call has been given bytes of two lines, and those in progress have bytes of the current
one. -/
structure Lines (s : Console ι) : Prop where
  oneLine : OneLine s.taken
  current : ∀ p rd, s.reader p = some rd → Current rd.id s.taken

/-- **Every step** of a run in which readers take turns keeps the lines apart. -/
lemma Lines.step (h : s.Lines) (hinv : s.ConsInv) (hcopies : Copies a) (hturns : s.Turns a)
    (ha : s.act a = some s') : s'.Lines := by
  cases a with
  | intr c =>
    cases ha
    exact ⟨h.oneLine, h.current⟩
  | call p n =>
    rw [act] at ha
    split_ifs at ha
    cases ha
    refine ⟨h.oneLine, fun q rd hq => ?_⟩
    rcases setReader_cases hq with ⟨-, hrd⟩ | ⟨-, hold⟩
    · cases hrd
      exact current_of_given (hinv.fresh _ le_rfl)
    · exact h.current q rd hold
  | run p killed ok =>
    obtain ⟨rd, hp, rfl⟩ := Option.map_eq_some_iff.mp ha
    obtain ⟨-, hle, hg⟩ := hinv.reading p rd hp
    obtain ⟨hone, hcur⟩ : OneLine (readLoop rd.id rd.target killed ok rd.left s.cons s.taken).2.1 ∧
        ∀ left, (readLoop rd.id rd.target killed ok rd.left s.cons s.taken).2.2 = .asleep left →
          Current rd.id (readLoop rd.id rd.target killed ok rd.left s.cons s.taken).2.1 :=
      readLoop_lines hcopies h.oneLine (h.current p rd hp)
    -- the other calls have been given nothing, or there is nothing to be read
    have hothers : ∀ q rd', q ≠ p → s.reader q = some rd' →
        Current rd'.id (readLoop rd.id rd.target killed ok rd.left s.cons s.taken).2.1 := by
      intro q rd' hqp hq
      by_cases hrw : s.cons.r = s.cons.w
      · rw [readLoop_of_eq hrw]
        exact h.current q rd' hq
      · have hne : rd'.id ≠ rd.id := fun he => hqp (hinv.distinct q p rd' rd hq hp he)
        have hgiven := (hinv.reading q rd' hq).2.2
        rw [hturns hrw q rd' hqp hq, Nat.sub_self] at hgiven
        exact current_of_given
          (((readLoop_serves hcopies hle hg hinv.marked).others _ hne).trans hgiven)
    cases hstop : (readLoop rd.id rd.target killed ok rd.left s.cons s.taken).2.2 with
    | asleep left =>
      dsimp only
      rw [hstop]
      refine ⟨hone, fun q rd' hq => ?_⟩
      rcases setReader_cases hq with ⟨-, hrd⟩ | ⟨hqp, hold⟩
      · cases hrd
        exact hcur left hstop
      · exact hothers q rd' hqp hold
    | done v =>
      dsimp only
      rw [hstop]
      refine ⟨hone, fun q rd' hq => ?_⟩
      rcases setReader_cases hq with ⟨-, hrd⟩ | ⟨hqp, hold⟩
      · cases hrd
      · exact hothers q rd' hqp hold

lemma TurnRun.lines (hrun : TurnRun init s) : s.Lines := by
  induction hrun with
  | refl => exact ⟨fun k i j c d hi => by simp [init] at hi, fun p rd hp => by cases hp⟩
  | tail hrun hstep ih =>
    obtain ⟨a, hcopies, hturns, ha⟩ := hstep
    exact ih.step (TurnRun.run hrun).consInv hcopies hturns ha

lemma TurnRun.of_acts [Subsingleton ι] {acts : List (ConsAct ι)} (hcopies : ∀ a ∈ acts, Copies a)
    (h : acts.foldlM act s = some s') : TurnRun s s' := by
  refine Transition.run_of_foldlM (fun a ha s t ht => ⟨a, hcopies a ha, ?_, ht⟩) h
  cases a with
  | run p _ _ => exact fun _ q _ hqp => absurd (Subsingleton.elim q p) hqp
  | intr c => trivial
  | call p n => trivial

lemma Run.of_acts {acts : List (ConsAct ι)} (hcopies : ∀ a ∈ acts, Copies a)
    (h : acts.foldlM act s = some s') : Run s s' :=
  Transition.run_of_foldlM (fun a ha _ _ ht => ⟨a, hcopies a ha, ht⟩) h

/-- The reader `p` goes on. -/
def go {ι : Type*} (p : ι) : ConsAct ι := .run p false fun _ => true

/-- A line longer than the buffer, of which one reader takes the beginning and another one the
end. -/
def sharedLine : List (ConsAct Bool) :=
  .call false 200 :: List.replicate 128 (.intr 97) ++
    [go false, .call true 10, go true, .intr 98, .intr 10, go true, .intr 99, .intr 10, go false]

lemma copies_sharedLine : ∀ a ∈ sharedLine, Copies a := by
  intro a ha
  simp only [sharedLine, List.cons_append, List.mem_cons, List.mem_append, List.not_mem_nil,
    or_false] at ha
  rcases ha with rfl | ha | rfl | rfl | rfl | rfl | rfl | rfl | rfl | rfl | rfl
  any_goals exact trivial
  · rw [List.eq_of_mem_replicate ha]
    trivial
  all_goals exact fun _ => rfl

end Console

end Xv6Riscv
