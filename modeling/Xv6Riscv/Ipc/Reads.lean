import Xv6Riscv.Dev.Console
import Xv6Riscv.Ipc.Pipe

/-!
What `consoleread` and `piperead` remove from their buffers.

Both copy one byte at a time to user space, and the copy may fail at any address. `piperead`
advances `nread` after the copy, `consoleread` advances `cons.r` before it. A call of `consoleread`
is a sequence of stretches with `cons.lock`, with a sleep between any two of them; whatever happens
to the console during a sleep, the call finds some state of it, some mark `killed` and some
addresses that are valid.

* `Delivers`: every byte that the call is to deliver has a valid address, and the process is not
  killed while it waits for more.
* `removed_eq_iff`: the call removes what it reports exactly then.
* `PipeSys.Counts`: a call of `piperead` has removed what it is going to report, in every run.
* `reads_consume`: both. `bytes_lost`: reads that lose bytes.
-/

namespace Xv6Riscv

open Ring

/-! ### `consoleread` -/

/-- What `consoleread` finds when it acquires the lock: the console, the mark `killed` of the
process, and which bytes of the request can be copied. -/
structure Stretch where
  cons : Cons
  killed : Bool
  ok : ℕ → Bool

/-- The bytes that can be read. -/
def Cons.unread (s : Cons) : List UInt8 := queue inputBufSize s.buf s.r s.w

/-- `consoleread` of `target` bytes, of which `left` are to go: the bytes it removes from the buffer
and its result, `none` as long as it sleeps. -/
def consoleread (target : ℕ) : ℕ → List Stretch → List UInt8 × Option ℤ
  | _, [] => ([], none)
  | left, st :: sts =>
    match readLoop 0 target st.killed st.ok left st.cons [] with
    | (s, _, .done v) => (queue inputBufSize st.cons.buf st.cons.r s.r, some v)
    | (s, _, .asleep left') =>
      let (bytes, v) := consoleread target left' sts
      (queue inputBufSize st.cons.buf st.cons.r s.r ++ bytes, v)

/-- The data bytes among those removed; a control-D ends a call. -/
def dataBytes (l : List UInt8) : ℕ := l.countP fun c => c ≠ ctrlD

/-- How many bytes a result reports as delivered. -/
def reported (v : ℤ) : ℕ := v.toNat

/-- How many of the bytes that can be read belong to a call with `left` bytes to go: they end with a
newline, before a control-D, or when there are enough. -/
def wanted : ℕ → List UInt8 → ℕ
  | 0, _ | _ + 1, [] => 0
  | n + 1, c :: q => if c = ctrlD then 0 else if c = newline then 1 else wanted n q + 1

/-- The call needs more bytes than there are. -/
def Waits : ℕ → List UInt8 → Prop
  | 0, _ => False
  | _ + 1, [] => True
  | n + 1, c :: q => ¬ IsEnd c ∧ Waits n q

/-- The bytes that belong to the call can be copied. -/
def Copyable (target n : ℕ) (q : List UInt8) (ok : ℕ → Bool) : Prop :=
  ∀ i < wanted n q, ok (target - n + i) = true

/-- All bytes of the call can be copied, and the process is not killed when it has to wait after the
first of them. -/
def Delivers (target : ℕ) : ℕ → List Stretch → Prop
  | _, [] => True
  | left, st :: sts => Copyable target left st.cons.unread st.ok ∧
      (Waits left st.cons.unread →
        if st.killed then left - wanted left st.cons.unread = target
        else Delivers target (left - wanted left st.cons.unread) sts)

section

variable {id target n : ℕ} {killed : Bool} {ok : ℕ → Bool} {s : Cons} {l : List Taken}

lemma readLoop_removes (id target n : ℕ) (killed : Bool) (ok : ℕ → Bool) (s : Cons)
    (l : List Taken) : ∃ xs, (readLoop id target killed ok n s l).2.1 = l ++ xs ∧
    count s.r (readLoop id target killed ok n s l).1.r ≤ count s.r s.w ∧
    queue inputBufSize s.buf s.r (readLoop id target killed ok n s l).1.r = xs.map Prod.snd := by
  have hself : ∀ r : UInt32, queue inputBufSize s.buf r r = [] := fun r => queue_eq_nil.mpr rfl
  induction n generalizing s l with
  | zero => exact ⟨[], (List.append_nil l).symm, by simp [readLoop], hself _⟩
  | succ n ih =>
    by_cases hrw : s.r = s.w
    · rw [readLoop, if_pos hrw]
      exact ⟨[], (List.append_nil l).symm, by simp, hself _⟩
    -- one byte is removed, and then those of the rest of the loop
    have hone : ∀ r' : UInt32, count (s.r + 1) r' ≤ count (s.r + 1) s.w →
        count s.r r' ≤ count s.r s.w ∧ queue inputBufSize s.buf s.r r' =
          s.buf (slot inputBufSize s.r) :: queue inputBufSize s.buf (s.r + 1) r' := by
      intro r' hle
      have hcount := count_succ_left hrw
      have hlt := count_lt s.r s.w
      have hne : s.r ≠ r' := by
        rintro rfl
        have hback : count (s.r + 1) s.r = 2 ^ 32 - 1 := by
          have hr := s.r.toNat_lt
          rw [count, UInt32.toNat_sub, UInt32.toNat_add, UInt32.toNat_one]
          omega
        omega
      exact ⟨by rw [count_succ_left hne]; omega, queue_pop hne⟩
    have hzero : count (s.r + 1) (s.r + 1) ≤ count (s.r + 1) s.w := by simp
    have hlast : ∀ x : Option ℕ, ∃ xs, l ++ [(x, s.buf (slot inputBufSize s.r))] = l ++ xs ∧
        count s.r (s.r + 1) ≤ count s.r s.w ∧
        queue inputBufSize s.buf s.r (s.r + 1) = xs.map Prod.snd := by
      intro x
      obtain ⟨hle, hq⟩ := hone _ hzero
      exact ⟨_, rfl, hle, by rw [hq, hself]; rfl⟩
    rw [readLoop, if_neg hrw]
    dsimp only
    split_ifs with hd hlt hok hnl
    · have hback : s.r + 1 - 1 = s.r := UInt32.add_sub_cancel s.r 1
      dsimp only
      rw [hback]
      exact ⟨[], (List.append_nil l).symm, by simp, hself _⟩
    · exact hlast _
    · exact hlast _
    · obtain ⟨xs, hxs, hle, hq⟩ := ih { s with r := s.r + 1 }
        (l ++ [(some id, s.buf (slot inputBufSize s.r))]) hself
      obtain ⟨hle', hq'⟩ := hone _ hle
      refine ⟨(some id, s.buf (slot inputBufSize s.r)) :: xs, ?_, hle', ?_⟩
      · rw [hxs, List.append_assoc]
        rfl
      · rw [hq']
        exact congrArg _ hq
    · exact hlast _

/-- How a stretch ends when `n` bytes were to go and `q` could be read: asleep, or with a result.
The call has removed `data` bytes. -/
def Outcome (target n : ℕ) (q : List UInt8) (killed : Bool) (ok : ℕ → Bool) (data : ℕ) :
    ReadEnd → Prop
  | .asleep left => Copyable target n q ok ∧ Waits n q ∧ killed = false ∧ left = n - wanted n q ∧
      data = target - left
  | .done v => (Copyable target n q ok → Waits n q → killed = true) ∧
      (data = reported v ↔ Copyable target n q ok ∧ (Waits n q → n - wanted n q = target))

lemma Outcome.cons {c : UInt8} {q : List UInt8} {data : ℕ} {stop : ReadEnd} (hn : n + 1 ≤ target)
    (hc : ¬ IsEnd c) (hok : ok (target - (n + 1)) = true)
    (h : Outcome target n q killed ok data stop) :
    Outcome target (n + 1) (c :: q) killed ok data stop := by
  have hwanted : wanted (n + 1) (c :: q) = wanted n q + 1 := by
    rw [wanted, if_neg fun hd => hc (.inr hd), if_neg fun hl => hc (.inl hl)]
  have hwaits : Waits (n + 1) (c :: q) ↔ Waits n q := and_iff_right hc
  have hcopied : Copyable target (n + 1) (c :: q) ok ↔ Copyable target n q ok := by
    rw [Copyable, Copyable, hwanted, Nat.forall_lt_succ_left]
    have hshift : ∀ i, target - (n + 1) + (i + 1) = target - n + i := fun i => by omega
    simp only [hshift, Nat.add_zero, hok, true_and]
  cases stop with
  | asleep left =>
    obtain ⟨h1, h2, h3, h4, h5⟩ := h
    exact ⟨hcopied.mpr h1, hwaits.mpr h2, h3, by rw [hwanted, h4]; omega, h5⟩
  | done v =>
    have h' : (Copyable target n q ok → Waits n q → killed = true) ∧
      (data = reported v ↔ Copyable target n q ok ∧ (Waits n q → n - wanted n q = target)) := h
    rw [Outcome, hcopied, hwaits, hwanted, Nat.add_sub_add_right]
    exact h'

/-- **One stretch**, when `d` bytes have been removed before. -/
lemma readLoop_outcome {d : ℕ} (hn : n ≤ target)
    (hl : d + dataBytes (l.map Prod.snd) = target - n) :
    Outcome target n s.unread killed ok
      (d + dataBytes ((readLoop id target killed ok n s l).2.1.map Prod.snd))
      (readLoop id target killed ok n s l).2.2 := by
  have happend : ∀ (l : List Taken) (x : Taken), dataBytes ((l ++ [x]).map Prod.snd) =
      dataBytes (l.map Prod.snd) + if x.2 = ctrlD then 0 else 1 := by
    intro l x
    rw [dataBytes, dataBytes, List.map_append, List.countP_append]
    by_cases hx : x.2 = ctrlD <;> simp [hx]
  induction n generalizing s l with
  | zero => exact ⟨nofun, iff_of_true hl ⟨nofun, nofun⟩⟩
  | succ n ih =>
    by_cases hrw : s.r = s.w
    · have hq : s.unread = [] := queue_eq_nil.mpr hrw
      have hcopied : Copyable target (n + 1) [] ok := nofun
      rw [readLoop, if_pos hrw, hq]
      cases killed with
      | false => exact ⟨hcopied, trivial, rfl, rfl, hl⟩
      | true =>
        refine ⟨fun _ _ => rfl, ?_⟩
        change d + dataBytes (l.map Prod.snd) = 0 ↔ _
        rw [hl, wanted]
        exact ⟨fun h0 => ⟨hcopied, fun _ => by omega⟩, fun h => by have := h.2 trivial; omega⟩
    have hq : s.unread = s.buf (slot inputBufSize s.r) :: Cons.unread { s with r := s.r + 1 } :=
      queue_pop hrw
    have hreported : reported (target - (n + 1)) = target - (n + 1) := by
      rw [reported]
      omega
    rw [readLoop, if_neg hrw, hq]
    dsimp only
    by_cases hd : s.buf (slot inputBufSize s.r) = ctrlD
    · -- the call ends, and a control-D is no data
      have hright : Copyable target (n + 1) (s.buf (slot inputBufSize s.r) ::
          Cons.unread { s with r := s.r + 1 }) ok ∧ ¬ Waits (n + 1)
            (s.buf (slot inputBufSize s.r) :: Cons.unread { s with r := s.r + 1 }) := by
        refine ⟨fun i hi => ?_, fun hw => hw.1 (.inr hd)⟩
        rw [wanted, if_pos hd] at hi
        exact absurd hi (Nat.not_lt_zero i)
      rw [if_pos hd]
      split_ifs with hlt
      · exact ⟨fun _ hw => absurd hw hright.2, iff_of_true (hl.trans hreported.symm)
          ⟨hright.1, fun hw => absurd hw hright.2⟩⟩
      · refine ⟨fun _ hw => absurd hw hright.2, iff_of_true ?_
          ⟨hright.1, fun hw => absurd hw hright.2⟩⟩
        rw [happend, if_pos hd, Nat.add_zero, hl, hreported]
    · rw [if_neg hd]
      have hpos : 0 < wanted (n + 1) (s.buf (slot inputBufSize s.r) ::
          Cons.unread { s with r := s.r + 1 }) := by
        rw [wanted, if_neg hd]
        split_ifs
        · exact Nat.one_pos
        · exact Nat.succ_pos _
      by_cases hok : ok (target - (n + 1)) = true
      · rw [if_pos hok]
        have hdata : ∀ x : Option ℕ,
            d + dataBytes ((l ++ [(x, s.buf (slot inputBufSize s.r))]).map Prod.snd) =
              target - n := by
          intro x
          rw [happend, if_neg hd, ← Nat.add_assoc, hl]
          omega
        by_cases hnl : s.buf (slot inputBufSize s.r) = newline
        · rw [if_pos hnl]
          refine ⟨fun _ hw => absurd (.inl hnl) hw.1, iff_of_true ((hdata _).trans ?_)
            ⟨fun i hi => ?_, fun hw => absurd (.inl hnl) hw.1⟩⟩
          · rw [reported]
            omega
          · rw [wanted, if_neg hd, if_pos hnl] at hi
            have hi0 : i = 0 := by omega
            rw [hi0, Nat.add_zero, hok]
        · rw [if_neg hnl]
          exact (ih (Nat.le_of_succ_le hn) (hdata _)).cons hn (fun he => he.elim hnl hd) hok
      · -- the byte is gone, but it is not reported
        rw [if_neg hok]
        refine ⟨fun hc => absurd (hc 0 hpos) hok, iff_of_false ?_ fun h => hok (h.1 0 hpos)⟩
        rw [happend, if_neg hd, ← Nat.add_assoc, hl, hreported]
        omega

/-- **A whole call** removes what it reports exactly if it can deliver its bytes. -/
lemma removed_eq_iff {left : ℕ} {sts : List Stretch} {bytes : List UInt8} {v : ℤ}
    (hn : left ≤ target) (h : consoleread target left sts = (bytes, some v)) :
    target - left + dataBytes bytes = reported v ↔ Delivers target left sts := by
  induction sts generalizing left bytes with
  | nil => cases h
  | cons st sts ih =>
    obtain ⟨xs, hxs, -, hq⟩ :=
      readLoop_removes 0 target left st.killed st.ok st.cons []
    have hout : Outcome target left st.cons.unread st.killed st.ok
        (target - left + dataBytes ((readLoop 0 target st.killed st.ok left st.cons []).2.1.map
          Prod.snd)) (readLoop 0 target st.killed st.ok left st.cons []).2.2 :=
      readLoop_outcome hn rfl
    rw [hxs, List.nil_append, ← hq] at hout
    rw [consoleread] at h
    rw [Delivers]
    split at h
    · rename_i s l v' heq
      rw [heq] at hout
      cases h
      obtain ⟨hkilled, hiff⟩ := hout
      refine hiff.trans (and_congr_right fun hcopied => forall_congr' fun hwaits => ?_)
      rw [if_pos (hkilled hcopied hwaits)]
    · rename_i s l left' heq
      rw [heq] at hout
      obtain ⟨hcopied, hwaits, hkilled, rfl, hdata⟩ := hout
      -- the call goes on when it is woken up
      cases hrest : consoleread target (left - wanted left st.cons.unread) sts with
      | mk bytes' r =>
        rw [hrest] at h
        cases h
        have hih := ih ((Nat.sub_le _ _).trans hn) hrest
        rw [hkilled, dataBytes, List.countP_append, ← dataBytes, ← dataBytes, ← Nat.add_assoc,
          hdata, hih]
        exact ⟨fun hd => ⟨hcopied, fun _ => hd⟩, fun hd => hd.2 hwaits⟩

end

/-! ### `piperead` -/

namespace PipeSys

/-- The bytes each process has removed from the buffer since it began its call. -/
def removedBy (s s' : PipeSys) (g : Slot → ℕ) : PipeAct → Slot → ℕ
  | .call p _ => Function.update g p 0
  | .step p _ => Function.update g p (g p + count s.pi.nread s'.pi.nread)
  | .table _ => g

/-- The runs, with the bytes removed. -/
def CountedRun : PipeSys × (Slot → ℕ) → PipeSys × (Slot → ℕ) → Prop :=
  Relation.ReflTransGen fun x y => ∃ a, x.1.act a = some y.1 ∧ y.2 = removedBy x.1 y.1 x.2 a

/-- What a call of `piperead` has removed at each point. -/
def Counts (m : ℕ) : PipePc → Prop
  | .enter (.read _) | .waiting _ | .registering _ | .prepared (.read _) | .asleep (.read _) =>
    m = 0
  | .copying _ i => m = i
  | .ending _ _ (.read _ r) => m = reported r
  | _ => True

variable {s s' : PipeSys} {p q : Slot} {g : Slot → ℕ}

lemma counts_locked {m : ℕ} {c : PipeCall} (h : Counts m (.enter c)) : Counts m c.locked := by
  cases c with
  | read n => exact h
  | write n i | close w => trivial

/-- **One step of a call.** -/
lemma Counts.moves (h : Counts (g p) (s.pc p)) (hstep : Moves s p s') :
    Counts (g p + count s.pi.nread s'.pi.nread) (s'.pc p) := by
  -- all steps but one leave the buffer alone
  have hstays : ∀ {t : PipeSys} {pc : PipePc}, t.pi.nread = s.pi.nread → t.pc p = pc →
      Counts (g p) pc → Counts (g p + count s.pi.nread t.pi.nread) (t.pc p) := by
    intro t pc hnread hpc hc
    rw [hnread, count_self, hpc]
    exact hc
  cases hstep with
  | enter c hpc hlock =>
    rw [hpc] at h
    exact hstays rfl (goto_self _) (counts_locked h)
  | writeOver n i b hpc | copyinFails n i b hpc | writeStop n i b hpc | waitStop n hpc
  | writeFull n i b hpc hro hfull | writeGo n i b hpc | put n i b ch hpc | fullWake n i j hpc
  | fullPrepare n i j hpc hj | endReturn f j r hpc hj => exact hstays rfl (goto_self _) trivial
  | waitGo n hpc he hw | waitPrepare n hpc | waitOver n hpc hw | copyOver n i hpc hover =>
    rw [hpc] at h
    exact hstays rfl (goto_self _) h
  | copyoutFails n i hpc =>
    rw [hpc] at h
    have hi : g p = i := h
    refine hstays rfl (goto_self _) ?_
    change g p = reported (copyFailed i)
    rw [hi, copyFailed, reported]
    split_ifs <;> omega
  | take n i hpc he =>
    rw [hpc] at h
    have hone : count s.pi.nread (s.pi.nread + 1) = 1 :=
      count_add_nat (r := s.pi.nread) (n := 1) (by norm_num)
    change Counts (g p + count s.pi.nread (s.pi.nread + 1)) ((s.goto p (.copying n (i + 1))).pc p)
    rw [hone, goto_self]
    exact congrArg (· + 1) h
  | close w hpc => exact hstays (by cases w <;> rfl) (goto_self _) trivial
  | release c hpc | sleep c hpc =>
    rw [hpc] at h
    refine hstays rfl (goto_self _) ?_
    cases c with
    | read n => exact h
    | write n i | close w => trivial
  | endWake f j r hpc =>
    rw [hpc] at h
    refine hstays rfl (goto_self _) ?_
    cases r with
    | read n r => exact h
    | write r | close => trivial

lemma Moves.pc_of_ne (h : Moves s p s') (hq : q ≠ p) : s'.pc q = s.pc q := by
  cases h <;> exact goto_of_ne _ hq

/-- **One action.** -/
lemma counts_act {a : PipeAct} (h : ∀ p, Counts (g p) (s.pc p)) (ha : s.act a = some s')
    (q : Slot) : Counts (removedBy s s' g a q) (s'.pc q) := by
  cases a with
  | call p c =>
    rw [act] at ha
    split_ifs at ha
    cases ha
    rw [removedBy]
    rcases eq_or_ne q p with rfl | hq
    · rw [Function.update_self, goto_self]
      cases c with
      | read n => exact rfl
      | write n i | close w => trivial
    · rw [Function.update_of_ne hq, goto_of_ne _ hq]
      exact h q
  | step p u =>
    rw [act] at ha
    split_ifs at ha
    have hmoves := Moves.of_next ha
    rw [removedBy]
    rcases eq_or_ne q p with rfl | hq
    · rw [Function.update_self]
      exact (h q).moves hmoves
    · rw [Function.update_of_ne hq, hmoves.pc_of_ne hq]
      exact h q
  | table o =>
    rw [act] at ha
    split_ifs at ha
    cases ha
    exact h q

lemma CountedRun.counts {x y : PipeSys × (Slot → ℕ)} (hrun : CountedRun x y)
    (hx : ∀ p, x.1.pc p = .out) (p : Slot) : Counts (y.2 p) (y.1.pc p) := by
  induction hrun generalizing p with
  | refl =>
    rw [hx p]
    trivial
  | tail _ hstep ih =>
    obtain ⟨a, ha, hg⟩ := hstep
    rw [hg]
    exact counts_act ih ha p

end PipeSys

/-! ### The results -/

/-- **Blocking reads consume what they report.** A call of `consoleread` removes as many data bytes
as its result reports if and only if all bytes that belong to it can be copied and the process is
not killed in the middle. A call of `piperead` has removed as many bytes as it is going to report,
and none where it may return -1 because the process is killed. -/
theorem reads_consume (n : ℤ) (sts : List Stretch) :
    (∀ bytes v, consoleread n.toNat n.toNat sts = (bytes, some v) →
      (dataBytes bytes = reported v ↔ Delivers n.toNat n.toNat sts)) ∧
    ∀ s g s' g', PipeSys.CountedRun (s, g) (s', g') → (∀ p, s.pc p = .out) →
      (∀ p n, s'.pc p = .waiting n → g' p = 0) ∧
      ∀ p f j n r, s'.pc p = .ending f j (.read n r) → g' p = reported r := by
  refine ⟨fun bytes v h => ?_, fun s g s' g' hrun hout => ?_⟩
  · have hiff := removed_eq_iff (le_refl n.toNat) h
    rwa [Nat.sub_self, Nat.zero_add] at hiff
  · have hcounts := hrun.counts hout
    constructor
    · intro p n hpc
      have hp := hcounts p
      rw [hpc] at hp
      exact hp
    · intro p f j n r hpc
      have hp := hcounts p
      rw [hpc] at hp
      exact hp

/-- The console after a line of one character has been typed. -/
def oneLine : Cons := ((⟨fun _ => 0, 0, 0, 0⟩ : Cons).consoleintr 97).consoleintr newline

/-- A read of the line, with a valid buffer. -/
theorem reads_consume_line :
    consoleread 2 2 [⟨oneLine, false, fun _ => true⟩] = ([97, newline], some 2) ∧
      (dataBytes [97, newline] = reported 2 ↔ Delivers 2 2 [⟨oneLine, false, fun _ => true⟩]) := by
  have hread : consoleread 2 2 [⟨oneLine, false, fun _ => true⟩] = ([97, newline], some 2) := by
    decide +kernel
  exact ⟨hread, (reads_consume 2 _).1 _ _ hread⟩

/-- The console after 128 characters have been typed. -/
def fullBuffer : Cons :=
  (List.replicate 128 97).foldl Cons.consoleintr (⟨fun _ => 0, 0, 0, 0⟩ : Cons)

/-- **Bytes are lost**: a read with a bad buffer returns 0 and has removed a byte; a process that
has read the whole buffer and is killed while it waits for the rest of the line is told -1. -/
theorem bytes_lost :
    consoleread 1 1 [⟨oneLine, false, fun _ => false⟩] = ([97], some 0) ∧
    consoleread 200 200 [⟨fullBuffer, true, fun _ => true⟩] =
      (List.replicate 128 97, some (-1)) := by
  constructor
  · decide +kernel
  · decide +kernel

end Xv6Riscv
