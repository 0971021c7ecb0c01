import Xv6Riscv.Smp.Edges

/-!
The selectors under interference.

A CPU in a selector drops the lock of each slot after it has looked at it, so the table can change
between two slots and between the scan and the second look at the candidate. What one CPU sees of a
run is a `Caller`: the table, its cursors and its own program counter. Its own steps are edges of
`scheduler`; in between anything may happen to the table. Runs of the machine are such runs
(`Step.caller`).

* `mlfq_selection_under_interference`: the answer of `mlfq_select_next` has a level no larger than
  any slot that stayed runnable at its level until the return. It is not enough that it did so
  during the scan (`mlfq_selection_promoted_after_scan`).
* `priority_selection_under_interference`: the same for `priority_select_next`, as long as nobody
  lowers the priority of the candidate; `priority_selection_lowered` shows that the selector would
  not notice.
* `rr_bounded_bypass`: `rr_select_next` comes nearer to a waiting slot with every answer.
-/

namespace Xv6Riscv

open Function (update update_idem update_of_ne update_self)
open Cyclic

/-- What a CPU sees of a run: the table, its cursors and where it is in `scheduler`. -/
structure Caller where
  k : Kernel
  cur : Cursors
  pc : CpuPc

/-- In `mlfq_select_next`. -/
def CpuPc.InMlfq : CpuPc → Prop
  | mlfqScan _ _ _ | mlfqCheck _ _ => True
  | _ => False

instance : DecidablePred CpuPc.InMlfq
  | .mlfqScan _ _ _ | .mlfqCheck _ _ => .isTrue trivial
  | .loop | .rrScan _ _ | .priorityScan _ _ _ | .priorityCheck _ | .selected _ | .dispatched _
  | .entered _ | .inProc _ | .back _ | .releasing _ => .isFalse id

/-- In `priority_select_next`. -/
def CpuPc.InPriority : CpuPc → Prop
  | priorityScan _ _ _ | priorityCheck _ => True
  | _ => False

instance : DecidablePred CpuPc.InPriority
  | .priorityScan _ _ _ | .priorityCheck _ => .isTrue trivial
  | .loop | .rrScan _ _ | .mlfqScan _ _ _ | .mlfqCheck _ _ | .selected _ | .dispatched _
  | .entered _ | .inProc _ | .back _ | .releasing _ => .isFalse id

namespace Caller

/-- A step of a run as the CPU sees it, with the answer of a selector if there is one. -/
inductive Step (a : Caller) : Option (SchedPolicy × Slot) → Caller → Prop
  /-- the CPU goes on -/
  | own {mv : Move} {pc : CpuPc} (h : SchedEdge a.k a.cur a.pc mv pc) :
      Step a mv.selects
        ⟨mv.op.elim a.k a.k.apply, mv.selects.elim a.cur fun (pol, b) => a.cur.moved b pol, pc⟩
  /-- anything happens to the table -/
  | other (k : Kernel) : Step a none { a with k := k }
  /-- the process the CPU runs gives it up -/
  | swtch (k : Kernel) {p : Slot} (h : a.pc = .inProc p) :
      Step a none { a with k := k, pc := .back p }

variable {a b : Caller} {sel : Option (SchedPolicy × Slot)} {q p : Slot} {l : ℤ}

/-! ### MLFQ -/

/-- A scan that has passed `q` has found a level of at most `l`, and so has the answer. -/
def MlfqBound (q : Slot) (l : ℤ) (a : Caller) : Prop :=
  match a.pc with
  | .mlfqScan s off best => dist s q < off → best.2 ≤ l
  | .mlfqCheck _ v => v ≤ l
  | .selected p => (a.k.proc p).queueLevel ≤ l
  | _ => True

lemma mlfqExamine_le (r : Proc) (i : Slot) (best : Best) : (mlfqExamine r i best).2 ≤ best.2 := by
  rw [mlfqExamine]
  split_ifs with h
  · exact h.2.le
  · exact le_rfl

lemma mlfqExamine_le_level {r : Proc} (i : Slot) (best : Best) (hr : r.state = .runnable) :
    (mlfqExamine r i best).2 ≤ r.queueLevel := by
  rw [mlfqExamine]
  split_ifs with h
  · exact le_rfl
  · exact not_lt.mp fun hlt => h ⟨hr, hlt⟩

/-- **One step of an MLFQ scan**, after which `q` is runnable at level `l`. -/
lemma Step.mlfqBound (h : a.Step sel b) (hin : a.pc.InMlfq) (ha : a.MlfqBound q l)
    (hrun : (b.k.proc q).state = .runnable) (hlev : (b.k.proc q).queueLevel = l) :
    b.MlfqBound q l := by
  cases h with
  | other k =>
    rw [MlfqBound] at ha ⊢
    cases hpc : a.pc with
    | selected p =>
      rw [hpc] at hin
      exact hin.elim
    | _ =>
      rw [hpc] at ha
      exact ha
  | swtch k hp =>
    rw [hp] at hin
    exact hin.elim
  | own h =>
    obtain ⟨k, cur, pc⟩ := a
    cases h with
    | @mlfqNext s off best hoff =>
      intro hd
      rcases Nat.lt_succ_iff_lt_or_eq.mp hd with hlt | heq
      · exact (mlfqExamine_le _ _ _).trans (ha hlt)
      · -- `q` has just been examined
        have hq : place s off = q := by rw [← heq, place_dist]
        have hproc : (k.apply (.age (place s off))).proc q = aged k q := by
          rw [apply_age_proc, if_pos hq, aged]
        change ((k.apply (.age (place s off))).proc q).state = .runnable at hrun
        change ((k.apply (.age (place s off))).proc q).queueLevel = l at hlev
        rw [hproc] at hrun hlev
        rw [hq, ← hlev]
        exact mlfqExamine_le_level q best hrun
    | mlfqNone => trivial
    | @mlfqBest s b v => exact ha (dist_lt s q)
    | @mlfqTake b v hr hv =>
      change ((k.apply (.age b)).proc b).queueLevel ≤ l
      rw [apply_age_proc, if_pos rfl]
      exact hv.trans ha
    | mlfqRetry => exact fun hd => absurd hd (Nat.not_lt_zero _)
    | _ => exact hin.elim

/-! ### Static priorities -/

/-- A scan that has passed `q` has found a priority of at least `l`. If its candidate is `p`, that
was a priority of `p`, which has not been lowered since. -/
def PriorityBound (p q : Slot) (l : ℤ) (a : Caller) : Prop :=
  match a.pc with
  | .priorityScan s off best =>
    (dist s q < off → best.1 ≠ none ∧ l ≤ best.2) ∧
      (best.1 = some p → best.2 ≤ (a.k.proc p).priority)
  | .priorityCheck b => b = p → l ≤ (a.k.proc p).priority
  | .selected b => b = p → l ≤ (a.k.proc p).priority
  | _ => True

lemma le_priorityExamine (r : Proc) (i : Slot) {best : Best} (hbest : best.1 ≠ none)
    (hl : l ≤ best.2) : (priorityExamine r i best).1 ≠ none ∧ l ≤ (priorityExamine r i best).2 := by
  rw [priorityExamine]
  split_ifs with h
  · exact ⟨Option.some_ne_none i, (hl.trans_lt (h.2.resolve_left hbest)).le⟩
  · exact ⟨hbest, hl⟩

lemma priority_le_priorityExamine {r : Proc} (i : Slot) (best : Best) (hr : r.state = .runnable) :
    (priorityExamine r i best).1 ≠ none ∧ r.priority ≤ (priorityExamine r i best).2 := by
  rw [priorityExamine]
  split_ifs with h
  · exact ⟨Option.some_ne_none i, le_rfl⟩
  · push Not at h
    exact ⟨(h hr).1, (h hr).2⟩

/-- **One step of a static-priority scan**, before which `q` is runnable with priority `l`, and in
which the priority of `p` is not lowered. -/
lemma Step.priorityBound (h : a.Step sel b) (hin : a.pc.InPriority) (ha : a.PriorityBound p q l)
    (hrun : (a.k.proc q).state = .runnable) (hprio : (a.k.proc q).priority = l)
    (hkeep : (a.k.proc p).priority ≤ (b.k.proc p).priority) : b.PriorityBound p q l := by
  cases h with
  | other k =>
    rw [PriorityBound] at ha ⊢
    cases hpc : a.pc with
    | priorityScan s off best =>
      rw [hpc] at ha
      exact ⟨ha.1, fun hb => (ha.2 hb).trans hkeep⟩
    | priorityCheck b | selected b =>
      rw [hpc] at ha
      exact fun hb => (ha hb).trans hkeep
    | _ => trivial
  | swtch k hp =>
    rw [hp] at hin
    exact hin.elim
  | own h =>
    obtain ⟨k, cur, pc⟩ := a
    cases h with
    | @priorityNext s off best hoff =>
      refine ⟨fun hd => ?_, fun hb => ?_⟩
      · rcases Nat.lt_succ_iff_lt_or_eq.mp hd with hlt | heq
        · exact le_priorityExamine _ _ (ha.1 hlt).1 (ha.1 hlt).2
        · have hq : place s off = q := by rw [← heq, place_dist]
          rw [hq, ← hprio]
          exact priority_le_priorityExamine q best hrun
      · change (priorityExamine (k.proc (place s off)) (place s off) best).2 ≤ (k.proc p).priority
        rw [priorityExamine] at hb ⊢
        split_ifs at hb ⊢ with hex
        · rw [← Option.some.inj hb]
        · exact ha.2 hb
    | priorityNone => trivial
    | @priorityBest s b v =>
      rintro rfl
      exact (ha.1 (dist_lt s q)).2.trans (ha.2 rfl)
    | priorityTake hr => exact ha
    | priorityRetry =>
      exact ⟨fun hd => absurd hd (Nat.not_lt_zero _), by simp⟩
    | _ => exact hin.elim

/-! ### Round robin -/

/-- A scan has begun at the cursor and has not passed `i`. -/
def RrBound (i : Slot) (a : Caller) : Prop :=
  match a.pc with
  | .rrScan s off => s = a.cur.rr ∧ off ≤ dist s i
  | _ => True

/-- What is assumed of a step: if it is the examination of `i` by `rr_select_next`, which moves the
program counter, then `i` is runnable; and `i` is not the answer. -/
structure Waiting (i : Slot) (a : Caller) (sel : Option (SchedPolicy × Slot)) (b : Caller) :
    Prop where
  runnable : ∀ s off, a.pc = .rrScan s off → off < nproc → place s off = i → b.pc ≠ a.pc →
    (a.k.proc i).state = .runnable
  passed : sel ≠ some (.rr, i)

/-- **One step while `i` waits**: an answer of `rr_select_next` lies before `i`, and the cursor
moves behind it; other steps leave the cursor. -/
lemma Step.rrBound {i : Slot} (h : a.Step sel b) (hw : Waiting i a sel b) (ha : a.RrBound i) :
    b.RrBound i ∧
      ((∃ r, sel = some (.rr, r) ∧ r ≠ i ∧ dist r i ≤ dist a.cur.rr i ∧ b.cur.rr = next r) ∨
        (∀ r, sel ≠ some (.rr, r)) ∧ b.cur.rr = a.cur.rr) := by
  cases h with
  | other k => exact ⟨ha, .inr ⟨nofun, rfl⟩⟩
  | swtch k hp => exact ⟨trivial, .inr ⟨nofun, rfl⟩⟩
  | own h =>
    obtain ⟨k, cur, pc⟩ := a
    cases h with
    | startRr _ => exact ⟨⟨rfl, Nat.zero_le _⟩, .inr ⟨nofun, rfl⟩⟩
    | @rrTake s off hoff hr =>
      have hs : s = cur.rr := ha.1
      have hle : off ≤ dist s i := ha.2
      subst hs
      have hne : place cur.rr off ≠ i := fun he => hw.passed (by rw [he])
      have hadd := dist_add (s := cur.rr) (j := place cur.rr off) (i := i)
        (by rw [dist_place _ hoff]; exact hle)
      refine ⟨trivial, .inl ⟨_, rfl, hne, ?_, rfl⟩⟩
      change dist (place cur.rr off) i ≤ dist cur.rr i
      omega
    | @rrNext s off hoff hr =>
      obtain ⟨hs, hle⟩ := ha
      refine ⟨⟨hs, ?_⟩, .inr ⟨nofun, rfl⟩⟩
      -- `i` itself is not passed: it would be runnable
      refine lt_of_le_of_ne hle fun heq => hr ?_
      have hplace : place s off = i := by rw [heq, place_dist]
      rw [hplace]
      refine hw.runnable s off rfl hoff hplace ?_
      simp
    | _ => exact ⟨trivial, .inr ⟨nofun, rfl⟩⟩

/-- The answers of `rr_select_next` in the first `n` steps. -/
def rrAnswers (sel : ℕ → Option (SchedPolicy × Slot)) : ℕ → List Slot
  | 0 => []
  | n + 1 => rrAnswers sel n ++
      match sel n with
      | some (.rr, r) => [r]
      | _ => []

lemma rrAnswers_succ_of_ne {sel : ℕ → Option (SchedPolicy × Slot)} {n : ℕ}
    (h : ∀ r, sel n ≠ some (.rr, r)) : rrAnswers sel (n + 1) = rrAnswers sel n := by
  rw [rrAnswers]
  split
  · rename_i r hr
    exact absurd hr (h r)
  · exact List.append_nil _

lemma rrAnswers_succ {sel : ℕ → Option (SchedPolicy × Slot)} {n : ℕ} {r : Slot}
    (h : sel n = some (.rr, r)) : rrAnswers sel (n + 1) = rrAnswers sel n ++ [r] := by
  rw [rrAnswers, h]

/-- **Round-robin bounded bypass.** In every run of calls of `rr_select_next` by one CPU that begins
outside a call, whatever happens to the table in between: while `i` is runnable whenever a scan
examines it and is not returned, every answer brings the cursor strictly nearer to `i`. So fewer
than `NPROC` calls return other slots, and none of these twice. -/
theorem rr_bounded_bypass (tr : ℕ → Caller) (sel : ℕ → Option (SchedPolicy × Slot)) (n : ℕ)
    (i : Slot) (hrun : ∀ t < n, (tr t).Step (sel t) (tr (t + 1)))
    (hstart : ∀ s off, (tr 0).pc ≠ .rrScan s off)
    (hwait : ∀ t < n, Waiting i (tr t) (sel t) (tr (t + 1))) :
    (∀ t < n, (∃ r, sel t = some (.rr, r) ∧ dist (tr (t + 1)).cur.rr i < dist (tr t).cur.rr i) ∨
      (∀ r, sel t ≠ some (.rr, r)) ∧ (tr (t + 1)).cur.rr = (tr t).cur.rr) ∧
    (rrAnswers sel n).length ≤ nproc - 1 ∧ (rrAnswers sel n).Nodup ∧ i ∉ rrAnswers sel n := by
  have hbound : ∀ t ≤ n, (tr t).RrBound i := by
    intro t
    induction t with
    | zero =>
      intro _
      rw [RrBound]
      split
      · rename_i s off hpc
        exact absurd hpc (hstart s off)
      · trivial
    | succ t ih =>
      intro ht
      exact ((hrun t ht).rrBound (hwait t ht) (ih (by omega))).1
  have hstep := fun t (ht : t < n) => ((hrun t ht).rrBound (hwait t ht) (hbound t ht.le)).2
  refine ⟨fun t ht => ?_, ?_⟩
  · rcases hstep t ht with ⟨r, hr, hne, hle, hcur⟩ | hkeep
    · refine .inl ⟨r, hr, ?_⟩
      have := dist_next hne
      rw [hcur]
      omega
    · exact .inr hkeep
  · -- the slots returned lie farther from `i` than the cursor, each nearer than the one before
    have hkey : ∀ t ≤ n, (rrAnswers sel t).length + dist (tr t).cur.rr i ≤ dist (tr 0).cur.rr i ∧
        (rrAnswers sel t).Nodup ∧
        ∀ r ∈ rrAnswers sel t, r ≠ i ∧ dist (tr t).cur.rr i < dist r i := by
      intro t
      induction t with
      | zero =>
        intro _
        refine ⟨?_, List.nodup_nil, nofun⟩
        rw [rrAnswers, List.length_nil, Nat.zero_add]
      | succ t ih =>
        intro ht
        obtain ⟨hlen, hnodup, hfar⟩ := ih (by omega)
        rcases hstep t ht with ⟨r, hr, hne, hle, hcur⟩ | ⟨hno, hcur⟩
        · have hnext := dist_next hne
          rw [rrAnswers_succ hr, hcur, List.length_append, List.length_singleton]
          refine ⟨by omega, ?_, fun r' hr' => ?_⟩
          · refine List.nodup_append.mpr ⟨hnodup, List.nodup_singleton r, ?_⟩
            rintro r₁ h₁ r₂ h₂ rfl
            rw [List.mem_singleton] at h₂
            have := (hfar r₁ h₁).2
            rw [h₂] at this
            omega
          · rcases List.mem_append.mp hr' with hr' | hr'
            · have := hfar r' hr'
              exact ⟨this.1, by omega⟩
            · rw [List.mem_singleton.mp hr']
              exact ⟨hne, by omega⟩
        · rw [rrAnswers_succ_of_ne hno, hcur]
          exact ⟨hlen, hnodup, hfar⟩
    obtain ⟨hlen, hnodup, hfar⟩ := hkey n le_rfl
    have hdist := dist_lt (tr 0).cur.rr i
    exact ⟨by omega, hnodup, fun hi => (hfar i hi).1 rfl⟩

def allWaiting : Kernel where
  proc _ := { Proc.zero with state := .runnable }
  ticks := 0
  policy := .rr
  nextpid := 1

/-- A call that returns the first slot. -/
def oneCall : ℕ → Caller
  | 0 => ⟨allWaiting, ⟨0, 0, 0⟩, .loop⟩
  | 1 => ⟨allWaiting, ⟨0, 0, 0⟩, .rrScan 0 0⟩
  | _ => ⟨allWaiting, ⟨next (place 0 0), 0, 0⟩, .selected (place 0 0)⟩

def oneAnswer : ℕ → Option (SchedPolicy × Slot)
  | 1 => some (.rr, place 0 0)
  | _ => none

theorem rr_bounded_bypass_one : oneAnswer 1 = some (.rr, place 0 0) ∧
    dist (oneCall 2).cur.rr 1 < dist (oneCall 1).cur.rr 1 := by
  have hne : (place 0 0 : Slot) ≠ 1 := by simp [place, nproc_eq]
  have hdist := (rr_bounded_bypass oneCall oneAnswer 2 1 (by
      intro t ht
      interval_cases t
      · exact Step.own (a := oneCall 0) (.startRr rfl)
      · exact Step.own (a := oneCall 1) (.rrTake (NeZero.pos nproc) rfl))
    (by simp [oneCall])
    (by
      intro t ht
      interval_cases t
      · exact ⟨by simp [oneCall], by simp [oneAnswer]⟩
      · exact ⟨fun _ _ _ _ _ _ => rfl, fun h => hne (congrArg Prod.snd (Option.some.inj h))⟩)).1 1
          (by omega)
  rcases hdist with ⟨r, _, hlt⟩ | ⟨hno, _⟩
  · exact ⟨rfl, hlt⟩
  · exact absurd rfl (hno _)

end Caller

/-! ### Runs of the machine -/

variable {k : Kernel} {mv : Move}

lemma IntrEdge.selects {boot : Prop} {p : Option Slot} {i i' : IntrPc}
    (h : IntrEdge k boot p i mv i') : mv.selects = none := by
  cases h <;> rfl

lemma ThreadEdge.selects {p : Slot} {t t' : ThreadPc} (h : ThreadEdge k p t mv t') :
    mv.selects = none := by
  cases h <;> rfl

lemma SwtchEdge.selects {p : Slot} {t t' : ThreadPc} (h : SwtchEdge k p t mv t') :
    mv.selects = none := by
  cases h <;> rfl

namespace Machine

variable {ι : Type*}

/-- What CPU `c` sees. -/
def view (m : Machine ι) (c : ι) : Caller := ⟨m.k, m.cursors c, m.cpu c⟩

variable [DecidableEq ι] {boot c d : ι} {m m' : Machine ι} {mv : Move}

lemma cursors_of_ne (m : Machine ι) (h : c ≠ d) (mv : Move) :
    (m.perform d mv).cursors c = m.cursors c := by
  rw [perform]
  cases mv.selects with
  | none => rfl
  | some s => exact update_of_ne h ..

lemma cursors_of_quiet (m : Machine ι) (h : mv.selects = none) (d c : ι) :
    (m.perform d mv).cursors c = m.cursors c := by
  rw [perform, h]
  rfl

omit [DecidableEq ι] in
lemma view_other (hcur : m'.cursors c = m.cursors c) (hpc : m'.cpu c = m.cpu c) :
    (m.view c).Step none (m'.view c) := by
  have hview : m'.view c = { m.view c with k := m'.k } := by rw [view, view, hcur, hpc]
  rw [hview]
  exact Caller.Step.other m'.k

omit [DecidableEq ι] in
lemma view_swtch {p : Slot} (hcur : m'.cursors c = m.cursors c) (hp : m.cpu c = .inProc p)
    (hpc : m'.cpu c = .back p) : (m.view c).Step none (m'.view c) := by
  have hview : m'.view c = { m.view c with k := m'.k, pc := .back p } := by
    rw [view, view, hcur, hpc]
  rw [hview]
  exact Caller.Step.swtch m'.k hp

/-- **A step of the machine** is a step for every CPU. -/
lemma Step.caller (h : Step boot m d mv m') (c : ι) : ∃ sel, (m.view c).Step sel (m'.view c) := by
  cases h with
  | @sched _ pc _ h _ =>
    by_cases hc : c = d
    · subst hc
      refine ⟨mv.selects, ?_⟩
      have hview : view { m.perform c mv with cpu := update m.cpu c pc } c =
          ⟨mv.op.elim m.k m.k.apply,
            mv.selects.elim (m.cursors c) fun (pol, b) => (m.cursors c).moved b pol, pc⟩ := by
        rw [view, perform]
        cases mv.selects with
        | none => simp
        | some s => simp
      rw [hview]
      exact Caller.Step.own (a := m.view c) h
    · exact ⟨none, view_other (cursors_of_ne m hc mv) (update_of_ne hc ..)⟩
  | intr _ h _ | thread _ _ h _ => exact ⟨none, view_other (cursors_of_quiet m h.selects d c) rfl⟩
  | policySwitch => exact ⟨none, view_other rfl rfl⟩
  | yield hp _ _ =>
    by_cases hc : c = d
    · subst hc
      exact ⟨none, view_swtch rfl hp (update_self ..)⟩
    · exact ⟨none, view_other rfl (update_of_ne hc ..)⟩
  | swtch hp _ h _ =>
    have hcur := cursors_of_quiet m h.selects d c
    by_cases hc : c = d
    · subst hc
      exact ⟨none, view_swtch hcur hp (update_self ..)⟩
    · exact ⟨none, view_other hcur (update_of_ne hc ..)⟩

/-- A stretch of a run of the machine. -/
def Trace (boot : ι) (tr : ℕ → Machine ι) (n : ℕ) : Prop :=
  ∀ t < n, ∃ d mv, Step boot (tr t) d mv (tr (t + 1))

/-- **A CPU that comes to select a process** holds its lock, and the process is runnable. -/
lemma Step.selected {p : Slot} (h : Step boot m d mv m') (hno : (m.cpu c).owns = none)
    (hsel : m'.cpu c = .selected p) :
    (m'.k.proc p).state = .runnable ∧ m'.lock (.proc p) = some c := by
  -- a CPU that stands still has selected nothing
  have hstill : m'.cpu c ≠ m.cpu c := fun he => by
    rw [← he, hsel] at hno
    cases hno
  cases h with
  | @sched _ pc _ h _ =>
    by_cases hc : c = d
    swap
    · exact absurd (update_of_ne hc ..) hstill
    subst hc
    have hpc : pc = .selected p := (update_self ..).symm.trans hsel
    subst hpc
    rcases h.owns with howns | ⟨_, _, hloop, _⟩ | ⟨q, _, hq, hlock, hrun⟩
    · rw [hno] at howns
      cases howns
    · cases hloop
    · cases hq
      refine ⟨?_, ?_⟩
      · change ((mv.op.elim m.k m.k.apply).proc p).state = .runnable
        cases hop : mv.op with
        | none => exact hrun
        | some o =>
          rcases h.op hop with ⟨q, _, hpc⟩ | ⟨q, rfl, _⟩
          · rw [hpc] at hno
            cases hno
          · rw [Option.elim_some, apply_age_proc]
            split_ifs
            · rw [age_state, hrun]
            · exact hrun
      · change mv.lock.run c m.lock (.proc p) = some c
        rw [hlock]
        exact update_self ..
  | intr _ _ _ | thread _ _ _ _ | policySwitch => exact absurd rfl hstill
  | yield _ _ _ | swtch _ _ _ _ =>
    by_cases hc : c = d
    · subst hc
      exact absurd ((update_self ..).symm.trans hsel) (by simp)
    · exact absurd (update_of_ne hc ..) hstill

/-! ### A CPU that scans alone -/

/-- A scan of the whole table, and what comes after it. -/
def followed (scan rest : ℕ → Machine ι) (t : ℕ) : Machine ι :=
  if t < nproc then scan t else rest (t - nproc)

section Followed

variable {scan rest : ℕ → Machine ι}

omit [DecidableEq ι] in
lemma followed_of_lt {t : ℕ} (h : t < nproc) : followed scan rest t = scan t := if_pos h

omit [DecidableEq ι] in
lemma followed_add (j : ℕ) : followed scan rest (nproc + j) = rest j := by
  rw [followed, if_neg (by omega), Nat.add_sub_cancel_left]

omit [DecidableEq ι] in
lemma followed_of_le {t : ℕ} (h : rest 0 = scan nproc) (ht : t ≤ nproc) :
    followed scan rest t = scan t := by
  rcases lt_or_eq_of_le ht with hlt | rfl
  · exact followed_of_lt hlt
  · rw [← h]
    exact followed_add 0

lemma Trace.followed {n : ℕ} (h : rest 0 = scan nproc)
    (hscan : ∀ t < nproc, ∃ mv, Step boot (scan t) c mv (scan (t + 1)))
    (hrest : Trace boot rest n) : Trace boot (followed scan rest) (nproc + n) := by
  intro t ht
  rcases lt_or_ge t nproc with hlt | hge
  · rw [followed_of_lt hlt, followed_of_le h hlt]
    exact ⟨c, hscan t hlt⟩
  · obtain ⟨j, rfl⟩ := Nat.exists_eq_add_of_le hge
    rw [Nat.add_assoc, followed_add, followed_add]
    exact hrest j (by omega)

omit [DecidableEq ι] in
lemma forall_followed {P : Machine ι → Prop} {n : ℕ} (hscan : ∀ t < nproc, P (scan t))
    (hrest : ∀ j ≤ n, P (rest j)) : ∀ t ≤ nproc + n, P (followed scan rest t) := by
  intro t ht
  rcases lt_or_ge t nproc with hlt | hge
  · rw [followed_of_lt hlt]
    exact hscan t hlt
  · obtain ⟨j, rfl⟩ := Nat.exists_eq_add_of_le hge
    rw [followed_add]
    exact hrest j (by omega)

end Followed

/-- CPU `c` after `t` slots of an MLFQ scan from `s` that nobody disturbs. -/
def mlfqScanning (m : Machine ι) (c : ι) (s : Slot) (t : ℕ) : Machine ι :=
  { m with
    k := (mlfqScan m.k s t).1
    cpu := update m.cpu c (.mlfqScan s t (mlfqScan m.k s t).2) }

lemma mlfqScanning_cpu (m : Machine ι) (c : ι) (s : Slot) (t : ℕ) :
    (m.mlfqScanning c s t).cpu c = .mlfqScan s t (mlfqScan m.k s t).2 :=
  update_self ..

variable {t : ℕ}

lemma mlfqScanning_step (boot : ι) {s : Slot} (hintr : m.intr c = .none)
    (hfree : ∀ i, m.lock (.proc i) = none) (ht : t < nproc) :
    Step boot (m.mlfqScanning c s t) c
      { lock := .within (.proc (place s t)), op := some (.age (place s t)) }
      (m.mlfqScanning c s (t + 1)) := by
  have hedge : SchedEdge (mlfqScan m.k s t).1 (m.cursors c)
      (.mlfqScan s t (mlfqScan m.k s t).2) _ _ := .mlfqNext ht
  rw [← mlfqScanning_cpu m c s t] at hedge
  have hstep : Step boot (m.mlfqScanning c s t) c _ _ := .sched hintr hedge (hfree (place s t))
  have hnext : m.mlfqScanning c s (t + 1) =
      { (m.mlfqScanning c s t).perform c
          { lock := .within (.proc (place s t)), op := some (.age (place s t)) } with
        cpu := update (m.mlfqScanning c s t).cpu c (.mlfqScan s (t + 1)
          (mlfqExamine (aged (mlfqScan m.k s t).1 (place s t)) (place s t)
            (mlfqScan m.k s t).2)) } := by
    have hproc : ((mlfqScan m.k s t).1.apply (.age (place s t))).proc (place s t) =
        aged (mlfqScan m.k s t).1 (place s t) := by rw [apply_age_proc, if_pos rfl, aged]
    simp only [mlfqScanning, mlfqScan, hproc, perform, update_idem]
    rfl
  rw [hnext]
  exact hstep

/-- CPU `c` after `t` slots of a static-priority scan from `s` that nobody disturbs. -/
def priorityScanning (m : Machine ι) (c : ι) (s : Slot) (t : ℕ) : Machine ι :=
  { m with cpu := update m.cpu c (.priorityScan s t (priorityScan m.k.proc s t)) }

lemma priorityScanning_cpu (m : Machine ι) (c : ι) (s : Slot) (t : ℕ) :
    (m.priorityScanning c s t).cpu c = .priorityScan s t (priorityScan m.k.proc s t) :=
  update_self ..

lemma priorityScanning_step (boot : ι) {s : Slot} (hintr : m.intr c = .none)
    (hfree : ∀ i, m.lock (.proc i) = none) (ht : t < nproc) :
    ∃ mv, Step boot (m.priorityScanning c s t) c mv (m.priorityScanning c s (t + 1)) := by
  have hedge : SchedEdge m.k (m.cursors c) (.priorityScan s t (priorityScan m.k.proc s t)) _ _ :=
    .priorityNext ht
  rw [← priorityScanning_cpu m c s t] at hedge
  have hstep : Step boot (m.priorityScanning c s t) c _ _ := .sched hintr hedge (hfree (place s t))
  have hnext : m.priorityScanning c s (t + 1) =
      { (m.priorityScanning c s t).perform c { lock := .within (.proc (place s t)) } with
        cpu := update (m.priorityScanning c s t).cpu c (.priorityScan s (t + 1)
          (priorityExamine (m.k.proc (place s t)) (place s t) (priorityScan m.k.proc s t))) } := by
    simp only [priorityScanning, priorityScan, perform, update_idem]
    rfl
  rw [hnext]
  exact ⟨_, hstep⟩

/-- **MLFQ selection under interference.** Take any stretch of a run, on any number of CPUs, in
which CPU `c` begins a scan of `mlfq_select_next` and returns `p` at the end, without having left
the function. Then `p` is runnable and `c` holds its lock; and every slot `q` that was runnable at
an unchanged level from the beginning of the scan until the return has a level no smaller than
`p`. -/
theorem mlfq_selection_under_interference (boot c : ι) (tr : ℕ → Machine ι) (n : ℕ) (s p : Slot)
    (htr : Trace boot tr (n + 1)) (hstart : (tr 0).cpu c = .mlfqScan s 0 (none, schedMlfqLevels))
    (hin : ∀ t ≤ n, ((tr t).cpu c).InMlfq) (hret : (tr (n + 1)).cpu c = .selected p) :
    ((tr (n + 1)).k.proc p).state = .runnable ∧ (tr (n + 1)).lock (.proc p) = some c ∧
      ∀ q, (∀ t ≤ n + 1, ((tr t).k.proc q).state = .runnable ∧
          ((tr t).k.proc q).queueLevel = ((tr 0).k.proc q).queueLevel) →
        ((tr (n + 1)).k.proc p).queueLevel ≤ ((tr (n + 1)).k.proc q).queueLevel := by
  obtain ⟨d, mv, hstep⟩ := htr n (Nat.lt_succ_self n)
  have hno : ((tr n).cpu c).owns = none := by
    have := hin n le_rfl
    cases hpc : (tr n).cpu c with
    | mlfqScan _ _ _ | mlfqCheck _ _ => rfl
    | _ =>
      rw [hpc] at this
      exact this.elim
  obtain ⟨hrun, hlock⟩ := hstep.selected hno hret
  refine ⟨hrun, hlock, fun q hq => ?_⟩
  have hbound : ∀ t ≤ n + 1, ((tr t).view c).MlfqBound q ((tr 0).k.proc q).queueLevel := by
    intro t
    induction t with
    | zero =>
      intro _
      rw [Caller.MlfqBound, view, hstart]
      exact fun hd => absurd hd (Nat.not_lt_zero _)
    | succ t ih =>
      intro ht
      obtain ⟨d, mv, hstep⟩ := htr t (by omega)
      obtain ⟨sel, hview⟩ := hstep.caller c
      obtain ⟨hr, hl⟩ := hq (t + 1) ht
      exact hview.mlfqBound (hin t (by omega)) (ih (by omega)) hr hl
  have hfinal := hbound (n + 1) le_rfl
  rw [Caller.MlfqBound, view, hret] at hfinal
  rw [(hq (n + 1) le_rfl).2]
  exact hfinal

/-- Two processes that wait at level 1, the second one since tick 0. -/
def twoWaiting : Kernel where
  proc i :=
    if i = 0 then
      { Proc.zero with
        state := .runnable, pid := 1, queueLevel := 1, timeSlice := 2, readySince := 7 }
    else if i = 1 then
      { Proc.zero with
        state := .runnable, pid := 2, queueLevel := 1, timeSlice := 2, parent := some 0 }
    else Proc.zero
  ticks := 7
  policy := .mlfq
  nextpid := 3

/-- Two processes of the priorities 5 and 3 that wait, and one that runs. -/
def threeProcs : Kernel where
  proc i :=
    if i = 0 then { Proc.zero with state := .runnable, pid := 1, priority := 5 }
    else if i = 1 then
      { Proc.zero with state := .runnable, pid := 2, priority := 3, parent := some 0 }
    else if i = 2 then { Proc.zero with state := .running, pid := 3, parent := some 0 }
    else Proc.zero
  ticks := 0
  policy := .staticPriority
  nextpid := 4

/-- CPU 0 is idle, the others begin to scan. -/
def threeCpus : Machine (Fin 3) where
  k := twoWaiting
  lock _ := none
  cpuProc _ := none
  cursors _ := ⟨0, 0, 0⟩
  cpu := ![.loop, .mlfqScan 0 0 (none, schedMlfqLevels), .mlfqScan 1 0 (none, schedMlfqLevels)]
  intr _ := .none
  thread _ := .dead

/-- The scan of CPU `c` has ended, with the first process as its candidate. -/
def scanEnded (m : Machine ι) (c : ι) : Machine ι :=
  { m.perform c {} with cpu := update m.cpu c (.mlfqCheck 0 1) }

/-- A clock tick on CPU `c`. -/
def tickPassed (m : Machine ι) (c : ι) : Machine ι :=
  { m.perform c { op := some .clock } with intr := update m.intr c (.wake ticksChan true 0) }

/-- CPU `c` examines the second process, and promotes it. -/
def promoted (m : Machine ι) (c : ι) : Machine ι :=
  { m.perform c { lock := .within (.proc (place 1 0)), op := some (.age (place 1 0)) } with
    cpu := update m.cpu c (.mlfqScan 1 1
      (mlfqExamine (aged m.k (place 1 0)) (place 1 0) (none, schedMlfqLevels))) }

/-- CPU `c` returns its candidate. -/
def returned (m : Machine ι) (c : ι) : Machine ι :=
  { m.perform c
      { lock := .acquire (.proc 0), op := some (.age 0), selects := some (.mlfq, 0) } with
    cpu := update m.cpu c (.selected 0) }

/-- What happens after the scan of `c` in `m`: a tick on `b`, and a promotion by `d`. -/
def afterScan (m : Machine ι) (b c d : ι) : ℕ → Machine ι
  | 0 => m
  | 1 => m.scanEnded c
  | 2 => (m.scanEnded c).tickPassed b
  | 3 => ((m.scanEnded c).tickPassed b).promoted d
  | _ => (((m.scanEnded c).tickPassed b).promoted d).returned c

/-- Nothing happens between the scan and the return. -/
def atOnce (m : Machine ι) (c : ι) : ℕ → Machine ι
  | 0 => m
  | 1 => m.scanEnded c
  | _ => (m.scanEnded c).returned c

/-- Both scans find the first process. During the MLFQ scan the second process waits at level 1, and
after it the candidate stays at that level. -/
lemma scans_first : (mlfqScan twoWaiting 0 nproc).2 = (some 0, 1) ∧
    priorityScan threeProcs.proc 0 nproc = (some 0, 5) ∧
    (∀ t ≤ nproc, ((threeCpus.mlfqScanning 1 0 t).k.proc 1).state = .runnable ∧
      ((threeCpus.mlfqScanning 1 0 t).k.proc 1).queueLevel = 1) ∧
    ∀ j ∈ [1, 3], (aged (afterScan (threeCpus.mlfqScanning 1 0 nproc) 0 1 2 j).k 0).state =
        .runnable ∧
      (aged (afterScan (threeCpus.mlfqScanning 1 0 nproc) 0 1 2 j).k 0).queueLevel ≤ 1 := by
  decide +kernel

/-- The scan ends with the first process as its candidate. -/
lemma scanEnded_step : ∃ mv, Step 0 (threeCpus.mlfqScanning 1 0 nproc) 1 mv
    ((threeCpus.mlfqScanning 1 0 nproc).scanEnded 1) := by
  have hpc : (threeCpus.mlfqScanning 1 0 nproc).cpu 1 = .mlfqScan 0 nproc (some 0, 1) := by
    rw [mlfqScanning_cpu]
    exact congrArg (CpuPc.mlfqScan 0 nproc) scans_first.1
  refine ⟨_, Step.sched rfl ?_ trivial⟩
  rw [hpc]
  exact SchedEdge.mlfqBest

lemma afterScan_trace : Trace 0 (afterScan (threeCpus.mlfqScanning 1 0 nproc) 0 1 2) 4 := by
  intro j hj
  interval_cases j
  · exact ⟨1, scanEnded_step⟩
  · exact ⟨0, _, Step.intr (Interruptible.idle rfl) (IntrEdge.clock rfl) trivial⟩
  · exact ⟨2, _, Step.sched rfl (SchedEdge.mlfqNext (NeZero.pos nproc)) rfl⟩
  · obtain ⟨hs, hl⟩ := scans_first.2.2.2 3 (by simp)
    exact ⟨1, _, Step.sched rfl (SchedEdge.mlfqTake hs hl) rfl⟩

/-- The scan begins, and every slot is examined. -/
lemma threeCpus_scan : ∀ t < nproc,
    ∃ mv, Step 0 (threeCpus.mlfqScanning 1 0 t) 1 mv (threeCpus.mlfqScanning 1 0 (t + 1)) :=
  fun _ ht => ⟨_, mlfqScanning_step 0 rfl (fun _ => rfl) ht⟩

/-- **A slot that is promoted after the scan.** While CPU 1 scans, the second process is runnable at
level 1. Between the end of the scan and the return of the candidate a tick passes and CPU 2
promotes the second process; CPU 1 returns a process of a larger level. -/
theorem mlfq_selection_promoted_after_scan :
    ∃ (tr : ℕ → Machine (Fin 3)) (n : ℕ) (s p q : Slot), Trace 0 tr (n + 1) ∧
      (tr 0).cpu 1 = .mlfqScan s 0 (none, schedMlfqLevels) ∧
      (∀ t ≤ n, ((tr t).cpu 1).InMlfq) ∧ (tr (n + 1)).cpu 1 = .selected p ∧
      (∀ t ≤ n, (∃ off best, (tr t).cpu 1 = .mlfqScan s off best) →
        ((tr t).k.proc q).state = .runnable ∧
          ((tr t).k.proc q).queueLevel = ((tr 0).k.proc q).queueLevel) ∧
      ((tr (n + 1)).k.proc q).state = .runnable ∧
      ((tr (n + 1)).k.proc q).queueLevel < ((tr (n + 1)).k.proc p).queueLevel := by
  refine ⟨followed (threeCpus.mlfqScanning 1 0)
    (afterScan (threeCpus.mlfqScanning 1 0 nproc) 0 1 2), nproc + 3, 0, 0, 1,
    Trace.followed rfl threeCpus_scan afterScan_trace, by decide +kernel, by decide +kernel,
    by decide +kernel, ?_, by decide +kernel, by decide +kernel⟩
  -- after the scan CPU 1 has its candidate
  have hcheck : ∀ {m : Machine (Fin 3)}, m.cpu 1 = .mlfqCheck 0 1 →
      ¬ ∃ off best, m.cpu 1 = .mlfqScan 0 off best := by
    rintro m hpc ⟨off, best, hscan⟩
    rw [hpc] at hscan
    cases hscan
  have hlevel : ((followed (threeCpus.mlfqScanning 1 0)
      (afterScan (threeCpus.mlfqScanning 1 0 nproc) 0 1 2) 0).k.proc 1).queueLevel = 1 := by
    decide +kernel
  rw [hlevel]
  refine forall_followed (P := fun m => (∃ off best, m.cpu 1 = .mlfqScan 0 off best) →
    (m.k.proc 1).state = .runnable ∧ (m.k.proc 1).queueLevel = 1)
    (fun t ht _ => scans_first.2.2.1 t ht.le) fun j hj => ?_
  interval_cases j
  · exact fun _ => scans_first.2.2.1 _ le_rfl
  · exact fun hscan => absurd hscan (hcheck rfl)
  · exact fun hscan => absurd hscan (hcheck rfl)
  · exact fun hscan => absurd hscan (hcheck rfl)

lemma atOnce_trace : Trace 0 (atOnce (threeCpus.mlfqScanning 1 0 nproc) 1) 2 := by
  intro j hj
  interval_cases j
  · exact ⟨1, scanEnded_step⟩
  · obtain ⟨hs, hl⟩ := scans_first.2.2.2 1 (by simp)
    exact ⟨1, _, Step.sched rfl (SchedEdge.mlfqTake hs hl) rfl⟩

theorem mlfq_selection_under_interference_alone :
    let m := ((threeCpus.mlfqScanning 1 0 nproc).scanEnded 1).returned 1
    (m.k.proc 0).state = .runnable ∧ m.lock (.proc 0) = some 1 ∧
      (m.k.proc 0).queueLevel ≤ (m.k.proc 1).queueLevel := by
  obtain ⟨hrun, hlock, hle⟩ := mlfq_selection_under_interference 0 1
    (followed (threeCpus.mlfqScanning 1 0) (atOnce (threeCpus.mlfqScanning 1 0 nproc) 1))
    (nproc + 1) 0 0
    (Trace.followed rfl threeCpus_scan atOnce_trace) (by decide +kernel) (by decide +kernel)
    (by decide +kernel)
  rw [followed_add 2] at hrun hlock hle
  exact ⟨hrun, hlock, hle 1 (by decide +kernel)⟩

/-- **Static-priority selection under interference.** Take any stretch of a run, on any number of
CPUs, in which CPU `c` begins a scan of `priority_select_next` and returns `p` at the end, without
having left the function. Then `p` is runnable and `c` holds its lock. If no step in between lowers
the priority of `p`, every slot `q` that was runnable with an unchanged priority from the beginning
of the scan until the return has a priority no larger than `p`. -/
theorem priority_selection_under_interference (boot c : ι) (tr : ℕ → Machine ι) (n : ℕ) (s p : Slot)
    (htr : Trace boot tr (n + 1)) (hstart : (tr 0).cpu c = .priorityScan s 0 (none, 0))
    (hin : ∀ t ≤ n, ((tr t).cpu c).InPriority) (hret : (tr (n + 1)).cpu c = .selected p) :
    ((tr (n + 1)).k.proc p).state = .runnable ∧ (tr (n + 1)).lock (.proc p) = some c ∧
      ((∀ t ≤ n, ((tr t).k.proc p).priority ≤ ((tr (t + 1)).k.proc p).priority) →
        ∀ q, (∀ t ≤ n + 1, ((tr t).k.proc q).state = .runnable ∧
            ((tr t).k.proc q).priority = ((tr 0).k.proc q).priority) →
          ((tr (n + 1)).k.proc q).priority ≤ ((tr (n + 1)).k.proc p).priority) := by
  obtain ⟨d, mv, hstep⟩ := htr n (Nat.lt_succ_self n)
  have hno : ((tr n).cpu c).owns = none := by
    have := hin n le_rfl
    cases hpc : (tr n).cpu c with
    | priorityScan _ _ _ | priorityCheck _ => rfl
    | _ =>
      rw [hpc] at this
      exact this.elim
  obtain ⟨hrun, hlock⟩ := hstep.selected hno hret
  refine ⟨hrun, hlock, fun hkeep q hq => ?_⟩
  have hbound : ∀ t ≤ n + 1, ((tr t).view c).PriorityBound p q ((tr 0).k.proc q).priority := by
    intro t
    induction t with
    | zero =>
      intro _
      rw [Caller.PriorityBound, view, hstart]
      exact ⟨fun hd => absurd hd (Nat.not_lt_zero _), nofun⟩
    | succ t ih =>
      intro ht
      obtain ⟨d, mv, hstep⟩ := htr t (by omega)
      obtain ⟨sel, hview⟩ := hstep.caller c
      obtain ⟨hr, hl⟩ := hq t (by omega)
      exact hview.priorityBound (hin t (by omega)) (ih (by omega)) hr hl (hkeep t (by omega))
  have hfinal := hbound (n + 1) le_rfl
  rw [Caller.PriorityBound, view, hret] at hfinal
  rw [(hq (n + 1) le_rfl).2]
  exact hfinal rfl

/-- CPU 0 begins to scan, and the process on CPU 1 is in `kset_prio(1, 0)`. -/
def settingPrio : Machine (Fin 2) where
  k := threeProcs
  lock _ := none
  cpuProc := ![none, some 2]
  cursors _ := ⟨0, 0, 0⟩
  cpu := ![.priorityScan 0 0 (none, 0), .inProc 2]
  intr _ := .none
  thread i := if i = 2 then .setPrio 1 0 (0 : Slot) else .run

/-- The scan has ended, with the first process as its candidate. -/
def candidateFound : Machine (Fin 2) :=
  { (settingPrio.priorityScanning 0 0 nproc).perform 0 {} with
    cpu := update (settingPrio.priorityScanning 0 0 nproc).cpu 0 (.priorityCheck 0) }

/-- CPU 1 lowers the priority of the candidate. -/
def prioLowered : Machine (Fin 2) :=
  { candidateFound.perform 1
      { lock := .within (.proc 0), op := some (.setPrio 0 1 0) } with
    thread := update (candidateFound.perform 1
      { lock := .within (.proc 0), op := some (.setPrio 0 1 0) }).thread 2 .run }

/-- CPU 0 returns its candidate. -/
def selectedFrom (m : Machine (Fin 2)) : Machine (Fin 2) :=
  { m.perform 0 { lock := .acquire (.proc 0), selects := some (.staticPriority, 0) } with
    cpu := update m.cpu 0 (.selected 0) }

lemma candidateFound_step :
    ∃ mv, Step 0 (settingPrio.priorityScanning 0 0 nproc) 0 mv candidateFound := by
  have hpc : (settingPrio.priorityScanning 0 0 nproc).cpu 0 =
      .priorityScan 0 nproc (some 0, 5) := by
    rw [priorityScanning_cpu]
    exact congrArg (CpuPc.priorityScan 0 nproc) scans_first.2.1
  refine ⟨_, Step.sched rfl ?_ trivial⟩
  rw [hpc]
  exact SchedEdge.priorityBest

lemma settingPrio_scan : ∀ t < nproc, ∃ mv,
    Step 0 (settingPrio.priorityScanning 0 0 t) 0 mv (settingPrio.priorityScanning 0 0 (t + 1)) :=
  fun _ ht => priorityScanning_step 0 rfl (fun _ => rfl) ht

/-- What happens after the scan. -/
def afterPriorityScan : ℕ → Machine (Fin 2)
  | 0 => settingPrio.priorityScanning 0 0 nproc
  | 1 => candidateFound
  | 2 => prioLowered
  | _ => selectedFrom prioLowered

lemma afterPriorityScan_trace : Trace 0 afterPriorityScan 3 := by
  intro j hj
  interval_cases j
  · exact ⟨0, candidateFound_step⟩
  · have hthread : candidateFound.thread 2 = .setPrio 1 0 (0 : Slot) := if_pos rfl
    refine ⟨1, _, Step.thread (p := 2) rfl rfl ?_ rfl⟩
    change ThreadEdge _ _ (candidateFound.thread 2) _ _
    rw [hthread]
    exact ThreadEdge.setPrioHit ⟨nofun, rfl⟩
  · exact ⟨0, _, Step.sched rfl (SchedEdge.priorityTake rfl) rfl⟩

/-- **A candidate whose priority is lowered.** CPU 0 has found the first process, of priority 5,
when the process on CPU 1 sets that priority to 0. Only the state of the candidate is checked again,
so it is returned although the second process has waited with priority 3 all the time. -/
theorem priority_selection_lowered :
    ∃ (tr : ℕ → Machine (Fin 2)) (n : ℕ) (s p q : Slot), Trace 0 tr (n + 1) ∧
      (tr 0).cpu 0 = .priorityScan s 0 (none, 0) ∧
      (∀ t ≤ n, ((tr t).cpu 0).InPriority) ∧ (tr (n + 1)).cpu 0 = .selected p ∧
      (∀ t ≤ n + 1, ((tr t).k.proc q).state = .runnable ∧
        ((tr t).k.proc q).priority = ((tr 0).k.proc q).priority) ∧
      ((tr (n + 1)).k.proc p).priority < ((tr (n + 1)).k.proc q).priority := by
  exact ⟨followed (settingPrio.priorityScanning 0 0) afterPriorityScan, nproc + 2, 0, 0, 1,
    Trace.followed rfl settingPrio_scan afterPriorityScan_trace, by decide +kernel,
    by decide +kernel, by decide +kernel, by decide +kernel, by decide +kernel⟩

/-- Nobody calls `kset_prio` between the scan and the return. -/
def priorityAtOnce : ℕ → Machine (Fin 2)
  | 0 => settingPrio.priorityScanning 0 0 nproc
  | 1 => candidateFound
  | _ => selectedFrom candidateFound

lemma priorityAtOnce_trace : Trace 0 priorityAtOnce 2 := by
  intro j hj
  interval_cases j
  · exact ⟨0, candidateFound_step⟩
  · exact ⟨0, _, Step.sched rfl (SchedEdge.priorityTake rfl) rfl⟩

theorem priority_selection_under_interference_alone :
    ((selectedFrom candidateFound).k.proc 0).state = .runnable ∧
      (selectedFrom candidateFound).lock (.proc 0) = some 0 ∧
      ((selectedFrom candidateFound).k.proc 1).priority ≤
        ((selectedFrom candidateFound).k.proc 0).priority := by
  obtain ⟨hrun, hlock, hle⟩ := priority_selection_under_interference 0 0
    (followed (settingPrio.priorityScanning 0 0) priorityAtOnce) (nproc + 1) 0 0
    (Trace.followed rfl settingPrio_scan priorityAtOnce_trace) (by decide +kernel)
    (by decide +kernel) (by decide +kernel)
  rw [followed_add 2] at hrun hlock hle
  exact ⟨hrun, hlock, hle (by decide +kernel) 1 (by decide +kernel)⟩

end Machine

end Xv6Riscv
