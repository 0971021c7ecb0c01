import Xv6Riscv.Proc.Times

/-!
Ready time.

`total_ready_time` is meant to be the time a process has waited for its dispatches: the ticks from
each transition to `RUNNABLE` to the dispatch that followed it. `ReadyHistory` keeps that sum,
independently of the fields of the process, from the changes of its state and the tick they happen
at. `scheduler` adds up instead what has passed since `ready_since`, which a promotion by
`mlfq_age_locked` sets anew while the process goes on waiting.

* `readyOk_step`: what has been added up and what promotions have discarded make up the time waited.
* `totalReadyTime_dispatch`: hence the account is exact at a dispatch if and only if the process has
  not been promoted since its allocation, and short by at least the aging threshold for each
  promotion.
-/

namespace Xv6Riscv

/-- What there is to remember of the waiting of a process, since it was allocated. -/
structure ReadyHistory where
  /-- the tick of the last transition to `RUNNABLE` -/
  since : ℕ
  /-- the ticks from those transitions to the dispatches that followed, added up -/
  waited : ℕ
  /-- the promotions by `mlfq_age_locked` -/
  promotions : ℕ
  /-- the ticks since `ready_since` at the promotions, added up -/
  lost : ℕ

namespace ReadyHistory

/-- The history of a process just allocated. -/
def zero : ReadyHistory := ⟨0, 0, 0, 0⟩

/-- The history of the process in the slot `i` after an operation. -/
def step (g : ReadyHistory) (k : Kernel) (o : Op) (i : Slot) : ReadyHistory :=
  if o = .allocproc i then zero
  else if (k.proc i).state ≠ .runnable ∧ ((k.apply o).proc i).state = .runnable then
    { g with since := k.ticks.toNat }
  else if o = .dispatch i then
    { g with waited := g.waited + (k.ticks.toNat - g.since) }
  else if o = .age i ∧ (k.proc i).Promotes k.now then
    { g with
      promotions := g.promotions + 1
      lost := g.lost + (k.now - (k.proc i).readySince).toNat }
  else g

variable {g : ReadyHistory} {k : Kernel} {o : Op} {i : Slot}

lemma step_of_ready (halloc : o ≠ .allocproc i) (h : (k.proc i).state ≠ .runnable)
    (h' : ((k.apply o).proc i).state = .runnable) :
    g.step k o i = { g with since := k.ticks.toNat } := by
  rw [step, if_neg halloc, if_pos ⟨h, h'⟩]

lemma step_dispatch (h : (k.proc i).state = .runnable) :
    g.step k (.dispatch i) i = { g with waited := g.waited + (k.ticks.toNat - g.since) } := by
  rw [step, if_neg nofun, if_neg (fun hc => hc.1 h), if_pos rfl]

lemma step_promote (h : (k.proc i).Promotes k.now) : g.step k (.age i) i =
    { g with
      promotions := g.promotions + 1
      lost := g.lost + (k.now - (k.proc i).readySince).toNat } := by
  rw [step, if_neg nofun, if_neg (fun hc => hc.1 h.1), if_neg nofun, if_pos ⟨rfl, h⟩]

lemma step_of_keep (halloc : o ≠ .allocproc i)
    (hs : ((k.apply o).proc i).state = .runnable → (k.proc i).state = .runnable)
    (hdisp : o ≠ .dispatch i) (hage : o = .age i → ¬ (k.proc i).Promotes k.now) :
    g.step k o i = g := by
  rw [step, if_neg halloc, if_neg (fun hc => hc.1 (hs hc.2)), if_neg hdisp,
    if_neg (fun hc => hage hc.1 hc.2)]

end ReadyHistory

/-- The histories of all slots after an operation. -/
def readyStep (g : Slot → ReadyHistory) (k : Kernel) (o : Op) : Slot → ReadyHistory :=
  fun i => (g i).step k o i

/-- The histories of all slots, when the kernel booted with the policy `pol` has performed
`ops`. -/
def readyHistory (pol : SchedPolicy) (ops : List Op) : Slot → ReadyHistory :=
  Transition.track Kernel.apply readyStep (fun _ => .zero) (procinit pol) (userinit ++ ops)

/-- How the account of a process and its history agree. -/
structure ReadyOk (now : ℕ) (t : Times) (g : ReadyHistory) : Prop where
  threshold_le : 8 * g.promotions ≤ g.lost
  lost_eq_zero : g.promotions = 0 → g.lost = 0
  runnable : t.state = .runnable →
    g.waited ≤ g.since ∧ g.since ≤ t.readySince.toNat ∧ t.readySince.toNat ≤ now ∧
      t.totalReadyTime.toNat + g.lost = g.waited + (t.readySince.toNat - g.since)
  other : t.state ≠ .runnable → t.state ≠ .unused →
    g.waited ≤ now ∧ t.totalReadyTime.toNat + g.lost = g.waited

namespace ReadyOk

variable {now now' : ℕ} {t : Times} {g : ReadyHistory}

lemma mono (h : ReadyOk now t g) (hle : now ≤ now') : ReadyOk now' t g where
  __ := h
  runnable hs := by
    obtain ⟨h1, h2, h3, h4⟩ := h.runnable hs
    exact ⟨h1, h2, h3.trans hle, h4⟩
  other hs hu := by
    obtain ⟨h1, h2⟩ := h.other hs hu
    exact ⟨h1.trans hle, h2⟩

lemma of_unused (h : ReadyOk now t g) {t' : Times} (hs : t'.state = .unused) :
    ReadyOk now t' g where
  __ := h
  runnable hr := absurd (hs.symm.trans hr) (by decide)
  other _ hu := absurd hs hu

lemma allocated (now : ℕ) (n : UInt64) : ReadyOk now (.allocated n) .zero where
  threshold_le := le_refl 0
  lost_eq_zero _ := rfl
  runnable hs := by cases hs
  other _ _ := ⟨Nat.zero_le _, rfl⟩

lemma other_state (h : ReadyOk now t g) (hs : t.state ≠ .runnable ∧ t.state ≠ .unused) {t' : Times}
    (hs' : t'.state ≠ .runnable) (ht : t'.totalReadyTime = t.totalReadyTime) :
    ReadyOk now t' g where
  __ := h
  runnable hr := absurd hr hs'
  other _ _ := by
    rw [ht]
    exact h.other hs.1 hs.2

variable {n : UInt64}

lemma ready (h : ReadyOk n.toNat t g) (hs : t.state ≠ .runnable) (hu : t.state ≠ .unused) :
    ReadyOk n.toNat (t.ready n) { g with since := n.toNat } where
  __ := h
  runnable _ := by
    obtain ⟨hle, heq⟩ := h.other hs hu
    refine ⟨hle, le_refl _, le_refl _, ?_⟩
    show t.totalReadyTime.toNat + g.lost = g.waited + (n.toNat - n.toNat)
    omega
  other hs' := absurd rfl hs'

/-- The process is dispatched: what has passed since `ready_since` is added to the account. -/
lemma dispatched (hn : n.toNat < 2 ^ 32) (h : ReadyOk n.toNat t g) (hs : t.state = .runnable) :
    ReadyOk n.toNat (t.dispatched n) { g with waited := g.waited + (n.toNat - g.since) } where
  __ := h
  runnable hs' := by cases hs'
  other _ _ := by
    obtain ⟨h1, h2, h3, h4⟩ := h.runnable hs
    have hsub : (n - t.readySince).toNat = n.toNat - t.readySince.toNat :=
      UInt64.toNat_sub_of_le _ _ (UInt64.le_iff_toNat_le.mpr h3)
    have hadd : (t.totalReadyTime + (n - t.readySince)).toNat
        = t.totalReadyTime.toNat + (n.toNat - t.readySince.toNat) := by
      rw [UInt64.toNat_add, hsub]
      exact Nat.mod_eq_of_lt (by omega)
    refine ⟨?_, ?_⟩
    · show g.waited + (n.toNat - g.since) ≤ n.toNat
      omega
    · show (t.totalReadyTime + (n - t.readySince)).toNat + g.lost = g.waited + (n.toNat - g.since)
      rw [hadd]
      omega

/-- The process is promoted: what has passed since `ready_since` is discarded. -/
lemma promoted (h : ReadyOk n.toNat t g) (hs : t.state = .runnable)
    (hold : schedMlfqAgingThreshold ≤ n - t.readySince) : ReadyOk n.toNat { t with readySince := n }
      { g with
        promotions := g.promotions + 1
        lost := g.lost + (n - t.readySince).toNat } := by
  obtain ⟨h1, h2, h3, h4⟩ := h.runnable hs
  have hsub : (n - t.readySince).toNat = n.toNat - t.readySince.toNat :=
    UInt64.toNat_sub_of_le _ _ (UInt64.le_iff_toNat_le.mpr h3)
  have h8 : 8 ≤ (n - t.readySince).toNat := UInt64.le_iff_toNat_le.mp hold
  have hge := h.threshold_le
  exact
    { threshold_le := by
        show 8 * (g.promotions + 1) ≤ g.lost + (n - t.readySince).toNat
        omega
      lost_eq_zero := fun h0 => absurd h0 (Nat.succ_ne_zero _)
      runnable := fun _ => by
        refine ⟨h1, h2.trans h3, le_refl _, ?_⟩
        show t.totalReadyTime.toNat + (g.lost + (n - t.readySince).toNat)
          = g.waited + (n.toNat - g.since)
        omega
      other := fun hs' => absurd hs hs' }

end ReadyOk

/-- **One operation keeps the account of every process in agreement with its history.** -/
theorem readyOk_step {k : Kernel} {o : Op} {i : Slot} {g : ReadyHistory} (ho : o.OkNoWrap k)
    (h : ReadyOk k.ticks.toNat (k.proc i).times g) :
    ReadyOk (k.apply o).ticks.toNat ((k.apply o).proc i).times (g.step k o i) := by
  refine ReadyOk.mono (?_ : ReadyOk k.now.toNat _ _) ?_
  swap
  · rw [ho.ticks]
    exact Nat.le_add_right _ _
  have hnow : ReadyOk k.now.toNat (k.proc i).times g := h
  have hch := apply_times ho.1 i
  have hst : (k.proc i).times.state = (k.proc i).state := rfl
  have hst' : ((k.apply o).proc i).times.state = ((k.apply o).proc i).state := rfl
  have hrs : (k.proc i).times.readySince = (k.proc i).readySince := rfl
  generalize (k.proc i).times = t at hnow hch hst hrs
  generalize ((k.apply o).proc i).times = t' at hch hst' ⊢
  cases hch with
  | allocproc =>
    rw [ReadyHistory.step, if_pos rfl]
    exact .allocated _ _
  | freeproc | reap =>
    rw [ReadyHistory.step_of_keep (by nofun) (fun hr => ?_) (by nofun) (by nofun)]
    · exact hnow.of_unused rfl
    · exact absurd (hst'.trans hr) (by decide)
  | ready hc =>
    have hs : t.state ≠ .runnable ∧ t.state ≠ .unused ∧ o ≠ .allocproc i := by
      generalize t.state = s at hc
      cases hc <;> exact ⟨by decide, by decide, nofun⟩
    rw [ReadyHistory.step_of_ready hs.2.2 (hst ▸ hs.1) hst'.symm]
    exact hnow.ready hs.1 hs.2.1
  | dispatch hs =>
    rw [ReadyHistory.step_dispatch (hst ▸ hs)]
    exact hnow.dispatched k.ticks.toNat_lt hs
  | tick hs =>
    rw [ReadyHistory.step_of_keep (by nofun) (fun hr => ?_) (by nofun) (by nofun)]
    · refine hnow.other_state (by rw [hs]; decide) ?_ rfl
      show t.state ≠ .runnable
      rw [hs]
      decide
    · exact absurd (hs.symm.trans (hst'.trans hr)) (by decide)
  | promote hs hold hp =>
    rw [ReadyHistory.step_promote hp, ← hrs]
    exact hnow.promoted hs hold
  | sleep hs | exit hs =>
    rw [ReadyHistory.step_of_keep (by nofun) (fun hr => ?_) (by nofun) (by nofun)]
    · exact hnow.other_state (by rw [hs]; decide) nofun rfl
    · cases hst'.trans hr
  | keep halloc hdisp _ _ hage =>
    rw [ReadyHistory.step_of_keep halloc (fun hr => ?_) hdisp hage]
    · exact hnow
    · rw [← hst, hst', hr]

lemma readyOk_after {pol : SchedPolicy} {ops : List Op} (h : (bootKernel pol).Legal ops)
    (hc : ops.count .clock < 2 ^ 32) (i : Slot) :
    ReadyOk ((bootKernel pol).after ops).ticks.toNat (((bootKernel pol).after ops).proc i).times
      (readyHistory pol ops i) := by
  have hlegal : (procinit pol).Legal (userinit ++ ops) :=
    Transition.legal_append.mpr ⟨userinit_legal pol, h⟩
  have hcount : (procinit pol).ticks.toNat + (userinit ++ ops).count .clock < 2 ^ 32 := by
    rw [List.count_append]
    show 0 + (0 + ops.count .clock) < 2 ^ 32
    omega
  have hinit : ∀ i, ReadyOk (procinit pol).ticks.toNat ((procinit pol).proc i).times .zero :=
    fun i => (ReadyOk.allocated 0 0).of_unused rfl
  have hall := Transition.track_invariant (I := fun (k : Kernel) (g : Slot → ReadyHistory) =>
      ∀ i, ReadyOk k.ticks.toNat (k.proc i).times (g i))
    (fun k g o hk ho i => readyOk_step ho (hk i)) hinit (legal_noWrap hlegal hcount).1
  rw [List.foldl_append] at hall
  exact hall i

/-- **The account at a dispatch**: it is what the process has waited, less what has been discarded
by promotions; so it is exact if and only if there was none. -/
theorem totalReadyTime_dispatch {pol : SchedPolicy} {ops : List Op} {p : Slot}
    (h : (bootKernel pol).Legal (ops ++ [.dispatch p])) (hc : ops.count .clock < 2 ^ 32) :
    let q := ((bootKernel pol).after (ops ++ [.dispatch p])).proc p
    let g := readyHistory pol (ops ++ [.dispatch p]) p
    q.totalReadyTime.toNat + 8 * g.promotions ≤ g.waited ∧
      (q.totalReadyTime.toNat = g.waited ↔ g.promotions = 0) := by
  intro q g
  have hcount : (ops ++ [Op.dispatch p]).count .clock < 2 ^ 32 := by
    rw [List.count_append]
    exact hc
  have hok : ReadyOk _ q.times g := readyOk_after h hcount p
  have hrun : q.state = .running := by
    show (((bootKernel pol).after (ops ++ [.dispatch p])).proc p).state = _
    rw [Kernel.after, List.foldl_append, List.foldl_cons, List.foldl_nil,
      Kernel.apply_proc_self _ _ rfl]
    rfl
  have hrun' : q.times.state = .running := hrun
  have heq : q.totalReadyTime.toNat + g.lost = g.waited :=
    (hok.other (by rw [hrun']; decide) (by rw [hrun']; decide)).2
  have hge := hok.threshold_le
  have hzero := hok.lost_eq_zero
  refine ⟨by omega, fun he => by omega, fun h0 => ?_⟩
  have := hzero h0
  omega

end Xv6Riscv
