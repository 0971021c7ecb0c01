import Xv6Riscv.Proc.Table

/-!
Registration on wait channels.

`sleep_prepare(chan)` registers the current process, `sleep()` puts it to sleep unless the
registration has been cleared meanwhile, and `wakeup(chan)` clears it, waking the process if it
sleeps already. `p->chan` is the registration; only `sleep_prepare` makes one.

* `chan_after_wakeup`: a registration that a wakeup of its channel has seen is gone, and does not
  come back before the next `sleep_prepare`; so the process is not left sleeping by it.
-/

namespace Xv6Riscv

variable {k : Kernel} {o : Op} {i : Slot} {ch : Chan}

/-- An operation leaves the registration of its process, clears it, or is `sleep_prepare`. -/
lemma effect_chan (k : Kernel) (hi : o.slot = some i) :
    (o.effect k (k.proc i)).chan = (k.proc i).chan ∨ (o.effect k (k.proc i)).chan = none ∨
      ∃ ch, o = .sleepPrepare i ch ∧ (o.effect k (k.proc i)).chan = some ch := by
  generalize hq : o.effect k (k.proc i) = q
  cases Op.acts hq with
  | sleepPrepare p ch =>
    cases hi
    exact .inr (.inr ⟨ch, rfl, rfl⟩)
  | freeproc | reap | wakeup | awake => exact .inr (.inl rfl)
  | _ => exact .inl rfl

/-- **Only `sleep_prepare` registers a process.** -/
theorem apply_chan (h : ((k.apply o).proc i).chan = some ch) :
    (k.proc i).chan = some ch ∨ o = .sleepPrepare i ch := by
  rw [Kernel.apply_proc] at h
  split_ifs at h with hi
  · rcases effect_chan k hi with he | he | ⟨ch', ho, he⟩
    · exact .inl (he.symm.trans h)
    · rw [he] at h
      cases h
    · rw [he] at h
      cases h
      exact .inr ho
  · exact .inl h

lemma wakeup_chan_ne (k : Kernel) (i : Slot) (ch : Chan) :
    ((k.apply (.wakeup i (some ch))).proc i).chan ≠ some ch := by
  rw [Kernel.apply_proc_self k _ rfl, Op.effect, Proc.wakeup_eq]
  split_ifs with h1 h2
  · obtain ⟨l, t, h⟩ := ({ k.proc i with chan := none } : Proc).wake_spec k.policy k.now
    rw [h]
    simp
  · simp
  · exact h1

/-! ### Sleeping processes -/

lemma apply_sleeping (ho : o.Ok k) (h : ((k.apply o).proc i).state = .sleeping) :
    (k.proc i).state = .sleeping ∨ o = .sleep i := by
  rcases apply_state ho i with hs | ⟨hi, hc⟩
  · exact .inl (hs.symm.trans h)
  · rw [h] at hc
    generalize (k.proc i).state = s at hc
    cases hc
    cases hi
    exact .inr rfl

def SleepingOk (p : Proc) : Prop := p.state = .sleeping → p.chan ≠ none

lemma effect_sleepingOk (ho : o.Ok k) (hi : o.slot = some i) (h : SleepingOk (k.proc i)) :
    SleepingOk (o.effect k (k.proc i)) := by
  generalize hq : o.effect k (k.proc i) = q
  cases Op.acts hq with
  | sleep p hch => exact fun _ => hch
  | wakeup p _ hs => exact fun hs' => absurd hs' hs
  | sleepPrepare p ch => exact fun _ => nofun
  | keep | setParent | age | tick | kill | setkilled | setPrio | reparent => exact h
  | _ => nofun

lemma apply_sleepingOk (h : ∀ i, SleepingOk (k.proc i)) (ho : o.Ok k) (i : Slot) :
    SleepingOk ((k.apply o).proc i) := by
  rw [Kernel.apply_proc]
  split_ifs with hi
  · exact effect_sleepingOk ho hi (h i)
  · exact h i

lemma bootKernel_chan (pol : SchedPolicy) (i : Slot) : ((bootKernel pol).proc i).chan = none := by
  cases hch : ((bootKernel pol).proc i).chan with
  | none => rfl
  | some ch =>
    rcases apply_chan hch with h | h
    · rcases apply_chan h with h | h <;> cases h
    · cases h

variable {pol : SchedPolicy} {ops : List Op}

/-- **A sleeping process is registered**, after any legal sequence of operations. -/
theorem sleepingOk_after (h : (bootKernel pol).Legal ops) (i : Slot) :
    SleepingOk (((bootKernel pol).after ops).proc i) := by
  refine Transition.legal_invariant (I := fun k : Kernel => ∀ i, SleepingOk (k.proc i))
    (fun k o hk ho => apply_sleepingOk hk ho) (fun i => ?_) h i
  refine Transition.legal_invariant (I := fun k : Kernel => ∀ i, SleepingOk (k.proc i))
    (fun k o hk ho => apply_sleepingOk hk ho) (fun _ hs => by cases hs) (userinit_legal pol) i

/-! ### Registrations that have been seen by a wakeup -/

lemma chan_after (h : ∀ ch, Op.sleepPrepare i ch ∉ ops)
    (hch : ((k.after ops).proc i).chan = some ch) : (k.proc i).chan = some ch := by
  induction ops generalizing k with
  | nil => exact hch
  | cons o ops ih =>
    have hrest := ih (fun ch hmem => h ch (List.mem_cons_of_mem _ hmem)) hch
    rcases apply_chan hrest with hk | rfl
    · exact hk
    · exact absurd (List.mem_cons_self ..) (h ch)

/-- **A wakeup on its channel ends a registration**: when the process has called
`sleep_prepare(chan)` and a wakeup of `chan` has examined its slot since, without another
`sleep_prepare`, it is not registered at all. -/
theorem chan_after_wakeup {before between after : List Op}
    (hbetween : ∀ ch', Op.sleepPrepare i ch' ∉ between)
    (hafter : ∀ ch', Op.sleepPrepare i ch' ∉ after) :
    ((k.after
      (before ++ .sleepPrepare i ch :: between ++ .wakeup i (some ch) :: after)).proc i).chan
      = none := by
  cases hch : ((k.after
      (before ++ .sleepPrepare i ch :: between ++ .wakeup i (some ch) :: after)).proc i).chan with
  | none => rfl
  | some ch' =>
    rw [Kernel.after, List.foldl_append, List.foldl_append, List.foldl_cons, List.foldl_cons] at hch
    set k1 := (before.foldl Kernel.apply k).apply (.sleepPrepare i ch) with hk1
    have hreg : (k1.proc i).chan = some ch := by
      rw [hk1, Kernel.apply_proc_self _ _ rfl]
      rfl
    -- the registration seen at the end is the one of this `sleep_prepare`, which is gone
    have hwoken := chan_after (k := (k1.after between).apply (.wakeup i (some ch))) hafter hch
    rcases apply_chan hwoken with hseen | hseen
    · have hsame := chan_after hbetween hseen
      rw [hreg] at hsame
      cases hsame
      exact absurd hwoken (wakeup_chan_ne _ i ch)
    · cases hseen

end Xv6Riscv
