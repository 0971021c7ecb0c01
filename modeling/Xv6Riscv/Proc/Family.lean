import Xv6Riscv.Proc.Channels

/-!
Parents and zombies.

* `exit_of_zombie`: a zombie has exited, has not been reaped since, and has the status it exited
  with, after any legal sequence of operations.
* `FamilyOk.apply`: every process has a parent that is alive, if `kfork`, `kexit` and `kwait` do
  their part (`Op.Licensed`).
-/

namespace Xv6Riscv

variable {k : Kernel} {o : Op} {i : Slot}

/-! ### Parents -/

/-- The changes of the parent pointer of the process in the slot `i`. -/
inductive ParentChange (i : Slot) : Op → Option Slot → Option Slot → Prop
  | setParent (p : Slot) (old : Option Slot) : ParentChange i (.setParent i p) old (some p)
  | reparent (p : Slot) : ParentChange i (.reparent i p) (some p) (some initproc)
  | reap (old : Option Slot) : ParentChange i (.reap i) old none

lemma effect_parent (k : Kernel) (hi : o.slot = some i) :
    (o.effect k (k.proc i)).parent = (k.proc i).parent ∨
      ParentChange i o (k.proc i).parent (o.effect k (k.proc i)).parent := by
  generalize hq : o.effect k (k.proc i) = q
  cases Op.acts hq with
  | setParent np p =>
    cases hi
    exact .inr (.setParent p _)
  | reap p =>
    cases hi
    exact .inr (.reap _)
  | reparent pp h =>
    cases hi
    rw [h]
    exact .inr (.reparent _)
  | _ => exact .inl rfl

/-- **Only `kfork`, `reparent` and `kwait` change parent pointers.** -/
theorem apply_parent (k : Kernel) (o : Op) (i : Slot) :
    ((k.apply o).proc i).parent = (k.proc i).parent ∨
      ParentChange i o (k.proc i).parent ((k.apply o).proc i).parent := by
  rw [Kernel.apply_proc]
  split_ifs with hi
  · exact effect_parent k hi
  · exact .inl rfl

/-! ### Zombies -/

/-- The operations that end the time of a process as a zombie, or begin it. -/
def Op.Touches (c : Slot) : Op → Prop
  | allocproc p | reap p | exit p _ => p = c
  | _ => False

/-- **A zombie stays as it is until it is reaped.** -/
theorem zombie_apply (ho : o.Ok k) (hz : (k.proc i).state = .zombie) (hreap : o ≠ .reap i) :
    ((k.apply o).proc i).state = .zombie ∧ ((k.apply o).proc i).xstate = (k.proc i).xstate ∧
      ((k.apply o).proc i).pid = (k.proc i).pid ∧ ¬ o.Touches i := by
  by_cases hi : o.slot = some i
  · rw [Kernel.apply_proc_self k o hi]
    generalize hq : o.effect k (k.proc i) = q
    cases Op.acts hq with
    | keep h =>
      refine ⟨hz, rfl, rfl, fun ht => ?_⟩
      cases o with
      | allocproc p | reap p | exit p st => exact h
      | _ => exact ht
    | age | wakeup | kill | setPrio | reparent => exact ⟨hz, rfl, rfl, id⟩
    | awake p _ hs | killAwake p _ hs => exact absurd (hz.symm.trans hs) (by decide)
    | setParent np p =>
      cases hi
      exact absurd (hz.symm.trans ho.1) (by decide)
    | reap p =>
      cases hi
      exact absurd rfl hreap
    | _ =>
      cases hi
      exact absurd (hz.symm.trans ho) (by decide)
  · rw [Kernel.apply_proc_of_ne k o hi]
    refine ⟨hz, rfl, rfl, fun ht => ?_⟩
    cases o with
    | allocproc p | reap p | exit p st =>
      cases ht
      exact hi rfl
    | _ => exact ht

/-- **A zombie has exited and has not been reaped since**; it has the status it exited with, and
the pid it had then. -/
theorem exit_of_zombie {ops : List Op} (hk : ∀ i, (k.proc i).state ≠ .zombie)
    (h : k.Legal ops) (hz : ((k.after ops).proc i).state = .zombie) :
    ∃ before st after, ops = before ++ .exit i st :: after ∧ (∀ o ∈ after, ¬ o.Touches i) ∧
      ((k.after ops).proc i).xstate = st ∧
      ((k.after ops).proc i).pid = ((k.after before).proc i).pid := by
  induction ops using List.reverseRecOn with
  | nil => exact absurd hz (hk i)
  | append_singleton ops o ih =>
    obtain ⟨hlegal, ho, -⟩ := Transition.legal_append.mp h
    have hafter : k.after (ops ++ [o]) = (k.after ops).apply o := List.foldl_append
    rw [hafter] at hz ⊢
    rcases apply_state ho i with hsame | ⟨hslot, hc⟩
    · -- it was a zombie before
      have hz' : ((k.after ops).proc i).state = .zombie := hsame.symm.trans hz
      have hreap : o ≠ .reap i := by
        rintro rfl
        rw [Kernel.apply_proc_self _ _ rfl] at hz
        cases hz
      obtain ⟨-, hx, hpid, htouch⟩ := zombie_apply ho hz' hreap
      obtain ⟨before, st, after, rfl, hno, hst, hp⟩ := ih hlegal hz'
      refine ⟨before, st, after ++ [o], by simp, fun o' ho' => ?_, hx.trans hst, hpid.trans hp⟩
      rcases List.mem_append.mp ho' with ho' | ho'
      · exact hno o' ho'
      · rw [List.mem_singleton.mp ho']
        exact htouch
    · -- it becomes a zombie now
      rw [hz] at hc
      generalize ((k.after ops).proc i).state = s at hc
      cases hc with
      | exit p st =>
        cases hslot
        refine ⟨ops, st, [], rfl, (fun o' ho' => nomatch ho'), ?_, ?_⟩
        · rw [Kernel.apply_proc_self _ _ rfl]
          rfl
        · rw [Kernel.apply_proc_self _ _ rfl]
          rfl

/-! ### What `wait_lock` protects -/

/-- The operations performed with `wait_lock` held. -/
def Op.UsesWait : Op → Prop
  | setParent _ _ | reparent _ _ | reap _ | exit _ _ | sleepPrepare _ (.proc _) => True
  | _ => False

/-- **Without `wait_lock`** parents stay, no process becomes a zombie and no process registers in
`kwait`. -/
theorem apply_of_not_usesWait (ho : o.Ok k) (hw : ¬ o.UsesWait) (i : Slot) :
    ((k.apply o).proc i).parent = (k.proc i).parent ∧
      (((k.apply o).proc i).state = .zombie → (k.proc i).state = .zombie) ∧
      ∀ q, ((k.apply o).proc i).chan = some (.proc q) → (k.proc i).chan = some (.proc q) := by
  refine ⟨?_, fun hz => ?_, fun q hq => ?_⟩
  · rcases apply_parent k o i with h | h
    · exact h
    · generalize (k.proc i).parent = old, ((k.apply o).proc i).parent = new at h
      cases h <;> exact absurd trivial hw
  · rcases apply_state ho i with h | ⟨-, h⟩
    · exact h.symm.trans hz
    · rw [hz] at h
      generalize (k.proc i).state = s at h
      cases h
      exact absurd trivial hw
  · rcases apply_chan hq with h | rfl
    · exact h
    · exact absurd trivial hw

/-! ### The process tree -/

/-- The states of a process that can have children. -/
def ProcState.Live : ProcState → Prop
  | runnable | running | sleeping => True
  | unused | used | zombie => False

/-- The process `q` is registered in `kwait`. -/
def Kernel.Waiting (k : Kernel) (q : Slot) : Prop := (k.proc q).chan = some (.proc q)

/-- The parents in the process table. -/
structure Kernel.FamilyOk (k : Kernel) : Prop where
  unused : ∀ p, (k.proc p).state = .unused → (k.proc p).parent = none
  live : ∀ p q, (k.proc p).parent = some q → (k.proc q).state.Live
  init : (k.proc initproc).state.Live
  parent : ∀ p, p ≠ initproc → (k.proc p).state.Live ∨ (k.proc p).state = .zombie →
    (k.proc p).parent ≠ none

/-- What `kfork`, `kexit` and `kwait` have made sure of when they perform an operation: a slot given
back has no parent and a process made runnable has one; a process that ends is not init, has no
children and has woken its parent; a process that registers in `kwait` has no zombie among its
children. -/
def Op.Licensed (k : Kernel) : Op → Prop
  | freeproc np => (k.proc np).parent = none
  | runnable np => (k.proc np).parent ≠ none
  | exit p _ => p ≠ initproc ∧ (∀ i, (k.proc i).parent ≠ some p) ∧
      ∀ q, (k.proc p).parent = some q → ¬ k.Waiting q
  | sleepPrepare p (.proc q) => q = p ∧ ∀ i, (k.proc i).parent = some p →
      (k.proc i).state ≠ .zombie
  | _ => True

lemma apply_live (ho : o.Ok k) (h : (k.proc i).state.Live) :
    ((k.apply o).proc i).state.Live ∨ ∃ st, o = .exit i st := by
  rcases apply_state ho i with hs | ⟨hslot, hc⟩
  · rw [hs]
    exact .inl h
  · generalize (k.proc i).state = s, ((k.apply o).proc i).state = s' at h hc
    cases hc with
    | dispatch | yield | sleep | wakeup | kill | runnable => exact .inl trivial
    | exit p st =>
      cases hslot
      exact .inr ⟨st, rfl⟩
    | allocproc | freeproc | reap => exact h.elim

/-- **A licensed operation keeps the process tree in order.** -/
theorem Kernel.FamilyOk.apply (h : k.FamilyOk) (ho : o.Ok k) (hl : o.Licensed k) :
    (k.apply o).FamilyOk where
  unused p hu := by
    rcases apply_state ho p with hs | ⟨hslot, hc⟩
    · have hnone := h.unused p (hs.symm.trans hu)
      rcases apply_parent k o p with hp | hp
      · rw [hp, hnone]
      · rw [hnone] at hp
        generalize ((k.apply o).proc p).parent = new at hp
        cases hp with
        | setParent q =>
          have hused : (k.proc p).state = .used := ho.1
          rw [hs, hused] at hu
          cases hu
        | reap => rfl
    · rw [hu] at hc
      generalize (k.proc p).state = s at hc
      cases hc with
      | freeproc q =>
        cases hslot
        rw [Kernel.apply_proc_self _ _ rfl]
        exact hl
      | reap q =>
        cases hslot
        rw [Kernel.apply_proc_self _ _ rfl]
        rfl
  live p q hq := by
    rcases apply_parent k o p with hp | hp
    · rcases apply_live ho (h.live p q (hp.symm.trans hq)) with hlive | ⟨st, rfl⟩
      · exact hlive
      · exact absurd (hp.symm.trans hq) (hl.2.1 p)
    · rw [hq] at hp
      generalize (k.proc p).parent = old at hp
      cases hp with
      | setParent =>
        have hrun : (k.proc q).state = .running := ho.2
        exact (apply_live ho (by rw [hrun]; trivial)).resolve_right nofun
      | reparent q => exact (apply_live ho h.init).resolve_right nofun
  init := by
    rcases apply_live ho h.init with hlive | ⟨st, rfl⟩
    · exact hlive
    · exact absurd rfl hl.1
  parent p hp hs hnone := by
    rcases apply_parent k o p with hpar | hpar
    · -- without a parent before, the process was not alive yet
      have hold : ¬ ((k.proc p).state.Live ∨ (k.proc p).state = .zombie) :=
        fun hc => h.parent p hp hc (hpar.symm.trans hnone)
      rcases apply_state ho p with hsame | ⟨hslot, hc⟩
      · rw [hsame] at hs
        exact hold hs
      · generalize ((k.apply o).proc p).state = s', (k.proc p).state = s at hs hold hc
        cases hc with
        | runnable q =>
          cases hslot
          exact hl (hpar.symm.trans hnone)
        | allocproc | freeproc | reap => rcases hs with hs | hs <;> cases hs
        | dispatch | yield | sleep | wakeup | kill | exit => exact hold (.inl trivial)
    · rw [hnone] at hpar
      generalize (k.proc p).parent = old at hpar
      cases hpar with
      | reap =>
        rw [Kernel.apply_proc_self _ _ rfl] at hs
        rcases hs with hs | hs <;> cases hs

/-- Where a registered process with a zombie child comes from: it was there before, or the child has
just been given to init. -/
lemma zombie_child_apply (ho : o.Ok k) (hl : o.Licensed k) {c q : Slot}
    (hpar : ((k.apply o).proc c).parent = some q) (hz : ((k.apply o).proc c).state = .zombie)
    (hw : (k.apply o).Waiting q) :
    (k.proc c).parent = some q ∧ (k.proc c).state = .zombie ∧ k.Waiting q ∨
      ∃ p, o = .reparent c p ∧ q = initproc := by
  rcases apply_parent k o c with hp | hp
  · have hpar' : (k.proc c).parent = some q := hp.symm.trans hpar
    refine .inl ⟨hpar', ?_, ?_⟩
    · rcases apply_state ho c with hs | ⟨hslot, hc⟩
      · exact hs.symm.trans hz
      · rw [hz] at hc
        generalize (k.proc c).state = s at hc
        cases hc with
        | exit p st =>
          cases hslot
          exact absurd ((apply_chan hw).resolve_right nofun) (hl.2.2 q hpar')
    · rcases apply_chan hw with hw' | rfl
      · exact hw'
      · -- a process registers in `kwait` only when it has no zombie among its children
        refine absurd ?_ (hl.2 c hpar')
        rcases apply_state ho c with hs | ⟨-, hc⟩
        · exact hs.symm.trans hz
        · rw [hz] at hc
          generalize (k.proc c).state = s at hc
          cases hc
  · rw [hpar] at hp
    generalize hold : (k.proc c).parent = old at hp
    cases hp with
    | setParent =>
      have hused : (k.proc c).state = .used := ho.1
      rw [Kernel.apply_proc_self _ _ rfl] at hz
      have hz' : (k.proc c).state = .zombie := hz
      rw [hused] at hz'
      cases hz'
    | reparent p => exact .inr ⟨p, rfl, rfl⟩

lemma bootKernel_parent (pol : SchedPolicy) (i : Slot) :
    ((bootKernel pol).proc i).parent = none := by
  have hrunnable := apply_parent ((procinit pol).apply (.allocproc initproc)) (.runnable initproc) i
  have halloc := apply_parent (procinit pol) (.allocproc initproc) i
  rcases hrunnable with h | h
  · rcases halloc with h' | h'
    · exact h.trans h'
    · cases h'
  · cases h

end Xv6Riscv
