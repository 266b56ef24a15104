import ShortSched.System

/-! Links are kept: apart from `schedule` and `setscheduler`, no operation takes a task off
the runqueue for good. -/
namespace ShortSched
open Relation

/-- Every task that is linked before is linked after. -/
def Keeps (k k' : Kernel) : Prop := ∀ q, (k.core q).runList ≠ none → (k'.core q).runList ≠ none

section
variable {HZ : ℕ} {ps : Ptrs} {π : Guard} {c c' : Core} {k k' k'' : Kernel} {p : TaskId}

theorem Keeps.trans (h : Keeps k k') (h' : Keeps k' k'') : Keeps k k'' :=
  fun q hq => h' q (h q hq)

theorem Quiet.keeps (h : Quiet k k') : Keeps k k' := fun q hq => by rwa [h.core]

theorem Only.keeps (h : Only p c k k') (hc : (k.core p).runList ≠ none → c.runList ≠ none) :
    Keeps k k' := by
  intro q hq
  by_cases hqp : q = p
  · subst hqp
    rw [h.self]
    exact hc hq
  · rwa [h.rest hqp]

theorem TickStep.linked (h : TickStep HZ ps c c') (hl : c.runList ≠ none) :
    c'.runList ≠ none := by
  cases h with
  | skip => exact hl
  | down => exact hl
  | _ => exact Option.some_ne_none _

theorem ShareStep.linked (h : ShareStep HZ ps π c c') (hl : c.runList ≠ none) :
    c'.runList ≠ none := by
  have hf : ∀ n, (c.forking.withSlice n).runList ≠ none := by
    intro n
    unfold Core.forking
    split_ifs <;> exact hl
  cases h with
  | fork => exact hf _
  | forkTick _ _ _ _ hstep => exact hstep.linked (hf 1)
  | reap => exact hl
  | orphan => exact hl

theorem schedulerTick_keeps (h : schedulerTick HZ k = some k')
    (hidle : ¬ (k.core k.rq.idle).IsShort) : Keeps k k' := by
  obtain ⟨c, hstep, hc⟩ := schedulerTick_step h hidle
  exact hc.keeps hstep.linked

theorem activateTask_keeps (h : activateTask HZ p k = some k') : Keeps k k' := by
  obtain ⟨-, i, -, hc⟩ := activateTask_only h
  exact hc.keeps fun _ => Option.some_ne_none _

theorem tryToWakeUp_keeps (h : tryToWakeUp HZ p k = some k') : Keeps k k' := by
  rcases tryToWakeUp_only h with ⟨-, hc⟩ | ⟨-, -, i, -, hc⟩
  · exact hc.keeps id
  · exact hc.keeps fun _ => Option.some_ne_none _

theorem requeueParent_keeps (h : requeueParent HZ p k = some k') : Keeps k k' := by
  obtain ⟨-, m, hm, -, h⟩ | ⟨-, rfl⟩ := requeueParent_cases h
  · obtain ⟨-, i, -, h2⟩ := (deactivateTask_only hm).2.activate h
    exact h2.keeps fun _ => Option.some_ne_none _
  · exact fun _ => id

theorem wakeUpForkedProcess_keeps (h : wakeUpForkedProcess HZ p k = some k') : Keeps k k' := by
  obtain ⟨l, m, n, i, h1, h2, -, h3, h4⟩ := wakeUpForkedProcess_only h
  exact (((h1.keeps id).trans (requeueParent_keeps h2)).trans (h3.keeps id)).trans
    (activateTask_keeps h4)

theorem setUserNice_keeps {nice : ℤ} (h : setUserNice p nice k = some k') : Keeps k k' := by
  cases setUserNice_cases h with
  | ignored => exact fun _ => id
  | realTime =>
    exact ((Only.refl k p).mod (g := fun c => { c with staticPrio := niceToPrio nice })
      fun _ => rfl).keeps id
  | unqueued =>
    exact ((Only.refl k p).mod (g := fun c =>
      { c with staticPrio := niceToPrio nice, prio := niceToPrio nice }) fun _ => rfl).keeps id
  | requeued a m n _ _ _ hdown hup =>
    obtain ⟨-, h1⟩ := (Only.refl k p).dequeue hdown
    have h2 := ((h1.mod (g := fun c =>
      { c with staticPrio := niceToPrio nice, prio := niceToPrio nice }) fun _ => rfl).enqueue
      hup).2
    have h3 : Keeps k n := h2.keeps fun _ => Option.some_ne_none _
    split_ifs
    · exact h3.trans ((recordSwitch_quiet _).trans (reschedTask_quiet _)).keeps
    · exact h3

theorem doFork_keeps {child : TaskId} {pid : ℤ} {vfork cloneParent : Bool}
    (h : doFork HZ child pid vfork cloneParent k = some k') (hc : k.current ≠ child)
    (hic : k.rq.idle ≠ child) (hl : (k.core child).runList = none) (hi : IdleOk k) :
    Keeps k k' := by
  obtain ⟨h0, m, n, hm, hn, rfl⟩ := doFork_eq_some.mp h
  obtain ⟨c, hshare, h1⟩ := forkTick_forked (π := Guard.free) hc hic hi.not_short h0
    (fun _ => trivial)
    (fun _ => trivial) hm
  have hm : Keeps k m := by
    intro q hq
    by_cases hqc : q = k.current
    · subst hqc
      rw [h1.left]
      exact hshare.linked hq
    · by_cases hqb : q = child
      · exact absurd (hqb ▸ hl) hq
      · rwa [h1.rest q hqc hqb]
  have hlink : Keeps m (linkChild child cloneParent m) := fun q hq => by
    rwa [linkChild_core]
  have hn := (hm.trans hlink).trans (wakeUpForkedProcess_keeps hn)
  split_ifs
  · exact hn
  · exact hn.trans ((recordSwitch_quiet _).trans (reschedTask_quiet _)).keeps

theorem yieldMove_keeps (h : yieldMove k = some k') : Keeps k k' := by
  obtain ⟨-, a, i, -, -, -, -, h1⟩ := yieldMove_only h
  exact h1.keeps fun _ => Option.some_ne_none _

theorem exitNotify_keeps (reaper childReaper : TaskId) (k : Kernel) :
    Keeps k (exitNotify reaper childReaper k) := by
  intro q hq
  obtain ⟨c, hs, he⟩ := exitNotify_core 0 Guard.free reaper childReaper k q
  have hc : c.runList ≠ none := by
    rcases hs with rfl | hs
    · exact hq
    · exact hs.linked hq
  rw [he]
  split_ifs <;> exact hc

theorem releaseTask_keeps (p : TaskId) (k : Kernel) : Keeps k (releaseTask HZ p k) := by
  obtain ⟨-, -, -, -, hrest, hcur⟩ := releaseTask_core HZ Guard.free p k
  intro q hq
  by_cases hqc : q = k.current
  · subst hqc
    rcases hcur with h | h
    · rwa [h]
    · exact (h trivial).linked hq
  · rwa [hrest q hqc]

/-! Array pointers: a task that points to an array is linked. -/

/-- `array` is NULL for a task that is not linked. -/
def Core.Attached (c : Core) : Prop := c.array ≠ none → c.runList ≠ none

/-- No task becomes SHORT. -/
def quietGuard : Guard := { Guard.free with enter := fun _ _ _ => False }

theorem TickStep.attached (h : TickStep HZ ps c c') (hc : c.Attached) : c'.Attached := by
  cases h with
  | skip => exact hc
  | down => exact hc
  | _ => exact fun _ => Option.some_ne_none _

theorem Core.Attached.forking (hc : c.Attached) (n : ℕ) : (c.forking.withSlice n).Attached := by
  unfold Core.forking
  split_ifs <;> exact hc

theorem ShareStep.attached (h : ShareStep HZ ps π c c') (hc : c.Attached) : c'.Attached := by
  cases h with
  | fork => exact hc.forking _
  | forkTick _ _ _ _ hstep => exact hstep.attached (hc.forking 1)
  | reap => exact hc
  | orphan => exact hc

theorem TaskStep.attached (h : TaskStep HZ ps quietGuard c c') (hc : c.Attached) :
    c'.Attached := by
  cases h with
  | tick h => exact h.attached hc
  | share h => exact h.attached hc
  | activate => exact fun _ => Option.some_ne_none _
  | yield => exact fun _ => Option.some_ne_none _
  | niceOn => exact fun _ => Option.some_ne_none _
  | deactivate => exact fun ha => absurd rfl ha
  | enter r n hp ha hg => exact hg.elim
  | _ => exact hc

theorem IdleStep.attached (h : IdleStep HZ ps π c c') (hc : c.Attached) : c'.Attached := by
  cases h with
  | tick h => exact h.attached hc
  | share h => exact h.attached hc
  | running => exact hc
  | deactivate => exact fun ha => absurd rfl ha
  | park => exact fun ha => absurd rfl ha

theorem Core.Attached.forked (i : ℤ) : (c.forked.withPrio i).Attached := fun ha => absurd rfl ha

end
end ShortSched
