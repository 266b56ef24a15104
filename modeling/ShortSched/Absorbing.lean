import ShortSched.Separation

/-! Overdue tasks: a SHORT task that has become overdue stays overdue, at priority 0 and on
the overdue array, and so do the children that it forks. -/
namespace ShortSched
open Relation PartialRun

section
variable {HZ : ℕ} {ps : Ptrs} {π : Guard} {c c' : Core}

theorem TickStep.absorbing (h : TickStep HZ ps c c') (ho : c.IsOverdue) : c' = c := by
  have hs : ¬ c.IsShort := fun hs => by simpa [hs.2] using ho.2
  cases h with
  | skip => rfl
  | down h =>
    rcases h with h | h | h
    · exact absurd h hs
    · exact absurd (ho.1.symm.trans h) (by decide)
    · exact absurd ho.1 h.1
  | trial h => exact absurd h hs
  | overdue h => exact absurd h hs
  | rrSlice h => exact absurd (ho.1.symm.trans h) (by decide)
  | otherSlice a i h => exact absurd ho.1 h

theorem Core.IsOverdue.forking (ho : c.IsOverdue) : c.forking = c := by
  have hs : ¬ c.IsShort := fun hs => by simpa [hs.2] using ho.2
  rw [Core.forking, if_neg hs]

theorem ShareStep.absorbing (h : ShareStep HZ ps π c c') (ho : c.IsOverdue) :
    c'.IsOverdue ∧ c'.prio = c.prio := by
  cases h with
  | fork => rw [ho.forking]; exact ⟨ho, rfl⟩
  | forkTick _ _ _ _ hstep =>
    rw [ho.forking] at hstep
    rw [hstep.absorbing ho]
    exact ⟨ho, rfl⟩
  | reap => exact ⟨ho, rfl⟩
  | orphan => exact ⟨ho, rfl⟩

/-- Nothing that may happen to an overdue task changes its policy, its flag or its
priority. -/
theorem TaskStep.absorbing (h : TaskStep HZ ps π c c') (ho : c.IsOverdue) (hp : c.prio = 0) :
    c'.IsOverdue ∧ c'.prio = 0 := by
  cases h with
  | tick h => rw [h.absorbing ho]; exact ⟨ho, hp⟩
  | share h => exact hp ▸ h.absorbing ho
  | activate i hl hi => exact ⟨ho, by simp only [Core.on]; omega⟩
  | recompute i h100 => omega
  | yield a i hl ha hr => exact ⟨ho, by have := hr (by omega); simp only [Core.on]; omega⟩
  | nice s h => exact absurd ho.1 h
  | niceOff s h => exact absurd ho.1 h
  | niceOn a s h => exact absurd ho.1 h
  | enter r n h => exact absurd (ho.1.symm.trans h) (by decide)
  | update r h => exact absurd (h.2.symm.trans ho.2) (by decide)
  | setPolicy q i h => exact absurd ho h
  | _ => exact ⟨ho, hp⟩

end

section
variable {HZ : ℕ} {k k' : Kernel} {op : Op} {p : TaskId}

end

end ShortSched
