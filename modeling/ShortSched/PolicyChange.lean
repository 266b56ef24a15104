import ShortSched.System

/-! Who may change the policy of a task, and what a call that is refused leaves behind. -/
namespace ShortSched
open Relation

section
variable {HZ : ℕ} {k k' m : Kernel} {p : TaskId} {pid policy r : ℤ} {param : Option UserParam}
  {acc : Accepted}

theorem checkPolicy_retval {t : TaskStruct} {q : Policy} {lp : SchedParam} {e : Rejection}
    (h : checkPolicy k t q lp = .error e) : e.retval < 0 := by
  unfold checkPolicy at h
  split_ifs at h <;> cases h <;> decide

/-- Every refusal returns an error. -/
theorem setschedulerCheck_retval {e : Rejection}
    (h : setschedulerCheck k pid policy param = .error e) : e.retval < 0 := by
  cases param with
  | none =>
    cases h
    decide
  | some u =>
    simp only [setschedulerCheck] at h
    split at h
    next =>
      cases h
      decide
    next =>
      split at h
      next =>
        cases h
        decide
      next lp hlp =>
        split at h
        next =>
          cases h
          decide
        next p hp =>
          split at h
          next =>
            cases h
            decide
          next =>
            split at h
            next =>
              cases h
              decide
            next q hq =>
              cases hc : checkPolicy k (k.tasks p) q lp with
              | error e' =>
                rw [hc] at h
                cases h
                exact checkPolicy_retval hc
              | ok =>
                rw [hc] at h
                cases h

theorem schedule_policy (h : schedule k = some k') (p : TaskId) :
    (k'.core p).policy = (k.core p).policy := by
  rcases schedule_core h p with he | he | he <;> rw [he] <;> rfl

theorem Core.Requeued.policy_eq {ps : Ptrs} {queued : Bool} {c d : Core}
    (h : c.Requeued ps queued d) : d.policy = c.policy := by
  rcases h.eq_or_on with rfl | ⟨a, i, rfl⟩ <;> rfl

/-- An accepted call leaves the target with the effective policy. -/
theorem Applied.policy_eq (h : Applied HZ acc k k') : (k'.core acc.target).policy = acc.policy := by
  cases h with
  | becomes d m hp hs hd hm h =>
    rw [schedule_policy h, hm.self, hd.policy_eq]
    rfl
  | stays hp hs h =>
    rw [h.self, hs]
    exact (k.core acc.target).left_policy.trans hp
  | changes d hs hd h =>
    rw [h.self, hd.policy_eq]
    rfl

end

end ShortSched
