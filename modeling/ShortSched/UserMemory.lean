import ShortSched.PolicyChange
import ShortSched.PolicyLinks
import ShortSched.Survival

/-! What the two policy system calls make of the user's `param`: a pointer that is NULL,
one to unmapped memory, and one to memory that another thread writes during the call. -/
namespace ShortSched
open PartialRun

def PolicyCall.param : PolicyCall → Option UserParam
  | .sysSchedSetscheduler _ _ param => param
  | .sysSchedSetparam _ param => param

/-- Both calls read and write through the user pointer only as one snapshot allows. -/
structure OneSnapshot (HZ : ℕ) (c : PolicyCall) (k : Kernel) : Prop where
  null : c.param = none → c.run HZ k = some (-EINVAL, k)
  unmapped : ∀ u, c.param = some u → u.lp = none → c.run HZ k = some (-EFAULT, k)
  stored : ∀ u p k', c.param = some u → c.run HZ k = some (0, k') →
    findProcessByPid k c.pid = some p → (k.tasks p).policy = .other →
    (k'.tasks p).policy = .short →
      (k'.tasks p).requestedTime = u.deref .requestedTimeMax ∧
      (k'.tasks p).requestedTime = u.deref .requestedTimeMin ∧
      (k'.tasks p).numberOfTrials = u.deref .trialNumMin ∧
      (k'.tasks p).numberOfTrials = u.deref .trialNumMax ∧
      1 ≤ (k'.tasks p).requestedTime ∧ (k'.tasks p).requestedTime ≤ 5000 ∧
      1 ≤ (k'.tasks p).numberOfTrials ∧ (k'.tasks p).numberOfTrials ≤ 50

/-- The reads for the store return what the reads for the range check returned. -/
def UserParam.Settled (u : UserParam) : Prop :=
  u.deref .requestedTimeStore = u.deref .requestedTimeMax ∧
    u.deref .requestedTimeStore = u.deref .requestedTimeMin ∧
    u.deref .trialNumStore = u.deref .trialNumMin ∧
    u.deref .trialNumStore = u.deref .trialNumMax

instance (u : UserParam) : Decidable u.Settled :=
  inferInstanceAs (Decidable (_ ∧ _ ∧ _ ∧ _))

/-- A NULL or unmapped pointer does not come with `SCHED_SHORT`, nor the unmapped one with a
negative pid; and a call that makes an OTHER task SHORT finds the memory settled. -/
structure PointerSafe (c : PolicyCall) (k : Kernel) : Prop where
  null : c.param = none → c.op.policyArg ≠ 4
  unmapped : ∀ u, c.param = some u → u.lp = none → c.op.policyArg ≠ 4 ∧ 0 ≤ c.pid
  settled : ∀ acc, c.op.accepted k = some acc → (k.tasks acc.target).policy = .other →
    acc.policy = .short → acc.user.Settled

section
variable {HZ : ℕ} {k k' : Kernel} {p : TaskId} {pid policy r : ℤ} {param : Option UserParam}
  {u : UserParam} {acc : Accepted} {c : PolicyCall}

theorem setscheduler_null : setscheduler HZ pid policy none k = some (-EINVAL, k) := rfl

theorem setscheduler_unmapped (h : u.lp = none) : setscheduler HZ pid policy (some u) k =
    some (if pid < 0 then -EINVAL else -EFAULT, k) := by
  unfold setscheduler setschedulerCheck
  by_cases hp : pid < 0
  · simp [hp, throw, throwThe, MonadExceptOf.throw]
  · simp [hp, h, throw, throwThe, MonadExceptOf.throw]

/-- The store to `param->sched_priority` in the entry goes through the pointer. -/
theorem PolicyCall.run_null (h : c.param = none) :
    c.run HZ k = if c.op.policyArg = 4 then none else some (-EINVAL, k) := by
  cases c with
  | sysSchedSetscheduler pid policy param =>
    obtain rfl : param = none := h
    change ShortSched.sysSchedSetscheduler HZ pid policy none k = if policy = 4 then _ else _
    unfold ShortSched.sysSchedSetscheduler
    rw [setscheduler_null]
    rfl
  | sysSchedSetparam pid param =>
    obtain rfl : param = none := h
    rfl

theorem PolicyCall.run_unmapped (h : c.param = some u) (hu : u.lp = none) :
    c.run HZ k = if c.op.policyArg = 4 then none
      else some (if c.pid < 0 then -EINVAL else -EFAULT, k) := by
  cases c with
  | sysSchedSetscheduler pid policy param =>
    obtain rfl : param = some u := h
    change ShortSched.sysSchedSetscheduler HZ pid policy (some u) k = if policy = 4 then _ else _
    unfold ShortSched.sysSchedSetscheduler
    simp only [setscheduler_unmapped hu, hu, if_true]
    rfl
  | sysSchedSetparam pid param =>
    obtain rfl : param = some u := h
    exact setscheduler_unmapped hu

/-- The entry's store leaves the words that `setscheduler` reads directly. -/
theorem PolicyCall.accepted_passed (h : c.op.accepted k = some acc) :
    (∃ param, Passed k c.pid c.op.policyArg param acc) ∧
      ∃ u, c.param = some u ∧ acc.user.deref = u.deref := by
  cases c with
  | sysSchedSetscheduler pid policy param =>
    have hp := setschedulerCheck_ok (toOption_eq_some.mp h)
    refine ⟨⟨_, hp⟩, ?_⟩
    have hu := hp.param
    split_ifs at hu
    · obtain ⟨u, hu, he⟩ := Option.map_eq_some_iff.mp hu
      refine ⟨u, hu, ?_⟩
      rw [← he]
      rfl
    · exact ⟨acc.user, hu, rfl⟩
  | sysSchedSetparam pid param =>
    have hp := setschedulerCheck_ok (toOption_eq_some.mp h)
    exact ⟨⟨_, hp⟩, acc.user, hp.param, rfl⟩

/-- An accepted call that can be carried out returns 0. -/
theorem PolicyCall.run_accepted (h : c.op.accepted k = some acc)
    (ha : setschedulerApply HZ acc k = some k') : c.run HZ k = some (0, k') := by
  have hrun : ∀ {pid policy param}, setschedulerCheck k pid policy param = .ok acc →
      setscheduler HZ pid policy param k = some (0, k') := by
    intro pid policy param hc
    rw [setscheduler, hc]
    exact congrArg (Option.map fun k => (0, k)) ha
  cases c with
  | sysSchedSetscheduler pid policy param =>
    have hok := toOption_eq_some.mp h
    apply sysSchedSetscheduler_total _ (hrun hok)
    intro (h4 : policy = 4)
    have hp := setschedulerCheck_ok hok
    have hu := hp.param
    rw [if_pos h4] at hu
    obtain ⟨u, hu, he⟩ := Option.map_eq_some_iff.mp hu
    refine ⟨u, hu, fun hn => ?_⟩
    have hlp := hp.lp
    rw [← he, UserParam.clearPriority, hn] at hlp
    cases hlp
  | sysSchedSetparam pid param => exact hrun (toOption_eq_some.mp h)

/-- An OTHER task that becomes SHORT gets the values that the store reads. -/
theorem Applied.stored (h : Applied HZ acc k k') (ho : (k.core acc.target).policy = .other)
    (hs : acc.policy = .short) :
    (k'.core acc.target).requestedTime = acc.user.deref .requestedTimeStore ∧
      (k'.core acc.target).numberOfTrials = acc.user.deref .trialNumStore ∧
      (k'.core acc.target).currentTrial = 0 := by
  cases h with
  | becomes d m hp hs hd hm h =>
    have hself : m.core acc.target = d := hm.self
    rcases schedule_core h acc.target with he | he | he <;> rw [he, hself] <;>
      rcases hd.eq_or_on with rfl | ⟨a, i, rfl⟩ <;> exact ⟨rfl, rfl, rfl⟩
  | stays hp hs h => cases ho.symm.trans hp
  | changes d hs' hd h => exact absurd hs hs'

/-- Only `SCHED_SHORT` as an argument makes an OTHER task SHORT, so the range was checked. -/
theorem Passed.inRange (h : Passed k pid policy param acc)
    (ho : (k.tasks acc.target).policy = .other) (hs : acc.policy = .short) :
    ¬ acc.user.outOfRange := by
  apply h.range
  have hq := h.policy
  unfold effectivePolicy at hq
  split_ifs at hq with hneg
  · rw [ho, hs] at hq
    cases hq
  · rw [hs] at hq
    exact Policy.ofCode_eq_some.mp hq

theorem UserParam.Settled.ranges (h : u.Settled) (hr : ¬ u.outOfRange) :
    1 ≤ u.deref .requestedTimeStore ∧ u.deref .requestedTimeStore ≤ 5000 ∧
      1 ≤ u.deref .trialNumStore ∧ u.deref .trialNumStore ≤ 50 := by
  simp only [UserParam.outOfRange, not_or, not_lt] at hr
  obtain ⟨h1, h2, h3, h4⟩ := h
  omega

end

/-- In a state in which an accepted call can be carried out, the two system calls use one
snapshot of user memory exactly when the pointer is safe. -/
theorem setscheduler_one_snapshot_iff (HZ : ℕ) (k : Kernel) (c : PolicyCall)
    (hlive : ∀ acc, c.op.accepted k = some acc → ∃ k', setschedulerApply HZ acc k = some k') :
    OneSnapshot HZ c k ↔ PointerSafe c k := by
  constructor
  · intro h
    constructor
    · intro hn h4
      have hrun := h.null hn
      rw [c.run_null hn, if_pos h4] at hrun
      cases hrun
    · intro u hu hlp
      have hrun := h.unmapped u hu hlp
      rw [c.run_unmapped hu hlp] at hrun
      split_ifs at hrun with h4 hneg
      · cases hrun
      · exact ⟨h4, not_lt.mp hneg⟩
    · intro acc hacc ho hs
      obtain ⟨k', hk'⟩ := hlive acc hacc
      obtain ⟨⟨param, hp⟩, u, hu, hderef⟩ := c.accepted_passed hacc
      have happ := setschedulerApply_applied hk' hp
      have hpol : (k'.core acc.target).policy = .short := happ.policy_eq.trans hs
      obtain ⟨hr1, hr2, hn1, hn2, -⟩ := h.stored u acc.target k' hu (c.run_accepted hacc hk')
        hp.target ho hpol
      obtain ⟨hr, hn, -⟩ := happ.stored ho hs
      rw [← hderef] at hr1 hr2 hn1 hn2
      exact ⟨hr.symm.trans hr1, hr.symm.trans hr2, hn.symm.trans hn1, hn.symm.trans hn2⟩
  · intro h
    constructor
    · intro hn
      rw [c.run_null hn, if_neg (h.null hn)]
    · intro u hu hlp
      obtain ⟨h4, hpos⟩ := h.unmapped u hu hlp
      rw [c.run_unmapped hu hlp, if_neg h4, if_neg (not_lt.mpr hpos)]
    · intro u p k' hu hrun htarget ho hs
      rcases c.run_cases hrun with ⟨-, rfl⟩ | ⟨acc, hacc, ht, hk'⟩
      · cases ho.symm.trans hs
      · obtain rfl : p = acc.target := Option.some.inj (htarget.symm.trans ht)
        obtain ⟨⟨param, hp⟩, u', hu', hderef⟩ := c.accepted_passed hacc
        obtain rfl : u = u' := Option.some.inj (hu.symm.trans hu')
        have happ := setschedulerApply_applied hk' hp
        have hpol : acc.policy = .short := happ.policy_eq.symm.trans hs
        have hset := h.settled acc hacc ho hpol
        obtain ⟨hr, hn, -⟩ := happ.stored ho hpol
        obtain ⟨h1, h2, h3, h4⟩ := hset.ranges (hp.inRange ho hpol)
        obtain ⟨hr1, hr2, hn1, hn2⟩ := hset
        rw [hderef] at hr1 hr2 hn1 hn2 h1 h2 h3 h4 hr hn
        change (k'.tasks acc.target).requestedTime = _ at hr
        change (k'.tasks acc.target).numberOfTrials = _ at hn
        rw [hr, hn]
        exact ⟨hr1, hr2, hn1, hn2, h1, h2, h3, h4⟩

/-- Task 1 becomes SHORT with parameters that nobody changes. -/
theorem setscheduler_one_snapshot_iff_startTask : ∃ k ∈ runFromBoot 512 startTask,
    OneSnapshot 512 (.sysSchedSetscheduler 0 4 (shortParam 100 5)) k ∧
      ∃ x ∈ PolicyCall.run 512 (.sysSchedSetscheduler 0 4 (shortParam 100 5)) k, x.1 = 0 := by
  obtain ⟨k, hk, hlive, hset, hx⟩ : ∃ k ∈ runFromBoot 512 startTask,
      (∀ acc ∈ (Op.sysSchedSetscheduler 0 4 (shortParam 100 5)).accepted k,
        (setschedulerApply 512 acc k).isSome) ∧
      (∀ acc ∈ (Op.sysSchedSetscheduler 0 4 (shortParam 100 5)).accepted k,
        acc.user.Settled) ∧
      ∃ x ∈ PolicyCall.run 512 (.sysSchedSetscheduler 0 4 (shortParam 100 5)) k, x.1 = 0 := by
    decide +kernel
  refine ⟨k, hk, (setscheduler_one_snapshot_iff 512 k
    (.sysSchedSetscheduler 0 4 (shortParam 100 5)) fun acc hacc =>
      Option.isSome_iff_exists.mp (hlive acc hacc)).mpr ⟨?_, ?_, ?_⟩, hx⟩
  · intro hn
    cases hn
  · intro u hu hlp
    cases hu
    cases hlp
  · intro acc hacc _ _
    exact hset acc hacc

/-- Parameters in range until the range check is through. -/
def rewrittenParam : UserParam where
  lp := some ⟨0, 100, 5, 0⟩
  deref r := if r = .requestedTimeStore then 1000000
    else (UserParam.unchanged ⟨0, 100, 5, 0⟩).deref r

/-- The call with NULL goes through the pointer, and a rewritten `param` makes task 1 SHORT with
a requested time that no check saw. -/
theorem setscheduler_snapshot_broken : ∃ k ∈ runFromBoot 512 startTask,
    PolicyCall.run 512 (.sysSchedSetscheduler 0 4 none) k = none ∧
    ¬ OneSnapshot 512 (.sysSchedSetscheduler 0 4 none) k ∧
    (∃ x ∈ PolicyCall.run 512 (.sysSchedSetscheduler 0 4 (some rewrittenParam)) k, x.1 = 0 ∧
      (x.2.tasks 1).policy = .short ∧ (x.2.tasks 1).requestedTime = 1000000) ∧
    ¬ OneSnapshot 512 (.sysSchedSetscheduler 0 4 (some rewrittenParam)) k := by
  obtain ⟨k, hk, hf, ho, ⟨r, k'⟩, hx, h0, hs, hr⟩ : ∃ k ∈ runFromBoot 512 startTask,
      findProcessByPid k 0 = some 1 ∧ (k.tasks 1).policy = .other ∧
      ∃ x ∈ PolicyCall.run 512 (.sysSchedSetscheduler 0 4 (some rewrittenParam)) k, x.1 = 0 ∧
        (x.2.tasks 1).policy = .short ∧ (x.2.tasks 1).requestedTime = 1000000 := by
    decide +kernel
  have hnull : PolicyCall.run 512 (.sysSchedSetscheduler 0 4 none) k = none := rfl
  refine ⟨k, hk, hnull, ?_, ⟨(r, k'), hx, h0, hs, hr⟩, ?_⟩
  · intro h
    cases hnull.symm.trans (h.null rfl)
  · intro h
    obtain rfl : r = 0 := h0
    have hstored := (h.stored rewrittenParam 1 k' rfl hx hf ho hs).1
    rw [hr] at hstored
    exact absurd hstored (by decide)

end ShortSched
