import ShortSched.System

/-! The parameters of SHORT tasks and the check that is meant to stand in front of them. -/
namespace ShortSched
open Relation

def Op.StableMemory (op : Op) : Prop := ∀ u ∈ op.param, u.Stable

instance (op : Op) : Decidable op.StableMemory :=
  inferInstanceAs (Decidable (∀ u ∈ op.param, u.Stable))

theorem UserParam.Stable.clearPriority {u : UserParam} (h : u.Stable) :
    u.clearPriority.Stable := by
  intro sp hsp r
  obtain ⟨sp', hsp', rfl⟩ := Option.map_eq_some_iff.mp hsp
  rw [show u.clearPriority.deref r = u.deref r from rfl, h sp' hsp' r]
  cases r <;> rfl

section
variable {k : Kernel} {op : Op} {acc : Accepted}

/-- What an accepted call has passed, whichever of the two system calls it was. -/
theorem Op.accepted_passed (h : op.accepted k = some acc) : ∃ pid param,
    Passed k pid op.policyArg param acc ∧ (op.StableMemory → acc.user.Stable) := by
  cases op with
  | sysSchedSetscheduler pid policy param =>
    have hp := setschedulerCheck_ok (toOption_eq_some.mp h)
    refine ⟨pid, _, hp, fun hs => ?_⟩
    have hu := hp.param
    split_ifs at hu with h4
    · obtain ⟨u, rfl, hu'⟩ := Option.map_eq_some_iff.mp hu
      rw [← hu']
      exact (hs u rfl).clearPriority
    · exact hs _ hu
  | sysSchedSetparam pid param =>
    have hp := setschedulerCheck_ok (toOption_eq_some.mp h)
    exact ⟨pid, param, hp, fun hs => hs _ hp.param⟩
  | _ => cases h

/-- A task becomes SHORT only through a call that names the policy, and such a call goes
through the range check. -/
theorem Passed.checked {pid policy : ℤ} {param : Option UserParam}
    (h : Passed k pid policy param acc) (hs : acc.policy = .short)
    (hn : policy < 0 → (k.tasks acc.target).policy ≠ .short) : ¬ acc.user.outOfRange := by
  have hq := h.policy
  unfold effectivePolicy at hq
  split_ifs at hq with hneg
  · exact absurd ((Option.some.inj hq).trans hs) (hn hneg)
  · exact h.range ((Policy.ofCode_eq_some.mp hq).trans (by rw [hs]; rfl))

theorem UserParam.Stable.inRange {u : UserParam} {sp : SchedParam} (h : u.Stable)
    (hsp : u.lp = some sp) (hr : ¬ u.outOfRange) :
    (1 ≤ sp.requestedTime ∧ sp.requestedTime ≤ 5000) ∧ 1 ≤ sp.trialNum ∧ sp.trialNum ≤ 50 := by
  have h1 : u.deref .requestedTimeMax = sp.requestedTime := h sp hsp _
  have h2 : u.deref .requestedTimeMin = sp.requestedTime := h sp hsp _
  have h3 : u.deref .trialNumMin = sp.trialNum := h sp hsp _
  have h4 : u.deref .trialNumMax = sp.trialNum := h sp hsp _
  unfold UserParam.outOfRange at hr
  omega

end

/-- The requested time of a SHORT task is 1 to 5000 ms. -/
def Core.HasTime (c : Core) : Prop :=
  c.policy = .short → 1 ≤ c.requestedTime ∧ c.requestedTime ≤ 5000

def timeGuard : Guard := { Guard.free with
  update := fun requestedTime => 1 ≤ requestedTime ∧ requestedTime ≤ 5000
  enter := fun _ requestedTime _ => 1 ≤ requestedTime ∧ requestedTime ≤ 5000 }

section
variable {HZ : ℕ} {ps : Ptrs} {π : Guard} {c c' : Core}

theorem TickStep.requestedTime (h : TickStep HZ ps c c') : c'.requestedTime = c.requestedTime := by
  cases h <;> rfl

theorem ShareStep.requestedTime (h : ShareStep HZ ps π c c') :
    c'.requestedTime = c.requestedTime := by
  cases h with
  | fork => exact Core.forking_requestedTime c
  | forkTick _ hg ht h0 hc => exact hc.requestedTime.trans (Core.forking_requestedTime c)
  | reap => rfl
  | orphan => rfl

theorem TaskStep.hasTime (h : TaskStep HZ ps timeGuard c c') (hc : c.HasTime) : c'.HasTime := by
  cases h with
  | tick h => exact fun hs => h.requestedTime ▸ hc (h.policy ▸ hs)
  | share h => exact fun hs => h.requestedTime ▸ hc (h.policy ▸ hs)
  | enter r n hp ha hg => exact fun _ => hg
  | update r hs hg => exact fun _ => hg
  | setPolicy q i ho hq => exact fun hs => absurd hs hq
  | _ => exact hc

theorem IdleStep.hasTime (h : IdleStep HZ ps timeGuard c c') (hc : c.HasTime) : c'.HasTime := by
  cases h with
  | tick h => exact fun hs => h.requestedTime ▸ hc (h.policy ▸ hs)
  | share h => exact fun hs => h.requestedTime ▸ hc (h.policy ▸ hs)
  | _ => exact hc

end

/-- A call that keeps the policy of a SHORT task gives it a requested time in range; no
check of the code sees to that. -/
def ChecksRange (k : Kernel) (op : Op) : Prop :=
  ∀ acc ∈ op.accepted k, op.policyArg < 0 → (k.tasks acc.target).policy = .short →
    1 ≤ acc.lp.requestedTime ∧ acc.lp.requestedTime ≤ 5000

instance (k : Kernel) (op : Op) : Decidable (ChecksRange k op) :=
  inferInstanceAs (Decidable (∀ acc ∈ op.accepted k, op.policyArg < 0 →
    (k.tasks acc.target).policy = .short →
      1 ≤ acc.lp.requestedTime ∧ acc.lp.requestedTime ≤ 5000))

theorem ChecksRange.permits {k : Kernel} {op : Op} (hm : op.StableMemory)
    (h : ChecksRange k op) : Permits timeGuard k op where
  fork _ _ := trivial
  forkTick _ _ := trivial
  change _ _ _ := trivial
  tick _ := trivial
  yield _ _ _ := trivial
  reap _ _ := trivial
  enter acc ha ht hs := by
    obtain ⟨pid, param, hp, hst⟩ := Op.accepted_passed ha
    have hstore : acc.user.deref .requestedTimeStore = acc.lp.requestedTime := hst hm _ hp.lp _
    have hr := hp.checked hs fun _ => by rw [ht]; decide
    exact hstore ▸ ((hst hm).inRange hp.lp hr).1
  update acc ha ht hs := by
    obtain ⟨pid, param, hp, hst⟩ := Op.accepted_passed ha
    have hstore : acc.user.deref .requestedTimeStore = acc.lp.requestedTime := hst hm _ hp.lp _
    rcases lt_or_ge op.policyArg 0 with hneg | hpos
    · exact hstore ▸ h acc ha hneg ht
    · have hr := hp.checked hs fun hneg => absurd hneg (not_lt.mpr hpos)
      exact hstore ▸ ((hst hm).inRange hp.lp hr).1

/-- In every run in which calls with a negative policy on SHORT tasks are in range, every
SHORT task has a requested time in range. -/
theorem requestedTime_in_range (HZ : ℕ) (ops : List Op) (k : Kernel)
    (hC : AlongBoot HZ (fun k op => op.StableMemory ∧ ChecksRange k op) ops)
    (hr : runFromBoot HZ ops = some k) (p : TaskId) (hp : (k.tasks p).policy = .short) :
    1 ≤ (k.tasks p).requestedTime ∧ (k.tasks p).requestedTime ≤ 5000 :=
  runFromBoot_tasks (I := Core.HasTime) (fun h => by cases h) (fun _ _ _ => TaskStep.hasTime)
    (fun _ _ _ => IdleStep.hasTime) (fun _ _ hc _ _ => hc) (fun _ _ _ _ h => h.2.permits h.1) hC hr
    p hp

/-- A SHORT task changes its requested time by `sched_setparam`. -/
def shortSetparam (requestedTime : ℤ) : List Op :=
  startTask ++ [.sysSchedSetscheduler 0 4 (shortParam 1000 4),
    .sysSchedSetparam 0 (shortParam requestedTime 4)]

theorem requestedTime_in_range_shortSetparam : ∃ k ∈ runFromBoot 512 (shortSetparam 3000),
    (k.tasks 1).policy = .short ∧ 1 ≤ (k.tasks 1).requestedTime ∧
      (k.tasks 1).requestedTime ≤ 5000 := by
  obtain ⟨k, hk, hs⟩ : ∃ k ∈ runFromBoot 512 (shortSetparam 3000),
      (k.tasks 1).policy = .short := by
    decide +kernel
  exact ⟨k, hk, hs, requestedTime_in_range 512 (shortSetparam 3000) k (by decide +kernel) hk 1 hs⟩

/-- `sched_setparam` stores any requested time in a SHORT task. -/
theorem setparam_stores_any_time :
    AlongBoot 512 (fun _ op => op.StableMemory) (shortSetparam 6000) ∧
      ∃ k ∈ runFromBoot 512 (shortSetparam 6000),
        (k.tasks 1).policy = .short ∧ (k.tasks 1).requestedTime = 6000 := by
  decide +kernel

end ShortSched
