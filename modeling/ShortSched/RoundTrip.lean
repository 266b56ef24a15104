import ShortSched.Queries
import ShortSched.UserMemory

/-! Setting the parameters of a SHORT task and getting them back. -/
namespace ShortSched
open PartialRun

/-- `sys_sched_getparam` returns priority 0 and the parameters of `sp`. -/
def ParamsReturned (k : Kernel) (pid : ℤ) (sp : SchedParam) : Prop :=
  ∀ mark, ∃ lp, sysSchedGetparam k pid (some true) mark = (0, some lp) ∧ lp.schedPriority = 0 ∧
    lp.requestedTime = sp.requestedTime ∧ lp.trialNum = sp.trialNum

/-- What `sys_sched_getparam` delivers does not depend on what was on the kernel stack. -/
def StackFree (k : Kernel) (pid : ℤ) : Prop :=
  ∀ mark mark', sysSchedGetparam k pid (some true) mark = sysSchedGetparam k pid (some true) mark'

/-- The parameters of an accepted call come back, and nothing but the task shows. -/
structure RoundTrip (k : Kernel) (pid : ℤ) (sp : SchedParam) : Prop where
  params : ParamsReturned k pid sp
  stackFree : StackFree k pid

section
variable {HZ : ℕ} {k k' m : Kernel} {p q : TaskId} {pid : ℤ} {acc : Accepted} {c : PolicyCall}
  {sp : SchedParam}

theorem getparam_eq (hpid : 0 ≤ pid) (hp : findProcessByPid k pid = some p) (mark : ℤ) :
    sysSchedGetparam k pid (some true) mark = (0, some {
      schedPriority := (k.tasks p).rtPriority
      requestedTime := (k.tasks p).requestedTime
      trialNum := (k.tasks p).numberOfTrials - (k.tasks p).currentTrial
      mark }) := by
  simp only [sysSchedGetparam, if_neg (not_lt.mpr hpid), hp, if_true]

/-- The field `mark` is what was on the stack. -/
theorem not_stackFree (hpid : 0 ≤ pid) (hp : findProcessByPid k pid = some p) :
    ¬ StackFree k pid := by
  intro h
  have h01 := h 0 1
  rw [getparam_eq hpid hp, getparam_eq hpid hp] at h01
  simp at h01

theorem paramsReturned_iff (hpid : 0 ≤ pid) (hp : findProcessByPid k pid = some p) :
    ParamsReturned k pid sp ↔ (k.tasks p).rtPriority = 0 ∧
      (k.tasks p).requestedTime = sp.requestedTime ∧
      (k.tasks p).numberOfTrials - (k.tasks p).currentTrial = sp.trialNum := by
  unfold ParamsReturned
  simp only [getparam_eq hpid hp]
  constructor
  · intro h
    obtain ⟨lp, he, h1, h2, h3⟩ := h 0
    cases he
    exact ⟨h1, h2, h3⟩
  · intro h mark
    exact ⟨_, rfl, h⟩

/-! The real-time priority, which no queue operation assigns. -/

theorem rtPriority_offQueue : OffQueue TaskStruct.rtPriority :=
  ⟨fun _ _ => rfl, fun _ _ => rfl, fun _ _ _ _ => rfl, fun _ _ _ => rfl⟩

theorem schedulePrev_rtPriority (h : schedulePrev p k = some k') :
    Same TaskStruct.rtPriority k k' := by
  have h1 : Same TaskStruct.rtPriority k (stampSleep p k) := (Same.refl _ k).mod fun _ => rfl
  obtain ⟨-, rfl⟩ | ⟨-, rfl⟩ | ⟨-, hd⟩ := schedulePrev_cases h
  · exact h1
  · exact h1.mod fun _ => by rfl
  · exact h1.deactivate rtPriority_offQueue.lists hd

theorem schedule_rtPriority (h : schedule k = some k') (q : TaskId) :
    (k'.tasks q).rtPriority = (k.tasks q).rtPriority := by
  obtain ⟨m, hm, ⟨next, n⟩, hn, rfl⟩ := schedule_eq_some.mp h
  have hnt : n.tasks = m.tasks := by
    unfold pickNext at hn
    split_ifs at hn
    · cases hn
      rfl
    · simp only [Option.bind_eq_bind, Option.bind_eq_some_iff, Option.pure_def,
        Option.some.injEq, Prod.mk.injEq] at hn
      obtain ⟨-, -, -, -, -, rfl⟩ := hn
      unfold swapArrays
      split_ifs <;> rfl
  have hsw : ((switchTasks k.current next n).tasks q).rtPriority = (n.tasks q).rtPriority := by
    have h1 := Kernel.mod_field (k := n) (p := k.current)
      (f := fun t => { t with needResched := false }) TaskStruct.rtPriority (fun _ => rfl) q
    unfold switchTasks
    dsimp only
    split_ifs <;> exact h1
  rw [hsw, hnt]
  exact (schedulePrev_rtPriority hm).field q

/-- A task that became SHORT has priority 0 and all its trials before it. -/
theorem setschedulerApply_fresh {policy : ℤ} {param : Option UserParam}
    (h : setschedulerApply HZ acc k = some k') (hp : Passed k pid policy param acc)
    (ho : (k.tasks acc.target).policy = .other) (hs : acc.policy = .short) :
    (k'.tasks acc.target).rtPriority = 0 := by
  obtain ⟨m, hm, h⟩ := setschedulerApply_eq_some.mp h
  have hmo : (m.tasks acc.target).policy = .other := by
    change (m.core acc.target).policy = _
    rw [(leaveQueue_only hm).1.self, Core.left_policy]
    exact ho
  rw [if_pos ⟨hmo, hs⟩] at h
  obtain ⟨n, hn, h⟩ := installPolicy_eq_some.mp h
  rw [if_pos hs] at h
  rw [schedule_rtPriority h]
  have hzero : acc.lp.schedPriority = 0 := hp.zero.mp (Or.inr hs)
  set l := (m.mod acc.target (becomeShort HZ acc.user m.rq.shortQ)).mod acc.target
    (assignPolicy acc) with hl
  have hlp : (l.tasks acc.target).rtPriority = 0 := by
    rw [hl, Kernel.mod_tasks_self]
    exact hzero
  have hnl : Same TaskStruct.rtPriority l n := by
    split_ifs at hn
    · exact (Same.refl _ l).activate rtPriority_offQueue hn
    · rw [← Option.some.inj hn]
      exact Same.refl _ l
  have hr := (hnl.recordSwitch .highierTaskActive).mod (p := n.current)
    (f := fun t => { t with needResched := true }) fun _ => rfl
  exact (hr.field acc.target).trans hlp

theorem setschedulerApply_updated (h : setschedulerApply HZ acc k = some k')
    (ho : (k.tasks acc.target).policy = .short) (hs : acc.policy = .short) :
    (k'.tasks acc.target).rtPriority = (k.tasks acc.target).rtPriority := by
  obtain ⟨m, hm, h⟩ := setschedulerApply_eq_some.mp h
  have hms : (m.tasks acc.target).policy = .short := by
    change (m.core acc.target).policy = _
    rw [(leaveQueue_only hm).1.self, Core.left_policy]
    exact ho
  rw [if_neg fun hc => absurd (hms.symm.trans hc.1) (by decide), if_pos ⟨hms, hs⟩] at h
  cases h
  have h1 : Same TaskStruct.rtPriority k m := by
    split_ifs at hm
    · exact (Same.refl _ k).deactivate rtPriority_offQueue.lists hm
    · cases hm
      exact Same.refl _ k
  exact (h1.mod (p := acc.target) (f := fun t => { t with
    requestedTime := acc.user.deref .requestedTimeStore }) fun _ => rfl).field acc.target

/-- A call that returns 0 was accepted. -/
theorem PolicyCall.run_zero (h : c.run HZ k = some (0, k')) : ∃ acc, c.op.accepted k = some acc ∧
    findProcessByPid k c.pid = some acc.target ∧ setschedulerApply HZ acc k = some k' := by
  have herr : ∀ {pid policy param}, setscheduler HZ pid policy param k = some (0, k') →
      (setschedulerCheck k pid policy param).toOption ≠ none := by
    intro pid policy param hs
    obtain ⟨e, he, h0, -⟩ | ⟨acc, hacc, -, -⟩ := setscheduler_cases hs
    · have hneg := setschedulerCheck_retval he
      omega
    · rw [hacc]
      exact Option.some_ne_none acc
  rcases c.run_cases h with ⟨hnone, -⟩ | hacc
  · cases c with
    | sysSchedSetscheduler pid policy param =>
      exact absurd hnone (herr (sysSchedSetscheduler_eq h))
    | sysSchedSetparam pid param => exact absurd hnone (herr h)
  · exact hacc

end

/-- After no accepted call that leaves a task SHORT does `sys_sched_getparam` deliver only what
the call set: `mark` comes from the stack. The other three fields come back if and only if the
task was of `SCHED_OTHER`, or the call names the number of trials that the task has left. -/
theorem setparam_round_trip_never (HZ : ℕ) (k k' : Kernel) (c : PolicyCall) (sp : SchedParam)
    (p : TaskId) (pid : ℤ) (hparam : c.param = some (.unchanged sp))
    (h : c.run HZ k = some (0, k')) (hp : findProcessByPid k c.pid = some p)
    (hshort : (k'.tasks p).policy = .short) (hpid : 0 ≤ pid)
    (hp' : findProcessByPid k' pid = some p) :
    ¬ RoundTrip k' pid sp ∧ (ParamsReturned k' pid sp ↔ (k.tasks p).policy = .other ∨
      (k.tasks p).rtPriority = 0 ∧
        (k.tasks p).numberOfTrials - (k.tasks p).currentTrial = sp.trialNum) := by
  refine ⟨fun hr => not_stackFree hpid hp' hr.stackFree, ?_⟩
  rw [paramsReturned_iff hpid hp']
  obtain ⟨acc, hacc, htarget, happ⟩ := PolicyCall.run_zero h
  obtain rfl : p = acc.target := Option.some.inj (hp.symm.trans htarget)
  obtain ⟨⟨param, hpass⟩, u, hu, hderef⟩ := PolicyCall.accepted_passed hacc
  obtain rfl : .unchanged sp = u := Option.some.inj (hparam.symm.trans hu)
  have hcase := setschedulerApply_applied happ hpass
  have hs : acc.policy = .short := hcase.policy_eq.symm.trans hshort
  have hr : acc.user.deref .requestedTimeStore = sp.requestedTime := congrFun hderef _
  have hn : acc.user.deref .trialNumStore = sp.trialNum := congrFun hderef _
  by_cases ho : (k.tasks acc.target).policy = .other
  · obtain ⟨h1, h2, h3⟩ := hcase.stored ho hs
    change (k'.tasks acc.target).requestedTime = _ at h1
    change (k'.tasks acc.target).numberOfTrials = _ at h2
    change (k'.tasks acc.target).currentTrial = _ at h3
    refine iff_of_true ⟨setschedulerApply_fresh happ hpass ho hs, h1.trans hr, ?_⟩ (Or.inl ho)
    rw [h2, h3, hn, sub_zero]
  · cases hcase with
    | becomes d m hother => exact absurd hother ho
    | changes d hs' => exact absurd hs hs'
    | stays hps hs' hself =>
      have hrt := setschedulerApply_updated happ hps hs
      have hc := hself.self
      have h1 : (k'.tasks acc.target).requestedTime = _ := congrArg Core.requestedTime hc
      have h2 : (k'.tasks acc.target).numberOfTrials = (k.tasks acc.target).numberOfTrials := by
        refine (congrArg Core.numberOfTrials hc).trans ?_
        exact (k.core acc.target).left_trials.1
      have h3 : (k'.tasks acc.target).currentTrial = (k.tasks acc.target).currentTrial := by
        refine (congrArg Core.currentTrial hc).trans ?_
        exact (k.core acc.target).left_trials.2
      rw [hrt, h1, h2, h3, or_iff_right ho]
      exact ⟨fun h => ⟨h.1, h.2.2⟩, fun h => ⟨h.1, hr, h.2⟩⟩

/-- Task 1, which is SHORT with five trials, asks for 200 ms and nine trials. -/
theorem setparam_round_trip_never_update : ∃ k ∈ runFromBoot 512 (shortTicks 100 5 0), ∃ k',
    PolicyCall.run 512 (.sysSchedSetparam 1 (shortParam 200 9)) k = some (0, k') ∧
      ¬ RoundTrip k' 1 ⟨0, 200, 9, 0⟩ ∧ ¬ ParamsReturned k' 1 ⟨0, 200, 9, 0⟩ := by
  obtain ⟨k, hk, hf, hpol, hn, ⟨r, k'⟩, hx, h0, hs, hf'⟩ : ∃ k ∈ runFromBoot 512 (shortTicks 100 5 0),
      findProcessByPid k 1 = some 1 ∧ (k.tasks 1).policy = .short ∧
      (k.tasks 1).numberOfTrials - (k.tasks 1).currentTrial = 5 ∧
      ∃ x ∈ PolicyCall.run 512 (.sysSchedSetparam 1 (shortParam 200 9)) k, x.1 = 0 ∧
        (x.2.tasks 1).policy = .short ∧ findProcessByPid x.2 1 = some 1 := by
    decide +kernel
  obtain rfl : r = 0 := h0
  obtain ⟨hnot, hiff⟩ := setparam_round_trip_never 512 k k'
    (.sysSchedSetparam 1 (shortParam 200 9)) ⟨0, 200, 9, 0⟩ 1 1 rfl hx hf hs (by decide) hf'
  refine ⟨k, hk, k', hx, hnot, fun hp => ?_⟩
  rcases hiff.mp hp with ho | ⟨-, hc⟩
  · cases hpol.symm.trans ho
  · rw [hn] at hc
    exact absurd hc (by decide)

/-- Two calls of `sys_sched_getparam` in one state deliver different values of `mark`, and the
trial number is the old one. -/
theorem getparam_leaks_stack : ∃ k ∈ runFromBoot 512 (shortTicks 100 5 0),
    ∃ x ∈ PolicyCall.run 512 (.sysSchedSetparam 1 (shortParam 200 9)) k, x.1 = 0 ∧
      sysSchedGetparam x.2 1 (some true) 0 = (0, some ⟨0, 200, 5, 0⟩) ∧
      sysSchedGetparam x.2 1 (some true) 7 = (0, some ⟨0, 200, 5, 7⟩) ∧
      ¬ RoundTrip x.2 1 ⟨0, 200, 9, 0⟩ := by
  obtain ⟨k, hk, x, hx, h0, h1, h2⟩ : ∃ k ∈ runFromBoot 512 (shortTicks 100 5 0),
      ∃ x ∈ PolicyCall.run 512 (.sysSchedSetparam 1 (shortParam 200 9)) k, x.1 = 0 ∧
        sysSchedGetparam x.2 1 (some true) 0 = (0, some ⟨0, 200, 5, 0⟩) ∧
        sysSchedGetparam x.2 1 (some true) 7 = (0, some ⟨0, 200, 5, 7⟩) := by
    decide +kernel
  refine ⟨k, hk, x, hx, h0, h1, h2, fun hr => ?_⟩
  have hsame := hr.stackFree 0 7
  rw [h1, h2] at hsame
  exact absurd hsame (by decide)

end ShortSched
