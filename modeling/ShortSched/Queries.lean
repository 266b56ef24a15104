import ShortSched.Trials

/-! The calls that report on a SHORT task, and when their answers fit together. -/
namespace ShortSched
open Relation PartialRun

/-- `find_task_by_pid`. -/
def findTaskByPid (k : Kernel) (pid : ℤ) : Option TaskId :=
  k.pidhash.find? fun p => (k.tasks p).pid = pid

/-- `sys_remaining_time`; the product is one of `unsigned int`. -/
def sysRemainingTime (HZ : ℕ) (k : Kernel) (pid : ℤ) : ℤ :=
  match findTaskByPid k pid with
  | none => -1
  | some p =>
    if (k.tasks p).policy ≠ .short then -EINVAL
    else if (k.tasks p).isOverdue then 0
    else i32 (u32 ((k.tasks p).timeSlice * 1000) / HZ : ℕ)

/-- `sys_sched_getparam`: the return value and what is copied to the user. `param` says whether
the pointer, if it is not NULL, can be written to, and `mark` is what the stack holds in the
field that is not assigned. -/
def sysSchedGetparam (k : Kernel) (pid : ℤ) (param : Option Bool) (mark : ℤ) :
    ℤ × Option SchedParam :=
  match param with
  | none => (-EINVAL, none)
  | some writable =>
    if pid < 0 then (-EINVAL, none) else
    match findProcessByPid k pid with
    | none => (-ESRCH, none)
    | some p =>
      if writable then
        (0, some {
          schedPriority := (k.tasks p).rtPriority
          requestedTime := (k.tasks p).requestedTime
          trialNum := (k.tasks p).numberOfTrials - (k.tasks p).currentTrial
          mark })
      else (-EFAULT, none)

/-- The counters of a SHORT task that the calls agree on: none is left when it is overdue, and
what is left of a task that is not is not taken for an error. -/
structure Core.ReportsTrials (c : Core) : Prop where
  overdue : c.IsOverdue → c.numberOfTrials = c.currentTrial
  short : c.IsShort → c.numberOfTrials - c.currentTrial ≠ -EINVAL

section
variable {ps : Ptrs} {c c' : Core} {k k' : Kernel} {op : Op} {pid : ℤ} {p : TaskId}

/-- A task whose slice ends with the next tick, and that becomes overdue by it, is in its last
trial. -/
def Core.EndsInLastTrial (c : Core) : Prop :=
  c.IsShort → u32 (c.timeSlice - 1) = 0 → c.numberOfTrials ≤ c.currentTrial + 1 ∨
    shortTimeslice 512 c.requestedTime (c.currentTrial + 1) = 0 →
      c.numberOfTrials = c.currentTrial + 1

instance (c : Core) : Decidable c.EndsInLastTrial :=
  inferInstanceAs (Decidable (_ → _ → _ ∨ _ → _))

/-- Neither parent nor child is left with minus `EINVAL` trials. -/
def Core.ForkReports (c : Core) : Prop :=
  (c.timeSlice / 2 ≠ 0 → c.numberOfTrials / 2 - c.currentTrial ≠ -EINVAL) ∧
    (c.numberOfTrials - c.currentTrial + 1) / 2 ≠ -EINVAL

instance (c : Core) : Decidable c.ForkReports := inferInstanceAs (Decidable (_ ∧ _))

def reportGuard : Guard := { Guard.free with
  enter := fun _ _ trials => trials ≠ -EINVAL
  fork := Core.ForkReports
  tick := Core.EndsInLastTrial }

theorem TickStep.reportsTrials (h : TickStep 512 ps c c') (hg : c.EndsInLastTrial)
    (hc : c.ReportsTrials) : c'.ReportsTrials := by
  cases h with
  | skip => exact hc
  | down => exact ⟨hc.overdue, hc.short⟩
  | trial hs ht hl hn hz =>
    constructor
    · intro ho
      cases hs.2.symm.trans ho.2
    · intro _
      simp only [Core.on, EINVAL]
      omega
  | overdue hs ht hl hn =>
    constructor
    · intro _
      exact hg hs ht hn
    · intro hs'
      cases hs'.2
  | rrSlice hp =>
    have hs : c.policy ≠ .short := by
      rw [hp]
      decide
    exact ⟨fun ho => absurd ho.1 hs, fun hc => absurd hc.1 hs⟩
  | otherSlice a i hp => exact ⟨fun ho => absurd ho.1 hp, fun hs => absurd hs.1 hp⟩

theorem Core.ReportsTrials.withSlice (hc : c.ReportsTrials) (n : ℕ) :
    (c.withSlice n).ReportsTrials := ⟨hc.overdue, hc.short⟩

/-- A fork halves the trials of a SHORT parent and of no other. -/
theorem Core.ReportsTrials.forking (hc : c.ReportsTrials)
    (hn : c.IsShort → c.numberOfTrials / 2 - c.currentTrial ≠ -EINVAL) :
    c.forking.ReportsTrials := by
  by_cases hs : c.IsShort
  · rw [Core.forking, if_pos hs]
    constructor
    · intro ho
      cases hs.2.symm.trans ho.2
    · exact hn
  · rw [Core.forking, if_neg hs]
    exact hc

theorem TickStep.reportsTrials_of_fork (h : TickStep 512 ps (c.forking.withSlice 1) c')
    (hg : (c.forking.withSlice 1).EndsInLastTrial) (hc : c.ReportsTrials) : c'.ReportsTrials := by
  by_cases hs : c.IsShort
  · -- the tick ends the slice, so that the halved number of trials need not be reported
    have hsh : (c.forking.withSlice 1).IsShort := Core.forking_isShort.mpr hs
    cases h with
    | skip hn => exact absurd hsh hn
    | down _ ht => exact absurd rfl ht
    | trial _ _ _ hn =>
      constructor
      · intro ho
        cases hsh.2.symm.trans ho.2
      · intro _
        simp only [Core.on, EINVAL]
        omega
    | overdue _ ht _ hn =>
      constructor
      · intro _
        exact hg hsh ht hn
      · intro hs'
        cases hs'.2
    | rrSlice hp => cases hsh.1.symm.trans hp
    | otherSlice a i hp => exact absurd hsh.1 hp
  · exact h.reportsTrials hg ((hc.forking fun h => absurd h hs).withSlice 1)

theorem ShareStep.reportsTrials (h : ShareStep 512 ps reportGuard c c') (hc : c.ReportsTrials) :
    c'.ReportsTrials := by
  cases h with
  | fork hg ht => exact (hc.forking fun hs => (hg hs).1 ht).withSlice _
  | forkTick _ _ _ _ hstep hg => exact hstep.reportsTrials_of_fork hg hc
  | reap => exact hc.withSlice _
  | orphan => exact ⟨hc.overdue, hc.short⟩

theorem TaskStep.reportsTrials (h : TaskStep 512 ps reportGuard c c') (hc : c.ReportsTrials) :
    c'.ReportsTrials := by
  cases h with
  | tick h hg => exact h.reportsTrials hg hc
  | share h => exact h.reportsTrials hc
  | enter r n _ _ hg =>
    constructor
    · intro ho
      cases ho.2
    · intro _
      have hn : n ≠ -EINVAL := hg
      simpa using hn
  | setPolicy q i _ hq => exact ⟨fun ho => absurd ho.1 hq, fun hs => absurd hs.1 hq⟩
  | _ => exact ⟨hc.overdue, hc.short⟩

theorem Core.ReportsTrials.forked (hc : c.ReportsTrials) (hg : c.IsShort → c.ForkReports)
    (i : ℤ) : (c.forked.withPrio i).ReportsTrials := by
  constructor
  · intro ho
    have ho' : c.IsOverdue := ho
    have hs : ¬ c.IsShort := fun hs => by cases hs.2.symm.trans ho'.2
    simp only [Core.withPrio, Core.forked, if_neg hs]
    exact hc.overdue ho'
  · intro hs
    have hs' : c.IsShort := hs
    have := (hg hs').2
    simp only [Core.withPrio, Core.forked, if_pos hs']
    omega

/-! Runs. -/

/-- Tasks become overdue in their last trial, and no fork or policy change leaves minus `EINVAL`
trials. -/
def KeepsReports (k : Kernel) (op : Op) : Prop :=
  (op.ticks → (k.core k.current).EndsInLastTrial) ∧
  (op.child ≠ none → ((k.core k.current).IsShort → (k.core k.current).ForkReports) ∧
    ((k.core k.current).timeSlice / 2 = 0 →
      ((k.core k.current).forking.withSlice 1).EndsInLastTrial)) ∧
  ∀ acc ∈ op.accepted k, (k.tasks acc.target).policy = .other → acc.policy = .short →
    acc.user.deref .trialNumStore ≠ -EINVAL

instance (k : Kernel) (op : Op) : Decidable (KeepsReports k op) :=
  inferInstanceAs (Decidable (_ ∧ _ ∧ ∀ acc ∈ op.accepted k, _))

theorem KeepsReports.permits (h : KeepsReports k op) : Permits reportGuard k op :=
  { Permits.free k op with
    fork := fun hc => (h.2.1 hc).1
    forkTick := fun hc => (h.2.1 hc).2
    enter := h.2.2
    tick := fun ho => h.1 (by rw [ho]; rfl) }

end

end ShortSched
