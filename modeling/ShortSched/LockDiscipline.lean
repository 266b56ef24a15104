import ShortSched.Lib.Monitor
import ShortSched.System

/-! The locks of `setscheduler`: what it takes and releases on the way to each of its exits,
and where it calls `schedule`. -/
namespace ShortSched
open PartialRun

/-- What `setscheduler` does to locks and interrupts. -/
inductive LockOp where
  /-- `read_lock_irq(&tasklist_lock)`. -/
  | readLockIrq
  /-- `task_rq_lock(p, &flags)`. -/
  | taskRqLock
  | schedule
  /-- `task_rq_unlock(rq, &flags)`. -/
  | taskRqUnlock
  /-- `read_unlock_irq(&tasklist_lock)`. -/
  | readUnlockIrq
  deriving DecidableEq, Repr

/-- What follows a label of `setscheduler`. -/
def ExitLabel.unlocks : ExitLabel → List LockOp
  | .outUnlock => [.taskRqUnlock, .readUnlockIrq]
  | .outUnlockTasklist => [.readUnlockIrq]
  | .outNounlock => []
  | .directReturn => []

/-- The lock operations of one call of `setscheduler`, in order. -/
def setschedulerLocks (k : Kernel) (pid policy : ℤ) (param : Option UserParam) : List LockOp :=
  match param with
  | none => ExitLabel.outNounlock.unlocks
  | some u =>
    if pid < 0 then ExitLabel.outNounlock.unlocks else
    match u.lp with
    | none => ExitLabel.outNounlock.unlocks
    | some lp =>
      .readLockIrq ::
        match findProcessByPid k pid with
        | none => ExitLabel.outUnlockTasklist.unlocks
        | some p =>
          if policy = Policy.short.code ∧ u.outOfRange then ExitLabel.directReturn.unlocks else
          .taskRqLock ::
            match effectivePolicy (k.tasks p) policy with
            | none => ExitLabel.outUnlock.unlocks
            | some q =>
              match checkPolicy k (k.tasks p) q lp with
              | .error r => r.label.unlocks
              | .ok () =>
                if (k.tasks p).policy = .short ∧ q = .short then ExitLabel.outUnlock.unlocks
                else if q = .short then .schedule :: ExitLabel.outUnlock.unlocks
                else ExitLabel.outUnlock.unlocks

/-- How often the caller holds `tasklist_lock` and a runqueue lock, whether interrupts are on,
and what `task_rq_lock` saved. -/
structure LockState where
  tasklist : ℕ
  rq : ℕ
  irqs : Bool
  flags : Bool
  deriving DecidableEq, Repr

/-- A caller that holds no lock. -/
def LockState.entry (irqs : Bool) : LockState := ⟨0, 0, irqs, irqs⟩

/-- `schedule` takes and releases the lock of its own runqueue and returns with interrupts
on. -/
def LockState.next (s : LockState) : LockOp → LockState
  | .readLockIrq => { s with tasklist := s.tasklist + 1, irqs := false }
  | .taskRqLock => { s with rq := s.rq + 1, irqs := false, flags := s.irqs }
  | .schedule => { s with irqs := true }
  | .taskRqUnlock => { s with rq := s.rq - 1, irqs := s.flags }
  | .readUnlockIrq => { s with tasklist := s.tasklist - 1, irqs := true }

/-- A lock is taken when it is free and released when it is held, and `schedule` is called
without one. -/
def LockState.Allowed (s : LockState) : LockOp → Prop
  | .readLockIrq => s.tasklist = 0
  | .taskRqLock => s.rq = 0
  | .schedule => s.tasklist = 0 ∧ s.rq = 0
  | .taskRqUnlock => s.rq = 1
  | .readUnlockIrq => s.tasklist = 1

instance (s : LockState) : (l : LockOp) → Decidable (s.Allowed l)
  | .readLockIrq | .taskRqLock | .taskRqUnlock | .readUnlockIrq => inferInstanceAs (Decidable (_ = _))
  | .schedule => inferInstanceAs (Decidable (_ ∧ _))

/-- Every lock taken is released once, none is left, no lock is held in `schedule`, and
interrupts are as they were. -/
structure Disciplined (s : LockState) (ls : List LockOp) : Prop where
  allowed : Accepts LockState.next LockState.Allowed ls s
  tasklist : (ls.foldl LockState.next s).tasklist = s.tasklist
  rq : (ls.foldl LockState.next s).rq = s.rq
  irqs : (ls.foldl LockState.next s).irqs = s.irqs

instance (s : LockState) (ls : List LockOp) : Decidable (Disciplined s ls) :=
  decidable_of_iff (_ ∧ _ ∧ _ ∧ _)
    ⟨fun ⟨h1, h2, h3, h4⟩ => ⟨h1, h2, h3, h4⟩, fun ⟨h1, h2, h3, h4⟩ => ⟨h1, h2, h3, h4⟩⟩

/-! The way to an exit depends on the label alone. -/

/-- The lock operations of a call that leaves by a label. -/
def ExitLabel.path : ExitLabel → List LockOp
  | .outNounlock => []
  | .outUnlockTasklist => [.readLockIrq, .readUnlockIrq]
  | .directReturn => [.readLockIrq]
  | .outUnlock => [.readLockIrq, .taskRqLock, .taskRqUnlock, .readUnlockIrq]

/-- The call gets as far as looking up its target. -/
def TakesTasklist (pid : ℤ) (param : Option UserParam) : Prop :=
  0 ≤ pid ∧ ∃ u ∈ param, u.lp ≠ none

instance (pid : ℤ) (param : Option UserParam) : Decidable (TakesTasklist pid param) :=
  inferInstanceAs (Decidable (_ ∧ _))

/-- The target exists, and `SCHED_SHORT` is asked for with parameters out of range. -/
def OutOfRange (k : Kernel) (pid policy : ℤ) (param : Option UserParam) : Prop :=
  findProcessByPid k pid ≠ none ∧ policy = Policy.short.code ∧ ∃ u ∈ param, u.outOfRange

instance (k : Kernel) (pid policy : ℤ) (param : Option UserParam) :
    Decidable (OutOfRange k pid policy param) := inferInstanceAs (Decidable (_ ∧ _ ∧ _))

/-- The call passes every check and makes a task of `SCHED_OTHER` a SHORT task. -/
def MakesShort (k : Kernel) (pid policy : ℤ) (param : Option UserParam) : Prop :=
  ∃ acc ∈ (setschedulerCheck k pid policy param).toOption,
    (k.tasks acc.target).policy = .other ∧ acc.policy = .short

instance (k : Kernel) (pid policy : ℤ) (param : Option UserParam) :
    Decidable (MakesShort k pid policy param) :=
  inferInstanceAs (Decidable (∃ acc ∈ (setschedulerCheck k pid policy param).toOption, _))

section
variable {k : Kernel} {pid policy : ℤ} {param : Option UserParam}

theorem checkPolicy_label {t : TaskStruct} {q : Policy} {lp : SchedParam} {r : Rejection}
    (h : checkPolicy k t q lp = .error r) : r.label = .outUnlock := by
  unfold checkPolicy at h
  split_ifs at h <;> cases h <;> rfl

/-! A call up to each of its exits. -/

theorem takesTasklist_some {u : UserParam} {lp : SchedParam} (hpid : ¬ pid < 0)
    (hlp : u.lp = some lp) : TakesTasklist pid (some u) :=
  ⟨not_lt.mp hpid, u, rfl, by simp [hlp]⟩

theorem TakesTasklist.param_eq (h : TakesTasklist pid param) :
    ¬ pid < 0 ∧ ∃ u lp, param = some u ∧ u.lp = some lp := by
  obtain ⟨hpid, u, hu, hlp⟩ := h
  obtain ⟨lp, hlp⟩ := Option.ne_none_iff_exists'.mp hlp
  exact ⟨not_lt.mpr hpid, u, lp, hu, hlp⟩

/-- Before `tasklist_lock` is taken. -/
theorem setschedulerLocks_early (k : Kernel) (policy : ℤ) (h : ¬ TakesTasklist pid param) :
    ∃ e, setschedulerCheck k pid policy param = .error ⟨e, .outNounlock⟩ ∧
      setschedulerLocks k pid policy param = ExitLabel.outNounlock.path := by
  cases param with
  | none => exact ⟨_, rfl, rfl⟩
  | some u =>
    by_cases hpid : pid < 0
    · constructor
      constructor
      · simp only [setschedulerCheck, if_pos hpid]
        rfl
      · simp only [setschedulerLocks, if_pos hpid]
        rfl
    · cases hlp : u.lp with
      | some lp => exact absurd (takesTasklist_some hpid hlp) h
      | none =>
        constructor
        constructor
        · simp only [setschedulerCheck, if_neg hpid, hlp]
          rfl
        · simp only [setschedulerLocks, if_neg hpid, hlp]
          rfl

theorem setschedulerLocks_noTarget (policy : ℤ) (h : TakesTasklist pid param)
    (hp : findProcessByPid k pid = none) :
    setschedulerCheck k pid policy param = .error ⟨-ESRCH, .outUnlockTasklist⟩ ∧
      setschedulerLocks k pid policy param = ExitLabel.outUnlockTasklist.path := by
  obtain ⟨hpid, u, lp, rfl, hlp⟩ := h.param_eq
  constructor
  · simp only [setschedulerCheck, if_neg hpid, hlp, hp]
    rfl
  · simp only [setschedulerLocks, if_neg hpid, hlp, hp]
    rfl

/-- The one exit that forgets the lock. -/
theorem setschedulerLocks_outOfRange (h : TakesTasklist pid param)
    (ho : OutOfRange k pid policy param) :
    setschedulerCheck k pid policy param = .error ⟨-EINVAL, .directReturn⟩ ∧
      setschedulerLocks k pid policy param = ExitLabel.directReturn.path := by
  obtain ⟨hpid, u, lp, rfl, hlp⟩ := h.param_eq
  obtain ⟨hp, hpol, v, hv, hr⟩ := ho
  obtain ⟨p, hp⟩ := Option.ne_none_iff_exists'.mp hp
  cases hv
  constructor
  · simp only [setschedulerCheck, if_neg hpid, hlp, hp, if_pos (And.intro hpol hr)]
    rfl
  · simp only [setschedulerLocks, if_neg hpid, hlp, hp, if_pos (And.intro hpol hr)]
    rfl

/-- With the runqueue locked. -/
theorem setschedulerLocks_inRange {p : TaskId} (h : TakesTasklist pid param)
    (hp : findProcessByPid k pid = some p) (ho : ¬ OutOfRange k pid policy param) :
    (∃ e, setschedulerCheck k pid policy param = .error ⟨e, .outUnlock⟩ ∧
      setschedulerLocks k pid policy param = ExitLabel.outUnlock.path) ∨
    ∃ acc, setschedulerCheck k pid policy param = .ok acc ∧
      setschedulerLocks k pid policy param =
        if (k.tasks acc.target).policy = .other ∧ acc.policy = .short then
          [.readLockIrq, .taskRqLock, .schedule, .taskRqUnlock, .readUnlockIrq]
        else ExitLabel.outUnlock.path := by
  obtain ⟨hpid, u, lp, rfl, hlp⟩ := h.param_eq
  have hr : ¬ (policy = Policy.short.code ∧ u.outOfRange) := by
    intro hr
    exact ho ⟨by simp [hp], hr.1, u, rfl, hr.2⟩
  cases hq : effectivePolicy (k.tasks p) policy with
  | none =>
    left
    constructor
    constructor
    · simp only [setschedulerCheck, if_neg hpid, hlp, hp, if_neg hr, hq]
      rfl
    · simp only [setschedulerLocks, if_neg hpid, hlp, hp, if_neg hr, hq]
      rfl
  | some q =>
    cases hc : checkPolicy k (k.tasks p) q lp with
    | error r =>
      obtain ⟨e, l⟩ := r
      obtain rfl : l = .outUnlock := checkPolicy_label hc
      left
      constructor
      constructor
      · simp only [setschedulerCheck, if_neg hpid, hlp, hp, if_neg hr, hq, hc]
        rfl
      · simp only [setschedulerLocks, if_neg hpid, hlp, hp, if_neg hr, hq, hc]
        rfl
    | ok =>
      right
      refine ⟨⟨p, q, lp, u⟩, ?_, ?_⟩
      · simp only [setschedulerCheck, if_neg hpid, hlp, hp, if_neg hr, hq, hc]
        rfl
      · obtain ⟨-, -, hrt, -⟩ := checkPolicy_ok hc
        simp only [setschedulerLocks, if_neg hpid, hlp, hp, if_neg hr, hq, hc]
        -- `SCHED_SHORT` is only granted to tasks of `SCHED_OTHER` and SHORT tasks
        cases hpol : (k.tasks p).policy <;> cases q <;>
          simp_all [ExitLabel.unlocks, ExitLabel.path]

/-- A rejected call leaves by its label; which one it is says how far the call got. An accepted
call takes both locks. -/
theorem setschedulerLocks_cases (k : Kernel) (pid policy : ℤ) (param : Option UserParam) :
    (∃ r, setschedulerCheck k pid policy param = .error r ∧
      setschedulerLocks k pid policy param = r.label.path ∧
      (r.label = .outNounlock ↔ ¬ TakesTasklist pid param) ∧
      (r.label = .directReturn ↔ TakesTasklist pid param ∧ OutOfRange k pid policy param)) ∨
    ∃ acc, setschedulerCheck k pid policy param = .ok acc ∧ TakesTasklist pid param ∧
      setschedulerLocks k pid policy param =
        if (k.tasks acc.target).policy = .other ∧ acc.policy = .short then
          [.readLockIrq, .taskRqLock, .schedule, .taskRqUnlock, .readUnlockIrq]
        else ExitLabel.outUnlock.path := by
  by_cases ht : TakesTasklist pid param
  · cases hp : findProcessByPid k pid with
    | none =>
      have ho : ¬ OutOfRange k pid policy param := fun ho => ho.1 hp
      obtain ⟨hc, hl⟩ := setschedulerLocks_noTarget policy ht hp
      exact Or.inl ⟨_, hc, hl, by simp [ht], by simp [ho]⟩
    | some p =>
      by_cases ho : OutOfRange k pid policy param
      · obtain ⟨hc, hl⟩ := setschedulerLocks_outOfRange ht ho
        exact Or.inl ⟨_, hc, hl, by simp [ht], by simp [ht, ho]⟩
      · rcases setschedulerLocks_inRange ht hp ho with ⟨e, hc, hl⟩ | ⟨acc, hc, hl⟩
        · exact Or.inl ⟨_, hc, hl, by simp [ht], by simp [ho]⟩
        · exact Or.inr ⟨acc, hc, ht, hl⟩
  · obtain ⟨e, hc, hl⟩ := setschedulerLocks_early k policy ht
    exact Or.inl ⟨_, hc, hl, by simp [ht], by simp [ht]⟩

/-- Which ways out keep the discipline, whatever the interrupts were. -/
theorem path_disciplined_iff (l : ExitLabel) (irqs : Bool) :
    Disciplined (.entry irqs) l.path ↔ l = .outNounlock ∨ l ≠ .directReturn ∧ irqs = true := by
  cases l <;> cases irqs <;> decide

theorem schedule_not_disciplined (irqs : Bool) : ¬ Disciplined (.entry irqs)
    [.readLockIrq, .taskRqLock, .schedule, .taskRqUnlock, .readUnlockIrq] := by
  cases irqs <;> decide

end

/-- For every argument, target and outcome of the checks: `setscheduler` keeps the discipline
if and only if it returns before it takes a lock, or it is called with interrupts on, is not
rejected for parameters out of range, and does not make a task of `SCHED_OTHER` SHORT. -/
theorem setscheduler_lock_discipline_iff (k : Kernel) (pid policy : ℤ)
    (param : Option UserParam) (irqs : Bool) :
    Disciplined (.entry irqs) (setschedulerLocks k pid policy param) ↔
      ¬ TakesTasklist pid param ∨ irqs = true ∧ ¬ OutOfRange k pid policy param ∧
        ¬ MakesShort k pid policy param := by
  rcases setschedulerLocks_cases k pid policy param with
    ⟨r, hc, hl, h1, h2⟩ | ⟨acc, hc, ht, hl⟩
  · have hm : ¬ MakesShort k pid policy param := by
      rintro ⟨acc, ha, -⟩
      rw [hc] at ha
      cases ha
    rw [hl, path_disciplined_iff, ne_eq, h1, h2]
    tauto
  · have hp := setschedulerCheck_ok hc
    have hr : ¬ OutOfRange k pid policy param := by
      rintro ⟨-, hpol, u, hu, hr⟩
      rw [hp.param] at hu
      cases hu
      exact hp.range hpol hr
    have hm : MakesShort k pid policy param ↔
        (k.tasks acc.target).policy = .other ∧ acc.policy = .short := by
      rw [MakesShort, hc]
      exact ⟨fun ⟨_, ha, h⟩ => Option.some.inj ha ▸ h, fun h => ⟨acc, rfl, h⟩⟩
    rw [hl, hm]
    split_ifs with hs
    · simp [schedule_not_disciplined, ht, hs]
    · rw [path_disciplined_iff]
      simp [ht, hr, hs]

/-- Parameters out of range return with `tasklist_lock` held and interrupts off. -/
theorem out_of_range_keeps_lock : ∃ k ∈ runFromBoot 512 startTask,
    setschedulerLocks k 0 4 (shortParam 6000 5) = [.readLockIrq] ∧
      ¬ Disciplined (.entry true) (setschedulerLocks k 0 4 (shortParam 6000 5)) ∧
      ¬ Disciplined (.entry true) (setschedulerLocks k 0 4 (shortParam 100 5)) := by
  decide +kernel

end ShortSched
