import ShortSched.Schedule

/-! `set_user_nice`, `sys_nice`, `setscheduler` and its two system calls. -/
namespace ShortSched

def setUserNice (p : TaskId) (nice : ℤ) (k : Kernel) : Option Kernel :=
  if taskNice (k.tasks p) = nice ∨ nice < -20 ∨ nice > 19 ∨ (k.tasks p).policy = .short then
    some k
  else if rtTask (k.tasks p) then
    some (k.mod p fun t => { t with staticPrio := niceToPrio nice })
  else
    let setPrio (k : Kernel) : Kernel :=
      k.mod p fun t => { t with staticPrio := niceToPrio nice, prio := niceToPrio nice }
    match (k.tasks p).array with
    | none => some (setPrio k)
    | some a => do
        let k ← dequeueTask p a k
        let k ← enqueueTask p a (setPrio k)
        -- the first test compares the new value with itself, `static_prio` is already set
        if niceToPrio nice < (k.tasks p).staticPrio ∨ p = k.rq.curr then
          return reschedTask k.rq.curr (recordSwitch .highierTaskActive k)
        else
          return k

/-- `capable(CAP_SYS_NICE)` of the running task. -/
def capable (k : Kernel) : Bool := (k.tasks k.current).capSysNice

abbrev EPERM : ℤ := 1
abbrev ESRCH : ℤ := 3
abbrev EFAULT : ℤ := 14
abbrev EINVAL : ℤ := 22

/-- The nice value that `sys_nice` sets. -/
def newNice (t : TaskStruct) (increment : ℤ) : ℤ :=
  let increment := if increment < -40 then -40 else increment
  let increment := if increment > 40 then 40 else increment
  let nice := prioToNice t.staticPrio + increment
  let nice := if nice < -20 then -20 else nice
  if nice > 19 then 19 else nice

def sysNice (increment : ℤ) (k : Kernel) : Option (ℤ × Kernel) :=
  if increment < 0 ∧ capable k = false then some (-EPERM, k)
  else (setUserNice k.current (newNice (k.tasks k.current) increment) k).map fun k => (0, k)

/-- The reads that `setscheduler` makes straight through the user pointer. -/
inductive UserRead where
  | requestedTimeMax | requestedTimeMin | trialNumMin | trialNumMax
  | requestedTimeStore | trialNumStore | markStore
  deriving DecidableEq

instance : Fintype UserRead where
  elems := {.requestedTimeMax, .requestedTimeMin, .trialNumMin, .trialNumMax,
    .requestedTimeStore, .trialNumStore, .markStore}
  complete r := by cases r <;> decide

/-- User memory behind a non-NULL `param` during one call: what `copy_from_user`
delivers (`none` when it faults) and what each direct read returns. -/
structure UserParam where
  lp : Option SchedParam
  deref : UserRead → ℤ

/-- Mapped memory that nobody writes during the call. -/
def UserParam.unchanged (sp : SchedParam) : UserParam where
  lp := some sp
  deref
    | .requestedTimeMax | .requestedTimeMin | .requestedTimeStore => sp.requestedTime
    | .trialNumMin | .trialNumMax | .trialNumStore => sp.trialNum
    | .markStore => sp.mark

/-- Nobody writes the memory between the copy and the direct reads. -/
def UserParam.Stable (u : UserParam) : Prop :=
  ∀ sp ∈ u.lp, ∀ r, u.deref r = (UserParam.unchanged sp).deref r

instance (u : UserParam) : Decidable u.Stable :=
  inferInstanceAs (Decidable (∀ sp ∈ u.lp, ∀ r, u.deref r = (UserParam.unchanged sp).deref r))

/-- The range check of the SHORT parameters. -/
def UserParam.outOfRange (u : UserParam) : Prop :=
  u.deref .requestedTimeMax > 5000 ∨ u.deref .requestedTimeMin < 1 ∨
    u.deref .trialNumMin < 1 ∨ u.deref .trialNumMax > 50

instance (u : UserParam) : Decidable u.outOfRange := inferInstanceAs (Decidable (_ ∨ _ ∨ _ ∨ _))

/-- The label by which a rejected call leaves `setscheduler`; the range check returns
without one. -/
inductive ExitLabel where
  | outNounlock | outUnlockTasklist | outUnlock | directReturn
  deriving DecidableEq, Repr

structure Rejection where
  retval : ℤ
  label : ExitLabel
  deriving DecidableEq, Repr

/-- A call that passed every check: its target, effective policy, copied parameters and
user memory. -/
structure Accepted where
  target : TaskId
  policy : Policy
  lp : SchedParam
  user : UserParam

def findProcessByPid (k : Kernel) (pid : ℤ) : Option TaskId :=
  if pid = 0 then some k.current else k.pidhash.find? fun p => (k.tasks p).pid = pid

/-- The policy that a call asks for; a negative argument keeps the task's own. -/
def effectivePolicy (t : TaskStruct) (policy : ℤ) : Option Policy :=
  if policy < 0 then some t.policy else Policy.ofCode policy

/-- The checks on the effective policy and the credentials, in source order. -/
def checkPolicy (k : Kernel) (t : TaskStruct) (policy : Policy) (lp : SchedParam) :
    Except Rejection Unit :=
  if lp.schedPriority < 0 ∨ lp.schedPriority > maxUserRtPrio - 1 then
    throw ⟨-EINVAL, .outUnlock⟩
  else if ¬ ((policy = .other ∨ policy = .short) ↔ lp.schedPriority = 0) then
    throw ⟨-EINVAL, .outUnlock⟩
  else if (policy = .fifo ∨ policy = .rr) ∧ capable k = false then
    throw ⟨-EPERM, .outUnlock⟩
  else if (k.tasks k.current).euid ≠ t.euid ∧ (k.tasks k.current).euid ≠ t.uid ∧
      capable k = false then
    throw ⟨-EPERM, .outUnlock⟩
  else if (t.policy = .fifo ∨ t.policy = .rr) ∧ policy = .short then
    throw ⟨-EPERM, .outUnlock⟩
  else if t.policy = .short ∧ t.isOverdue = true then
    throw ⟨-EPERM, .outUnlock⟩
  else pure ()

/-- `setscheduler` up to the point where it takes the task off its queue. -/
def setschedulerCheck (k : Kernel) (pid policy : ℤ) (param : Option UserParam) :
    Except Rejection Accepted :=
  match param with
  | none => throw ⟨-EINVAL, .outNounlock⟩
  | some u =>
    if pid < 0 then throw ⟨-EINVAL, .outNounlock⟩ else
    match u.lp with
    | none => throw ⟨-EFAULT, .outNounlock⟩
    | some lp =>
      match findProcessByPid k pid with
      | none => throw ⟨-ESRCH, .outUnlockTasklist⟩
      | some p =>
        -- the argument itself is tested here, before a negative one is replaced
        if policy = Policy.short.code ∧ u.outOfRange then throw ⟨-EINVAL, .directReturn⟩ else
        match effectivePolicy (k.tasks p) policy with
        | none => throw ⟨-EINVAL, .outUnlock⟩
        | some q => do
          checkPolicy k (k.tasks p) q lp
          return ⟨p, q, lp, u⟩

section
variable (HZ : ℕ)

/-- The assignments from `p->dbg_mark = ...` to `p->prio = ...`. -/
def assignPolicy (acc : Accepted) (t : TaskStruct) : TaskStruct :=
  { t with
    dbgMark := acc.user.deref .markStore
    policy := acc.policy
    rtPriority := acc.lp.schedPriority
    prio := if acc.policy = .rr ∨ acc.policy = .fifo then
        maxUserRtPrio - 1 - acc.lp.schedPriority
      else t.staticPrio }

/-- From `p->dbg_mark = ...` to the end; `queued` is the array read before dequeuing. -/
def installPolicy (acc : Accepted) (queued : Bool) (k : Kernel) : Option Kernel := do
  let k := k.mod acc.target (assignPolicy acc)
  let k ← if queued then activateTask HZ acc.target k else some k
  if acc.policy = .short then
    schedule (reschedTask k.current (recordSwitch .highierTaskActive k))
  else
    return k

/-- The other -> short assignments. -/
def becomeShort (u : UserParam) (shortQ : ArrayIdx) (t : TaskStruct) : TaskStruct :=
  let t := { t with
    requestedTime := u.deref .requestedTimeStore
    numberOfTrials := u.deref .trialNumStore
    array := some shortQ
    currentTrial := 0
    isOverdue := false }
  { t with timeSlice := shortTimeslice HZ t.requestedTime t.currentTrial }

/-- `setscheduler` from `array = p->array` on. -/
def setschedulerApply (acc : Accepted) (k : Kernel) : Option Kernel := do
  let p := acc.target
  let queued := (k.tasks p).array.isSome
  let k ← if queued then deactivateTask p k else some k
  if (k.tasks p).policy = .other ∧ acc.policy = .short then
    installPolicy HZ acc queued (k.mod p (becomeShort HZ acc.user k.rq.shortQ))
  else if (k.tasks p).policy = .short ∧ acc.policy = .short then
    -- `goto out_unlock`: the task is not put back on a queue
    return k.mod p fun t => { t with requestedTime := acc.user.deref .requestedTimeStore }
  else
    installPolicy HZ acc queued k

def setscheduler (pid policy : ℤ) (param : Option UserParam) (k : Kernel) :
    Option (ℤ × Kernel) :=
  match setschedulerCheck k pid policy param with
  | .error r => some (r.retval, k)
  | .ok acc => (setschedulerApply HZ acc k).map fun k => (0, k)

/-- The store `param->sched_priority = 0` of the system call entry. -/
def UserParam.clearPriority (u : UserParam) : UserParam :=
  { u with lp := u.lp.map fun sp => { sp with schedPriority := 0 } }

/-- For `SCHED_SHORT` the entry writes through `param` before any check. -/
def sysSchedSetscheduler (pid policy : ℤ) (param : Option UserParam) (k : Kernel) :
    Option (ℤ × Kernel) :=
  if policy = Policy.short.code then
    match param with
    | none => none
    | some u => if u.lp = none then none else setscheduler HZ pid policy (some u.clearPriority) k
  else setscheduler HZ pid policy param k

def sysSchedSetparam (pid : ℤ) (param : Option UserParam) (k : Kernel) : Option (ℤ × Kernel) :=
  setscheduler HZ pid (-1) param k

end
end ShortSched
