import ShortSched.Schedule

/-! The parts of `do_fork`, `do_exit` and `release_task` that touch scheduling state, and
the set-up of the boot CPU. -/
namespace ShortSched

section
variable (HZ : ℕ)

/-- `*p = *current` and the assignments that follow it. -/
def forkCopy (child : TaskId) (pid : ℤ) (k : Kernel) : Kernel :=
  k.mod child fun _ =>
    { k.tasks k.current with
      state := .uninterruptible
      pid
      runList := none
      sigpending := false
      array := none }

/-- The slice is shared between parent and child. -/
def shareSlice (child : TaskId) (k : Kernel) : Kernel :=
  let cur := k.current
  let k := k.mod child fun t =>
    { t with timeSlice := u32 ((k.tasks cur).timeSlice + 1) / 2, firstTimeSlice := true }
  let k := k.mod cur fun t => { t with timeSlice := t.timeSlice / 2 }
  k.mod child fun t => { t with sleepTimestamp := k.jiffies }

/-- The trials of a SHORT parent are shared; the child of an overdue task is overdue. -/
def shareTrials (child : TaskId) (k : Kernel) : Kernel :=
  let cur := k.current
  if (k.tasks cur).policy = .short then
    let k := k.mod child fun t => { t with policy := .short }
    if (k.tasks cur).isOverdue = false then
      let k := k.mod child fun t =>
        { t with
          numberOfTrials := ((k.tasks cur).numberOfTrials - (k.tasks cur).currentTrial + 1) / 2 }
      let k := k.mod cur fun t => { t with numberOfTrials := t.numberOfTrials / 2 }
      k.mod child fun t => { t with currentTrial := 0, isOverdue := false }
    else
      k.mod child fun t => { t with isOverdue := true }
  else
    k.mod child fun t => { t with dbgMark := 0 }

def forkSplit (child : TaskId) (k : Kernel) : Kernel := shareTrials child (shareSlice child k)

/-- A parent left without a slice runs a tick on a slice of one. -/
def forkTick (k : Kernel) : Option Kernel :=
  if (k.tasks k.current).timeSlice = 0 then
    schedulerTick HZ (k.mod k.current fun t => { t with timeSlice := 1 })
  else some k

/-- `SET_LINKS` and `hash_pid` of the child. -/
def linkChild (child : TaskId) (cloneParent : Bool) (k : Kernel) : Kernel :=
  let cur := k.current
  let k := k.mod child fun t =>
    { t with pOpptr := if cloneParent then (k.tasks cur).pOpptr else cur }
  { k with pidhash := child :: k.pidhash }

/-- `do_fork` when nothing fails: `child` is the new task_struct, `pid` what `get_pid`
returned. `BUG()` stops a fork by a task without a slice. A vfork parent goes on to
`wait_for_completion`, which sets its state and calls `schedule`. -/
def doFork (child : TaskId) (pid : ℤ) (vfork cloneParent : Bool) (k : Kernel) : Option Kernel :=
  if (k.tasks k.current).timeSlice = 0 then none
  else do
    let k ← forkTick HZ (forkSplit child (forkCopy child pid k))
    let k ← wakeUpForkedProcess HZ child (linkChild child cloneParent k)
    return if vfork then k else reschedTask k.current (recordSwitch .taskCreated k)

/-- `forget_original_parent`: the children of `father` get a new parent. -/
def forgetOriginalParent (reaper childReaper father : TaskId) (k : Kernel) : Kernel :=
  { k with tasks := fun q =>
      if q ∈ k.pidhash ∧ (k.tasks q).pOpptr = father then
        { (k.tasks q) with
          pOpptr := if q = reaper then childReaper else reaper
          firstTimeSlice := false }
      else k.tasks q }

/-- `exit_notify`: the children get a new parent and the task becomes a zombie. Its
`do_exit` goes on with `record_switch(SR_TASK_ENDED)` and `schedule`. -/
def exitNotify (reaper childReaper : TaskId) (k : Kernel) : Kernel :=
  (forgetOriginalParent reaper childReaper k.current k).mod k.current fun t =>
    { t with state := .zombie }

/-- The slice that the child got from its parent goes back. -/
def returnSlice (p : TaskId) (k : Kernel) : Kernel :=
  if (k.tasks p).firstTimeSlice then
    k.mod k.current fun t => { t with timeSlice := reapedSlice HZ t.timeSlice (k.tasks p).timeSlice }
  else k

/-- A child that was a CPU hog lowers the sleep average of its parent. -/
def weighSleep (p : TaskId) (k : Kernel) : Kernel :=
  if (k.tasks p).sleepAvg < (k.tasks k.current).sleepAvg then
    -- `EXIT_WEIGHT` is 3
    k.mod k.current fun t => { t with sleepAvg := (t.sleepAvg * 3 + (k.tasks p).sleepAvg) / (3 + 1) }
  else k

def schedExit (p : TaskId) (k : Kernel) : Kernel := weighSleep p (returnSlice HZ p k)

/-- `release_task`: reap a zombie and take it out of the pid hash. -/
def releaseTask (p : TaskId) (k : Kernel) : Kernel :=
  let k := schedExit HZ p { k with pidhash := k.pidhash.erase p }
  k.mod p fun t => { t with pid := 0 }

/-- `init_idle(current, cpu)` on the boot CPU. -/
def initIdle (k : Kernel) : Option Kernel := do
  let idle := k.current
  let k := k.modRq fun rq => { rq with curr := idle, idle := idle }
  let k ← deactivateTask idle k
  return k.mod idle fun t =>
    { t with array := none, prio := maxPrio, state := .running, cpu := k.rq.cpu,
             needResched := true }

/-- `INIT_TASK`. -/
def initTask : TaskStruct where
  state := .running
  needResched := false
  sigpending := false
  cpu := 0
  prio := maxPrio - 20
  staticPrio := maxPrio - 20
  runList := none
  array := none
  sleepAvg := 0
  sleepTimestamp := 0
  policy := .other
  cpusAllowed _ := true
  timeSlice := HZ
  firstTimeSlice := false
  pid := 0
  pOpptr := 0
  rtPriority := 0
  uid := 0
  euid := 0
  capSysNice := true
  requestedTime := 0
  numberOfTrials := 0
  currentTrial := 0
  isOverdue := false
  dbgMark := 0

/-- Empty queues; only the delimiter bit is set. -/
def emptyArray : PrioArray where
  nrActive := 0
  bitmap i := i == maxPrio
  queue _ := []

def noSwitch : SwitchInfo where
  previousPid := -1
  nextPid := -1
  previousPolicy := -1
  nextPolicy := -1
  time := u32 (-1)
  reason := none

/-- The runqueue as the loop of `sched_init` leaves it. -/
def initRunqueue (cpu : ℕ) (current : TaskId) : Runqueue where
  cpu := cpu
  nrRunning := 0
  nrSwitches := 0
  expiredTimestamp := 0
  nrUninterruptible := 0
  curr := current
  idle := current
  active := 0
  expired := 1
  shortQ := 2
  overdue := 3
  arrays _ := emptyArray
  prevNrRunning _ := 0
  switchInfoArr _ := noSwitch
  infoStart := 0
  infoEnd := 0
  recSwitchingRemaining := 0

/-- What `sched_init` wakes the boot task in, which is at address 0. No other task exists;
the entries of the table stand for memory not yet handed out. -/
def bootKernel : Kernel where
  tasks _ := initTask HZ
  rq := initRunqueue 0 0
  jiffies := 0
  pidhash := []

def schedInit : Option Kernel := tryToWakeUp HZ 0 (bootKernel HZ)

end
end ShortSched
