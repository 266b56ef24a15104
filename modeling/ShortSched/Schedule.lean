import ShortSched.Queue

/-! `try_to_wake_up`, `wake_up_forked_process`, `scheduler_tick`, `schedule` and
`sys_sched_yield` of a uniprocessor build. -/
namespace ShortSched
open Buckets

section
variable (HZ : ℕ)

/-- What a wake-up does to a task that is on no array. -/
def wakeQueue (p : TaskId) (k : Kernel) : Option Kernel := do
  let k := if (k.tasks p).state = .uninterruptible then
      k.modRq fun rq => { rq with nrUninterruptible := rq.nrUninterruptible - 1 }
    else k
  let k ← activateTask HZ p k
  if (k.tasks p).prio < (k.tasks k.rq.curr).prio then
    return reschedTask k.rq.curr (recordSwitch .highierTaskActive k)
  else
    return k

/-- On one CPU `p->cpu` is this CPU, so the migration branch is never taken and `sync`
has no effect. -/
def tryToWakeUp (p : TaskId) (k : Kernel) : Option Kernel :=
  (if (k.tasks p).array = none then wakeQueue HZ p k else some k).map fun k =>
    k.mod p fun t => { t with state := .running }

/-- The parent of a SHORT child goes to the tail of its queue. -/
def requeueParent (p : TaskId) (k : Kernel) : Option Kernel :=
  if (k.tasks p).policy = .short then do
    let k ← deactivateTask k.current k
    activateTask HZ k.current k
  else some k

/-- Parent and child lose sleep average and the child gets its priority. -/
def forkPenalty (p : TaskId) (k : Kernel) : Kernel :=
  if ¬ rtTask (k.tasks p) then
    -- `PARENT_PENALTY` is 100 and `CHILD_PENALTY` is 95
    let k := k.mod k.current fun t => { t with sleepAvg := t.sleepAvg * 100 / 100 }
    let k := k.mod p fun t => { t with sleepAvg := t.sleepAvg * 95 / 100 }
    k.mod p fun t => { t with prio := effectivePrio HZ t }
  else k

def wakeUpForkedProcess (p : TaskId) (k : Kernel) : Option Kernel := do
  let k := k.mod p fun t => { t with state := .running }
  let k ← requeueParent HZ p k
  let k := forkPenalty HZ p k
  let k := k.mod p fun t => { t with cpu := k.rq.cpu }
  activateTask HZ p k

/-- The `overdue:` branch of `scheduler_tick`. -/
def becomeOverdue (p : TaskId) (k : Kernel) : Option Kernel := do
  let k := k.mod p fun t => { t with timeSlice := 1 }
  let k ← dequeueTask p k.rq.shortQ k
  let k := k.mod p fun t => { t with prio := 0 }
  let k ← enqueueTask p k.rq.overdue k
  let k := k.mod p fun t => { t with array := some k.rq.overdue, isOverdue := true }
  return recordSwitch .shortOver k

/-- The SHORT part of `scheduler_tick`, run with the task that is not overdue. -/
def tickShort (p : TaskId) (k : Kernel) : Option Kernel := do
  let k := k.mod p fun t => { t with timeSlice := u32 (t.timeSlice - 1) }
  if (k.tasks p).timeSlice = 0 then
    let k := k.mod p fun t => { t with currentTrial := t.currentTrial + 1, firstTimeSlice := false }
    let k ← if (k.tasks p).currentTrial ≥ (k.tasks p).numberOfTrials then becomeOverdue p k
      else do
        let k := k.mod p fun t =>
          { t with timeSlice := shortTimeslice HZ t.requestedTime t.currentTrial }
        if (k.tasks p).timeSlice = 0 then becomeOverdue p k
        else do
          let k ← dequeueTask p k.rq.shortQ k
          let k ← enqueueTask p k.rq.shortQ k
          some (recordSwitch .timeSliceOver k)
    return reschedTask p k
  else
    return k

/-- `TASK_INTERACTIVE(p)`. -/
def taskInteractive (t : TaskStruct) : Prop :=
  t.prio ≤ t.staticPrio -
    ((taskNice t * (maxUserPrio * prioBonusRatio / 100)).tdiv 40 + interactiveDelta)

instance (t : TaskStruct) : Decidable (taskInteractive t) := by
  unfold taskInteractive; infer_instance

/-- `EXPIRED_STARVING(rq)`. -/
def expiredStarving (k : Kernel) : Prop :=
  k.rq.expiredTimestamp ≠ 0 ∧
    u32 (k.jiffies - k.rq.expiredTimestamp) ≥ u32 (starvationLimit HZ * k.rq.nrRunning + 1)

instance (k : Kernel) : Decidable (expiredStarving HZ k) := by
  unfold expiredStarving; infer_instance

/-- The real-time part of `scheduler_tick`; FIFO tasks have no slices. -/
def tickRt (p : TaskId) (k : Kernel) : Option Kernel :=
  if (k.tasks p).policy = .rr then do
    let k := k.mod p fun t => { t with timeSlice := u32 (t.timeSlice - 1) }
    if (k.tasks p).timeSlice = 0 then
      let k := k.mod p fun t =>
        { t with timeSlice := taskTimeslice HZ t.staticPrio, firstTimeSlice := false }
      let k := reschedTask p k
      let k ← dequeueTask p k.rq.active k
      enqueueTask p k.rq.active k
    else
      return k
  else some k

/-- The first task to expire sets the time from which `EXPIRED_STARVING` counts. -/
def stampExpired (k : Kernel) : Kernel :=
  if k.rq.expiredTimestamp = 0 then
    k.modRq fun rq => { rq with expiredTimestamp := k.jiffies }
  else k

/-- The rest of `scheduler_tick`, for a task of the active array. -/
def tickOther (p : TaskId) (k : Kernel) : Option Kernel := do
  let k := k.mod p fun t => { t with sleepAvg := t.sleepAvg - 1 }
  let k := k.mod p fun t => { t with timeSlice := u32 (t.timeSlice - 1) }
  if (k.tasks p).timeSlice = 0 then
    let k ← dequeueTask p k.rq.active k
    let k := reschedTask p k
    let k := k.mod p fun t =>
      { t with
        prio := effectivePrio HZ t
        firstTimeSlice := false
        timeSlice := taskTimeslice HZ t.staticPrio }
    if ¬ taskInteractive (k.tasks p) ∨ expiredStarving HZ k then
      let k := stampExpired k
      enqueueTask p k.rq.expired k
    else
      enqueueTask p k.rq.active k
  else
    return k

def schedulerTick (k : Kernel) : Option Kernel :=
  let p := k.current
  if p = k.rq.idle then some k
  else if (k.tasks p).policy = .short then
    if (k.tasks p).isOverdue = false then tickShort HZ p k else some k
  else if (k.tasks p).array ≠ some k.rq.active then some (reschedTask p k)
  else if rtTask (k.tasks p) then tickRt HZ p k
  else tickOther HZ p k

end

/-- `schedule()` up to the label `pick_next_task`: a task that is not runnable leaves. -/
def schedulePrev (prev : TaskId) (k : Kernel) : Option Kernel :=
  let k := k.mod prev fun t => { t with sleepTimestamp := k.jiffies }
  match (k.tasks prev).state with
  | .running => some k
  | .interruptible =>
      if (k.tasks prev).sigpending then
        some (k.mod prev fun t => { t with state := .running })
      else deactivateTask prev k
  | _ => deactivateTask prev k

/-- Switch the active and expired arrays when the active one is empty. -/
def swapArrays (k : Kernel) : Kernel :=
  if (k.rq.arrays k.rq.active).nrActive = 0 then
    k.modRq fun rq =>
      { rq with active := rq.expired, expired := rq.active, expiredTimestamp := 0 }
  else k

/-- The first set bit of an array, -1 when it is empty. -/
def arrayIdx (q : PrioArray) : ℤ := if q.nrActive > 0 then schedFindFirstBit q.bitmap else -1

/-- The assignment of `queue`; `none` leaves it unassigned. -/
def pickQueue (k : Kernel) : Option (ArrayIdx × ℤ) :=
  let idxActive := arrayIdx (k.rq.arrays k.rq.active)
  let idxShort := arrayIdx (k.rq.arrays k.rq.shortQ)
  let idxOverdue := arrayIdx (k.rq.arrays k.rq.overdue)
  if idxActive < 100 ∧ idxActive ≥ 0 then some (k.rq.active, idxActive)
  else if idxShort ≥ 0 then some (k.rq.shortQ, idxShort)
  else if idxActive ≥ 100 then some (k.rq.active, idxActive)
  else if idxOverdue ≥ 0 then some (k.rq.overdue, idxOverdue)
  else none

/-- From `pick_next_task` to `switch_tasks`; `list_entry` of an empty queue is no task. -/
def pickNext (k : Kernel) : Option (TaskId × Kernel) :=
  if k.rq.nrRunning = 0 then
    some (k.rq.idle, k.modRq fun rq => { rq with expiredTimestamp := 0 })
  else do
    let k := swapArrays k
    let (a, i) ← pickQueue k
    let next ← (k.queue a i).head?
    return (next, k)

def switchTasks (prev next : TaskId) (k : Kernel) : Kernel :=
  let k := k.mod prev fun t => { t with needResched := false }
  if prev ≠ next then
    let k := k.modRq fun rq => { rq with nrSwitches := rq.nrSwitches + 1, curr := next }
    createRecord (k.tasks prev).pid (k.tasks next).pid (k.tasks prev).policy.code
      (k.tasks next).policy.code k
  else k

/-- One pass of `schedule()`; the pass that `need_resched` repeats is the next call. -/
def schedule (k : Kernel) : Option Kernel := do
  let prev := k.current
  let k ← schedulePrev prev k
  let (next, k) ← pickNext k
  return switchTasks prev next k

/-- Where a task that was alone at its priority goes: the first occupied queue behind it,
or nowhere. -/
def yieldPrio (bitmap : ℤ → Bool) (prio : ℤ) : ℤ :=
  let i := schedFindFirstBit bitmap
  if i = maxPrio ∨ i ≤ prio then prio else i

/-- The list moves of `sys_sched_yield`, before its call of `schedule`. -/
def yieldMove (k : Kernel) : Option Kernel := do
  let cur := k.current
  let a ← (k.tasks cur).array
  let prio := (k.tasks cur).prio
  let k ← listDel cur k
  if rtTask (k.tasks cur) then
    listAddTail cur a prio k
  else if k.queue a prio ≠ [] then
    listAdd cur a prio (insertSecond cur) k
  else
    let k := k.modArray a (clearBit prio)
    let i := yieldPrio (k.rq.arrays a).bitmap prio
    let k := k.mod cur fun t => { t with prio := i }
    let k ← listAdd cur a i (insertSecond cur) k
    return k.modArray a (setBit i)

def sysSchedYield (k : Kernel) : Option Kernel := do
  let k ← yieldMove k
  schedule (recordSwitch .taskYields k)

end ShortSched
