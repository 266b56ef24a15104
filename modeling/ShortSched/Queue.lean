import ShortSched.Types

/-! Queue primitives of `sched.c`: list entries, `enqueue_task`, `dequeue_task`,
`effective_prio`, `activate_task`, `deactivate_task` and the switch log.

A function returns `none` where the C code would follow a NULL pointer or apply
`list_del` or `list_add` to an entry that is not, or already, on a list. -/
namespace ShortSched
open Buckets

/-- `list_del(&p->run_list)`: the entry leaves the list that it is on. -/
def listDel (p : TaskId) (k : Kernel) : Option Kernel :=
  match (k.tasks p).runList with
  | none => none
  | some h =>
      if h.cpu = k.rq.cpu then
        some ((k.modQueue h.array h.prio (·.erase p)).mod p fun t => { t with runList := none })
      else none

/-- `list_add` and `list_add_tail` of `p->run_list` at `array->queue + i`; `f` places
the entry in the list. -/
def listAdd (p : TaskId) (a : ArrayIdx) (i : ℤ) (f : List TaskId → List TaskId)
    (k : Kernel) : Option Kernel :=
  if (k.tasks p).runList = none then
    some ((k.modQueue a i f).mod p fun t => { t with runList := some ⟨k.rq.cpu, a, i⟩ })
  else none

def listAddTail (p : TaskId) (a : ArrayIdx) (i : ℤ) : Kernel → Option Kernel :=
  listAdd p a i (· ++ [p])

def setBit (i : ℤ) (q : PrioArray) : PrioArray :=
  { q with bitmap := Function.update q.bitmap i true }

def clearBit (i : ℤ) (q : PrioArray) : PrioArray :=
  { q with bitmap := Function.update q.bitmap i false }

/-- `sched_find_first_bit`: bit `MAX_PRIO` is the delimiter. -/
def schedFindFirstBit (bitmap : ℤ → Bool) : ℤ := nextMark bitmap 0 140

def dequeueTask (p : TaskId) (a : ArrayIdx) (k : Kernel) : Option Kernel := do
  let k := k.modArray a fun q => { q with nrActive := q.nrActive - 1 }
  let k ← listDel p k
  if k.queue a (k.tasks p).prio = [] then
    return k.modArray a (clearBit (k.tasks p).prio)
  else
    return k

def enqueueTask (p : TaskId) (a : ArrayIdx) (k : Kernel) : Option Kernel := do
  let k ← listAddTail p a (k.tasks p).prio k
  let k := k.modArray a (setBit (k.tasks p).prio)
  let k := k.modArray a fun q => { q with nrActive := q.nrActive + 1 }
  return k.mod p fun t => { t with array := some a }

def recordSwitch (reason : SwitchReason) (k : Kernel) : Kernel :=
  k.modRq fun rq =>
    let nextInfo := rq.infoEnd
    { rq with
      switchInfoArr := Function.update rq.switchInfoArr nextInfo
        { rq.switchInfoArr nextInfo with reason := some reason }
      recSwitchingRemaining :=
        if reason = .taskCreated ∨ reason = .taskEnded then 30 else rq.recSwitchingRemaining }

def incInfo (i : ℕ) : ℕ := (i + 1) % switchInfoArraySize

def createRecord (previousPid nextPid previousPolicy nextPolicy : ℤ) (k : Kernel) : Kernel :=
  k.modRq fun rq =>
    let nextInfo := rq.infoEnd
    let remaining := i32 (rq.recSwitchingRemaining - 1)
    let infoEnd := if remaining > 0 then incInfo nextInfo else rq.infoEnd
    { rq with
      switchInfoArr := Function.update rq.switchInfoArr nextInfo
        { previousPid, nextPid, previousPolicy, nextPolicy, time := k.jiffies
          reason := (rq.switchInfoArr nextInfo).reason }
      recSwitchingRemaining := remaining
      infoEnd
      infoStart := if remaining > 0 ∧ infoEnd = rq.infoStart then incInfo rq.infoStart
        else rq.infoStart }

def reschedTask (p : TaskId) (k : Kernel) : Kernel :=
  k.mod p fun t => { t with needResched := true }

section
variable (HZ : ℕ)

def effectivePrio (t : TaskStruct) : ℤ :=
  let bonus := maxUserPrio * prioBonusRatio * t.sleepAvg / maxSleepAvg HZ / 100 -
    maxUserPrio * prioBonusRatio / 100 / 2
  let bonus :=
    if t.policy = .short then (if t.isOverdue then t.staticPrio else 0) else bonus
  let prio := t.staticPrio - bonus
  let prio := if prio < maxRtPrio then maxRtPrio else prio
  if prio > maxPrio - 1 then maxPrio - 1 else prio

/-- `SHORT_TIMESLICE(p)` of the two fields it reads, assigned to an `unsigned int`. -/
def shortTimeslice (requestedTime currentTrial : ℤ) : ℕ :=
  u32 (((i32 (requestedTime * HZ)).tdiv 1000).tdiv (currentTrial + 1))

/-- `TASK_TIMESLICE(p)` of the field it reads. -/
def taskTimeslice (staticPrio : ℤ) : ℕ :=
  u32 (minTimeslice HZ +
    ((maxTimeslice HZ - minTimeslice HZ) * (maxPrio - 1 - staticPrio)).tdiv 39)

/-- The parent's slice when a reaped child's slice comes back: the sum, clamped. -/
def reapedSlice (parent child : ℕ) : ℕ :=
  let sum := u32 (parent + child)
  if sum > maxTimeslice HZ then u32 (maxTimeslice HZ) else sum

/-- `jiffies - p->sleep_timestamp`. -/
def sleepTime (k : Kernel) (t : TaskStruct) : ℕ := u32 (k.jiffies - t.sleepTimestamp)

/-- The sleep credit of `activate_task`, with the priority recomputed from it. -/
def creditSleep (sleep : ℕ) (t : TaskStruct) : TaskStruct :=
  let avg := u32 (t.sleepAvg + sleep)
  let t := { t with sleepAvg := if avg > maxSleepAvg HZ then maxSleepAvg HZ else avg }
  { t with prio := effectivePrio HZ t }

/-- The array that `activate_task` chooses for a task. -/
def activationArray (rq : Runqueue) (t : TaskStruct) : ArrayIdx :=
  if t.policy = .short then (if t.isOverdue then rq.overdue else rq.shortQ) else rq.active

def activateTask (p : TaskId) (k : Kernel) : Option Kernel := do
  let array := activationArray k.rq (k.tasks p)
  let sleep := sleepTime k (k.tasks p)
  let k := if ¬ rtTask (k.tasks p) ∧ sleep ≠ 0 then k.mod p (creditSleep HZ sleep) else k
  let k ← enqueueTask p array k
  return k.modRq fun rq => { rq with nrRunning := rq.nrRunning + 1 }

end

def deactivateTask (p : TaskId) (k : Kernel) : Option Kernel := do
  let k := k.modRq fun rq => { rq with nrRunning := rq.nrRunning - 1 }
  let k := if (k.tasks p).state = .uninterruptible then
      k.modRq fun rq => { rq with nrUninterruptible := rq.nrUninterruptible + 1 }
    else k
  let a ← (k.tasks p).array
  let k ← dequeueTask p a k
  return k.mod p fun t => { t with array := none }

end ShortSched
