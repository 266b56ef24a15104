import ShortSched.Lib.Buckets

/-! The data the scheduler works on: `task_struct`, `struct prio_array` and
`struct runqueue`, with the tuning constants of `sched.h` and `sched.c`. -/
namespace ShortSched

/-- The address of a task_struct. -/
abbrev TaskId := ℕ

/-- Position in `rq->arrays[4]`; a `prio_array_t *` points into the task's own runqueue. -/
abbrev ArrayIdx := Fin 4

abbrev maxUserRtPrio : ℤ := 100
abbrev maxRtPrio : ℤ := maxUserRtPrio
abbrev maxPrio : ℤ := maxRtPrio + 40
abbrev maxUserPrio : ℤ := maxPrio - maxRtPrio
abbrev prioBonusRatio : ℤ := 25
abbrev interactiveDelta : ℤ := 2

/-- Conversion to `unsigned int` and to the 32-bit `unsigned long` of i386. -/
def u32 (x : ℤ) : ℕ := (x % 4294967296).toNat

/-- Conversion to `int`. -/
def i32 (x : ℤ) : ℤ := Int.bmod x 4294967296

inductive TaskState where
  | running | interruptible | uninterruptible | zombie | stopped
  deriving DecidableEq, Repr

inductive Policy where
  | other | fifo | rr | short
  deriving DecidableEq, Repr

/-- The values of `SCHED_OTHER`, `SCHED_FIFO`, `SCHED_RR` and `SCHED_SHORT`. -/
def Policy.code : Policy → ℤ
  | .other => 0
  | .fifo => 1
  | .rr => 2
  | .short => 4

def Policy.ofCode (c : ℤ) : Option Policy :=
  if c = 0 then some .other else if c = 1 then some .fifo
  else if c = 2 then some .rr else if c = 4 then some .short else none

theorem Policy.ofCode_eq_some {c : ℤ} {q : Policy} : Policy.ofCode c = some q ↔ c = q.code := by
  constructor
  · intro h
    unfold Policy.ofCode at h
    split_ifs at h <;> cases h <;> assumption
  · rintro rfl
    cases q <;> rfl

inductive SwitchReason where
  | taskCreated | taskEnded | taskYields | shortOver | prevTaskWait | highierTaskActive
  | timeSliceOver
  deriving DecidableEq, Repr

structure SwitchInfo where
  previousPid : ℤ
  nextPid : ℤ
  previousPolicy : ℤ
  nextPolicy : ℤ
  time : ℕ
  /-- `none` is the initial -1. -/
  reason : Option SwitchReason
  deriving DecidableEq, Repr

abbrev switchInfoArraySize : ℕ := 150

structure SchedParam where
  schedPriority : ℤ
  requestedTime : ℤ
  trialNum : ℤ
  mark : ℤ
  deriving DecidableEq, Repr

/-- The list head that a `run_list` entry hangs on: a queue of an array of a runqueue. -/
structure ListHead where
  cpu : ℕ
  array : ArrayIdx
  prio : ℤ
  deriving DecidableEq, Repr

structure TaskStruct where
  state : TaskState
  needResched : Bool
  sigpending : Bool
  cpu : ℕ
  prio : ℤ
  staticPrio : ℤ
  /-- `none` is an entry that is on no list. -/
  runList : Option ListHead
  array : Option ArrayIdx
  sleepAvg : ℕ
  sleepTimestamp : ℕ
  policy : Policy
  cpusAllowed : ℕ → Bool
  timeSlice : ℕ
  firstTimeSlice : Bool
  pid : ℤ
  pOpptr : TaskId
  rtPriority : ℤ
  uid : ℕ
  euid : ℕ
  /-- `cap_raised(cap_effective, CAP_SYS_NICE)`. -/
  capSysNice : Bool
  requestedTime : ℤ
  numberOfTrials : ℤ
  currentTrial : ℤ
  isOverdue : Bool
  dbgMark : ℤ

structure PrioArray where
  nrActive : ℤ
  bitmap : ℤ → Bool
  queue : ℤ → List TaskId

structure Runqueue where
  /-- Index of this runqueue in `runqueues[NR_CPUS]`. -/
  cpu : ℕ
  nrRunning : ℤ
  nrSwitches : ℕ
  expiredTimestamp : ℕ
  nrUninterruptible : ℤ
  curr : TaskId
  idle : TaskId
  active : ArrayIdx
  expired : ArrayIdx
  shortQ : ArrayIdx
  overdue : ArrayIdx
  arrays : ArrayIdx → PrioArray
  prevNrRunning : ℕ → ℤ
  switchInfoArr : ℕ → SwitchInfo
  infoStart : ℕ
  infoEnd : ℕ
  recSwitchingRemaining : ℤ

/-- One CPU's view of the kernel: its runqueue, all tasks, and the hashed ones in
`pidhash` order. -/
structure Kernel where
  tasks : TaskId → TaskStruct
  rq : Runqueue
  jiffies : ℕ
  pidhash : List TaskId

/-- `current`: outside the switch itself the running task is `rq->curr`. -/
def Kernel.current (k : Kernel) : TaskId := k.rq.curr

/-- Assign to fields of one task_struct. -/
def Kernel.mod (k : Kernel) (p : TaskId) (f : TaskStruct → TaskStruct) : Kernel :=
  { k with tasks := Function.update k.tasks p (f (k.tasks p)) }

def Kernel.modRq (k : Kernel) (f : Runqueue → Runqueue) : Kernel := { k with rq := f k.rq }

def Kernel.modArray (k : Kernel) (a : ArrayIdx) (f : PrioArray → PrioArray) : Kernel :=
  k.modRq fun rq => { rq with arrays := Function.update rq.arrays a (f (rq.arrays a)) }

def Kernel.modQueue (k : Kernel) (a : ArrayIdx) (i : ℤ) (f : List TaskId → List TaskId) : Kernel :=
  k.modArray a fun q => { q with queue := Function.update q.queue i (f (q.queue i)) }

/-- The tasks on one queue of the runqueue. -/
def Kernel.queue (k : Kernel) (a : ArrayIdx) (i : ℤ) : List TaskId := (k.rq.arrays a).queue i

/-- `p` is linked on some queue of this runqueue. -/
def Kernel.Linked (k : Kernel) (p : TaskId) : Prop := ∃ a i, p ∈ k.queue a i

section
variable {k : Kernel} {p q : TaskId} {f : TaskStruct → TaskStruct} {g : Runqueue → Runqueue}

@[simp] theorem Kernel.mod_rq : (k.mod p f).rq = k.rq := rfl
@[simp] theorem Kernel.mod_queue : (k.mod p f).queue = k.queue := rfl

@[simp] theorem Kernel.mod_tasks_self : (k.mod p f).tasks p = f (k.tasks p) := by
  simp [Kernel.mod]

theorem Kernel.mod_tasks_ne (h : q ≠ p) : (k.mod p f).tasks q = k.tasks q := by
  simp [Kernel.mod, h]

/-- A field that the assignment leaves alone is the same for every task. -/
theorem Kernel.mod_field {β : Type*} (g : TaskStruct → β) (h : ∀ t, g (f t) = g t)
    (q : TaskId) : g ((k.mod p f).tasks q) = g (k.tasks q) := by
  by_cases hq : q = p
  · subst hq; simp [h]
  · rw [Kernel.mod_tasks_ne hq]

@[simp] theorem Kernel.modRq_rq : (k.modRq g).rq = g k.rq := rfl
@[simp] theorem Kernel.modRq_tasks : (k.modRq g).tasks = k.tasks := rfl
variable {a : ArrayIdx} {i : ℤ} {h h' : PrioArray → PrioArray} {l : List TaskId → List TaskId}

@[simp] theorem Kernel.modArray_tasks : (k.modArray a h).tasks = k.tasks := rfl
@[simp] theorem Kernel.modQueue_tasks : (k.modQueue a i l).tasks = k.tasks := rfl

theorem Kernel.modArray_arrays :
    (k.modArray a h).rq.arrays = Function.update k.rq.arrays a (h (k.rq.arrays a)) := rfl

theorem Kernel.modArray_queue_self : (k.modArray a h).queue a = (h (k.rq.arrays a)).queue := by
  unfold Kernel.queue
  simp [Kernel.modArray_arrays]

theorem Kernel.modArray_mod : (k.mod p f).modArray a h = (k.modArray a h).mod p f := rfl

theorem Kernel.modArray_modArray : (k.modArray a h).modArray a h' = k.modArray a (h' ∘ h) := by
  simp [Kernel.modArray, Kernel.modRq]

theorem Kernel.modArray_congr (he : h (k.rq.arrays a) = h' (k.rq.arrays a)) :
    k.modArray a h = k.modArray a h' := by
  simp [Kernel.modArray, Kernel.modRq, he]

end

/-- Tasks that do not belong to `SCHED_SHORT` are real-time below `MAX_RT_PRIO`; the
macro only looks at `prio`, so it also holds of an overdue task. -/
def rtTask (t : TaskStruct) : Prop := t.prio < maxRtPrio

instance (t : TaskStruct) : Decidable (rtTask t) := by unfold rtTask; infer_instance

/-- An overdue SHORT task. -/
def Overdue (t : TaskStruct) : Prop := t.policy = .short ∧ t.isOverdue = true

/-- A SHORT task that is not overdue. -/
def Short (t : TaskStruct) : Prop := t.policy = .short ∧ t.isOverdue = false

instance (t : TaskStruct) : Decidable (Overdue t) := by unfold Overdue; infer_instance
instance (t : TaskStruct) : Decidable (Short t) := by unfold Short; infer_instance

section constants
variable (HZ : ℕ)

def minTimeslice : ℤ := 10 * HZ / 1000
def maxTimeslice : ℤ := 300 * HZ / 1000
def maxSleepAvg : ℕ := 2 * HZ
def starvationLimit : ℕ := 2 * HZ

end constants

def niceToPrio (nice : ℤ) : ℤ := maxRtPrio + nice + 20
def prioToNice (prio : ℤ) : ℤ := prio - maxRtPrio - 20
def taskNice (t : TaskStruct) : ℤ := prioToNice t.staticPrio

end ShortSched
