import ShortSched.Queue

/-! An abstract machine for one task: the fields that scheduling depends on, and what may
happen to them. A guard says what the environment does to the task. -/
namespace ShortSched

/-- What scheduling depends on in one task_struct. -/
structure Core where
  state : TaskState
  policy : Policy
  isOverdue : Bool
  prio : ℤ
  staticPrio : ℤ
  requestedTime : ℤ
  numberOfTrials : ℤ
  currentTrial : ℤ
  timeSlice : ℕ
  firstTimeSlice : Bool
  runList : Option ListHead
  array : Option ArrayIdx
  deriving DecidableEq

def TaskStruct.core (t : TaskStruct) : Core where
  state := t.state
  policy := t.policy
  isOverdue := t.isOverdue
  prio := t.prio
  staticPrio := t.staticPrio
  requestedTime := t.requestedTime
  numberOfTrials := t.numberOfTrials
  currentTrial := t.currentTrial
  timeSlice := t.timeSlice
  firstTimeSlice := t.firstTimeSlice
  runList := t.runList
  array := t.array

/-- The array pointers of a runqueue. -/
structure Ptrs where
  cpu : ℕ
  active : ArrayIdx
  expired : ArrayIdx
  shortQ : ArrayIdx
  overdue : ArrayIdx

def Runqueue.ptrs (rq : Runqueue) : Ptrs where
  cpu := rq.cpu
  active := rq.active
  expired := rq.expired
  shortQ := rq.shortQ
  overdue := rq.overdue

/-- The list entry of a queue of this runqueue. -/
def Ptrs.entry (ps : Ptrs) (a : ArrayIdx) (i : ℤ) : ListHead := ⟨ps.cpu, a, i⟩

def Core.IsShort (c : Core) : Prop := c.policy = .short ∧ c.isOverdue = false
def Core.IsOverdue (c : Core) : Prop := c.policy = .short ∧ c.isOverdue = true

instance (c : Core) : Decidable c.IsShort := by unfold Core.IsShort; infer_instance
instance (c : Core) : Decidable c.IsOverdue := by unfold Core.IsOverdue; infer_instance

/-- The array that a wake-up puts the task on. -/
def Core.wakeArray (ps : Ptrs) (c : Core) : ArrayIdx :=
  if c.policy = .short then (if c.isOverdue then ps.overdue else ps.shortQ) else ps.active

/-- The values that `effective_prio` may return: those of `SCHED_OTHER`, and for a SHORT
task only its static priority. -/
def Core.Dynamic (c : Core) (i : ℤ) : Prop :=
  100 ≤ i ∧ i < 140 ∧ (c.IsShort → 100 ≤ c.staticPrio → c.staticPrio < 140 → i = c.staticPrio)

/-- The priority that a task may have when it is woken for the first time. -/
def Core.Fresh (c : Core) (i : ℤ) : Prop := c.prio < 100 ∧ i = c.prio ∨ 100 ≤ c.prio ∧ c.Dynamic i

/-- The task on queue `i` of array `a`. -/
def Core.on (ps : Ptrs) (a : ArrayIdx) (i : ℤ) (c : Core) : Core :=
  { c with prio := i, runList := some (ps.entry a i), array := some a }

/-- The task without its list entry. -/
def Core.free (c : Core) : Core := { c with runList := none }

/-- The task with its list entry on `l`. -/
def Core.listed (l : ListHead) (c : Core) : Core := { c with runList := some l }

def Core.withPrio (i : ℤ) (c : Core) : Core := { c with prio := i }

def Core.withState (s : TaskState) (c : Core) : Core := { c with state := s }

def Core.withSlice (n : ℕ) (c : Core) : Core := { c with timeSlice := n }

def Core.off (c : Core) : Core := { c with runList := none, array := none }

section
variable (HZ : ℕ) (ps : Ptrs)

/-- A timer tick charged to the task. -/
inductive TickStep : Core → Core → Prop
  | skip (c : Core) (h : ¬ c.IsShort) : TickStep c c
  | down (c : Core) (h : c.IsShort ∨ c.policy = .rr ∨ c.policy ≠ .short ∧ 100 ≤ c.prio)
      (ht : u32 (c.timeSlice - 1) ≠ 0) : TickStep c { c with timeSlice := u32 (c.timeSlice - 1) }
  | trial (c : Core) (h : c.IsShort) (ht : u32 (c.timeSlice - 1) = 0) (hl : c.runList ≠ none)
      (hn : c.currentTrial + 1 < c.numberOfTrials)
      (hs : shortTimeslice HZ c.requestedTime (c.currentTrial + 1) ≠ 0) :
      TickStep c ({ c with
        currentTrial := c.currentTrial + 1
        firstTimeSlice := false
        timeSlice := shortTimeslice HZ c.requestedTime (c.currentTrial + 1) }.on ps ps.shortQ c.prio)
  | overdue (c : Core) (h : c.IsShort) (ht : u32 (c.timeSlice - 1) = 0) (hl : c.runList ≠ none)
      (hn : c.numberOfTrials ≤ c.currentTrial + 1 ∨
        shortTimeslice HZ c.requestedTime (c.currentTrial + 1) = 0) :
      TickStep c ({ c with
        currentTrial := c.currentTrial + 1
        firstTimeSlice := false
        timeSlice := 1
        isOverdue := true }.on ps ps.overdue 0)
  | rrSlice (c : Core) (h : c.policy = .rr) (ht : u32 (c.timeSlice - 1) = 0)
      (hl : c.runList ≠ none) : TickStep c ({ c with
        firstTimeSlice := false
        timeSlice := taskTimeslice HZ c.staticPrio }.on ps ps.active c.prio)
  | otherSlice (c : Core) (a : ArrayIdx) (i : ℤ) (h : c.policy ≠ .short) (hp : 100 ≤ c.prio)
      (ht : u32 (c.timeSlice - 1) = 0) (hl : c.runList ≠ none)
      (ha : a = ps.active ∨ a = ps.expired) (hi : c.Dynamic i) : TickStep c ({ c with
        firstTimeSlice := false
        timeSlice := taskTimeslice HZ c.staticPrio }.on ps a i)

/-- What the environment may do to a task: the `requested_time` that a SHORT task may be
given, the parameters with which a task may become SHORT, the other policies that it may
get, the SHORT tasks that may fork, the children that a task may reap, the tasks that may be
charged a tick, and the priorities to which a task may yield. -/
structure Guard where
  update : ℤ → Prop
  enter : Core → ℤ → ℤ → Prop
  change : Core → Policy → Prop
  fork : Core → Prop
  reap : Core → Core → Prop
  tick : Core → Prop
  yield : Core → ℤ → Prop

/-- No restriction. -/
def Guard.free : Guard where
  update _ := True
  enter _ _ _ := True
  change _ _ := True
  fork _ := True
  reap _ _ := True
  tick _ := True
  yield _ _ := True

variable (π : Guard)

/-- The parent's share of a fork, but for the slice. -/
def Core.forking (c : Core) : Core :=
  if c.IsShort then { c with numberOfTrials := c.numberOfTrials / 2 } else c

theorem Core.forking_withSlice (n : ℕ) (c : Core) :
    (c.withSlice n).forking = c.forking.withSlice n := by
  by_cases h : c.IsShort
  · rw [Core.forking, Core.forking, if_pos h, if_pos (show (c.withSlice n).IsShort from h)]
    rfl
  · rw [Core.forking, Core.forking, if_neg h, if_neg (show ¬ (c.withSlice n).IsShort from h)]

theorem Core.forking_isShort {c : Core} : c.forking.IsShort ↔ c.IsShort := by
  unfold Core.forking
  split_ifs <;> rfl

theorem Core.forking_policy (c : Core) : c.forking.policy = c.policy := by
  unfold Core.forking
  split_ifs <;> rfl

theorem Core.forking_requestedTime (c : Core) : c.forking.requestedTime = c.requestedTime := by
  unfold Core.forking
  split_ifs <;> rfl

/-- Changes to the slice that need no queue: a fork, a reaped child, a lost parent. -/
inductive ShareStep : Core → Core → Prop
  | fork (c : Core) (h : c.IsShort → π.fork c) (ht : c.timeSlice / 2 ≠ 0) :
      ShareStep c (c.forking.withSlice (c.timeSlice / 2))
  | forkTick (c c' : Core) (h : c.IsShort → π.fork c) (ht : c.timeSlice / 2 = 0)
      (h0 : c.timeSlice ≠ 0) (hc : TickStep HZ ps (c.forking.withSlice 1) c')
      (hg : π.tick (c.forking.withSlice 1)) : ShareStep c c'
  | reap (c child : Core) (h : π.reap c child) (hf : child.firstTimeSlice = true) :
      ShareStep c (c.withSlice (reapedSlice HZ c.timeSlice child.timeSlice))
  | orphan (c : Core) : ShareStep c { c with firstTimeSlice := false }

/-- One thing that may happen to a task. -/
inductive TaskStep : Core → Core → Prop
  | tick {c c' : Core} (h : TickStep HZ ps c c') (hg : π.tick c) : TaskStep c c'
  | share {c c' : Core} (h : ShareStep HZ ps π c c') : TaskStep c c'
  | state (c : Core) (s : TaskState) : TaskStep c (c.withState s)
  | activate (c : Core) (i : ℤ) (hl : c.runList = none)
      (hi : i = c.prio ∨ 100 ≤ c.prio ∧ c.Dynamic i) : TaskStep c (c.on ps (c.wakeArray ps) i)
  | deactivate (c : Core) (hl : c.runList ≠ none) : TaskStep c c.off
  | recompute (c : Core) (i : ℤ) (hp : 100 ≤ c.prio) (hl : c.runList = none) (hi : c.Dynamic i) :
      TaskStep c (c.withPrio i)
  | yield (c : Core) (a : ArrayIdx) (i : ℤ) (hl : c.runList ≠ none) (ha : c.array = some a)
      (hr : c.prio < 100 → i = c.prio) (hi : i = c.prio ∨ c.prio < i ∧ i < 140)
      (hg : π.yield c i) : TaskStep c (c.on ps a i)
  | nice (c : Core) (s : ℤ) (h : c.policy ≠ .short) (hs : 100 ≤ s ∧ s < 140)
      (hc : c.prio < 100) : TaskStep c { c with staticPrio := s }
  | niceOff (c : Core) (s : ℤ) (h : c.policy ≠ .short) (hs : 100 ≤ s ∧ s < 140)
      (hp : 100 ≤ c.prio) (ha : c.array = none) : TaskStep c { c with staticPrio := s, prio := s }
  | niceOn (c : Core) (a : ArrayIdx) (s : ℤ) (h : c.policy ≠ .short) (hs : 100 ≤ s ∧ s < 140)
      (hp : 100 ≤ c.prio) (hl : c.runList ≠ none) (ha : c.array = some a) :
      TaskStep c ({ c with staticPrio := s }.on ps a s)
  | enter (c : Core) (requestedTime trials : ℤ) (h : c.policy = .other) (ha : c.array = none)
      (hg : π.enter c requestedTime trials) : TaskStep c { c with
        policy := .short
        isOverdue := false
        prio := c.staticPrio
        requestedTime
        numberOfTrials := trials
        currentTrial := 0
        timeSlice := shortTimeslice HZ requestedTime 0
        array := some ps.shortQ }
  | update (c : Core) (requestedTime : ℤ) (h : c.IsShort) (hg : π.update requestedTime) :
      TaskStep c { c with requestedTime }
  | setPolicy (c : Core) (q : Policy) (i : ℤ) (h : ¬ c.IsOverdue) (hq : q ≠ .short)
      (ha : c.array = none) (hr : q = .fifo ∨ q = .rr → 0 ≤ i ∧ i < 100)
      (ho : q = .other → i = c.staticPrio) (hg : π.change c q) :
      TaskStep c { c with policy := q, prio := i }

/-- What may happen to the idle task. -/
inductive IdleStep : Core → Core → Prop
  | tick {c c' : Core} (h : TickStep HZ ps c c') : IdleStep c c'
  | share {c c' : Core} (h : ShareStep HZ ps π c c') : IdleStep c c'
  | running (c : Core) : IdleStep c (c.withState .running)
  | deactivate (c : Core) (hl : c.runList ≠ none) : IdleStep c c.off
  | park (c : Core) (hl : c.runList ≠ none) :
      IdleStep c { c.off with prio := maxPrio, state := .running }

/-- The new child of a task. -/
def Core.forked (c : Core) : Core :=
  { c.off with
    state := .uninterruptible
    numberOfTrials :=
      if c.IsShort then (c.numberOfTrials - c.currentTrial + 1) / 2 else c.numberOfTrials
    currentTrial := if c.IsShort then 0 else c.currentTrial
    timeSlice := u32 (c.timeSlice + 1) / 2
    firstTimeSlice := true }

end
end ShortSched
