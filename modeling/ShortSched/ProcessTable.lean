import ShortSched.Types
import ShortSched.Lib.Cells

/-! The process table: the ring of all tasks, the family links, the thread groups and the pid
hash, with the macros and inline functions of `sched.h` that keep them. -/
namespace ShortSched
open Cells

/-- What `pidhash_pprev` points to: a slot of `pidhash`, or the `pidhash_next` of a task. -/
inductive HashRef where
  | bucket (i : ℕ)
  | next (p : TaskId)
  deriving DecidableEq, Repr

/-- The fields of task_struct through which tasks are found and related. -/
structure Entry where
  state : TaskState
  /-- `PF_EXITING`. -/
  exiting : Bool
  /-- `PT_PTRACED`. -/
  ptraced : Bool
  firstTimeSlice : Bool
  nextTask : TaskId
  prevTask : TaskId
  exitCode : ℤ
  exitSignal : ℤ
  pdeathSignal : ℤ
  pid : ℤ
  pgrp : ℤ
  session : ℤ
  tgid : ℤ
  pOpptr : TaskId
  pPptr : TaskId
  pCptr : Option TaskId
  pYsptr : Option TaskId
  pOsptr : Option TaskId
  /-- `thread_group.next` and `thread_group.prev`. -/
  threadNext : TaskId
  threadPrev : TaskId
  pidhashNext : Option TaskId
  pidhashPprev : HashRef
  parentExecId : ℕ
  selfExecId : ℕ
  capKill : Bool
  sigpending : Bool

/-- Signals are sent by code outside; here they are only written down. -/
inductive Sent where
  | sendSig (sig : ℤ) (p : TaskId)
  | killPg (pgrp sig : ℤ)
  | notifyParent (p : TaskId) (sig : ℤ)
  deriving DecidableEq, Repr

structure Table where
  tasks : TaskId → Entry
  pidhash : ℕ → Option TaskId
  nrThreads : ℤ
  lastPid : ℤ
  nextSafe : ℤ
  current : TaskId
  childReaper : TaskId
  sent : List Sent

/-- The address of `init_task`. -/
abbrev initTaskAddr : TaskId := 0

abbrev SIGHUP : ℤ := 1
abbrev SIGCHLD : ℤ := 17
abbrev SIGCONT : ℤ := 18

def Table.mod (t : Table) (p : TaskId) (f : Entry → Entry) : Table :=
  { t with tasks := Function.update t.tasks p (f (t.tasks p)) }

def Table.send (t : Table) (s : Sent) : Table := { t with sent := t.sent ++ [s] }

section assignments
variable (p : TaskId)

def Table.setNextTask (q : TaskId) (t : Table) : Table := t.mod p fun e => { e with nextTask := q }
def Table.setPrevTask (q : TaskId) (t : Table) : Table := t.mod p fun e => { e with prevTask := q }
def Table.setCptr (q : Option TaskId) (t : Table) : Table := t.mod p fun e => { e with pCptr := q }
def Table.setYsptr (q : Option TaskId) (t : Table) : Table :=
  t.mod p fun e => { e with pYsptr := q }
def Table.setOsptr (q : Option TaskId) (t : Table) : Table :=
  t.mod p fun e => { e with pOsptr := q }

def Table.setThreadNext (q : TaskId) (t : Table) : Table :=
  t.mod p fun e => { e with threadNext := q }

def Table.setThreadPrev (q : TaskId) (t : Table) : Table :=
  t.mod p fun e => { e with threadPrev := q }

def Table.setPidhashPprev (r : HashRef) (t : Table) : Table :=
  t.mod p fun e => { e with pidhashPprev := r }

end assignments

/-- `*pprev = p`. -/
def Table.setHashRef (r : HashRef) (p : Option TaskId) (t : Table) : Table :=
  match r with
  | .bucket i => { t with pidhash := Function.update t.pidhash i p }
  | .next q => t.mod q fun e => { e with pidhashNext := p }

/-! The links, assignment by assignment. -/

/-- `SET_LINKS`. -/
def setLinks (p : TaskId) (t : Table) : Table :=
  let t := t.setNextTask p initTaskAddr
  let t := t.setPrevTask p (t.tasks initTaskAddr).prevTask
  let t := t.setNextTask (t.tasks initTaskAddr).prevTask p
  let t := t.setPrevTask initTaskAddr p
  let t := t.setYsptr p none
  let t := t.setOsptr p (t.tasks (t.tasks p).pPptr).pCptr
  let t := match (t.tasks p).pOsptr with
    | none => t
    | some q => t.setYsptr q (some p)
  t.setCptr (t.tasks p).pPptr (some p)

/-- `REMOVE_LINKS`. -/
def removeLinks (p : TaskId) (t : Table) : Table :=
  let t := t.setPrevTask (t.tasks p).nextTask (t.tasks p).prevTask
  let t := t.setNextTask (t.tasks p).prevTask (t.tasks p).nextTask
  let t := match (t.tasks p).pOsptr with
    | none => t
    | some q => t.setYsptr q (t.tasks p).pYsptr
  match (t.tasks p).pYsptr with
  | some q => t.setOsptr q (t.tasks p).pOsptr
  | none => t.setCptr (t.tasks p).pPptr (t.tasks p).pOsptr

/-- `pid_hashfn`. -/
def pidHashfn (x : ℤ) : ℕ := (u32 x >>> 8 ^^^ u32 x) &&& 1023

def hashPid (p : TaskId) (t : Table) : Table :=
  let htable := pidHashfn (t.tasks p).pid
  let t := t.setHashRef (.next p) (t.pidhash htable)
  let t := match (t.tasks p).pidhashNext with
    | none => t
    | some q => t.setPidhashPprev q (.next p)
  let t := t.setHashRef (.bucket htable) (some p)
  t.setPidhashPprev p (.bucket htable)

def unhashPid (p : TaskId) (t : Table) : Table :=
  let t := match (t.tasks p).pidhashNext with
    | none => t
    | some q => t.setPidhashPprev q (t.tasks p).pidhashPprev
  t.setHashRef (t.tasks p).pidhashPprev (t.tasks p).pidhashNext

/-- `INIT_LIST_HEAD(&p->thread_group)`. -/
def initThreadGroup (p : TaskId) (t : Table) : Table :=
  (t.setThreadNext p p).setThreadPrev p p

/-- `list_add(&p->thread_group, &q->thread_group)`. -/
def addThread (p q : TaskId) (t : Table) : Table :=
  let next := (t.tasks q).threadNext
  let t := t.setThreadPrev next p
  let t := t.setThreadNext p next
  let t := t.setThreadPrev p q
  t.setThreadNext q p

/-- `list_del(&p->thread_group)`. -/
def delThread (p : TaskId) (t : Table) : Table :=
  let prev := (t.tasks p).threadPrev
  let next := (t.tasks p).threadNext
  (t.setThreadPrev next prev).setThreadNext prev next

def unhashProcess (p : TaskId) (t : Table) : Table :=
  let t := unhashPid p { t with nrThreads := t.nrThreads - 1 }
  delThread p (removeLinks p t)

/-- `REMOVE_LINKS`, a new `p_pptr`, and `SET_LINKS`. -/
def reparent (p r : TaskId) (t : Table) : Table :=
  setLinks p ((removeLinks p t).mod p fun e => { e with pPptr := r })

/-- The end of `do_fork`, from `p->tgid = retval` to `nr_threads++`. -/
def linkTask (p : TaskId) (cloneParent cloneThread : Bool) (t : Table) : Table :=
  let cur := t.current
  let t := initThreadGroup p (t.mod p fun e => { e with tgid := e.pid })
  let t := t.mod p fun e => { e with pOpptr := (t.tasks cur).pOpptr, pPptr := (t.tasks cur).pPptr }
  let t := if cloneParent then t else
    let t := t.mod p fun e => { e with pOpptr := cur }
    if (t.tasks p).ptraced then t else t.mod p fun e => { e with pPptr := cur }
  let t := if cloneThread then
      addThread p cur (t.mod p fun e => { e with tgid := (t.tasks cur).tgid })
    else t
  let t := hashPid p (setLinks p t)
  { t with nrThreads := t.nrThreads + 1 }

/-! The lists as links in memory. -/

/-- The cells of the family lists: the `p_cptr` of a parent, and the `p_osptr` of a child. -/
inductive FamilyCell where
  | youngest (q : TaskId)
  | elder (p : TaskId)
  deriving DecidableEq

/-- The pointers of all tasks, field by field. -/
@[ext] structure Pointers where
  next : TaskId → TaskId
  prev : TaskId → TaskId
  pptr : TaskId → TaskId
  cptr : TaskId → Option TaskId
  ysptr : TaskId → Option TaskId
  osptr : TaskId → Option TaskId
  threadNext : TaskId → TaskId
  threadPrev : TaskId → TaskId
  hashNext : TaskId → Option TaskId
  hashPprev : TaskId → HashRef
  pidhash : ℕ → Option TaskId

def Table.pointers (t : Table) : Pointers where
  next p := (t.tasks p).nextTask
  prev p := (t.tasks p).prevTask
  pptr p := (t.tasks p).pPptr
  cptr p := (t.tasks p).pCptr
  ysptr p := (t.tasks p).pYsptr
  osptr p := (t.tasks p).pOsptr
  threadNext p := (t.tasks p).threadNext
  threadPrev p := (t.tasks p).threadPrev
  hashNext p := (t.tasks p).pidhashNext
  hashPprev p := (t.tasks p).pidhashPprev
  pidhash := t.pidhash

def Pointers.ring (v : Pointers) : Links TaskId TaskId := ⟨fun p => some (v.next p), v.prev⟩

def Pointers.threads (v : Pointers) : Links TaskId TaskId :=
  ⟨fun p => some (v.threadNext p), v.threadPrev⟩

/-- A youngest child is reached from its parent, the others from their younger sibling. -/
def Pointers.family (v : Pointers) : Links FamilyCell TaskId where
  get
    | .youngest q => v.cptr q
    | .elder p => v.osptr p
  back p := match v.ysptr p with
    | none => .youngest (v.pptr p)
    | some q => .elder q

def Pointers.hash (v : Pointers) : Links HashRef TaskId where
  get
    | .bucket i => v.pidhash i
    | .next p => v.hashNext p
  back := v.hashPprev

/-! The loops. `n` bounds how far they go. -/

/-- `for_each_task`. -/
def Table.forEachTask (t : Table) (n : ℕ) : Option (List TaskId) :=
  walk id t.pointers.ring.get (some initTaskAddr) n initTaskAddr

/-- `for (p = q->p_cptr; p; p = p->p_osptr)`. -/
def Table.children (t : Table) (n : ℕ) (q : TaskId) : Option (List TaskId) :=
  walk .elder t.pointers.family.get none n (.youngest q)

/-- The threads that `next_thread` comes by before it is back at `p`. -/
def Table.otherThreads (t : Table) (n : ℕ) (p : TaskId) : Option (List TaskId) :=
  walk id t.pointers.threads.get (some p) n p

/-- `find_task_by_pid`. -/
def Table.findTaskByPid (t : Table) (n : ℕ) (pid : ℤ) : Option (Option TaskId) :=
  (walk .next t.pointers.hash.get none n (.bucket (pidHashfn pid))).map
    (·.find? fun p => (t.tasks p).pid = pid)

end ShortSched
