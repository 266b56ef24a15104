import ShortSched.ForkFailure
import ShortSched.Pids

/-! Birth, death and mourning: what `do_fork`, `do_exit`, `sys_wait4`, `reparent_to_init` and
`daemonize` do to the process table. -/
namespace ShortSched
open Cells

abbrev ECHILD : ℤ := 10
abbrev ERESTARTSYS : ℤ := 512
abbrev SIGSTOP : ℤ := 19

/-- The clone flags that shape the process table, and the `CSIGNAL` bits. -/
structure CloneLinks where
  pid : Bool
  ptrace : Bool
  parent : Bool
  thread : Bool
  csignal : ℤ
  deriving DecidableEq

/-- What the child's task_struct has at `SET_LINKS`. -/
def Entry.copied (pid : ℤ) (f : CloneLinks) (e : Entry) : Entry :=
  { e with
    state := .uninterruptible
    ptraced := e.ptraced && f.ptrace
    pid := pid
    pCptr := none
    sigpending := false
    parentExecId := e.selfExecId
    exitSignal := f.csignal
    pdeathSignal := 0
    firstTimeSlice := true }

/-- A task whose original parent has gone. -/
def Entry.orphaned (pOpptr : TaskId) (e : Entry) : Entry :=
  { e with
    exitSignal := SIGCHLD
    selfExecId := u32 (e.selfExecId + 1)
    pOpptr
    firstTimeSlice := false }

namespace Table
variable (n : ℕ)

/-- The part of `do_fork` that deals with the table. `p` is the new task_struct, and
`copyFails` says whether `copy_files` or another of the copies fails. -/
def doFork (maxThreads : ℤ) (p : TaskId) (f : CloneLinks) (copyFails : Bool) (t : Table) :
    Option (ℤ × Table) :=
  let cur := t.current
  if f.pid ∧ (t.tasks cur).pid ≠ 0 then some (-EPERM, t)
  else if t.nrThreads ≥ maxThreads then some (-EAGAIN, t)
  else do
    let (pid, t) ← t.getPid n f.pid
    if pid = 0 ∧ (t.tasks cur).pid ≠ 0 then some (-EAGAIN, t)
    else if copyFails then some (-ENOMEM, t)
    else
      let t := linkTask p f.parent f.thread (t.mod p fun _ => (t.tasks cur).copied pid f)
      let t := if (t.tasks p).ptraced then t.send (.sendSig SIGSTOP p) else t
      -- wake_up_forked_process
      some (pid, t.mod p fun e => { e with state := .running })

/-- The first thread of the group after `father` that is not exiting, else `child_reaper`. -/
def reaper (father : TaskId) (t : Table) : Option TaskId :=
  (t.otherThreads n father).map fun ps =>
    (ps.find? fun p => !(t.tasks p).exiting).getD t.childReaper

/-- The body of the loop of `forget_original_parent`. -/
def forgetParent (father reaper : TaskId) (t : Table) (p : TaskId) : Table :=
  if (t.tasks p).pOpptr = father then
    let t := t.mod p (Entry.orphaned (if p = reaper then t.childReaper else reaper))
    if (t.tasks p).pdeathSignal ≠ 0 then t.send (.sendSig (t.tasks p).pdeathSignal p) else t
  else t

def forgetOriginalParent (father : TaskId) (t : Table) : Option Table := do
  let reaper ← t.reaper n father
  let ps ← t.forEachTask n
  some (ps.foldl (forgetParent father reaper) t)

/-- A task that keeps its group from being orphaned: its parent is in the session, but in
another group. -/
def connects (t : Table) (pgrp : ℤ) (p : TaskId) : Bool :=
  let parent := t.tasks (t.tasks p).pPptr
  (t.tasks p).pgrp = pgrp && (t.tasks p).state ≠ .zombie && parent.pid ≠ 1 &&
    parent.pgrp ≠ pgrp && parent.session = (t.tasks p).session

def willBecomeOrphanedPgrp (pgrp : ℤ) (ignored : Option TaskId) (t : Table) : Option Bool :=
  (t.forEachTask n).map fun ps => !ps.any fun p => ignored ≠ some p && t.connects pgrp p

def isOrphanedPgrp (pgrp : ℤ) (t : Table) : Option Bool := t.willBecomeOrphanedPgrp n pgrp none

def hasStoppedJobs (pgrp : ℤ) (t : Table) : Option Bool :=
  (t.forEachTask n).map (·.any fun p => (t.tasks p).pgrp = pgrp && (t.tasks p).state = .stopped)

/-- `kill_pg(pgrp, SIGHUP, 1); kill_pg(pgrp, SIGCONT, 1)`. -/
def killPgrp (pgrp : ℤ) (t : Table) : Table :=
  (t.send (.killPg pgrp SIGHUP)).send (.killPg pgrp SIGCONT)

/-- How the loop of `exit_notify` moves a child of `current` to its original parent. -/
def disown (p : TaskId) (t : Table) : Table :=
  let t := t.setCptr t.current (t.tasks p).pOsptr
  let t := t.setYsptr p none
  let t := t.mod p fun e => { e with ptraced := false }
  let t := t.mod p fun e => { e with pPptr := e.pOpptr }
  let t := t.setOsptr p (t.tasks (t.tasks p).pPptr).pCptr
  let t := match (t.tasks p).pOsptr with
    | none => t
    | some q => t.setYsptr q (some p)
  t.setCptr (t.tasks p).pPptr (some p)

/-- The rest of the loop's body. -/
def announce (p : TaskId) (t : Table) : Option Table := do
  let t := if (t.tasks p).state = .zombie then t.send (.notifyParent p (t.tasks p).exitSignal)
    else t
  if (t.tasks p).pgrp ≠ (t.tasks t.current).pgrp ∧
      (t.tasks p).session = (t.tasks t.current).session then
    let orphaned ← t.isOrphanedPgrp n (t.tasks p).pgrp
    let stopped ← t.hasStoppedJobs n (t.tasks p).pgrp
    some (if orphaned ∧ stopped then t.killPgrp (t.tasks p).pgrp else t)
  else some t

/-- `while (current->p_cptr != NULL)`, for at most `m` children. -/
def disownAll : ℕ → Table → Option Table
  | 0, _ => none
  | m + 1, t =>
    match (t.tasks t.current).pCptr with
    | none => some t
    | some p => ((t.disown p).announce n p).bind (disownAll m)

/-- Case i of `exit_notify`. -/
def notifyGroup (t : Table) : Option Table := do
  let e := t.tasks t.current
  let parent := t.tasks e.pPptr
  let orphaned ← t.willBecomeOrphanedPgrp n e.pgrp (some t.current)
  let stopped ← t.hasStoppedJobs n e.pgrp
  some (if parent.pgrp ≠ e.pgrp ∧ parent.session = e.session ∧ orphaned ∧ stopped
    then t.killPgrp e.pgrp else t)

/-- From the check of the exec ids to `do_notify_parent`. -/
def becomeZombie (t : Table) : Table :=
  let cur := t.current
  let e := t.tasks cur
  let t := if e.exitSignal ≠ SIGCHLD ∧ (e.parentExecId ≠ (t.tasks e.pPptr).selfExecId ∨
      e.selfExecId ≠ e.parentExecId) ∧ !e.capKill
    then t.mod cur fun e => { e with exitSignal := SIGCHLD } else t
  let t := t.mod cur fun e => { e with state := .zombie }
  t.send (.notifyParent cur (t.tasks cur).exitSignal)

def exitNotify (t : Table) : Option Table := do
  let t ← t.forgetOriginalParent n t.current
  let t ← t.notifyGroup n
  t.becomeZombie.disownAll n n

/-- `do_exit` up to `PF_EXITING`; it panics for the idle task and for init. -/
def startExit (t : Table) : Option Table :=
  if (t.tasks t.current).pid = 0 ∨ (t.tasks t.current).pid = 1 then none
  else some (t.mod t.current fun e => { e with exiting := true })

/-- `do_exit` from `tsk->exit_code = code`. -/
def finishExit (code : ℤ) (t : Table) : Option Table :=
  (t.mod t.current fun e => { e with exitCode := code }).exitNotify n

/-- `release_task`; it stops at `BUG()`. -/
def releaseTask (p : TaskId) (t : Table) : Option Table :=
  if p = t.current then none
  else some ((unhashProcess p t).mod p fun e => { e with pid := 0 })

/-! `sys_wait4`. The bits of its options: -/

abbrev WNOHANG : ℕ := 1
abbrev WUNTRACED : ℕ := 2
abbrev WNOTHREAD : ℕ := 0x20000000
abbrev WALL : ℕ := 0x40000000
abbrev WCLONE : ℕ := 0x80000000

/-- The tests of the loop on a child, up to `flag = 1`. -/
def waitsFor (pid : ℤ) (options : ℕ) (cur e : Entry) : Bool :=
  (if pid > 0 then e.pid = pid else if pid = 0 then e.pgrp = cur.pgrp
    else if pid ≠ -1 then e.pgrp = -pid else true) &&
  !((decide (e.exitSignal ≠ SIGCHLD) ^^ decide (options &&& WCLONE ≠ 0)) &&
    options &&& WALL = 0)

/-- A child to report: a stopped one not yet reported, or a zombie. -/
def reports (options : ℕ) (e : Entry) : Bool :=
  (e.state = .stopped && e.exitCode ≠ 0 && (options &&& WUNTRACED ≠ 0 || e.ptraced)) ||
    e.state = .zombie

/-- The children that the two loops come by, in order. -/
def waitScope (options : ℕ) (t : Table) : Option (List TaskId) := do
  let threads ← if options &&& WNOTHREAD ≠ 0 then some [] else t.otherThreads n t.current
  let kids ← (t.current :: threads).mapM (t.children n)
  some kids.flatten

/-- The first child to report, and `flag`. -/
def waitScan (pid : ℤ) (options : ℕ) (t : Table) : Option (Option TaskId × Bool) :=
  (t.waitScope n options).map fun ps =>
    let mine := ps.filter fun p => waitsFor pid options (t.tasks t.current) (t.tasks p)
    (mine.find? fun p => reports options (t.tasks p), !mine.isEmpty)

/-- Reporting a child; `fault` is what `getrusage` or `put_user` returns. -/
def waitReport (p : TaskId) (fault : ℤ) (t : Table) : Option (ℤ × Table) :=
  if fault ≠ 0 then some (fault, t)
  else
    let retval := (t.tasks p).pid
    if (t.tasks p).state = .stopped then
      some (retval, t.mod p fun e => { e with exitCode := 0 })
    else if (t.tasks p).pOpptr ≠ (t.tasks p).pPptr then
      some (retval, (reparent p (t.tasks p).pOpptr t).send (.notifyParent p SIGCHLD))
    else (t.releaseTask p).map fun t => (retval, t)

def setState (s : TaskState) (t : Table) : Table :=
  t.mod t.current fun e => { e with state := s }

/-- One turn of the loop of `sys_wait4`, from `repeat`; no return value where it goes to
sleep in `schedule()`. -/
def sysWait4 (pid : ℤ) (options : ℕ) (fault : ℤ) (t : Table) : Option (Option ℤ × Table) :=
  if options &&& 0x1ffffffc ≠ 0 then some (some (-EINVAL), t)
  else do
    let t := t.setState .interruptible
    let (found, flag) ← t.waitScan n pid options
    match found with
    | some p => (t.waitReport p fault).map fun r => (some r.1, r.2.setState .running)
    | none =>
      if flag = false then some (some (-ECHILD), t.setState .running)
      else if options &&& WNOHANG ≠ 0 then some (some 0, t.setState .running)
      else if (t.tasks t.current).sigpending then some (some (-ERESTARTSYS), t.setState .running)
      else some (none, t)

def reparentToInit (t : Table) : Table :=
  let cur := t.current
  let t := removeLinks cur t
  let t := t.mod cur fun e => { e with pPptr := t.childReaper }
  let t := t.mod cur fun e => { e with pOpptr := t.childReaper }
  let t := setLinks cur t
  t.mod cur fun e => { e with exitSignal := SIGCHLD, ptraced := false, capKill := true }

def daemonize (t : Table) : Table :=
  t.mod t.current fun e => { e with session := 1, pgrp := 1 }

end Table
end ShortSched
