import ShortSched.Lib.Locks
import ShortSched.Types

/-! The code that locks runqueues on a machine with several CPUs, statement by statement between
accesses to what CPUs share: `task_rq_lock` and its callers, `schedule` and `load_balance` with
`double_lock_balance`, the migration threads with `double_rq_lock`, and `do_fork` from its copy
of the parent to `wake_up_forked_process`. -/
namespace ShortSched
open Locks

/-- Why `task_rq_lock` is called. `kick` is the `wake_up_process(rq->migration_thread)` of
`set_cpus_allowed`, and `other` stands for `wait_task_inactive`, `set_user_nice`, and the calls of
`setscheduler` that put the task back where it was. Those that make a task SHORT, or leave it
SHORT, move it otherwise and are left out. -/
inductive Errand (n : ℕ) where
  | wakeUp (sync : Bool)
  | kick (p : TaskId)
  | setAllowed (mask : Fin n → Bool)
  | other

/-- A `migration_req_t`, with the caller whose semaphore it has. -/
structure MigrationReq (A : Type) where
  task : TaskId
  caller : A

/-- Where the code goes on after `task_rq_unlock`. -/
inductive Onward (n : ℕ) where
  | out
  | again (p : TaskId) (e : Errand n)
  | down (p : TaskId)

/-- Where a control path stands. `rq` is the runqueue that it has looked up. -/
inductive Place (n : ℕ) (A : Type) where
  | out
  -- task_rq_lock
  | repeatLockTask (p : TaskId) (e : Errand n)
  | lockTask (p : TaskId) (e : Errand n) (rq : Fin n)
  | recheck (p : TaskId) (e : Errand n) (rq : Fin n)
  | holding (p : TaskId) (e : Errand n) (rq : Fin n)
  -- set_cpus_allowed, after the new mask
  | masked (p : TaskId) (mask : Fin n → Bool) (rq : Fin n)
  | unlockTask (rq : Fin n) (k : Onward n)
  | down (p : TaskId)
  -- this_rq_lock, load_balance
  | lockThis
  | holdThis
  | unlockThis
  | tryBusiest (b : Fin n)
  | dropThis (b : Fin n)
  | lockBusiest (b : Fin n)
  | relockThis (b : Fin n)
  | waitBusiest (b : Fin n)
  | pulling (b : Fin n)
  | pulled (b : Fin n) (p : TaskId)
  | carried (b : Fin n) (p : TaskId)
  | unlockBusiest (b : Fin n)
  -- migration_thread
  | lockOwn
  | ownQueue
  | unlockOwn (o : Option (MigrationReq A))
  | readDest (r : MigrationReq A)
  | readSrc (r : MigrationReq A) (dest : Fin n)
  | lockFirst (r : MigrationReq A) (src dest : Fin n)
  | lockSecond (r : MigrationReq A) (src dest : Fin n)
  | checkSrc (r : MigrationReq A) (src dest : Fin n)
  | moveCpu (r : MigrationReq A) (src dest : Fin n)
  | dequeue (r : MigrationReq A) (src dest : Fin n)
  | enqueue (r : MigrationReq A) (src dest : Fin n)
  | unlockSrc (r : MigrationReq A) (src dest : Fin n) (again : Bool)
  | unlockDest (r : MigrationReq A) (dest : Fin n) (again : Bool)
  | up (r : MigrationReq A)
  -- wake_up_forked_process
  | lockForked (p : TaskId)
  | forkLocked (p : TaskId)
  | forkPlaced (p : TaskId)

/-- How far `do_fork` has come with a task: its copy is made, `wake_up_forked_process` is called,
or the task has been woken up for the first time. -/
inductive Birth where
  | copied
  | waking
  | woken
  deriving DecidableEq

/-- The machine: on which CPU each control path runs, the tasks that each CPU has of its own, and
the path that the migration thread of a CPU goes. -/
structure Cpus (n : ℕ) (A : Type) where
  home : A → Fin n
  migrationThread : Fin n → TaskId
  idle : Fin n → TaskId
  thread : Fin n → A
  home_thread : ∀ c, home (thread c) = c
  thread_inj : Function.Injective migrationThread
  idle_inj : Function.Injective idle
  idle_ne : ∀ c d, idle c ≠ migrationThread d

/-- What the CPUs share. `array p` is the runqueue on whose lists `p` is, to which `p->array`
belongs; only `load_balance` leaves `p->array` set while it has the task off the lists. -/
structure SmpState (n : ℕ) (A : Type) where
  locked : Fin n → Bool
  cpu : TaskId → Fin n
  allowed : TaskId → Fin n → Bool
  array : TaskId → Option (Fin n)
  state : TaskId → TaskState
  birth : TaskId → Birth
  curr : Fin n → TaskId
  migrationQueue : Fin n → List (MigrationReq A)
  sem : A → ℕ
  place : A → Place n A

/-- `__ffs`. -/
def ffs {n : ℕ} (mask : Fin n → Bool) : Option (Fin n) := (List.finRange n).find? mask

variable {n : ℕ} {A : Type}

def Onward.place : Onward n → Place n A
  | .out => .out
  | .again p e => .repeatLockTask p e
  | .down p => .down p

/-- After `double_rq_unlock`, with or without `goto repeat`. -/
def Place.finished (r : MigrationReq A) (dest : Fin n) (again : Bool) : Place n A :=
  if again then .readSrc r dest else .up r

namespace Place

def isOut : Place n A → Bool
  | out => true
  | _ => false

/-- The lock that is taken next, and where the code stands then. `me` is `smp_processor_id()`. -/
def wants (me : Fin n) : Place n A → Option (Fin n × Place n A)
  | lockTask p e rq => some (rq, recheck p e rq)
  | lockThis => some (me, holdThis)
  | lockBusiest b => some (b, relockThis b)
  | relockThis b => some (me, pulling b)
  | waitBusiest b => some (b, pulling b)
  | lockOwn => some (me, ownQueue)
  | lockFirst r src dest =>
    some (min src dest, if src = dest then checkSrc r src dest else lockSecond r src dest)
  | lockSecond r src dest => some (max src dest, checkSrc r src dest)
  | lockForked p => some (me, forkLocked p)
  | _ => none

/-- The lock that is let go next, and where the code stands then. -/
def drops (me : Fin n) : Place n A → Option (Fin n × Place n A)
  | unlockTask rq k => some (rq, k.place)
  | unlockThis => some (me, out)
  | dropThis b => some (me, lockBusiest b)
  | unlockBusiest b => some (b, holdThis)
  | unlockOwn o => some (me, match o with | none => out | some r => readDest r)
  | unlockSrc r src dest again =>
    some (src, if src = dest then finished r dest again else unlockDest r dest again)
  | unlockDest r dest again => some (dest, finished r dest again)
  | _ => none

end Place

/-- What the code leaves open: which calls come, which task_struct `do_fork` gets and when it has
come to `wake_up_forked_process`, whom `schedule` picks, what `load_balance` finds worth pulling.
`run` goes on where nothing is open. -/
inductive PathChoice (n : ℕ) where
  | call (p : TaskId) (e : Errand n)
  | fork (p : TaskId)
  | wakeForked (p : TaskId)
  | enter
  | thread
  | sleep
  | deactivate
  | switch (q : TaskId)
  | balance (b : Fin n)
  | leave
  | pull (p : TaskId)
  | stop
  | run

namespace SmpState
variable [DecidableEq A]

def goto (a : A) (q : Place n A) (s : SmpState n A) : SmpState n A :=
  { s with place := Function.update s.place a q }

def setCpu (p : TaskId) (c : Fin n) (s : SmpState n A) : SmpState n A :=
  { s with cpu := Function.update s.cpu p c }

def setArray (p : TaskId) (o : Option (Fin n)) (s : SmpState n A) : SmpState n A :=
  { s with array := Function.update s.array p o }

def setState (p : TaskId) (t : TaskState) (s : SmpState n A) : SmpState n A :=
  { s with state := Function.update s.state p t }

def setBirth (p : TaskId) (b : Birth) (s : SmpState n A) : SmpState n A :=
  { s with birth := Function.update s.birth p b }

variable (m : Cpus n A)

/-- `*p = *current` on CPU `me`, with the assignments to the child before it is seen. -/
def copyCurrent (p : TaskId) (me : Fin n) (s : SmpState n A) : SmpState n A :=
  { (((s.setCpu p (s.cpu (s.curr me))).setArray p none).setState p .uninterruptible).setBirth p
      .copied with allowed := Function.update s.allowed p (s.allowed (s.curr me)) }

/-- `try_to_wake_up` behind `task_rq_lock`, on CPU `me`; `k` is where it returns to. -/
def wakeUp (a : A) (p : TaskId) (e : Errand n) (rq me : Fin n) (sync : Bool) (k : Onward n)
    (s : SmpState n A) : SmpState n A :=
  if s.array p = none then
    if sync ∧ s.curr rq ≠ p ∧ s.cpu p ≠ me ∧ s.allowed p me then
      (s.setCpu p me).goto a (.unlockTask rq (.again p e))
    else ((s.setArray p (some rq)).setState p .running).goto a (.unlockTask rq k)
  else (s.setState p .running).goto a (.unlockTask rq k)

/-- `set_cpus_allowed` behind the new mask. -/
def applyMask (a : A) (p : TaskId) (mask : Fin n → Bool) (rq : Fin n) (s : SmpState n A) :
    Option (SmpState n A) :=
  if mask (s.cpu p) then some (s.goto a (.unlockTask rq .out))
  else if s.array p = none ∧ p ≠ s.curr rq then
    (ffs (s.allowed p)).map fun c => (s.setCpu p c).goto a (.unlockTask rq .out)
  else
    some ({ s with
      sem := Function.update s.sem a 0
      migrationQueue :=
        Function.update s.migrationQueue rq (⟨p, a⟩ :: s.migrationQueue rq) }.goto a
      (.unlockTask rq (.again (m.migrationThread rq) (.kick p))))

/-- One statement of the path `a`, where it takes or lets go no lock. `schedule` is only called by
the task that runs, so not while the migration thread of the CPU is in its loop. A fork can sleep
between its copy and `wake_up_forked_process`, and go on on another CPU; a SHORT parent, which is
put at the end of its queue there, stays on it. -/
def act (a : A) (ch : PathChoice n) (s : SmpState n A) : Option (SmpState n A) :=
  let me := m.home a
  match s.place a, ch with
  | .out, .call p e => some (s.goto a (.repeatLockTask p e))
  | .out, .fork p => some (s.copyCurrent p me)
  | .out, .wakeForked p =>
    if s.birth p = .copied then some ((s.setBirth p .waking).goto a (.lockForked p)) else none
  | .out, .enter => some (s.goto a .lockThis)
  | .out, .thread =>
    if a = m.thread me ∧ s.curr me = m.migrationThread me then some (s.goto a .lockOwn) else none
  | .out, .sleep =>
    if s.curr me ≠ m.migrationThread me then some (s.setState (s.curr me) .interruptible)
    else none
  | .repeatLockTask p e, .run => some (s.goto a (.lockTask p e (s.cpu p)))
  | .recheck p e rq, .run =>
    if rq ≠ s.cpu p then some (s.goto a (.unlockTask rq (.again p e)))
    else some (s.goto a (.holding p e rq))
  | .holding p e rq, .run =>
    match e with
    | .wakeUp sync => some (s.wakeUp a p e rq me sync .out)
    | .kick q => some (s.wakeUp a p e rq me false (.down q))
    | .setAllowed mask =>
      some ({ s with allowed := Function.update s.allowed p mask }.goto a (.masked p mask rq))
    | .other => some (s.goto a (.unlockTask rq .out))
  | .masked p mask rq, .run => s.applyMask m a p mask rq
  | .down _, .run =>
    if s.sem a = 0 then none
    else some ({ s with sem := Function.update s.sem a (s.sem a - 1) }.goto a .out)
  | .holdThis, .deactivate =>
    if s.state (s.curr me) = .running then none else some (s.setArray (s.curr me) none)
  | .holdThis, .switch q =>
    if (q = m.idle me ∨ s.array q = some me) ∧ (s.place (m.thread me)).isOut then
      some { s with curr := Function.update s.curr me q }
    else none
  | .holdThis, .balance b => if b = me then none else some (s.goto a (.tryBusiest b))
  | .holdThis, .leave => some (s.goto a .unlockThis)
  | .pulling b, .pull p =>
    if s.array p = some b ∧ p ≠ s.curr b ∧ s.allowed p me then
      some ((s.setArray p none).goto a (.pulled b p))
    else none
  | .pulling b, .stop => some (s.goto a (.unlockBusiest b))
  | .pulled b p, .run => some ((s.setCpu p me).goto a (.carried b p))
  | .carried b p, .run => some ((s.setArray p (some me)).goto a (.pulling b))
  | .ownQueue, .run =>
    let s := s.setState (m.migrationThread me) .interruptible
    match s.migrationQueue me with
    | [] => some (s.goto a (.unlockOwn none))
    | r :: rs =>
      some ({ s with migrationQueue := Function.update s.migrationQueue me rs }.goto a
        (.unlockOwn (some r)))
  | .readDest r, .run => (ffs (s.allowed r.task)).map fun c => s.goto a (.readSrc r c)
  | .readSrc r dest, .run => some (s.goto a (.lockFirst r (s.cpu r.task) dest))
  | .checkSrc r src dest, .run =>
    if s.cpu r.task ≠ src then some (s.goto a (.unlockSrc r src dest true))
    else some (s.goto a (.moveCpu r src dest))
  | .moveCpu r src dest, .run =>
    if src = me then some ((s.setCpu r.task dest).goto a (.dequeue r src dest))
    else some (s.goto a (.unlockSrc r src dest false))
  | .dequeue r src dest, .run =>
    if s.array r.task = none then some (s.goto a (.unlockSrc r src dest false))
    else some ((s.setArray r.task none).goto a (.enqueue r src dest))
  | .enqueue r src dest, .run =>
    some ((s.setArray r.task (some dest)).goto a (.unlockSrc r src dest false))
  | .up r, .run =>
    some ({ s with sem := Function.update s.sem r.caller (s.sem r.caller + 1) }.goto a .lockOwn)
  | .forkLocked p, .run =>
    some (((s.setState p .running).setCpu p me).goto a (.forkPlaced p))
  | .forkPlaced p, .run =>
    some (((s.setArray p (some me)).setBirth p .woken).goto a .unlockThis)
  | _, _ => none

/-- One statement of the path `a`; it does not come where a lock is waited for. -/
def step (a : A) (ch : PathChoice n) (s : SmpState n A) : Option (SmpState n A) :=
  match (s.place a).wants (m.home a) with
  | some (l, q) =>
    if s.locked l then none
    else some ({ s with locked := Function.update s.locked l true }.goto a q)
  | none =>
    match (s.place a).drops (m.home a) with
    | some (l, q) => some ({ s with locked := Function.update s.locked l false }.goto a q)
    | none =>
      match s.place a with
      | .tryBusiest b =>
        -- spin_trylock
        if s.locked b then
          some (s.goto a (if b < m.home a then .dropThis b else .waitBusiest b))
        else some ({ s with locked := Function.update s.locked b true }.goto a (.pulling b))
      | _ => s.act m a ch

end SmpState
end ShortSched
