import ShortSched.Fork
import ShortSched.Setscheduler

/-! `do_fork` with the points at which it can fail and the ladder of labels that undoes what it
took, down to `exit_mm` and the completion that a vfork parent waits for. -/
namespace ShortSched

abbrev EAGAIN : ℤ := 11
abbrev ENOMEM : ℤ := 12

/-- The structures that a child shares with its parent or gets one of its own of. -/
inductive Shared where
  | files | fs | sig | mm
  deriving DecidableEq, Repr

/-- The fields of task_struct that `do_fork` reads and sets beside those of scheduling.
A completion is named after the task on whose kernel stack it lies. -/
structure Process where
  user : ℕ
  rlimNproc : ℕ
  capSysAdmin : Bool
  capSysResource : Bool
  vforkDone : Option TaskId
  shared : Shared → Option ℕ
  activeMm : Option ℕ
  execDomain : ℕ
  binfmtModule : Option ℕ

structure UserStruct where
  count : ℤ
  processes : ℤ
  deriving DecidableEq

/-- `struct completion`; its waiters are exclusive. -/
structure Completion where
  done : ℕ
  wait : List TaskId
  deriving DecidableEq

/-- The kernel with what a fork acquires. `count` is the reference count of a structure,
`mm_users` for an `mm`; `world` is what only the code outside knows. -/
structure Machine (ω : Type) where
  kernel : Kernel
  proc : TaskId → Process
  users : ℕ → UserStruct
  count : Shared → ℕ → ℤ
  mmCount : ℕ → ℤ
  completion : TaskId → Completion
  nrThreads : ℤ
  maxThreads : ℤ
  world : ω

structure CloneFlags where
  newns : Bool
  fs : Bool
  pid : Bool
  vfork : Bool
  files : Bool
  sighand : Bool
  vm : Bool
  parent : Bool

/-- What the allocators hand out: a task_struct, the number that `get_pid` finds, 0 when none
is free, and new structures. -/
structure Supply where
  task : Option TaskId
  pid : ℕ
  new : Shared → Option ℕ

/-- Code that is not part of this source. -/
structure Outside (ω : Type) where
  freeUid : UserStruct → UserStruct
  exitSighand : Option ℕ → (ℕ → ℤ) → ℕ → ℤ
  getExecDomain : ℕ → ω → ω
  putExecDomain : ℕ → ω → ω
  incUseCount : ℕ → ω → ω
  decUseCount : ℕ → ω → ω
  copyNamespace : CloneFlags → TaskId → ω → Bool × ω
  exitNamespace : TaskId → ω → ω
  copyThread : CloneFlags → TaskId → ω → ℤ × ω

/-- `free_uid` drops one reference; it frees the structure with the last one. -/
def Outside.DropsReference {ω : Type} (x : Outside ω) : Prop :=
  ∀ u, 2 ≤ u.count → x.freeUid u = { u with count := u.count - 1 }

section
variable {ω : Type}

def Machine.current (s : Machine ω) : TaskId := s.kernel.current

def Machine.modKernel (f : Kernel → Kernel) (s : Machine ω) : Machine ω :=
  { s with kernel := f s.kernel }

def Machine.modProc (p : TaskId) (f : Process → Process) (s : Machine ω) : Machine ω :=
  { s with proc := Function.update s.proc p (f (s.proc p)) }

def Machine.modUser (u : ℕ) (f : UserStruct → UserStruct) (s : Machine ω) : Machine ω :=
  { s with users := Function.update s.users u (f (s.users u)) }

def Machine.modCount (r : Shared) (i : ℕ) (f : ℤ → ℤ) (s : Machine ω) : Machine ω :=
  { s with count := Function.update s.count r (Function.update (s.count r) i (f (s.count r i))) }

def Machine.modMmCount (i : ℕ) (f : ℤ → ℤ) (s : Machine ω) : Machine ω :=
  { s with mmCount := Function.update s.mmCount i (f (s.mmCount i)) }

def Machine.modWorld (f : ω → ω) (s : Machine ω) : Machine ω := { s with world := f s.world }

def Process.withShared (r : Shared) (i : Option ℕ) (t : Process) : Process :=
  { t with shared := Function.update t.shared r i }

/-! Completions. -/

/-- `__wake_up_common` for one exclusive waiter: the scan goes on while `try_to_wake_up` finds
the task on an array. -/
def wakeUpCommon (HZ : ℕ) : List TaskId → Kernel → Option Kernel
  | [], k => some k
  | p :: ps, k =>
    if (k.tasks p).state = .interruptible ∨ (k.tasks p).state = .uninterruptible then
      (tryToWakeUp HZ p k).bind fun m =>
        if (k.tasks p).array = none then some m else wakeUpCommon HZ ps m
    else wakeUpCommon HZ ps k

def complete (HZ : ℕ) (c : TaskId) (s : Machine ω) : Option (Machine ω) :=
  (wakeUpCommon HZ (s.completion c).wait s.kernel).map fun k =>
    { s with
      kernel := k
      completion := Function.update s.completion c
        { s.completion c with done := (s.completion c).done + 1 } }

/-- `wait_for_completion` up to the call of `schedule`, or to its end when nothing is left to
wait for. -/
def waitForCompletion (c : TaskId) (s : Machine ω) : Option (Machine ω) :=
  let x := s.completion c
  if x.done = 0 then
    let s := { s with
      completion := Function.update s.completion c { x with wait := x.wait ++ [s.current] } }
    let k := s.kernel.mod s.current fun t => { t with state := .uninterruptible }
    (schedule (recordSwitch .shortOver k)).map fun k => { s with kernel := k }
  else some { s with
    completion := Function.update s.completion c { x with done := x.done - 1 } }

/-! The structures of a process. -/

/-- The child shares a structure of the running task, or gets a new one; `false` when there is
none to be had. A task without the structure has nothing to copy. -/
def copyShared (r : Shared) (share : Bool) (new : Option ℕ) (p : TaskId) (s : Machine ω) :
    Bool × Machine ω :=
  match (s.proc s.current).shared r with
  | none => (true, s)
  | some i =>
    if share then (true, s.modCount r i (· + 1))
    else match new with
      | none => (false, s.modProc p (·.withShared r none))
      | some n => (true, (s.modProc p (·.withShared r (some n))).modCount r n fun _ => 1)

def copyFiles (flags : CloneFlags) (new : Option ℕ) (p : TaskId) (s : Machine ω) :
    Bool × Machine ω := copyShared .files flags.files new p s

/-- The same for a structure that every task should have: the pointer of the running task is
followed without a test, to share or after the allocation. -/
def copyPresent (r : Shared) (share : Bool) (new : Option ℕ) (p : TaskId) (s : Machine ω) :
    Option (Bool × Machine ω) :=
  if share then
    ((s.proc s.current).shared r).map fun i => (true, s.modCount r i (· + 1))
  else match new with
    | none => some (false, s.modProc p (·.withShared r none))
    | some n => ((s.proc s.current).shared r).map fun _ =>
        (true, (s.modProc p (·.withShared r (some n))).modCount r n fun _ => 1)

def copyFs (flags : CloneFlags) (new : Option ℕ) (p : TaskId) (s : Machine ω) :
    Option (Bool × Machine ω) := copyPresent .fs flags.fs new p s

def copySighand (flags : CloneFlags) (new : Option ℕ) (p : TaskId) (s : Machine ω) :
    Option (Bool × Machine ω) := copyPresent .sig flags.sighand new p s

/-- `copy_mm`; a kernel thread has no `mm`. A new one is counted by its user and by itself. -/
def copyMm (flags : CloneFlags) (new : Option ℕ) (p : TaskId) (s : Machine ω) :
    Bool × Machine ω :=
  let oldmm := (s.proc s.current).shared .mm
  let s := s.modProc p fun t => { t.withShared .mm none with activeMm := none }
  let setMm (m : ℕ) (s : Machine ω) : Machine ω :=
    s.modProc p fun t => { t.withShared .mm (some m) with activeMm := some m }
  match oldmm with
  | none => (true, s)
  | some m =>
    if flags.vm then (true, setMm m (s.modCount .mm m (· + 1)))
    else match new with
      | none => (false, s)
      | some n => (true, setMm n ((s.modCount .mm n fun _ => 1).modMmCount n fun _ => 1))

/-- The task gives up a structure; with the last reference the structure is freed. -/
def exitShared (r : Shared) (p : TaskId) (s : Machine ω) : Machine ω :=
  match (s.proc p).shared r with
  | none => s
  | some i => (s.modProc p (·.withShared r none)).modCount r i (· - 1)

def exitFiles (p : TaskId) (s : Machine ω) : Machine ω := exitShared .files p s

def exitFs (p : TaskId) (s : Machine ω) : Machine ω := exitShared .fs p s

/-- `mm_release` is about the running task, whatever task `exit_mm` was called for. -/
def mmRelease (HZ : ℕ) (s : Machine ω) : Option (Machine ω) :=
  match (s.proc s.current).vforkDone with
  | none => some s
  | some c => complete HZ c (s.modProc s.current fun t => { t with vforkDone := none })

/-- `mmput`; `exit_mmap` is left out, `mmdrop` is the second count. -/
def mmput (m : ℕ) (s : Machine ω) : Machine ω :=
  let s := s.modCount .mm m (· - 1)
  if s.count .mm m = 0 then s.modMmCount m (· - 1) else s

/-- `exit_mm`; it stops at `BUG_ON` when the task runs on another `mm`. -/
def exitMm (HZ : ℕ) (p : TaskId) (s : Machine ω) : Option (Machine ω) := do
  let mm := (s.proc p).shared .mm
  let s ← mmRelease HZ s
  match mm with
  | none => return s
  | some m =>
    let s := s.modMmCount m (· + 1)
    if (s.proc p).activeMm ≠ some m then none
    else return mmput m (s.modProc p (·.withShared .mm none))

/-! The ladder, from the bottom. `free_task_struct` leaves nothing to model. -/

section
variable (x : Outside ω)

def badForkCleanupCount (p : TaskId) (s : Machine ω) : Machine ω :=
  s.modUser (s.proc p).user fun u => x.freeUid { u with processes := u.processes - 1 }

def badForkCleanup (p : TaskId) (s : Machine ω) : Machine ω :=
  let s := s.modWorld (x.putExecDomain (s.proc p).execDomain)
  let s := match (s.proc p).binfmtModule with
    | none => s
    | some m => s.modWorld (x.decUseCount m)
  badForkCleanupCount x p s

def badForkCleanupFiles (p : TaskId) (s : Machine ω) : Machine ω :=
  badForkCleanup x p (exitFiles p s)

def badForkCleanupFs (p : TaskId) (s : Machine ω) : Machine ω :=
  badForkCleanupFiles x p (exitFs p s)

def badForkCleanupSighand (p : TaskId) (s : Machine ω) : Machine ω :=
  let sigCount := x.exitSighand ((s.proc p).shared .sig) (s.count .sig)
  badForkCleanupFs x p { s with count := Function.update s.count .sig sigCount }

def badForkCleanupMm (HZ : ℕ) (p : TaskId) (s : Machine ω) : Option (Machine ω) :=
  (exitMm HZ p s).map (badForkCleanupSighand x p)

def badForkCleanupNamespace (HZ : ℕ) (p : TaskId) (s : Machine ω) : Option (Machine ω) :=
  badForkCleanupMm x HZ p (s.modWorld (x.exitNamespace p))

/-! The calls, from the top. -/

/-- `*p = *current`. -/
def dupTask (p : TaskId) (s : Machine ω) : Machine ω :=
  (s.modKernel fun k => k.mod p fun _ => k.tasks k.current).modProc p fun _ => s.proc s.current

/-- The process limit, from which the superuser is exempt. -/
def overLimit (p : TaskId) (s : Machine ω) : Prop :=
  (s.proc p).rlimNproc ≤ (s.users (s.proc p).user).processes ∧
    (s.proc s.current).capSysAdmin = false ∧ (s.proc s.current).capSysResource = false

instance (p : TaskId) (s : Machine ω) : Decidable (overLimit p s) :=
  inferInstanceAs (Decidable (_ ∧ _ ∧ _))

/-- The two `atomic_inc` of the user. -/
def chargeUser (p : TaskId) (s : Machine ω) : Machine ω :=
  s.modUser (s.proc p).user fun u => { count := u.count + 1, processes := u.processes + 1 }

/-- `get_exec_domain` and the module of the binary format. -/
def getFormat (p : TaskId) (s : Machine ω) : Machine ω :=
  let s := s.modWorld (x.getExecDomain (s.proc p).execDomain)
  match (s.proc p).binfmtModule with
  | none => s
  | some m => s.modWorld (x.incUseCount m)

/-- `get_pid`, given the number that its search finds. -/
def getPid (flags : CloneFlags) (found : ℕ) (s : Machine ω) : ℤ :=
  if flags.pid then (s.kernel.tasks s.current).pid else found

/-- The assignments from `INIT_LIST_HEAD(&p->run_list)` to the first copy. -/
def initChild (flags : CloneFlags) (p : TaskId) (s : Machine ω) : Machine ω :=
  let s := s.modKernel fun k => k.mod p fun t =>
    { t with runList := none, sigpending := false, array := none }
  if flags.vfork then
    { s.modProc p fun t => { t with vforkDone := some s.current } with
      completion := Function.update s.completion s.current ⟨0, []⟩ }
  else s.modProc p fun t => { t with vforkDone := none }

/-- The copies, in order; each failure goes to its label. -/
def copyProcess (HZ : ℕ) (flags : CloneFlags) (new : Shared → Option ℕ) (p : TaskId)
    (s : Machine ω) : Option (ℤ × Machine ω) :=
  let (ok, s) := copyFiles flags (new .files) p s
  if ok = false then some (-ENOMEM, badForkCleanup x p s) else
  (copyFs flags (new .fs) p s).bind fun (ok, s) =>
  if ok = false then some (-ENOMEM, badForkCleanupFiles x p s) else
  (copySighand flags (new .sig) p s).bind fun (ok, s) =>
  if ok = false then some (-ENOMEM, badForkCleanupFs x p s) else
  let (ok, s) := copyMm flags (new .mm) p s
  if ok = false then some (-ENOMEM, badForkCleanupSighand x p s) else
  let (ok, world) := x.copyNamespace flags p s.world
  let s := { s with world }
  if ok = false then (badForkCleanupMm x HZ p s).map fun s => (-ENOMEM, s) else
  let (retval, world) := x.copyThread flags p s.world
  let s := { s with world }
  if retval ≠ 0 then (badForkCleanupNamespace x HZ p s).map fun s => (retval, s)
  else some (0, s)

/-- `do_fork` from the charge of the user on. From the split of the slice on it cannot fail, and
the kernel is that of `ShortSched.doFork`, which starts with the same assignments to the child. -/
def startChild (HZ : ℕ) (flags : CloneFlags) (supply : Supply) (p : TaskId) (s : Machine ω) :
    Option (ℤ × Machine ω) :=
  let s := chargeUser p s
  if s.nrThreads ≥ s.maxThreads then some (-EAGAIN, badForkCleanupCount x p s) else
  let pid := getPid flags supply.pid s
  let s := (getFormat x p s).modKernel fun k => k.mod p fun t =>
    { t with state := .uninterruptible, pid }
  if pid = 0 ∧ (s.kernel.tasks s.current).pid ≠ 0 then some (-EAGAIN, badForkCleanup x p s)
  else (copyProcess x HZ flags supply.new p (initChild flags p s)).bind fun (retval, s) =>
    if retval ≠ 0 then some (retval, s)
    else (ShortSched.doFork HZ p pid flags.vfork flags.parent s.kernel).map fun k =>
      (pid, { s with kernel := k, nrThreads := s.nrThreads + 1 })

/-- `do_fork`. -/
def Machine.doFork (HZ : ℕ) (flags : CloneFlags) (supply : Supply) (s : Machine ω) :
    Option (ℤ × Machine ω) :=
  if flags.newns ∧ flags.fs then some (-EINVAL, s)
  else if flags.pid ∧ (s.kernel.tasks s.current).pid ≠ 0 then some (-EPERM, s)
  else match supply.task with
  | none => some (-ENOMEM, s)
  | some p =>
    let s := dupTask p s
    if overLimit p s then some (-EAGAIN, s) else startChild x HZ flags supply p s

end
end
end ShortSched
