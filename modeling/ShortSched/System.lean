import ShortSched.Lib.PartialRun
import ShortSched.Refine

/-! The scheduler of one CPU as a machine: its operations, when the rest of the kernel may
call them, and what one of them does to every task. -/
namespace ShortSched
open Relation PartialRun

/-- The calls into the scheduler, and the assignments that the rest of the kernel makes to
what the scheduler reads. -/
inductive Op where
  | advance (n : ℕ)
  | setSigpending (p : TaskId) (b : Bool)
  | setCredentials (p : TaskId) (uid euid : ℕ) (capSysNice : Bool)
  | setCurrentState (s : TaskState)
  | schedule (reason : Option SwitchReason)
  | schedulerTick
  | tryToWakeUp (p : TaskId)
  | wakeUpForkedProcess (p : TaskId)
  | doFork (child : TaskId) (pid : ℤ) (vfork cloneParent : Bool)
  | setUserNice (p : TaskId) (nice : ℤ)
  | sysNice (increment : ℤ)
  | sysSchedYield
  | sysSchedSetscheduler (pid policy : ℤ) (param : Option UserParam)
  | sysSchedSetparam (pid : ℤ) (param : Option UserParam)
  | exitNotify (reaper childReaper : TaskId)
  | releaseTask (p : TaskId)
  | initIdle

def Op.child : Op → Option TaskId
  | .doFork child _ _ _ => some child
  | _ => none

def Op.released : Op → Option TaskId
  | .releaseTask p => some p
  | _ => none

def Op.ticks : Op → Bool
  | .schedulerTick => true
  | _ => false

def Op.yields : Op → Bool
  | .sysSchedYield => true
  | _ => false

/-- One operation; `none` when it corrupts a list, follows NULL or stops at `BUG()`. -/
def exec (HZ : ℕ) : Op → Kernel → Option Kernel
  | .advance n, k => some { k with jiffies := u32 (k.jiffies + n) }
  | .setSigpending p b, k => some (k.mod p fun t => { t with sigpending := b })
  | .setCredentials p uid euid capSysNice, k =>
      some (k.mod p fun t => { t with uid, euid, capSysNice })
  | .setCurrentState s, k => some (k.mod k.current fun t => { t with state := s })
  | .schedule none, k => ShortSched.schedule k
  | .schedule (some reason), k => ShortSched.schedule (recordSwitch reason k)
  | .schedulerTick, k => ShortSched.schedulerTick HZ k
  | .tryToWakeUp p, k => ShortSched.tryToWakeUp HZ p k
  | .wakeUpForkedProcess p, k => ShortSched.wakeUpForkedProcess HZ p k
  | .doFork child pid vfork cloneParent, k => ShortSched.doFork HZ child pid vfork cloneParent k
  | .setUserNice p nice, k => ShortSched.setUserNice p nice k
  | .sysNice increment, k => (ShortSched.sysNice increment k).map Prod.snd
  | .sysSchedYield, k => ShortSched.sysSchedYield k
  | .sysSchedSetscheduler pid policy param, k =>
      (ShortSched.sysSchedSetscheduler HZ pid policy param k).map Prod.snd
  | .sysSchedSetparam pid param, k =>
      (ShortSched.sysSchedSetparam HZ pid param k).map Prod.snd
  | .exitNotify reaper childReaper, k => some (ShortSched.exitNotify reaper childReaper k)
  | .releaseTask p, k => some (ShortSched.releaseTask HZ p k)
  | .initIdle, k => ShortSched.initIdle k

/-- When the rest of the kernel makes a call: system calls come from a task other than the
idle task, wake-ups and priority changes are for hashed tasks, a child is fresh memory and
is not queued before its first wake-up, and `init_idle` is for the queued boot task. -/
def Enabled (k : Kernel) : Op → Prop
  | .setCurrentState _ | .sysNice _ | .sysSchedYield | .sysSchedSetscheduler .. |
    .sysSchedSetparam .. | .exitNotify .. => k.current ≠ k.rq.idle
  | .tryToWakeUp p | .setUserNice p _ => p ∈ k.pidhash
  | .wakeUpForkedProcess p => p ∈ k.pidhash ∧ p ≠ k.current ∧
      ((k.tasks p).policy = .short → k.current ≠ k.rq.idle) ∧ (k.tasks p).array = none
  | .doFork child _ _ _ => child ∉ k.pidhash ∧ child ≠ k.rq.idle ∧ child ≠ k.current ∧
      (k.tasks child).runList = none
  | .releaseTask p => p ∈ k.pidhash ∧ (k.tasks p).state = .zombie ∧ p ≠ k.current
  | .initIdle => k.current = k.rq.idle ∧ (k.tasks k.current).array ≠ none
  | .advance _ | .setSigpending .. | .setCredentials .. | .schedule _ | .schedulerTick => True

instance Enabled.decidable (k : Kernel) : (op : Op) → Decidable (Enabled k op)
  | .setCurrentState _ | .sysNice _ | .sysSchedYield | .sysSchedSetscheduler .. |
    .sysSchedSetparam .. | .exitNotify .. => inferInstanceAs (Decidable (k.current ≠ k.rq.idle))
  | .tryToWakeUp p | .setUserNice p _ => inferInstanceAs (Decidable (p ∈ k.pidhash))
  | .wakeUpForkedProcess p => inferInstanceAs (Decidable (p ∈ k.pidhash ∧ p ≠ k.current ∧
      ((k.tasks p).policy = .short → k.current ≠ k.rq.idle) ∧ (k.tasks p).array = none))
  | .doFork child _ _ _ => inferInstanceAs (Decidable (child ∉ k.pidhash ∧ child ≠ k.rq.idle ∧
      child ≠ k.current ∧ (k.tasks child).runList = none))
  | .releaseTask p => inferInstanceAs (Decidable (p ∈ k.pidhash ∧ (k.tasks p).state = .zombie ∧
      p ≠ k.current))
  | .initIdle => inferInstanceAs (Decidable (k.current = k.rq.idle ∧
      (k.tasks k.current).array ≠ none))
  | .advance _ | .setSigpending .. | .setCredentials .. | .schedule _ | .schedulerTick =>
      isTrue trivial

/-- The policy argument of `setscheduler`. -/
def Op.policyArg : Op → ℤ
  | .sysSchedSetscheduler _ policy _ => policy
  | .sysSchedSetparam _ _ => -1
  | _ => 0

/-- The user pointer of a call of `setscheduler`. -/
def Op.param : Op → Option UserParam
  | .sysSchedSetscheduler _ _ param => param
  | .sysSchedSetparam _ param => param
  | _ => none

/-- The accepted call that a system call amounts to, if any. -/
def Op.accepted (k : Kernel) : Op → Option Accepted
  | .sysSchedSetscheduler pid policy param => (setschedulerCheck k pid policy
      (if policy = 4 then param.map UserParam.clearPriority else param)).toOption
  | .sysSchedSetparam pid param => (setschedulerCheck k pid (-1) param).toOption
  | _ => none

/-- The operation keeps to the guard. -/
structure Permits (π : Guard) (k : Kernel) (op : Op) : Prop where
  fork : op.child ≠ none → (k.core k.current).IsShort → π.fork (k.core k.current)
  forkTick : op.child ≠ none → (k.core k.current).timeSlice / 2 = 0 →
    π.tick ((k.core k.current).forking.withSlice 1)
  reap : ∀ p, op.released = some p → π.reap (k.core k.current) (k.core p)
  enter : ∀ acc, op.accepted k = some acc → (k.tasks acc.target).policy = .other →
    acc.policy = .short → π.enter (k.core acc.target).left (acc.user.deref .requestedTimeStore)
      (acc.user.deref .trialNumStore)
  update : ∀ acc, op.accepted k = some acc → (k.tasks acc.target).policy = .short →
    acc.policy = .short → π.update (acc.user.deref .requestedTimeStore)
  change : ∀ acc, op.accepted k = some acc → acc.policy ≠ .short →
    π.change (k.core acc.target).left acc.policy
  tick : op = .schedulerTick → π.tick (k.core k.current)
  yield : op = .sysSchedYield → ∀ i ∈ k.yieldTarget, π.yield (k.core k.current) i

theorem Permits.free (k : Kernel) (op : Op) : Permits Guard.free k op where
  fork _ _ := trivial
  forkTick _ _ := trivial
  reap _ _ := trivial
  enter _ _ _ _ := trivial
  update _ _ _ _ := trivial
  change _ _ _ := trivial
  tick _ := trivial
  yield _ _ _ := trivial

/-- The idle task is never found by its pid and is no SHORT task. -/
structure IdleOk (k : Kernel) : Prop where
  unhashed : k.rq.idle ∉ k.pidhash
  policy : (k.core k.rq.idle).policy = .other

theorem IdleOk.not_short (hi : IdleOk k) : (k.core k.rq.idle).policy ≠ .short := by
  rw [hi.policy]
  decide

/-- What an operation does to every task, to the hash table and to the array pointers. -/
structure Effect (HZ : ℕ) (π : Guard) (op : Op) (k k' : Kernel) : Prop where
  idle : k'.rq.idle = k.rq.idle
  tasks : ∀ q, q ≠ k.rq.idle → op.child ≠ some q →
    ReflTransGen (TaskStep HZ k.ptrs π) (k.core q) (k'.core q)
  born : ∀ q, op.child = some q → (k.core k.current).timeSlice ≠ 0 ∧
    ((k.core k.current).IsShort → π.fork (k.core k.current)) ∧ ∃ i, (k.core k.current).Fresh i ∧
      ReflTransGen (TaskStep HZ k.ptrs π) ((k.core k.current).forked.withPrio i) (k'.core q)
  idleTask : ReflTransGen (IdleStep HZ k.ptrs π) (k.core k.rq.idle) (k'.core k.rq.idle)
  stay : ∀ q ∈ k.pidhash, op.released ≠ some q → q ∈ k'.pidhash
  hashed : ∀ q ∈ k'.pidhash, q ∈ k.pidhash ∨ op.child = some q
  roles : k'.ptrs = k.ptrs ∨ (k'.rq.arrays k.rq.active).nrActive = 0 ∧
    k'.ptrs = { k.ptrs with active := k.rq.expired, expired := k.rq.active }

section
variable {HZ : ℕ} {π : Guard} {op : Op} {k k' k'' : Kernel} {p : TaskId}

/-- An operation that moves one task other than the idle task. -/
theorem Moves.effect (h : Moves HZ π p k k') (hp : p ≠ k.rq.idle) (hc : op.child = none) :
    Effect HZ π op k k' where
  idle := h.idle
  tasks q _ _ := by
    by_cases hq : q = p
    · rw [hq]
      exact h.steps
    · rw [h.rest q hq]
  born q hq := by simp [hc] at hq
  idleTask := by rw [h.rest _ hp.symm]
  stay q hq _ := by rwa [h.pidhash]
  hashed q hq := Or.inl (by rwa [h.pidhash] at hq)
  roles := Or.inl h.ptrs

theorem Quiet.effect (h : Quiet k k') (hc : op.child = none) : Effect HZ π op k k' where
  idle := h.idle
  tasks q _ _ := by rw [h.core]
  born q hq := by simp [hc] at hq
  idleTask := by rw [h.core]
  stay q hq _ := by rwa [h.pidhash]
  hashed q hq := Or.inl (by rwa [h.pidhash] at hq)
  roles := Or.inl h.ptrs

/-- A move of one task before the rest of the operation. -/
theorem Effect.after (h' : Effect HZ π op k' k'') (h : Moves HZ π p k k') (hp : p ≠ k.rq.idle)
    (hc : op.child = none) : Effect HZ π op k k'' := by
  have h0 : Effect HZ π op k k' := h.effect hp hc
  have ha : k'.rq.active = k.rq.active := h.active_eq
  have he : k'.rq.expired = k.rq.expired := h.expired_eq
  refine ⟨h'.idle.trans h.idle, fun q hq hn => (h0.tasks q hq hn).trans ?_, ?_, h0.idleTask.trans ?_,
    fun q hq hr => h'.stay q (h0.stay q hq hr) hr, fun q hq => ?_, ?_⟩
  · exact h.ptrs ▸ h'.tasks q (h.idle ▸ hq) hn
  · intro q hq
    simp [hc] at hq
  · have := h'.idleTask
    rwa [h.ptrs, h.idle] at this
  · exact (h'.hashed q hq).imp_left fun hq => h.pidhash ▸ hq
  · have := h'.roles
    rwa [h.ptrs, ha, he] at this

theorem Effect.after_quiet (h' : Effect HZ π op k' k'') (h : Quiet k k') (hc : op.child = none) :
    Effect HZ π op k k'' := by
  have hm : Moves HZ π (k.rq.idle + 1) k k' := h.moves _
  exact h'.after hm (Nat.succ_ne_self _) hc

theorem Switch.ptrs (h : Switch k k') : k'.ptrs = k.ptrs ∨
    (k'.rq.arrays k.rq.active).nrActive = 0 ∧
      k'.ptrs = { k.ptrs with active := k.rq.expired, expired := k.rq.active } := by
  rcases h.roles with ⟨ha, he⟩ | ⟨h0, ha, he⟩
  · left
    simp only [Kernel.ptrs, Runqueue.ptrs, ha, he, h.cpu, h.shortQ, h.overdue]
  · right
    refine ⟨by rw [h.arrays]; exact h0, ?_⟩
    simp only [Kernel.ptrs, Runqueue.ptrs, ha, he, h.cpu, h.shortQ, h.overdue]

theorem schedule_effect (h : schedule k = some k') (hc : op.child = none) :
    Effect HZ π op k k' := by
  obtain ⟨m, hm, hsw, -⟩ := schedule_switch h
  have hmv : Moves HZ π k.current k m := schedulePrev_moves hm
  have hptr := hsw.ptrs
  rw [hmv.ptrs, hmv.active_eq, hmv.expired_eq] at hptr
  refine ⟨hsw.idle.trans hmv.idle, ?_, fun q hq => by simp [hc] at hq, ?_, ?_, ?_, hptr⟩
  · intro q _ _
    rw [hsw.core]
    by_cases hq : q = k.current
    · rw [hq]
      exact hmv.steps
    · rw [hmv.rest q hq]
  · rw [hsw.core]
    by_cases hi : k.rq.idle = k.current
    · rw [hi]
      obtain ⟨c, hc, ⟨-, rfl⟩ | ⟨-, rfl⟩ | ⟨-, hl, rfl⟩⟩ := schedulePrev_only hm
      · rw [hc.self]
      · exact hc.self ▸ .single (.running _)
      · exact hc.self ▸ .single (.deactivate _ hl)
    · rw [hmv.rest _ hi]
  · intro q hq _
    rwa [hsw.pidhash, hmv.pidhash]
  · intro q hq
    rw [hsw.pidhash, hmv.pidhash] at hq
    exact Or.inl hq

theorem schedulerTick_effect (h : schedulerTick HZ k = some k') (hi : IdleOk k)
    (hg : π.tick (k.core k.current)) (hc : op.child = none) : Effect HZ π op k k' := by
  have hidle : ¬ (k.core k.rq.idle).IsShort := by
    intro hs
    have := hi.policy.symm.trans hs.1
    cases this
  obtain ⟨c, hstep, h1⟩ := schedulerTick_step h hidle
  by_cases he : k.current = k.rq.idle
  · refine ⟨h1.idle, fun q hq _ => ?_, fun q hq => by simp [hc] at hq, ?_, fun q hq _ => ?_,
      fun q hq => Or.inl ?_, Or.inl h1.ptrs⟩
    · rw [h1.rest (he ▸ hq)]
    · rw [← he, h1.self]
      exact .single (.tick hstep)
    · rwa [h1.pidhash]
    · rwa [h1.pidhash] at hq
  · exact (h1.moves_step (.tick hstep hg)).effect he hc

/-- The target of a system call is a task that the caller can name. -/
theorem findProcessByPid_ne_idle {pid : ℤ} (h : findProcessByPid k pid = some p) (hi : IdleOk k)
    (hc : k.current ≠ k.rq.idle) : p ≠ k.rq.idle := by
  unfold findProcessByPid at h
  split_ifs at h
  · cases h
    exact hc
  · exact fun he => hi.unhashed (he ▸ List.mem_of_find?_eq_some h)

theorem setscheduler_effect {pid policy : ℤ} {param : Option UserParam} {r : ℤ}
    (h : setscheduler HZ pid policy param k = some (r, k')) (hi : IdleOk k)
    (hc : k.current ≠ k.rq.idle) (hop : op.child = none)
    (henter : ∀ acc, setschedulerCheck k pid policy param = .ok acc →
      (k.tasks acc.target).policy = .other → acc.policy = .short →
      π.enter (k.core acc.target).left (acc.user.deref .requestedTimeStore)
        (acc.user.deref .trialNumStore))
    (hupdate : ∀ acc, setschedulerCheck k pid policy param = .ok acc →
      (k.tasks acc.target).policy = .short → acc.policy = .short →
      π.update (acc.user.deref .requestedTimeStore))
    (hchange : ∀ acc, setschedulerCheck k pid policy param = .ok acc → acc.policy ≠ .short →
      π.change (k.core acc.target).left acc.policy) : Effect HZ π op k k' := by
  obtain ⟨e, -, -, rfl⟩ | ⟨acc, hacc, -, hm⟩ := setscheduler_cases h
  · exact (Quiet.refl k').effect hop
  · have hp := setschedulerCheck_ok hacc
    obtain ⟨n, hn, h'⟩ := setschedulerApply_moves hm hp (henter acc hacc) (hupdate acc hacc)
      (hchange acc hacc)
    have ht := findProcessByPid_ne_idle hp.target hi hc
    rcases h' with rfl | ⟨-, -, h'⟩
    · exact hn.effect ht hop
    · exact (schedule_effect h' hop).after hn ht hop

theorem sysSchedSetscheduler_eq {pid policy : ℤ} {param : Option UserParam} {r : ℤ}
    (h : sysSchedSetscheduler HZ pid policy param k = some (r, k')) :
    setscheduler HZ pid policy
      (if policy = 4 then param.map UserParam.clearPriority else param) k = some (r, k') := by
  unfold sysSchedSetscheduler at h
  by_cases hp : policy = 4
  · rw [if_pos (show policy = Policy.short.code from hp)] at h
    rw [if_pos hp]
    cases param with
    | none => cases h
    | some u =>
      dsimp only at h
      split_ifs at h
      exact h
  · rw [if_neg (show policy ≠ Policy.short.code from hp)] at h
    rwa [if_neg hp]

/-- What an accepted call amounts to, whichever of the two system calls it was. -/
theorem toOption_eq_some {ε α : Type*} {e : Except ε α} {a : α} :
    e.toOption = some a ↔ e = .ok a := by
  cases e <;> simp [Except.toOption]

theorem exec_accepted {acc : Accepted} (h : exec HZ op k = some k')
    (ha : op.accepted k = some acc) : setschedulerApply HZ acc k = some k' ∧
      ∃ pid policy param, Passed k pid policy param acc := by
  have hcall : ∀ {pid policy r : ℤ} {param : Option UserParam} {m : Kernel},
      setscheduler HZ pid policy param k = some (r, m) →
      setschedulerCheck k pid policy param = .ok acc → setschedulerApply HZ acc k = some m := by
    intro pid policy r param m hm hc
    rw [setscheduler, hc] at hm
    obtain ⟨n, hn, he⟩ := Option.map_eq_some_iff.mp hm
    cases he
    exact hn
  cases op with
  | sysSchedSetscheduler pid policy param =>
    obtain ⟨⟨r, m⟩, hm, rfl⟩ := Option.map_eq_some_iff.mp h
    have hok := toOption_eq_some.mp ha
    exact ⟨hcall (sysSchedSetscheduler_eq hm) hok, _, _, _, setschedulerCheck_ok hok⟩
  | sysSchedSetparam pid param =>
    obtain ⟨⟨r, m⟩, hm, rfl⟩ := Option.map_eq_some_iff.mp h
    have hok := toOption_eq_some.mp ha
    exact ⟨hcall hm hok, _, _, _, setschedulerCheck_ok hok⟩
  | _ => cases ha

theorem doFork_effect {child : TaskId} {pid : ℤ} {vfork cloneParent : Bool}
    (h : doFork HZ child pid vfork cloneParent k = some k') (hi : IdleOk k)
    (he : Enabled k (.doFork child pid vfork cloneParent))
    (hg : (k.core k.current).IsShort → π.fork (k.core k.current))
    (htick : (k.core k.current).timeSlice / 2 = 0 →
      π.tick ((k.core k.current).forking.withSlice 1)) :
    Effect HZ π (.doFork child pid vfork cloneParent) k k' := by
  obtain ⟨hfresh, hidle, hcur, -⟩ := he
  have hpol : (k.core k.rq.idle).policy ≠ .short := hi.not_short
  have hf := doFork_forked h hcur.symm hidle.symm hpol hg htick
  refine ⟨hf.idle, fun q hq hn => ?_, fun q hq => ?_, ?_, fun q hq _ => ?_, fun q hq => ?_,
    Or.inl hf.ptrs⟩
  · by_cases hqc : q = k.current
    · rw [hqc]
      exact hf.parent
    · rw [hf.rest q hqc fun he => hn (congrArg some he.symm)]
  · cases hq
    exact ⟨hf.slice, hg, hf.born⟩
  · by_cases hc : k.rq.idle = k.current
    · rw [hc] at hpol ⊢
      exact .single (.share (hf.share hpol))
    · rw [hf.rest _ hc hidle.symm]
  · rw [hf.pidhash]
    exact List.mem_cons_of_mem _ hq
  · rw [hf.pidhash] at hq
    rcases List.mem_cons.mp hq with rfl | hq
    · exact Or.inr rfl
    · exact Or.inl hq

theorem wakeUpForkedProcess_effect (h : wakeUpForkedProcess HZ p k = some k')
    (hp : p ≠ k.rq.idle) (hs : (k.tasks p).policy = .short → k.current ≠ k.rq.idle)
    (hc : op.child = none) : Effect HZ π op k k' := by
  obtain ⟨l, m, h1, h2, h3, h4⟩ := wakeUpForkedProcess_moves (π := π) h
  have h3' : Effect HZ π op m k' := h3.effect (by rwa [h2.idle, h1.idle]) hc
  by_cases hpol : (k.core p).policy = .short
  · exact (h3'.after h2 (by rw [h1.idle]; exact hs hpol) hc).after h1 hp hc
  · rw [h4 hpol] at h3'
    exact h3'.after h1 hp hc

theorem exitNotify_effect (reaper childReaper : TaskId) (hc : k.current ≠ k.rq.idle)
    (hop : op.child = none) : Effect HZ π op k (exitNotify reaper childReaper k) := by
  refine ⟨rfl, fun q _ _ => ?_, fun q hq => by simp [hop] at hq, ?_, fun q hq _ => hq,
    fun q hq => Or.inl hq, Or.inl rfl⟩
  · obtain ⟨c, hs, he⟩ := exitNotify_core HZ π reaper childReaper k q
    rw [he]
    have h1 : ReflTransGen (TaskStep HZ k.ptrs π) (k.core q) c := by
      rcases hs with rfl | hs
      · exact .refl
      · exact .single (.share hs)
    split_ifs
    · exact h1.tail (.state _ _)
    · exact h1
  · obtain ⟨c, hs, he⟩ := exitNotify_core HZ π reaper childReaper k k.rq.idle
    rw [he, if_neg hc.symm]
    rcases hs with rfl | hs
    · exact .refl
    · exact .single (.share hs)

theorem releaseTask_effect (p : TaskId) (hg : π.reap (k.core k.current) (k.core p)) :
    Effect HZ π (.releaseTask p) k (releaseTask HZ p k) := by
  obtain ⟨hptr, -, hidle, hhash, hrest, hcur⟩ := releaseTask_core HZ π p k
  refine ⟨hidle, fun q _ _ => ?_, fun q hq => (by simp [Op.child] at hq), ?_, fun q hq hr => ?_,
    fun q hq => Or.inl ?_, Or.inl hptr⟩
  · by_cases hq : q = k.current
    · rw [hq]
      rcases hcur with h | h
      · rw [h]
      · exact .single (.share (h hg))
    · rw [hrest q hq]
  · by_cases hi : k.rq.idle = k.current
    · rw [hi]
      rcases hcur with h | h
      · rw [h]
      · exact .single (.share (h hg))
    · rw [hrest _ hi]
  · rw [hhash]
    exact (List.mem_erase_of_ne fun he => hr (congrArg some he.symm)).mpr hq
  · rw [hhash] at hq
    exact List.mem_of_mem_erase hq

theorem initIdle_effect (h : initIdle k = some k') (hc : k.current = k.rq.idle)
    (hop : op.child = none) : Effect HZ π op k k' := by
  obtain ⟨hptr, -, hidle, hhash, hrest, hl, hself⟩ := initIdle_core h
  refine ⟨hidle.trans hc, fun q hq _ => ?_, fun q hq => by simp [hop] at hq, ?_,
    fun q hq _ => by rwa [hhash], fun q hq => Or.inl (by rwa [hhash] at hq), Or.inl hptr⟩
  · rw [hrest q (hc ▸ hq)]
  · rw [← hc, hself]
    exact .single (.park _ hl)

/-- One operation of the machine is, for every task, a sequence of steps of its own
machine; a new child starts as a copy of its parent. -/
theorem exec_effect (h : exec HZ op k = some k') (he : Enabled k op) (hi : IdleOk k)
    (hg : Permits π k op) : Effect HZ π op k k' := by
  cases op with
  | advance n => cases h; exact Quiet.effect ⟨⟨rfl, rfl, rfl, rfl⟩, rfl⟩ rfl
  | setSigpending p b =>
    cases h
    exact Quiet.effect (mod_quiet (f := fun t => { t with sigpending := b }) fun _ => rfl) rfl
  | setCredentials p uid euid capSysNice =>
    cases h
    exact Quiet.effect (mod_quiet (f := fun t => { t with uid, euid, capSysNice }) fun _ => rfl) rfl
  | setCurrentState s =>
    cases h
    exact (((Quiet.refl k).moves k.current).state s).effect he rfl
  | schedule reason =>
    cases reason with
    | none => exact schedule_effect h rfl
    | some r => exact (schedule_effect h rfl).after_quiet (recordSwitch_quiet r) rfl
  | schedulerTick => exact schedulerTick_effect h hi (hg.tick rfl) rfl
  | tryToWakeUp p =>
    exact (tryToWakeUp_moves h).effect (fun hp => hi.unhashed (hp ▸ he)) rfl
  | wakeUpForkedProcess p =>
    exact wakeUpForkedProcess_effect h (fun hp => hi.unhashed (hp ▸ he.1)) he.2.2.1 rfl
  | doFork child pid vfork cloneParent =>
    exact doFork_effect h hi he (hg.fork (by simp [Op.child])) (hg.forkTick (by simp [Op.child]))
  | setUserNice p nice =>
    exact (setUserNice_moves h).effect (fun hp => hi.unhashed (hp ▸ he)) rfl
  | sysNice increment =>
    obtain ⟨⟨r, m⟩, hm, rfl⟩ := Option.map_eq_some_iff.mp h
    obtain rfl | hn := sysNice_cases hm
    · exact (Quiet.refl m).effect rfl
    · exact (setUserNice_moves hn).effect he rfl
  | sysSchedYield =>
    obtain ⟨m, hm, h⟩ := Option.bind_eq_some_iff.mp h
    exact ((schedule_effect h rfl).after_quiet (recordSwitch_quiet _) rfl).after
      (yieldMove_moves hm (hg.yield rfl)) he rfl
  | sysSchedSetscheduler pid policy param =>
    obtain ⟨⟨r, m⟩, hm, rfl⟩ := Option.map_eq_some_iff.mp h
    exact setscheduler_effect (sysSchedSetscheduler_eq hm) hi he rfl
      (fun acc ha => hg.enter acc (congrArg Except.toOption ha))
      (fun acc ha => hg.update acc (congrArg Except.toOption ha))
      (fun acc ha => hg.change acc (congrArg Except.toOption ha))
  | sysSchedSetparam pid param =>
    obtain ⟨⟨r, m⟩, hm, rfl⟩ := Option.map_eq_some_iff.mp h
    exact setscheduler_effect hm hi he rfl
      (fun acc ha => hg.enter acc (congrArg Except.toOption ha))
      (fun acc ha => hg.update acc (congrArg Except.toOption ha))
      (fun acc ha => hg.change acc (congrArg Except.toOption ha))
  | exitNotify reaper childReaper => cases h; exact exitNotify_effect _ _ he rfl
  | releaseTask p => cases h; exact releaseTask_effect p (hg.reap p rfl)
  | initIdle => exact initIdle_effect h he.1 rfl

/-! Bystanders. -/

/-- What happens to a task that is not charged a tick and does not fork, reap or change its
policy or its parameters. -/
def Guard.aside : Guard where
  update _ := False
  enter _ _ _ := False
  change _ _ := False
  fork _ := False
  reap _ _ := False
  tick _ := False
  yield _ _ := True

/-- A tick, a fork or a reaping by `p` itself, a change of its parameters, or a new task at its
address. -/
def Op.Concerns (op : Op) (k : Kernel) (p : TaskId) : Prop :=
  k.current = p ∧ (op.ticks ∨ op.child.isSome ∨ op.released.isSome) ∨
    (∃ acc ∈ op.accepted k, acc.target = p) ∨ op.child = some p

instance (op : Op) (k : Kernel) (p : TaskId) : Decidable (op.Concerns k p) :=
  inferInstanceAs (Decidable (_ ∨ (∃ acc ∈ op.accepted k, _) ∨ _))

theorem Permits.aside (hc : op.child = none) (hr : op.released = none) (ht : op.ticks = false)
    (ha : op.accepted k = none) : Permits Guard.aside k op where
  fork h := absurd hc h
  forkTick h := absurd hc h
  reap p hp := by
    rw [hr] at hp
    cases hp
  enter acc hacc := by
    rw [ha] at hacc
    cases hacc
  update acc hacc := by
    rw [ha] at hacc
    cases hacc
  change acc hacc := by
    rw [ha] at hacc
    cases hacc
  tick h := by
    rw [h] at ht
    cases ht
  yield _ _ _ := trivial

/-- For a task that is not the target, a policy call is at most a call of `schedule`. -/
theorem setscheduler_bystander {pid policy r : ℤ} {param : Option UserParam}
    (h : setscheduler HZ pid policy param k = some (r, k'))
    (hacc : ∀ acc, setschedulerCheck k pid policy param = .ok acc → acc.target ≠ p) :
    ∃ n, n.core p = k.core p ∧ n.ptrs = k.ptrs ∧ n.rq.idle = k.rq.idle ∧
      (n = k' ∨ schedule n = some k') := by
  obtain ⟨e, -, -, rfl⟩ | ⟨acc, ha, -, hm⟩ := setscheduler_cases h
  · exact ⟨k', rfl, rfl, rfl, .inl rfl⟩
  · obtain ⟨n, hn, hcase⟩ := setschedulerApply_moves (π := Guard.free) hm
      (setschedulerCheck_ok ha) (fun _ _ => trivial) (fun _ _ => trivial) fun _ => trivial
    refine ⟨n, hn.rest p (hacc acc ha).symm, hn.ptrs, hn.idle, ?_⟩
    rcases hcase with rfl | ⟨-, -, h'⟩
    · exact .inl rfl
    · exact .inr h'

theorem setscheduler_aside {pid policy r : ℤ} {param : Option UserParam}
    (h : setscheduler HZ pid policy param k = some (r, k'))
    (hacc : ∀ acc, setschedulerCheck k pid policy param = .ok acc → acc.target ≠ p)
    (hp : p ≠ k.rq.idle) :
    ReflTransGen (TaskStep HZ k.ptrs Guard.aside) (k.core p) (k'.core p) := by
  obtain ⟨n, hcore, hptrs, hidle, rfl | h'⟩ := setscheduler_bystander h hacc
  · rw [hcore]
  · have hs : Effect HZ Guard.aside (.schedule none) n k' := schedule_effect h' rfl
    rw [← hcore, ← hptrs]
    exact hs.tasks p (by rwa [hidle]) fun hc => by cases hc

/-- An operation that does not concern a task happens beside it. -/
theorem exec_aside (h : exec HZ op k = some k') (he : Enabled k op) (hi : IdleOk k)
    (hp : p ≠ k.rq.idle) (hn : ¬ op.Concerns k p) :
    ReflTransGen (TaskStep HZ k.ptrs Guard.aside) (k.core p) (k'.core p) := by
  simp only [Op.Concerns, not_or, not_and, not_exists] at hn
  obtain ⟨hself, hacc, hchild⟩ := hn
  have hacc' : ∀ {e : Except Rejection Accepted}, op.accepted k = e.toOption →
      ∀ acc, e = .ok acc → acc.target ≠ p := by
    rintro e hop acc rfl
    exact hacc acc hop
  cases op with
  | schedulerTick =>
    obtain ⟨c, -, h1⟩ := schedulerTick_step h fun hs => hi.not_short hs.1
    rw [h1.rest fun hc => (hself hc.symm).1 rfl]
  | doFork child pid vfork cloneParent =>
    have hf := doFork_forked (π := Guard.free) h he.2.2.1.symm he.2.1.symm hi.not_short
      (fun _ => trivial) fun _ => trivial
    rw [hf.rest p (fun hc => (hself hc.symm).2.1 rfl) fun hc => hchild (congrArg some hc.symm)]
  | releaseTask q =>
    cases h
    obtain ⟨-, -, -, -, hrest, -⟩ := releaseTask_core HZ Guard.free q k
    rw [hrest p fun hc => (hself hc.symm).2.2 rfl]
  | sysSchedSetscheduler pid policy param =>
    obtain ⟨⟨r, m⟩, hm, rfl⟩ := Option.map_eq_some_iff.mp h
    exact setscheduler_aside (sysSchedSetscheduler_eq hm) (hacc' rfl) hp
  | sysSchedSetparam pid param =>
    obtain ⟨⟨r, m⟩, hm, rfl⟩ := Option.map_eq_some_iff.mp h
    exact setscheduler_aside hm (hacc' rfl) hp
  | _ => exact (exec_effect h he hi (Permits.aside rfl rfl rfl rfl)).tasks p hp hchild

theorem TickStep.policy {ps : Ptrs} {c c' : Core} (h : TickStep HZ ps c c') :
    c'.policy = c.policy := by
  cases h <;> rfl

theorem ShareStep.policy {ps : Ptrs} {c c' : Core} (h : ShareStep HZ ps π c c') :
    c'.policy = c.policy := by
  cases h with
  | fork => exact Core.forking_policy c
  | forkTick _ hg ht h0 hc => exact hc.policy.trans (Core.forking_policy c)
  | reap => rfl
  | orphan => rfl

theorem IdleStep.policy {ps : Ptrs} {c c' : Core} (h : IdleStep HZ ps π c c') :
    c'.policy = c.policy := by
  cases h with
  | tick h => exact h.policy
  | share h => exact h.policy
  | running => rfl
  | deactivate => rfl
  | park => rfl

/-- What every step of a machine preserves holds after any number of steps. -/
theorem steps_invariant {r : Core → Core → Prop} {I : Core → Prop}
    (hstep : ∀ c c', r c c' → I c → I c') {c c' : Core} (h : ReflTransGen r c c') (hc : I c) :
    I c' := by
  induction h with
  | refl => exact hc
  | tail _ hs ih => exact hstep _ _ hs ih

theorem Effect.idleOk (h : Effect HZ π op k k') (he : Enabled k op) (hi : IdleOk k) :
    IdleOk k' where
  unhashed hm := by
    rw [h.idle] at hm
    rcases h.hashed _ hm with hm | hc
    · exact hi.unhashed hm
    · cases op with
      | doFork child pid vfork cloneParent =>
        cases hc
        exact he.2.1 rfl
      | _ => cases hc
  policy := by
    rw [h.idle]
    exact steps_invariant (I := fun c => c.policy = .other)
      (fun c c' hs hc => hs.policy.trans hc) h.idleTask hi.policy

/-- A property of single tasks that steps and births preserve holds of all tasks after an
operation. -/
theorem Effect.tasks_invariant {I : Core → Prop} (h : Effect HZ π op k k')
    (hstep : ∀ ps c c', TaskStep HZ ps π c c' → I c → I c')
    (hidle : ∀ ps c c', IdleStep HZ ps π c c' → I c → I c')
    (hborn : ∀ c i, I c → c.timeSlice ≠ 0 → (c.IsShort → π.fork c) → I (c.forked.withPrio i))
    (hk : ∀ q, I (k.core q)) (q : TaskId) : I (k'.core q) := by
  by_cases hc : op.child = some q
  · obtain ⟨h0, hg, i, -, hs⟩ := h.born q hc
    exact steps_invariant (hstep _) hs (hborn _ i (hk _) h0 hg)
  · by_cases hq : q = k.rq.idle
    · rw [hq]
      exact steps_invariant (hidle _) h.idleTask (hk _)
    · exact steps_invariant (hstep _) (h.tasks q hq hc) (hk q)

/-- The same for a property that is known to hold of the idle task. -/
theorem Effect.others_invariant {I : Core → Prop} (h : Effect HZ π op k k')
    (hidle : I (k'.core k'.rq.idle)) (hstep : ∀ c c', TaskStep HZ k.ptrs π c c' → I c → I c')
    (hborn : ∀ c i, I c → c.Fresh i → (c.IsShort → π.fork c) → I (c.forked.withPrio i))
    (hk : ∀ q, I (k.core q)) (q : TaskId) : I (k'.core q) := by
  by_cases hc : op.child = some q
  · obtain ⟨-, hg, i, hi, hs⟩ := h.born q hc
    exact steps_invariant hstep hs (hborn _ i (hk _) hi hg)
  · by_cases hq : q = k.rq.idle
    · rwa [hq, ← h.idle]
    · exact steps_invariant hstep (h.tasks q hq hc) (hk q)

/-! Runs from boot. -/

/-- Operations in order, starting when `sched_init` has run. -/
def runFromBoot (HZ : ℕ) (ops : List Op) : Option Kernel :=
  (schedInit HZ).bind (run (exec HZ) ops)

/-- Every operation of a run from boot is enabled, and meets `C`, where it is applied. -/
def AlongBoot (HZ : ℕ) (C : Kernel → Op → Prop) (ops : List Op) : Prop :=
  ∀ k, schedInit HZ = some k → Along (exec HZ) (fun k op => Enabled k op ∧ C k op) ops k

theorem schedInit_moves (h : schedInit HZ = some k) : Moves HZ π 0 (bootKernel HZ) k :=
  tryToWakeUp_moves h

theorem schedInit_idleOk (h : schedInit HZ = some k) : IdleOk k := by
  rcases tryToWakeUp_only h with ⟨hn, -⟩ | ⟨-, -, i, -, h1⟩
  · exact absurd rfl hn
  · refine ⟨?_, ?_⟩
    · rw [h1.pidhash]
      exact List.not_mem_nil
    · rw [show k.rq.idle = 0 from h1.idle, h1.self]
      rfl

instance AlongBoot.decidable {HZ : ℕ} {C : Kernel → Op → Prop} [∀ k op, Decidable (C k op)]
    (ops : List Op) : Decidable (AlongBoot HZ C ops) :=
  match h : schedInit HZ with
  | none => isTrue fun k hk => by simp [h] at hk
  | some k => decidable_of_iff (Along (exec HZ) (fun k op => Enabled k op ∧ C k op) ops k)
      (by simp [AlongBoot, h])

variable {C : Kernel → Op → Prop} {ops : List Op}

/-- An invariant of the whole machine along a run from boot. -/
theorem runFromBoot_invariant {J : Kernel → Prop} (hinit : ∀ k, schedInit HZ = some k → J k)
    (hstep : ∀ k op k', IdleOk k → J k → Enabled k op → C k op → exec HZ op k = some k' → J k')
    (hC : AlongBoot HZ C ops) (hr : runFromBoot HZ ops = some k) : IdleOk k ∧ J k := by
  obtain ⟨k0, h0, hr⟩ := Option.bind_eq_some_iff.mp hr
  refine run_invariant (I := fun k => IdleOk k ∧ J k) (fun s o t hs ho ht => ?_)
    ⟨schedInit_idleOk h0, hinit k0 h0⟩ (hC k0 h0) hr
  exact ⟨(exec_effect ht ho.1 hs.1 (Permits.free s o)).idleOk ho.1 hs.1,
    hstep s o t hs.1 hs.2 ho.1 ho.2 ht⟩

/-- When a step keeps `P` just where it meets `D`, a run from boot keeps `P` in every state
reached just when it meets `D` along its way. -/
theorem runFromBoot_always_iff {J P : Kernel → Prop} {D : Kernel → Op → Prop}
    (hinit : ∀ k, schedInit HZ = some k → J k ∧ P k)
    (hstep : ∀ k op k', J k → Enabled k op → C k op → exec HZ op k = some k' →
      J k' ∧ (P k → (P k' ↔ D k op)))
    (hC : AlongBoot HZ C ops) (hr : runFromBoot HZ ops = some k) :
    (∀ pre, pre <+: ops → ∀ m ∈ runFromBoot HZ pre, P m) ↔ AlongBoot HZ D ops := by
  obtain ⟨k0, h0, hr⟩ := Option.bind_eq_some_iff.mp hr
  have hboot : ∀ pre, runFromBoot HZ pre = run (exec HZ) pre k0 := fun pre => by
    rw [runFromBoot, h0, Option.bind_some]
  have halong : AlongBoot HZ D ops ↔
      Along (exec HZ) (fun k op => Enabled k op ∧ D k op) ops k0 := by
    constructor
    · intro h
      exact h k0 h0
    · intro h k hk
      cases h0.symm.trans hk
      exact h
  rw [halong]
  simp only [hboot]
  apply run_always_iff _ (hinit k0 h0).1 (hinit k0 h0).2 (hC k0 h0) hr
  rintro k op k' hk ⟨he, hc⟩ h
  obtain ⟨hk', hP⟩ := hstep k op k' hk he hc h
  refine ⟨hk', fun hx => ?_⟩
  rw [hP hx, and_iff_right he]

/-- A property of single tasks along a run from boot: it is enough to look at the boot
task, at each step of the machine of one task and at births. -/
theorem runFromBoot_tasks {I : Core → Prop} (hinit : I (initTask HZ).core)
    (hstep : ∀ ps c c', TaskStep HZ ps π c c' → I c → I c')
    (hidle : ∀ ps c c', IdleStep HZ ps π c c' → I c → I c')
    (hborn : ∀ c i, I c → c.timeSlice ≠ 0 → (c.IsShort → π.fork c) → I (c.forked.withPrio i))
    (hg : ∀ k op, (∀ q, I (k.core q)) → Enabled k op → C k op → Permits π k op)
    (hC : AlongBoot HZ C ops) (hr : runFromBoot HZ ops = some k) (q : TaskId) : I (k.core q) := by
  refine (runFromBoot_invariant (J := fun k => ∀ q, I (k.core q)) (fun k hk q => ?_)
    (fun k op k' hi hJ he hc h => ?_) hC hr).2 q
  · have hm : Moves HZ π 0 (bootKernel HZ) k := schedInit_moves hk
    by_cases hq : q = 0
    · rw [hq]
      exact steps_invariant (hstep _) hm.steps hinit
    · rw [hm.rest q hq]
      exact hinit
  · exact (exec_effect h he hi (hg k op hJ he hc)).tasks_invariant hstep hidle hborn hJ

/-- The idle task starts task 1 and parks itself. -/
def startTask : List Op := [.initIdle, .doFork 1 1 false false, .schedule none]

/-- User memory with the parameters of a SHORT task. -/
def shortParam (requestedTime trials : ℤ) : Option UserParam :=
  some (UserParam.unchanged ⟨0, requestedTime, trials, 0⟩)

/-- User memory with the parameters of a task of `SCHED_OTHER`. -/
def otherParam : Option UserParam := some (UserParam.unchanged ⟨0, 0, 0, 0⟩)

/-- Task 1 becomes SHORT and runs for some ticks. -/
def shortTicks (requestedTime trials : ℤ) (ticks : ℕ) : List Op :=
  startTask ++ .sysSchedSetscheduler 0 4 (shortParam requestedTime trials) ::
    List.replicate ticks .schedulerTick

end
end ShortSched
