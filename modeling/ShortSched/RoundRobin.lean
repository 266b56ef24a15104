import ShortSched.Overtaking
import ShortSched.ClassOrder

/-! Round robin among SHORT tasks of one priority: between two expiries of the slice of `b`, a
task `a` that stays on `short_q` is moved to the tail of its queue. -/
namespace ShortSched
open Relation PartialRun Fifo

/-- The operation runs `scheduler_tick`: the timer, or a fork that leaves the parent no slice. -/
def Ticks (k : Kernel) (op : Op) : Prop :=
  op.ticks ∨ op.child.isSome ∧ (k.tasks k.current).timeSlice / 2 = 0

instance (k : Kernel) (op : Op) : Decidable (Ticks k op) := inferInstanceAs (Decidable (_ ∨ _ ∧ _))

/-- The operation ends the slice of the SHORT task `p`. -/
def Expires (k : Kernel) (p : TaskId) (op : Op) : Prop :=
  k.current = p ∧ Short (k.tasks p) ∧ (op.ticks ∧ u32 ((k.tasks p).timeSlice - 1) = 0 ∨
    op.child.isSome ∧ (k.tasks p).timeSlice / 2 = 0)

instance (k : Kernel) (p : TaskId) (op : Op) : Decidable (Expires k p op) :=
  inferInstanceAs (Decidable (_ ∧ _ ∧ (_ ∧ _ ∨ _ ∧ _)))

/-- The operation is a fork by the SHORT task `p`. -/
def Forks (k : Kernel) (p : TaskId) : Op → Prop
  | .doFork .. => k.current = p ∧ Short (k.tasks p)
  | .wakeUpForkedProcess q => k.current = p ∧ Short (k.tasks p) ∧ (k.tasks q).policy = .short
  | _ => False

/-- `p` is linked on `short_q`. -/
def OnShortQ (k : Kernel) (p : TaskId) : Prop := p ∈ k.queue k.rq.shortQ (k.tasks p).prio

instance (k : Kernel) (p : TaskId) : Decidable (OnShortQ k p) := inferInstanceAs (Decidable (_ ∈ _))

/-- A step of the runs in question: `a` is on `short_q`, nobody yields, no policy change is for
`a` or `b`, no new task takes the place of `b`, and a tick finds no reschedule request. -/
def Orderly (a b : TaskId) (k : Kernel) (op : Op) : Prop :=
  OnShortQ k a ∧ op.yields = false ∧ (∀ acc ∈ op.accepted k, acc.target ≠ a ∧ acc.target ≠ b) ∧
    (∀ c ∈ op.child, c ≠ b) ∧ (Ticks k op → (k.tasks k.current).needResched = false)

instance (a b : TaskId) (k : Kernel) (op : Op) : Decidable (Orderly a b k op) :=
  inferInstanceAs (Decidable (_ ∧ _ ∧ (∀ acc ∈ op.accepted k, _) ∧ (∀ c ∈ op.child, _) ∧ _))

/-- The task is still on its queue, and all others that were on it are ahead of it. -/
def MovedToTail (p : TaskId) (k k' : Kernel) : Prop :=
  p ∈ k'.queue k'.rq.shortQ (k.tasks p).prio ∧
    ∀ q ∈ k.queue k.rq.shortQ (k.tasks p).prio, q ≠ p →
      Ahead q p (k'.queue k'.rq.shortQ (k.tasks p).prio)

/-- A SHORT task of static priority `i`, or one that has become overdue. -/
def Core.ServedAt (i : ℤ) (c : Core) : Prop :=
  c.IsOverdue ∨ c.IsShort ∧ c.prio = i ∧ c.staticPrio = i

/-- No policy change and no yield. -/
def servedGuard : Guard :=
  { Guard.free with change := fun _ _ => False, yield := fun _ _ => False }

section
variable {HZ : ℕ} {ps : Ptrs} {c d : Core} {a b p q : TaskId} {i : ℤ} {k k' m : Kernel} {op : Op}

/-! What becomes of the two tasks. -/

theorem Core.ServedAt.policy (h : c.ServedAt i) : c.policy = .short := by
  rcases h with h | ⟨h, -⟩
  · exact h.1
  · exact h.1

theorem Core.ServedAt.congr (h : c.ServedAt i) (hp : d.policy = c.policy)
    (ho : d.isOverdue = c.isOverdue) (hi : d.prio = c.prio) (hs : d.staticPrio = c.staticPrio) :
    d.ServedAt i := by
  unfold Core.ServedAt Core.IsOverdue Core.IsShort at *
  rwa [hp, ho, hi, hs]

/-- Its priority may be recomputed: the value is the same. -/
theorem Core.ServedAt.withPrio {j : ℤ} (h : c.ServedAt i) (hi : 100 ≤ i ∧ i < 140)
    (hj : j = c.prio ∨ c.Dynamic j) : (c.withPrio j).ServedAt i := by
  rcases h with h | ⟨hs, hp, hst⟩
  · exact Or.inl h
  · right
    refine ⟨hs, ?_, hst⟩
    rcases hj with rfl | hj
    · exact hp
    · exact (hj.2.2 hs (hst ▸ hi.1) (hst ▸ hi.2)).trans hst

theorem TickStep.servedAt (h : TickStep HZ ps c d) (hc : c.ServedAt i) : d.ServedAt i := by
  cases h with
  | skip => exact hc
  | down => exact hc.congr rfl rfl rfl rfl
  | trial => exact hc.congr rfl rfl rfl rfl
  | overdue hs => exact Or.inl ⟨hs.1, rfl⟩
  | rrSlice hr => cases hr.symm.trans hc.policy
  | otherSlice _ _ hr => exact absurd hc.policy hr

theorem Core.ServedAt.forking (hc : c.ServedAt i) (n : ℕ) :
    (c.forking.withSlice n).ServedAt i := by
  unfold Core.forking
  split_ifs <;> exact hc.congr rfl rfl rfl rfl

theorem ShareStep.servedAt {π : Guard} (h : ShareStep HZ ps π c d) (hc : c.ServedAt i) :
    d.ServedAt i := by
  cases h with
  | fork => exact hc.forking _
  | forkTick _ _ _ _ hstep => exact hstep.servedAt (hc.forking 1)
  | reap => exact hc.congr rfl rfl rfl rfl
  | orphan => exact hc.congr rfl rfl rfl rfl

theorem TaskStep.servedAt (hi : 100 ≤ i ∧ i < 140) (h : TaskStep HZ ps servedGuard c d)
    (hc : c.ServedAt i) : d.ServedAt i := by
  cases h with
  | tick h => exact h.servedAt hc
  | share h => exact h.servedAt hc
  | activate j _ hj => exact (hc.withPrio hi (hj.imp_right And.right)).congr rfl rfl rfl rfl
  | recompute j _ _ hj => exact hc.withPrio hi (Or.inr hj)
  | yield _ _ _ _ _ _ hg => exact hg.elim
  | nice _ hp => exact absurd hc.policy hp
  | niceOff _ hp => exact absurd hc.policy hp
  | niceOn _ _ hp => exact absurd hc.policy hp
  | enter _ _ hp => cases hp.symm.trans hc.policy
  | setPolicy _ _ _ _ _ _ _ hg => exact hg.elim
  | _ => exact hc.congr rfl rfl rfl rfl

theorem OnShortQ.short (ha : OnShortQ k a) (hs : Sound k) : (k.core a).IsShort :=
  ((hs.belongs ha).1.short_iff hs.distinct).mp rfl

theorem OnShortQ.linked (ha : OnShortQ k a) (hs : Sound k) : (k.core a).runList ≠ none := by
  rw [show (k.core a).runList = _ from hs.shape.mem_iff.mp ha]
  exact Option.some_ne_none _

/-- A queued task is not the memory of a new one. -/
theorem OnShortQ.not_child (ha : OnShortQ k a) (hs : Sound k) (he : Enabled k op) :
    ∀ c ∈ op.child, c ≠ a := by
  rintro c hc rfl
  cases op with
  | doFork child pid vfork cloneParent =>
    cases hc
    exact ha.linked hs he.2.2.2
  | _ => cases hc

theorem Sound.ne_idle (hs : Sound k) (hp : (k.core p).policy = .short) : p ≠ k.rq.idle := by
  rintro rfl
  cases hp.symm.trans hs.idle.policy

theorem TaskStep.overdue (h : TaskStep HZ ps servedGuard c d) (hc : c.IsOverdue) :
    d.IsOverdue := by
  cases h with
  | tick h =>
    cases h with
    | trial hs => cases hc.2.symm.trans hs.2
    | overdue hs => cases hc.2.symm.trans hs.2
    | _ => exact hc
  | share h =>
    have hf : ∀ n, (c.forking.withSlice n).IsOverdue := by
      intro n
      unfold Core.forking
      split_ifs <;> exact hc
    cases h with
    | fork => exact hf _
    | forkTick _ _ _ _ hstep =>
      cases hstep with
      | trial hs => cases (hf 1).2.symm.trans hs.2
      | overdue hs => cases (hf 1).2.symm.trans hs.2
      | _ => exact hf 1
    | reap => exact hc
    | orphan => exact hc
  | yield _ _ _ _ _ _ hg => exact hg.elim
  | enter _ _ hp => cases hp.symm.trans hc.1
  | setPolicy _ _ _ _ _ _ _ hg => exact hg.elim
  | _ => exact hc

section
variable {I : Core → Prop} (hI : ∀ ps c d, TaskStep HZ ps servedGuard c d → I c → I d)
include hI

theorem schedule_keeps (h : schedule m = some k') (hp : p ≠ m.rq.idle) (hc : I (m.core p)) :
    I (k'.core p) := by
  have he : Effect HZ servedGuard (.schedule none) m k' := schedule_effect h rfl
  exact steps_invariant (hI m.ptrs) (he.tasks p hp fun hb => by cases hb) hc

theorem setscheduler_keeps {pid policy r : ℤ} {param : Option UserParam}
    (h : setscheduler HZ pid policy param k = some (r, k'))
    (hacc : ∀ acc, setschedulerCheck k pid policy param = .ok acc → acc.target ≠ p)
    (hp : p ≠ k.rq.idle) (hc : I (k.core p)) : I (k'.core p) := by
  obtain ⟨n, hcore, -, hidle, rfl | h'⟩ := setscheduler_bystander h hacc
  · rwa [hcore]
  · exact schedule_keeps hI h' (by rwa [hidle]) (by rwa [hcore])

/-- What the steps of a task keep, but for policy changes and yields, an operation keeps that
is none of these for the task. -/
theorem exec_keeps (h : exec HZ op k = some k') (hs : Sound k) (he : Enabled k op)
    (hy : op.yields = false) (hacc : ∀ acc ∈ op.accepted k, acc.target ≠ p)
    (hchild : ∀ c ∈ op.child, c ≠ p) (hp : p ≠ k.rq.idle) (hc : I (k.core p)) :
    I (k'.core p) := by
  by_cases ha : op.accepted k = none
  · have hperm : Permits servedGuard k op := { Permits.free k op with
      change := fun acc hacc => by
        rw [ha] at hacc
        cases hacc
      yield := fun ho => by
        rw [ho] at hy
        cases hy }
    exact steps_invariant (hI k.ptrs)
      ((exec_effect h he hs.idle hperm).tasks p hp fun hb => hchild p hb rfl) hc
  · cases op with
    | sysSchedSetscheduler pid policy param =>
      obtain ⟨⟨r, m⟩, hm, rfl⟩ := Option.map_eq_some_iff.mp h
      exact setscheduler_keeps hI (sysSchedSetscheduler_eq hm)
        (fun acc hok => hacc acc (congrArg Except.toOption hok)) hp hc
    | sysSchedSetparam pid param =>
      obtain ⟨⟨r, m⟩, hm, rfl⟩ := Option.map_eq_some_iff.mp h
      exact setscheduler_keeps hI hm
        (fun acc hok => hacc acc (congrArg Except.toOption hok)) hp hc
    | _ => exact absurd rfl ha

end

/-! Nobody overtakes. -/

/-- As long as `a` neither expires nor forks, nobody overtakes it before the call of `schedule`
that may end the operation. -/
theorem exec_steady (h : exec HZ op k = some k') (hs : Sound k) (he : Enabled k op)
    (ho : Orderly a b k op) (hn : ¬ (Expires k a op ∨ Forks k a op)) : SteadyUntil a b k k' := by
  obtain ⟨hon, hy, hacc, hchild, -⟩ := ho
  have hshort := hon.short hs
  have h0 : Steady a b k k := Steady.refl k
  cases op with
  | advance n => cases h; exact Or.inl ⟨rfl, rfl, id, fun _ _ => id⟩
  | setSigpending p b => cases h; exact Or.inl (h0.mod fun _ => id)
  | setCredentials p uid euid capSysNice => cases h; exact Or.inl (h0.mod fun _ => id)
  | setCurrentState s => cases h; exact Or.inl (h0.mod fun _ => id)
  | schedule reason =>
    right
    cases reason with
    | none => exact ⟨k, h0, h⟩
    | some r => exact ⟨_, h0.recordSwitch r, h⟩
  | schedulerTick =>
    left
    by_cases hc : k.current = a
    · subst hc
      exact schedulerTick_steady_of_slice hshort
        (fun ht => hn (Or.inl ⟨rfl, hshort, Or.inl ⟨rfl, ht⟩⟩)) h
    · exact schedulerTick_steady hc h
  | tryToWakeUp p => exact Or.inl (tryToWakeUp_steady h)
  | wakeUpForkedProcess p =>
    exact Or.inl (h0.wakeUpForkedProcess
      (fun hp hc => hn (Or.inr ⟨hc, hshort, hp⟩)) h)
  | doFork child pid vfork cloneParent =>
    exact Or.inl (doFork_steady (hchild child rfl).symm
      (fun hc => hn (Or.inr ⟨hc, hshort⟩)) h)
  | setUserNice p nice =>
    exact Or.inl (setUserNice_steady (fun hp => hp ▸ hshort.1) h)
  | sysNice increment =>
    obtain ⟨⟨r, m⟩, hm, rfl⟩ := Option.map_eq_some_iff.mp h
    exact Or.inl (sysNice_steady (fun hp => hp ▸ hshort.1) hm)
  | sysSchedYield => cases hy
  | sysSchedSetscheduler pid policy param =>
    obtain ⟨⟨r, m⟩, hm, rfl⟩ := Option.map_eq_some_iff.mp h
    exact setscheduler_steady (fun acc hok => (hacc acc (congrArg Except.toOption hok)).1)
      (sysSchedSetscheduler_eq hm)
  | sysSchedSetparam pid param =>
    obtain ⟨⟨r, m⟩, hm, rfl⟩ := Option.map_eq_some_iff.mp h
    exact setscheduler_steady (fun acc hok => (hacc acc (congrArg Except.toOption hok)).1) hm
  | exitNotify reaper childReaper => cases h; exact Or.inl (exitNotify_steady _ _ k)
  | releaseTask p => cases h; exact Or.inl (releaseTask_steady p k)
  | initIdle =>
    exact Or.inl (initIdle_steady (fun hc => hs.ne_idle hshort.1 (hc ▸ he.1)) h)

/-- `schedule` does not choose `b` from the queue on which `a` is ahead of it. -/
theorem schedule_passes (h : schedule m = some k') (hs' : Sound k') (ha' : OnShortQ k' a)
    (hab : a ≠ b) (hb : (k'.core b).IsShort) (hi : (k'.core b).prio = i)
    (ha : Ahead a b (m.queue m.rq.shortQ i)) :
    Ahead a b (k'.queue k'.rq.shortQ i) ∧ k'.current ≠ b := by
  obtain ⟨n, hn, hsw, hnext⟩ := schedule_switch h
  have hst : Steady a b m n :=
    schedulePrev_steady (fun _ => by rw [← hsw.core]; exact ha'.linked hs') hn
  have hq : ∀ c j, k'.queue c j = n.queue c j := fun c j => by
    rw [Kernel.queue, hsw.arrays]
    rfl
  have hahead : Ahead a b (k'.queue k'.rq.shortQ i) := by
    rw [hq, hsw.shortQ, hst.shortQ]
    exact hst.order _ _ ha
  refine ⟨hahead, fun hc => ?_⟩
  rcases hnext with ⟨hidle, -⟩ | ⟨c, j, hhead⟩
  · have hmv : Moves 0 Guard.free m.current m n := schedulePrev_moves hn
    apply hs'.ne_idle hb.1
    rw [← hc, hsw.idle, hmv.idle]
    exact hidle
  · rw [show k'.rq.curr = b from hc, ← hq] at hhead
    have hmem := List.mem_of_head? hhead
    obtain rfl := ((hs'.belongs hmem).1.short_iff hs'.distinct).mpr hb
    obtain ⟨-, hj⟩ := hs'.shape.of_mem hmem
    rw [← hj, show (k'.tasks b).prio = i from hi] at hhead
    exact hahead.head_ne hab hhead

/-! Whoever leaves a queue and joins again is behind all others. -/

theorem Shape.ahead_of_left {e e' : ℤ} {x : ArrayIdx} {j : ℤ} (hs : Shape k e) (hs' : Shape k' e')
    (h : Only p c k k') (hc : c.runList = none) (hq : q ∈ k.queue x j) (hqp : q ≠ p) :
    Ahead q p (k'.queue x j) := by
  apply Ahead.of_notMem
  · have hcpu : k'.rq.cpu = k.rq.cpu := congrArg Ptrs.cpu h.ptrs
    have hl : (k'.core q).runList = (k.core q).runList := by rw [h.rest hqp]
    rw [hs'.mem_iff, show (k'.tasks q).runList = (k.tasks q).runList from hl, hcpu]
    exact hs.mem_iff.mp hq
  · intro hp
    have hl : (k'.core p).runList = none := by rw [h.self, hc]
    cases hl.symm.trans (hs'.mem_iff.mp hp)

section
variable {e : ℤ} {x : ArrayIdx} {j : ℤ}

theorem deactivateTask_ahead (h : deactivateTask p k = some k') (hs : Shape k e)
    (hq : q ∈ k.queue x j) (hqp : q ≠ p) : Ahead q p (k'.queue x j) := by
  obtain ⟨-, h1⟩ := deactivateTask_only h
  exact hs.ahead_of_left (hs.deactivateTask h) h1 rfl hq hqp

theorem dequeueTask_ahead {y : ArrayIdx} (h : dequeueTask p y k = some k') (hs : Shape k e)
    (hy : (k.tasks p).runList ≠ none → ∀ z ∈ (k.tasks p).array, z = y) (hq : q ∈ k.queue x j)
    (hqp : q ≠ p) : Ahead q p (k'.queue x j) := by
  obtain ⟨-, h1⟩ := dequeueTask_only h
  exact hs.ahead_of_left (hs.dequeueTask hy h).1 h1 rfl hq hqp

/-- A consistent runqueue on which the task is linked nowhere but on `short_q`. -/
structure AtHome (p : TaskId) (e : ℤ) (k : Kernel) : Prop where
  shape : Shape k e
  home : (k.tasks p).runList ≠ none → ∀ z ∈ (k.tasks p).array, z = k.rq.shortQ

theorem AtHome.mod (h : AtHome p e k) {f : TaskStruct → TaskStruct}
    (hf : ∀ t, (f t).runList = t.runList ∧ (f t).array = t.array ∧ (f t).prio = t.prio) :
    AtHome p e (k.mod p f) where
  shape := h.shape.mod_same f hf
  home := by
    rw [Kernel.mod_tasks_self, (hf _).1, (hf _).2.1]
    exact h.home

theorem becomeOverdue_ahead (h : becomeOverdue p k = some k') (hs : AtHome p e k)
    (hq : q ∈ k.queue x j) (hqp : q ≠ p) : Ahead q p (k'.queue x j) := by
  obtain ⟨m, hm, n, hn, rfl⟩ := becomeOverdue_eq_some.mp h
  have hs' := hs.mod (f := fun t => { t with timeSlice := 1 }) fun _ => ⟨rfl, rfl, rfl⟩
  have h1 := dequeueTask_ahead hm hs'.shape hs'.home hq hqp
  have h2 : Steady q p m n := ((Steady.refl m).mod fun _ => by exact id).enqueue hn
  exact h2.order x j h1

/-- The end of its slice moves the task behind all others. -/
theorem tickShort_ahead (h : tickShort HZ p k = some k') (hs : AtHome p e k)
    (ht : u32 ((k.tasks p).timeSlice - 1) = 0) (hq : q ∈ k.queue x j) (hqp : q ≠ p) :
    Ahead q p (k'.queue x j) := by
  have h1 : AtHome p e (countDown p k) := hs.mod fun _ => ⟨rfl, rfl, rfl⟩
  have h2 : AtHome p e (endTrial p k) := h1.mod fun _ => ⟨rfl, rfl, rfl⟩
  have h3 : AtHome p e (newTrial HZ p k) := h2.mod fun _ => ⟨rfl, rfl, rfl⟩
  cases tickShort_cases h with
  | goesOn h0 => exact absurd ht h0
  | trialsOver m _ _ hm => exact (becomeOverdue_ahead hm h2 hq hqp :)
  | noTime m _ _ hm => exact (becomeOverdue_ahead hm h3 hq hqp :)
  | nextTrial m n _ _ _ hdown hup =>
    have h4 := dequeueTask_ahead hdown h3.shape h3.home hq hqp
    have h5 : Steady q p m n := (Steady.refl m).enqueue hup
    exact h5.order x j h4

theorem tickShort_resched (h : tickShort HZ p k = some k')
    (ht : u32 ((k.tasks p).timeSlice - 1) = 0) : (k'.tasks p).needResched = true := by
  cases tickShort_cases h with
  | goesOn h0 => exact absurd ht h0
  | _ => rw [reschedTask, Kernel.mod_tasks_self]

theorem schedulerTick_eq (hs : Short (k.tasks k.current)) (hi : k.current ≠ k.rq.idle) :
    schedulerTick HZ k = tickShort HZ k.current k := by
  simp only [schedulerTick, if_pos hs.1, if_pos hs.2, if_neg hi]

/-- A SHORT parent goes behind all others. -/
theorem wakeUpForkedProcess_ahead {child : TaskId} (h : wakeUpForkedProcess HZ child k = some k')
    (hs : Shape k e) (hpol : (k.tasks child).policy = .short) (hq : q ∈ k.queue x j)
    (hqp : q ≠ k.current) : Ahead q k.current (k'.queue x j) := by
  obtain ⟨m, hm, h⟩ := wakeUpForkedProcess_eq_some.mp h
  have hshort : ((k.mod child fun t => { t with state := .running }).core child).policy = .short := by
    rw [Kernel.core, Kernel.mod_tasks_self]
    exact hpol
  obtain ⟨-, n, hn, -, hm⟩ | ⟨hs, -⟩ := requeueParent_cases hm
  swap
  · exact absurd hshort hs
  have h1 := deactivateTask_ahead hn (hs.mod_same _ fun _ => ⟨rfl, rfl, rfl⟩) hq hqp
  have h2 : Steady q k.current n k' :=
    ((((Steady.refl n).activate hm).forkPenalty).mod fun _ => by exact id).activate h
  exact h2.order x j h1

end

theorem Sound.atHome (hs : Sound k) (hp : (k.core p).IsShort) : AtHome p 0 k :=
  ⟨hs.shape, (hs.arranged.tasks p (hs.ne_idle hp.1)).short_home hp⟩

theorem Sound.forkSplit (hs : Sound k) {child : TaskId} (pid : ℤ)
    (hp : (k.core k.current).IsShort) (hc : k.current ≠ child)
    (hl : (k.tasks child).runList = none) :
    AtHome k.current 0 (forkSplit child (forkCopy child pid k)) := by
  have hb := forkSplit_both (k := k) pid hc
  obtain ⟨-, -, hl', ha'⟩ := (k.core k.current).forking_parked ((k.core k.current).timeSlice / 2)
  constructor
  · exact hs.shape.forkSplit pid hc hl
  · have h1 := (hs.atHome hp).home
    change ((ShortSched.forkSplit child (forkCopy child pid k)).core k.current).runList ≠ none →
      ∀ z ∈ ((ShortSched.forkSplit child (forkCopy child pid k)).core k.current).array, z = _
    rw [hb.left, hl', ha', forkSplit_rq]
    exact h1

/-- A SHORT task that forks goes behind all others; the tick that it is charged when it is left
no slice requests a reschedule. -/
theorem doFork_ahead {child : TaskId} {pid : ℤ} {vfork cloneParent : Bool} {x : ArrayIdx} {j : ℤ}
    (h : doFork HZ child pid vfork cloneParent k = some k') (hs : Sound k)
    (he : Enabled k (.doFork child pid vfork cloneParent)) (hp : (k.core k.current).IsShort)
    (hq : q ∈ k.queue x j) (hqp : q ≠ k.current) : Ahead q k.current (k'.queue x j) ∧
      ((k.tasks k.current).timeSlice / 2 = 0 → (k'.tasks k.current).needResched = true) := by
  obtain ⟨-, -, hcur, hl⟩ := he
  obtain ⟨-, m, n, hm, hn, rfl⟩ := doFork_eq_some.mp h
  set l := ShortSched.forkSplit child (forkCopy child pid k) with hl'
  have hb := forkSplit_both (k := k) pid hcur.symm
  have hhome := hs.forkSplit pid hp hcur.symm hl
  have hlq : q ∈ l.queue x j := by
    rw [Kernel.queue, hl', forkSplit_rq]
    exact hq
  have hlc : l.current = k.current := hb.curr
  have hslice : (l.tasks k.current).timeSlice = (k.tasks k.current).timeSlice / 2 :=
    congrArg Core.timeSlice hb.left
  have hshort : Short (l.tasks k.current) := by
    have hls : (l.core k.current).IsShort := by
      rw [hb.left, ← Core.forking_withSlice]
      exact Core.forking_isShort.mpr hp
    exact hls
  have hmc : (linkChild child cloneParent m).current = k.current :=
    (forkTick_steady (a := q) hcur.symm hqp.symm hm).current
  have hst : Steady q k.current (linkChild child cloneParent m) n :=
    (Steady.refl _).wakeUpForkedProcess (fun _ => hmc ▸ hqp.symm) hn
  have hend : Steady q k.current n
      (if vfork then n else reschedTask n.current (recordSwitch .taskCreated n)) := by
    split_ifs
    · exact Steady.refl n
    · exact ((Steady.refl n).recordSwitch _).reschedTask _
  have hcases := forkTick_cases hm
  rw [hlc, hslice] at hcases
  obtain ⟨ht, hm⟩ | ⟨ht, rfl⟩ := hcases
  · have hhome1 := hhome.mod (f := fun t => { t with timeSlice := 1 }) fun _ => ⟨rfl, rfl, rfl⟩
    have hcur1 : (l.mod k.current fun t => { t with timeSlice := 1 }).current = k.current := hlc
    have hshort1 : Short ((l.mod k.current fun t => { t with timeSlice := 1 }).tasks k.current) := by
      rw [Kernel.mod_tasks_self]
      exact hshort
    have hne : k.current ≠ (l.mod k.current fun t => { t with timeSlice := 1 }).rq.idle := by
      rw [Kernel.mod_rq, hb.idle]
      exact hs.ne_idle hp.1
    have ht1 : u32 (((l.mod k.current fun t => { t with timeSlice := 1 }).tasks
        k.current).timeSlice - 1) = 0 := by
      rw [Kernel.mod_tasks_self]
      rfl
    rw [schedulerTick_eq (hcur1.symm ▸ hshort1) (hcur1.symm ▸ hne), hcur1] at hm
    have hahead : Ahead q k.current (m.queue x j) := tickShort_ahead hm hhome1 ht1 hlq hqp
    have hr : ((linkChild child cloneParent m).tasks k.current).needResched = true := by
      have := tickShort_resched hm ht1
      rw [linkChild, Kernel.mod_tasks_ne hcur.symm]
      exact this
    have hall := hst.trans hend
    exact ⟨hall.order x j hahead, fun _ => hall.resched hr⟩
  · have hlink : Shape (linkChild child cloneParent l) 0 :=
      hhome.shape.of_core (linkChild_core child cloneParent l) rfl rfl rfl
    have hpol : ((linkChild child cloneParent l).core child).policy = .short := by
      rw [linkChild_core, hb.right]
      exact hp.1
    have h1 := wakeUpForkedProcess_ahead hn hlink hpol hlq (by rwa [hmc])
    rw [hmc] at h1
    exact ⟨hend.order x j h1, fun h => absurd h ht⟩

theorem exec_ahead {x : ArrayIdx} {j : ℤ} (h : exec HZ op k = some k') (hs : Sound k)
    (he : Enabled k op) (hx : Expires k p op ∨ Forks k p op) (hq : q ∈ k.queue x j)
    (hqp : q ≠ p) : Ahead q p (k'.queue x j) := by
  cases op with
  | schedulerTick =>
    obtain ⟨rfl, hshort, ht⟩ := hx.resolve_right id
    have hne := hs.ne_idle (p := k.current) hshort.1
    have ht' := (ht.resolve_right fun hf => by cases hf.1).2
    have h' : schedulerTick HZ k = some k' := h
    rw [schedulerTick_eq hshort hne] at h'
    exact tickShort_ahead h' (hs.atHome hshort) ht' hq hqp
  | wakeUpForkedProcess child =>
    obtain ⟨rfl, hshort, hpol⟩ := hx.resolve_left fun hx => hx.2.2.elim
      (fun hf => by cases hf.1) fun hf => by cases hf.1
    exact wakeUpForkedProcess_ahead h hs.shape hpol hq hqp
  | doFork child pid vfork cloneParent =>
    obtain ⟨rfl, hshort⟩ : k.current = p ∧ Short (k.tasks p) :=
      hx.elim (fun hx => ⟨hx.1, hx.2.1⟩) id
    exact (doFork_ahead h hs he hshort hq hqp).1
  | _ => exact (hx.resolve_right id).2.2.elim (fun hf => by cases hf.1) fun hf => by cases hf.1

theorem exec_resched {x : ArrayIdx} {j : ℤ} (h : exec HZ op k = some k') (hs : Sound k)
    (he : Enabled k op)
    (hx : Expires k p op) (hq : q ∈ k.queue x j) (hqp : q ≠ p) :
    (k'.tasks p).needResched = true := by
  obtain ⟨rfl, hshort, hx⟩ := hx
  have hne := hs.ne_idle (p := k.current) hshort.1
  cases op with
  | schedulerTick =>
    have h' : schedulerTick HZ k = some k' := h
    rw [schedulerTick_eq hshort hne] at h'
    exact tickShort_resched h' (hx.resolve_right fun hf => by cases hf.1).2
  | doFork child pid vfork cloneParent =>
    exact (doFork_ahead h hs he hshort hq hqp).2 (hx.resolve_left fun hf => by cases hf.1).2
  | _ => exact hx.elim (fun hf => by cases hf.1) fun hf => by cases hf.1

theorem Effect.shortQ_eq {π : Guard} (h : Effect HZ π op k k') : k'.rq.shortQ = k.rq.shortQ := by
  rcases h.roles with h | ⟨-, h⟩
  · exact congrArg Ptrs.shortQ h
  · exact congrArg Ptrs.shortQ h

/-! Runs. -/

/-- Both tasks keep their priority, and as long as `b` is not overdue it is behind `a` and will
be rescheduled. -/
structure Waits (a b : TaskId) (i : ℤ) (k : Kernel) : Prop where
  left : (k.core a).ServedAt i
  right : (k.core b).ServedAt i
  behind : (k.core b).IsShort → Ahead a b (k.queue k.rq.shortQ i) ∧
    (k.current = b → (k.tasks b).needResched = true)

theorem Core.ServedAt.prio (h : c.ServedAt i) (hs : c.IsShort) : c.prio = i := by
  rcases h with h | ⟨-, h, -⟩
  · cases hs.2.symm.trans h.2
  · exact h

/-- What the two tasks keep in an orderly step. -/
theorem Orderly.keeps {I : Core → Prop}
    (hI : ∀ ps c d, TaskStep HZ ps servedGuard c d → I c → I d) (ho : Orderly a b k op)
    (h : exec HZ op k = some k') (hs : Sound k) (he : Enabled k op) (hq : q = a ∨ q = b)
    (hpol : (k.core q).policy = .short) (hc : I (k.core q)) : I (k'.core q) := by
  obtain ⟨hon, hy, hacc, hchild, -⟩ := ho
  apply exec_keeps hI h hs he hy _ _ (hs.ne_idle hpol) hc
  · rcases hq with rfl | rfl
    · exact fun acc ha => (hacc acc ha).1
    · exact fun acc ha => (hacc acc ha).2
  · rcases hq with rfl | rfl
    · exact hon.not_child hs he
    · exact hchild

theorem Waits.step (hw : Waits a b i k) (hi : 100 ≤ i ∧ i < 140) (hab : a ≠ b) (hs : Sound k)
    (he : Enabled k op) (ho : Orderly a b k op) (hn : ¬ (Expires k a op ∨ Forks k a op))
    (h : exec HZ op k = some k') (ha' : OnShortQ k' a) : Waits a b i k' := by
  have hserved : ∀ ps c d, TaskStep HZ ps servedGuard c d → c.ServedAt i → d.ServedAt i :=
    fun _ _ _ hst hc => hst.servedAt hi hc
  have hright := ho.keeps hserved h hs he (Or.inr rfl) hw.right.policy hw.right
  have hshort : (k'.core b).IsShort → (k.core b).IsShort := by
    intro hb
    rcases hw.right with hover | hb'
    · have hov := ho.keeps (I := Core.IsOverdue) (fun _ _ _ hst hc => hst.overdue hc) h hs he
        (Or.inr rfl) hover.1 hover
      cases hb.2.symm.trans hov.2
    · exact hb'.1
  refine ⟨ho.keeps hserved h hs he (Or.inl rfl) hw.left.policy hw.left, hright, fun hb => ?_⟩
  obtain ⟨hahead, hresched⟩ := hw.behind (hshort hb)
  rcases exec_steady h hs he ho hn with hst | ⟨m, hst, hsched⟩
  · constructor
    · rw [hst.shortQ]
      exact hst.order _ _ hahead
    · rw [hst.current]
      exact fun hc => hst.resched (hresched hc)
  · have hm : Ahead a b (m.queue m.rq.shortQ i) := by
      rw [hst.shortQ]
      exact hst.order _ _ hahead
    obtain ⟨h1, h2⟩ := schedule_passes hsched (hs.exec he h) ha' hab hb (hright.prio hb) hm
    exact ⟨h1, fun hc => absurd hc h2⟩

/-- The operation that moves `a` to the tail of its queue. -/
theorem Waits.moved (hw : Waits a b i k) (hi : 100 ≤ i ∧ i < 140) (hs : Sound k)
    (he : Enabled k op) (ho : Orderly a b k op) (hx : Expires k a op ∨ Forks k a op)
    (h : exec HZ op k = some k') (ha' : OnShortQ k' a) : MovedToTail a k k' := by
  have hserved : ∀ ps c d, TaskStep HZ ps servedGuard c d → c.ServedAt i → d.ServedAt i :=
    fun _ _ _ hst hc => hst.servedAt hi hc
  have hleft := ho.keeps hserved h hs he (Or.inl rfl) hw.left.policy hw.left
  have hprio : (k'.tasks a).prio = (k.tasks a).prio :=
    (hleft.prio (ha'.short (hs.exec he h))).trans (hw.left.prio (ho.1.short hs)).symm
  have hq : k'.rq.shortQ = k.rq.shortQ :=
    (exec_effect h he hs.idle (Permits.free k op)).shortQ_eq
  constructor
  · rw [← hprio]
    exact ha'
  · intro q hmem hqa
    rw [hq]
    exact exec_ahead h hs he hx hmem hqa

/-- Between the first expiry and the next, `a` expires or forks. -/
theorem Waits.exists_moved (hi : 100 ≤ i ∧ i < 140) (hab : a ≠ b) {next : Op} {mid : List Op}
    (hw : Waits a b i k) (hs : Sound k)
    (hC : Along (exec HZ) (fun k op => Enabled k op ∧ Orderly a b k op) (mid ++ [next]) k)
    (hr : run (exec HZ) mid k = some k') (hnext : Expires k' b next) :
    ∃ pre op post m m', mid = pre ++ op :: post ∧ run (exec HZ) pre k = some m ∧
      exec HZ op m = some m' ∧ (Expires m a op ∨ Forks m a op) ∧ MovedToTail a m m' := by
  induction mid generalizing k with
  | nil =>
    cases hr
    obtain ⟨⟨-, -, -, -, -, hticks⟩, -⟩ := hC
    obtain ⟨hc, hb, ht⟩ := hnext
    have hr := (hw.behind hb).2 hc
    have hno := hticks (ht.imp And.left fun ht => ⟨ht.1, hc ▸ ht.2⟩)
    rw [hc, hr] at hno
    cases hno
  | cons op mid ih =>
    obtain ⟨m, hm, hr⟩ := run_cons_eq_some.mp hr
    obtain ⟨⟨he, ho⟩, hC⟩ := hC
    have ha' : OnShortQ m a := by
      cases mid with
      | nil => exact (hC m hm).1.2.1
      | cons => exact (hC m hm).1.2.1
    by_cases hx : Expires k a op ∨ Forks k a op
    · exact ⟨[], op, mid, k, m, rfl, rfl, hm, hx, hw.moved hi hs he ho hx hm ha'⟩
    · obtain ⟨pre, op', post, l, l', rfl, hpre, h1, h2, h3⟩ :=
        ih (hw.step hi hab hs he ho hx hm ha') (hs.exec he hm) (hC m hm) hr
      exact ⟨op :: pre, op', post, l, l', rfl, run_cons_eq_some.mpr ⟨m, hm, hpre⟩, h1, h2, h3⟩

/-- Two SHORT tasks of one priority are served in turn: when `a` stays on `short_q` from an
expiry of the slice of `b` to a later one, then in between `a` is moved to the tail of its queue,
by an expiry or a fork of its own. -/
theorem short_round_robin (HZ : ℕ) (a b : TaskId) (hab : a ≠ b) (k0 : Kernel) (hs : Sound k0)
    (ha : (k0.tasks a).prio = (k0.tasks a).staticPrio)
    (hb : (k0.tasks b).prio = (k0.tasks b).staticPrio)
    (hprio : (k0.tasks a).prio = (k0.tasks b).prio) (first next : Op) (mid : List Op)
    (hC : Along (exec HZ) (fun k op => Enabled k op ∧ Orderly a b k op)
      (first :: mid ++ [next]) k0)
    (k1 : Kernel) (h1 : exec HZ first k0 = some k1) (hfirst : Expires k0 b first) (k : Kernel)
    (hr : run (exec HZ) mid k1 = some k) (hnext : Expires k b next) :
    ∃ pre op post m m', mid = pre ++ op :: post ∧ run (exec HZ) pre k1 = some m ∧
      exec HZ op m = some m' ∧ (Expires m a op ∨ Forks m a op) ∧ MovedToTail a m m' := by
  obtain ⟨⟨he, ho⟩, hC⟩ := hC
  have hi : 100 ≤ (k0.tasks a).prio ∧ (k0.tasks a).prio < 140 := ha ▸ hs.arranged.static a
  have hserved : ∀ ps c d, TaskStep HZ ps servedGuard c d → c.ServedAt (k0.tasks a).prio →
      d.ServedAt (k0.tasks a).prio := fun _ _ _ hst hc => hst.servedAt hi hc
  have hsa := ho.1.short hs
  have hsb : (k0.core b).IsShort := hfirst.2.1
  have hw : Waits a b (k0.tasks a).prio k1 := by
    constructor
    · exact ho.keeps hserved h1 hs he (Or.inl rfl) hsa.1 (Or.inr ⟨hsa, rfl, ha.symm⟩)
    · exact ho.keeps hserved h1 hs he (Or.inr rfl) hsb.1
        (Or.inr ⟨hsb, hprio.symm, hb.symm.trans hprio.symm⟩)
    · intro _
      have hq := (exec_effect h1 he hs.idle (Permits.free k0 first)).shortQ_eq
      constructor
      · rw [hq]
        exact exec_ahead h1 hs he (Or.inl hfirst) ho.1 hab
      · exact fun _ => exec_resched h1 hs he hfirst ho.1 hab
  exact hw.exists_moved hi hab (hs.exec he h1) (hC k1 h1) hr hnext

end

/-- Task 1 becomes SHORT, forks task 2 and is chosen again. -/
def shortPair : List Op := startTask ++
  [.sysSchedSetscheduler 0 4 (shortParam 4 50), .doFork 2 2 false false, .schedule none]

theorem short_round_robin_shortPair : ∃ k0 ∈ runFromBoot 512 shortPair,
    Expires k0 1 .schedulerTick ∧ ∃ k1 ∈ exec 512 .schedulerTick k0,
      ∃ pre op post m m', [Op.schedule none, .schedulerTick, .schedule none] = pre ++ op :: post ∧
        run (exec 512) pre k1 = some m ∧ exec 512 op m = some m' ∧
          (Expires m 2 op ∨ Forks m 2 op) ∧ MovedToTail 2 m m' := by
  obtain ⟨k0, hk0, ⟨hx, ha, hb, hp⟩, hC, k1, hk1, k, hk, hn⟩ : ∃ k0 ∈ runFromBoot 512 shortPair,
      (Expires k0 1 .schedulerTick ∧ (k0.tasks 2).prio = (k0.tasks 2).staticPrio ∧
        (k0.tasks 1).prio = (k0.tasks 1).staticPrio ∧ (k0.tasks 2).prio = (k0.tasks 1).prio) ∧
      Along (exec 512) (fun k op => Enabled k op ∧ Orderly 2 1 k op)
        (.schedulerTick :: [.schedule none, .schedulerTick, .schedule none] ++ [.schedulerTick]) k0 ∧
      ∃ k1 ∈ exec 512 .schedulerTick k0,
        ∃ k ∈ run (exec 512) [.schedule none, .schedulerTick, .schedule none] k1,
          Expires k 1 .schedulerTick := by
    decide +kernel
  have hboot : AlongBoot 512 (fun _ _ => True) shortPair := by decide +kernel
  have hsound := runFromBoot_sound hboot hk0
  exact ⟨k0, hk0, hx, k1, hk1, short_round_robin 512 2 1 (by decide) k0 hsound ha hb hp
    .schedulerTick .schedulerTick _ hC k1 hk1 hx k hk hn⟩

end ShortSched
