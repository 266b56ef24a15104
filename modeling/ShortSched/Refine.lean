import ShortSched.Effects
import ShortSched.Fork
import ShortSched.Setscheduler

/-! Each function of the scheduler moves the task it is called on by steps of the machine
of one task, and no other. -/
namespace ShortSched
open Relation

section
variable {k k' k'' : Kernel} {p q : TaskId} {c c' : Core} {a : ArrayIdx} {i : ℤ} {HZ : ℕ}

theorem Fixed.overdue_eq (h : Fixed k k') : k'.rq.overdue = k.rq.overdue :=
  congrArg Ptrs.overdue h.ptrs

theorem Fixed.active_eq (h : Fixed k k') : k'.rq.active = k.rq.active :=
  congrArg Ptrs.active h.ptrs

theorem Fixed.expired_eq (h : Fixed k k') : k'.rq.expired = k.rq.expired :=
  congrArg Ptrs.expired h.ptrs

theorem Fixed.shortQ_eq (h : Fixed k k') : k'.rq.shortQ = k.rq.shortQ :=
  congrArg Ptrs.shortQ h.ptrs

/-- Assignments to the core of `p`, `f` on the task_struct and `g` on the core. -/
theorem Only.mod {f : TaskStruct → TaskStruct} {g : Core → Core} (h : Only p c k k')
    (hf : ∀ t, (f t).core = g t.core) : Only p (g c) k (k'.mod p f) := by
  have h' := h.trans (mod_only (hf (k'.tasks p)))
  rwa [show (k'.tasks p).core = c from h.self] at h'

theorem Only.enqueue (h : Only p c k k') (he : enqueueTask p a k' = some k'') :
    c.runList = none ∧ Only p (c.on k.ptrs a c.prio) k k'' := by
  obtain ⟨hl, h'⟩ := enqueueTask_only he
  rw [h.self] at hl h'
  rw [h.ptrs] at h'
  exact ⟨hl, h.trans h'⟩

theorem Only.dequeue (h : Only p c k k') (he : dequeueTask p a k' = some k'') :
    c.runList ≠ none ∧ Only p c.free k k'' := by
  obtain ⟨hl, h'⟩ := dequeueTask_only he
  rw [h.self] at hl h'
  exact ⟨hl, h.trans h'⟩

theorem Only.deactivate (h : Only p c k k') (he : deactivateTask p k' = some k'') :
    c.runList ≠ none ∧ Only p c.off k k'' := by
  obtain ⟨hl, h'⟩ := deactivateTask_only he
  rw [h.self] at hl h'
  exact ⟨hl, h.trans h'⟩

theorem Only.activate (h : Only p c k k') (he : activateTask HZ p k' = some k'') :
    c.runList = none ∧ ∃ i, (i = c.prio ∨ 100 ≤ c.prio ∧ c.Dynamic i) ∧
      Only p (c.on k.ptrs (c.wakeArray k.ptrs) i) k k'' := by
  obtain ⟨hl, i, hi, h'⟩ := activateTask_only he
  rw [h.self] at hl hi h'
  rw [h.ptrs] at h'
  exact ⟨hl, i, hi, h.trans h'⟩

theorem Only.refl (k : Kernel) (p : TaskId) : Only p (k.core p) k k := (Quiet.refl k).only_self p

/-! Timer ticks. -/

theorem becomeOverdue_eq_some : becomeOverdue p k = some k' ↔
    ∃ m, dequeueTask p k.rq.shortQ (k.mod p fun t => { t with timeSlice := 1 }) = some m ∧
      ∃ n, enqueueTask p (m.mod p fun t => { t with prio := 0 }).rq.overdue
        (m.mod p fun t => { t with prio := 0 }) = some n ∧
        recordSwitch .shortOver (n.mod p fun t =>
          { t with array := some n.rq.overdue, isOverdue := true }) = k' := by
  simp only [becomeOverdue, Option.bind_eq_bind, Option.bind_eq_some_iff, Option.pure_def,
    Option.some.injEq, Kernel.mod_rq]

theorem Only.becomeOverdue (h : Only p c k k') (ho : becomeOverdue p k' = some k'') :
    c.runList ≠ none ∧ Only p ({ c with timeSlice := 1, isOverdue := true }.on k.ptrs
      k.ptrs.overdue 0) k k'' := by
  obtain ⟨m, hm, n, hn, rfl⟩ := becomeOverdue_eq_some.mp ho
  obtain ⟨hl, h1⟩ := (h.mod (g := fun c => { c with timeSlice := 1 }) fun _ => rfl).dequeue hm
  have ho : n.rq.overdue = k.ptrs.overdue := by
    obtain ⟨-, h2⟩ := (h1.mod (g := Core.withPrio 0) fun _ => rfl).enqueue hn
    exact h2.overdue_eq
  rw [Kernel.mod_rq, h1.overdue_eq] at hn
  obtain ⟨-, h2⟩ := (h1.mod (g := Core.withPrio 0) fun _ => rfl).enqueue hn
  rw [ho]
  exact ⟨hl, (h2.mod (g := fun c => { c with array := some k.ptrs.overdue, isOverdue := true })
    fun _ => rfl).quiet (recordSwitch_quiet _)⟩

/-- The slice of the task is one tick shorter. -/
abbrev countDown (p : TaskId) (k : Kernel) : Kernel :=
  k.mod p fun t => { t with timeSlice := u32 (t.timeSlice - 1) }

abbrev endTrial (p : TaskId) (k : Kernel) : Kernel :=
  (countDown p k).mod p fun t =>
    { t with currentTrial := t.currentTrial + 1, firstTimeSlice := false }

abbrev newTrial (HZ : ℕ) (p : TaskId) (k : Kernel) : Kernel :=
  (endTrial p k).mod p fun t =>
    { t with timeSlice := shortTimeslice HZ t.requestedTime t.currentTrial }

/-- The four ways through the tick of a SHORT task. -/
inductive ShortTick (HZ : ℕ) (p : TaskId) (k : Kernel) : Kernel → Prop
  | goesOn (ht : u32 ((k.tasks p).timeSlice - 1) ≠ 0) : ShortTick HZ p k (countDown p k)
  | trialsOver (m : Kernel) (ht : u32 ((k.tasks p).timeSlice - 1) = 0)
      (hn : (k.tasks p).currentTrial + 1 ≥ (k.tasks p).numberOfTrials)
      (hm : becomeOverdue p (endTrial p k) = some m) : ShortTick HZ p k (reschedTask p m)
  | noTime (m : Kernel) (ht : u32 ((k.tasks p).timeSlice - 1) = 0)
      (hz : shortTimeslice HZ (k.tasks p).requestedTime ((k.tasks p).currentTrial + 1) = 0)
      (hm : becomeOverdue p (newTrial HZ p k) = some m) : ShortTick HZ p k (reschedTask p m)
  | nextTrial (m n : Kernel) (ht : u32 ((k.tasks p).timeSlice - 1) = 0)
      (hn : ¬ (k.tasks p).currentTrial + 1 ≥ (k.tasks p).numberOfTrials)
      (hz : ¬ shortTimeslice HZ (k.tasks p).requestedTime ((k.tasks p).currentTrial + 1) = 0)
      (hdown : dequeueTask p k.rq.shortQ (newTrial HZ p k) = some m)
      (hup : enqueueTask p m.rq.shortQ m = some n) :
      ShortTick HZ p k (reschedTask p (recordSwitch .timeSliceOver n))

theorem tickShort_cases (h : tickShort HZ p k = some k') : ShortTick HZ p k k' := by
  simp only [tickShort, Kernel.mod_tasks_self, Option.bind_eq_bind, Option.pure_def] at h
  split_ifs at h with ht hn hz
  · obtain ⟨m, hm, h⟩ := Option.bind_eq_some_iff.mp h
    cases h
    exact .trialsOver m ht hn hm
  · obtain ⟨m, hm, h⟩ := Option.bind_eq_some_iff.mp h
    cases h
    exact .noTime m ht hz hm
  · simp only [Option.bind_eq_some_iff, Option.some.injEq] at h
    obtain ⟨m, hdown, n, hup, l, rfl, rfl⟩ := h
    exact .nextTrial m n ht hn hz hdown hup
  · cases h
    exact .goesOn ht

/-- The three ways through the tick of a real-time task. -/
inductive RtTick (HZ : ℕ) (p : TaskId) (k k' : Kernel) : Prop
  | fifo (hr : (k.tasks p).policy ≠ .rr) (h : k' = k)
  | goesOn (hr : (k.tasks p).policy = .rr) (ht : u32 ((k.tasks p).timeSlice - 1) ≠ 0)
      (h : k' = countDown p k)
  | newSlice (m : Kernel) (hr : (k.tasks p).policy = .rr)
      (ht : u32 ((k.tasks p).timeSlice - 1) = 0)
      (hdown : dequeueTask p k.rq.active (reschedTask p ((countDown p k).mod p fun t =>
        { t with timeSlice := taskTimeslice HZ t.staticPrio, firstTimeSlice := false })) = some m)
      (hup : enqueueTask p m.rq.active m = some k')

theorem tickRt_cases (h : tickRt HZ p k = some k') : RtTick HZ p k k' := by
  simp only [tickRt, Kernel.mod_tasks_self, Option.bind_eq_bind, Option.pure_def] at h
  split_ifs at h with hr ht
  · obtain ⟨m, hdown, hup⟩ := Option.bind_eq_some_iff.mp h
    exact .newSlice m hr ht hdown hup
  · cases h
    exact .goesOn hr ht rfl
  · cases h
    exact .fifo hr rfl

/-- A tick lowers the sleep average and the slice. -/
abbrev wearDown (p : TaskId) (k : Kernel) : Kernel :=
  countDown p (k.mod p fun t => { t with sleepAvg := t.sleepAvg - 1 })

/-- The task gets a new slice and a new priority while it is on no list. -/
abbrev renewed (HZ : ℕ) (p : TaskId) (m : Kernel) : Kernel :=
  (reschedTask p m).mod p fun t =>
    { t with
      prio := effectivePrio HZ t
      firstTimeSlice := false
      timeSlice := taskTimeslice HZ t.staticPrio }

/-- The three ways through the tick of any other task. -/
inductive OtherTick (HZ : ℕ) (p : TaskId) (k k' : Kernel) : Prop
  | goesOn (ht : u32 ((k.tasks p).timeSlice - 1) ≠ 0) (h : k' = wearDown p k)
  | expires (m : Kernel) (ht : u32 ((k.tasks p).timeSlice - 1) = 0)
      (hdown : dequeueTask p k.rq.active (wearDown p k) = some m)
      (hup : enqueueTask p (stampExpired (renewed HZ p m)).rq.expired
        (stampExpired (renewed HZ p m)) = some k')
  | stays (m : Kernel) (ht : u32 ((k.tasks p).timeSlice - 1) = 0)
      (hdown : dequeueTask p k.rq.active (wearDown p k) = some m)
      (hup : enqueueTask p (renewed HZ p m).rq.active (renewed HZ p m) = some k')

theorem tickOther_cases (h : tickOther HZ p k = some k') : OtherTick HZ p k k' := by
  simp only [tickOther, Kernel.mod_tasks_self, Option.bind_eq_bind, Option.pure_def] at h
  split_ifs at h with ht
  · obtain ⟨m, hdown, h⟩ := Option.bind_eq_some_iff.mp h
    split_ifs at h
    · exact .expires m ht hdown h
    · exact .stays m ht hdown h
  · cases h
    exact .goesOn ht rfl

theorem Only.countDown (h : Only p c k k') :
    Only p { c with timeSlice := u32 (c.timeSlice - 1) } k (countDown p k') :=
  h.mod (g := fun c => { c with timeSlice := u32 (c.timeSlice - 1) }) fun _ => rfl

theorem Only.endTrial (h : Only p c k k') : Only p
    { c with
      timeSlice := u32 (c.timeSlice - 1)
      currentTrial := c.currentTrial + 1
      firstTimeSlice := false } k (endTrial p k') :=
  h.countDown.mod (g := fun c =>
    { c with currentTrial := c.currentTrial + 1, firstTimeSlice := false }) fun _ => rfl

theorem Only.newTrial (h : Only p c k k') : Only p
    { c with
      timeSlice := shortTimeslice HZ c.requestedTime (c.currentTrial + 1)
      currentTrial := c.currentTrial + 1
      firstTimeSlice := false } k (newTrial HZ p k') :=
  h.endTrial.mod (g := fun c =>
    { c with timeSlice := shortTimeslice HZ c.requestedTime c.currentTrial }) fun _ => rfl

theorem tickShort_step (h : tickShort HZ p k = some k') (hs : (k.core p).IsShort) :
    ∃ c, TickStep HZ k.ptrs (k.core p) c ∧ Only p c k k' := by
  cases tickShort_cases h with
  | goesOn ht => exact ⟨_, .down _ (Or.inl hs) ht, (Only.refl k p).countDown⟩
  | trialsOver m ht hn hm =>
    have h1 := (Only.refl k p).endTrial.becomeOverdue hm
    exact ⟨_, .overdue _ hs ht h1.1 (Or.inl hn), h1.2.quiet (reschedTask_quiet _)⟩
  | noTime m ht hz hm =>
    have h1 := (Only.refl k p).newTrial.becomeOverdue hm
    exact ⟨_, .overdue _ hs ht h1.1 (Or.inr hz), h1.2.quiet (reschedTask_quiet _)⟩
  | nextTrial m n ht hn hz hdown hup =>
    have h1 := (Only.refl k p).newTrial.dequeue hdown
    rw [h1.2.shortQ_eq] at hup
    have h2 := h1.2.enqueue hup
    exact ⟨_, .trial _ hs ht h1.1 (not_le.mp hn) hz,
      (h2.2.quiet (recordSwitch_quiet _)).quiet (reschedTask_quiet _)⟩

theorem tickRt_step (h : tickRt HZ p k = some k') (hs : ¬ (k.core p).IsShort) :
    ∃ c, TickStep HZ k.ptrs (k.core p) c ∧ Only p c k k' := by
  cases tickRt_cases h with
  | fifo _ h =>
    subst h
    exact ⟨_, .skip _ hs, Only.refl k' p⟩
  | goesOn hr ht h =>
    subst h
    exact ⟨_, .down _ (Or.inr (Or.inl hr)) ht, (Only.refl k p).countDown⟩
  | newSlice m hr ht hdown hup =>
    have h1 := (((Only.refl k p).countDown.mod (g := fun c =>
      { c with timeSlice := taskTimeslice HZ c.staticPrio, firstTimeSlice := false })
      fun _ => rfl).quiet (reschedTask_quiet p)).dequeue hdown
    rw [h1.2.active_eq] at hup
    exact ⟨_, .rrSlice _ hr ht h1.1, (h1.2.enqueue hup).2⟩

theorem Quiet.mod {f : TaskStruct → TaskStruct} (h : Quiet k k') (q : TaskId)
    (hf : ∀ t, (f t).core = t.core) : Quiet k (k'.mod q f) := h.trans (mod_quiet hf)

theorem Only.recompute (HZ : ℕ) (h : Only p c k k') : ∃ i, c.Dynamic i ∧
    Only p (c.withPrio i) k (k'.mod p fun t => { t with prio := effectivePrio HZ t }) := by
  have hc : (k'.tasks p).core = c := h.self
  refine ⟨effectivePrio HZ (k'.tasks p), ?_, h.trans (mod_only ?_)⟩
  · rw [← hc]
    exact effectivePrio_dynamic HZ _
  · rw [← hc]
    rfl

theorem stampExpired_quiet (k : Kernel) : Quiet k (stampExpired k) := by
  unfold stampExpired
  split_ifs
  · exact modRq_quiet rfl rfl rfl
  · exact Quiet.refl k

/-- The new slice and the new priority of an expired task of `SCHED_OTHER`. -/
theorem Only.newSlice (HZ : ℕ) (h : Only p c k k') : ∃ i, c.Dynamic i ∧
    Only p ({ c with firstTimeSlice := false, timeSlice := taskTimeslice HZ c.staticPrio }.withPrio
      i) k (k'.mod p fun t =>
        { t with
          prio := effectivePrio HZ t
          firstTimeSlice := false
          timeSlice := taskTimeslice HZ t.staticPrio }) := by
  have hc : (k'.tasks p).core = c := h.self
  refine ⟨effectivePrio HZ (k'.tasks p), ?_, h.trans (mod_only ?_)⟩
  · rw [← hc]
    exact effectivePrio_dynamic HZ _
  · rw [← hc]
    rfl

theorem tickOther_step (h : tickOther HZ p k = some k') (hs : (k.core p).policy ≠ .short)
    (hp : 100 ≤ (k.core p).prio) : ∃ c, TickStep HZ k.ptrs (k.core p) c ∧ Only p c k k' := by
  have hq : Quiet k (k.mod p fun t => { t with sleepAvg := t.sleepAvg - 1 }) :=
    mod_quiet fun _ => rfl
  have h1 := (hq.only_self p).countDown
  cases tickOther_cases h with
  | goesOn ht h =>
    subst h
    exact ⟨_, .down _ (Or.inr (Or.inr ⟨hs, hp⟩)) ht, h1⟩
  | expires m ht hdown hup =>
    obtain ⟨hl, h2⟩ := h1.dequeue hdown
    obtain ⟨i, hi, h3⟩ := (h2.quiet (reschedTask_quiet p)).newSlice HZ
    have h4 := h3.quiet (stampExpired_quiet _)
    exact ⟨_, .otherSlice _ _ i hs hp ht hl (Or.inr h4.expired_eq) hi, (h4.enqueue hup).2⟩
  | stays m ht hdown hup =>
    obtain ⟨hl, h2⟩ := h1.dequeue hdown
    obtain ⟨i, hi, h3⟩ := (h2.quiet (reschedTask_quiet p)).newSlice HZ
    exact ⟨_, .otherSlice _ _ i hs hp ht hl (Or.inl h3.active_eq) hi, (h3.enqueue hup).2⟩

theorem schedulerTick_step (h : schedulerTick HZ k = some k')
    (hidle : ¬ (k.core k.rq.idle).IsShort) :
    ∃ c, TickStep HZ k.ptrs (k.core k.current) c ∧ Only k.current c k k' := by
  simp only [schedulerTick] at h
  split_ifs at h with hi hs ho ha hr
  · cases h
    exact ⟨_, .skip _ (hi ▸ hidle), Only.refl k _⟩
  · exact tickShort_step h ⟨hs, ho⟩
  · cases h
    exact ⟨_, .skip _ fun hc => ho hc.2, Only.refl k _⟩
  · cases h
    exact ⟨_, .skip _ fun hc => hs hc.1, (reschedTask_quiet _).only_self _⟩
  · exact tickRt_step h fun hc => hs hc.1
  · exact tickOther_step h hs (not_lt.mp hr)

/-! The other operations, as sequences of steps. -/

/-- Only task `p` changed, by steps of its machine. -/
structure Moves (HZ : ℕ) (π : Guard) (p : TaskId) (k k' : Kernel) : Prop extends Fixed k k' where
  steps : ReflTransGen (TaskStep HZ k.ptrs π) (k.core p) (k'.core p)
  rest : ∀ q ≠ p, k'.core q = k.core q

variable {π : Guard}

theorem Only.moves (h : Only p c k k') (hc : ReflTransGen (TaskStep HZ k.ptrs π) (k.core p) c) :
    Moves HZ π p k k' where
  toFixed := h.toFixed
  steps := h.self ▸ hc
  rest _ hq := h.rest hq

theorem Only.moves_step (h : Only p c k k') (hc : TaskStep HZ k.ptrs π (k.core p) c) :
    Moves HZ π p k k' := h.moves (.single hc)

theorem Quiet.moves (h : Quiet k k') (p : TaskId) : Moves HZ π p k k' :=
  (h.only_self p).moves .refl

theorem Moves.trans (h : Moves HZ π p k k') (h' : Moves HZ π p k' k'') : Moves HZ π p k k'' where
  toFixed := h.toFixed.trans h'.toFixed
  steps := h.steps.trans (h.ptrs ▸ h'.steps)
  rest q hq := (h'.rest q hq).trans (h.rest q hq)

theorem Moves.quiet (h : Moves HZ π p k k') (h' : Quiet k' k'') : Moves HZ π p k k'' :=
  h.trans (h'.moves p)

theorem Moves.state (h : Moves HZ π p k k') (s : TaskState) :
    Moves HZ π p k (k'.mod p fun t => { t with state := s }) :=
  h.trans (((Only.refl k' p).mod (g := Core.withState s) fun _ => rfl).moves_step (.state _ s))

theorem activateTask_moves (h : activateTask HZ p k = some k') : Moves HZ π p k k' := by
  obtain ⟨hl, i, hi, h'⟩ := activateTask_only h
  exact h'.moves_step (.activate _ i hl hi)

theorem deactivateTask_moves (h : deactivateTask p k = some k') : Moves HZ π p k k' := by
  obtain ⟨hl, h'⟩ := deactivateTask_only h
  exact h'.moves_step (.deactivate _ hl)

theorem wakeQueue_only (h : wakeQueue HZ p k = some k') : (k.core p).runList = none ∧
    ∃ i, (i = (k.core p).prio ∨ 100 ≤ (k.core p).prio ∧ (k.core p).Dynamic i) ∧
      Only p ((k.core p).on k.ptrs ((k.core p).wakeArray k.ptrs) i) k k' := by
  simp only [wakeQueue, Option.bind_eq_bind, Option.bind_eq_some_iff] at h
  obtain ⟨m, hm, h⟩ := h
  have hq : Quiet m k' := by
    split_ifs at h
    · cases h
      exact (recordSwitch_quiet _).trans (reschedTask_quiet _)
    · cases h
      exact Quiet.refl _
  split_ifs at hm
  · obtain ⟨hl, i, hi, h1⟩ := ((modRq_quiet rfl rfl rfl).only_self p).activate hm
    exact ⟨hl, i, hi, h1.quiet hq⟩
  · obtain ⟨hl, i, hi, h1⟩ := (Only.refl k p).activate hm
    exact ⟨hl, i, hi, h1.quiet hq⟩

/-- A wake-up enqueues a task that is on no array, and makes any task runnable. -/
theorem tryToWakeUp_only (h : tryToWakeUp HZ p k = some k') :
    ((k.core p).array ≠ none ∧ Only p ((k.core p).withState .running) k k') ∨
      ((k.core p).array = none ∧ (k.core p).runList = none ∧
        ∃ i, (i = (k.core p).prio ∨ 100 ≤ (k.core p).prio ∧ (k.core p).Dynamic i) ∧
          Only p (((k.core p).on k.ptrs ((k.core p).wakeArray k.ptrs) i).withState .running)
            k k') := by
  obtain ⟨m, hm, rfl⟩ := Option.map_eq_some_iff.mp h
  split_ifs at hm with ha
  · right
    obtain ⟨hl, i, hi, h1⟩ := wakeQueue_only hm
    exact ⟨ha, hl, i, hi, h1.mod (g := Core.withState .running) fun _ => rfl⟩
  · left
    cases hm
    exact ⟨ha, mod_only rfl⟩

theorem tryToWakeUp_moves (h : tryToWakeUp HZ p k = some k') : Moves HZ π p k k' := by
  rcases tryToWakeUp_only h with ⟨-, h1⟩ | ⟨-, hl, i, hi, h1⟩
  · exact h1.moves_step (.state _ _)
  · exact h1.moves ((ReflTransGen.single (.activate _ i hl hi)).tail (.state _ _))

/-- Only a SHORT child makes the parent go to the tail of its queue. -/
theorem requeueParent_cases (h : requeueParent HZ p k = some k') :
    ((k.core p).policy = .short ∧ ∃ m, deactivateTask k.current k = some m ∧
      m.current = k.current ∧ activateTask HZ k.current m = some k') ∨
      ((k.core p).policy ≠ .short ∧ k' = k) := by
  unfold requeueParent at h
  split_ifs at h with hs
  · obtain ⟨m, hm, h⟩ := Option.bind_eq_some_iff.mp h
    have hc : m.current = k.current := (deactivateTask_only hm).2.curr
    rw [hc] at h
    exact Or.inl ⟨hs, m, hm, hc, h⟩
  · cases h
    exact Or.inr ⟨hs, rfl⟩

theorem requeueParent_moves (h : requeueParent HZ p k = some k') :
    ((k.core p).policy ≠ .short → k' = k) ∧ Moves HZ π k.current k k' := by
  obtain ⟨hs, m, hm, -, h⟩ | ⟨-, rfl⟩ := requeueParent_cases h
  · exact ⟨fun hn => absurd hs hn, (deactivateTask_moves hm).trans (activateTask_moves h)⟩
  · exact ⟨fun _ => rfl, (Quiet.refl k').moves _⟩

theorem forkPenalty_only (HZ : ℕ) (p : TaskId) (k : Kernel) :
    ∃ i, (k.core p).Fresh i ∧ Only p ((k.core p).withPrio i) k (forkPenalty HZ p k) := by
  by_cases hr : rtTask (k.tasks p)
  · refine ⟨(k.core p).prio, Or.inl ⟨hr, rfl⟩, ?_⟩
    rw [forkPenalty, if_neg (not_not.mpr hr)]
    exact Only.refl k p
  · simp only [forkPenalty, if_pos hr]
    obtain ⟨i, hi, h⟩ := Only.recompute HZ (p := p) (Quiet.only_self
      (Quiet.mod (Quiet.mod (Quiet.refl k) k.current (f := fun t => { t with
        sleepAvg := t.sleepAvg * 100 / 100 }) fun _ => rfl) p (f := fun t => { t with
        sleepAvg := t.sleepAvg * 95 / 100 }) fun _ => rfl) p)
    exact ⟨i, Or.inr ⟨not_lt.mp hr, hi⟩, h⟩

theorem wakeUpForkedProcess_eq_some : wakeUpForkedProcess HZ p k = some k' ↔
    ∃ m, requeueParent HZ p (k.mod p fun t => { t with state := .running }) = some m ∧
      activateTask HZ p ((forkPenalty HZ p m).mod p fun t =>
        { t with cpu := (forkPenalty HZ p m).rq.cpu }) = some k' := by
  simp only [wakeUpForkedProcess, Option.bind_eq_bind, Option.bind_eq_some_iff]

/-- A forked child gets its priority while it is on no list, and is then enqueued. -/
theorem wakeUpForkedProcess_only (h : wakeUpForkedProcess HZ p k = some k') :
    ∃ l m n i, Only p ((k.core p).withState .running) k l ∧ requeueParent HZ p l = some m ∧
      (m.core p).Fresh i ∧ Only p ((m.core p).withPrio i) m n ∧ activateTask HZ p n = some k' := by
  obtain ⟨m, hm, h⟩ := wakeUpForkedProcess_eq_some.mp h
  have hq : Quiet (forkPenalty HZ p m) ((forkPenalty HZ p m).mod p fun t =>
      { t with cpu := (forkPenalty HZ p m).rq.cpu }) := mod_quiet fun _ => rfl
  obtain ⟨i, hi, h1⟩ := forkPenalty_only HZ p m
  exact ⟨_, m, _, i, mod_only rfl, hm, hi, h1.quiet hq, h⟩

theorem wakeUpForkedProcess_moves (h : wakeUpForkedProcess HZ p k = some k') :
    ∃ l m, Moves HZ π p k l ∧ Moves HZ π k.current l m ∧ Moves HZ π p m k' ∧
      ((k.core p).policy ≠ .short → m = l) := by
  obtain ⟨l, m, n, i, h1, h2, hi, h3, h4⟩ := wakeUpForkedProcess_only h
  obtain ⟨hs, hc⟩ := requeueParent_moves (π := π) h2
  have hl := (h3.activate h4).1
  rw [show l.current = k.current from h1.curr] at hc
  refine ⟨l, m, h1.moves_step (.state _ .running), hc, Moves.trans ?_ (activateTask_moves h4),
    fun hn => hs (by rwa [h1.self])⟩
  rcases hi with ⟨-, rfl⟩ | ⟨hp, hi⟩
  · exact h3.moves .refl
  · exact h3.moves_step (.recompute _ i hp hl hi)

/-- The four ways through `set_user_nice`. In the last, the value that is compared has been stored
just before, and only the running task is rescheduled. -/
inductive NiceSet (p : TaskId) (nice : ℤ) (k : Kernel) : Kernel → Prop
  | ignored (hn : taskNice (k.tasks p) = nice ∨ nice < -20 ∨ nice > 19 ∨
      (k.tasks p).policy = .short) : NiceSet p nice k k
  | realTime (hn : ¬ (taskNice (k.tasks p) = nice ∨ nice < -20 ∨ nice > 19 ∨
      (k.tasks p).policy = .short)) (hr : rtTask (k.tasks p)) :
      NiceSet p nice k (k.mod p fun t => { t with staticPrio := niceToPrio nice })
  | unqueued (hn : ¬ (taskNice (k.tasks p) = nice ∨ nice < -20 ∨ nice > 19 ∨
      (k.tasks p).policy = .short)) (hr : ¬ rtTask (k.tasks p)) (ha : (k.tasks p).array = none) :
      NiceSet p nice k
        (k.mod p fun t => { t with staticPrio := niceToPrio nice, prio := niceToPrio nice })
  | requeued (a : ArrayIdx) (m n : Kernel)
      (hn : ¬ (taskNice (k.tasks p) = nice ∨ nice < -20 ∨ nice > 19 ∨
        (k.tasks p).policy = .short))
      (hr : ¬ rtTask (k.tasks p)) (ha : (k.tasks p).array = some a)
      (hdown : dequeueTask p a k = some m)
      (hup : enqueueTask p a (m.mod p fun t =>
        { t with staticPrio := niceToPrio nice, prio := niceToPrio nice }) = some n) :
      NiceSet p nice k
        (if p = n.rq.curr then reschedTask n.rq.curr (recordSwitch .highierTaskActive n) else n)

theorem setUserNice_cases {nice : ℤ} (h : setUserNice p nice k = some k') :
    NiceSet p nice k k' := by
  unfold setUserNice at h
  split_ifs at h with hn hr
  · cases h
    exact .ignored hn
  · cases h
    exact .realTime hn hr
  · dsimp only at h
    split at h
    next ha =>
      cases h
      exact .unqueued hn hr ha
    next a ha =>
      simp only [Option.bind_eq_bind, Option.bind_eq_some_iff] at h
      obtain ⟨m, hm, n, hup, h⟩ := h
      have hst : (n.tasks p).staticPrio = niceToPrio nice := by
        obtain ⟨-, rfl⟩ := enqueueTask_eq_some.mp hup
        simp [Kernel.link]
      simp only [hst, lt_irrefl, false_or] at h
      have hcase := NiceSet.requeued a m n hn hr ha hm hup
      split_ifs at h hcase with hc
      · cases h
        exact hcase
      · cases h
        exact hcase

theorem niceToPrio_range {nice : ℤ} (h1 : -20 ≤ nice) (h2 : nice ≤ 19) :
    100 ≤ niceToPrio nice ∧ niceToPrio nice < 140 := by
  simp only [niceToPrio, maxRtPrio, maxUserRtPrio]
  omega

theorem setUserNice_moves {nice : ℤ} (h : setUserNice p nice k = some k') :
    Moves HZ π p k k' := by
  have hs : ¬ (taskNice (k.tasks p) = nice ∨ nice < -20 ∨ nice > 19 ∨
      (k.tasks p).policy = .short) →
      (100 ≤ niceToPrio nice ∧ niceToPrio nice < 140) ∧ (k.core p).policy ≠ .short := by
    intro hn
    obtain ⟨-, h1, h2, h3⟩ := by simpa only [not_or, not_lt] using hn
    exact ⟨niceToPrio_range h1 h2, h3⟩
  cases setUserNice_cases h with
  | ignored => exact (Quiet.refl k).moves p
  | realTime hn hr =>
    exact ((Only.refl k p).mod (g := fun c => { c with staticPrio := niceToPrio nice })
      fun _ => rfl).moves_step (.nice _ _ (hs hn).2 (hs hn).1 hr)
  | unqueued hn hr ha =>
    exact ((Only.refl k p).mod (g := fun c =>
      { c with staticPrio := niceToPrio nice, prio := niceToPrio nice })
      fun _ => rfl).moves_step (.niceOff _ _ (hs hn).2 (hs hn).1 (not_lt.mp hr) ha)
  | requeued a m n hn hr ha hdown hup =>
    obtain ⟨hl, h1⟩ := (Only.refl k p).dequeue hdown
    have h2 := ((h1.mod (g := fun c =>
      { c with staticPrio := niceToPrio nice, prio := niceToPrio nice }) fun _ => rfl).enqueue
      hup).2
    have h3 : Moves HZ π p k n :=
      h2.moves_step (.niceOn _ a _ (hs hn).2 (hs hn).1 (not_lt.mp hr) hl ha)
    split_ifs
    · exact (h3.quiet (recordSwitch_quiet _)).quiet (reschedTask_quiet _)
    · exact h3

/-- `sys_nice` is refused, or is the `set_user_nice` of its caller. -/
theorem sysNice_cases {increment r : ℤ} (h : sysNice increment k = some (r, k')) :
    k' = k ∨ setUserNice k.current (newNice (k.tasks k.current) increment) k = some k' := by
  unfold sysNice at h
  split_ifs at h
  · cases h
    exact Or.inl rfl
  · obtain ⟨m, hm, he⟩ := Option.map_eq_some_iff.mp h
    cases he
    exact Or.inr hm

theorem Core.listed_eq_on {ps : Ptrs} (ha : c.array = some a) :
    c.free.listed (ps.entry a c.prio) = c.on ps a c.prio := by
  simp only [Core.listed, Core.on, Core.free, ha]

theorem yieldPrio_range (b : ℤ → Bool) (i : ℤ) :
    yieldPrio b i = i ∨ i < yieldPrio b i ∧ yieldPrio b i < 140 := by
  have hb : schedFindFirstBit b ≤ 0 + (140 : ℕ) := Buckets.nextMark_bounds.2
  simp only [yieldPrio, maxPrio, maxRtPrio, maxUserRtPrio]
  split_ifs
  · exact Or.inl rfl
  · right
    push_cast at hb
    omega

/-- The priority to which `sys_sched_yield` moves the running task. -/
def Kernel.yieldTarget (k : Kernel) : Option ℤ :=
  (k.tasks k.current).array.bind fun a => (listDel k.current k).map fun m =>
    let prio := (k.tasks k.current).prio
    if rtTask (k.tasks k.current) ∨ m.queue a prio ≠ [] then prio
    else yieldPrio (clearBit prio (m.rq.arrays a)).bitmap prio

/-- A yield moves the running task within its array. -/
theorem yieldMove_only (h : yieldMove k = some k') : (k.core k.current).runList ≠ none ∧
    ∃ a i, (k.core k.current).array = some a ∧ k.yieldTarget = some i ∧
      ((k.core k.current).prio < 100 → i = (k.core k.current).prio) ∧
      (i = (k.core k.current).prio ∨ (k.core k.current).prio < i ∧ i < 140) ∧
      Only k.current ((k.core k.current).on k.ptrs a i) k k' := by
  simp only [yieldMove, Option.bind_eq_bind, Option.bind_eq_some_iff] at h
  obtain ⟨a, ha, m, hm, h⟩ := h
  obtain ⟨hl, h1⟩ := listDel_only hm
  refine ⟨hl, a, ?_⟩
  have hprio : (m.tasks k.current).prio = (k.tasks k.current).prio := congrArg Core.prio h1.self
  have htarget : k.yieldTarget = some (if rtTask (k.tasks k.current) ∨
      m.queue a (k.tasks k.current).prio ≠ [] then (k.tasks k.current).prio
      else yieldPrio (clearBit (k.tasks k.current).prio (m.rq.arrays a)).bitmap
        (k.tasks k.current).prio) := by
    rw [Kernel.yieldTarget, ha, Option.bind_some, hm, Option.map_some]
  have hrt : rtTask (m.tasks k.current) ↔ rtTask (k.tasks k.current) := by
    rw [rtTask, hprio, rtTask]
  have hsame : ∀ n, (rtTask (k.tasks k.current) ∨ m.queue a (k.tasks k.current).prio ≠ []) →
      Only k.current ((k.core k.current).free.listed
        (k.ptrs.entry a (k.core k.current).prio)) k n → ∃ i, (k.core k.current).array = some a ∧
      k.yieldTarget = some i ∧ ((k.core k.current).prio < 100 → i = (k.core k.current).prio) ∧
      (i = (k.core k.current).prio ∨ (k.core k.current).prio < i ∧ i < 140) ∧
      Only k.current ((k.core k.current).on k.ptrs a i) k n := by
    intro n hs hn
    rw [Core.listed_eq_on ha] at hn
    rw [if_pos hs] at htarget
    exact ⟨_, ha, htarget, fun _ => rfl, Or.inl rfl, hn⟩
  split_ifs at h with hr hq
  · have h2 := (listAdd_only h).2
    rw [h1.self, h1.ptrs] at h2
    exact hsame _ (Or.inl (hrt.mp hr)) (h1.trans h2)
  · have h2 := (listAdd_only h).2
    rw [h1.self, h1.ptrs] at h2
    exact hsame _ (Or.inr hq) (h1.trans h2)
  · have hi := yieldPrio_range ((m.modArray a (clearBit (k.tasks k.current).prio)).rq.arrays
      a).bitmap (k.tasks k.current).prio
    have hbit : ((m.modArray a (clearBit (k.tasks k.current).prio)).rq.arrays a).bitmap =
        (clearBit (k.tasks k.current).prio (m.rq.arrays a)).bitmap := by
      rw [Kernel.modArray_arrays, Function.update_self]
    rw [if_neg fun hs => hs.elim (fun hs => hr (hrt.mpr hs)) hq, ← hbit] at htarget
    generalize yieldPrio ((m.modArray a (clearBit (k.tasks k.current).prio)).rq.arrays a).bitmap
      (k.tasks k.current).prio = i at h hi htarget
    simp only [Option.bind_eq_some_iff, Option.pure_def, Option.some.injEq] at h
    obtain ⟨n, hn, rfl⟩ := h
    have h2 := (h1.quiet (modArray_quiet (a := a) (g := clearBit (k.tasks k.current).prio))).mod
      (f := fun t => { t with prio := i }) (g := Core.withPrio i) fun _ => rfl
    have h3 := (listAdd_only hn).2
    rw [h2.self, h2.ptrs] at h3
    have hp : ¬ (k.core k.current).prio < 100 := by
      rwa [show (k.core k.current).prio = (m.core k.current).prio by rw [h1.self]; rfl]
    have h4 := (h2.trans h3).quiet (modArray_quiet (a := a) (g := setBit i))
    rw [show ((k.core k.current).free.withPrio i).listed (k.ptrs.entry a i) =
      (k.core k.current).on k.ptrs a i from Core.listed_eq_on (c := (k.core k.current).withPrio i)
        ha] at h4
    exact ⟨i, ha, htarget, fun hc => absurd hc hp, hi, h4⟩

theorem yieldMove_moves (h : yieldMove k = some k')
    (hg : ∀ i ∈ k.yieldTarget, π.yield (k.core k.current) i) : Moves HZ π k.current k k' := by
  obtain ⟨hl, a, i, ha, ht, hr, hi, h1⟩ := yieldMove_only h
  exact h1.moves_step (.yield _ a i hl ha hr hi (hg i ht))

/-! The context switch. -/

/-- `k'` differs from `k` in the running task, the switch log, and perhaps in the roles of
the active and the expired array. -/
structure Switch (k k' : Kernel) : Prop where
  core : k'.core = k.core
  pidhash : k'.pidhash = k.pidhash
  idle : k'.rq.idle = k.rq.idle
  cpu : k'.rq.cpu = k.rq.cpu
  shortQ : k'.rq.shortQ = k.rq.shortQ
  overdue : k'.rq.overdue = k.rq.overdue
  arrays : k'.rq.arrays = k.rq.arrays
  nrRunning : k'.rq.nrRunning = k.rq.nrRunning
  roles : k'.rq.active = k.rq.active ∧ k'.rq.expired = k.rq.expired ∨
    (k.rq.arrays k.rq.active).nrActive = 0 ∧
      k'.rq.active = k.rq.expired ∧ k'.rq.expired = k.rq.active

theorem Switch.trans (h : Switch k k') (h' : Switch k' k'')
    (hr : k''.rq.active = k'.rq.active ∧ k''.rq.expired = k'.rq.expired) : Switch k k'' where
  core := h'.core.trans h.core
  pidhash := h'.pidhash.trans h.pidhash
  idle := h'.idle.trans h.idle
  cpu := h'.cpu.trans h.cpu
  shortQ := h'.shortQ.trans h.shortQ
  overdue := h'.overdue.trans h.overdue
  arrays := h'.arrays.trans h.arrays
  nrRunning := h'.nrRunning.trans h.nrRunning
  roles := by
    rw [hr.1, hr.2]
    exact h.roles

theorem swapArrays_switch (k : Kernel) : Switch k (swapArrays k) := by
  unfold swapArrays
  split_ifs with h
  · exact ⟨rfl, rfl, rfl, rfl, rfl, rfl, rfl, rfl, Or.inr ⟨h, rfl, rfl⟩⟩
  · exact ⟨rfl, rfl, rfl, rfl, rfl, rfl, rfl, rfl, Or.inl ⟨rfl, rfl⟩⟩

/-- The next task is the idle task, or the head of a queue. -/
theorem pickNext_switch {next : TaskId} (h : pickNext k = some (next, k')) :
    Switch k k' ∧ k'.rq.curr = k.rq.curr ∧ (k.rq.nrRunning = 0 ∧ next = k.rq.idle ∨
      k.rq.nrRunning ≠ 0 ∧ k' = swapArrays k ∧
        ∃ a i, pickQueue k' = some (a, i) ∧ (k'.queue a i).head? = some next) := by
  unfold pickNext at h
  split_ifs at h with hn
  · cases h
    exact ⟨⟨rfl, rfl, rfl, rfl, rfl, rfl, rfl, rfl, Or.inl ⟨rfl, rfl⟩⟩, rfl, Or.inl ⟨hn, rfl⟩⟩
  · simp only [Option.bind_eq_bind, Option.bind_eq_some_iff, Option.pure_def,
      Option.some.injEq, Prod.mk.injEq] at h
    obtain ⟨⟨a, i⟩, hq, x, hx, rfl, rfl⟩ := h
    refine ⟨swapArrays_switch k, ?_, Or.inr ⟨hn, rfl, a, i, hq, hx⟩⟩
    unfold swapArrays
    split_ifs <;> rfl

theorem switchTasks_switch (prev next : TaskId) (hc : k.rq.curr = prev) :
    Switch k (switchTasks prev next k) ∧ (switchTasks prev next k).ptrs = k.ptrs ∧
      (switchTasks prev next k).rq.curr = next := by
  have hq : Quiet k (k.mod prev fun t => { t with needResched := false }) :=
    mod_quiet fun _ => rfl
  unfold switchTasks
  dsimp only
  split_ifs with hne
  · exact ⟨⟨hq.core, rfl, rfl, rfl, rfl, rfl, rfl, rfl, Or.inl ⟨rfl, rfl⟩⟩, rfl, rfl⟩
  · rw [not_not] at hne
    exact ⟨⟨hq.core, rfl, rfl, rfl, rfl, rfl, rfl, rfl, Or.inl ⟨rfl, rfl⟩⟩, rfl, hc.trans hne⟩

theorem schedule_eq_some : schedule k = some k' ↔ ∃ m, schedulePrev k.current k = some m ∧
    ∃ x, pickNext m = some x ∧ switchTasks k.current x.1 x.2 = k' := by
  simp only [schedule, Option.bind_eq_bind, Option.bind_eq_some_iff, Option.pure_def,
    Option.some.injEq]

/-- `schedule` notes when its caller stops running. -/
abbrev stampSleep (p : TaskId) (k : Kernel) : Kernel :=
  k.mod p fun t => { t with sleepTimestamp := k.jiffies }

/-- A task that is runnable stays where it is, one with a pending signal becomes runnable,
any other leaves its queue. -/
theorem schedulePrev_cases (h : schedulePrev p k = some k') :
    ((k.core p).state = .running ∧ k' = stampSleep p k) ∨
      ((k.core p).state = .interruptible ∧
        k' = (stampSleep p k).mod p fun t => { t with state := .running }) ∨
      ((k.core p).state ≠ .running ∧ deactivateTask p (stampSleep p k) = some k') := by
  change ((k.tasks p).state = _ ∧ _) ∨ ((k.tasks p).state = _ ∧ _) ∨ (k.tasks p).state ≠ _ ∧ _
  unfold schedulePrev at h
  simp only [Kernel.mod_tasks_self] at h
  cases hs : (k.tasks p).state <;> simp only [hs] at h
  case running =>
    cases h
    exact Or.inl ⟨rfl, rfl⟩
  case interruptible =>
    split_ifs at h
    · cases h
      exact Or.inr (Or.inl ⟨rfl, rfl⟩)
    · exact Or.inr (Or.inr ⟨by decide, h⟩)
  all_goals exact Or.inr (Or.inr ⟨by decide, h⟩)

theorem schedulePrev_only (h : schedulePrev p k = some k') : ∃ c, Only p c k k' ∧
    ((k.core p).state = .running ∧ c = k.core p ∨
      (k.core p).state ≠ .running ∧ c = (k.core p).withState .running ∨
      (k.core p).state ≠ .running ∧ (k.core p).runList ≠ none ∧ c = (k.core p).off) := by
  have hq : Only p (k.core p) k (stampSleep p k) := mod_only rfl
  obtain ⟨hs, rfl⟩ | ⟨hs, rfl⟩ | ⟨hs, hd⟩ := schedulePrev_cases h
  · exact ⟨_, hq, Or.inl ⟨hs, rfl⟩⟩
  · refine ⟨_, hq.mod (g := Core.withState .running) fun _ => rfl, Or.inr (Or.inl ⟨?_, rfl⟩)⟩
    rw [hs]
    decide
  · obtain ⟨hl, h1⟩ := hq.deactivate hd
    exact ⟨_, h1, Or.inr (Or.inr ⟨hs, hl, rfl⟩)⟩

theorem schedulePrev_moves (h : schedulePrev p k = some k') : Moves HZ π p k k' := by
  obtain ⟨c, hc, ⟨-, rfl⟩ | ⟨-, rfl⟩ | ⟨-, hl, rfl⟩⟩ := schedulePrev_only h
  · exact hc.moves .refl
  · exact hc.moves_step (.state _ _)
  · exact hc.moves_step (.deactivate _ hl)

theorem schedule_switch (h : schedule k = some k') : ∃ m, schedulePrev k.current k = some m ∧
    Switch m k' ∧ (k'.rq.curr = k.rq.idle ∧ m.rq.nrRunning = 0 ∨
      ∃ a i, (m.queue a i).head? = some k'.rq.curr) := by
  obtain ⟨m, hm, ⟨next, n⟩, hn, rfl⟩ := schedule_eq_some.mp h
  have hmv : Moves 0 Guard.free k.current k m := schedulePrev_moves hm
  obtain ⟨hsw, hcur, hnext⟩ := pickNext_switch hn
  obtain ⟨hsw', hptr, hcur'⟩ := switchTasks_switch (k := n) k.current next
    (hcur.trans hmv.curr)
  refine ⟨m, hm, hsw.trans hsw' ⟨congrArg Ptrs.active hptr, congrArg Ptrs.expired hptr⟩, ?_⟩
  rw [hcur']
  rcases hnext with ⟨h0, rfl⟩ | ⟨-, rfl, a, i, -, hx⟩
  · exact Or.inl ⟨hmv.idle, h0⟩
  · right
    refine ⟨a, i, ?_⟩
    rwa [Kernel.queue, (swapArrays_switch m).arrays] at hx

/-- A context switch changes nothing about a task but its state and its place. -/
theorem schedule_core (h : schedule k = some k') (q : TaskId) : k'.core q = k.core q ∨
    k'.core q = (k.core q).withState .running ∨ k'.core q = (k.core q).off := by
  obtain ⟨m, hm, hsw, -⟩ := schedule_switch h
  obtain ⟨c, hc, hcase⟩ := schedulePrev_only hm
  rw [hsw.core]
  by_cases hq : q = k.current
  · rw [hq, hc.self]
    rcases hcase with ⟨-, rfl⟩ | ⟨-, rfl⟩ | ⟨-, -, rfl⟩
    · exact Or.inl rfl
    · exact Or.inr (Or.inl rfl)
    · exact Or.inr (Or.inr rfl)
  · exact Or.inl (hc.rest hq)

/-! Policy changes. -/

/-- What a call of `setscheduler` has passed when it starts to change the task. -/
structure Passed (k : Kernel) (pid policy : ℤ) (param : Option UserParam) (acc : Accepted) :
    Prop where
  param : param = some acc.user
  lp : acc.user.lp = some acc.lp
  target : findProcessByPid k pid = some acc.target
  range : policy = 4 → ¬ acc.user.outOfRange
  policy : effectivePolicy (k.tasks acc.target) policy = some acc.policy
  priority : 0 ≤ acc.lp.schedPriority ∧ acc.lp.schedPriority ≤ 99
  zero : acc.policy = .other ∨ acc.policy = .short ↔ acc.lp.schedPriority = 0
  realTime : (k.tasks acc.target).policy = .fifo ∨ (k.tasks acc.target).policy = .rr →
    acc.policy ≠ .short
  notOverdue : ¬ Overdue (k.tasks acc.target)

/-- Only tasks of `SCHED_OTHER` and SHORT tasks can be given the SHORT policy. -/
theorem Passed.not_short {pid policy : ℤ} {param : Option UserParam} {acc : Accepted}
    (h : Passed k pid policy param acc)
    (h1 : ¬ ((k.core acc.target).policy = .other ∧ acc.policy = .short))
    (h2 : ¬ ((k.core acc.target).policy = .short ∧ acc.policy = .short)) :
    acc.policy ≠ .short := by
  intro hs
  cases hk : (k.core acc.target).policy with
  | other => exact h1 ⟨hk, hs⟩
  | short => exact h2 ⟨hk, hs⟩
  | fifo => exact h.realTime (Or.inl hk) hs
  | rr => exact h.realTime (Or.inr hk) hs

theorem checkPolicy_ok {t : TaskStruct} {q : Policy} {lp : SchedParam}
    (h : checkPolicy k t q lp = .ok ()) : (0 ≤ lp.schedPriority ∧ lp.schedPriority ≤ 99) ∧
      (q = .other ∨ q = .short ↔ lp.schedPriority = 0) ∧
      (t.policy = .fifo ∨ t.policy = .rr → q ≠ .short) ∧ ¬ Overdue t := by
  unfold checkPolicy at h
  split_ifs at h with h1 h2 h3 h4 h5 h6
  simp only [maxUserRtPrio] at h1
  refine ⟨by omega, h2, fun hr hq => h5 ⟨hr, hq⟩, h6⟩

/-- The checks of a call that is accepted, one by one. -/
theorem setschedulerCheck_passes {pid policy : ℤ} {param : Option UserParam} {acc : Accepted}
    (h : setschedulerCheck k pid policy param = .ok acc) :
    param = some acc.user ∧ acc.user.lp = some acc.lp ∧
      findProcessByPid k pid = some acc.target ∧ (policy = 4 → ¬ acc.user.outOfRange) ∧
      effectivePolicy (k.tasks acc.target) policy = some acc.policy ∧
      checkPolicy k (k.tasks acc.target) acc.policy acc.lp = .ok () := by
  cases param with
  | none => cases h
  | some u =>
    simp only [setschedulerCheck] at h
    split at h
    next => cases h
    next =>
      split at h
      next => cases h
      next lp hlp =>
        split at h
        next => cases h
        next p hp =>
          split at h
          next => cases h
          next hr =>
            split at h
            next => cases h
            next q hq =>
              cases hc : checkPolicy k (k.tasks p) q lp with
              | error e => rw [hc] at h; cases h
              | ok r =>
                rw [hc] at h
                cases h
                exact ⟨rfl, hlp, hp, fun h4 ho => hr ⟨h4, ho⟩, hq, hc⟩

theorem setschedulerCheck_ok {pid policy : ℤ} {param : Option UserParam} {acc : Accepted}
    (h : setschedulerCheck k pid policy param = .ok acc) : Passed k pid policy param acc := by
  obtain ⟨hparam, hlp, hp, hr, hq, hc⟩ := setschedulerCheck_passes h
  obtain ⟨h1, h2, h3, h4⟩ := checkPolicy_ok hc
  exact ⟨hparam, hlp, hp, hr, hq, h1, h2, h3, h4⟩

/-- A call of `setscheduler` is refused and changes nothing, or it does what was accepted. -/
theorem setscheduler_cases {pid policy r : ℤ} {param : Option UserParam}
    (h : setscheduler HZ pid policy param k = some (r, k')) :
    (∃ e, setschedulerCheck k pid policy param = .error e ∧ r = e.retval ∧ k' = k) ∨
      ∃ acc, setschedulerCheck k pid policy param = .ok acc ∧ r = 0 ∧
        setschedulerApply HZ acc k = some k' := by
  unfold setscheduler at h
  split at h
  next e he =>
    cases h
    exact Or.inl ⟨e, he, rfl, rfl⟩
  next acc hacc =>
    obtain ⟨m, hm, heq⟩ := Option.map_eq_some_iff.mp h
    cases heq
    exact Or.inr ⟨acc, hacc, rfl, hm⟩

variable {d : Core}

/-- `assignPolicy` on the core. -/
def Core.assigned (acc : Accepted) (c : Core) : Core :=
  { c with
    policy := acc.policy
    prio := if acc.policy = .rr ∨ acc.policy = .fifo then
        maxUserRtPrio - 1 - acc.lp.schedPriority
      else c.staticPrio }

/-- `becomeShort` on the core. -/
def Core.entered (HZ : ℕ) (ps : Ptrs) (u : UserParam) (c : Core) : Core :=
  { c with
    requestedTime := u.deref .requestedTimeStore
    numberOfTrials := u.deref .trialNumStore
    array := some ps.shortQ
    currentTrial := 0
    isOverdue := false
    timeSlice := shortTimeslice HZ (u.deref .requestedTimeStore) 0 }

/-- The task when it has left its queue, if it was on one. -/
def Core.left (c : Core) : Core := if c.array.isSome then c.off else c

/-- The task is put back to a queue if it was on one. -/
def Core.Requeued (ps : Ptrs) (queued : Bool) (c d : Core) : Prop :=
  if queued then c.runList = none ∧ ∃ i, (i = c.prio ∨ 100 ≤ c.prio ∧ c.Dynamic i) ∧
    d = c.on ps (c.wakeArray ps) i
  else d = c

theorem Core.Requeued.eq_or_on {ps : Ptrs} {queued : Bool} (h : c.Requeued ps queued d) :
    d = c ∨ ∃ a i, d = c.on ps a i := by
  unfold Core.Requeued at h
  split_ifs at h
  · obtain ⟨-, i, -, rfl⟩ := h
    exact Or.inr ⟨_, i, rfl⟩
  · exact Or.inl h

theorem Core.Requeued.steps {ps : Ptrs} {queued : Bool} (h : c.Requeued ps queued d) :
    ReflTransGen (TaskStep HZ ps π) c d := by
  unfold Core.Requeued at h
  split_ifs at h
  · obtain ⟨hl, i, hi, rfl⟩ := h
    exact .single (.activate c i hl hi)
  · rw [h]

theorem Core.left_array (c : Core) : c.left.array = none := by
  unfold Core.left
  cases ha : c.array <;> simp [Core.off, ha]

theorem Core.left_policy (c : Core) : c.left.policy = c.policy := by
  unfold Core.left
  split_ifs <;> rfl

theorem Core.left_isOverdue (c : Core) : c.left.isOverdue = c.isOverdue := by
  unfold Core.left
  split_ifs <;> rfl

theorem Core.left_trials (c : Core) : c.left.numberOfTrials = c.numberOfTrials ∧
    c.left.currentTrial = c.currentTrial := by
  unfold Core.left
  split_ifs <;> exact ⟨rfl, rfl⟩

theorem Core.left_slices (c : Core) : c.left.firstTimeSlice = c.firstTimeSlice ∧
    c.left.timeSlice = c.timeSlice := by
  unfold Core.left
  split_ifs <;> exact ⟨rfl, rfl⟩

theorem requeue_only {queued : Bool} (h0 : Only p c k k')
    (h : (if queued then activateTask HZ p k' else some k') = some k'') :
    ∃ d, c.Requeued k.ptrs queued d ∧ Only p d k k'' := by
  cases queued with
  | true =>
    obtain ⟨hl, i, hi, h1⟩ := h0.activate h
    exact ⟨_, ⟨hl, i, hi, rfl⟩, h1⟩
  | false =>
    cases h
    exact ⟨c, rfl, h0⟩

/-- After the assignments the task goes back to a queue if it was on one, and a task that
is now SHORT calls `schedule`. -/
theorem installPolicy_eq_some {acc : Accepted} {queued : Bool} :
    installPolicy HZ acc queued k = some k' ↔ ∃ m,
      (if queued then activateTask HZ acc.target (k.mod acc.target (assignPolicy acc))
        else some (k.mod acc.target (assignPolicy acc))) = some m ∧
      (if acc.policy = .short then
        schedule (reschedTask m.current (recordSwitch .highierTaskActive m)) else some m) =
        some k' := by
  simp only [installPolicy, Option.bind_eq_bind, Option.pure_def]
  cases queued with
  | true => simp only [if_true, Option.bind_eq_some_iff]
  | false => simp

theorem installPolicy_only {acc : Accepted} {queued : Bool} (h0 : Only acc.target c k k')
    (h : installPolicy HZ acc queued k' = some k'') : ∃ m d,
      (c.assigned acc).Requeued k.ptrs queued d ∧ Only acc.target d k m ∧
        (acc.policy ≠ .short ∧ k'' = m ∨ acc.policy = .short ∧ schedule m = some k'') := by
  have h1 := h0.mod (f := assignPolicy acc) (g := Core.assigned acc) fun _ => rfl
  obtain ⟨m, hm, h⟩ := installPolicy_eq_some.mp h
  obtain ⟨d, hd, hm⟩ := requeue_only h1 hm
  split_ifs at h with hs
  · exact ⟨_, d, hd, (hm.quiet (recordSwitch_quiet _)).quiet (reschedTask_quiet _), Or.inr ⟨hs, h⟩⟩
  · cases h
    exact ⟨_, d, hd, hm, Or.inl ⟨hs, rfl⟩⟩

/-- The task leaves its queue before it is changed. -/
theorem leaveQueue_only
    (h : (if (k.tasks p).array.isSome then deactivateTask p k else some k) = some k') :
    Only p (k.core p).left k k' ∧ ((k.core p).array ≠ none → (k.core p).runList ≠ none) := by
  have hc : (k.core p).array = (k.tasks p).array := rfl
  unfold Core.left
  rw [hc]
  cases ha : (k.tasks p).array with
  | none =>
    rw [ha] at h
    cases h
    exact ⟨Only.refl k p, fun hn => absurd rfl hn⟩
  | some a =>
    rw [ha] at h
    obtain ⟨hl, h1⟩ := deactivateTask_only h
    exact ⟨h1, fun _ => hl⟩

/-- `setscheduler` changes the task after it has left its queue. -/
theorem setschedulerApply_eq_some {acc : Accepted} : setschedulerApply HZ acc k = some k' ↔
    ∃ m, (if (k.tasks acc.target).array.isSome then deactivateTask acc.target k else some k) =
      some m ∧ (if (m.tasks acc.target).policy = .other ∧ acc.policy = .short then
        installPolicy HZ acc (k.tasks acc.target).array.isSome
          (m.mod acc.target (becomeShort HZ acc.user m.rq.shortQ))
      else if (m.tasks acc.target).policy = .short ∧ acc.policy = .short then
        some (m.mod acc.target fun t => { t with
          requestedTime := acc.user.deref .requestedTimeStore })
      else installPolicy HZ acc (k.tasks acc.target).array.isSome m) = some k' := by
  simp only [setschedulerApply, Option.bind_eq_bind, Option.pure_def]
  cases hq : (k.tasks acc.target).array.isSome with
  | true =>
    simp only [if_true]
    exact Option.bind_eq_some_iff
  | false => simp

/-- The three ways in which an accepted call goes on. -/
inductive Applied (HZ : ℕ) (acc : Accepted) (k k' : Kernel) : Prop
  | becomes (d : Core) (m : Kernel) (hp : (k.core acc.target).policy = .other)
      (hs : acc.policy = .short)
      (hd : (((k.core acc.target).left.entered HZ k.ptrs acc.user).assigned acc).Requeued k.ptrs
        (k.core acc.target).array.isSome d)
      (hm : Only acc.target d k m) (h : schedule m = some k')
  | stays (hp : (k.core acc.target).policy = .short) (hs : acc.policy = .short)
      (h : Only acc.target { (k.core acc.target).left with
        requestedTime := acc.user.deref .requestedTimeStore } k k')
  | changes (d : Core) (hs : acc.policy ≠ .short)
      (hd : ((k.core acc.target).left.assigned acc).Requeued k.ptrs
        (k.core acc.target).array.isSome d)
      (h : Only acc.target d k k')

theorem setschedulerApply_applied {acc : Accepted} {pid policy : ℤ} {param : Option UserParam}
    (h : setschedulerApply HZ acc k = some k') (hp : Passed k pid policy param acc) :
    Applied HZ acc k k' := by
  obtain ⟨m, hm, h⟩ := setschedulerApply_eq_some.mp h
  obtain ⟨hc, -⟩ := leaveQueue_only hm
  have hpm : (m.tasks acc.target).policy = (k.core acc.target).policy := by
    rw [show (m.tasks acc.target).policy = (m.core acc.target).policy from rfl, hc.self,
      Core.left_policy]
  rw [hpm] at h
  split_ifs at h with h1 h2
  · have hb := hc.mod (f := becomeShort HZ acc.user m.rq.shortQ)
      (g := Core.entered HZ m.ptrs acc.user) fun _ => rfl
    rw [hc.ptrs] at hb
    obtain ⟨n, d, hd, hn, ⟨hs, -⟩ | ⟨-, h⟩⟩ := installPolicy_only hb h
    · exact absurd h1.2 hs
    · exact .becomes d n h1.1 h1.2 hd hn h
  · cases h
    exact .stays h2.1 h2.2 (hc.mod (g := fun c => { c with
      requestedTime := acc.user.deref .requestedTimeStore }) fun _ => rfl)
  · have hns := hp.not_short h1 h2
    obtain ⟨n, d, hd, hn, ⟨-, rfl⟩ | ⟨hs, -⟩⟩ := installPolicy_only hc h
    · exact .changes d hns hd hn
    · exact absurd hs hns

theorem leaveQueue_steps {ps : Ptrs} (hl : c.array ≠ none → c.runList ≠ none) :
    ReflTransGen (TaskStep HZ ps π) c c.left := by
  unfold Core.left
  split_ifs with ha
  · exact .single (.deactivate c (hl (Option.isSome_iff_ne_none.mp ha)))
  · exact .refl

/-- The steps by which a task of `SCHED_OTHER` becomes SHORT. -/
theorem Core.entered_steps {acc : Accepted} {ps : Ptrs} (hp : c.policy = .other)
    (hs : acc.policy = .short) (hl : c.array ≠ none → c.runList ≠ none)
    (hg : π.enter c.left (acc.user.deref .requestedTimeStore) (acc.user.deref .trialNumStore)) :
    ReflTransGen (TaskStep HZ ps π) c ((c.left.entered HZ ps acc.user).assigned acc) := by
  have hst : TaskStep HZ ps π c.left _ :=
    .enter _ (acc.user.deref .requestedTimeStore) (acc.user.deref .trialNumStore)
      (c.left_policy.trans hp) c.left_array hg
  refine (leaveQueue_steps hl).tail ?_
  simpa [Core.assigned, Core.entered, hs] using hst

theorem setschedulerApply_moves {acc : Accepted} {pid policy : ℤ} {param : Option UserParam}
    (h : setschedulerApply HZ acc k = some k') (hp : Passed k pid policy param acc)
    (henter : (k.tasks acc.target).policy = .other → acc.policy = .short →
      π.enter (k.core acc.target).left (acc.user.deref .requestedTimeStore)
        (acc.user.deref .trialNumStore))
    (hupdate : (k.tasks acc.target).policy = .short → acc.policy = .short →
      π.update (acc.user.deref .requestedTimeStore))
    (hchange : acc.policy ≠ .short → π.change (k.core acc.target).left acc.policy) :
    ∃ m, Moves HZ π acc.target k m ∧ (k' = m ∨
      (k.tasks acc.target).policy = .other ∧ acc.policy = .short ∧ schedule m = some k') := by
  obtain ⟨m, hm, -⟩ := setschedulerApply_eq_some.mp h
  have hleave : ReflTransGen (TaskStep HZ k.ptrs π) (k.core acc.target) _ :=
    leaveQueue_steps (leaveQueue_only hm).2
  have harr := (k.core acc.target).left_array
  have hpol := (k.core acc.target).left_policy
  have hover := (k.core acc.target).left_isOverdue
  cases setschedulerApply_applied h hp with
  | becomes d n ho hs hd hn h =>
    exact ⟨n, hn.moves ((Core.entered_steps ho hs (leaveQueue_only hm).2 (henter ho hs)).trans
      hd.steps), Or.inr ⟨ho, hs, h⟩⟩
  | stays hs hs' h =>
    refine ⟨k', h.moves (hleave.tail (.update _ _ ⟨hpol.trans hs, ?_⟩ (hupdate hs hs'))), Or.inl rfl⟩
    rw [hover]
    exact Bool.eq_false_iff.mpr fun ho => hp.notOverdue ⟨hs, ho⟩
  | changes d hs hd h =>
    have hst : TaskStep HZ k.ptrs π (k.core acc.target).left
        ((k.core acc.target).left.assigned acc) := by
      refine .setPolicy _ acc.policy _ (fun ho => hp.notOverdue ⟨?_, ?_⟩) hs harr ?_ ?_
        (hchange hs)
      · exact hpol.symm.trans ho.1
      · exact hover.symm.trans ho.2
      · intro hq
        have hr := hp.priority
        rw [if_pos hq.symm]
        simp only [maxUserRtPrio]
        omega
      · intro hq
        rw [if_neg (by simp [hq])]
    exact ⟨k', h.moves ((hleave.tail hst).trans hd.steps), Or.inl rfl⟩

/-! Forks. -/

/-- Only `p` and `q` changed, and they are now `c` and `d`. -/
structure Both (p q : TaskId) (c d : Core) (k k' : Kernel) : Prop extends Fixed k k' where
  left : k'.core p = c
  right : k'.core q = d
  rest : ∀ r, r ≠ p → r ≠ q → k'.core r = k.core r

variable {d' : Core} {f : TaskStruct → TaskStruct}

theorem Only.both (h : Only q d k k') (hpq : p ≠ q) : Both p q (k.core p) d k k' where
  toFixed := h.toFixed
  left := h.rest hpq
  right := h.self
  rest _ _ hr := h.rest hr

theorem Both.mod_left (h : Both p q c d k k') (hpq : p ≠ q) (hf : (f (k'.tasks p)).core = c') :
    Both p q c' d k (k'.mod p f) := by
  have h' : Only p c' k' (k'.mod p f) := mod_only hf
  exact ⟨h.toFixed.trans h'.toFixed, h'.self, (h'.rest hpq.symm).trans h.right,
    fun r hp hq => (h'.rest hp).trans (h.rest r hp hq)⟩

theorem Both.mod_right (h : Both p q c d k k') (hpq : p ≠ q) (hf : (f (k'.tasks q)).core = d') :
    Both p q c d' k (k'.mod q f) := by
  have h' : Only q d' k' (k'.mod q f) := mod_only hf
  exact ⟨h.toFixed.trans h'.toFixed, (h'.rest hpq).trans h.left, h'.self,
    fun r hp hq => (h'.rest hq).trans (h.rest r hp hq)⟩

theorem shareSlice_both {child : TaskId} (h : Both p child c d k k') (hc : p ≠ child)
    (hp : k'.current = p) : Both p child (c.withSlice (c.timeSlice / 2))
      { d with timeSlice := u32 (c.timeSlice + 1) / 2, firstTimeSlice := true } k
      (shareSlice child k') := by
  subst hp
  have h1 : Both k'.current child c
      { d with timeSlice := u32 (c.timeSlice + 1) / 2, firstTimeSlice := true } k
      (k'.mod child fun t => { t with
        timeSlice := u32 ((k'.tasks k'.current).timeSlice + 1) / 2, firstTimeSlice := true }) :=
    h.mod_right hc (by rw [← h.left, ← h.right]; rfl)
  unfold shareSlice
  dsimp only
  refine Both.mod_right (h1.mod_left hc ?_) hc ?_
  · rw [← h1.left]
    rfl
  · rw [← (h1.mod_left hc rfl).right]
    rfl

theorem Both.congr (h : Both p q c d k k') (hc : c = c') (hd : d = d') : Both p q c' d' k k' := by
  subst hc hd
  exact h

theorem shareTrials_both {child : TaskId} (h : Both p child c d k k') (hc : p ≠ child)
    (hp : k'.current = p) (hpol : d.policy = c.policy) (hover : d.isOverdue = c.isOverdue) :
    Both p child c.forking { d with
      numberOfTrials :=
        if c.IsShort then (c.numberOfTrials - c.currentTrial + 1) / 2 else d.numberOfTrials
      currentTrial := if c.IsShort then 0 else d.currentTrial } k (shareTrials child k') := by
  subst hp
  have hcp : (k'.tasks k'.current).policy = c.policy := congrArg Core.policy h.left
  have hco : (k'.tasks k'.current).isOverdue = c.isOverdue := congrArg Core.isOverdue h.left
  unfold shareTrials
  dsimp only
  rw [hcp, Kernel.mod_tasks_ne hc, hco]
  by_cases hs : c.policy = .short
  · have h1 : Both k'.current child c d k
        (k'.mod child fun t => { t with policy := .short }) :=
      (h.mod_right hc rfl).congr rfl (by
        rw [hs] at hpol
        change { (k'.core child) with policy := .short } = d
        rw [h.right, ← hpol])
    rw [if_pos hs]
    by_cases ho : c.isOverdue = false
    · have hsh : c.IsShort := ⟨hs, ho⟩
      rw [if_pos ho]
      generalize (k'.mod child fun t => { t with policy := .short }) = m at h1
      have h2 : Both k'.current child c
          { d with numberOfTrials := (c.numberOfTrials - c.currentTrial + 1) / 2 } k
          (m.mod child fun t => { t with numberOfTrials :=
            ((k'.tasks k'.current).numberOfTrials - (k'.tasks k'.current).currentTrial + 1) / 2 }) :=
        h1.mod_right hc (by rw [← h.left, ← h1.right]; rfl)
      refine Both.congr ((h2.mod_left hc rfl).mod_right hc rfl) ?_ ?_
      · rw [Core.forking, if_pos hsh, ← h2.left]
        rfl
      · rw [if_pos hsh, if_pos hsh]
        refine Eq.trans ?_ (congrArg (fun d : Core => { d with currentTrial := 0, isOverdue := false })
          (h2.mod_left (f := fun t => { t with numberOfTrials := t.numberOfTrials / 2 }) hc
            rfl).right |>.trans ?_)
        · rfl
        · rw [← hover.trans ho]
    · have hsh : ¬ c.IsShort := fun hc => ho hc.2
      rw [if_neg ho]
      refine Both.congr (h1.mod_right hc rfl) ?_ ?_
      · rw [Core.forking, if_neg hsh]
      · rw [if_neg hsh, if_neg hsh]
        change { ((k'.mod child fun t => { t with policy := .short }).core child) with
          isOverdue := true } = d
        rw [h1.right, ← hover.trans (Bool.eq_true_of_not_eq_false ho)]
  · have hsh : ¬ c.IsShort := fun hc => hs hc.1
    rw [if_neg hs]
    refine Both.congr (h.mod_right hc rfl) ?_ ?_
    · rw [Core.forking, if_neg hsh]
    · rw [if_neg hsh, if_neg hsh]
      exact h.right

theorem forkSplit_both {child : TaskId} (pid : ℤ) (hc : k.current ≠ child) :
    Both k.current child
      ((k.core k.current).forking.withSlice ((k.core k.current).timeSlice / 2))
      (k.core k.current).forked k (forkSplit child (forkCopy child pid k)) := by
  have h0 : Both k.current child (k.core k.current)
      ((k.core k.current).off.withState .uninterruptible) k
      (forkCopy child pid k) := Only.both (mod_only rfl) hc
  have h1 := shareSlice_both h0 hc rfl
  exact (shareTrials_both h1 hc h1.curr rfl rfl).congr (Core.forking_withSlice _ _) rfl

/-- What a fork does to the parent and to the child. -/
structure Forked (HZ : ℕ) (π : Guard) (child : TaskId) (k k' : Kernel) : Prop where
  ptrs : k'.ptrs = k.ptrs
  curr : k'.rq.curr = k.rq.curr
  idle : k'.rq.idle = k.rq.idle
  pidhash : k'.pidhash = child :: k.pidhash
  parent : ReflTransGen (TaskStep HZ k.ptrs π) (k.core k.current) (k'.core k.current)
  share : (k.core k.current).policy ≠ .short →
    ShareStep HZ k.ptrs π (k.core k.current) (k'.core k.current)
  born : ∃ i, (k.core k.current).Fresh i ∧
    ReflTransGen (TaskStep HZ k.ptrs π) ((k.core k.current).forked.withPrio i) (k'.core child)
  rest : ∀ q, q ≠ k.current → q ≠ child → k'.core q = k.core q
  slice : (k.core k.current).timeSlice ≠ 0

theorem Both.step_left (h : Both p q c d k k') (hpq : p ≠ q) (h' : Only p c' k' k'') :
    Both p q c' d k k'' :=
  ⟨h.toFixed.trans h'.toFixed, h'.self, (h'.rest hpq.symm).trans h.right,
    fun r hp hq => (h'.rest hp).trans (h.rest r hp hq)⟩

/-- What is left to the parent of a fork: the half of its slice, or what a tick on a slice of
one makes of it. -/
inductive Core.SharedOut (HZ : ℕ) (ps : Ptrs) (c : Core) : Core → Prop
  | keeps (h : c.timeSlice / 2 ≠ 0) : SharedOut HZ ps c (c.forking.withSlice (c.timeSlice / 2))
  | ticks {d : Core} (h : c.timeSlice / 2 = 0) (hd : TickStep HZ ps (c.forking.withSlice 1) d) :
      SharedOut HZ ps c d

theorem forkTick_cases (h : forkTick HZ k = some k') :
    (k.tasks k.current).timeSlice = 0 ∧
        schedulerTick HZ (k.mod k.current fun t => { t with timeSlice := 1 }) = some k' ∨
      (k.tasks k.current).timeSlice ≠ 0 ∧ k' = k := by
  unfold forkTick at h
  split_ifs at h with h0
  · exact Or.inl ⟨h0, h⟩
  · cases h
    exact Or.inr ⟨h0, rfl⟩

theorem forkTick_shared {child : TaskId} (hc : k.current ≠ child)
    (h : Both k.current child (c.forking.withSlice (c.timeSlice / 2)) d k k')
    (hidle : (k'.core k'.rq.idle).policy ≠ .short) (ht : forkTick HZ k' = some k'') :
    ∃ c', c.SharedOut HZ k.ptrs c' ∧ Both k.current child c' d k k'' := by
  have hcur : k'.current = k.current := h.curr
  have hts : (k'.tasks k.current).timeSlice = c.timeSlice / 2 := congrArg Core.timeSlice h.left
  have hcases := forkTick_cases ht
  rw [hcur, hts] at hcases
  obtain ⟨h2, ht⟩ | ⟨h2, rfl⟩ := hcases
  · have h1 : Only k.current (c.forking.withSlice 1) k'
        (k'.mod k.current fun t => { t with timeSlice := 1 }) :=
      mod_only (congrArg (Core.withSlice 1) h.left)
    have hi : ¬ ((k'.mod k.current fun t => { t with timeSlice := 1 }).core k'.rq.idle).IsShort := by
      intro hs
      have hp := Kernel.mod_field (k := k') (p := k.current)
        (f := fun t => { t with timeSlice := 1 }) TaskStruct.policy (fun _ => rfl) k'.rq.idle
      exact hidle (hp.symm.trans hs.1)
    obtain ⟨c', hc', hb⟩ := schedulerTick_step ht hi
    rw [show (k'.mod k.current fun t => { t with timeSlice := 1 }).current = k.current from hcur,
      h1.self] at hc'
    rw [show (k'.mod k.current fun t => { t with timeSlice := 1 }).current = k.current from hcur]
      at hb
    rw [h1.ptrs, h.ptrs] at hc'
    exact ⟨c', .ticks h2 hc', (h.step_left hc h1).step_left hc hb⟩
  · exact ⟨_, .keeps h2, h⟩

theorem doFork_eq_some {child : TaskId} {pid : ℤ} {vfork cloneParent : Bool} :
    doFork HZ child pid vfork cloneParent k = some k' ↔ (k.tasks k.current).timeSlice ≠ 0 ∧
      ∃ m n, forkTick HZ (forkSplit child (forkCopy child pid k)) = some m ∧
        wakeUpForkedProcess HZ child (linkChild child cloneParent m) = some n ∧
        (if vfork then n else reschedTask n.current (recordSwitch .taskCreated n)) = k' := by
  unfold doFork
  by_cases h0 : (k.tasks k.current).timeSlice = 0
  · simp [h0]
  · rw [if_neg h0]
    simp only [Option.bind_eq_bind, Option.pure_def, Option.bind_eq_some_iff, Option.some.injEq]
    exact ⟨fun ⟨m, hm, n, hn, h⟩ => ⟨h0, m, n, hm, hn, h⟩,
      fun ⟨_, m, n, hm, hn, h⟩ => ⟨m, hm, n, hn, h⟩⟩

/-- Parent and child when the child is about to be linked. -/
theorem forkTick_parts {child : TaskId} {pid : ℤ} (hc : k.current ≠ child)
    (hic : k.rq.idle ≠ child) (hidle : (k.core k.rq.idle).policy ≠ .short)
    (h : forkTick HZ (forkSplit child (forkCopy child pid k)) = some k') :
    ∃ c, (k.core k.current).SharedOut HZ k.ptrs c ∧
      Both k.current child c (k.core k.current).forked k k' := by
  have h1 := forkSplit_both pid hc
  apply forkTick_shared hc h1 _ h
  rw [h1.idle]
  rcases eq_or_ne k.rq.idle k.current with he | he
  · rw [he, h1.left]
    exact fun hs => hidle (he ▸ (Core.forking_policy _).symm.trans hs)
  · rw [h1.rest _ he hic]
    exact hidle

theorem forkTick_forked {child : TaskId} {pid : ℤ} (hc : k.current ≠ child)
    (hic : k.rq.idle ≠ child) (hidle : (k.core k.rq.idle).policy ≠ .short)
    (h0 : (k.tasks k.current).timeSlice ≠ 0)
    (hg : (k.core k.current).IsShort → π.fork (k.core k.current))
    (htick : (k.core k.current).timeSlice / 2 = 0 →
      π.tick ((k.core k.current).forking.withSlice 1))
    (h : forkTick HZ (forkSplit child (forkCopy child pid k)) = some k') :
    ∃ c, ShareStep HZ k.ptrs π (k.core k.current) c ∧
      Both k.current child c (k.core k.current).forked k k' := by
  obtain ⟨c, hshare, hb⟩ := forkTick_parts hc hic hidle h
  refine ⟨c, ?_, hb⟩
  cases hshare with
  | keeps h2 => exact .fork _ hg h2
  | ticks h2 hd => exact .forkTick _ _ hg h2 h0 hd (htick h2)

theorem linkChild_core (child : TaskId) (cloneParent : Bool) (k : Kernel) :
    (linkChild child cloneParent k).core = k.core :=
  (mod_quiet (k := k) (p := child) (f := fun t => { t with
    pOpptr := if cloneParent then (k.tasks k.current).pOpptr else k.current }) fun _ => rfl).core

theorem doFork_forked {child : TaskId} {pid : ℤ} {vfork cloneParent : Bool}
    (h : doFork HZ child pid vfork cloneParent k = some k') (hc : k.current ≠ child)
    (hic : k.rq.idle ≠ child) (hidle : (k.core k.rq.idle).policy ≠ .short)
    (hg : (k.core k.current).IsShort → π.fork (k.core k.current))
    (htick : (k.core k.current).timeSlice / 2 = 0 →
      π.tick ((k.core k.current).forking.withSlice 1)) : Forked HZ π child k k' := by
  obtain ⟨h0, m, n, hm, hn, rfl⟩ := doFork_eq_some.mp h
  obtain ⟨c, hshare, h2⟩ := forkTick_forked hc hic hidle h0 hg htick hm
  have hq := linkChild_core child cloneParent m
  obtain ⟨l, n', r, i, hstart, hreq, hi, hfresh, hact⟩ := wakeUpForkedProcess_only hn
  obtain ⟨hsame, hpar⟩ := requeueParent_moves (π := π) hreq
  have hborn : Moves HZ π child r n := activateTask_moves hact
  have hcur : (linkChild child cloneParent m).current = k.current := h2.curr
  have hptr : (linkChild child cloneParent m).ptrs = k.ptrs := h2.ptrs
  rw [show l.current = k.current from hstart.curr.trans hcur] at hpar
  have hp := hpar.steps
  have hl : l.core k.current = c := by rw [hstart.rest hc, hq, h2.left]
  have hchild : n'.core child = (k.core k.current).forked.withState .running := by
    rw [hpar.rest _ hc.symm, hstart.self, hq, h2.right]
  rw [hl, hstart.ptrs, hptr, ← hfresh.rest hc, ← hborn.rest _ hc] at hp
  have hb := hborn.steps
  rw [hfresh.self, hchild, hfresh.ptrs, hpar.ptrs, hstart.ptrs, hptr] at hb
  rw [hchild] at hi
  have hlast : Quiet n (if vfork then n else
      reschedTask n.current (recordSwitch .taskCreated n)) := by
    split_ifs
    · exact Quiet.refl n
    · exact (recordSwitch_quiet _).trans (reschedTask_quiet _)
  have hfix := (((hstart.toFixed.trans hpar.toFixed).trans hfresh.toFixed).trans
    hborn.toFixed).trans hlast.toFixed
  refine ⟨hfix.ptrs.trans hptr, hfix.curr.trans hcur, hfix.idle.trans h2.idle,
    hfix.pidhash.trans (congrArg (child :: ·) h2.pidhash), ?_, ?_, ⟨i, hi, ?_⟩, ?_, h0⟩
  · rw [hlast.core]
    exact ReflTransGen.head (.share hshare) hp
  · intro hn
    have hn' : (l.core child).policy ≠ .short := by
      rw [hstart.self, hq, h2.right]
      exact hn
    rw [hlast.core, hborn.rest _ hc, hfresh.rest hc, hsame hn', hl]
    exact hshare
  · rw [hlast.core]
    exact ReflTransGen.head (.state _ .running) hb
  · intro q hq1 hq2
    rw [hlast.core, hborn.rest q hq2, hfresh.rest hq2, hpar.rest q hq1, hstart.rest hq2, hq,
      h2.rest q hq1 hq2]

/-! Exit and reaping. -/

/-- Children of the exiting task lose their first slice; the task itself becomes a zombie. -/
theorem exitNotify_core (HZ : ℕ) (π : Guard) (reaper childReaper : TaskId) (k : Kernel)
    (q : TaskId) : ∃ c, (c = k.core q ∨ ShareStep HZ k.ptrs π (k.core q) c) ∧
      (exitNotify reaper childReaper k).core q =
        if q = k.current then c.withState .zombie else c := by
  refine ⟨(forgetOriginalParent reaper childReaper k.current k).core q, ?_, ?_⟩
  · simp only [forgetOriginalParent, Kernel.core]
    split_ifs
    · exact Or.inr (.orphan _)
    · exact Or.inr (.orphan _)
    · exact Or.inl rfl
  · have h : Only k.current _ _ (exitNotify reaper childReaper k) := mod_only rfl
    split_ifs with hq
    · rw [hq, h.self]
      rfl
    · exact h.rest hq

theorem weighSleep_quiet (p : TaskId) (k : Kernel) : Quiet k (weighSleep p k) := by
  unfold weighSleep
  split_ifs
  · exact mod_quiet fun _ => rfl
  · exact Quiet.refl k

/-- The slice that a reaped child never used goes back to the parent. -/
theorem schedExit_only (HZ : ℕ) (p : TaskId) (k : Kernel) : Quiet k (schedExit HZ p k) ∨
    (k.core p).firstTimeSlice = true ∧ Only k.current ((k.core k.current).withSlice
      (reapedSlice HZ (k.core k.current).timeSlice (k.core p).timeSlice)) k
      (schedExit HZ p k) := by
  unfold schedExit returnSlice
  split_ifs with hf
  · exact Or.inr ⟨hf, Only.quiet (mod_only rfl) (weighSleep_quiet _ _)⟩
  · exact Or.inl (weighSleep_quiet p k)

/-- What `release_task` does to the running task, the only one it changes. -/
theorem releaseTask_core (HZ : ℕ) (π : Guard) (p : TaskId) (k : Kernel) :
    (releaseTask HZ p k).ptrs = k.ptrs ∧ (releaseTask HZ p k).rq.curr = k.rq.curr ∧
      (releaseTask HZ p k).rq.idle = k.rq.idle ∧ (releaseTask HZ p k).pidhash = k.pidhash.erase p ∧
      (∀ q ≠ k.current, (releaseTask HZ p k).core q = k.core q) ∧
      ((releaseTask HZ p k).core k.current = k.core k.current ∨ (π.reap (k.core k.current) (k.core p) →
        ShareStep HZ k.ptrs π (k.core k.current) ((releaseTask HZ p k).core k.current))) := by
  have hq : Quiet (schedExit HZ p { k with pidhash := k.pidhash.erase p }) (releaseTask HZ p k) :=
    mod_quiet (f := fun t => { t with pid := 0 }) fun _ => rfl
  rcases schedExit_only HZ p { k with pidhash := k.pidhash.erase p } with h | ⟨hf, h⟩
  · have h' := h.trans hq
    exact ⟨h'.ptrs, h'.curr, h'.idle, h'.pidhash, fun q _ => congrFun h'.core q,
      Or.inl (congrFun h'.core _)⟩
  · have h' := h.quiet hq
    refine ⟨h'.ptrs, h'.curr, h'.idle, h'.pidhash, fun q hq => h'.rest hq, Or.inr fun hr => ?_⟩
    have hs := h'.self
    change (releaseTask HZ p k).core k.current = _ at hs
    rw [hs]
    exact .reap (k.core k.current) (k.core p) hr hf

theorem initIdle_eq_some : initIdle k = some k' ↔
    ∃ m, deactivateTask k.current
      (k.modRq fun rq => { rq with curr := k.current, idle := k.current }) = some m ∧
      (m.mod k.current fun t =>
        { t with
          array := none, prio := maxPrio, state := .running, cpu := m.rq.cpu
          needResched := true }) = k' := by
  simp only [initIdle, Option.bind_eq_bind, Option.bind_eq_some_iff, Option.pure_def,
    Option.some.injEq]

theorem initIdle_core (h : initIdle k = some k') : k'.ptrs = k.ptrs ∧
    k'.rq.curr = k.rq.curr ∧ k'.rq.idle = k.rq.curr ∧ k'.pidhash = k.pidhash ∧
      (∀ q ≠ k.current, k'.core q = k.core q) ∧ (k.core k.current).runList ≠ none ∧
        k'.core k.current = { (k.core k.current).off with prio := maxPrio, state := .running } := by
  obtain ⟨m, hm, rfl⟩ := initIdle_eq_some.mp h
  obtain ⟨hl, h1⟩ := deactivateTask_only hm
  have h2 := h1.mod (f := fun t => { t with
    array := none, prio := maxPrio, state := .running, cpu := m.rq.cpu, needResched := true })
    (g := fun c => { c with array := none, prio := maxPrio, state := .running }) fun _ => rfl
  exact ⟨h2.ptrs, h2.curr, h2.idle, h2.pidhash, fun q hq => h2.rest hq, hl, h2.self⟩

end
end ShortSched
