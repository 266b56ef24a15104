import ShortSched.Population
import Mathlib.Algebra.BigOperators.Ring.Finset

/-! The accounting of `nr_uninterruptible`: by how much the counter is off, what each operation
does to that, and the runs along which it is exact. -/
namespace ShortSched
open Relation PartialRun

/-- The task exists, is in `TASK_UNINTERRUPTIBLE` and is on no runqueue. -/
def Kernel.Asleep (k : Kernel) (p : TaskId) : Prop :=
  k.Exists p ∧ (k.tasks p).state = .uninterruptible ∧ ¬ k.Linked p

/-- `nr_uninterruptible` is the number of tasks asleep. -/
def UninterruptibleExact (k : Kernel) : Prop :=
  ∃ s : Finset TaskId, (∀ p, p ∈ s ↔ k.Asleep p) ∧ k.rq.nrUninterruptible = s.card

def Core.Asleep (c : Core) : Prop := c.state = .uninterruptible ∧ c.runList = none

instance (c : Core) : Decidable c.Asleep := inferInstanceAs (Decidable (_ ∧ _))

/-- The steps that keep the counter exact. A sleeper is woken only with its array pointer
NULL; a task that a policy change or a fork requeues is not in `TASK_UNINTERRUPTIBLE`; and the
running task, once it is off its queue, neither enters nor leaves this state. -/
def Accountable (k : Kernel) : Op → Prop
  | .setCurrentState s => (k.core k.current).runList = none →
      (s = .uninterruptible ↔ (k.core k.current).state = .uninterruptible)
  | .tryToWakeUp p => (k.core p).Asleep → (k.core p).array = none
  | .wakeUpForkedProcess p => ¬ (k.core p).Asleep ∧
      ((k.core p).policy = .short → (k.core k.current).state ≠ .uninterruptible)
  | .doFork .. => (k.core k.current).policy = .short → (k.core k.current).state ≠ .uninterruptible
  | .exitNotify .. => ¬ (k.core k.current).Asleep
  | op => ∀ acc ∈ op.accepted k, (k.core acc.target).state = .uninterruptible →
      (k.core acc.target).array ≠ none → (k.core acc.target).policy = .short ∧ acc.policy = .short

instance Accountable.decidable (k : Kernel) : (op : Op) → Decidable (Accountable k op)
  | .setCurrentState s => inferInstanceAs (Decidable ((k.core k.current).runList = none →
      (s = .uninterruptible ↔ (k.core k.current).state = .uninterruptible)))
  | .tryToWakeUp p => inferInstanceAs (Decidable ((k.core p).Asleep → (k.core p).array = none))
  | .wakeUpForkedProcess p => inferInstanceAs (Decidable (¬ (k.core p).Asleep ∧
      ((k.core p).policy = .short → (k.core k.current).state ≠ .uninterruptible)))
  | .doFork .. => inferInstanceAs (Decidable ((k.core k.current).policy = .short →
      (k.core k.current).state ≠ .uninterruptible))
  | .exitNotify .. => inferInstanceAs (Decidable (¬ (k.core k.current).Asleep))
  | .sysSchedSetscheduler pid policy param => inferInstanceAs (Decidable (∀ acc ∈
      Op.accepted k (.sysSchedSetscheduler pid policy param), _ → _ → _))
  | .sysSchedSetparam pid param => inferInstanceAs (Decidable (∀ acc ∈
      Op.accepted k (.sysSchedSetparam pid param), _ → _ → _))
  | .advance _ | .setSigpending .. | .setCredentials .. | .schedule _ | .schedulerTick |
    .setUserNice .. | .sysNice _ | .sysSchedYield | .releaseTask _ | .initIdle =>
      isTrue fun _ h => by cases h

/-- What a task adds to the number of tasks asleep. -/
def Core.weight (c : Core) : ℤ := if c.Asleep then 1 else 0

def Kernel.existing (k : Kernel) : Finset TaskId := insert k.rq.idle k.pidhash.toFinset

/-- By how much the counter is off. -/
def Kernel.skew (k : Kernel) : ℤ :=
  k.rq.nrUninterruptible - ∑ p ∈ k.existing, (k.core p).weight

section
variable {HZ : ℕ} {ps : Ptrs} {c d : Core} {k k' m : Kernel} {op : Op} {p q : TaskId}
  {a : ArrayIdx} {n : ℤ}

theorem Kernel.mem_existing : p ∈ k.existing ↔ k.Exists p := by
  rw [Kernel.existing, Finset.mem_insert, List.mem_toFinset, Kernel.Exists, or_comm]

theorem Sound.linked_iff (h : Sound k) : k.Linked p ↔ (k.core p).runList ≠ none := by
  rw [h.shape.linked_iff]
  constructor
  · rintro ⟨a, i, hl⟩ hn
    cases hl.symm.trans hn
  · intro hn
    obtain ⟨l, hl⟩ := Option.ne_none_iff_exists'.mp hn
    have hc := h.here p l hl
    exact ⟨l.array, l.prio, by rw [← hc]; exact hl⟩

theorem Sound.asleep_iff (h : Sound k) : k.Asleep p ↔ k.Exists p ∧ (k.core p).Asleep := by
  rw [Kernel.Asleep, h.linked_iff, not_not]
  rfl

/-- The counter is exact when it is off by nothing. -/
theorem Sound.exact_iff (h : Sound k) : UninterruptibleExact k ↔ k.skew = 0 := by
  have hcard : ∑ p ∈ k.existing, (k.core p).weight =
      (k.existing.filter fun p => (k.core p).Asleep).card := by
    exact Finset.sum_boole _ _
  have hmem : ∀ p, p ∈ k.existing.filter (fun p => (k.core p).Asleep) ↔ k.Asleep p := by
    intro p
    rw [Finset.mem_filter, Kernel.mem_existing, h.asleep_iff]
  rw [Kernel.skew, sub_eq_zero, hcard]
  constructor
  · rintro ⟨s, hs, hn⟩
    rw [hn, show s = k.existing.filter fun p => (k.core p).Asleep from
      Finset.ext fun p => (hs p).trans (hmem p).symm]
  · intro hn
    exact ⟨_, hmem, hn⟩

theorem Core.weight_linked (h : c.runList ≠ none) : c.weight = 0 :=
  if_neg fun hc => h hc.2

theorem Core.weight_free (h : c.runList = none) :
    c.weight = if c.state = .uninterruptible then 1 else 0 :=
  if_congr (and_iff_left h) rfl rfl

theorem Core.weight_awake (h : c.state ≠ .uninterruptible) : c.weight = 0 :=
  if_neg fun hc => h hc.1

theorem Core.weight_of_state {s : TaskState} (h : c.state = s) (hs : s ≠ .uninterruptible) :
    c.weight = 0 :=
  Core.weight_awake (h ▸ hs)

theorem Core.weight_congr (hs : d.state = c.state) (hl : d.runList = none ↔ c.runList = none) :
    d.weight = c.weight :=
  if_congr (and_congr (by rw [hs]) hl) rfl rfl

theorem Core.weight_eq_zero : c.weight = 0 ↔ ¬ c.Asleep := by
  unfold Core.weight
  split_ifs with h <;> simp [h]

theorem Core.weight_off_eq_zero : c.off.weight = 0 ↔ c.state ≠ .uninterruptible := by
  rw [Core.weight_eq_zero]
  exact not_congr (and_iff_left rfl)

theorem Core.weight_withState {s : TaskState} : (c.withState s).weight = c.weight ↔
    (c.runList = none → (s = .uninterruptible ↔ c.state = .uninterruptible)) := by
  by_cases hl : c.runList = none
  · rw [Core.weight_free hl, Core.weight_free (c := c.withState s) hl]
    change (if s = .uninterruptible then (1 : ℤ) else 0) = _ ↔ _
    split_ifs with h1 h2 h2 <;> simp [hl, h1, h2]
  · rw [Core.weight_linked hl, Core.weight_linked (c := c.withState s) hl]
    exact iff_of_true rfl fun h => absurd h hl

theorem Core.weight_nonneg (c : Core) : 0 ≤ c.weight := by
  unfold Core.weight
  split_ifs <;> decide

theorem TickStep.same (h : TickStep HZ ps c d) :
    d.state = c.state ∧ (d.runList = none ↔ c.runList = none) := by
  cases h with
  | trial _ _ hl => exact ⟨rfl, iff_of_false (Option.some_ne_none _) hl⟩
  | overdue _ _ hl => exact ⟨rfl, iff_of_false (Option.some_ne_none _) hl⟩
  | rrSlice _ _ hl => exact ⟨rfl, iff_of_false (Option.some_ne_none _) hl⟩
  | otherSlice _ _ _ _ _ hl => exact ⟨rfl, iff_of_false (Option.some_ne_none _) hl⟩
  | _ => exact ⟨rfl, Iff.rfl⟩

theorem ShareStep.same {π : Guard} (h : ShareStep HZ ps π c d) :
    d.state = c.state ∧ (d.runList = none ↔ c.runList = none) := by
  have hf : ∀ n, (c.forking.withSlice n).state = c.state ∧
      (c.forking.withSlice n).runList = c.runList := by
    intro n
    unfold Core.forking
    split_ifs <;> exact ⟨rfl, rfl⟩
  cases h with
  | fork => exact ⟨(hf _).1, by rw [(hf _).2]⟩
  | forkTick _ _ ht h0 hc =>
    obtain ⟨h1, h2⟩ := hc.same
    exact ⟨h1.trans (hf 1).1, by rw [h2, (hf 1).2]⟩
  | reap => exact ⟨rfl, Iff.rfl⟩
  | orphan => exact ⟨rfl, Iff.rfl⟩

theorem TickStep.weight (h : TickStep HZ ps c d) : d.weight = c.weight :=
  Core.weight_congr h.same.1 h.same.2

theorem ShareStep.weight {π : Guard} (h : ShareStep HZ ps π c d) : d.weight = c.weight :=
  Core.weight_congr h.same.1 h.same.2

/-! How a change of one task moves the skew. -/

theorem skew_congr (hn : k'.rq.nrUninterruptible = k.rq.nrUninterruptible)
    (hi : k'.rq.idle = k.rq.idle) (hh : k'.pidhash = k.pidhash)
    (hw : ∀ q, (k'.core q).weight = (k.core q).weight) : k'.skew = k.skew := by
  rw [Kernel.skew, Kernel.skew, hn, Kernel.existing, Kernel.existing, hi, hh]
  simp only [hw]

theorem Quiet.skew (h : Quiet k k') (hn : k'.rq.nrUninterruptible = k.rq.nrUninterruptible) :
    k'.skew = k.skew :=
  skew_congr hn h.idle h.pidhash fun q => by rw [h.core]

theorem Only.skew (h : Only p c k k') (hp : k.Exists p)
    (hn : k'.rq.nrUninterruptible = k.rq.nrUninterruptible + n) :
    k'.skew = k.skew + n + (k.core p).weight - c.weight := by
  have hmem := Kernel.mem_existing.mpr hp
  have hset : k'.existing = k.existing := by
    rw [Kernel.existing, Kernel.existing, h.idle, h.pidhash]
  have hrest : ∑ q ∈ k.existing.erase p, (k'.core q).weight =
      ∑ q ∈ k.existing.erase p, (k.core q).weight :=
    Finset.sum_congr rfl fun q hq => by rw [h.rest (Finset.ne_of_mem_erase hq)]
  have h1 := Finset.sum_erase_add k.existing (fun q => (k.core q).weight) hmem
  have h2 := Finset.sum_erase_add k.existing (fun q => (k'.core q).weight) hmem
  rw [hrest, h.self] at h2
  rw [Kernel.skew, Kernel.skew, hn, hset]
  omega

/-- A change of one task that keeps what it counts for. -/
theorem Only.skew_same (h : Only p c k k') (hw : c.weight = (k.core p).weight)
    (hn : k'.rq.nrUninterruptible = k.rq.nrUninterruptible) : k'.skew = k.skew :=
  skew_congr hn h.idle h.pidhash fun q => by
    by_cases hq : q = p
    · rw [hq, h.self, hw]
    · rw [h.rest hq]

/-! What the functions of the scheduler do to the counter itself. -/

theorem listDel_count (h : listDel p k = some k') :
    k'.rq.nrUninterruptible = k.rq.nrUninterruptible := by
  obtain ⟨l, -, -, rfl⟩ := listDel_eq_some.mp h
  rfl

theorem listAdd_count {i : ℤ} {f : List TaskId → List TaskId} (h : listAdd p a i f k = some k') :
    k'.rq.nrUninterruptible = k.rq.nrUninterruptible := by
  obtain ⟨-, rfl⟩ := listAdd_eq_some.mp h
  rfl

theorem dequeueTask_count (h : dequeueTask p a k = some k') :
    k'.rq.nrUninterruptible = k.rq.nrUninterruptible := by
  simp only [dequeueTask, Option.bind_eq_bind, Option.bind_eq_some_iff] at h
  obtain ⟨m, hm, h⟩ := h
  have hd := listDel_count hm
  split_ifs at h <;> cases h <;> exact hd

theorem enqueueTask_count (h : enqueueTask p a k = some k') :
    k'.rq.nrUninterruptible = k.rq.nrUninterruptible := by
  obtain ⟨-, rfl⟩ := enqueueTask_eq_some.mp h
  rfl

theorem activateTask_count (h : activateTask HZ p k = some k') :
    k'.rq.nrUninterruptible = k.rq.nrUninterruptible := by
  obtain ⟨-, rfl⟩ := activateTask_eq_some.mp h
  rfl

/-- `deactivate_task` counts the task when it goes to sleep. -/
theorem deactivateTask_count (h : deactivateTask p k = some k') :
    k'.rq.nrUninterruptible = k.rq.nrUninterruptible + (k.core p).off.weight := by
  rw [deactivateTask_eq, Option.map_eq_some_iff] at h
  obtain ⟨m, hm, rfl⟩ := h
  obtain ⟨a, -, hm⟩ := Option.bind_eq_some_iff.mp hm
  rw [Kernel.mod_rq, dequeueTask_count hm, Core.weight_free rfl]
  rfl

theorem becomeOverdue_count (h : becomeOverdue p k = some k') :
    k'.rq.nrUninterruptible = k.rq.nrUninterruptible := by
  obtain ⟨m, hm, n, hn, rfl⟩ := becomeOverdue_eq_some.mp h
  exact (enqueueTask_count hn :).trans (dequeueTask_count hm :)

theorem tickShort_count (h : tickShort HZ p k = some k') :
    k'.rq.nrUninterruptible = k.rq.nrUninterruptible := by
  cases tickShort_cases h with
  | goesOn => rfl
  | trialsOver m _ _ hm => exact (becomeOverdue_count hm :)
  | noTime m _ _ hm => exact (becomeOverdue_count hm :)
  | nextTrial m n _ _ _ hdown hup =>
    exact (enqueueTask_count hup :).trans (dequeueTask_count hdown :)

theorem tickRt_count (h : tickRt HZ p k = some k') :
    k'.rq.nrUninterruptible = k.rq.nrUninterruptible := by
  cases tickRt_cases h with
  | fifo _ h => rw [h]
  | goesOn _ _ h => rw [h]; rfl
  | newSlice m _ _ hdown hup =>
    exact (enqueueTask_count hup :).trans (dequeueTask_count hdown :)

theorem stampExpired_count (k : Kernel) :
    (stampExpired k).rq.nrUninterruptible = k.rq.nrUninterruptible := by
  unfold stampExpired
  split_ifs <;> rfl

theorem tickOther_count (h : tickOther HZ p k = some k') :
    k'.rq.nrUninterruptible = k.rq.nrUninterruptible := by
  cases tickOther_cases h with
  | goesOn _ h => rw [h]; rfl
  | expires m _ hdown hup =>
    exact (enqueueTask_count hup).trans ((stampExpired_count _).trans (dequeueTask_count hdown :))
  | stays m _ hdown hup => exact (enqueueTask_count hup).trans (dequeueTask_count hdown :)

theorem schedulerTick_count (h : schedulerTick HZ k = some k') :
    k'.rq.nrUninterruptible = k.rq.nrUninterruptible := by
  simp only [schedulerTick] at h
  split_ifs at h
  · cases h
    rfl
  · exact tickShort_count h
  · cases h
    rfl
  · cases h
    rfl
  · exact tickRt_count h
  · exact tickOther_count h

theorem setUserNice_count {nice : ℤ} (h : setUserNice p nice k = some k') :
    k'.rq.nrUninterruptible = k.rq.nrUninterruptible := by
  cases setUserNice_cases h with
  | requeued a m n _ _ _ hdown hup =>
    have h1 := (enqueueTask_count hup :).trans (dequeueTask_count hdown :)
    split_ifs <;> exact h1
  | _ => rfl

theorem yieldMove_count (h : yieldMove k = some k') :
    k'.rq.nrUninterruptible = k.rq.nrUninterruptible := by
  simp only [yieldMove, Option.bind_eq_bind, Option.bind_eq_some_iff] at h
  obtain ⟨a, -, m, hm, h⟩ := h
  have hd := listDel_count hm
  split_ifs at h
  · exact (listAdd_count h).trans hd
  · exact (listAdd_count h).trans hd
  · obtain ⟨n, hn, he⟩ := Option.bind_eq_some_iff.mp h
    cases he
    exact (listAdd_count hn :).trans hd

theorem pickNext_count {next : TaskId} (h : pickNext k = some (next, k')) :
    k'.rq.nrUninterruptible = k.rq.nrUninterruptible := by
  unfold pickNext at h
  split_ifs at h
  · cases h
    rfl
  · simp only [Option.bind_eq_bind, Option.bind_eq_some_iff, Option.pure_def,
      Option.some.injEq, Prod.mk.injEq] at h
    obtain ⟨-, -, -, -, -, rfl⟩ := h
    unfold swapArrays
    split_ifs <;> rfl

theorem switchTasks_count (prev next : TaskId) (k : Kernel) :
    (switchTasks prev next k).rq.nrUninterruptible = k.rq.nrUninterruptible := by
  unfold switchTasks
  dsimp only
  split_ifs <;> rfl

/-! What they do to the skew. -/

/-- A task that is deactivated is counted exactly when it goes to sleep. -/
theorem deactivateTask_skew (h : deactivateTask p k = some k') (hp : k.Exists p) :
    k'.skew = k.skew := by
  obtain ⟨hl, h1⟩ := deactivateTask_only h
  have hs := h1.skew hp (deactivateTask_count h)
  rw [Core.weight_linked hl] at hs
  omega

/-- `activate_task` leaves a sleeper counted. -/
theorem activateTask_skew (h : activateTask HZ p k = some k') (hp : k.Exists p) :
    k'.skew = k.skew + (k.core p).weight := by
  obtain ⟨-, i, -, h1⟩ := activateTask_only h
  have hs := h1.skew hp ((activateTask_count h).trans (add_zero _).symm)
  rw [Core.weight_linked (c := Core.on _ _ _ _) (Option.some_ne_none _)] at hs
  omega

theorem schedulePrev_skew (h : schedulePrev p k = some k') (hp : k.Exists p) :
    k'.skew = k.skew := by
  have hq : Quiet k (stampSleep p k) := mod_quiet fun _ => rfl
  have h0 := hq.skew rfl
  obtain ⟨-, rfl⟩ | ⟨hs, rfl⟩ | ⟨-, hd⟩ := schedulePrev_cases h
  · exact h0
  · have h1 := mod_only (p := p) (k := stampSleep p k)
      (f := fun t => { t with state := .running }) rfl
    refine (h1.skew_same ?_ rfl).trans h0
    have ha : ((stampSleep p k).core p).state = .interruptible := by
      rw [hq.core]
      exact hs
    rw [Core.weight_of_state ha (by decide)]
    exact Core.weight_of_state (s := .running) rfl (by decide)
  · exact (deactivateTask_skew hd (hq.exists_iff.mpr hp)).trans h0

theorem schedule_skew (h : schedule k = some k') (hk : k.Exists k.current) :
    k'.skew = k.skew := by
  obtain ⟨m, hm, hsw, -⟩ := schedule_switch h
  obtain ⟨m', hm', ⟨next, n⟩, hn, rfl⟩ := schedule_eq_some.mp h
  cases hm.symm.trans hm'
  rw [← schedulePrev_skew hm hk]
  exact skew_congr ((switchTasks_count _ _ _).trans (pickNext_count hn)) hsw.idle hsw.pidhash
    fun q => by rw [hsw.core]

theorem schedulerTick_skew (h : schedulerTick HZ k = some k')
    (hi : ¬ (k.core k.rq.idle).IsShort) : k'.skew = k.skew := by
  obtain ⟨c, hc, h1⟩ := schedulerTick_step h hi
  exact h1.skew_same hc.weight (schedulerTick_count h)

theorem setUserNice_skew {nice : ℤ} (h : setUserNice p nice k = some k') : k'.skew = k.skew := by
  obtain ⟨c, h1, hl, hs, -⟩ := setUserNice_only h
  exact h1.skew_same (Core.weight_congr hs hl) (setUserNice_count h)

theorem yieldMove_skew (h : yieldMove k = some k') : k'.skew = k.skew := by
  obtain ⟨hl, a, i, -, -, -, -, h1⟩ := yieldMove_only h
  apply h1.skew_same _ (yieldMove_count h)
  rw [Core.weight_linked hl]
  exact Core.weight_linked (Option.some_ne_none _)

/-- A wake-up takes the sleeper out of the count, unless its array pointer is set. -/
theorem tryToWakeUp_skew (h : tryToWakeUp HZ p k = some k') (hp : k.Exists p) :
    k'.skew = k.skew + if (k.core p).array = none then 0 else (k.core p).weight := by
  rcases tryToWakeUp_only h with ⟨ha, h1⟩ | ⟨ha, hl, i, -, h1⟩
  · rw [if_neg ha]
    have hn : k'.rq.nrUninterruptible = k.rq.nrUninterruptible + 0 := by
      obtain ⟨m, hm, rfl⟩ := Option.map_eq_some_iff.mp h
      rw [if_neg (show (k.tasks p).array ≠ none from ha)] at hm
      cases hm
      exact (add_zero _).symm
    have hs := h1.skew hp hn
    rw [Core.weight_of_state (s := .running) (c := (k.core p).withState .running) rfl (by decide)]
      at hs
    omega
  · rw [if_pos ha]
    have hn : k'.rq.nrUninterruptible = k.rq.nrUninterruptible + -(k.core p).weight := by
      obtain ⟨m, hm, rfl⟩ := Option.map_eq_some_iff.mp h
      rw [if_pos (show (k.tasks p).array = none from ha)] at hm
      simp only [wakeQueue, Option.bind_eq_bind, Option.bind_eq_some_iff] at hm
      obtain ⟨n, hn, hm⟩ := hm
      have hmn : m.rq.nrUninterruptible = n.rq.nrUninterruptible := by
        split_ifs at hm <;> cases hm <;> rfl
      rw [Kernel.mod_rq, hmn, activateTask_count hn, Core.weight_free hl]
      by_cases hs : (k.tasks p).state = .uninterruptible
      · rw [if_pos hs, if_pos (show (k.core p).state = .uninterruptible from hs)]
        rfl
      · rw [if_neg hs, if_neg (show (k.core p).state ≠ .uninterruptible from hs)]
        exact (add_zero _).symm
    have hs := h1.skew hp hn
    have hw : (((k.core p).on k.ptrs ((k.core p).wakeArray k.ptrs) i).withState .running).weight =
        0 := Core.weight_linked (Option.some_ne_none _)
    omega

/-- A parent that is requeued in `TASK_UNINTERRUPTIBLE` is counted for good. -/
theorem requeueParent_skew (h : requeueParent HZ p k = some k') (hk : k.Exists k.current) :
    k'.skew = k.skew +
      if (k.core p).policy = .short then (k.core k.current).off.weight else 0 := by
  obtain ⟨hs, m, hm, -, h⟩ | ⟨hs, rfl⟩ := requeueParent_cases h
  · obtain ⟨-, hd⟩ := deactivateTask_only hm
    rw [activateTask_skew h (hd.exists_iff.mpr hk), hd.self, deactivateTask_skew hm hk, if_pos hs]
  · rw [if_neg hs, add_zero]

theorem forkPenalty_skew (HZ : ℕ) (p : TaskId) (k : Kernel) :
    (forkPenalty HZ p k).skew = k.skew := by
  obtain ⟨i, -, h1⟩ := forkPenalty_only HZ p k
  apply h1.skew_same rfl
  unfold forkPenalty
  split_ifs <;> rfl

/-- The new child is not counted, so that a task that was is counted for good. -/
theorem wakeUpForkedProcess_skew (h : wakeUpForkedProcess HZ p k = some k') (hp : k.Exists p)
    (hk : k.Exists k.current) (hc : p ≠ k.current) :
    k'.skew = k.skew + (k.core p).weight +
      if (k.core p).policy = .short then (k.core k.current).off.weight else 0 := by
  obtain ⟨m, hm, h⟩ := wakeUpForkedProcess_eq_some.mp h
  have h1 : Only p ((k.core p).withState .running) k
      (k.mod p fun t => { t with state := .running }) := mod_only rfl
  have hs1 := h1.skew hp (add_zero _).symm
  rw [Core.weight_of_state (s := .running) (c := (k.core p).withState .running) rfl (by decide)]
    at hs1
  have hs2 := requeueParent_skew hm (h1.exists_iff.mpr hk)
  have hm' := requeueParent_moves (π := Guard.free) hm
  have hcur : (k.mod p fun t => { t with state := .running }).current = k.current := h1.curr
  rw [hcur] at hm'
  rw [hcur, h1.self, h1.rest hc.symm] at hs2
  obtain ⟨i, -, h2⟩ := forkPenalty_only HZ p m
  have h3 : Quiet (forkPenalty HZ p m) ((forkPenalty HZ p m).mod p fun t =>
      { t with cpu := (forkPenalty HZ p m).rq.cpu }) := mod_quiet fun _ => rfl
  have hex := h3.exists_iff.mpr (h2.exists_iff.mpr
    (hm'.2.exists_iff.mpr (h1.exists_iff.mpr hp)))
  have hs3 := activateTask_skew h hex
  rw [h3.skew rfl, forkPenalty_skew, h3.core, h2.self, hm'.2.rest p hc, h1.self,
    Core.weight_of_state (c := Core.withPrio _ _) (s := .running) rfl (by decide)] at hs3
  change k'.skew = k.skew + (k.core p).weight +
    if ((k.core p).withState .running).policy = .short then (k.core k.current).off.weight else 0
  omega

/-- A task that is requeued with its new policy stays counted. -/
theorem assigned_skew {acc : Accepted} {queued : Bool}
    (h : (if queued then activateTask HZ acc.target (k.mod acc.target (assignPolicy acc))
      else some (k.mod acc.target (assignPolicy acc))) = some k') (ht : k.Exists acc.target) :
    Fixed k k' ∧ k'.skew = k.skew + if queued then (k.core acc.target).weight else 0 := by
  have h1 : Only acc.target ((k.core acc.target).assigned acc) k
      (k.mod acc.target (assignPolicy acc)) := mod_only rfl
  have hw : ((k.core acc.target).assigned acc).weight = (k.core acc.target).weight := rfl
  have hs := h1.skew_same hw rfl
  split_ifs at h ⊢
  · obtain ⟨-, i, -, h2⟩ := activateTask_only h
    constructor
    · exact h1.toFixed.trans h2.toFixed
    · rw [activateTask_skew h (h1.exists_iff.mpr ht), h1.self, hw, hs]
  · cases h
    exact ⟨h1.toFixed, hs.trans (add_zero _).symm⟩

/-- The task whose policy changes is counted for good when it is requeued in
`TASK_UNINTERRUPTIBLE`. -/
theorem setschedulerApply_skew {acc : Accepted} {pid policy : ℤ} {param : Option UserParam}
    (h : setschedulerApply HZ acc k = some k') (hp : Passed k pid policy param acc)
    (ht : k.Exists acc.target) (hk : k.Exists k.current) :
    k'.skew = k.skew + if (k.core acc.target).array.isSome ∧
      ¬ ((k.core acc.target).policy = .short ∧ acc.policy = .short) then
        (k.core acc.target).off.weight else 0 := by
  obtain ⟨m, hm, h⟩ := setschedulerApply_eq_some.mp h
  obtain ⟨h1, -⟩ := leaveQueue_only hm
  have htm : m.Exists acc.target := h1.exists_iff.mpr ht
  have hcore : (m.core acc.target).policy = (k.core acc.target).policy := by
    rw [h1.self, Core.left_policy]
  have hleft : m.skew = k.skew := by
    split_ifs at hm
    · exact deactivateTask_skew hm ht
    · cases hm
      rfl
  have hfree : (if (k.tasks acc.target).array.isSome then (m.core acc.target).weight else 0) =
      if (k.core acc.target).array.isSome then (k.core acc.target).off.weight else 0 := by
    change _ = if (k.tasks acc.target).array.isSome then (k.core acc.target).off.weight else 0
    rw [h1.self, Core.left]
    change (if (k.tasks acc.target).array.isSome then Core.weight (if
      (k.tasks acc.target).array.isSome then _ else _) else 0) = _
    split_ifs <;> rfl
  rw [show (m.tasks acc.target).policy = (k.core acc.target).policy from hcore] at h
  split_ifs at h with hbecomes hstays
  · obtain ⟨n, hn, h⟩ := installPolicy_eq_some.mp h
    have h2 : Only acc.target ((m.core acc.target).entered HZ m.ptrs acc.user) m
        (m.mod acc.target (becomeShort HZ acc.user m.rq.shortQ)) := mod_only rfl
    have hw : ((m.core acc.target).entered HZ m.ptrs acc.user).weight =
        (m.core acc.target).weight := rfl
    obtain ⟨hf, hs⟩ := assigned_skew hn (h2.exists_iff.mpr htm)
    rw [h2.skew_same hw rfl, h2.self, hw, hleft, hfree] at hs
    rw [if_pos hbecomes.2] at h
    have hq : Quiet n (reschedTask n.current (recordSwitch .highierTaskActive n)) :=
      (recordSwitch_quiet _).trans (reschedTask_quiet _)
    have hk' := Fixed.trans (h1.toFixed.trans (h2.toFixed.trans hf)) hq.toFixed
    have hcur := hk'.exists_iff.mpr hk
    rw [show k.current = _ from hk'.curr.symm] at hcur
    rw [schedule_skew h hcur, hq.skew rfl, hs]
    have hne : ¬ ((k.core acc.target).policy = .short ∧ acc.policy = .short) := by
      rw [hbecomes.1]
      intro ha
      cases ha.1
    simp only [hne, not_false_eq_true, and_true]
  · cases h
    have h2 := mod_only (p := acc.target) (k := m)
      (f := fun t => { t with requestedTime := acc.user.deref .requestedTimeStore }) rfl
    rw [if_neg fun hc => hc.2 hstays, add_zero, ← hleft]
    exact h2.skew_same rfl rfl
  · obtain ⟨n, hn, h⟩ := installPolicy_eq_some.mp h
    rw [if_neg (hp.not_short hbecomes hstays)] at h
    cases h
    have hs := (assigned_skew hn htm).2
    rw [hleft, hfree] at hs
    rw [hs]
    simp only [hstays, not_false_eq_true, and_true]

theorem setscheduler_skew {pid policy r : ℤ} {param : Option UserParam}
    (h : setscheduler HZ pid policy param k = some (r, k')) (hk : Populated k)
    (ho : op.accepted k = (setschedulerCheck k pid policy param).toOption) :
    k'.skew = k.skew ↔ ∀ acc ∈ op.accepted k, (k.core acc.target).state = .uninterruptible →
      (k.core acc.target).array ≠ none →
      (k.core acc.target).policy = .short ∧ acc.policy = .short := by
  obtain ⟨e, he, -, rfl⟩ | ⟨acc, hacc, -, hm⟩ := setscheduler_cases h
  · rw [ho, he]
    exact iff_of_true rfl fun _ h => by cases h
  · have hp := setschedulerCheck_ok hacc
    have ht : k.Exists acc.target := by
      have hf := hp.target
      unfold findProcessByPid at hf
      split_ifs at hf
      · exact Option.some.inj hf ▸ hk.current
      · exact Or.inl (List.mem_of_find?_eq_some hf)
    rw [setschedulerApply_skew hm hp ht hk.current, add_eq_left, ite_eq_right_iff,
      Core.weight_off_eq_zero, ho, hacc]
    change _ ↔ ∀ acc' ∈ some acc, _
    simp only [Option.mem_some_iff, forall_eq', ← Option.isSome_iff_ne_none]
    tauto

theorem forkTick_count {child : TaskId} {pid : ℤ}
    (h : forkTick HZ (forkSplit child (forkCopy child pid k)) = some k') :
    k'.rq.nrUninterruptible = k.rq.nrUninterruptible := by
  have hs : (forkSplit child (forkCopy child pid k)).rq.nrUninterruptible =
      k.rq.nrUninterruptible := by rw [forkSplit_rq]
  obtain ⟨-, h⟩ | ⟨-, rfl⟩ := forkTick_cases h
  · exact (schedulerTick_count h :).trans hs
  · exact hs

/-- A fork by a SHORT task in `TASK_UNINTERRUPTIBLE` counts the parent for good. -/
theorem doFork_skew {child : TaskId} {pid : ℤ} {vfork cloneParent : Bool}
    (h : doFork HZ child pid vfork cloneParent k = some k') (hk : Populated k) (hi : IdleOk k)
    (he : Enabled k (.doFork child pid vfork cloneParent)) :
    k'.skew = k.skew +
      if (k.core k.current).policy = .short then (k.core k.current).off.weight else 0 := by
  obtain ⟨hfresh, hidle, hcur, -⟩ := he
  obtain ⟨h0, m, n, hm, hn, rfl⟩ := doFork_eq_some.mp h
  obtain ⟨c, hc, hb⟩ := forkTick_forked (π := Guard.free) hcur.symm hidle.symm hi.not_short h0
    (fun _ => trivial) (fun _ => trivial) hm
  have hcore := linkChild_core child cloneParent m
  have hset : (linkChild child cloneParent m).existing = insert child k.existing := by
    change insert m.rq.idle (child :: m.pidhash).toFinset = _
    rw [hb.idle, hb.pidhash, List.toFinset_cons, Finset.insert_comm]
    rfl
  have hnot : child ∉ k.existing := by
    rw [Kernel.mem_existing]
    exact fun hex => hex.elim hfresh hidle
  have hchild : (k.core k.current).forked.weight = 1 := if_pos ⟨rfl, rfl⟩
  have hlinked : (linkChild child cloneParent m).skew = k.skew - 1 := by
    have hsum : ∑ p ∈ k.existing, (m.core p).weight = ∑ p ∈ k.existing, (k.core p).weight := by
      apply Finset.sum_congr rfl
      intro q hq
      have hqc : q ≠ child := fun he => hnot (he ▸ hq)
      by_cases hqp : q = k.current
      · rw [hqp, hb.left, hc.weight]
      · rw [hb.rest q hqp hqc]
    have hn' : (linkChild child cloneParent m).rq.nrUninterruptible = k.rq.nrUninterruptible :=
      (forkTick_count hm :)
    rw [Kernel.skew, Kernel.skew, hset, hcore, Finset.sum_insert hnot, hsum, hb.right, hchild, hn']
    omega
  have hcm : (linkChild child cloneParent m).current = k.current := hb.curr
  have hpar : (linkChild child cloneParent m).Exists k.current := by
    rw [← Kernel.mem_existing, hset]
    exact Finset.mem_insert_of_mem (Kernel.mem_existing.mpr hk.current)
  have hw := wakeUpForkedProcess_skew hn (Or.inl List.mem_cons_self) (by rwa [hcm])
    (by rwa [hcm])
  rw [hlinked, hcm, hcore, hb.right, hb.left, hchild] at hw
  have hoff : c.off.weight = (k.core k.current).off.weight :=
    Core.weight_congr hc.same.1 Iff.rfl
  rw [hoff, sub_add_cancel] at hw
  cases vfork with
  | true => exact hw
  | false => exact (Quiet.skew ((recordSwitch_quiet _).trans (reschedTask_quiet _)) rfl).trans hw

theorem exitNotify_skew (reaper childReaper : TaskId) (hk : k.Exists k.current) :
    (exitNotify reaper childReaper k).skew = k.skew + (k.core k.current).weight := by
  set m := forgetOriginalParent reaper childReaper k.current k with hm
  have hw : ∀ q, (m.core q).weight = (k.core q).weight := by
    intro q
    simp only [hm, forgetOriginalParent, Kernel.core]
    split_ifs <;> rfl
  have hf : m.skew = k.skew := skew_congr (k := k) rfl rfl rfl hw
  have h1 : Only k.current ((m.core k.current).withState .zombie) m
      (exitNotify reaper childReaper k) := mod_only rfl
  have hz : ((m.core k.current).withState .zombie).weight = 0 :=
    Core.weight_of_state (s := .zombie) rfl (by decide)
  have hs := h1.skew (n := 0) hk (add_zero m.rq.nrUninterruptible).symm
  rw [hf, hw, hz] at hs
  omega

theorem releaseTask_skew (hp : (k.tasks p).state = .zombie) :
    (releaseTask HZ p k).skew = k.skew := by
  set m : Kernel := { k with pidhash := k.pidhash.erase p } with hm
  have hzero : (k.core p).weight = 0 := Core.weight_of_state hp (by decide)
  have h0 : m.skew = k.skew := by
    have hsub : m.existing ⊆ k.existing := by
      intro q hq
      rw [Kernel.mem_existing] at hq ⊢
      exact hq.imp_left List.mem_of_mem_erase
    have hsum := Finset.sum_subset hsub (f := fun q => (k.core q).weight) fun q hq hn => by
      have hqp : q = p := by
        by_contra hqp
        rw [Kernel.mem_existing] at hq hn
        exact hn (hq.imp_left (List.mem_erase_of_ne hqp).mpr)
      rw [hqp, hzero]
    rw [Kernel.skew, Kernel.skew, ← hsum]
    rfl
  have hcount : (schedExit HZ p m).rq.nrUninterruptible = m.rq.nrUninterruptible := by
    unfold schedExit weighSleep returnSlice
    split_ifs <;> rfl
  have h1 : (schedExit HZ p m).skew = m.skew := by
    rcases schedExit_only HZ p m with h | ⟨-, h⟩
    · exact h.skew hcount
    · exact h.skew_same rfl hcount
  have hq : Quiet (schedExit HZ p m) (ShortSched.releaseTask HZ p k) :=
    mod_quiet (f := fun t => { t with pid := 0 }) fun _ => rfl
  exact (hq.skew rfl).trans (h1.trans h0)

theorem initIdle_count (h : initIdle k = some k') : k'.rq.nrUninterruptible =
    k.rq.nrUninterruptible + (k.core k.current).off.weight := by
  obtain ⟨m, hm, rfl⟩ := initIdle_eq_some.mp h
  exact (deactivateTask_count hm :)

theorem initIdle_skew (h : initIdle k = some k') (hc : k.current = k.rq.idle)
    (hi : (k.core k.rq.idle).state = .running) : k'.skew = k.skew := by
  obtain ⟨-, -, hidle, hhash, hrest, hl, hself⟩ := initIdle_core h
  have hn := initIdle_count h
  rw [Core.weight_off_eq_zero.mpr (by rw [hc, hi]; decide), add_zero] at hn
  apply skew_congr hn (hidle.trans hc) hhash
  intro q
  by_cases hq : q = k.current
  · rw [hq, hself, Core.weight_linked hl]
    exact Core.weight_of_state (s := .running) rfl (by decide)
  · rw [hrest q hq]

/-- The idle task never sleeps. -/
theorem IdleStep.state {π : Guard} (h : IdleStep HZ ps π c d) (hc : c.state = .running) :
    d.state = .running := by
  cases h with
  | tick h => exact h.same.1.trans hc
  | share h => exact h.same.1.trans hc
  | running => rfl
  | deactivate => exact hc
  | park => rfl

/-- An operation keeps the counter exact just when it is accountable. -/
theorem exec_skew_iff (h : exec HZ op k = some k') (hs : Sound k) (hk : Populated k)
    (hi : (k.core k.rq.idle).state = .running) (he : Enabled k op) :
    k'.skew = k.skew ↔ Accountable k op := by
  cases op with
  | advance n => cases h; exact iff_of_true rfl fun _ h => by cases h
  | setSigpending p b =>
    cases h
    exact iff_of_true (Quiet.skew (mod_quiet (f := fun t => { t with sigpending := b })
      fun _ => rfl) rfl) fun _ h => by cases h
  | setCredentials p uid euid capSysNice =>
    cases h
    exact iff_of_true (Quiet.skew (mod_quiet (f := fun t => { t with uid, euid, capSysNice })
      fun _ => rfl) rfl) fun _ h => by cases h
  | setCurrentState s =>
    cases h
    have h1 : Only k.current ((k.core k.current).withState s) k
      (k.mod k.current fun t => { t with state := s }) := mod_only rfl
    have hs1 := h1.skew (n := 0) hk.current (add_zero k.rq.nrUninterruptible).symm
    rw [hs1, show Accountable k (.setCurrentState s) ↔ _ from Core.weight_withState.symm]
    omega
  | schedule reason =>
    apply iff_of_true _ fun _ h => by cases h
    cases reason with
    | none => exact schedule_skew h hk.current
    | some r =>
      have hq : Quiet k (recordSwitch r k) := recordSwitch_quiet r
      exact (schedule_skew h hk.current).trans (hq.skew rfl)
  | schedulerTick =>
    exact iff_of_true (schedulerTick_skew h fun hc => hs.idle.not_short hc.1) fun _ h => by cases h
  | tryToWakeUp p =>
    rw [tryToWakeUp_skew h (Or.inl he), add_eq_left, ite_eq_left_iff, Core.weight_eq_zero]
    exact not_imp_not
  | wakeUpForkedProcess p =>
    have hw := (k.core p).weight_nonneg
    have hw' := (k.core k.current).off.weight_nonneg
    rw [wakeUpForkedProcess_skew h (Or.inl he.1) hk.current he.2.1, add_assoc, add_eq_left]
    change _ ↔ ¬ (k.core p).Asleep ∧
      ((k.core p).policy = .short → (k.core k.current).state ≠ .uninterruptible)
    rw [← Core.weight_eq_zero, ← Core.weight_off_eq_zero, ← ite_eq_right_iff]
    split_ifs <;> omega
  | doFork child pid vfork cloneParent =>
    rw [doFork_skew h hk hs.idle he, add_eq_left, ite_eq_right_iff, Core.weight_off_eq_zero]
    rfl
  | setUserNice p nice => exact iff_of_true (setUserNice_skew h) fun _ h => by cases h
  | sysNice increment =>
    obtain ⟨⟨r, m⟩, hm, rfl⟩ := Option.map_eq_some_iff.mp h
    apply iff_of_true _ fun _ h => by cases h
    obtain rfl | hn := sysNice_cases hm
    · rfl
    · exact setUserNice_skew hn
  | sysSchedYield =>
    obtain ⟨m, hm, h⟩ := Option.bind_eq_some_iff.mp h
    apply iff_of_true _ fun _ h => by cases h
    obtain ⟨-, a, i, -, -, -, -, h1⟩ := yieldMove_only hm
    have hq : Quiet m (recordSwitch .taskYields m) := recordSwitch_quiet _
    have hex : m.Exists m.current := (hk.only_current h1).current
    exact (schedule_skew h hex).trans ((hq.skew rfl).trans (yieldMove_skew hm))
  | sysSchedSetscheduler pid policy param =>
    obtain ⟨⟨r, m⟩, hm, rfl⟩ := Option.map_eq_some_iff.mp h
    exact setscheduler_skew (sysSchedSetscheduler_eq hm) hk rfl
  | sysSchedSetparam pid param =>
    obtain ⟨⟨r, m⟩, hm, rfl⟩ := Option.map_eq_some_iff.mp h
    exact setscheduler_skew hm hk rfl
  | exitNotify reaper childReaper =>
    cases h
    rw [exitNotify_skew reaper childReaper hk.current, add_eq_left, Core.weight_eq_zero]
    rfl
  | releaseTask p =>
    cases h
    exact iff_of_true (releaseTask_skew he.2.1) fun _ h => by cases h
  | initIdle => exact iff_of_true (initIdle_skew h he.1 hi) fun _ h => by cases h

theorem schedInit_skew (h : schedInit HZ = some k) :
    (k.core k.rq.idle).state = .running ∧ k.skew = 0 := by
  have h0 : (bootKernel HZ).Exists 0 := Or.inr rfl
  have hs := tryToWakeUp_skew h h0
  have hb : (bootKernel HZ).skew = 0 := rfl
  constructor
  · rcases tryToWakeUp_only h with ⟨-, h1⟩ | ⟨-, -, i, -, h1⟩
    · rw [show k.rq.idle = 0 from h1.idle, h1.self]
      rfl
    · rw [show k.rq.idle = 0 from h1.idle, h1.self]
      rfl
  · rw [hs, hb, zero_add]
    exact if_pos rfl

/-- In a run from boot the counter of `TASK_UNINTERRUPTIBLE` is exact in every state reached,
just when every step of it is accountable. -/
theorem uninterruptible_exact (HZ : ℕ) (ops : List Op) (hE : AlongBoot HZ (fun _ _ => True) ops)
    (k : Kernel) (hr : runFromBoot HZ ops = some k) :
    (∀ pre, pre <+: ops → ∀ m ∈ runFromBoot HZ pre, UninterruptibleExact m) ↔
      AlongBoot HZ Accountable ops := by
  refine runFromBoot_always_iff (J := fun k => (Sound k ∧ Populated k) ∧
    (k.core k.rq.idle).state = .running) (fun k h0 => ?_) ?_ hE hr
  · obtain ⟨hidle, hskew⟩ := schedInit_skew h0
    have hs0 := schedInit_sound h0
    exact ⟨⟨⟨hs0, schedInit_populated h0⟩, hidle⟩, hs0.exact_iff.mpr hskew⟩
  · rintro k op k' ⟨⟨hs, hk⟩, hi⟩ he - h
    have heff : Effect HZ Guard.free op k k' := exec_effect h he hs.idle (Permits.free k op)
    have hs' := hs.exec he h
    refine ⟨⟨⟨hs', hk.exec hs he h⟩, ?_⟩, fun hx => ?_⟩
    · rw [heff.idle]
      exact steps_invariant (I := fun c => c.state = .running) (fun _ _ hc => hc.state)
        heff.idleTask hi
    · rw [hs'.exact_iff, ← exec_skew_iff h hs hk hi he, hs.exact_iff.mp hx]

end

/-- Task 1 goes to sleep and task 2, its child, runs. -/
def sleepingParent : List Op := startTask ++ [.doFork 2 2 false false,
  .setCurrentState .uninterruptible, .schedule none]

/-- The child wakes its parent and goes to sleep in its turn, and the parent forks. -/
def sleepInTurn : List Op := sleepingParent ++ [.tryToWakeUp 1,
  .setCurrentState .uninterruptible, .schedule none, .doFork 3 3 false false]

theorem uninterruptible_exact_sleepInTurn : ∃ k ∈ runFromBoot 512 sleepInTurn,
    (∀ pre, pre <+: sleepInTurn → ∀ m ∈ runFromBoot 512 pre, UninterruptibleExact m) ∧
      k.rq.nrUninterruptible = 1 := by
  have hE : AlongBoot 512 (fun _ _ => True) sleepInTurn := by decide +kernel
  have hA : AlongBoot 512 Accountable sleepInTurn := by decide +kernel
  obtain ⟨k, hk, hn⟩ : ∃ k ∈ runFromBoot 512 sleepInTurn, k.rq.nrUninterruptible = 1 := by
    decide +kernel
  exact ⟨k, hk, (uninterruptible_exact 512 sleepInTurn hE k hk).mpr hA, hn⟩

/-- The child makes its sleeping parent SHORT before it wakes it. -/
def shortWhileAsleep : List Op := sleepingParent ++
  [.sysSchedSetscheduler 1 4 (shortParam 100 5), .tryToWakeUp 1]

/-- A task that became SHORT while it slept stays counted when it is woken. -/
theorem woken_sleeper_is_counted : AlongBoot 512 (fun _ _ => True) shortWhileAsleep ∧
    ∃ k ∈ runFromBoot 512 shortWhileAsleep, k.rq.nrUninterruptible = 1 ∧ (∀ p, ¬ k.Asleep p) ∧
      ¬ UninterruptibleExact k := by
  have hE : AlongBoot 512 (fun _ _ => True) shortWhileAsleep := by decide +kernel
  obtain ⟨k, hk, hn, hawake⟩ : ∃ k ∈ runFromBoot 512 shortWhileAsleep,
      k.rq.nrUninterruptible = 1 ∧ ∀ p ∈ k.rq.idle :: k.pidhash, ¬ (k.core p).Asleep := by
    decide +kernel
  have hs : Sound k := runFromBoot_sound hE hk
  have hnone : ∀ p, ¬ k.Asleep p := by
    intro p hp
    obtain ⟨hex, ha⟩ := hs.asleep_iff.mp hp
    exact hawake p (List.mem_cons.mpr hex.symm) ha
  refine ⟨hE, k, hk, hn, hnone, ?_⟩
  rintro ⟨s, hs, hc⟩
  have h0 : s = ∅ := Finset.eq_empty_of_forall_notMem fun p hp => hnone p ((hs p).mp hp)
  rw [h0, hn] at hc
  cases hc

end ShortSched
