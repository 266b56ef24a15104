import ShortSched.Preemption
import ShortSched.SwitchLog

/-! Which calls of `record_switch` an operation makes, and what it does to the log: it records
these reasons, and when it switches to another task it fills in the record. -/
namespace ShortSched
open Ring

/-- The log with the counter of the switches that remain to be recorded. -/
structure SwitchLog where
  ring : Buffer SwitchInfo
  remaining : ℤ

def Runqueue.switchLog (rq : Runqueue) : SwitchLog := ⟨rq.ring, rq.recSwitchingRemaining⟩

/-- The slot that the next record goes to. -/
def SwitchLog.slot (l : SwitchLog) : SwitchInfo := l.ring.slot l.ring.tail

/-- `record_switch` on the log. -/
def SwitchLog.record (l : SwitchLog) (reason : SwitchReason) : SwitchLog where
  ring := l.ring.write { l.slot with reason := some reason }
  remaining := if reason = .taskCreated ∨ reason = .taskEnded then 30 else l.remaining

/-- `create_record` on the log; the reason is already in the slot. -/
def SwitchLog.create (l : SwitchLog) (x : SwitchInfo) : SwitchLog where
  ring :=
    if i32 (l.remaining - 1) > 0 then
      (l.ring.write { x with reason := l.slot.reason }).commit switchInfoArraySize
    else l.ring.write { x with reason := l.slot.reason }
  remaining := i32 (l.remaining - 1)

/-- The record of the switch from `prev` to `next`, but for its reason. -/
def Kernel.switchInfo (k : Kernel) (prev next : TaskId) : SwitchInfo where
  previousPid := (k.tasks prev).pid
  nextPid := (k.tasks next).pid
  previousPolicy := (k.tasks prev).policy.code
  nextPolicy := (k.tasks next).policy.code
  time := k.jiffies
  reason := none

/-- Between the two states only `rs` were recorded, and no switch. -/
structure Records (rs : List SwitchReason) (k k' : Kernel) : Prop where
  log : k'.rq.switchLog = rs.foldl SwitchLog.record k.rq.switchLog
  nrSwitches : k'.rq.nrSwitches = k.rq.nrSwitches
  curr : k'.current = k.current

/-- Between the two states `rs` were recorded, and then a switch to another task. -/
structure Switched (rs : List SwitchReason) (k k' : Kernel) : Prop where
  log : k'.rq.switchLog = (rs.foldl SwitchLog.record k.rq.switchLog).create
    (k'.switchInfo k.current k'.current)
  nrSwitches : k'.rq.nrSwitches = k.rq.nrSwitches + 1
  moved : k'.current ≠ k.current

/-- The running task is SHORT and the next tick ends its slice. -/
def SliceEnds (k : Kernel) : Prop :=
  k.current ≠ k.rq.idle ∧ Short (k.tasks k.current) ∧ u32 ((k.tasks k.current).timeSlice - 1) = 0

instance (k : Kernel) : Decidable (SliceEnds k) := inferInstanceAs (Decidable (_ ∧ _ ∧ _))

section
variable (HZ : ℕ)

/-- The end of the slice leaves the task no trial, or none of a tick. -/
def LastTrial (t : TaskStruct) : Prop :=
  t.currentTrial + 1 ≥ t.numberOfTrials ∨
    shortTimeslice HZ t.requestedTime (t.currentTrial + 1) = 0

instance (t : TaskStruct) : Decidable (LastTrial HZ t) := inferInstanceAs (Decidable (_ ∨ _))

/-- A wake-up of `p` preempts the running task. -/
def Preempts (k : Kernel) (p : TaskId) : Prop :=
  (k.tasks p).array = none ∧ p ≠ k.rq.curr ∧ wokenPrio HZ k p < (k.tasks k.rq.curr).prio

instance (k : Kernel) (p : TaskId) : Decidable (Preempts HZ k p) :=
  inferInstanceAs (Decidable (_ ∧ _ ∧ _))

/-- The running task gets a new priority while it is queued. -/
def Renices (k : Kernel) (p : TaskId) (nice : ℤ) : Prop :=
  ¬ (taskNice (k.tasks p) = nice ∨ nice < -20 ∨ nice > 19 ∨ (k.tasks p).policy = .short) ∧
    ¬ rtTask (k.tasks p) ∧ (k.tasks p).array ≠ none ∧ p = k.rq.curr

instance (k : Kernel) (p : TaskId) (nice : ℤ) : Decidable (Renices k p nice) :=
  inferInstanceAs (Decidable (_ ∧ _ ∧ _ ∧ _))

/-- A call of `setscheduler` that makes its target SHORT. -/
def BecomesShort (k : Kernel) (op : Op) : Prop :=
  ∃ acc ∈ op.accepted k, (k.tasks acc.target).policy = .other ∧ acc.policy = .short

instance (k : Kernel) (op : Op) : Decidable (BecomesShort k op) :=
  inferInstanceAs (Decidable (∃ acc ∈ op.accepted k, _))

/-- The parent that runs the tick of a fork. -/
def forkCharged (child : TaskId) (pid : ℤ) (k : Kernel) : Kernel :=
  (forkSplit child (forkCopy child pid k)).mod k.current fun t => { t with timeSlice := 1 }

def tickCalls (k : Kernel) : List SwitchReason :=
  if SliceEnds k then
    [if LastTrial HZ (k.tasks k.current) then .shortOver else .timeSliceOver]
  else []

/-- The calls of `record_switch` that an operation makes. -/
def recordCalls : Op → Kernel → List SwitchReason
  | .schedule reason, _ => reason.toList
  | .schedulerTick, k => tickCalls HZ k
  | .tryToWakeUp p, k => if Preempts HZ k p then [.highierTaskActive] else []
  | .doFork child pid vfork _, k =>
      (if (k.tasks k.current).timeSlice / 2 = 0 then tickCalls HZ (forkCharged child pid k)
        else []) ++ if vfork then [] else [.taskCreated]
  | .setUserNice p nice, k => if Renices k p nice then [.highierTaskActive] else []
  | .sysNice increment, k =>
      if ¬ (increment < 0 ∧ capable k = false) ∧
          Renices k k.current (newNice (k.tasks k.current) increment) then
        [.highierTaskActive]
      else []
  | .sysSchedYield, _ => [.taskYields]
  | .sysSchedSetscheduler pid policy param, k =>
      if BecomesShort k (.sysSchedSetscheduler pid policy param) then [.highierTaskActive] else []
  | .sysSchedSetparam pid param, k =>
      if BecomesShort k (.sysSchedSetparam pid param) then [.highierTaskActive] else []
  | _, _ => []

end

section
variable {HZ : ℕ} {k k' m : Kernel} {p q : TaskId} {a : ArrayIdx} {rs rs' : List SwitchReason}
  {op : Op}

theorem Records.trans (h : Records rs k m) (h' : Records rs' m k') : Records (rs ++ rs') k k' where
  log := by rw [h'.log, h.log, List.foldl_append]
  nrSwitches := h'.nrSwitches.trans h.nrSwitches
  curr := h'.curr.trans h.curr

theorem Records.after (h' : Records rs m k') (h : Records [] k m) : Records rs k k' :=
  h.trans h'

theorem Records.then (h : Records rs k m) (h' : Records [] m k') : Records rs k k' := by
  have := h.trans h'
  rwa [List.append_nil] at this

theorem recordSwitch_records (reason : SwitchReason) (k : Kernel) :
    Records [reason] k (recordSwitch reason k) := ⟨rfl, rfl, rfl⟩

theorem mod_records {f : TaskStruct → TaskStruct} : Records [] k (k.mod p f) := ⟨rfl, rfl, rfl⟩

theorem listDel_records (h : listDel p k = some k') : Records [] k k' := by
  obtain ⟨l, -, -, rfl⟩ := listDel_eq_some.mp h
  exact ⟨rfl, rfl, rfl⟩

theorem listAdd_records {i : ℤ} {f : List TaskId → List TaskId}
    (h : listAdd p a i f k = some k') : Records [] k k' := by
  obtain ⟨-, rfl⟩ := listAdd_eq_some.mp h
  exact ⟨rfl, rfl, rfl⟩

theorem dequeueTask_records (h : dequeueTask p a k = some k') : Records [] k k' := by
  simp only [dequeueTask, Option.bind_eq_bind, Option.bind_eq_some_iff] at h
  obtain ⟨m, hm, h⟩ := h
  have hd := (listDel_records hm).after (k := k) ⟨rfl, rfl, rfl⟩
  split_ifs at h
  · cases h
    exact hd.then ⟨rfl, rfl, rfl⟩
  · cases h
    exact hd

theorem enqueueTask_records (h : enqueueTask p a k = some k') : Records [] k k' := by
  obtain ⟨-, rfl⟩ := enqueueTask_eq_some.mp h
  exact ⟨rfl, rfl, rfl⟩

theorem activateTask_records (h : activateTask HZ p k = some k') : Records [] k k' := by
  obtain ⟨-, rfl⟩ := activateTask_eq_some.mp h
  exact ⟨rfl, rfl, rfl⟩

theorem deactivateTask_records (h : deactivateTask p k = some k') : Records [] k k' := by
  rw [deactivateTask_eq, Option.map_eq_some_iff] at h
  obtain ⟨m, hm, rfl⟩ := h
  obtain ⟨a, -, hm⟩ := Option.bind_eq_some_iff.mp hm
  have hu : Records [] k (k.uncounted p) := ⟨rfl, rfl, rfl⟩
  exact ((dequeueTask_records hm).after hu).then mod_records

theorem becomeOverdue_records (h : becomeOverdue p k = some k') : Records [.shortOver] k k' := by
  obtain ⟨m, hm, n, hn, rfl⟩ := becomeOverdue_eq_some.mp h
  have h1 : Records [] k n := ((enqueueTask_records hn).after
    (mod_records.after (dequeueTask_records hm))).after mod_records
  exact ((recordSwitch_records _ _).after mod_records).after h1

/-- A tick records that the slice of a SHORT task is over, or its last trial. -/
theorem tickShort_records (h : tickShort HZ p k = some k') :
    Records (if u32 ((k.tasks p).timeSlice - 1) = 0 then
      [if LastTrial HZ (k.tasks p) then .shortOver else .timeSliceOver] else []) k k' := by
  cases tickShort_cases h with
  | goesOn ht =>
    rw [if_neg ht]
    exact mod_records
  | trialsOver m ht hn hm =>
    rw [if_pos ht, if_pos (show LastTrial HZ (k.tasks p) from Or.inl hn)]
    exact ((becomeOverdue_records hm).after (mod_records.after mod_records)).then mod_records
  | noTime m ht hz hm =>
    rw [if_pos ht, if_pos (show LastTrial HZ (k.tasks p) from Or.inr hz)]
    exact ((becomeOverdue_records hm).after
      (mod_records.after (mod_records.after mod_records))).then mod_records
  | nextTrial m n ht hn hz hdown hup =>
    rw [if_pos ht, if_neg (show ¬ LastTrial HZ (k.tasks p) from fun hl => hl.elim hn hz)]
    have h1 : Records [] k n := (enqueueTask_records hup).after ((dequeueTask_records hdown).after
      (mod_records.after (mod_records.after mod_records)))
    exact ((recordSwitch_records _ _).after h1).then mod_records

theorem tickRt_records (h : tickRt HZ p k = some k') : Records [] k k' := by
  cases tickRt_cases h with
  | fifo _ h =>
    subst h
    exact ⟨rfl, rfl, rfl⟩
  | goesOn _ _ h =>
    subst h
    exact mod_records
  | newSlice m _ _ hdown hup =>
    exact (enqueueTask_records hup).after ((dequeueTask_records hdown).after
      (mod_records.after (mod_records.after mod_records)))

theorem stampExpired_records (k : Kernel) : Records [] k (stampExpired k) := by
  unfold stampExpired
  split_ifs <;> exact ⟨rfl, rfl, rfl⟩

theorem tickOther_records (h : tickOther HZ p k = some k') : Records [] k k' := by
  have hrenewed : ∀ m, dequeueTask p k.rq.active (wearDown p k) = some m →
      Records [] k (renewed HZ p m) := fun m hm =>
    mod_records.after (mod_records.after ((dequeueTask_records hm).after
      (mod_records.after mod_records)))
  cases tickOther_cases h with
  | goesOn _ h =>
    subst h
    exact mod_records.after mod_records
  | expires m _ hdown hup =>
    exact (enqueueTask_records hup).after ((stampExpired_records _).after (hrenewed m hdown))
  | stays m _ hdown hup => exact (enqueueTask_records hup).after (hrenewed m hdown)

theorem schedulerTick_records (h : schedulerTick HZ k = some k') :
    Records (tickCalls HZ k) k k' := by
  simp only [schedulerTick] at h
  unfold tickCalls
  split_ifs at h with hi hs ho ha hr
  · cases h
    rw [if_neg fun hc => hc.1 hi]
    exact ⟨rfl, rfl, rfl⟩
  · have ht := tickShort_records h
    by_cases h0 : u32 ((k.tasks k.current).timeSlice - 1) = 0
    · rw [if_pos (show SliceEnds k from ⟨hi, ⟨hs, ho⟩, h0⟩)]
      rwa [if_pos h0] at ht
    · rw [if_neg fun hc => h0 hc.2.2]
      rwa [if_neg h0] at ht
  · cases h
    rw [if_neg fun hc => ho hc.2.1.2]
    exact ⟨rfl, rfl, rfl⟩
  · cases h
    rw [if_neg fun hc => hs hc.2.1.1]
    exact mod_records
  · rw [if_neg fun hc => hs hc.2.1.1]
    exact tickRt_records h
  · rw [if_neg fun hc => hs hc.2.1.1]
    exact tickOther_records h

/-- A wake-up records that it preempts. -/
theorem tryToWakeUp_records (h : tryToWakeUp HZ p k = some k') :
    Records (if Preempts HZ k p then [.highierTaskActive] else []) k k' := by
  obtain ⟨m, hm, rfl⟩ := Option.map_eq_some_iff.mp h
  refine Records.then ?_ mod_records
  by_cases ha : (k.tasks p).array = none
  · rw [if_pos ha] at hm
    simp only [wakeQueue, Option.bind_eq_bind, Option.bind_eq_some_iff] at hm
    obtain ⟨n, hn, hm⟩ := hm
    generalize hl : (if (k.tasks p).state = .uninterruptible then
      k.modRq fun rq => { rq with nrUninterruptible := rq.nrUninterruptible - 1 } else k) = l at hn
    have hkl : Records [] k l ∧ l.tasks = k.tasks ∧ l.jiffies = k.jiffies ∧
        l.rq.curr = k.rq.curr := by
      rw [← hl]
      split_ifs <;> exact ⟨⟨rfl, rfl, rfl⟩, rfl, rfl, rfl⟩
    obtain ⟨h0, ht, hj, hc⟩ := hkl
    have h1 := (activateTask_records hn).after h0
    obtain ⟨-, rfl⟩ := activateTask_eq_some.mp hn
    have hwoken : wokenPrio HZ l p = wokenPrio HZ k p := by
      rw [wokenPrio, wokenPrio, credited, credited, sleepTime, sleepTime, hj, ht]
    have hw : ((l.activated HZ p).tasks p).prio = wokenPrio HZ k p := by
      rw [activated_tasks_self]
      exact hwoken
    have hcur : (l.activated HZ p).rq.curr = k.rq.curr := hc
    rw [hcur, hw] at hm
    rcases eq_or_ne p k.rq.curr with hp | hp
    · rw [if_neg fun hc => hc.2.1 hp]
      rw [if_neg (by rw [← hp, hw]; exact lt_irrefl _)] at hm
      cases hm
      exact h1
    · rw [activated_tasks_ne HZ l hp.symm, ht] at hm
      by_cases hlt : wokenPrio HZ k p < (k.tasks k.rq.curr).prio
      · rw [if_pos (show Preempts HZ k p from ⟨ha, hp, hlt⟩)]
        rw [if_pos hlt] at hm
        cases hm
        exact ((recordSwitch_records _ _).after h1).then mod_records
      · rw [if_neg fun hc => hlt hc.2.2]
        rw [if_neg hlt] at hm
        cases hm
        exact h1
  · rw [if_neg ha] at hm
    rw [if_neg fun hc => ha hc.1]
    cases hm
    exact ⟨rfl, rfl, rfl⟩

theorem requeueParent_records (h : requeueParent HZ p k = some k') : Records [] k k' := by
  obtain ⟨-, m, hm, -, h⟩ | ⟨-, rfl⟩ := requeueParent_cases h
  · exact (activateTask_records h).after (deactivateTask_records hm)
  · exact ⟨rfl, rfl, rfl⟩

theorem wakeUpForkedProcess_records (h : wakeUpForkedProcess HZ p k = some k') :
    Records [] k k' := by
  obtain ⟨m, hm, h⟩ := wakeUpForkedProcess_eq_some.mp h
  have hf : Records [] m (forkPenalty HZ p m) := by
    unfold forkPenalty
    split_ifs <;> exact ⟨rfl, rfl, rfl⟩
  exact (activateTask_records h).after (mod_records.after (hf.after
    ((requeueParent_records hm).after mod_records)))

theorem setUserNice_records {nice : ℤ} (h : setUserNice p nice k = some k') :
    Records (if Renices k p nice then [.highierTaskActive] else []) k k' := by
  cases setUserNice_cases h with
  | ignored hn =>
    rw [if_neg fun hc => hc.1 hn]
    exact ⟨rfl, rfl, rfl⟩
  | realTime hn hr =>
    rw [if_neg fun hc => hc.2.1 hr]
    exact mod_records
  | unqueued hn hr ha =>
    rw [if_neg fun hc => hc.2.2.1 ha]
    exact mod_records
  | requeued a m n hn hr ha hdown hup =>
    have h1 : Records [] k n := (enqueueTask_records hup).after
      (mod_records.after (dequeueTask_records hdown))
    have hcur : n.rq.curr = k.rq.curr := by
      have hd : Only p _ k m := (dequeueTask_only hdown).2
      obtain ⟨-, h2⟩ := (hd.mod (g := fun c => { c with
        staticPrio := niceToPrio nice, prio := niceToPrio nice }) fun _ => rfl).enqueue hup
      exact h2.curr
    have hany : (k.tasks p).array ≠ none := by
      rw [ha]
      exact Option.some_ne_none a
    rw [hcur]
    split_ifs with hren hc hc
    · exact ((recordSwitch_records _ _).after h1).then mod_records
    · exact absurd hren.2.2.2 hc
    · exact absurd ⟨hn, hr, hany, hc⟩ hren
    · exact h1

theorem createRecord_switchLog (previousPid nextPid previousPolicy nextPolicy : ℤ) (k : Kernel) :
    (createRecord previousPid nextPid previousPolicy nextPolicy k).rq.switchLog =
      k.rq.switchLog.create { previousPid, nextPid, previousPolicy, nextPolicy, time := k.jiffies,
                              reason := none } := by
  unfold Runqueue.switchLog SwitchLog.create
  rw [createRecord_ring]
  rfl

theorem schedulePrev_records (h : schedulePrev p k = some k') : Records [] k k' := by
  obtain ⟨-, rfl⟩ | ⟨-, rfl⟩ | ⟨-, hd⟩ := schedulePrev_cases h
  · exact mod_records
  · exact mod_records.after mod_records
  · exact (deactivateTask_records hd).after mod_records

theorem pickNext_records {next : TaskId} (h : pickNext k = some (next, k')) :
    Records [] k k' := by
  unfold pickNext at h
  split_ifs at h
  · cases h
    exact ⟨rfl, rfl, rfl⟩
  · simp only [Option.bind_eq_bind, Option.bind_eq_some_iff, Option.pure_def,
      Option.some.injEq, Prod.mk.injEq] at h
    obtain ⟨-, -, -, -, -, rfl⟩ := h
    unfold swapArrays
    split_ifs <;> exact ⟨rfl, rfl, rfl⟩

/-- What an operation does to the log: it records `rs`, and then it may switch. -/
def Logs (rs : List SwitchReason) (k k' : Kernel) : Prop := Records rs k k' ∨ Switched rs k k'

/-- `schedule` records nothing by itself, and creates a record exactly when it switches. -/
theorem schedule_logs (h : schedule k = some k') : Logs [] k k' := by
  obtain ⟨m, hm, ⟨next, n⟩, hn, rfl⟩ := schedule_eq_some.mp h
  have h1 := (pickNext_records hn).after (schedulePrev_records hm)
  unfold switchTasks
  dsimp only
  split_ifs with hne
  · right
    constructor
    · rw [createRecord_switchLog, ← h1.log]
      rfl
    · change n.rq.nrSwitches + 1 = _
      rw [h1.nrSwitches]
    · exact Ne.symm hne
  · left
    exact h1.then mod_records

/-- What an operation that ends in `schedule` does to the log. -/
theorem Records.schedule (h : Records rs k m) (hs : schedule m = some k') : Logs rs k k' := by
  rcases schedule_logs hs with h' | h'
  · left
    exact h.then h'
  · right
    constructor
    · rw [h'.log, h.curr, List.foldl_nil, h.log]
    · rw [h'.nrSwitches, h.nrSwitches]
    · rw [← h.curr]
      exact h'.moved

/-! Policy changes and forks. -/

theorem setschedulerApply_logs {acc : Accepted} {pid policy : ℤ} {param : Option UserParam}
    (h : setschedulerApply HZ acc k = some k') (hp : Passed k pid policy param acc) :
    Logs (if (k.tasks acc.target).policy = .other ∧ acc.policy = .short then
      [.highierTaskActive] else []) k k' := by
  obtain ⟨m, hm, h⟩ := setschedulerApply_eq_some.mp h
  have h0 : Records [] k m := by
    split_ifs at hm
    · exact deactivateTask_records hm
    · cases hm
      exact ⟨rfl, rfl, rfl⟩
  have hpol : (m.tasks acc.target).policy = (k.tasks acc.target).policy := by
    obtain ⟨hc, -⟩ := leaveQueue_only hm
    rw [show (m.tasks acc.target).policy = (m.core acc.target).policy from rfl, hc.self,
      Core.left_policy]
    rfl
  rw [hpol] at h
  have hinstall : ∀ l n, Records [] k l →
      (if (k.tasks acc.target).array.isSome then
        activateTask HZ acc.target (l.mod acc.target (assignPolicy acc))
      else some (l.mod acc.target (assignPolicy acc))) = some n → Records [] k n := by
    intro l n hl hn
    split_ifs at hn
    · exact (activateTask_records hn).after (mod_records.after hl)
    · cases hn
      exact mod_records.after hl
  split_ifs at h ⊢ with h1 h2
  · obtain ⟨n, hn, h⟩ := installPolicy_eq_some.mp h
    have hrec := hinstall _ n (mod_records.after h0) hn
    rw [if_pos h1.2] at h
    have hr : Records [.highierTaskActive] k
        (reschedTask n.current (recordSwitch .highierTaskActive n)) :=
      ((recordSwitch_records _ _).after hrec).then mod_records
    exact hr.schedule h
  · cases h
    exact Or.inl (mod_records.after h0)
  · obtain ⟨n, hn, h⟩ := installPolicy_eq_some.mp h
    rw [if_neg (hp.not_short h1 h2)] at h
    cases h
    exact Or.inl (hinstall _ _ h0 hn)

theorem setscheduler_logs {pid policy r : ℤ} {param : Option UserParam}
    (h : setscheduler HZ pid policy param k = some (r, k'))
    (ho : op.accepted k = (setschedulerCheck k pid policy param).toOption) :
    Logs (if BecomesShort k op then [.highierTaskActive] else []) k k' := by
  obtain ⟨e, he, -, rfl⟩ | ⟨acc, hacc, -, hm⟩ := setscheduler_cases h
  · have hn : ¬ BecomesShort k' op := by
      rintro ⟨acc, hacc, -⟩
      rw [ho, he] at hacc
      cases hacc
    rw [if_neg hn]
    exact Or.inl ⟨rfl, rfl, rfl⟩
  · have hiff : BecomesShort k op ↔
        (k.tasks acc.target).policy = .other ∧ acc.policy = .short := by
      rw [BecomesShort, ho, hacc]
      exact ⟨fun ⟨_, ha, h⟩ => Option.some.inj ha ▸ h, fun h => ⟨acc, rfl, h⟩⟩
    simp only [hiff]
    exact setschedulerApply_logs hm (setschedulerCheck_ok hacc)

theorem forkTick_records {child : TaskId} {pid : ℤ} (hc : k.current ≠ child)
    (h : forkTick HZ (forkSplit child (forkCopy child pid k)) = some k') :
    Records (if (k.tasks k.current).timeSlice / 2 = 0 then tickCalls HZ (forkCharged child pid k)
      else []) k k' := by
  have hs : Records [] k (forkSplit child (forkCopy child pid k)) := by
    unfold forkSplit shareTrials
    dsimp only
    split_ifs <;> exact ⟨rfl, rfl, rfl⟩
  have hcur : (forkSplit child (forkCopy child pid k)).current = k.current :=
    (forkSplit_both pid hc).curr
  have hts : ((forkSplit child (forkCopy child pid k)).tasks k.current).timeSlice =
      (k.tasks k.current).timeSlice / 2 := congrArg Core.timeSlice (forkSplit_both pid hc).left
  have hcases := forkTick_cases h
  rw [hcur, hts] at hcases
  obtain ⟨h0, h⟩ | ⟨h0, rfl⟩ := hcases
  · rw [if_pos h0]
    exact (schedulerTick_records h).after (mod_records.after hs)
  · rw [if_neg h0]
    exact hs

theorem doFork_records {child : TaskId} {pid : ℤ} {vfork cloneParent : Bool}
    (hc : k.current ≠ child) (h : doFork HZ child pid vfork cloneParent k = some k') :
    Records (recordCalls HZ (.doFork child pid vfork cloneParent) k) k k' := by
  obtain ⟨-, m, n, hm, hn, rfl⟩ := doFork_eq_some.mp h
  have hl : Records [] m (linkChild child cloneParent m) := ⟨rfl, rfl, rfl⟩
  have h1 := ((forkTick_records hc hm).then hl).then (wakeUpForkedProcess_records hn)
  cases vfork with
  | true =>
    simp only [recordCalls, if_true, List.append_nil]
    exact h1
  | false =>
    simp only [recordCalls, Bool.false_eq_true, if_false]
    exact (h1.trans (recordSwitch_records _ _)).then mod_records

theorem sysNice_records {increment r : ℤ} (h : sysNice increment k = some (r, k')) :
    Records (recordCalls HZ (.sysNice increment) k) k k' := by
  unfold sysNice at h
  simp only [recordCalls]
  split_ifs at h with hn
  · cases h
    rw [if_neg fun hc => hc.1 hn]
    exact ⟨rfl, rfl, rfl⟩
  · obtain ⟨m, hm, he⟩ := Option.map_eq_some_iff.mp h
    cases he
    simp only [hn, not_false_eq_true, true_and]
    exact setUserNice_records hm

theorem yieldMove_records (h : yieldMove k = some k') : Records [] k k' := by
  simp only [yieldMove, Option.bind_eq_bind, Option.bind_eq_some_iff] at h
  obtain ⟨a, -, m, hm, h⟩ := h
  have hd := listDel_records hm
  split_ifs at h
  · exact (listAdd_records h).after hd
  · exact (listAdd_records h).after hd
  · obtain ⟨n, hn, he⟩ := Option.bind_eq_some_iff.mp h
    cases he
    have h1 : Records [] k n :=
      (listAdd_records hn).after (mod_records.after (hd.then ⟨rfl, rfl, rfl⟩))
    exact h1.then ⟨rfl, rfl, rfl⟩

theorem weighSleep_records (p : TaskId) (k : Kernel) : Records [] k (weighSleep p k) := by
  unfold weighSleep
  split_ifs <;> exact ⟨rfl, rfl, rfl⟩

theorem releaseTask_records (p : TaskId) (k : Kernel) : Records [] k (releaseTask HZ p k) := by
  have hr : Records [] k (returnSlice HZ p { k with pidhash := k.pidhash.erase p }) := by
    unfold returnSlice
    split_ifs <;> exact ⟨rfl, rfl, rfl⟩
  have hw := (weighSleep_records p _).after hr
  unfold releaseTask schedExit
  exact hw.then mod_records

/-- One operation makes the calls of `record_switch` that `recordCalls` lists, and creates
a record when it switches to another task. -/
theorem exec_logs (h : exec HZ op k = some k') (he : Enabled k op) :
    Logs (recordCalls HZ op k) k k' := by
  cases op with
  | advance n => cases h; exact Or.inl ⟨rfl, rfl, rfl⟩
  | setSigpending p b => cases h; exact Or.inl mod_records
  | setCredentials p uid euid capSysNice => cases h; exact Or.inl mod_records
  | setCurrentState s => cases h; exact Or.inl mod_records
  | schedule reason =>
    cases reason with
    | none => exact schedule_logs h
    | some r => exact (recordSwitch_records r k).schedule h
  | schedulerTick => exact Or.inl (schedulerTick_records h)
  | tryToWakeUp p => exact Or.inl (tryToWakeUp_records h)
  | wakeUpForkedProcess p => exact Or.inl (wakeUpForkedProcess_records h)
  | doFork child pid vfork cloneParent => exact Or.inl (doFork_records he.2.2.1.symm h)
  | setUserNice p nice => exact Or.inl (setUserNice_records h)
  | sysNice increment =>
    obtain ⟨⟨r, m⟩, hm, rfl⟩ := Option.map_eq_some_iff.mp h
    exact Or.inl (sysNice_records hm)
  | sysSchedYield =>
    obtain ⟨m, hm, h⟩ := Option.bind_eq_some_iff.mp h
    exact ((recordSwitch_records _ _).after (yieldMove_records hm)).schedule h
  | sysSchedSetscheduler pid policy param =>
    obtain ⟨⟨r, m⟩, hm, rfl⟩ := Option.map_eq_some_iff.mp h
    exact setscheduler_logs (sysSchedSetscheduler_eq hm) rfl
  | sysSchedSetparam pid param =>
    obtain ⟨⟨r, m⟩, hm, rfl⟩ := Option.map_eq_some_iff.mp h
    exact setscheduler_logs hm rfl
  | exitNotify reaper childReaper => cases h; exact Or.inl ⟨rfl, rfl, rfl⟩
  | releaseTask p => cases h; exact Or.inl (releaseTask_records p k)
  | initIdle =>
    simp only [exec, initIdle, Option.bind_eq_bind, Option.bind_eq_some_iff, Option.pure_def,
      Option.some.injEq] at h
    obtain ⟨m, hm, rfl⟩ := h
    have h0 : Records [] k (k.modRq fun rq => { rq with curr := k.current, idle := k.current }) :=
      ⟨rfl, rfl, rfl⟩
    have h1 : Records [] k m := (deactivateTask_records hm).after h0
    left
    simp only [recordCalls]
    exact h1.then mod_records

end
end ShortSched
