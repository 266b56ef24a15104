import ShortSched.ChildFirst

/-! The sleep averages: whom an operation credits with sleep, and by how much. -/
namespace ShortSched
open Relation

/-- `activate_task` raises the sleep average of `t` above `x`: `t` is not real-time, and neither
`MAX_SLEEP_AVG` nor a wrap gets in the way of its sleep time. -/
def CreditsAbove (HZ : ℕ) (k : Kernel) (x : ℕ) (t : TaskStruct) : Prop :=
  ¬ rtTask t ∧ x < maxSleepAvg HZ ∧ x < t.sleepAvg + sleepTime k t ∧
    t.sleepAvg + sleepTime k t < 4294967296

instance (HZ : ℕ) (k : Kernel) (x : ℕ) (t : TaskStruct) : Decidable (CreditsAbove HZ k x t) :=
  inferInstanceAs (Decidable (_ ∧ _ ∧ _ ∧ _))

/-- `activate_task` raises the sleep average of `t`. -/
abbrev Credits (HZ : ℕ) (k : Kernel) (t : TaskStruct) : Prop := CreditsAbove HZ k t.sleepAvg t

/-- The task whose sleep average an accepted call of `setscheduler` raises. -/
def Accepted.credited (HZ : ℕ) (k : Kernel) (acc : Accepted) : List TaskId :=
  if (k.tasks acc.target).array ≠ none ∧
    ¬ ((k.tasks acc.target).policy = .short ∧ acc.policy = .short) ∧
    Credits HZ k (assignPolicy acc (k.tasks acc.target)) then [acc.target] else []

/-- The tasks whose sleep average an operation raises: whoever is activated in it and is not
real-time by then. A woken child pays the fork penalty first. -/
def Op.credited (HZ : ℕ) (k : Kernel) : Op → List TaskId
  | .tryToWakeUp p => if (k.tasks p).array = none ∧ Credits HZ k (k.tasks p) then [p] else []
  | .wakeUpForkedProcess p =>
      (if (k.tasks p).policy = .short ∧ Credits HZ k (k.tasks k.current) then [k.current]
        else []) ++
      if CreditsAbove HZ k (k.tasks p).sleepAvg
        { k.tasks p with sleepAvg := (k.tasks p).sleepAvg * 95 / 100 } then [p] else []
  | .doFork .. =>
      if (k.tasks k.current).policy = .short ∧ ¬ ForkTickOverdue HZ (k.tasks k.current) ∧
        Credits HZ k (k.tasks k.current) then [k.current] else []
  | op => (op.accepted k).elim [] (Accepted.credited HZ k)

/-- How far an operation moves the clock. -/
def Op.elapsed : Op → ℕ
  | .advance n => n
  | _ => 0

/-- What an operation that takes the time `n` does to the sleep average of `q`: it rises if `q` is
one of `l`, and by no more than `q` has slept. -/
structure Slept (n : ℕ) (l : List TaskId) (k k' : Kernel) (q : TaskId) : Prop where
  gains : (k.tasks q).sleepAvg < (k'.tasks q).sleepAvg ↔ q ∈ l
  bound : (k'.tasks q).sleepAvg ≤ (k.tasks q).sleepAvg + sleepTime k (k.tasks q)
  stamp : q ≠ k.current → sleepTime k' (k'.tasks q) ≤ sleepTime k (k.tasks q) + n

/-- Only the sleep average of `p` changes: it rises if `r`, and by no more than `p` has slept. -/
structure Raises (p : TaskId) (r : Prop) (k k' : Kernel) : Prop where
  stamps : Stamps k k'
  rest : ∀ q ≠ p, (k'.tasks q).sleepAvg = (k.tasks q).sleepAvg
  gains : (k.tasks p).sleepAvg < (k'.tasks p).sleepAvg ↔ r
  bound : (k'.tasks p).sleepAvg ≤ (k.tasks p).sleepAvg + sleepTime k (k.tasks p)

/-- The clock and the sleep timestamps stand, and no sleep average rises. -/
structure Rests (k k' : Kernel) : Prop where
  stamps : Stamps k k'
  avg : ∀ q, (k'.tasks q).sleepAvg ≤ (k.tasks q).sleepAvg

section
variable {HZ : ℕ} {k k' m n : Kernel} {p q c : TaskId} {a : ArrayIdx} {i : ℤ} {op : Op}
  {f : TaskStruct → TaskStruct} {l : List TaskId → List TaskId} {t t' : TaskStruct} {x e : ℕ}
  {r s : Prop} {js : List TaskId}

theorem Same.rests (h : Same TaskStruct.nap k k') : Rests k k' where
  stamps := h.map Prod.snd
  avg q := (congrArg Prod.fst (h.field q)).le

theorem Rests.refl (k : Kernel) : Rests k k := (Same.refl _ k).rests

theorem Rests.trans (h : Rests k m) (h' : Rests m k') : Rests k k' where
  stamps := h.stamps.trans h'.stamps
  avg q := (h'.avg q).trans (h.avg q)

/-- An assignment that may lower the sleep average. -/
theorem mod_rests (hs : ∀ t, (f t).sleepTimestamp = t.sleepTimestamp)
    (ha : (f (k.tasks p)).sleepAvg ≤ (k.tasks p).sleepAvg) : Rests k (k.mod p f) where
  stamps := (Same.refl _ k).mod hs
  avg q := by
    by_cases hq : q = p
    · rwa [hq, Kernel.mod_tasks_self]
    · rw [Kernel.mod_tasks_ne hq]

/-! Operations that credit nobody. -/

theorem tickRt_nap (h : tickRt HZ p k = some k') : Same TaskStruct.nap k k' := by
  have h1 : Same TaskStruct.nap k (countDown p k) := (Same.refl _ k).mod fun _ => rfl
  cases tickRt_cases h with
  | fifo _ h =>
    subst h
    exact Same.refl _ k'
  | goesOn _ _ h => exact h ▸ h1
  | newSlice m _ _ hdown hup =>
    have h2 : Same TaskStruct.nap k ((countDown p k).mod p fun t =>
        { t with timeSlice := taskTimeslice HZ t.staticPrio, firstTimeSlice := false }) :=
      h1.mod fun _ => by rfl
    exact ((h2.mod fun _ => by rfl).dequeue nap_offLists hdown).enqueue nap_offLists hup

theorem stampExpired_nap (k : Kernel) : Same TaskStruct.nap k (stampExpired k) := by
  unfold stampExpired
  split_ifs
  · exact (Same.refl _ k).of_tasks rfl rfl
  · exact Same.refl _ k

theorem tickOther_rests (h : tickOther HZ p k = some k') : Rests k k' := by
  have h1 : Rests k (wearDown p k) :=
    (mod_rests (f := fun t => { t with sleepAvg := t.sleepAvg - 1 }) (fun _ => rfl)
      (Nat.sub_le _ 1)).trans (Same.rests ((Same.refl _ _).mod fun _ => rfl))
  have hnew : ∀ m, Same TaskStruct.nap m (renewed HZ p m) := fun m =>
    ((Same.refl _ m).mod (p := p) (f := fun t => { t with needResched := true })
      fun _ => rfl).mod fun _ => rfl
  cases tickOther_cases h with
  | goesOn _ h => exact h ▸ h1
  | expires m _ hdown hup =>
    have h2 := ((Same.refl _ _).dequeue nap_offLists hdown).trans (hnew m)
    exact h1.trans ((h2.trans (stampExpired_nap _)).enqueue nap_offLists hup).rests
  | stays m _ hdown hup =>
    have h2 := ((Same.refl _ _).dequeue nap_offLists hdown).trans (hnew m)
    exact h1.trans (h2.enqueue nap_offLists hup).rests

/-- A tick only wears a sleep average down, and that of a SHORT task not at all. -/
theorem schedulerTick_nap (hs : (k.tasks k.current).policy = .short)
    (h : schedulerTick HZ k = some k') : Same TaskStruct.nap k k' := by
  simp only [schedulerTick, if_pos hs] at h
  split_ifs at h
  · cases h
    exact Same.refl _ k
  · exact tickShort_nap h
  · cases h
    exact Same.refl _ k

theorem schedulerTick_rests (h : schedulerTick HZ k = some k') : Rests k k' := by
  by_cases hs : (k.tasks k.current).policy = .short
  · exact (schedulerTick_nap hs h).rests
  · simp only [schedulerTick, if_neg hs] at h
    split_ifs at h
    · cases h
      exact Rests.refl k
    · cases h
      exact ((Same.refl _ k).mod fun _ => by rfl).rests
    · exact (tickRt_nap h).rests
    · exact tickOther_rests h

theorem setUserNice_nap {nice : ℤ} (h : setUserNice p nice k = some k') :
    Same TaskStruct.nap k k' := by
  cases setUserNice_cases h with
  | ignored => exact Same.refl _ k
  | realTime => exact (Same.refl _ k).mod fun _ => rfl
  | unqueued => exact (Same.refl _ k).mod fun _ => rfl
  | requeued a m n _ _ _ hdown hup =>
    have h1 := (Same.refl TaskStruct.nap k).dequeue nap_offLists hdown
    have h2 := (h1.mod fun _ => by rfl).enqueue nap_offLists hup
    split_ifs
    · exact (h2.recordSwitch _).mod fun _ => rfl
    · exact h2

theorem listDel_nap (h : listDel p k = some k') : Same TaskStruct.nap k k' := by
  obtain ⟨e, -, -, rfl⟩ := listDel_eq_some.mp h
  have h1 : Same TaskStruct.nap k (k.modQueue e.array e.prio (·.erase p)) :=
    (Same.refl _ k).of_tasks rfl rfl
  exact h1.mod fun _ => by rfl

theorem listAdd_nap (h : listAdd p a i l k = some k') : Same TaskStruct.nap k k' := by
  obtain ⟨-, rfl⟩ := listAdd_eq_some.mp h
  have h1 : Same TaskStruct.nap k (k.modQueue a i l) := (Same.refl _ k).of_tasks rfl rfl
  exact h1.mod fun _ => by rfl

theorem yieldMove_nap (h : yieldMove k = some k') : Same TaskStruct.nap k k' := by
  simp only [yieldMove, Option.bind_eq_bind, Option.bind_eq_some_iff] at h
  obtain ⟨a, -, m, hm, h⟩ := h
  have h1 := listDel_nap hm
  split_ifs at h
  · exact h1.trans (listAdd_nap h)
  · exact h1.trans (listAdd_nap h)
  · simp only [Option.bind_eq_some_iff, Option.pure_def, Option.some.injEq] at h
    obtain ⟨n, hn, rfl⟩ := h
    have h2 : Same TaskStruct.nap k (m.modArray a (clearBit (k.tasks k.current).prio)) :=
      h1.of_tasks rfl rfl
    exact ((h2.mod fun _ => by rfl).trans (listAdd_nap hn)).of_tasks rfl rfl

theorem exitNotify_nap (reaper childReaper : TaskId) (k : Kernel) :
    Same TaskStruct.nap k (exitNotify reaper childReaper k) := by
  have h1 : Same TaskStruct.nap k (forgetOriginalParent reaper childReaper k.current k) := by
    refine ⟨rfl, fun q => ?_⟩
    simp only [forgetOriginalParent]
    split_ifs <;> rfl
  exact h1.mod fun _ => rfl

/-- Reaping a child that was a CPU hog lowers the average of the parent. -/
theorem releaseTask_rests (p : TaskId) (k : Kernel) : Rests k (releaseTask HZ p k) := by
  have h0 : Same TaskStruct.nap k { k with pidhash := k.pidhash.erase p } :=
    (Same.refl _ k).of_tasks rfl rfl
  have h1 : Same TaskStruct.nap k (returnSlice HZ p { k with pidhash := k.pidhash.erase p }) := by
    unfold returnSlice
    split_ifs
    · exact h0.mod fun _ => by rfl
    · exact h0
  have h2 : ∀ m, Rests m (weighSleep p m) := by
    intro m
    unfold weighSleep
    split_ifs with hlt
    · apply mod_rests
      · exact fun _ => rfl
      · change ((m.tasks m.current).sleepAvg * 3 + (m.tasks p).sleepAvg) / (3 + 1) ≤ _
        omega
    · exact Rests.refl m
  have h3 : Same TaskStruct.nap (schedExit HZ p { k with pidhash := k.pidhash.erase p })
      (releaseTask HZ p k) :=
    (Same.refl _ _).mod (p := p) (f := fun t => { t with pid := 0 }) fun _ => rfl
  exact (h1.rests.trans (h2 _)).trans h3.rests

theorem initIdle_nap (h : initIdle k = some k') : Same TaskStruct.nap k k' := by
  obtain ⟨m, hm, rfl⟩ := initIdle_eq_some.mp h
  have h1 : Same TaskStruct.nap k
      (k.modRq fun rq => { rq with curr := k.current, idle := k.current }) :=
    (Same.refl _ k).of_tasks rfl rfl
  exact (h1.deactivate nap_offLists hm).mod fun _ => by rfl

theorem avg_offLists : OffLists TaskStruct.sleepAvg :=
  ⟨fun _ _ => rfl, fun _ _ => rfl, fun _ _ _ _ => rfl⟩

theorem schedulePrev_stamps (h : schedulePrev p k = some k') :
    Same TaskStruct.sleepAvg k k' ∧ Stamps (stampSleep p k) k' := by
  have h1 : Same TaskStruct.sleepAvg k (stampSleep p k) := (Same.refl _ k).mod fun _ => rfl
  have h2 : Stamps (stampSleep p k) (stampSleep p k) := Same.refl _ _
  obtain ⟨-, rfl⟩ | ⟨-, rfl⟩ | ⟨-, hd⟩ := schedulePrev_cases h
  · exact ⟨h1, h2⟩
  · exact ⟨h1.mod fun _ => by rfl, h2.mod fun _ => by rfl⟩
  · exact ⟨h1.deactivate avg_offLists hd, h2.deactivate stamps_offQueue.lists hd⟩

/-- `schedule` stamps the task that it is called by, and touches no sleep average. -/
theorem schedule_stamps (h : schedule k = some k') :
    Same TaskStruct.sleepAvg k k' ∧ Stamps (stampSleep k.current k) k' := by
  obtain ⟨m, hm, ⟨next, n⟩, hn, rfl⟩ := schedule_eq_some.mp h
  obtain ⟨havg, hst⟩ := schedulePrev_stamps hm
  have hpick : n.tasks = m.tasks ∧ n.jiffies = m.jiffies := by
    unfold pickNext at hn
    split_ifs at hn
    · cases hn
      exact ⟨rfl, rfl⟩
    · simp only [Option.bind_eq_bind, Option.bind_eq_some_iff, Option.pure_def, Option.some.injEq,
        Prod.mk.injEq] at hn
      obtain ⟨-, -, -, -, -, rfl⟩ := hn
      unfold swapArrays
      split_ifs
      · exact ⟨rfl, rfl⟩
      · exact ⟨rfl, rfl⟩
  have hlast : Same TaskStruct.nap m (switchTasks k.current next n) := by
    have h1 : Same TaskStruct.nap m n := (Same.refl _ m).of_tasks hpick.1 hpick.2
    have h2 : Same TaskStruct.nap m (n.mod k.current fun t => { t with needResched := false }) :=
      h1.mod fun _ => by rfl
    unfold switchTasks
    dsimp only
    split_ifs
    · exact h2.of_tasks rfl rfl
    · exact h2
  exact ⟨havg.trans (hlast.map Prod.fst), hst.trans (hlast.map Prod.snd)⟩

/-! Whom an activation credits. -/

theorem CreditsAbove.congr (hj : k'.jiffies = k.jiffies) (hr : rtTask t' ↔ rtTask t)
    (hn : t'.nap = t.nap) : CreditsAbove HZ k' x t' ↔ CreditsAbove HZ k x t := by
  have ha : t'.sleepAvg = t.sleepAvg := congrArg Prod.fst hn
  have hs : t'.sleepTimestamp = t.sleepTimestamp := congrArg Prod.snd hn
  unfold CreditsAbove sleepTime
  rw [hr, ha, hs, hj]

theorem rtTask_congr (hp : t'.prio = t.prio) : rtTask t' ↔ rtTask t := by
  unfold rtTask
  rw [hp]

theorem creditSleep_sleepAvg (HZ sleep : ℕ) (t : TaskStruct) : (creditSleep HZ sleep t).sleepAvg =
    min (maxSleepAvg HZ) ((t.sleepAvg + sleep) % 4294967296) := by
  have hu : u32 (t.sleepAvg + sleep) = (t.sleepAvg + sleep) % 4294967296 := by
    unfold u32
    omega
  simp only [creditSleep, hu]
  split_ifs with h
  · exact (min_eq_left h.le).symm
  · exact (min_eq_right (not_lt.mp h)).symm

theorem credited_above (hx : t.sleepAvg ≤ x) :
    x < (credited HZ k t).sleepAvg ↔ CreditsAbove HZ k x t := by
  have hlt : sleepTime k t < 4294967296 := by
    unfold sleepTime u32
    omega
  unfold credited CreditsAbove
  split_ifs with h
  · rw [creditSleep_sleepAvg, lt_min_iff, and_iff_right h.1]
    omega
  · have hn : ¬ rtTask t → sleepTime k t = 0 := fun hr => by_contra fun h0 => h ⟨hr, h0⟩
    constructor
    · omega
    · rintro ⟨hr, -, hlt, -⟩
      rw [hn hr] at hlt
      omega

theorem credited_le : (credited HZ k t).sleepAvg ≤ t.sleepAvg + sleepTime k t := by
  unfold credited
  split_ifs
  · rw [creditSleep_sleepAvg]
    exact (min_le_right _ _).trans (Nat.mod_le _ _)
  · exact Nat.le_add_right _ _

theorem activateTask_credits (h : activateTask HZ p k = some k') : Stamps k k' ∧
    (k'.tasks p).sleepAvg = (credited HZ k (k.tasks p)).sleepAvg ∧
    ∀ q ≠ p, (k'.tasks q).sleepAvg = (k.tasks q).sleepAvg := by
  refine ⟨(Same.refl _ k).activate stamps_offQueue h, ?_, ?_⟩
  · obtain ⟨-, rfl⟩ := activateTask_eq_some.mp h
    simp [Kernel.activated, Kernel.link]
  · intro q hq
    obtain ⟨-, rfl⟩ := activateTask_eq_some.mp h
    simp only [Kernel.activated, Kernel.link, Kernel.modRq_tasks]
    rw [place_tasks_ne hq, Kernel.mod_tasks_ne hq]

/-- An activation after steps that lower no average but that of the task itself. -/
theorem activateTask_raises (h : activateTask HZ p m = some k') (hst : Stamps k m)
    (hrest : ∀ q ≠ p, (m.tasks q).sleepAvg = (k.tasks q).sleepAvg)
    (hp : (m.tasks p).sleepAvg ≤ (k.tasks p).sleepAvg) :
    Raises p (CreditsAbove HZ m (k.tasks p).sleepAvg (m.tasks p)) k k' := by
  obtain ⟨hs, ha, hne⟩ := activateTask_credits h
  refine ⟨hst.trans hs, fun q hq => (hne q hq).trans (hrest q hq), ?_, ?_⟩
  · rw [ha]
    exact credited_above hp
  · rw [ha, ← hst.sleepTime]
    exact credited_le.trans (Nat.add_le_add_right hp _)

theorem Raises.congr (h : Raises p r k k') (hr : r ↔ s) : Raises p s k k' :=
  ⟨h.stamps, h.rest, h.gains.trans hr, h.bound⟩

theorem Same.not_raises (h : Same TaskStruct.nap k k') (p : TaskId) : Raises p False k k' where
  stamps := h.map Prod.snd
  rest q _ := congrArg Prod.fst (h.field q)
  gains := by simp [show (k'.tasks p).sleepAvg = (k.tasks p).sleepAvg from
    congrArg Prod.fst (h.field p)]
  bound := by
    rw [show (k'.tasks p).sleepAvg = (k.tasks p).sleepAvg from congrArg Prod.fst (h.field p)]
    omega

theorem Raises.nap (h : Raises p r k m) (h' : Same TaskStruct.nap m k') : Raises p r k k' := by
  have ha : ∀ q, (k'.tasks q).sleepAvg = (m.tasks q).sleepAvg :=
    fun q => congrArg Prod.fst (h'.field q)
  refine ⟨h.stamps.trans (h'.map Prod.snd), fun q hq => (ha q).trans (h.rest q hq), ?_, ?_⟩
  · rw [ha]
    exact h.gains
  · rw [ha]
    exact h.bound

theorem Raises.after (h' : Raises p r m k') (h : Same TaskStruct.nap k m) : Raises p r k k' := by
  have ha : ∀ q, (m.tasks q).sleepAvg = (k.tasks q).sleepAvg :=
    fun q => congrArg Prod.fst (h.field q)
  have hst : Stamps k m := h.map Prod.snd
  refine ⟨hst.trans h'.stamps, fun q hq => (h'.rest q hq).trans (ha q), ?_, ?_⟩
  · rw [← ha]
    exact h'.gains
  · rw [← ha, ← hst.sleepTime]
    exact h'.bound

theorem Raises.slept [Decidable r] (h : Raises p r k k') (q : TaskId) :
    Slept 0 (if r then [p] else []) k k' q := by
  have hmem : q ∈ (if r then [p] else []) ↔ r ∧ q = p := by
    split_ifs with hr <;> simp [hr]
  constructor
  · rw [hmem]
    by_cases hq : q = p
    · rw [hq, h.gains]
      simp
    · simp [h.rest q hq, hq]
  · by_cases hq : q = p
    · rw [hq]
      exact h.bound
    · rw [h.rest q hq]
      omega
  · exact fun _ => (h.stamps.sleepTime q).le

theorem Rests.slept (h : Rests k k') (q : TaskId) : Slept 0 [] k k' q where
  gains := by
    simp only [List.not_mem_nil, iff_false, not_lt]
    exact h.avg q
  bound := (h.avg q).trans (Nat.le_add_right _ _)
  stamp _ := (h.stamps.sleepTime q).le

theorem Slept.nap (h : Slept e js k m q) (h' : Same TaskStruct.nap m k') : Slept e js k k' q where
  gains := by
    rw [show (k'.tasks q).sleepAvg = (m.tasks q).sleepAvg from congrArg Prod.fst (h'.field q)]
    exact h.gains
  bound := by
    rw [show (k'.tasks q).sleepAvg = (m.tasks q).sleepAvg from congrArg Prod.fst (h'.field q)]
    exact h.bound
  stamp hq := by
    rw [(h'.map Prod.snd).sleepTime]
    exact h.stamp hq

theorem Slept.schedule (h : Slept e js k m q) (hc : m.current = k.current)
    (hs : schedule m = some k') : Slept e js k k' q := by
  obtain ⟨ha, hst⟩ := schedule_stamps hs
  constructor
  · rw [ha.field]
    exact h.gains
  · rw [ha.field]
    exact h.bound
  · intro hq
    rw [hst.sleepTime, Kernel.mod_tasks_ne (hc ▸ hq)]
    exact h.stamp hq

theorem Slept.congr {js' : List TaskId} (h : Slept e js k k' q) (hl : q ∈ js ↔ q ∈ js') :
    Slept e js' k k' q := ⟨h.gains.trans hl, h.bound, h.stamp⟩

theorem tryToWakeUp_slept (h : tryToWakeUp HZ p k = some k') (q : TaskId) :
    Slept 0 ((Op.tryToWakeUp p).credited HZ k) k k' q := by
  obtain ⟨m, hm, rfl⟩ := Option.map_eq_some_iff.mp h
  have hlast : Same TaskStruct.nap m (m.mod p fun t => { t with state := .running }) :=
    (Same.refl _ m).mod fun _ => rfl
  refine Slept.nap ?_ hlast
  by_cases ha : (k.tasks p).array = none
  · rw [if_pos ha] at hm
    simp only [wakeQueue, Option.bind_eq_bind, Option.bind_eq_some_iff] at hm
    obtain ⟨n, hn, hm⟩ := hm
    have hr : Raises p (Credits HZ k (k.tasks p)) k n := by
      split_ifs at hn
      · have hst := (Same.refl TaskStruct.sleepTimestamp k).of_tasks (n := k.modRq fun rq =>
          { rq with nrUninterruptible := rq.nrUninterruptible - 1 }) rfl rfl
        have hr := activateTask_raises hn hst (fun _ _ => rfl) le_rfl
        exact hr
      · exact activateTask_raises hn (Same.refl _ k) (fun _ _ => rfl) le_rfl
    have hq : Same TaskStruct.nap n m := by
      split_ifs at hm
      · cases hm
        exact ((Same.refl _ n).recordSwitch _).mod fun _ => by rfl
      · cases hm
        exact Same.refl _ m
    exact ((hr.nap hq).congr (and_iff_right ha).symm).slept q
  · rw [if_neg ha] at hm
    cases hm
    exact (((Same.refl _ k).not_raises p).congr (by simp [ha])).slept q

theorem requeueParent_raises (h : requeueParent HZ p k = some k') : Raises k.current
    ((k.tasks p).policy = .short ∧ Credits HZ k (k.tasks k.current)) k k' := by
  obtain ⟨hs, m, hdown, -, hup⟩ | ⟨hn, rfl⟩ := requeueParent_cases h
  · have hm : Same TaskStruct.nap k m := (Same.refl _ k).deactivate nap_offLists hdown
    have hcore : m.core k.current = (k.core k.current).off := (deactivateTask_only hdown).2.self
    have ha : ∀ q, (m.tasks q).sleepAvg = (k.tasks q).sleepAvg :=
      fun q => congrArg Prod.fst (hm.field q)
    refine (activateTask_raises hup (hm.map Prod.snd) (fun q _ => ha q) (ha _).le).congr ?_
    rw [CreditsAbove.congr hm.jiffies (rtTask_congr (congrArg Core.prio hcore)) (hm.field _)]
    exact (and_iff_right hs).symm
  · exact ((Same.refl _ k').not_raises _).congr (by
      rw [false_iff]
      exact fun hc => hn hc.1)

/-- The penalty of a child that is not real-time; its parent keeps 100 percent. -/
theorem forkPenalty_avg (HZ : ℕ) (hr : ¬ rtTask (k.tasks p)) :
    ¬ rtTask ((forkPenalty HZ p k).tasks p) ∧
      ((forkPenalty HZ p k).tasks p).sleepAvg = (k.tasks p).sleepAvg * 95 / 100 ∧
      ∀ q ≠ p, ((forkPenalty HZ p k).tasks q).sleepAvg = (k.tasks q).sleepAvg := by
  have hpar : ∀ q, ((k.mod k.current fun t =>
      { t with sleepAvg := t.sleepAvg * 100 / 100 }).tasks q).sleepAvg = (k.tasks q).sleepAvg :=
    Kernel.mod_field TaskStruct.sleepAvg fun t => Nat.mul_div_cancel _ (by decide)
  simp only [forkPenalty, if_pos hr, Kernel.mod_tasks_self]
  refine ⟨?_, ?_, fun q hq => ?_⟩
  · exact not_lt.mpr (effectivePrio_range HZ _).1
  · rw [hpar]
  · rw [Kernel.mod_tasks_ne hq, Kernel.mod_tasks_ne hq, hpar]

/-- The penalty of a child, and its activation. -/
theorem wakeChild_raises (h : activateTask HZ p ((forkPenalty HZ p k).mod p fun t =>
      { t with cpu := (forkPenalty HZ p k).rq.cpu }) = some k') :
    Raises p (CreditsAbove HZ k (k.tasks p).sleepAvg
      { k.tasks p with sleepAvg := (k.tasks p).sleepAvg * 95 / 100 }) k k' := by
  have hst : Stamps k (forkPenalty HZ p k) := forkPenalty_stamps (Same.refl _ k)
  set m := forkPenalty HZ p k with hm
  have hst' : Stamps k (m.mod p fun t => { t with cpu := m.rq.cpu }) := hst.mod fun _ => rfl
  have hne : ∀ q ≠ p, ((m.mod p fun t => { t with cpu := m.rq.cpu }).tasks q).sleepAvg =
      (m.tasks q).sleepAvg := fun q hq => by rw [Kernel.mod_tasks_ne hq]
  by_cases hr : rtTask (k.tasks p)
  · have hf : m = k := if_neg (not_not.mpr hr)
    rw [hf] at h hst' hne
    refine (activateTask_raises h hst' hne (by rw [Kernel.mod_tasks_self])).congr ?_
    rw [Kernel.mod_tasks_self]
    exact iff_of_false (fun hc => hc.1 hr) fun hc => hc.1 hr
  · obtain ⟨hmr, havg, hrest⟩ := forkPenalty_avg HZ hr
    rw [← hm] at hmr havg hrest
    refine (activateTask_raises h hst' (fun q hq => (hne q hq).trans (hrest q hq)) ?_).congr ?_
    · rw [Kernel.mod_tasks_self]
      change (m.tasks p).sleepAvg ≤ _
      omega
    · rw [Kernel.mod_tasks_self]
      refine CreditsAbove.congr hst.jiffies (iff_of_false hmr hr) (Prod.ext havg ?_)
      exact hst.field p

/-- First one task gains, then another. -/
theorem Raises.both [Decidable r] [Decidable s] (h : Raises p r k m) (h' : Raises c s m k')
    (hne : p ≠ c) (q : TaskId) :
    Slept 0 ((if r then [p] else []) ++ if s then [c] else []) k k' q := by
  have hmem : q ∈ (if r then [p] else []) ++ (if s then [c] else []) ↔
      r ∧ q = p ∨ s ∧ q = c := by
    rw [List.mem_append]
    split_ifs with hr hs hs <;> simp [hr, hs]
  have hst := h.stamps.trans h'.stamps
  refine ⟨?_, ?_, fun _ => (hst.sleepTime q).le⟩
  · rw [hmem]
    rcases eq_or_ne q p with rfl | hq
    · rw [h'.rest q hne, h.gains]
      simp [hne]
    · rw [← h.rest q hq]
      rcases eq_or_ne q c with rfl | hqc
      · rw [h'.gains]
        simp [hq]
      · simp [h'.rest q hqc, hq, hqc]
  · rcases eq_or_ne q p with rfl | hq
    · rw [h'.rest q hne]
      exact h.bound
    · rw [← h.rest q hq, ← h.stamps.sleepTime]
      rcases eq_or_ne q c with rfl | hqc
      · exact h'.bound
      · rw [h'.rest q hqc]
        exact Nat.le_add_right _ _

/-- A woken child, and before it the parent that goes to the tail of its queue. -/
theorem wakeUpForkedProcess_raises (h : wakeUpForkedProcess HZ p k = some k')
    (hne : p ≠ k.current) : ∃ m,
      Raises k.current ((k.tasks p).policy = .short ∧ Credits HZ k (k.tasks k.current)) k m ∧
      Raises p (CreditsAbove HZ k (k.tasks p).sleepAvg
        { k.tasks p with sleepAvg := (k.tasks p).sleepAvg * 95 / 100 }) m k' := by
  obtain ⟨m, hm, h⟩ := wakeUpForkedProcess_eq_some.mp h
  have h0 : Same TaskStruct.nap k (k.mod p fun t => { t with state := .running }) :=
    (Same.refl _ k).mod fun _ => rfl
  have hcore : m.core p = (k.mod p fun t => { t with state := .running }).core p :=
    (requeueParent_moves (π := Guard.free) hm).2.rest p hne
  have hpar := requeueParent_raises hm
  have hcur : (k.mod p fun t => { t with state := .running }).tasks k.current =
      k.tasks k.current := Kernel.mod_tasks_ne hne.symm
  refine ⟨m, (hpar.after h0).congr ?_, (wakeChild_raises h).congr ?_⟩
  · rw [Kernel.mod_tasks_self]
    change _ ∧ Credits HZ _ ((k.mod p fun t => { t with state := .running }).tasks k.current) ↔ _
    rw [hcur]
    exact Iff.rfl
  · have hst := (h0.map Prod.snd).trans hpar.stamps
    have ha : (m.tasks p).sleepAvg = (k.tasks p).sleepAvg := by
      rw [hpar.rest p hne, Kernel.mod_tasks_self]
    have hprio : (m.tasks p).prio = (k.tasks p).prio := by
      rw [show (m.tasks p).prio = (m.core p).prio from rfl, hcore]
      simp [Kernel.core, TaskStruct.core]
    rw [ha]
    exact CreditsAbove.congr hst.jiffies (rtTask_congr hprio) (Prod.ext rfl (hst.field p))

theorem wakeUpForkedProcess_slept (h : wakeUpForkedProcess HZ p k = some k') (hne : p ≠ k.current)
    (q : TaskId) : Slept 0 ((Op.wakeUpForkedProcess p).credited HZ k) k k' q := by
  obtain ⟨m, h1, h2⟩ := wakeUpForkedProcess_raises h hne
  exact h1.both h2 hne.symm q

theorem installPolicy_slept {acc : Accepted} {queued : Bool}
    (h : installPolicy HZ acc queued m = some k') (h0 : Same TaskStruct.nap k m)
    (hc : m.current = k.current)
    (hp : (m.tasks acc.target).staticPrio = (k.tasks acc.target).staticPrio) (q : TaskId) :
    Slept 0 (if queued = true ∧ Credits HZ k (assignPolicy acc (k.tasks acc.target)) then
      [acc.target] else []) k k' q := by
  obtain ⟨n, hn, h⟩ := installPolicy_eq_some.mp h
  have h1 : Same TaskStruct.nap k (m.mod acc.target (assignPolicy acc)) := h0.mod fun _ => rfl
  have ha : ∀ q, ((m.mod acc.target (assignPolicy acc)).tasks q).sleepAvg =
      (k.tasks q).sleepAvg := fun q => congrArg Prod.fst (h1.field q)
  have hcur : n.current = k.current := by
    obtain ⟨d, -, ho⟩ := requeue_only (mod_only (p := acc.target) (f := assignPolicy acc) rfl) hn
    exact ho.curr.trans hc
  have hr : Raises acc.target
      (queued = true ∧ Credits HZ k (assignPolicy acc (k.tasks acc.target))) k n := by
    cases queued with
    | true =>
      have hr := activateTask_raises hn (h1.map Prod.snd) (fun q _ => ha q) (ha _).le
      refine hr.congr ((CreditsAbove.congr h1.jiffies (rtTask_congr ?_) ?_).trans
        (and_iff_right rfl).symm)
      · rw [Kernel.mod_tasks_self]
        simp only [assignPolicy, hp]
      · rw [h1.field]
        rfl
    | false =>
      cases hn
      exact (h1.not_raises _).congr (by simp)
  split_ifs at h
  · have hq : Same TaskStruct.nap n (reschedTask n.current (recordSwitch .highierTaskActive n)) :=
      ((Same.refl _ n).recordSwitch _).mod fun _ => by rfl
    exact ((hr.slept q).nap hq).schedule hcur h
  · cases h
    exact hr.slept q

theorem setschedulerApply_slept {acc : Accepted} (h : setschedulerApply HZ acc k = some k')
    (q : TaskId) : Slept 0 (acc.credited HZ k) k k' q := by
  obtain ⟨m, hm, h⟩ := setschedulerApply_eq_some.mp h
  have ho := (leaveQueue_only hm).1
  have h0 : Same TaskStruct.nap k m := by
    split_ifs at hm
    · exact (Same.refl _ k).deactivate nap_offLists hm
    · cases hm
      exact Same.refl _ k
  have hp : (m.tasks acc.target).policy = (k.tasks acc.target).policy := by
    rw [show (m.tasks acc.target).policy = (m.core acc.target).policy from rfl, ho.self,
      Core.left_policy]
    rfl
  have hst : (m.tasks acc.target).staticPrio = (k.tasks acc.target).staticPrio := by
    rw [show (m.tasks acc.target).staticPrio = (m.core acc.target).staticPrio from rfl, ho.self]
    unfold Core.left
    split_ifs <;> rfl
  have hmem : ¬ ((k.tasks acc.target).policy = .short ∧ acc.policy = .short) →
      (q ∈ (if (k.tasks acc.target).array.isSome = true ∧
        Credits HZ k (assignPolicy acc (k.tasks acc.target)) then [acc.target] else []) ↔
      q ∈ acc.credited HZ k) := by
    intro hn
    simp only [Accepted.credited, and_iff_right hn, Option.isSome_iff_ne_none]
  rw [hp] at h
  split_ifs at h with h1 h2
  · have hb : Same TaskStruct.nap k (m.mod acc.target (becomeShort HZ acc.user m.rq.shortQ)) :=
      h0.mod fun _ => rfl
    refine (installPolicy_slept h hb ho.curr ?_ q).congr (hmem fun hc => ?_)
    · rw [Kernel.mod_tasks_self, ← hst]
      rfl
    · rw [h1.1] at hc
      cases hc.1
  · obtain rfl := Option.some.inj h
    have hb : Same TaskStruct.nap k (m.mod acc.target fun t =>
      { t with requestedTime := acc.user.deref .requestedTimeStore }) := h0.mod fun _ => rfl
    refine (hb.rests.slept q).congr ?_
    simp [Accepted.credited, h2]
  · exact (installPolicy_slept h h0 ho.curr hst q).congr (hmem h2)

/-! A fork by a SHORT task. -/

theorem forkSplit_nap (pid : ℤ) (k : Kernel) (c : TaskId) :
    (forkSplit c (forkCopy c pid k)).jiffies = k.jiffies ∧
      ∀ q ≠ c, ((forkSplit c (forkCopy c pid k)).tasks q).nap = (k.tasks q).nap := by
  have h1 := shareTrials_nap c (shareSlice c (forkCopy c pid k))
  refine ⟨h1.jiffies, fun q hq => (h1.field q).trans ?_⟩
  have h2 : ∀ l : Kernel, Same TaskStruct.nap l (l.mod (forkCopy c pid k).current fun t =>
      { t with timeSlice := t.timeSlice / 2 }) := fun l => (Same.refl _ l).mod fun _ => rfl
  unfold shareSlice
  dsimp only
  rw [Kernel.mod_tasks_ne hq, (h2 _).field, Kernel.mod_tasks_ne hq, forkCopy,
    Kernel.mod_tasks_ne hq]

theorem Core.SharedOut.of_overdue {ps : Ptrs} {b d : Core} (h : b.SharedOut HZ ps d)
    (ho : b.IsOverdue) : d.prio = b.prio := by
  have hn : ¬ b.IsShort := fun hs => by cases hs.2.symm.trans ho.2
  have hf : b.forking = b := if_neg hn
  cases h with
  | keeps => rw [hf]; rfl
  | ticks h2 hd =>
    rw [hf] at hd
    cases hd with
    | skip => rfl
    | down h =>
      rcases h with h | h | h
      · exact absurd h hn
      · cases ho.1.symm.trans h
      · exact absurd ho.1 h.1
    | trial h => exact absurd h hn
    | overdue h => exact absurd h hn
    | rrSlice h => cases ho.1.symm.trans h
    | otherSlice a i h => exact absurd ho.1 h

/-- Where the parent is real-time when it is queued again. -/
theorem forkTick_rtTask {ps : Ptrs} {d : Core} (hs : Sound k)
    (hp : (k.tasks k.current).policy = .short)
    (h0 : (k.tasks k.current).timeSlice ≠ 0) (h : (k.core k.current).SharedOut HZ ps d) :
    d.prio < 100 ↔ ForkTickOverdue HZ (k.tasks k.current) ∨ rtTask (k.tasks k.current) := by
  cases ho : (k.tasks k.current).isOverdue with
  | true =>
    have hov : (k.core k.current).IsOverdue := ⟨hp, ho⟩
    have hz : (k.core k.current).prio = 0 :=
      (hs.arranged.tasks _ (hs.ne_idle hp)).prio.overdue hov
    have hrt : rtTask (k.tasks k.current) := by
      change (k.core k.current).prio < _
      rw [hz]
      decide
    rw [h.of_overdue hov, hz]
    exact iff_of_true (by decide) (Or.inr hrt)
  | false =>
    have hc : (k.core k.current).ShortRanged :=
      ⟨⟨hp, ho⟩, (hs.arranged.tasks _ (hs.ne_idle hp)).prio.short ⟨hp, ho⟩,
        hs.arranged.static k.current⟩
    have hrt : ¬ rtTask (k.tasks k.current) := not_lt.mpr hc.prio.1
    rcases h.of_short hc h0 with ⟨-, hprio, -, hno⟩ | ⟨-, hprio, hyes⟩
    · rw [hprio]
      exact iff_of_false (not_lt.mpr hc.prio.1) (not_or.mpr ⟨hno, hrt⟩)
    · rw [hprio]
      exact iff_of_true (by decide) (Or.inl hyes)

theorem forkTick_nap (hs : (k.tasks k.current).policy = .short) (h : forkTick HZ k = some k') :
    Same TaskStruct.nap k k' := by
  obtain ⟨-, h⟩ | ⟨-, rfl⟩ := forkTick_cases h
  · have h1 : Same TaskStruct.nap k (k.mod k.current fun t => { t with timeSlice := 1 }) :=
      (Same.refl _ k).mod fun _ => by rfl
    refine h1.trans (schedulerTick_nap ?_ h)
    change ((k.mod k.current fun t => { t with timeSlice := 1 }).tasks k.current).policy = _
    rwa [Kernel.mod_tasks_self]
  · exact Same.refl _ k'

theorem forkTick_rests (h : forkTick HZ k = some k') : Rests k k' := by
  obtain ⟨-, h⟩ | ⟨-, rfl⟩ := forkTick_cases h
  · have h1 : Same TaskStruct.nap k (k.mod k.current fun t => { t with timeSlice := 1 }) :=
      (Same.refl _ k).mod fun _ => by rfl
    exact h1.rests.trans (schedulerTick_rests h)
  · exact Rests.refl k'

theorem linkChild_nap (child : TaskId) (cloneParent : Bool) (k : Kernel) :
    Same TaskStruct.nap k (linkChild child cloneParent k) := by
  have h1 : Same TaskStruct.nap k (k.mod child fun t =>
      { t with pOpptr := if cloneParent then (k.tasks k.current).pOpptr else k.current }) :=
    (Same.refl _ k).mod fun _ => rfl
  exact h1.of_tasks rfl rfl

/-- The parent is credited in a fork unless its last tick made it overdue. -/
theorem forkTick_credits {pid : ℤ} (cloneParent : Bool) (hs : Sound k)
    (he : Enabled k (.doFork c pid false cloneParent))
    (hp : (k.tasks k.current).policy = .short) (h0 : (k.tasks k.current).timeSlice ≠ 0)
    (hm : forkTick HZ (forkSplit c (forkCopy c pid k)) = some m) :
    (∀ q ≠ c, ((linkChild c cloneParent m).tasks q).nap = (k.tasks q).nap) ∧
      (Credits HZ (linkChild c cloneParent m) ((linkChild c cloneParent m).tasks k.current) ↔
        ¬ ForkTickOverdue HZ (k.tasks k.current) ∧ Credits HZ k (k.tasks k.current)) := by
  obtain ⟨-, hidle, hcur, -⟩ := he
  obtain ⟨d, hshare, hb⟩ := forkTick_parts hcur.symm hidle.symm hs.idle.not_short hm
  have hbs := forkSplit_both (k := k) pid hcur.symm
  obtain ⟨hj, hsplit⟩ := forkSplit_nap pid k c
  have hpol : ((forkSplit c (forkCopy c pid k)).tasks
      (forkSplit c (forkCopy c pid k)).current).policy = .short := by
    rw [show (forkSplit c (forkCopy c pid k)).current = k.current from hbs.curr]
    change ((forkSplit c (forkCopy c pid k)).core k.current).policy = _
    rw [hbs.left]
    exact (Core.forking_policy _).trans hp
  have htick := (forkTick_nap hpol hm).trans (linkChild_nap c cloneParent m)
  have hnap : ∀ q ≠ c, ((linkChild c cloneParent m).tasks q).nap = (k.tasks q).nap :=
    fun q hq => (htick.field q).trans (hsplit q hq)
  have hrt : rtTask ((linkChild c cloneParent m).tasks k.current) ↔
      ForkTickOverdue HZ (k.tasks k.current) ∨ rtTask (k.tasks k.current) := by
    rw [← forkTick_rtTask hs hp h0 hshare, ← hb.left]
    rw [← linkChild_core c cloneParent m]
    rfl
  have ha : ((linkChild c cloneParent m).tasks k.current).sleepAvg =
      (k.tasks k.current).sleepAvg := congrArg Prod.fst (hnap _ hcur.symm)
  have hst : ((linkChild c cloneParent m).tasks k.current).sleepTimestamp =
      (k.tasks k.current).sleepTimestamp := congrArg Prod.snd (hnap _ hcur.symm)
  refine ⟨hnap, ?_⟩
  unfold Credits CreditsAbove sleepTime
  rw [hrt, ha, hst, htick.jiffies, hj, not_or, and_assoc]

/-- Of a fork, only the activation of a SHORT parent raises a sleep average. -/
theorem doFork_slept {pid : ℤ} {vfork cloneParent : Bool} (hs : Sound k)
    (he : Enabled k (.doFork c pid vfork cloneParent))
    (h : doFork HZ c pid vfork cloneParent k = some k') (hq : q ≠ c) :
    Slept 0 ((Op.doFork c pid vfork cloneParent).credited HZ k) k k' q := by
  obtain ⟨hfresh, hidle, hcur, hfree⟩ := he
  obtain ⟨h0, m, n, hm, hn, rfl⟩ := doFork_eq_some.mp h
  obtain ⟨d, hshare, hb⟩ := forkTick_parts hcur.symm hidle.symm hs.idle.not_short hm
  obtain ⟨hj, hsplit⟩ := forkSplit_nap pid k c
  have hlink := linkChild_nap c cloneParent m
  have hcore := linkChild_core c cloneParent m
  have hlcur : (linkChild c cloneParent m).current = k.current := hb.curr
  have hpol : ((linkChild c cloneParent m).tasks c).policy = (k.tasks k.current).policy := by
    change ((linkChild c cloneParent m).core c).policy = _
    rw [hcore, hb.right]
    rfl
  have htick : Rests (forkSplit c (forkCopy c pid k)) (linkChild c cloneParent m) :=
    (forkTick_rests hm).trans hlink.rests
  have hst : sleepTime (linkChild c cloneParent m) ((linkChild c cloneParent m).tasks q) =
      sleepTime k (k.tasks q) := by
    rw [htick.stamps.sleepTime]
    unfold sleepTime
    rw [hj, show (_ : TaskStruct).sleepTimestamp = _ from congrArg Prod.snd (hsplit q hq)]
  have hle : ((linkChild c cloneParent m).tasks q).sleepAvg ≤ (k.tasks q).sleepAvg :=
    (htick.avg q).trans (congrArg Prod.fst (hsplit q hq)).le
  obtain ⟨w, h1, h2⟩ := wakeUpForkedProcess_raises hn (hlcur ▸ hcur)
  rw [hlcur, hpol] at h1
  have hlast : Same TaskStruct.nap n
      (if vfork then n else reschedTask n.current (recordSwitch .taskCreated n)) := by
    split_ifs
    · exact Same.refl _ n
    · exact ((Same.refl _ n).recordSwitch _).mod fun _ => by rfl
  refine Slept.nap ?_ hlast
  have havg : (n.tasks q).sleepAvg = (w.tasks q).sleepAvg := h2.rest q hq
  have hstn : sleepTime n (n.tasks q) = sleepTime k (k.tasks q) := by
    rw [(h1.stamps.trans h2.stamps).sleepTime, hst]
  have hw := h1.slept q
  refine ⟨?_, ?_, fun _ => hstn.le⟩
  · rw [havg]
    by_cases hp : (k.tasks k.current).policy = .short
    · obtain ⟨hnap, hcred⟩ := forkTick_credits cloneParent hs ⟨hfresh, hidle, hcur, hfree⟩ hp h0 hm
      have hlq : ((linkChild c cloneParent m).tasks q).sleepAvg = (k.tasks q).sleepAvg :=
        congrArg Prod.fst (hnap q hq)
      rw [← hlq, hw.gains]
      simp only [Op.credited, hp, hcred, true_and]
    · have hno : ¬ ((linkChild c cloneParent m).tasks q).sleepAvg < (w.tasks q).sleepAvg := by
        rw [hw.gains]
        simp [hp]
      simp only [Op.credited, hp, false_and, if_false, List.not_mem_nil, iff_false]
      omega
  · rw [havg, ← hst]
    exact hw.bound.trans (Nat.add_le_add_right hle _)

/-! One operation. -/

theorem advance_slept (e : ℕ) (k : Kernel) (q : TaskId) :
    Slept e [] k { k with jiffies := u32 (k.jiffies + e) } q where
  gains := by simp
  bound := Nat.le_add_right _ _
  stamp _ := by
    simp only [sleepTime, u32]
    omega

theorem setscheduler_slept {pid policy i : ℤ} {param : Option UserParam}
    (h : setscheduler HZ pid policy param k = some (i, k')) (q : TaskId) :
    Slept 0 ((setschedulerCheck k pid policy param).toOption.elim [] (Accepted.credited HZ k))
      k k' q := by
  obtain ⟨e, he, -, rfl⟩ | ⟨acc, hacc, -, h⟩ := setscheduler_cases h
  · rw [he]
    exact (Rests.refl k').slept q
  · rw [hacc]
    exact setschedulerApply_slept h q

/-- The sleep average of a task rises in an operation exactly when the operation credits it. -/
theorem exec_slept (h : exec HZ op k = some k') (hs : Sound k) (he : Enabled k op)
    (hq : op.child ≠ some q) : Slept op.elapsed (op.credited HZ k) k k' q := by
  cases op with
  | advance n =>
    cases h
    exact advance_slept n k q
  | setSigpending p b =>
    cases h
    exact ((Same.refl TaskStruct.nap k).mod fun _ => by rfl).rests.slept q
  | setCredentials p uid euid capSysNice =>
    cases h
    exact ((Same.refl TaskStruct.nap k).mod fun _ => by rfl).rests.slept q
  | setCurrentState s =>
    cases h
    exact ((Same.refl TaskStruct.nap k).mod fun _ => by rfl).rests.slept q
  | schedule reason =>
    rcases reason with _ | r
    · exact ((Rests.refl k).slept q).schedule rfl h
    · exact (((Same.refl TaskStruct.nap k).recordSwitch r).rests.slept q).schedule rfl h
  | schedulerTick => exact (schedulerTick_rests h).slept q
  | tryToWakeUp p => exact tryToWakeUp_slept h q
  | wakeUpForkedProcess p => exact wakeUpForkedProcess_slept h he.2.1 q
  | doFork child pid vfork cloneParent =>
    exact doFork_slept hs he h fun hc => hq (congrArg some hc.symm)
  | setUserNice p nice => exact (setUserNice_nap h).rests.slept q
  | sysNice increment =>
    obtain ⟨⟨r, m⟩, hm, rfl⟩ := Option.map_eq_some_iff.mp h
    obtain rfl | hn := sysNice_cases hm
    · exact (Rests.refl m).slept q
    · exact (setUserNice_nap hn).rests.slept q
  | sysSchedYield =>
    obtain ⟨m, hm, h⟩ := Option.bind_eq_some_iff.mp h
    have hc : (recordSwitch .taskYields m).current = k.current := by
      obtain ⟨-, a, i, -, -, -, -, ho⟩ := yieldMove_only hm
      exact ho.curr
    exact (((yieldMove_nap hm).recordSwitch _).rests.slept q).schedule hc h
  | sysSchedSetscheduler pid policy param =>
    obtain ⟨⟨r, m⟩, hm, rfl⟩ := Option.map_eq_some_iff.mp h
    exact setscheduler_slept (sysSchedSetscheduler_eq hm) q
  | sysSchedSetparam pid param =>
    obtain ⟨⟨r, m⟩, hm, rfl⟩ := Option.map_eq_some_iff.mp h
    exact setscheduler_slept hm q
  | exitNotify reaper childReaper =>
    cases h
    exact (exitNotify_nap _ _ _).rests.slept q
  | releaseTask p =>
    cases h
    exact (releaseTask_rests p k).slept q
  | initIdle => exact (initIdle_nap h).rests.slept q

end
end ShortSched
