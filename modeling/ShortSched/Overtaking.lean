import ShortSched.Separation
import ShortSched.Lib.Fifo

/-! The order of two tasks on a queue: while `a` is ahead of `b`, no function of the scheduler
that leaves `a` on its queue lets `b` overtake it. -/
namespace ShortSched
open Fifo

/-- No queue on which `a` is ahead of `b` is touched but behind `a`, or by a task that leaves it;
the running task stays, and so does a request to reschedule `b`. -/
structure Steady (a b : TaskId) (k k' : Kernel) : Prop where
  current : k'.current = k.current
  shortQ : k'.rq.shortQ = k.rq.shortQ
  resched : (k.tasks b).needResched = true → (k'.tasks b).needResched = true
  order : ∀ c i, Ahead a b (k.queue c i) → Ahead a b (k'.queue c i)

section
variable {HZ : ℕ} {a b p q : TaskId} {c d : ArrayIdx} {i j : ℤ} {k k' m : Kernel}
  {f : TaskStruct → TaskStruct} {g : Runqueue → Runqueue} {h : PrioArray → PrioArray}

theorem Steady.refl (k : Kernel) : Steady a b k k := ⟨rfl, rfl, id, fun _ _ => id⟩

theorem Steady.trans (h : Steady a b k m) (h' : Steady a b m k') : Steady a b k k' where
  current := h'.current.trans h.current
  shortQ := h'.shortQ.trans h.shortQ
  resched hr := h'.resched (h.resched hr)
  order c i ha := h'.order c i (h.order c i ha)

/-! The primitives. -/

theorem Steady.mod (h : Steady a b k m)
    (hf : ∀ t : TaskStruct, t.needResched = true → (f t).needResched = true) :
    Steady a b k (m.mod p f) where
  current := h.current
  shortQ := h.shortQ
  resched hr := by
    have hm := h.resched hr
    by_cases hp : b = p
    · rw [hp] at hm ⊢
      rw [Kernel.mod_tasks_self]
      exact hf _ hm
    · rwa [Kernel.mod_tasks_ne hp]
  order := h.order

/-- Any assignment to another task. -/
theorem Steady.mod_ne (h : Steady a b k m) (hp : b ≠ p) : Steady a b k (m.mod p f) :=
  ⟨h.current, h.shortQ, fun hr => by rw [Kernel.mod_tasks_ne hp]; exact h.resched hr, h.order⟩

theorem Steady.modRq (h : Steady a b k m) (hc : (g m.rq).curr = m.rq.curr)
    (hs : (g m.rq).shortQ = m.rq.shortQ) (ha : (g m.rq).arrays = m.rq.arrays) :
    Steady a b k (m.modRq g) where
  current := hc.trans h.current
  shortQ := hs.trans h.shortQ
  resched := h.resched
  order c i hq := by
    have hq' : (m.modRq g).queue c i = m.queue c i := by
      change ((g m.rq).arrays c).queue i = _
      rw [ha]
      rfl
    rw [hq']
    exact h.order c i hq

/-- A change of one array that keeps the order on its queues. -/
theorem Steady.modArray {e : PrioArray → PrioArray} (h : Steady a b k m)
    (hq : ∀ i, Ahead a b (m.queue c i) → Ahead a b ((e (m.rq.arrays c)).queue i)) :
    Steady a b k (m.modArray c e) where
  current := h.current
  shortQ := h.shortQ
  resched := h.resched
  order d i ha := by
    have hm := h.order d i ha
    by_cases hd : d = c
    · subst hd
      rw [Kernel.modArray_queue_self]
      exact hq i hm
    · rwa [Kernel.queue, Kernel.modArray_arrays, Function.update_of_ne hd]

theorem Steady.modQueue {l : List TaskId → List TaskId} (h : Steady a b k m)
    (hl : Ahead a b (m.queue c j) → Ahead a b (l (m.queue c j))) :
    Steady a b k (m.modQueue c j l) := by
  apply h.modArray
  intro i ha
  change Ahead a b (Function.update (m.queue c) j (l (m.queue c j)) i)
  by_cases hi : i = j
  · subst hi
    rw [Function.update_self]
    exact hl ha
  · rwa [Function.update_of_ne hi]

theorem Steady.listDel (h : Steady a b k m) (hp : p ≠ a) (hd : listDel p m = some k') :
    Steady a b k k' := by
  obtain ⟨l, -, -, rfl⟩ := listDel_eq_some.mp hd
  exact (h.modQueue fun ha => ha.erase hp).mod fun _ => id

theorem Steady.listAddTail (h : Steady a b k m) (hd : listAddTail p c i m = some k') :
    Steady a b k k' := by
  obtain ⟨-, rfl⟩ := listAdd_eq_some.mp hd
  exact (h.modQueue fun ha => ha.append [p]).mod fun _ => id

theorem Steady.dequeue (h : Steady a b k m) (hp : p ≠ a) (hd : dequeueTask p c m = some k') :
    Steady a b k k' := by
  simp only [dequeueTask, Option.bind_eq_bind, Option.bind_eq_some_iff] at hd
  obtain ⟨n, hn, hd⟩ := hd
  have h1 := (h.modArray fun _ => by exact id).listDel hp hn
  split_ifs at hd <;> cases hd
  · exact h1.modArray fun _ => id
  · exact h1

theorem Steady.enqueue (h : Steady a b k m) (he : enqueueTask p c m = some k') :
    Steady a b k k' := by
  simp only [enqueueTask, Option.bind_eq_bind, Option.bind_eq_some_iff, Option.pure_def,
    Option.some.injEq] at he
  obtain ⟨n, hn, rfl⟩ := he
  exact (((h.listAddTail hn).modArray fun _ => id).modArray fun _ => id).mod fun _ => id

theorem Steady.activate (h : Steady a b k m) (ha : activateTask HZ p m = some k') :
    Steady a b k k' := by
  simp only [activateTask, Option.bind_eq_bind, Option.bind_eq_some_iff, Option.pure_def,
    Option.some.injEq] at ha
  obtain ⟨n, hn, rfl⟩ := ha
  refine Steady.modRq (Steady.enqueue ?_ hn) rfl rfl rfl
  split_ifs
  · exact h.mod fun _ => id
  · exact h

theorem Steady.deactivate (h : Steady a b k m) (hp : p ≠ a) (hd : deactivateTask p m = some k') :
    Steady a b k k' := by
  rw [deactivateTask_eq, Option.map_eq_some_iff] at hd
  obtain ⟨n, hn, rfl⟩ := hd
  obtain ⟨c, -, hn⟩ := Option.bind_eq_some_iff.mp hn
  have h1 : Steady a b k (m.uncounted p) := h.modRq rfl rfl rfl
  exact (h1.dequeue hp hn).mod fun _ => id

theorem Steady.recordSwitch (h : Steady a b k m) (reason : SwitchReason) :
    Steady a b k (recordSwitch reason m) :=
  h.modRq rfl rfl rfl

theorem Steady.reschedTask (h : Steady a b k m) (p : TaskId) : Steady a b k (reschedTask p m) :=
  h.mod fun _ _ => rfl

/-! Ticks. -/

theorem Steady.becomeOverdue (h : Steady a b k m) (hp : p ≠ a)
    (ho : becomeOverdue p m = some k') : Steady a b k k' := by
  obtain ⟨n, hn, n', hn', rfl⟩ := becomeOverdue_eq_some.mp ho
  have h1 := (h.mod fun _ => by exact id).dequeue hp hn
  exact (((h1.mod fun _ => by exact id).enqueue hn').mod fun _ => by exact id).recordSwitch _

theorem tickShort_steady (hp : p ≠ a) (h : tickShort HZ p k = some k') : Steady a b k k' := by
  have h1 : Steady a b k (countDown p k) := (Steady.refl k).mod fun _ => id
  have h2 : Steady a b k (endTrial p k) := h1.mod fun _ => id
  have h3 : Steady a b k (newTrial HZ p k) := h2.mod fun _ => id
  cases tickShort_cases h with
  | goesOn => exact h1
  | trialsOver m _ _ hm => exact (h2.becomeOverdue hp hm).reschedTask p
  | noTime m _ _ hm => exact (h3.becomeOverdue hp hm).reschedTask p
  | nextTrial m n _ _ _ hdown hup =>
    exact (((h3.dequeue hp hdown).enqueue hup).recordSwitch _).reschedTask p

theorem tickRt_steady (hp : p ≠ a) (h : tickRt HZ p k = some k') : Steady a b k k' := by
  have h1 : Steady a b k (countDown p k) := (Steady.refl k).mod fun _ => id
  cases tickRt_cases h with
  | fifo _ he =>
    rw [he]
    exact Steady.refl k
  | goesOn _ _ he => rwa [he]
  | newSlice m _ _ hdown hup =>
    exact (((h1.mod fun _ => by exact id).reschedTask p).dequeue hp hdown).enqueue hup

theorem Steady.stampExpired (h : Steady a b k m) : Steady a b k (stampExpired m) := by
  unfold ShortSched.stampExpired
  split_ifs
  · exact h.modRq rfl rfl rfl
  · exact h

theorem tickOther_steady (hp : p ≠ a) (h : tickOther HZ p k = some k') : Steady a b k k' := by
  have h1 : Steady a b k (wearDown p k) := ((Steady.refl k).mod fun _ => by exact id).mod fun _ => id
  have hrenewed : ∀ m, dequeueTask p k.rq.active (wearDown p k) = some m →
      Steady a b k (renewed HZ p m) := fun m hm =>
    ((h1.dequeue hp hm).reschedTask p).mod fun _ => id
  cases tickOther_cases h with
  | goesOn _ he => rwa [he]
  | expires m _ hdown hup => exact (hrenewed m hdown).stampExpired.enqueue hup
  | stays m _ hdown hup => exact (hrenewed m hdown).enqueue hup

theorem schedulerTick_steady (hp : k.current ≠ a) (h : schedulerTick HZ k = some k') :
    Steady a b k k' := by
  simp only [schedulerTick] at h
  split_ifs at h
  · cases h
    exact Steady.refl k
  · exact tickShort_steady hp h
  · cases h
    exact Steady.refl k
  · cases h
    exact (Steady.refl k).reschedTask _
  · exact tickRt_steady hp h
  · exact tickOther_steady hp h

/-- A tick that leaves a SHORT task some of its slice. -/
theorem schedulerTick_steady_of_slice (hs : Short (k.tasks k.current))
    (ht : u32 ((k.tasks k.current).timeSlice - 1) ≠ 0) (h : schedulerTick HZ k = some k') :
    Steady a b k k' := by
  simp only [schedulerTick, if_pos hs.1, if_pos hs.2] at h
  split_ifs at h
  · cases h
    exact Steady.refl k
  · cases tickShort_cases h with
    | goesOn => exact (Steady.refl k).mod fun _ => id
    | trialsOver _ h0 => exact absurd h0 ht
    | noTime _ h0 => exact absurd h0 ht
    | nextTrial _ _ h0 => exact absurd h0 ht

/-! Wake-ups and forks. -/

theorem tryToWakeUp_steady (h : tryToWakeUp HZ p k = some k') : Steady a b k k' := by
  obtain ⟨m, hm, rfl⟩ := Option.map_eq_some_iff.mp h
  refine Steady.mod ?_ fun _ => id
  split_ifs at hm with ha
  · simp only [wakeQueue, Option.bind_eq_bind, Option.bind_eq_some_iff] at hm
    obtain ⟨n, hn, hm⟩ := hm
    have h1 : Steady a b k n := by
      refine Steady.activate ?_ hn
      split_ifs
      · exact (Steady.refl k).modRq rfl rfl rfl
      · exact Steady.refl k
    split_ifs at hm <;> cases hm
    · exact (h1.recordSwitch _).reschedTask _
    · exact h1
  · cases hm
    exact Steady.refl k

theorem Steady.requeueParent (h : Steady a b k m)
    (hc : (m.tasks p).policy = .short → m.current ≠ a) (hr : requeueParent HZ p m = some k') :
    Steady a b k k' := by
  obtain ⟨hs, n, hn, -, hr⟩ | ⟨-, rfl⟩ := requeueParent_cases hr
  · exact (h.deactivate (hc hs) hn).activate hr
  · exact h

theorem Steady.forkPenalty (h : Steady a b k m) : Steady a b k (forkPenalty HZ p m) := by
  unfold ShortSched.forkPenalty
  split_ifs
  · exact h
  · exact ((h.mod fun _ => by exact id).mod fun _ => by exact id).mod fun _ => id

theorem Steady.wakeUpForkedProcess (h : Steady a b k m)
    (hc : (m.tasks p).policy = .short → m.current ≠ a)
    (hw : wakeUpForkedProcess HZ p m = some k') : Steady a b k k' := by
  obtain ⟨n, hn, hw⟩ := wakeUpForkedProcess_eq_some.mp hw
  have hpol : ((m.mod p fun t => { t with state := .running }).tasks p).policy =
      (m.tasks p).policy := by rw [Kernel.mod_tasks_self]
  have h1 := (h.mod fun _ => by exact id).requeueParent (hpol ▸ hc) hn
  exact (h1.forkPenalty.mod fun _ => by exact id).activate hw

theorem forkSplit_steady {child : TaskId} {pid : ℤ} (hb : b ≠ child) :
    Steady a b k (forkSplit child (forkCopy child pid k)) := by
  have h1 : Steady a b k (forkCopy child pid k) := (Steady.refl k).mod_ne hb
  have h2 : Steady a b k (shareSlice child (forkCopy child pid k)) := by
    unfold shareSlice
    exact ((h1.mod_ne hb).mod fun _ => by exact id).mod_ne hb
  unfold forkSplit shareTrials
  dsimp only
  split_ifs
  · exact (((h2.mod_ne hb).mod_ne hb).mod fun _ => by exact id).mod_ne hb
  · exact (h2.mod_ne hb).mod_ne hb
  · exact h2.mod_ne hb

theorem forkTick_steady {child : TaskId} {pid : ℤ} (hb : b ≠ child) (hc : k.current ≠ a)
    (h : forkTick HZ (forkSplit child (forkCopy child pid k)) = some k') : Steady a b k k' := by
  have h1 : Steady a b k (forkSplit child (forkCopy child pid k)) := forkSplit_steady hb
  obtain ⟨-, h⟩ | ⟨-, rfl⟩ := forkTick_cases h
  · refine (h1.mod fun _ => by exact id).trans (schedulerTick_steady ?_ h)
    rw [show Kernel.current (Kernel.mod _ _ _) = k.current from h1.current]
    exact hc
  · exact h1

theorem doFork_steady {child : TaskId} {pid : ℤ} {vfork cloneParent : Bool} (hb : b ≠ child)
    (hc : k.current ≠ a) (h : doFork HZ child pid vfork cloneParent k = some k') :
    Steady a b k k' := by
  obtain ⟨-, m, n, hm, hn, rfl⟩ := doFork_eq_some.mp h
  have h1 := forkTick_steady (a := a) hb hc hm
  have h2 : Steady a b k (linkChild child cloneParent m) := by
    have h := h1.mod_ne (f := fun t => { t with
      pOpptr := if cloneParent then (m.tasks m.current).pOpptr else m.current }) hb
    exact ⟨h.current, h.shortQ, h.resched, h.order⟩
  have h3 := h2.wakeUpForkedProcess (fun _ => h2.current ▸ hc) hn
  split_ifs
  · exact h3
  · exact (h3.recordSwitch _).reschedTask _

/-! Priorities and policies. -/

/-- `set_user_nice` leaves a SHORT task alone. -/
theorem setUserNice_steady {nice : ℤ} (hp : p = a → (k.tasks p).policy = .short)
    (h : setUserNice p nice k = some k') : Steady a b k k' := by
  have h0 := Steady.refl (a := a) (b := b) k
  cases setUserNice_cases h with
  | ignored => exact h0
  | realTime => exact h0.mod fun _ => id
  | unqueued => exact h0.mod fun _ => id
  | requeued c m n hn _ _ hdown hup =>
    have hpa : p ≠ a := fun he => hn (Or.inr (Or.inr (Or.inr (hp he))))
    have h1 := ((h0.dequeue hpa hdown).mod fun _ => by exact id).enqueue hup
    split_ifs
    · exact (h1.recordSwitch _).reschedTask _
    · exact h1

theorem sysNice_steady {increment r : ℤ} (hp : k.current = a → (k.tasks k.current).policy = .short)
    (h : sysNice increment k = some (r, k')) : Steady a b k k' := by
  obtain rfl | hn := sysNice_cases h
  · exact Steady.refl _
  · exact setUserNice_steady hp hn

/-- Up to the call of `schedule` that ends it, if any. -/
def SteadyUntil (a b : TaskId) (k k' : Kernel) : Prop :=
  Steady a b k k' ∨ ∃ m, Steady a b k m ∧ schedule m = some k'

theorem setschedulerApply_steady {acc : Accepted} (hp : acc.target ≠ a)
    (h : setschedulerApply HZ acc k = some k') : SteadyUntil a b k k' := by
  obtain ⟨m, hm, h⟩ := setschedulerApply_eq_some.mp h
  have h1 : Steady a b k m := by
    split_ifs at hm
    · exact (Steady.refl k).deactivate hp hm
    · cases hm
      exact Steady.refl k
  have hinstall : ∀ {l : Kernel} {queued : Bool}, Steady a b k l →
      installPolicy HZ acc queued l = some k' → SteadyUntil a b k k' := by
    intro l queued hl h
    obtain ⟨n, hn, h⟩ := installPolicy_eq_some.mp h
    have h2 : Steady a b k n := by
      split_ifs at hn
      · exact (hl.mod fun _ => by exact id).activate hn
      · cases hn
        exact hl.mod fun _ => id
    split_ifs at h
    · exact Or.inr ⟨_, (h2.recordSwitch _).reschedTask _, h⟩
    · cases h
      exact Or.inl h2
  split_ifs at h
  · exact hinstall (h1.mod fun _ => by exact id) h
  · cases h
    exact Or.inl (h1.mod fun _ => id)
  · exact hinstall h1 h

theorem setscheduler_steady {pid policy r : ℤ} {param : Option UserParam}
    (hp : ∀ acc, setschedulerCheck k pid policy param = .ok acc → acc.target ≠ a)
    (h : setscheduler HZ pid policy param k = some (r, k')) : SteadyUntil a b k k' := by
  obtain ⟨e, -, -, rfl⟩ | ⟨acc, hacc, -, hm⟩ := setscheduler_cases h
  · exact Or.inl (Steady.refl k')
  · exact setschedulerApply_steady (hp acc hacc) hm

/-! Exit and the idle task. -/

theorem exitNotify_steady (reaper childReaper : TaskId) (k : Kernel) :
    Steady a b k (exitNotify reaper childReaper k) := by
  have h1 : Steady a b k (forgetOriginalParent reaper childReaper k.current k) := by
    refine ⟨rfl, rfl, fun hr => ?_, fun _ _ => id⟩
    unfold forgetOriginalParent
    dsimp only
    split_ifs <;> exact hr
  exact h1.mod fun _ => id

theorem releaseTask_steady (p : TaskId) (k : Kernel) : Steady a b k (releaseTask HZ p k) := by
  have h0 : Steady a b k { k with pidhash := k.pidhash.erase p } :=
    ⟨rfl, rfl, id, fun _ _ => id⟩
  have h1 : Steady a b k (returnSlice HZ p { k with pidhash := k.pidhash.erase p }) := by
    unfold returnSlice
    split_ifs
    · exact h0.mod fun _ => id
    · exact h0
  have h2 : Steady a b k (schedExit HZ p { k with pidhash := k.pidhash.erase p }) := by
    unfold schedExit weighSleep
    split_ifs
    · exact h1.mod fun _ => id
    · exact h1
  unfold releaseTask
  exact h2.mod fun _ => id

theorem initIdle_steady (hc : k.current ≠ a) (h : initIdle k = some k') : Steady a b k k' := by
  obtain ⟨m, hm, rfl⟩ := initIdle_eq_some.mp h
  have h0 : Steady a b k (k.modRq fun rq => { rq with curr := k.current, idle := k.current }) :=
    (Steady.refl k).modRq rfl rfl rfl
  exact (h0.deactivate hc hm).mod fun _ _ => rfl

/-! The context switch. -/

/-- `a` keeps its place when it goes to `schedule` without leaving its queue. -/
theorem schedulePrev_steady (hp : p = a → (k'.core a).runList ≠ none)
    (h : schedulePrev p k = some k') : Steady a b k k' := by
  have h0 := Steady.refl (a := a) (b := b) k
  have h1 : Steady a b k (stampSleep p k) := h0.mod fun _ => id
  obtain ⟨-, rfl⟩ | ⟨-, rfl⟩ | ⟨-, hm⟩ := schedulePrev_cases h
  · exact h1
  · exact h1.mod fun _ => id
  · apply h1.deactivate _ hm
    rintro rfl
    obtain ⟨-, h2⟩ := deactivateTask_only hm
    apply hp rfl
    rw [h2.self]
    rfl

end
end ShortSched
