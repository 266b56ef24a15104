import ShortSched.Separation

/-! Progress: in which states each function of the scheduler goes through without following
a NULL pointer or corrupting a list. -/
namespace ShortSched
open Buckets PartialRun

/-- `p` is linked on this runqueue. -/
def Here (k : Kernel) (p : TaskId) : Prop := ∃ l, (k.tasks p).runList = some l ∧ l.cpu = k.rq.cpu

section
variable {HZ : ℕ} {k k' : Kernel} {p q : TaskId} {c : Core} {a : ArrayIdx} {d : ℤ}
  {f : TaskStruct → TaskStruct}

theorem Here.mod (h : Here k p) (q : TaskId) (f : TaskStruct → TaskStruct)
    (hf : ∀ t, (f t).runList = t.runList) : Here (k.mod q f) p := by
  obtain ⟨l, hl, hc⟩ := h
  exact ⟨l, (Kernel.mod_field TaskStruct.runList hf p).trans hl, hc⟩

theorem Here.quiet (h : Here k p) (hq : Quiet k k') : Here k' p := by
  obtain ⟨l, hl, hc⟩ := h
  exact ⟨l, (congrArg Core.runList (congrFun hq.core p)).trans hl,
    hc.trans (congrArg Ptrs.cpu hq.ptrs).symm⟩

theorem Shape.here (h : Shape k d) {i : ℤ} (hp : p ∈ k.queue a i) : Here k p :=
  ⟨_, h.mem_iff.mp hp, rfl⟩

theorem dequeueTask_total (h : Here k p) (a : ArrayIdx) : ∃ k', dequeueTask p a k = some k' := by
  obtain ⟨l, hl, hc⟩ := h
  obtain ⟨m, hm⟩ : ∃ m, listDel p (k.modArray a fun q => { q with nrActive := q.nrActive - 1 }) =
      some m := ⟨_, listDel_eq_some.mpr ⟨l, hl, hc, rfl⟩⟩
  simp only [dequeueTask, hm, Option.bind_eq_bind, Option.bind_some, Option.pure_def]
  split_ifs
  · exact ⟨_, rfl⟩
  · exact ⟨_, rfl⟩

/-- Only a linked task can be taken off its list. -/
theorem dequeueTask_here (h : dequeueTask p a k = some k') : Here k p := by
  simp only [dequeueTask, Option.bind_eq_bind, Option.bind_eq_some_iff] at h
  obtain ⟨m, hm, -⟩ := h
  obtain ⟨l, hl, hc, -⟩ := listDel_eq_some.mp hm
  exact ⟨l, hl, hc⟩

theorem enqueueTask_total (h : (k.core p).runList = none) (a : ArrayIdx) :
    ∃ k', enqueueTask p a k = some k' := ⟨_, enqueueTask_eq_some.mpr ⟨h, rfl⟩⟩

theorem activateTask_total (h : (k.core p).runList = none) :
    ∃ k', activateTask HZ p k = some k' := ⟨_, activateTask_eq_some.mpr ⟨h, rfl⟩⟩

theorem deactivateTask_total (h : Here k p) (ha : (k.core p).array ≠ none) :
    ∃ k', deactivateTask p k = some k' := by
  obtain ⟨a, ha⟩ := Option.ne_none_iff_exists'.mp ha
  obtain ⟨m, hm⟩ := dequeueTask_total (k := k.uncounted p) h a
  rw [deactivateTask_eq, show (k.tasks p).array = some a from ha, Option.bind_some, hm]
  exact ⟨_, rfl⟩

theorem deactivateTask_here (h : deactivateTask p k = some k') : Here k p := by
  rw [deactivateTask_eq, Option.map_eq_some_iff] at h
  obtain ⟨m, hm, -⟩ := h
  obtain ⟨a, -, hm⟩ := Option.bind_eq_some_iff.mp hm
  have hu : Here (k.uncounted p) p := dequeueTask_here hm
  exact hu

theorem mod_runList (hl : (k.core p).runList = none) (hf : ∀ t, (f t).runList = t.runList) :
    ((k.mod q f).core p).runList = none :=
  (Kernel.mod_field TaskStruct.runList hf p).trans hl

theorem dequeueTask_runList (h : dequeueTask p a k = some k') : (k'.core p).runList = none :=
  congrArg Core.runList (dequeueTask_only h).2.self

theorem becomeOverdue_total (h : Here k p) : ∃ k', becomeOverdue p k = some k' := by
  obtain ⟨m, hm⟩ := dequeueTask_total (h.mod p (fun t => { t with timeSlice := 1 }) fun _ => rfl)
    k.rq.shortQ
  refine bind_defined hm ?_
  obtain ⟨n, hn⟩ := enqueueTask_total (k := m.mod p fun t => { t with prio := 0 })
    (mod_runList (dequeueTask_runList hm) fun _ => rfl) m.rq.overdue
  exact bind_defined hn ⟨_, rfl⟩

theorem tickShort_total (h : Here k p) : ∃ k', tickShort HZ p k = some k' := by
  have h1 := h.mod p (fun t => { t with timeSlice := u32 (t.timeSlice - 1) }) fun _ => rfl
  have h2 := h1.mod p (fun t =>
    { t with currentTrial := t.currentTrial + 1, firstTimeSlice := false }) fun _ => rfl
  have h3 := h2.mod p (fun t =>
    { t with timeSlice := shortTimeslice HZ t.requestedTime t.currentTrial }) fun _ => rfl
  simp only [tickShort, Kernel.mod_tasks_self, Option.bind_eq_bind, Option.pure_def]
  split_ifs
  · obtain ⟨m, hm⟩ := becomeOverdue_total h2
    exact bind_defined hm ⟨_, rfl⟩
  · obtain ⟨m, hm⟩ := becomeOverdue_total h3
    exact bind_defined hm ⟨_, rfl⟩
  · obtain ⟨m, hm⟩ := dequeueTask_total h3 k.rq.shortQ
    obtain ⟨n, hn⟩ := enqueueTask_total (dequeueTask_runList hm) m.rq.shortQ
    exact bind_defined hm (bind_defined hn ⟨_, rfl⟩)
  · exact ⟨_, rfl⟩

theorem tickRt_total (h : Here k p) : ∃ k', tickRt HZ p k = some k' := by
  have h1 := h.mod p (fun t => { t with timeSlice := u32 (t.timeSlice - 1) }) fun _ => rfl
  have h2 := (h1.mod p (fun t =>
    { t with timeSlice := taskTimeslice HZ t.staticPrio, firstTimeSlice := false })
    fun _ => rfl).quiet (reschedTask_quiet p)
  simp only [tickRt, Kernel.mod_tasks_self, Option.bind_eq_bind, Option.pure_def]
  split_ifs
  · obtain ⟨m, hm⟩ := dequeueTask_total h2 k.rq.active
    exact bind_defined hm (enqueueTask_total (dequeueTask_runList hm) _)
  · exact ⟨_, rfl⟩
  · exact ⟨_, rfl⟩

theorem tickOther_total (h : Here k p) : ∃ k', tickOther HZ p k = some k' := by
  have h1 := (h.mod p (fun t => { t with sleepAvg := t.sleepAvg - 1 }) fun _ => rfl).mod p
    (fun t => { t with timeSlice := u32 (t.timeSlice - 1) }) fun _ => rfl
  simp only [tickOther, Kernel.mod_tasks_self, Option.bind_eq_bind, Option.pure_def]
  by_cases ht : u32 ((k.tasks p).timeSlice - 1) = 0
  · rw [if_pos ht]
    obtain ⟨m, hm⟩ := dequeueTask_total h1 k.rq.active
    refine bind_defined hm ?_
    have hl : ((reschedTask p m).core p).runList = none :=
      (congrArg Core.runList (congrFun (reschedTask_quiet p).core p)).trans (dequeueTask_runList hm)
    have hl' := mod_runList (q := p) hl (f := fun t =>
      { t with
        prio := effectivePrio HZ t
        firstTimeSlice := false
        timeSlice := taskTimeslice HZ t.staticPrio }) fun _ => rfl
    split_ifs
    · exact enqueueTask_total ((congrArg Core.runList (congrFun (stampExpired_quiet _).core p)).trans
        hl') _
    · exact enqueueTask_total hl' _
  · rw [if_neg ht]
    exact ⟨_, rfl⟩

theorem schedulerTick_total (h : k.current ≠ k.rq.idle → Here k k.current) :
    ∃ k', schedulerTick HZ k = some k' := by
  simp only [schedulerTick]
  split_ifs with hi
  · exact ⟨_, rfl⟩
  · exact tickShort_total (h hi)
  · exact ⟨_, rfl⟩
  · exact ⟨_, rfl⟩
  · exact tickRt_total (h hi)
  · exact tickOther_total (h hi)

/-! Wake-ups, nice values and yields. -/

theorem tryToWakeUp_total (h : (k.core p).array = none → (k.core p).runList = none) :
    ∃ k', tryToWakeUp HZ p k = some k' := by
  have hm : ∃ m, (if (k.tasks p).array = none then wakeQueue HZ p k else some k) = some m := by
    split_ifs with ha
    · obtain ⟨m, hm⟩ : ∃ m, activateTask HZ p (if (k.tasks p).state = .uninterruptible then
          k.modRq fun rq => { rq with nrUninterruptible := rq.nrUninterruptible - 1 } else k) =
          some m := by
        split_ifs
        · exact activateTask_total (h ha)
        · exact activateTask_total (h ha)
      refine bind_defined hm ?_
      split_ifs
      · exact ⟨_, rfl⟩
      · exact ⟨_, rfl⟩
    · exact ⟨k, rfl⟩
  obtain ⟨m, hm⟩ := hm
  exact ⟨_, Option.map_eq_some_iff.mpr ⟨m, hm, rfl⟩⟩

theorem requeueParent_total (h : (k.core p).policy = .short →
    Here k k.current ∧ (k.core k.current).array ≠ none) : ∃ k', requeueParent HZ p k = some k' := by
  unfold requeueParent
  split_ifs with hs
  · obtain ⟨hl, ha⟩ := h hs
    obtain ⟨m, hm⟩ := deactivateTask_total hl ha
    have h1 := (deactivateTask_only hm).2
    refine bind_defined hm ?_
    rw [show m.current = k.current from h1.curr]
    exact activateTask_total (congrArg Core.runList h1.self)
  · exact ⟨k, rfl⟩

theorem wakeUpForkedProcess_total (HZ : ℕ) (hp : p ≠ k.current) (hl : (k.core p).runList = none)
    (h : (k.core p).policy = .short → Here k k.current ∧ (k.core k.current).array ≠ none) :
    ∃ k', wakeUpForkedProcess HZ p k = some k' := by
  have h0 : Only p ((k.core p).withState .running) k
      (k.mod p fun t => { t with state := .running }) := mod_only rfl
  have hcur : (k.mod p fun t => { t with state := .running }).current = k.current := rfl
  obtain ⟨m, hm⟩ : ∃ m, requeueParent HZ p (k.mod p fun t => { t with state := .running }) =
      some m := by
    refine requeueParent_total fun hs => ?_
    rw [h0.self] at hs
    rw [hcur, h0.rest hp.symm]
    exact ⟨(h hs).1.mod p _ fun _ => rfl, (h hs).2⟩
  refine bind_defined hm ?_
  have hlm : (m.core p).runList = none := by
    rw [(requeueParent_moves (π := Guard.free) hm).2.rest p (hcur ▸ hp), h0.self]
    exact hl
  obtain ⟨i, -, h1⟩ := forkPenalty_only HZ p m
  exact activateTask_total (mod_runList ((congrArg Core.runList h1.self).trans hlm) fun _ => rfl)

theorem setUserNice_total (nice : ℤ) (h : (k.core p).array ≠ none → Here k p) :
    ∃ k', setUserNice p nice k = some k' := by
  unfold setUserNice
  split_ifs
  · exact ⟨_, rfl⟩
  · exact ⟨_, rfl⟩
  · dsimp only
    split
    next => exact ⟨_, rfl⟩
    next a ha =>
      obtain ⟨m, hm⟩ := dequeueTask_total (h (by simp [Kernel.core, TaskStruct.core, ha])) a
      obtain ⟨n, hn⟩ := enqueueTask_total (mod_runList (q := p) (f := fun t =>
        { t with staticPrio := niceToPrio nice, prio := niceToPrio nice })
        (dequeueTask_runList hm) fun _ => rfl) a
      refine bind_defined hm (bind_defined hn ?_)
      split_ifs
      · exact ⟨_, rfl⟩
      · exact ⟨_, rfl⟩

theorem listDel_total (h : Here k p) : ∃ k', listDel p k = some k' := by
  obtain ⟨l, hl, hc⟩ := h
  exact ⟨_, listDel_eq_some.mpr ⟨l, hl, hc, rfl⟩⟩

theorem listAdd_total {i : ℤ} {g : List TaskId → List TaskId} (h : (k.core p).runList = none) :
    ∃ k', listAdd p a i g k = some k' := ⟨_, listAdd_eq_some.mpr ⟨h, rfl⟩⟩

theorem yieldMove_total (h : Here k k.current) (ha : (k.core k.current).array ≠ none) :
    ∃ k', yieldMove k = some k' := by
  obtain ⟨a, ha⟩ := Option.ne_none_iff_exists'.mp ha
  obtain ⟨m, hm⟩ := listDel_total h
  have hl : (m.core k.current).runList = none := congrArg Core.runList (listDel_only hm).2.self
  refine bind_defined ha (bind_defined hm ?_)
  split_ifs
  · exact listAdd_total hl
  · exact listAdd_total hl
  · have hl' : ∀ i, (((m.modArray a (clearBit (k.tasks k.current).prio)).mod k.current fun t =>
        { t with prio := i }).core k.current).runList = none := fun i =>
      mod_runList (k := m.modArray a _) hl fun _ => rfl
    obtain ⟨n, hn⟩ := listAdd_total (a := a) (g := insertSecond k.current) (hl' _)
    exact bind_defined hn ⟨_, rfl⟩

end
end ShortSched
