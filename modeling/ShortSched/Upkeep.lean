import ShortSched.Placement

/-! Every function of the scheduler keeps lists, bitmaps and counters consistent when the
task that it moves is where its class belongs. -/
namespace ShortSched
open Buckets

section
variable {k k' : Kernel} {p : TaskId} {a : ArrayIdx} {i d : ℤ} {HZ : ℕ}
  {f : TaskStruct → TaskStruct}

/-- States with the same queues in which the tasks agree in what scheduling depends on. -/
theorem Shape.of_core (h : Shape k d) (hcore : k'.core = k.core) (hcpu : k'.rq.cpu = k.rq.cpu)
    (ha : k'.rq.arrays = k.rq.arrays) (hr : k'.rq.nrRunning = k.rq.nrRunning) : Shape k' d :=
  h.congr hcpu ha hr (fun q => congrArg Core.runList (congrFun hcore q))
    (fun q _ => congrArg Core.array (congrFun hcore q))
    fun q _ => congrArg Core.prio (congrFun hcore q)

theorem Shape.mod (h : Shape k d) (hl : (f (k.tasks p)).runList = (k.tasks p).runList)
    (ha : (k.tasks p).runList ≠ none → (f (k.tasks p)).array = (k.tasks p).array)
    (hp : (k.tasks p).runList ≠ none → (f (k.tasks p)).prio = (k.tasks p).prio) :
    Shape (k.mod p f) d := by
  refine h.congr rfl rfl rfl (fun q => ?_) (fun q hq => ?_) fun q hq => ?_
  all_goals
    by_cases hqp : q = p
    · subst hqp
      rw [Kernel.mod_tasks_self]
      first | exact hl | exact ha hq | exact hp hq
    · rw [Kernel.mod_tasks_ne hqp]

theorem Shape.mod_free (h : Shape k d) (hn : (k.tasks p).runList = none)
    (hf : (f (k.tasks p)).runList = none) : Shape (k.mod p f) d :=
  h.mod (hf.trans hn.symm) (fun hc => absurd hn hc) fun hc => absurd hn hc

/-- Assignments that touch neither the list entry nor `array` nor `prio`. -/
theorem Shape.mod_same (h : Shape k d) (f : TaskStruct → TaskStruct)
    (hf : ∀ t, (f t).runList = t.runList ∧ (f t).array = t.array ∧ (f t).prio = t.prio) :
    Shape (k.mod p f) d :=
  h.mod (hf _).1 (fun _ => (hf _).2.1) fun _ => (hf _).2.2

theorem Shape.recordSwitch (h : Shape k d) (reason : SwitchReason) :
    Shape (recordSwitch reason k) d := h.of_core rfl rfl rfl rfl

theorem Shape.reschedTask (h : Shape k d) (q : TaskId) : Shape (reschedTask q k) d :=
  h.mod_same _ fun _ => ⟨rfl, rfl, rfl⟩

theorem Shape.enqueueTask (h : Shape k d) (hr : 0 ≤ (k.tasks p).prio ∧ (k.tasks p).prio < 140)
    (he : enqueueTask p a k = some k') : Shape k' (d - 1) := by
  obtain ⟨hl, rfl⟩ := enqueueTask_eq_some.mp he
  exact h.link hl hr a

/-- `dequeue_task` from the array where the class of the task belongs. -/
theorem Shape.dequeueTask (h : Shape k d)
    (ha : (k.tasks p).runList ≠ none → ∀ b ∈ (k.tasks p).array, b = a)
    (hd : dequeueTask p a k = some k') : Shape k' (d + 1) ∧ (k'.tasks p).runList = none := by
  obtain ⟨l, hl, -⟩ := linked_of_dequeueTask hd
  have harr := (h.home p l hl).1
  obtain ⟨hp, rfl⟩ := h.of_dequeueTask (harr.trans (congrArg some
    (ha (by simp [hl]) _ harr))) hd
  exact ⟨h.unlink hp, by simp⟩

theorem Shape.deactivateTask (h : Shape k d) (hd : deactivateTask p k = some k') :
    Shape k' d := by
  obtain ⟨a, hp, rfl⟩ := h.of_deactivateTask hd
  exact h.deactivated hp

theorem Shape.activateTask (h : Shape k d) (hr : 0 ≤ (k.tasks p).prio ∧ (k.tasks p).prio < 140)
    (ha : activateTask HZ p k = some k') : Shape k' d := by
  obtain ⟨hl, rfl⟩ := activateTask_eq_some.mp ha
  exact h.activated hl hr

/-! Timer ticks. -/

theorem Shape.becomeOverdue (h : Shape k d)
    (ha : (k.tasks p).runList ≠ none → ∀ b ∈ (k.tasks p).array, b = k.rq.shortQ)
    (ho : becomeOverdue p k = some k') : Shape k' d := by
  obtain ⟨m, hm, n, hn, rfl⟩ := becomeOverdue_eq_some.mp ho
  have h0 : Shape (k.mod p fun t => { t with timeSlice := 1 }) d :=
    h.mod_same _ fun _ => ⟨rfl, rfl, rfl⟩
  obtain ⟨h1, hl⟩ := h0.dequeueTask (by simpa using ha) hm
  have h2 : Shape (m.mod p fun t => { t with prio := 0 }) (d + 1) := h1.mod_free hl hl
  have h3 := h2.enqueueTask (by simp) hn
  rw [add_sub_cancel_right] at h3
  have hq := (enqueueTask_only hn).2
  refine Shape.recordSwitch (h3.mod rfl (fun _ => ?_) fun _ => rfl) _
  have harr : (n.tasks p).array = some m.rq.overdue := congrArg Core.array hq.self
  rw [harr]
  exact congrArg some hq.overdue_eq

theorem Shape.tickShort (h : Shape k d) (hr : 0 ≤ (k.tasks p).prio ∧ (k.tasks p).prio < 140)
    (ha : (k.tasks p).runList ≠ none → ∀ b ∈ (k.tasks p).array, b = k.rq.shortQ)
    (ht : tickShort HZ p k = some k') : Shape k' d := by
  have h1 : Shape (countDown p k) d := h.mod_same _ fun _ => ⟨rfl, rfl, rfl⟩
  have h2 : Shape (endTrial p k) d := h1.mod_same _ fun _ => ⟨rfl, rfl, rfl⟩
  have h3 : Shape (newTrial HZ p k) d := h2.mod_same _ fun _ => ⟨rfl, rfl, rfl⟩
  cases tickShort_cases ht with
  | goesOn => exact h1
  | trialsOver m _ _ hm => exact (h2.becomeOverdue (by simpa using ha) hm).reschedTask p
  | noTime m _ _ hm => exact (h3.becomeOverdue (by simpa using ha) hm).reschedTask p
  | nextTrial m n _ _ _ hdown hup =>
    obtain ⟨h4, -⟩ := h3.dequeueTask (by simpa using ha) hdown
    have hprio : (m.tasks p).prio = (k.tasks p).prio := by
      have := congrArg Core.prio (dequeueTask_only hdown).2.self
      simpa [Kernel.core, TaskStruct.core, Core.free] using this
    have h5 := h4.enqueueTask (by rw [hprio]; exact hr) hup
    rw [add_sub_cancel_right] at h5
    exact (h5.recordSwitch _).reschedTask p

/-- A task that is dequeued and enqueued again; in between only its priority changes. -/
theorem Shape.requeue (h : Shape k d) {b : ArrayIdx} {m : Kernel}
    (ha : (k.tasks p).runList ≠ none → ∀ b ∈ (k.tasks p).array, b = a)
    (hd : ShortSched.dequeueTask p a k = some m) (hf : ∀ t, (f t).runList = t.runList)
    (hr : 0 ≤ (f (m.tasks p)).prio ∧ (f (m.tasks p)).prio < 140)
    (he : ShortSched.enqueueTask p b (m.mod p f) = some k') : Shape k' d := by
  obtain ⟨h1, hl⟩ := h.dequeueTask ha hd
  have h2 := (h1.mod_free (f := f) hl ((hf _).trans hl)).enqueueTask (by simpa using hr) he
  rwa [add_sub_cancel_right] at h2

theorem dequeueTask_prio {m : Kernel} (hd : dequeueTask p a k = some m) :
    (m.tasks p).prio = (k.tasks p).prio :=
  congrArg Core.prio (dequeueTask_only hd).2.self

theorem Shape.tickRt (h : Shape k d) (hr : 0 ≤ (k.tasks p).prio ∧ (k.tasks p).prio < 140)
    (ha : (k.tasks p).array = some k.rq.active) (ht : tickRt HZ p k = some k') : Shape k' d := by
  have h1 : Shape (countDown p k) d := h.mod_same _ fun _ => ⟨rfl, rfl, rfl⟩
  cases tickRt_cases ht with
  | fifo _ he => rwa [he]
  | goesOn _ _ he => rwa [he]
  | newSlice m _ _ hdown hup =>
    have h2 := h1.mod_same (p := p)
      (fun t => { t with timeSlice := taskTimeslice HZ t.staticPrio, firstTimeSlice := false })
      fun _ => ⟨rfl, rfl, rfl⟩
    have h3 := h2.reschedTask p
    obtain ⟨h4, -⟩ := h3.dequeueTask
      (fun _ b hb => by simpa [ShortSched.reschedTask, ha, eq_comm] using hb) hdown
    have hp := dequeueTask_prio hdown
    have h5 := h4.enqueueTask (by simpa [hp, ShortSched.reschedTask] using hr) hup
    rwa [add_sub_cancel_right] at h5

theorem Shape.stampExpired (h : Shape k d) : Shape (stampExpired k) d := by
  unfold ShortSched.stampExpired
  split_ifs
  · exact h.of_core rfl rfl rfl rfl
  · exact h

theorem stampExpired_tasks (k : Kernel) : (stampExpired k).tasks = k.tasks := by
  unfold stampExpired
  split_ifs <;> rfl

theorem renewed_prio_range (HZ : ℕ) (p : TaskId) (m : Kernel) :
    0 ≤ ((renewed HZ p m).tasks p).prio ∧ ((renewed HZ p m).tasks p).prio < 140 := by
  have h := effectivePrio_range HZ ((reschedTask p m).tasks p)
  rw [Kernel.mod_tasks_self]
  dsimp only
  omega

theorem Shape.tickOther (h : Shape k d) (ha : (k.tasks p).array = some k.rq.active)
    (ht : tickOther HZ p k = some k') : Shape k' d := by
  have h1 := h.mod_same (p := p) (fun t => { t with sleepAvg := t.sleepAvg - 1 })
    fun _ => ⟨rfl, rfl, rfl⟩
  have h2 : Shape (wearDown p k) d := h1.mod_same _ fun _ => ⟨rfl, rfl, rfl⟩
  have hrenewed : ∀ m, ShortSched.dequeueTask p k.rq.active (wearDown p k) = some m →
      Shape (renewed HZ p m) (d + 1) := by
    intro m hm
    obtain ⟨h3, hl⟩ := h2.dequeueTask (fun _ b hb => by simpa [ha, eq_comm] using hb) hm
    exact (h3.reschedTask p).mod_free
      (by simpa [ShortSched.reschedTask] using hl) (by simpa [ShortSched.reschedTask] using hl)
  cases tickOther_cases ht with
  | goesOn _ he => rwa [he]
  | expires m _ hdown hup =>
    have h3 := (hrenewed m hdown).stampExpired.enqueueTask
      (by rw [stampExpired_tasks]; exact renewed_prio_range HZ p m) hup
    rwa [add_sub_cancel_right] at h3
  | stays m _ hdown hup =>
    have h3 := (hrenewed m hdown).enqueueTask (renewed_prio_range HZ p m) hup
    rwa [add_sub_cancel_right] at h3

/-- A linked task that is no overdue SHORT task is on the array where its ticks look. -/
theorem Core.Placed.short_home {ps : Ptrs} {c : Core} (hc : c.Placed ps) (hs : c.IsShort)
    (hl : c.runList ≠ none) : ∀ b ∈ c.array, b = ps.shortQ := by
  intro b hb
  have := hc.home hl b hb
  simpa only [Core.Belongs, hs.1, hs.2, Bool.false_eq_true, if_false] using this

theorem Shape.schedulerTick (h : Shape k d)
    (hc : k.current ≠ k.rq.idle → (k.core k.current).Placed k.ptrs)
    (ht : schedulerTick HZ k = some k') : Shape k' d := by
  simp only [ShortSched.schedulerTick] at ht
  split_ifs at ht with hi hs ho ha hr
  · cases ht
    exact h
  · exact h.tickShort (hc hi).prio.range ((hc hi).short_home ⟨hs, ho⟩) ht
  · cases ht
    exact h
  · cases ht
    exact h.reschedTask _
  · exact h.tickRt (hc hi).prio.range (not_not.mp ha) ht
  · exact h.tickOther (not_not.mp ha) ht

/-! Wake-ups, nice values and yields. -/

theorem Shape.wakeQueue (h : Shape k d) (hr : 0 ≤ (k.tasks p).prio ∧ (k.tasks p).prio < 140)
    (hw : wakeQueue HZ p k = some k') : Shape k' d := by
  simp only [ShortSched.wakeQueue, Option.bind_eq_bind, Option.bind_eq_some_iff] at hw
  obtain ⟨m, hm, hw⟩ := hw
  have h1 : Shape m d := by
    split_ifs at hm
    · have h0 :
          Shape (k.modRq fun rq => { rq with nrUninterruptible := rq.nrUninterruptible - 1 }) d :=
        h.of_core rfl rfl rfl rfl
      exact h0.activateTask hr hm
    · exact h.activateTask hr hm
  split_ifs at hw
  · cases hw
    exact (h1.recordSwitch _).reschedTask _
  · cases hw
    exact h1

theorem Shape.tryToWakeUp (h : Shape k d) (hr : 0 ≤ (k.tasks p).prio ∧ (k.tasks p).prio < 140)
    (hw : tryToWakeUp HZ p k = some k') : Shape k' d := by
  obtain ⟨m, hm, rfl⟩ := Option.map_eq_some_iff.mp hw
  refine Shape.mod_same ?_ _ fun _ => ⟨rfl, rfl, rfl⟩
  split_ifs at hm
  · exact h.wakeQueue hr hm
  · cases hm
    exact h

theorem Shape.forkPenalty (h : Shape k d) (hl : (k.core p).runList = none) :
    Shape (forkPenalty HZ p k) d := by
  by_cases hr : rtTask (k.tasks p)
  · rw [ShortSched.forkPenalty, if_neg (not_not.mpr hr)]
    exact h
  · simp only [ShortSched.forkPenalty, if_pos hr]
    have hq := Quiet.mod (Quiet.mod (Quiet.refl k) k.current (f := fun t => { t with
      sleepAvg := t.sleepAvg * 100 / 100 }) fun _ => rfl) p (f := fun t => { t with
      sleepAvg := t.sleepAvg * 95 / 100 }) fun _ => rfl
    have h1 := h.of_core hq.core rfl rfl rfl
    have hl1 := (congrArg Core.runList (congrFun hq.core p)).trans hl
    exact h1.mod_free hl1 hl1

theorem Shape.requeueParent (h : Shape k d) (hr : (k.core p).policy = .short →
      0 ≤ (k.core k.current).prio ∧ (k.core k.current).prio < 140)
    (hw : requeueParent HZ p k = some k') : Shape k' d := by
  obtain ⟨hs, n, hn, -, hw⟩ | ⟨-, rfl⟩ := requeueParent_cases hw
  · have hprio : (n.tasks k.current).prio = (k.core k.current).prio :=
      congrArg Core.prio (deactivateTask_only hn).2.self
    exact (h.deactivateTask hn).activateTask (by rw [hprio]; exact hr hs) hw
  · exact h

theorem Shape.wakeUpForkedProcess (h : Shape k d) (hp : p ≠ k.current)
    (hl : (k.core p).runList = none)
    (hpar : (k.core p).policy = .short →
      0 ≤ (k.core k.current).prio ∧ (k.core k.current).prio < 140)
    (hr : ∀ i, (k.core p).Fresh i → 0 ≤ i ∧ i < 140)
    (hw : wakeUpForkedProcess HZ p k = some k') : Shape k' d := by
  obtain ⟨m, hm, hw⟩ := wakeUpForkedProcess_eq_some.mp hw
  have h0 : Only p ((k.core p).withState .running) k
      (k.mod p fun t => { t with state := .running }) := mod_only rfl
  have h1 : Shape (k.mod p fun t => { t with state := .running }) d :=
    h.mod_same _ fun _ => ⟨rfl, rfl, rfl⟩
  have hcur : (k.mod p fun t => { t with state := .running }).current = k.current := rfl
  generalize (k.mod p fun t => { t with state := .running }) = m0 at h0 h1 hm hcur
  have h2 : Shape m d := by
    refine h1.requeueParent (fun hs => ?_) hm
    rw [h0.self] at hs
    rw [hcur, h0.rest hp.symm]
    exact hpar hs
  have hm' : m.core p = (k.core p).withState .running := by
    rw [(requeueParent_moves (π := Guard.free) hm).2.rest p (hcur ▸ hp), h0.self]
  have hlm : (m.core p).runList = none := (congrArg Core.runList hm').trans hl
  obtain ⟨i, hi, h3⟩ := forkPenalty_only HZ p m
  have hprio : ((ShortSched.forkPenalty HZ p m).core p).prio = i := congrArg Core.prio h3.self
  have h4 : Shape (ShortSched.forkPenalty HZ p m) d := h2.forkPenalty hlm
  rw [hm'] at hi
  generalize ShortSched.forkPenalty HZ p m = n at hw hprio h4
  have h5 : Shape (n.mod p fun t => { t with cpu := n.rq.cpu }) d :=
    h4.mod_same _ fun _ => ⟨rfl, rfl, rfl⟩
  refine h5.activateTask ?_ hw
  rw [Kernel.mod_tasks_self]
  change 0 ≤ (n.core p).prio ∧ (n.core p).prio < 140
  rw [hprio]
  exact hr i hi

theorem Shape.setUserNice {nice : ℤ} (h : Shape k d) (hw : setUserNice p nice k = some k') :
    Shape k' d := by
  have hs : ¬ (taskNice (k.tasks p) = nice ∨ nice < -20 ∨ nice > 19 ∨
      (k.tasks p).policy = .short) → 0 ≤ niceToPrio nice ∧ niceToPrio nice < 140 := by
    intro hn
    simp only [niceToPrio, maxRtPrio, maxUserRtPrio]
    omega
  cases setUserNice_cases hw with
  | ignored => exact h
  | realTime => exact h.mod_same _ fun _ => ⟨rfl, rfl, rfl⟩
  | unqueued _ _ ha =>
    have hl := h.free_of_array_none ha
    exact h.mod_free hl hl
  | requeued a m n hn _ ha hdown hup =>
    have h1 : Shape n d := h.requeue (f := fun t => { t with
      staticPrio := niceToPrio nice, prio := niceToPrio nice })
      (fun _ b hb => by simpa [ha, eq_comm] using hb) hdown (fun _ => rfl) (hs hn) hup
    split_ifs
    · exact (h1.recordSwitch _).reschedTask _
    · exact h1

/-- A task that moves within its array without the counter being touched. -/
theorem Shape.relink (h : Shape k d) {j : ℤ} {g : List TaskId → List TaskId}
    (hp : p ∈ k.queue a i) (hj : 0 ≤ j ∧ j < 140) (hg : ∀ l, (g l).Perm (p :: l))
    (hcpu : k'.rq.cpu = k.rq.cpu) (hrun : k'.rq.nrRunning = k.rq.nrRunning)
    (harr : k'.rq.arrays =
      Function.update k.rq.arrays a (((k.rq.arrays a).pull p i).put j g))
    (hrest : ∀ q ≠ p, k'.tasks q = k.tasks q)
    (hl : (k'.tasks p).runList = some ⟨k.rq.cpu, a, j⟩) (ha : (k'.tasks p).array = some a)
    (hprio : (k'.tasks p).prio = j) : Shape k' d := by
  have h1 := (h.unlink hp).place (p := p) (by simp) hj a (hg _)
  rw [add_sub_cancel_right] at h1
  refine h1.congr hcpu ?_ hrun (fun q => ?_) (fun q _ => ?_) fun q _ => ?_
  · rw [harr, place_arrays, unlink_arrays, Function.update_self, Function.update_idem]
  all_goals
    by_cases hq : q = p
    · subst hq
      simp only [place_tasks_self, hl, ha, hprio]
      try rfl
    · rw [hrest q hq, place_tasks_ne hq, unlink_tasks_ne hq]

/-- Taking a task off an occupied queue and putting it back leaves bitmap and counter. -/
theorem PrioArray.put_pull {q : PrioArray} (h : ArrayOk q) {g : List TaskId → List TaskId}
    (hp : p ∈ q.queue i) : (q.pull p i).put i g =
      { q with queue := Function.update q.queue i (g ((q.queue i).erase p)) } := by
  have hb : q.bitmap i = true :=
    (h.marked i (by simpa using h.mem_range hp)).mpr (List.ne_nil_of_mem hp)
  have hbit : Function.update (if (q.queue i).erase p = [] then Function.update q.bitmap i false
      else q.bitmap) i true = q.bitmap := by
    split_ifs
    · rw [Function.update_idem, ← hb, Function.update_eq_self]
    · rw [← hb, Function.update_eq_self]
  simp only [PrioArray.put, PrioArray.pull, hbit, Function.update_self, Function.update_idem,
    sub_add_cancel]

/-- The two moves of `sys_sched_yield` that put the task back on its own queue. -/
theorem Shape.listMove (h : Shape k d) {m : Kernel} {g : List TaskId → List TaskId}
    (hp : p ∈ k.queue a i) (hg : ∀ l, (g l).Perm (p :: l))
    (hm : m = (k.modQueue a i (·.erase p)).mod p fun t => { t with runList := none })
    (hy : listAdd p a i g m = some k') : Shape k' d := by
  obtain ⟨-, rfl⟩ := listAdd_eq_some.mp hy
  subst hm
  refine h.relink hp (h.prio_range hp) hg rfl rfl ?_ (fun q hq => ?_) ?_ ?_ ?_
  · rw [PrioArray.put_pull (h.arrays a) hp]
    simp [Kernel.modQueue, Kernel.modArray, Kernel.modRq, Kernel.mod]
  · simp [Kernel.mod_tasks_ne hq]
  · simp
    rfl
  · simp [(h.of_mem hp).1]
  · simp [(h.of_mem hp).2]

theorem Shape.yieldMove (h : Shape k d) (hy : yieldMove k = some k') : Shape k' d := by
  simp only [ShortSched.yieldMove, Option.bind_eq_bind, Option.bind_eq_some_iff] at hy
  obtain ⟨a, ha, m, hm, hy⟩ := hy
  obtain ⟨⟨c, b, j⟩, hl, hc, hm⟩ := listDel_eq_some.mp hm
  obtain ⟨hb, hj⟩ := h.home _ _ hl
  dsimp only at hb hj hc hm
  obtain rfl : b = a := Option.some.inj (hb.symm.trans ha)
  subst hj hc
  have hp : k.current ∈ k.queue b (k.tasks k.current).prio := h.mem_iff.mpr hl
  split_ifs at hy with hrt hne
  · exact h.listMove hp (fun l => List.perm_append_singleton _ l) hm hy
  · exact h.listMove hp (insertSecond_perm _) hm hy
  · have he : ((k.rq.arrays b).queue (k.tasks k.current).prio).erase k.current = [] := by
      rw [not_not, hm] at hne
      simpa [Kernel.queue, Kernel.modQueue, Kernel.modArray] using hne
    have hi := yieldPrio_range ((m.modArray b (clearBit (k.tasks k.current).prio)).rq.arrays
      b).bitmap (k.tasks k.current).prio
    generalize yieldPrio ((m.modArray b (clearBit (k.tasks k.current).prio)).rq.arrays b).bitmap
      (k.tasks k.current).prio = i at hy hi
    simp only [Option.bind_eq_some_iff, Option.pure_def, Option.some.injEq] at hy
    obtain ⟨n, hn, rfl⟩ := hy
    obtain ⟨-, rfl⟩ := listAdd_eq_some.mp hn
    have hr := h.prio_range hp
    subst hm
    have hi' : 0 ≤ i ∧ i < 140 := by omega
    apply h.relink hp hi' (insertSecond_perm _)
    · simp [Kernel.modQueue, Kernel.modArray]
    · simp [Kernel.modQueue, Kernel.modArray]
    · simp [Kernel.modQueue, Kernel.modArray, Kernel.modRq, Kernel.mod, PrioArray.put,
        PrioArray.pull, he, clearBit, setBit]
    · intro q hq
      simp [Kernel.mod_tasks_ne hq]
    · simp
      rfl
    · simp [hb]
    · simp

/-! The context switch and policy changes. -/

theorem Shape.schedulePrev (h : Shape k d) (hs : schedulePrev p k = some k') : Shape k' d := by
  have h1 : Shape (stampSleep p k) d := h.mod_same _ fun _ => ⟨rfl, rfl, rfl⟩
  obtain ⟨-, rfl⟩ | ⟨-, rfl⟩ | ⟨-, hd⟩ := schedulePrev_cases hs
  · exact h1
  · exact h1.mod_same _ fun _ => ⟨rfl, rfl, rfl⟩
  · exact h1.deactivateTask hd

theorem Shape.switch (h : Shape k d) (hs : Switch k k') : Shape k' d :=
  h.of_core hs.core hs.cpu hs.arrays hs.nrRunning

theorem Shape.schedule (h : Shape k d) (hs : schedule k = some k') : Shape k' d := by
  obtain ⟨m, hm, hsw, -⟩ := schedule_switch hs
  exact (h.schedulePrev hm).switch hsw

theorem Shape.sysSchedYield (h : Shape k d) (hs : sysSchedYield k = some k') : Shape k' d := by
  obtain ⟨m, hm, hs⟩ := Option.bind_eq_some_iff.mp hs
  exact ((h.yieldMove hm).recordSwitch _).schedule hs

/-- A task that was on a queue goes back to one. -/
theorem Shape.requeueIf {queued : Bool} (h : Shape k d)
    (hr : 0 ≤ (k.tasks p).prio ∧ (k.tasks p).prio < 140)
    (hs : (if queued then ShortSched.activateTask HZ p k else some k) = some k') : Shape k' d := by
  cases queued with
  | true => exact h.activateTask hr hs
  | false =>
    cases hs
    exact h

theorem Shape.installPolicy {acc : Accepted} {queued : Bool} (h : Shape k d)
    (hl : (k.tasks acc.target).runList = none)
    (hr : 0 ≤ (assignPolicy acc (k.tasks acc.target)).prio ∧
      (assignPolicy acc (k.tasks acc.target)).prio < 140)
    (hs : installPolicy HZ acc queued k = some k') : Shape k' d := by
  have h1 : Shape (k.mod acc.target (assignPolicy acc)) d := h.mod_free hl hl
  obtain ⟨m, hm, hs⟩ := installPolicy_eq_some.mp hs
  have h2 := h1.requeueIf (by rwa [Kernel.mod_tasks_self]) hm
  split_ifs at hs
  · exact ((h2.recordSwitch _).reschedTask _).schedule hs
  · cases hs
    exact h2

/-- The priority that a policy change sets. -/
theorem assignPolicy_prio_range {acc : Accepted} {t : TaskStruct}
    (ha : 0 ≤ acc.lp.schedPriority ∧ acc.lp.schedPriority ≤ 99)
    (hs : 100 ≤ t.staticPrio ∧ t.staticPrio < 140) :
    0 ≤ (assignPolicy acc t).prio ∧ (assignPolicy acc t).prio < 140 := by
  simp only [assignPolicy, maxUserRtPrio]
  split_ifs <;> omega

/-- The target leaves its queue. -/
theorem Shape.leaveQueue (h : Shape k d)
    (hs : (if (k.tasks p).array.isSome then ShortSched.deactivateTask p k else some k) = some k') :
    Shape k' d ∧ (k'.tasks p).array = none ∧
      (k'.core p).staticPrio = (k.core p).staticPrio := by
  cases hq : (k.tasks p).array with
  | none =>
    rw [hq] at hs
    cases hs
    exact ⟨h, hq, rfl⟩
  | some a =>
    rw [hq] at hs
    have h1 := (deactivateTask_only hs).2.self
    exact ⟨h.deactivateTask hs, congrArg Core.array h1, (congrArg Core.staticPrio h1 :)⟩

theorem Shape.setschedulerApply {acc : Accepted} (h : Shape k d)
    (ha : 0 ≤ acc.lp.schedPriority ∧ acc.lp.schedPriority ≤ 99)
    (hst : 100 ≤ (k.core acc.target).staticPrio ∧ (k.core acc.target).staticPrio < 140)
    (hs : setschedulerApply HZ acc k = some k') : Shape k' d := by
  obtain ⟨m, hm, hs⟩ := setschedulerApply_eq_some.mp hs
  obtain ⟨h1, harr, hcore⟩ := h.leaveQueue hm
  have hl := h1.free_of_array_none harr
  rw [← hcore] at hst
  split_ifs at hs
  · refine (h1.mod_free (p := acc.target) (f := becomeShort HZ acc.user m.rq.shortQ) hl
      hl).installPolicy ?_ ?_ hs
    · rwa [Kernel.mod_tasks_self]
    · rw [Kernel.mod_tasks_self]
      exact assignPolicy_prio_range ha hst
  · cases hs
    exact h1.mod_free hl hl
  · exact h1.installPolicy hl (assignPolicy_prio_range ha hst) hs

theorem Shape.setscheduler {pid policy : ℤ} {param : Option UserParam} {r : ℤ} (h : Shape k d)
    (hst : ∀ q, findProcessByPid k pid = some q →
      100 ≤ (k.core q).staticPrio ∧ (k.core q).staticPrio < 140)
    (hs : setscheduler HZ pid policy param k = some (r, k')) : Shape k' d := by
  obtain ⟨e, -, -, rfl⟩ | ⟨acc, hacc, -, hm⟩ := setscheduler_cases hs
  · exact h
  · have hp := setschedulerCheck_ok hacc
    exact h.setschedulerApply hp.priority (hst _ hp.target) hm

/-! Forks and exits. -/

theorem forkSplit_rq (child : TaskId) (pid : ℤ) (k : Kernel) :
    (forkSplit child (forkCopy child pid k)).rq = k.rq := by
  unfold forkSplit shareTrials
  dsimp only
  split_ifs <;> rfl

theorem Shape.forkSplit {child : TaskId} (h : Shape k d) (pid : ℤ) (hc : k.current ≠ child)
    (hl : (k.core child).runList = none) :
    Shape (forkSplit child (forkCopy child pid k)) d := by
  have hb := forkSplit_both (k := k) pid hc
  have hrq := forkSplit_rq child pid k
  obtain ⟨-, hfp, hfl, hfa⟩ := (k.core k.current).forking_parked
    ((k.core k.current).timeSlice / 2)
  generalize ShortSched.forkSplit child (forkCopy child pid k) = m at hb hrq
  have hlist : ∀ q, (m.core q).runList = (k.core q).runList := by
    intro q
    by_cases h1 : q = k.current
    · rw [h1, hb.left, hfl]
    · by_cases h2 : q = child
      · rw [h2, hb.right, hl]
        rfl
      · rw [hb.rest q h1 h2]
  have hrest : ∀ q, (k.core q).runList ≠ none →
      (m.core q).array = (k.core q).array ∧ (m.core q).prio = (k.core q).prio := by
    intro q hq
    by_cases h1 : q = k.current
    · rw [h1, hb.left, hfa, hfp]
      exact ⟨rfl, rfl⟩
    · rw [hb.rest q h1 fun h2 => hq (h2 ▸ hl)]
      exact ⟨rfl, rfl⟩
  exact h.congr (congrArg Runqueue.cpu hrq) (congrArg Runqueue.arrays hrq)
    (congrArg Runqueue.nrRunning hrq) hlist (fun q hq => (hrest q hq).1) fun q hq => (hrest q hq).2

theorem Shape.forkTick (h : Shape k d)
    (hc : k.current ≠ k.rq.idle → ((k.core k.current).withSlice 1).Placed k.ptrs)
    (ht : forkTick HZ k = some k') : Shape k' d := by
  obtain ⟨-, ht⟩ | ⟨-, rfl⟩ := forkTick_cases ht
  · have h1 : Shape (k.mod k.current fun t => { t with timeSlice := 1 }) d :=
      h.mod_same _ fun _ => ⟨rfl, rfl, rfl⟩
    refine h1.schedulerTick (fun hi => ?_) ht
    have h2 : Only k.current ((k.core k.current).withSlice 1) k
        (k.mod k.current fun t => { t with timeSlice := 1 }) := mod_only rfl
    change ((k.mod k.current fun t => { t with timeSlice := 1 }).core k.current).Placed _
    rw [h2.self, h2.ptrs]
    exact hc hi
  · exact h

/-- Parent and child when the child is about to be linked. -/
theorem Shape.forked {child : TaskId} {pid : ℤ} (h : Shape k d) (hc : k.current ≠ child)
    (hl : (k.core child).runList = none)
    (hp : k.current ≠ k.rq.idle → (k.core k.current).Placed k.ptrs)
    (hs : ShortSched.forkTick HZ (ShortSched.forkSplit child (forkCopy child pid k)) = some k') :
    Shape k' d := by
  have hb := forkSplit_both pid hc
  have h1 := h.forkSplit pid hc hl
  generalize ShortSched.forkSplit child (forkCopy child pid k) = s at hb h1 hs
  have hcur : s.current = k.current := hb.curr
  refine h1.forkTick (fun hne => ?_) hs
  rw [hcur, hb.left, hb.ptrs]
  exact (hp (by rwa [hcur, hb.idle] at hne)).forking 1

theorem Shape.doFork {child : TaskId} {pid : ℤ} {vfork cloneParent : Bool} (h : Shape k d)
    (hc : k.current ≠ child) (hic : k.rq.idle ≠ child) (hl : (k.core child).runList = none)
    (hp : k.current ≠ k.rq.idle → (k.core k.current).Placed k.ptrs)
    (hi : (k.core k.rq.idle).IdlePlaced k.ptrs)
    (hf : doFork HZ child pid vfork cloneParent k = some k') : Shape k' d := by
  obtain ⟨h0, m, n, hm, hn, rfl⟩ := doFork_eq_some.mp hf
  have hidle : (k.core k.rq.idle).policy ≠ .short := by
    rw [hi.policy]
    decide
  obtain ⟨c, hshare, h3⟩ := forkTick_forked (π := Guard.free) hc hic hidle h0 (fun _ => trivial)
    (fun _ => trivial) hm
  have h2 : Shape m d := h.forked hc hl hp hm
  have hq := linkChild_core child cloneParent m
  have h4 : Shape (linkChild child cloneParent m) d := h2.of_core hq rfl rfl rfl
  have hcur' : (linkChild child cloneParent m).current = k.current := h3.curr
  have h5 : Shape n d := by
    refine h4.wakeUpForkedProcess (hcur' ▸ hc.symm) ?_ ?_ ?_ hn
    · rw [hq, h3.right]
      rfl
    · rw [hcur', hq, h3.right, h3.left]
      intro hs
      have hne : k.current ≠ k.rq.idle := by
        intro he
        rw [← he] at hi
        exact absurd (hi.policy.symm.trans hs) (by decide)
      exact (hshare.placed (hp hne)).prio.range
    · rw [hq, h3.right]
      intro i hfresh
      by_cases he : k.current = k.rq.idle
      · exact ((he ▸ hi).forked hfresh).prio.range
      · exact ((hp he).forked hfresh).prio.range
  split_ifs
  · exact h5
  · exact (h5.recordSwitch _).reschedTask _

theorem Shape.exitNotify (h : Shape k d) (reaper childReaper : TaskId) :
    Shape (exitNotify reaper childReaper k) d := by
  have hf : Shape (forgetOriginalParent reaper childReaper k.current k) d := by
    have hsame : ∀ q, ((forgetOriginalParent reaper childReaper k.current k).tasks q).runList =
          (k.tasks q).runList ∧
        ((forgetOriginalParent reaper childReaper k.current k).tasks q).array =
          (k.tasks q).array ∧
        ((forgetOriginalParent reaper childReaper k.current k).tasks q).prio =
          (k.tasks q).prio := by
      intro q
      simp only [forgetOriginalParent]
      split_ifs <;> exact ⟨rfl, rfl, rfl⟩
    exact h.congr rfl rfl rfl (fun q => (hsame q).1) (fun q _ => (hsame q).2.1)
      fun q _ => (hsame q).2.2
  exact hf.mod_same _ fun _ => ⟨rfl, rfl, rfl⟩

theorem Shape.releaseTask (h : Shape k d) (p : TaskId) : Shape (releaseTask HZ p k) d := by
  have h1 : Shape { k with pidhash := k.pidhash.erase p } d := h.of_core rfl rfl rfl rfl
  suffices hs : Shape (schedExit HZ p { k with pidhash := k.pidhash.erase p }) d from
    hs.mod_same (p := p) (fun t => { t with pid := 0 }) fun _ => ⟨rfl, rfl, rfl⟩
  generalize ({ k with pidhash := k.pidhash.erase p } : Kernel) = m at h1 ⊢
  have h2 : Shape (returnSlice HZ p m) d := by
    unfold returnSlice
    split_ifs
    · exact h1.mod_same _ fun _ => ⟨rfl, rfl, rfl⟩
    · exact h1
  unfold schedExit weighSleep
  split_ifs
  · exact h2.mod_same _ fun _ => ⟨rfl, rfl, rfl⟩
  · exact h2

theorem Shape.initIdle (h : Shape k d) (hs : initIdle k = some k') : Shape k' d := by
  obtain ⟨m, hm, rfl⟩ := initIdle_eq_some.mp hs
  have h1 : Shape (k.modRq fun rq => { rq with curr := k.current, idle := k.current }) d :=
    h.of_core rfl rfl rfl rfl
  have hl : (m.tasks k.current).runList = none :=
    congrArg Core.runList (deactivateTask_only hm).2.self
  exact (h1.deactivateTask hm).mod_free hl hl

end
end ShortSched
