import ShortSched.Consistency

/-! Links through a policy change: `setscheduler` takes its target off the runqueue and puts
it back, unless a SHORT task stays SHORT. -/
namespace ShortSched
open Buckets PartialRun

/-- The lists of this runqueue are sound: each entry is on the list that it hangs on, once,
and on no other. -/
abbrev Kernel.Lists (k : Kernel) : Prop :=
  Located {h : ListHead | h.cpu = k.rq.cpu} (fun p => (k.tasks p).runList)
    (fun h => k.queue h.array h.prio)

/-- `p->array` tells where each task is linked. -/
structure ArrayTells (k : Kernel) : Prop where
  lists : k.Lists
  array : ∀ p a, (k.tasks p).array = some a ↔ ∃ i, p ∈ k.queue a i

/-- The two system calls that end in `setscheduler`. -/
inductive PolicyCall where
  | sysSchedSetscheduler (pid policy : ℤ) (param : Option UserParam)
  | sysSchedSetparam (pid : ℤ) (param : Option UserParam)

def PolicyCall.run (HZ : ℕ) : PolicyCall → Kernel → Option (ℤ × Kernel)
  | .sysSchedSetscheduler pid policy param => ShortSched.sysSchedSetscheduler HZ pid policy param
  | .sysSchedSetparam pid param => ShortSched.sysSchedSetparam HZ pid param

def PolicyCall.op : PolicyCall → Op
  | .sysSchedSetscheduler pid policy param => .sysSchedSetscheduler pid policy param
  | .sysSchedSetparam pid param => .sysSchedSetparam pid param

def PolicyCall.pid : PolicyCall → ℤ
  | .sysSchedSetscheduler pid _ _ => pid
  | .sysSchedSetparam pid _ => pid

/-- An accepted call by which a linked SHORT task stays SHORT. -/
def PolicyCall.StaysShort (c : PolicyCall) (k : Kernel) : Prop :=
  ∃ acc, c.op.accepted k = some acc ∧ k.Linked acc.target ∧
    (k.tasks acc.target).policy = .short ∧ acc.policy = .short

section
variable {HZ : ℕ} {k k' m : Kernel} {p q : TaskId} {a : ArrayIdx} {i : ℤ} {acc : Accepted}

/-- The same tasks are linked, and as many are counted as running. -/
structure SameLinks (k k' : Kernel) : Prop where
  linked : ∀ q, k'.Linked q ↔ k.Linked q
  nrRunning : k'.rq.nrRunning = k.rq.nrRunning

theorem SameLinks.of_arrays (ha : k'.rq.arrays = k.rq.arrays)
    (hn : k'.rq.nrRunning = k.rq.nrRunning) : SameLinks k k' :=
  ⟨fun q => by simp only [Kernel.Linked, Kernel.queue, ha], hn⟩

theorem modQueue_queue {f : List TaskId → List TaskId} (b : ArrayIdx) (j : ℤ) :
    (k.modQueue a i f).queue b j = if b = a ∧ j = i then f (k.queue a i) else k.queue b j := by
  unfold Kernel.queue Kernel.modQueue
  rw [Kernel.modArray_arrays]
  by_cases hb : b = a
  · subst hb
    by_cases hj : j = i
    · subst hj
      simp
    · simp [hj]
  · simp [hb]

/-- `list_del` unlinks the task and no other. -/
theorem listDel_linked (h : k.Lists) (hd : listDel p k = some m) :
    k.Linked p ∧ ∀ q, m.Linked q ↔ k.Linked q ∧ q ≠ p := by
  obtain ⟨l, hl, hc, rfl⟩ := listDel_eq_some.mp hd
  have hp : ∀ b j, p ∈ k.queue b j ↔ b = l.array ∧ j = l.prio := by
    intro b j
    rw [h.mem_iff p ⟨k.rq.cpu, b, j⟩ rfl, hl, Option.some.injEq]
    constructor
    · intro he
      rw [he]
      exact ⟨rfl, rfl⟩
    · rintro ⟨rfl, rfl⟩
      rw [← hc]
  refine ⟨⟨l.array, l.prio, (hp _ _).mpr ⟨rfl, rfl⟩⟩, fun q => ?_⟩
  have hmem : ∀ b j, q ∈ (k.modQueue l.array l.prio (·.erase p)).queue b j ↔
      q ∈ k.queue b j ∧ q ≠ p := by
    intro b j
    rw [modQueue_queue]
    split_ifs with hb
    · obtain ⟨rfl, rfl⟩ := hb
      rw [(h.nodup ⟨k.rq.cpu, l.array, l.prio⟩ rfl).mem_erase_iff, and_comm]
    · exact ⟨fun hq => ⟨hq, fun he => hb ((hp b j).mp (he ▸ hq))⟩, And.left⟩
  constructor
  · rintro ⟨b, j, hq⟩
    exact ⟨⟨b, j, ((hmem b j).mp hq).1⟩, ((hmem b j).mp hq).2⟩
  · rintro ⟨⟨b, j, hq⟩, hne⟩
    exact ⟨b, j, (hmem b j).mpr ⟨hq, hne⟩⟩

/-- Changes to bitmap and counter. -/
theorem modArray_queue {f : PrioArray → PrioArray} (hf : ∀ r, (f r).queue = r.queue) :
    (k.modArray a f).queue = k.queue := by
  funext b
  unfold Kernel.queue
  rw [Kernel.modArray_arrays]
  by_cases hb : b = a
  · subst hb
    simp [hf]
  · simp [hb]

theorem Kernel.linked_congr (h : k'.queue = k.queue) : k'.Linked q ↔ k.Linked q := by
  unfold Kernel.Linked
  rw [h]

theorem dequeueTask_linked (h : k.Lists) (hd : dequeueTask p a k = some k') :
    k.Linked p ∧ (∀ q, k'.Linked q ↔ k.Linked q ∧ q ≠ p) ∧ k'.rq.nrRunning = k.rq.nrRunning := by
  have hq : (k.modArray a fun r => { r with nrActive := r.nrActive - 1 }).queue = k.queue :=
    modArray_queue fun _ => rfl
  simp only [dequeueTask, Option.bind_eq_bind, Option.bind_eq_some_iff] at hd
  obtain ⟨m, hm, hd⟩ := hd
  have hl : (k.modArray a fun r => { r with nrActive := r.nrActive - 1 }).Lists :=
    h.congr (fun _ => rfl) fun l _ => by rw [hq]
  obtain ⟨hp, hrest⟩ := listDel_linked hl hm
  have hn : m.rq.nrRunning = k.rq.nrRunning := by
    obtain ⟨l, -, -, rfl⟩ := listDel_eq_some.mp hm
    rfl
  simp only [Kernel.linked_congr hq] at hp hrest
  refine ⟨hp, ?_⟩
  split_ifs at hd
  · cases hd
    exact ⟨fun q => (Kernel.linked_congr (modArray_queue (f := clearBit (m.tasks p).prio)
      fun _ => rfl)).trans (hrest q), hn⟩
  · cases hd
    exact ⟨hrest, hn⟩

/-- `deactivate_task` unlinks the task and counts it off. -/
theorem deactivateTask_linked (h : k.Lists) (hd : deactivateTask p k = some k') :
    k.Linked p ∧ (∀ q, k'.Linked q ↔ k.Linked q ∧ q ≠ p) ∧
      k'.rq.nrRunning = k.rq.nrRunning - 1 := by
  rw [deactivateTask_eq, Option.map_eq_some_iff] at hd
  obtain ⟨m, hm, rfl⟩ := hd
  obtain ⟨a, -, hm⟩ := Option.bind_eq_some_iff.mp hm
  obtain ⟨hp, hrest, hn⟩ := dequeueTask_linked (k := k.uncounted p) h hm
  exact ⟨hp, hrest, hn⟩

theorem mem_link {b : ArrayIdx} {j : ℤ} : q ∈ (k.link p a).queue b j ↔
    q ∈ k.queue b j ∨ q = p ∧ b = a ∧ j = (k.tasks p).prio := by
  simp only [Kernel.link, place_queue]
  by_cases hb : b = a
  · subst hb
    by_cases hj : j = (k.tasks p).prio
    · subst hj
      simp
    · simp [hj]
  · simp [hb]

theorem link_linked (q : TaskId) : (k.link p a).Linked q ↔ k.Linked q ∨ q = p := by
  constructor
  · rintro ⟨b, j, hq⟩
    rcases mem_link.mp hq with hq | ⟨hq, -⟩
    · exact Or.inl ⟨b, j, hq⟩
    · exact Or.inr hq
  · rintro (⟨b, j, hq⟩ | hq)
    · exact ⟨b, j, mem_link.mpr (Or.inl hq)⟩
    · exact ⟨_, _, mem_link.mpr (Or.inr ⟨hq, rfl, rfl⟩)⟩

/-- `activate_task` links the task and counts it. -/
theorem activateTask_linked (h : activateTask HZ p k = some k') :
    (∀ q, k'.Linked q ↔ k.Linked q ∨ q = p) ∧ k'.rq.nrRunning = k.rq.nrRunning + 1 := by
  obtain ⟨-, rfl⟩ := activateTask_eq_some.mp h
  refine ⟨fun q => ?_, rfl⟩
  exact link_linked (k := k.mod p (credited HZ k)) (a := activationArray k.rq (k.tasks p)) q

/-- A running task that calls `schedule` stays linked. -/
theorem schedule_sameLinks (h : schedule k = some k')
    (hr : (k.tasks k.current).state = .running) : SameLinks k k' := by
  obtain ⟨m, hm, hsw, -⟩ := schedule_switch h
  obtain ⟨-, rfl⟩ | ⟨hs, -⟩ | ⟨hs, -⟩ := schedulePrev_cases hm
  · exact .of_arrays hsw.arrays hsw.nrRunning
  · cases hr.symm.trans hs
  · exact absurd hr hs

theorem Only.state_eq {c : Core} (h : Only p c k k') (hc : c.state = (k.core p).state)
    (q : TaskId) :
    (k'.tasks q).state = (k.tasks q).state := by
  change (k'.core q).state = (k.core q).state
  by_cases hq : q = p
  · subst hq
    rw [h.self, hc]
  · rw [h.rest hq]

/-- After the assignments a task that was linked is linked again. -/
theorem installPolicy_linked {queued : Bool} (hr : (m.tasks m.current).state = .running)
    (h : installPolicy HZ acc queued m = some k') :
    (∀ q, k'.Linked q ↔ m.Linked q ∨ queued = true ∧ q = acc.target) ∧
      k'.rq.nrRunning = m.rq.nrRunning + if queued then 1 else 0 := by
  have hr' : ((m.mod acc.target (assignPolicy acc)).tasks m.current).state = .running :=
    (Kernel.mod_field (f := assignPolicy acc) TaskStruct.state (fun _ => rfl) m.current).trans hr
  obtain ⟨n, hn, h⟩ := installPolicy_eq_some.mp h
  obtain ⟨hlinked, hrun, hcount⟩ : (∀ q, n.Linked q ↔ m.Linked q ∨ queued = true ∧ q = acc.target) ∧
      (n.tasks n.current).state = .running ∧
        n.rq.nrRunning = m.rq.nrRunning + if queued then 1 else 0 := by
    cases queued with
    | true =>
      obtain ⟨hl, hc⟩ := activateTask_linked hn
      obtain ⟨-, i, -, ho⟩ := activateTask_only hn
      refine ⟨fun q => (hl q).trans (by simp [Kernel.linked_congr Kernel.mod_queue]), ?_, hc⟩
      rw [show n.current = m.current from ho.curr, ho.state_eq rfl]
      exact hr'
    | false =>
      cases hn
      exact ⟨fun q => by simp [Kernel.linked_congr (k := m) (q := q) Kernel.mod_queue], hr',
        by simp⟩
  split_ifs at h
  · have hs := schedule_sameLinks h (by
      change ((n.mod n.current fun t => { t with needResched := true }).tasks n.current).state = _
      rwa [Kernel.mod_tasks_self])
    exact ⟨fun q => (hs.linked q).trans (hlinked q), hs.nrRunning.trans hcount⟩
  · cases h
    exact ⟨hlinked, hcount⟩

theorem Core.left_state (c : Core) : c.left.state = c.state := by
  unfold Core.left
  split_ifs <;> rfl

/-- The target is off the runqueue in between, and stays off when it stays SHORT. -/
theorem setschedulerApply_linked (hk : ArrayTells k) (hr : (k.tasks k.current).state = .running)
    (h : setschedulerApply HZ acc k = some k') :
    (k.Linked acc.target ∧ (k.tasks acc.target).policy = .short ∧ acc.policy = .short) ∧
      ¬ k'.Linked acc.target ∨
    ¬ (k.Linked acc.target ∧ (k.tasks acc.target).policy = .short ∧ acc.policy = .short) ∧
      SameLinks k k' := by
  obtain ⟨m, hm, h⟩ := setschedulerApply_eq_some.mp h
  have hleft := (leaveQueue_only hm).1
  have hpol : (m.tasks acc.target).policy = (k.tasks acc.target).policy := by
    change (m.core acc.target).policy = (k.core acc.target).policy
    rw [hleft.self, Core.left_policy]
  have hrm : (m.tasks m.current).state = .running := by
    rw [show m.current = k.current from hleft.curr, hleft.state_eq (Core.left_state _)]
    exact hr
  have hrs : ((m.mod acc.target (becomeShort HZ acc.user m.rq.shortQ)).tasks m.current).state =
      .running :=
    (Kernel.mod_field (f := becomeShort HZ acc.user m.rq.shortQ) TaskStruct.state (fun _ => rfl)
      m.current).trans hrm
  rw [hpol] at h
  cases ha : (k.tasks acc.target).array with
  | none =>
    rw [ha] at hm h
    cases hm
    have hn : ¬ k.Linked acc.target := fun ⟨a, i, hp⟩ => by
      rw [(hk.array acc.target a).mpr ⟨i, hp⟩] at ha
      cases ha
    refine Or.inr ⟨fun hc => hn hc.1, ?_⟩
    split_ifs at h
    · obtain ⟨hl, hc⟩ := installPolicy_linked hrs h
      exact ⟨fun q => (hl q).trans (by simp [Kernel.Linked]), by simpa using hc⟩
    · cases h
      exact .of_arrays rfl rfl
    · obtain ⟨hl, hc⟩ := installPolicy_linked hrm h
      exact ⟨fun q => (hl q).trans (by simp), by simpa using hc⟩
  | some a =>
    rw [ha] at hm h
    obtain ⟨hp, hrest, hcount⟩ := deactivateTask_linked hk.lists hm
    have hback : ∀ q, m.Linked q ∨ q = acc.target ↔ k.Linked q := by
      intro q
      rw [hrest]
      by_cases hq : q = acc.target
      · simp [hq, hp]
      · simp [hq]
    split_ifs at h with h1 h2
    · obtain ⟨hl, hc⟩ := installPolicy_linked hrs h
      refine Or.inr ⟨fun hc => ?_, fun q => (hl q).trans ?_, ?_⟩
      · rw [h1.1] at hc
        exact absurd hc.2.1 (by decide)
      · simpa [Kernel.Linked] using hback q
      · simp only [Option.isSome_some, if_true, Kernel.mod_rq, hcount] at hc
        omega
    · cases h
      exact Or.inl ⟨⟨hp, h2⟩, fun hl => ((hrest acc.target).mp hl).2 rfl⟩
    · obtain ⟨hl, hc⟩ := installPolicy_linked hrm h
      refine Or.inr ⟨fun hc => h2 hc.2, fun q => (hl q).trans ?_, ?_⟩
      · simpa using hback q
      · simp only [Option.isSome_some, if_true, hcount] at hc
        omega

theorem Backed.arrayTells (h : Backed k) : ArrayTells k where
  lists := h.shape.located
  array p a := by
    constructor
    · intro ha
      have hn : (k.core p).array ≠ none := by
        rw [show (k.core p).array = some a from ha]
        exact Option.some_ne_none a
      obtain ⟨b, i, hp⟩ := h.linked_iff.mpr (h.attached p hn)
      obtain rfl : b = a := Option.some.inj ((h.shape.of_mem hp).1.symm.trans ha)
      exact ⟨i, hp⟩
    · rintro ⟨i, hp⟩
      exact (h.shape.of_mem hp).1

/-- A call that returns was rejected without effect, or was carried out. -/
theorem PolicyCall.run_cases {c : PolicyCall} {r : ℤ} (h : c.run HZ k = some (r, k')) :
    c.op.accepted k = none ∧ k' = k ∨
      ∃ acc, c.op.accepted k = some acc ∧ findProcessByPid k c.pid = some acc.target ∧
        setschedulerApply HZ acc k = some k' := by
  have hset : ∀ {pid policy param}, setscheduler HZ pid policy param k = some (r, k') →
      (setschedulerCheck k pid policy param).toOption = none ∧ k' = k ∨
        ∃ acc, (setschedulerCheck k pid policy param).toOption = some acc ∧
          findProcessByPid k pid = some acc.target ∧ setschedulerApply HZ acc k = some k' := by
    intro pid policy param hs
    obtain ⟨e, he, -, rfl⟩ | ⟨acc, hacc, -, hm⟩ := setscheduler_cases hs
    · exact Or.inl ⟨by rw [he]; rfl, rfl⟩
    · exact Or.inr ⟨acc, toOption_eq_some.mpr hacc, (setschedulerCheck_ok hacc).target, hm⟩
  cases c with
  | sysSchedSetscheduler pid policy param => exact hset (sysSchedSetscheduler_eq h)
  | sysSchedSetparam pid param => exact hset h

end

/-- On every return path of the two system calls the target is linked after the call exactly
when it was before, and as many tasks are counted as running, if and only if the call does
not leave a linked SHORT task SHORT. -/
theorem setscheduler_keeps_links_iff (HZ : ℕ) (k : Kernel) (hk : ArrayTells k)
    (hr : (k.tasks k.current).state = .running) (c : PolicyCall) (r : ℤ) (k' : Kernel)
    (h : c.run HZ k = some (r, k')) :
    ((∀ p, findProcessByPid k c.pid = some p → (k'.Linked p ↔ k.Linked p)) ∧
      k'.rq.nrRunning = k.rq.nrRunning) ↔ ¬ c.StaysShort k := by
  rcases c.run_cases h with ⟨hn, rfl⟩ | ⟨acc, hacc, htarget, happ⟩
  · refine iff_of_true ⟨fun _ _ => Iff.rfl, rfl⟩ ?_
    rintro ⟨acc, hacc, -⟩
    cases hn.symm.trans hacc
  · rcases setschedulerApply_linked hk hr happ with ⟨hs, hl⟩ | ⟨hs, hsame⟩
    · refine iff_of_false (fun hc => hl ((hc.1 _ htarget).mpr hs.1)) ?_
      exact not_not.mpr ⟨acc, hacc, hs⟩
    · refine iff_of_true ⟨fun p _ => hsame.linked p, hsame.nrRunning⟩ ?_
      rintro ⟨acc', hacc', hs'⟩
      cases hacc.symm.trans hacc'
      exact hs hs'

/-- Task 1 becomes SHORT while it is linked. -/
theorem setscheduler_keeps_links_iff_startTask : ∃ k ∈ runFromBoot 512 startTask,
    ∃ x ∈ PolicyCall.run 512 (.sysSchedSetscheduler 0 4 (shortParam 100 5)) k, x.1 = 0 ∧
      (x.2.Linked 1 ↔ k.Linked 1) ∧ x.2.rq.nrRunning = k.rq.nrRunning := by
  obtain ⟨k, hk, hf, hr, hp, ⟨r, k'⟩, hx, h0⟩ : ∃ k ∈ runFromBoot 512 startTask,
      findProcessByPid k 0 = some 1 ∧ (k.tasks k.current).state = .running ∧
        (∀ acc ∈ (Op.sysSchedSetscheduler 0 4 (shortParam 100 5)).accepted k,
          (k.tasks acc.target).policy = .other) ∧
        ∃ x ∈ PolicyCall.run 512 (.sysSchedSetscheduler 0 4 (shortParam 100 5)) k, x.1 = 0 := by
    decide +kernel
  have hb : Backed k := runFromBoot_backed (by decide +kernel) hk
  obtain ⟨hl, hn⟩ := (setscheduler_keeps_links_iff 512 k hb.arrayTells hr _ r k' hx).mpr (by
    rintro ⟨acc, hacc, -, hs, -⟩
    cases (hp acc hacc).symm.trans hs)
  exact ⟨k, hk, (r, k'), hx, h0, hl 1 hf, hn⟩

/-- A running SHORT task that sets its own parameters is gone from the runqueue. -/
theorem setparam_unlinks : ∃ k ∈ runFromBoot 512 (shortTicks 100 5 0), ArrayTells k ∧
    (k.tasks k.current).state = .running ∧ k.current = 1 ∧
      ∃ x ∈ PolicyCall.run 512 (.sysSchedSetparam 0 (shortParam 200 5)) k,
        k.Linked 1 ∧ ¬ x.2.Linked 1 ∧ x.2.rq.nrRunning = k.rq.nrRunning - 1 := by
  obtain ⟨k, hk, hr, hc, hl, hw⟩ : ∃ k ∈ runFromBoot 512 (shortTicks 100 5 0),
      (k.tasks k.current).state = .running ∧ k.current = 1 ∧ 1 ∈ k.queue k.rq.shortQ 120 ∧
        ∃ x ∈ PolicyCall.run 512 (.sysSchedSetparam 0 (shortParam 200 5)) k,
          (∃ acc ∈ (Op.sysSchedSetparam 0 (shortParam 200 5)).accepted k, acc.target = 1 ∧
            (k.tasks 1).policy = .short ∧ acc.policy = .short) ∧
          x.2.rq.nrRunning = k.rq.nrRunning - 1 := by
    decide +kernel
  have hb : Backed k := runFromBoot_backed (by decide +kernel) hk
  obtain ⟨⟨r, k'⟩, hx, ⟨acc, hacc, ht, hs, hs'⟩, hn⟩ := hw
  have hlinked : k.Linked 1 := ⟨_, _, hl⟩
  refine ⟨k, hk, hb.arrayTells, hr, hc, (r, k'), hx, hlinked, ?_, hn⟩
  rcases PolicyCall.run_cases hx with ⟨hnone, -⟩ | ⟨acc', hacc', -, happ⟩
  · cases hnone.symm.trans hacc
  · cases hacc.symm.trans hacc'
    rcases setschedulerApply_linked hb.arrayTells hr happ with ⟨-, hgone⟩ | ⟨hno, -⟩
    · rwa [ht] at hgone
    · rw [ht] at hno
      exact absurd ⟨hlinked, hs, hs'⟩ hno

end ShortSched
