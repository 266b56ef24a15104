import ShortSched.RoundRobin
import ShortSched.Yield

/-! Which of parent and child runs first after a fork: the order in which the two hang on
`short_q`, and what `schedule` makes of it. -/
namespace ShortSched
open Fifo Relation

/-- `child` waits on `short_q` ahead of `parent`, and `schedule` does not pick the parent in any
state in which the two still hang where they hang here and the child is not running. -/
structure RunsFirst (child parent : TaskId) (k : Kernel) : Prop where
  ahead : ∃ j, child ∈ k.queue k.rq.shortQ j ∧ ∀ i, parent ∈ k.queue k.rq.shortQ i →
    j < i ∨ j = i ∧ Ahead child parent (k.queue k.rq.shortQ i)
  served : ∀ m m', WellOrdered m → m.rq.cpu = k.rq.cpu → m.rq.shortQ = k.rq.shortQ →
    (m.tasks child).runList = (k.tasks child).runList →
    (m.tasks parent).runList = (k.tasks parent).runList → m.current ≠ child →
      schedule m = some m' → m'.current ≠ parent

/-- The tick that a parent with one tick left is charged makes it overdue. -/
def ForkTickOverdue (HZ : ℕ) (t : TaskStruct) : Prop :=
  t.timeSlice = 1 ∧ (t.numberOfTrials / 2 ≤ t.currentTrial + 1 ∨
    shortTimeslice HZ t.requestedTime (t.currentTrial + 1) = 0)

instance (HZ : ℕ) (t : TaskStruct) : Decidable (ForkTickOverdue HZ t) :=
  inferInstanceAs (Decidable (_ ∧ (_ ∨ _)))

/-- The priority at which a SHORT task is queued again: its own unless it slept. -/
def queuedPrio (k : Kernel) (t : TaskStruct) : ℤ :=
  if sleepTime k t = 0 then t.prio else t.staticPrio

/-- A SHORT task with the priorities that such a task has. -/
structure Core.ShortRanged (c : Core) : Prop where
  short : c.IsShort
  prio : 100 ≤ c.prio ∧ c.prio < 140
  static : 100 ≤ c.staticPrio ∧ c.staticPrio < 140

section
variable {HZ : ℕ} {k k' m n : Kernel} {p q child : TaskId} {a : ArrayIdx} {i j : ℤ} {c d : Core}
  {f : TaskStruct → TaskStruct}

/-- The sleep timestamps, with the clock that they are compared with. -/
abbrev Stamps : Kernel → Kernel → Prop := Same TaskStruct.sleepTimestamp

theorem stamps_offQueue : OffQueue TaskStruct.sleepTimestamp :=
  ⟨fun _ _ => rfl, fun _ _ => rfl, fun _ _ _ _ => rfl, fun _ _ _ => rfl⟩

theorem Same.sleepTime (h : Stamps k k') (q : TaskId) :
    sleepTime k' (k'.tasks q) = sleepTime k (k.tasks q) := by
  unfold ShortSched.sleepTime
  rw [h.jiffies, h.field]

/-- The sleep average and the timestamp that it is credited from. -/
abbrev TaskStruct.nap (t : TaskStruct) : ℕ × ℕ := (t.sleepAvg, t.sleepTimestamp)

theorem nap_offLists : OffLists TaskStruct.nap :=
  ⟨fun _ _ => rfl, fun _ _ => rfl, fun _ _ _ _ => rfl⟩

theorem becomeOverdue_nap (h : Same TaskStruct.nap k m) (hb : becomeOverdue p m = some n) :
    Same TaskStruct.nap k n := by
  obtain ⟨l, hl, l', hl', rfl⟩ := becomeOverdue_eq_some.mp hb
  have h1 := (h.mod fun _ => by rfl).dequeue nap_offLists hl
  have h2 := (h1.mod fun _ => by rfl).enqueue nap_offLists hl'
  exact (h2.mod fun _ => by rfl).recordSwitch _

theorem tickShort_nap (h : tickShort HZ p k = some k') : Same TaskStruct.nap k k' := by
  have h1 : Same TaskStruct.nap k (countDown p k) := (Same.refl _ k).mod fun _ => rfl
  have h2 : Same TaskStruct.nap k (endTrial p k) := h1.mod fun _ => rfl
  have h3 : Same TaskStruct.nap k (newTrial HZ p k) := h2.mod fun _ => rfl
  cases tickShort_cases h with
  | goesOn => exact h1
  | trialsOver m _ _ hm => exact (becomeOverdue_nap h2 hm).mod fun _ => by rfl
  | noTime m _ _ hm => exact (becomeOverdue_nap h3 hm).mod fun _ => by rfl
  | nextTrial m n _ _ _ hdown hup =>
    have h4 := (h3.dequeue nap_offLists hdown).enqueue nap_offLists hup
    exact (h4.recordSwitch _).mod fun _ => by rfl

theorem tickShort_stamps (h : tickShort HZ p k = some k') : Stamps k k' :=
  (tickShort_nap h).map Prod.snd

theorem shareTrials_nap (child : TaskId) (k : Kernel) :
    Same TaskStruct.nap k (shareTrials child k) := by
  unfold shareTrials
  dsimp only
  split_ifs
  · exact ((((Same.refl _ k).mod fun _ => by rfl).mod fun _ => by rfl).mod
      fun _ => by rfl).mod fun _ => by rfl
  · exact ((Same.refl _ k).mod fun _ => by rfl).mod fun _ => by rfl
  · exact (Same.refl _ k).mod fun _ => by rfl

/-- The child is stamped with the time of the fork. -/
theorem forkSplit_stamps (pid : ℤ) (hc : k.current ≠ child) :
    (forkSplit child (forkCopy child pid k)).jiffies = k.jiffies ∧
      ((forkSplit child (forkCopy child pid k)).tasks child).sleepTimestamp = k.jiffies ∧
      ((forkSplit child (forkCopy child pid k)).tasks k.current).sleepTimestamp =
        (k.tasks k.current).sleepTimestamp := by
  have h1 : Stamps (shareSlice child (forkCopy child pid k)) _ :=
    (shareTrials_nap child (shareSlice child (forkCopy child pid k))).map Prod.snd
  refine ⟨h1.jiffies, (h1.field _).trans ?_, (h1.field _).trans ?_⟩
  · unfold shareSlice
    rw [Kernel.mod_tasks_self]
    rfl
  · unfold shareSlice
    dsimp only
    rw [Kernel.mod_tasks_ne hc]
    have hcur : (forkCopy child pid k).current = k.current := rfl
    rw [hcur, Kernel.mod_tasks_self, Kernel.mod_tasks_ne hc, forkCopy, Kernel.mod_tasks_ne hc]

theorem forkTick_stamps (hs : Short (k.tasks k.current)) (hi : k.current ≠ k.rq.idle)
    (h : forkTick HZ k = some k') : Stamps k k' := by
  obtain ⟨-, h⟩ | ⟨-, rfl⟩ := forkTick_cases h
  · have h1 : Stamps k (k.mod k.current fun t => { t with timeSlice := 1 }) :=
      (Same.refl _ k).mod fun _ => by rfl
    have hs' : Short ((k.mod k.current fun t => { t with timeSlice := 1 }).tasks k.current) := by
      rw [Kernel.mod_tasks_self]
      exact hs
    rw [schedulerTick_eq hs' hi] at h
    exact h1.trans (tickShort_stamps h)
  · exact Same.refl _ k'

theorem effectivePrio_short {t : TaskStruct} (hs : Short t)
    (hst : 100 ≤ t.staticPrio ∧ t.staticPrio < 140) : effectivePrio HZ t = t.staticPrio :=
  (effectivePrio_dynamic HZ t).2.2 hs hst.1 hst.2

theorem credited_short {t : TaskStruct} (h : t.core.ShortRanged) :
    (credited HZ k t).prio = queuedPrio k t := by
  unfold credited queuedPrio
  by_cases h0 : sleepTime k t = 0
  · rw [if_pos h0, if_neg fun hc => hc.2 h0]
  · rw [if_neg h0, if_pos ⟨not_lt.mpr h.prio.1, h0⟩]
    exact effectivePrio_short (t := { t with sleepAvg := _ }) h.short h.static

/-- A SHORT task is queued at the tail of its queue of `short_q`. -/
theorem activateTask_short (h : activateTask HZ p k = some k') (hp : (k.core p).ShortRanged) :
    (k'.core p).runList = some ⟨k.rq.cpu, k.rq.shortQ, queuedPrio k (k.tasks p)⟩ ∧
      ∀ b l, k'.queue b l = if b = k.rq.shortQ ∧ l = queuedPrio k (k.tasks p) then
        k.queue b l ++ [p] else k.queue b l := by
  obtain ⟨-, rfl⟩ := activateTask_eq_some.mp h
  have ha : activationArray k.rq (k.tasks p) = k.rq.shortQ := by
    simp only [activationArray, show (k.tasks p).policy = .short from hp.short.1,
      show (k.tasks p).isOverdue = false from hp.short.2, if_true, Bool.false_eq_true, if_false]
  have hi : (credited HZ k (k.tasks p)).prio = queuedPrio k (k.tasks p) := credited_short hp
  constructor
  · change ((k.activated HZ p).tasks p).runList = _
    simp only [Kernel.activated, Kernel.link, Kernel.modRq_tasks, place_tasks_self,
      Kernel.mod_tasks_self, Kernel.mod_rq, ha, hi]
  · intro b l
    have hq : (k.activated HZ p).queue b = ((k.mod p (credited HZ k)).link p
        (activationArray k.rq (k.tasks p))).queue b := rfl
    rw [hq, Kernel.link, place_queue, Kernel.mod_tasks_self, Kernel.mod_queue, ha, hi]
    by_cases hb : b = k.rq.shortQ
    · subst hb
      by_cases hl : l = queuedPrio k (k.tasks p)
      · subst hl
        simp
      · simp [hl]
    · simp [hb]

theorem requeueParent_short (h : requeueParent HZ child k = some k') (hs : Shape k 0)
    (hc : (k.tasks child).policy = .short) (hp : (k.core k.current).ShortRanged) :
    Shape k' 0 ∧ Stamps k k' ∧ (∀ q ≠ k.current, k'.core q = k.core q) ∧ k'.ptrs = k.ptrs ∧
      (k'.core k.current).runList =
        some ⟨k.rq.cpu, k.rq.shortQ, queuedPrio k (k.tasks k.current)⟩ := by
  obtain ⟨-, l, hdown, -, hup⟩ | ⟨hn, -⟩ := requeueParent_cases h
  swap
  · exact absurd hc hn
  obtain ⟨-, ho⟩ := deactivateTask_only hdown
  have hst := (Same.refl _ k).deactivate stamps_offQueue.lists hdown
  have hself : l.core k.current = (k.core k.current).off := ho.self
  have hlp : (l.core k.current).ShortRanged := by
    rw [hself]
    exact ⟨hp.short, hp.prio, hp.static⟩
  have hq : queuedPrio l (l.tasks k.current) = queuedPrio k (k.tasks k.current) := by
    unfold queuedPrio
    rw [hst.sleepTime, show (l.tasks k.current).prio = (k.tasks k.current).prio from
      congrArg Core.prio hself, show (l.tasks k.current).staticPrio =
        (k.tasks k.current).staticPrio from congrArg Core.staticPrio hself]
  obtain ⟨-, i, -, ho'⟩ := activateTask_only hup
  refine ⟨(hs.deactivateTask hdown).activateTask ⟨?_, hlp.prio.2⟩ hup,
    hst.activate stamps_offQueue hup, fun q hne => (ho'.rest hne).trans (ho.rest hne),
    ho'.ptrs.trans ho.ptrs, ?_⟩
  · exact le_trans (by decide) hlp.prio.1
  · rw [(activateTask_short hup hlp).1, hq, show l.rq.cpu = k.rq.cpu from
      congrArg Ptrs.cpu ho.ptrs, show l.rq.shortQ = k.rq.shortQ from congrArg Ptrs.shortQ ho.ptrs]

theorem forkPenalty_stamps (h : Stamps k m) : Stamps k (forkPenalty HZ p m) := by
  unfold ShortSched.forkPenalty
  dsimp only
  split_ifs
  · exact h
  · exact ((h.mod fun _ => by rfl).mod fun _ => by rfl).mod fun _ => by rfl

/-- The child joins the tail of a queue of `short_q` while the parent hangs on another place. -/
structure Enqueues (child parent : TaskId) (i j : ℤ) (k k' : Kernel) : Prop where
  shape : Shape k 0
  free : (k.core child).runList = none
  waits : (k.core parent).runList = some ⟨k.rq.cpu, k.rq.shortQ, i⟩
  ptrs : k'.ptrs = k.ptrs
  rest : ∀ q ≠ child, k'.core q = k.core q
  queue : ∀ b l, k'.queue b l = if b = k.rq.shortQ ∧ l = j then k.queue b l ++ [child]
    else k.queue b l

/-- The parent is queued again before the child is. -/
theorem wakeUpForkedProcess_enqueues (h : wakeUpForkedProcess HZ child k = some k')
    (hs : Shape k 0) (hne : child ≠ k.current) (hc : (k.core child).ShortRanged)
    (hl : (k.core child).runList = none) (hsleep : sleepTime k (k.tasks child) = 0)
    (hp : (k.core k.current).ShortRanged) :
    ∃ n, n.ptrs = k.ptrs ∧ Enqueues child k.current (queuedPrio k (k.tasks k.current))
      (k.core child).staticPrio n k' := by
  obtain ⟨m, hm, h⟩ := wakeUpForkedProcess_eq_some.mp h
  have hs1 : Shape (k.mod child fun t => { t with state := .running }) 0 :=
    hs.mod_same _ fun _ => ⟨rfl, rfl, rfl⟩
  have ho1 : Only child ((k.core child).withState .running) k
    (k.mod child fun t => { t with state := .running }) := mod_only rfl
  have hcur1 : (k.mod child fun t => { t with state := .running }).current = k.current := rfl
  obtain ⟨hsm, hst, hrest, hptr, hpar⟩ := requeueParent_short hm hs1
    (by rw [Kernel.mod_tasks_self]; exact hc.short.1)
    (by rw [hcur1, ho1.rest hne.symm]; exact hp)
  have hst1 : Stamps k (k.mod child fun t => { t with state := .running }) :=
    (Same.refl _ k).mod fun _ => rfl
  have hqp : queuedPrio (k.mod child fun t => { t with state := .running })
      ((k.mod child fun t => { t with state := .running }).tasks k.current) =
      queuedPrio k (k.tasks k.current) := by
    rw [Kernel.mod_tasks_ne hne.symm]
    rfl
  rw [hcur1] at hrest hpar
  rw [hqp] at hpar
  have hmc : m.core child = (k.core child).withState .running := by
    rw [hrest child hne, ho1.self]
  have hfree : (m.core child).runList = none := by
    rw [hmc]
    exact hl
  obtain ⟨i, hfresh, ho2⟩ := forkPenalty_only HZ child m
  have hi : i = (k.core child).staticPrio := by
    rw [hmc] at hfresh
    rcases hfresh with ⟨hlt, -⟩ | ⟨-, hdyn⟩
    · exact absurd hlt (not_lt.mpr hc.prio.1)
    · exact hdyn.2.2 hc.short hc.static.1 hc.static.2
  set n := (forkPenalty HZ child m).mod child fun t =>
    { t with cpu := (forkPenalty HZ child m).rq.cpu } with hn
  have ho3 : Only child ((m.core child).withPrio i) m n := ho2.quiet (mod_quiet fun _ => rfl)
  have hst3 : Stamps k n := (forkPenalty_stamps (p := child) (hst1.trans hst)).mod fun _ => rfl
  have hnc : n.core child = ((k.core child).withState .running).withPrio i := by
    rw [ho3.self, hmc]
  have hcn : (n.core child).ShortRanged := by
    rw [hnc]
    exact ⟨hc.short, hi ▸ hc.static, hc.static⟩
  have hq : queuedPrio n (n.tasks child) = (k.core child).staticPrio := by
    unfold queuedPrio
    rw [hst3.sleepTime, if_pos hsleep, ← hi]
    exact congrArg Core.prio hnc
  obtain ⟨-, i', -, ho4⟩ := activateTask_only h
  obtain ⟨-, hqueue⟩ := activateTask_short h hcn
  have hptrn : n.ptrs = k.ptrs := ho3.ptrs.trans hptr
  refine ⟨n, hptrn, (hsm.forkPenalty hfree).mod_same _ fun _ => ⟨rfl, rfl, rfl⟩, ?_, ?_, ho4.ptrs,
    fun q hne => ho4.rest hne, ?_⟩
  · rw [ho3.self]
    exact hfree
  · rw [ho3.rest hne.symm, hpar]
    rw [show n.rq.cpu = k.rq.cpu from congrArg Ptrs.cpu hptrn,
      show n.rq.shortQ = k.rq.shortQ from congrArg Ptrs.shortQ hptrn]
    rfl
  · intro b l
    rw [← hq]
    exact hqueue b l

theorem Enqueues.quiet {parent : TaskId} (h : Enqueues child parent i j n m) (hq : Quiet m k')
    (hqueue : k'.queue = m.queue) : Enqueues child parent i j n k' where
  shape := h.shape
  free := h.free
  waits := h.waits
  ptrs := hq.ptrs.trans h.ptrs
  rest q hne := (congrFun hq.core q).trans (h.rest q hne)
  queue b l := by rw [hqueue, h.queue]

/-! What `schedule` makes of the order. -/

theorem schedule_picks (h : schedule k = some k') : ∃ m, schedulePrev k.current k = some m ∧
    (m.rq.nrRunning = 0 ∨ ∃ a i, pickQueue (swapArrays m) = some (a, i) ∧
      (m.queue a i).head? = some k'.current) := by
  obtain ⟨m, hm, ⟨next, n⟩, hn, rfl⟩ := schedule_eq_some.mp h
  have hmv : Moves 0 Guard.free k.current k m := schedulePrev_moves hm
  obtain ⟨-, hcur, hnext⟩ := pickNext_switch hn
  refine ⟨m, hm, ?_⟩
  rcases hnext with ⟨h0, -⟩ | ⟨-, rfl, a, i, hpick, hx⟩
  · exact Or.inl h0
  · right
    refine ⟨a, i, hpick, ?_⟩
    rw [← (swapArrays_switch m).queue]
    exact hx.trans (congrArg some (switchTasks_switch (k := swapArrays m) k.current next
      (hcur.trans hmv.curr)).2.2.symm)

/-- A task is not picked while another one waits on its array at a better priority. -/
theorem WellOrdered.schedule_passes_over (h : WellOrdered k)
    (hp : (k.core p).runList = some ⟨k.rq.cpu, a, i⟩)
    (hq : (k.core q).runList = some ⟨k.rq.cpu, a, j⟩) (hlt : j < i) (hcur : k.current ≠ q)
    (hk : ShortSched.schedule k = some k') : k'.current ≠ p := by
  obtain ⟨m, hm, hpick⟩ := schedule_picks hk
  have hwm := h.schedulePrev hm
  obtain ⟨c, ho, hcase⟩ := schedulePrev_only hm
  have hcpu : m.rq.cpu = k.rq.cpu := congrArg Ptrs.cpu ho.ptrs
  have hqm : q ∈ m.queue a j := by
    apply hwm.shape.mem_iff.mpr
    change (m.core q).runList = _
    rw [ho.rest hcur.symm, hcpu, hq]
  rcases hpick with h0 | ⟨b, l, hpick, hhead⟩
  · exact absurd h0 (hwm.shape.nrRunning_ne_zero.mpr ⟨q, a, j, hqm⟩)
  · rintro rfl
    have hl : (m.core k'.current).runList = some ⟨m.rq.cpu, b, l⟩ :=
      hwm.shape.mem_iff.mp (List.mem_of_mem_head? hhead)
    have hsame : (m.core k'.current).runList = (k.core k'.current).runList := by
      by_cases he : k'.current = k.current
      · rw [he] at hl ⊢
        rw [ho.self] at hl ⊢
        rcases hcase with ⟨-, rfl⟩ | ⟨-, rfl⟩ | ⟨-, -, rfl⟩
        · rfl
        · rfl
        · cases hl
      · rw [ho.rest he]
    rw [hsame, hp, hcpu] at hl
    cases hl
    rw [← (swapArrays_switch m).queue] at hqm
    have := pickQueue_first (hwm.switch (swapArrays_switch m)).shape.arrays hpick hqm
    omega

/-- The child is ahead exactly when its priority is better. -/
theorem Enqueues.runsFirst_iff {parent : TaskId} (h : Enqueues child parent i j n k)
    (hs : Shape k 0) (hne : child ≠ parent) : RunsFirst child parent k ↔ j < i := by
  have hcpu : k.rq.cpu = n.rq.cpu := congrArg Ptrs.cpu h.ptrs
  have hshort : k.rq.shortQ = n.rq.shortQ := congrArg Ptrs.shortQ h.ptrs
  have hpar : parent ∈ n.queue n.rq.shortQ i := h.shape.mem_iff.mpr h.waits
  have hpl : (k.core parent).runList = some ⟨k.rq.cpu, k.rq.shortQ, i⟩ := by
    rw [h.rest parent hne.symm, h.waits, hcpu, hshort]
  have hcm : child ∈ k.queue k.rq.shortQ j := by
    rw [hshort, h.queue, if_pos ⟨rfl, rfl⟩]
    simp
  have hcl : (k.core child).runList = some ⟨k.rq.cpu, k.rq.shortQ, j⟩ := hs.mem_iff.mp hcm
  constructor
  · intro hr
    obtain ⟨j', hj', hall⟩ := hr.ahead
    obtain rfl : j' = j := (hs.of_mem hj').2.symm.trans (hs.of_mem hcm).2
    rcases hall i (hs.mem_iff.mpr hpl) with hlt | ⟨rfl, hahead⟩
    · exact hlt
    · rw [hshort, h.queue, if_pos ⟨rfl, rfl⟩] at hahead
      have hnot : child ∉ n.queue n.rq.shortQ j' := by
        intro hc
        cases h.free.symm.trans (h.shape.mem_iff.mp hc)
      exact absurd hahead (((Ahead.of_notMem hpar hnot).append _).asymm hne.symm)
  · intro hlt
    constructor
    · refine ⟨j, hcm, fun l hl => Or.inl ?_⟩
      have he : some _ = some (⟨k.rq.cpu, k.rq.shortQ, l⟩ : ListHead) :=
        hpl.symm.trans (hs.mem_iff.mp hl)
      cases he
      exact hlt
    · intro m m' hw hmcpu hmshort hmc hmp hcur hm
      apply hw.schedule_passes_over (a := k.rq.shortQ) (i := i) (j := j) _ _ hlt hcur hm
      · exact hmp.trans (hmcpu ▸ hpl)
      · exact hmc.trans (hmcpu ▸ hcl)

/-! The fork. -/

theorem Core.SharedOut.of_short {ps : Ptrs} (h : c.SharedOut HZ ps d) (hc : c.ShortRanged)
    (h0 : c.timeSlice ≠ 0) :
    (d.ShortRanged ∧ d.prio = c.prio ∧ d.staticPrio = c.staticPrio ∧
      ¬ (c.timeSlice = 1 ∧ (c.numberOfTrials / 2 ≤ c.currentTrial + 1 ∨
        shortTimeslice HZ c.requestedTime (c.currentTrial + 1) = 0))) ∨
    (d.IsOverdue ∧ d.prio = 0 ∧ c.timeSlice = 1 ∧ (c.numberOfTrials / 2 ≤ c.currentTrial + 1 ∨
      shortTimeslice HZ c.requestedTime (c.currentTrial + 1) = 0)) := by
  have hf : c.forking = { c with numberOfTrials := c.numberOfTrials / 2 } := if_pos hc.short
  cases h with
  | keeps h2 =>
    left
    rw [hf]
    exact ⟨⟨hc.short, hc.prio, hc.static⟩, rfl, rfl, fun h1 => h2 (by rw [h1.1])⟩
  | ticks h2 hd =>
    have h1 : c.timeSlice = 1 := by omega
    rw [hf] at hd
    cases hd with
    | skip h => exact absurd hc.short h
    | down h ht => exact absurd rfl ht
    | trial h ht hl hn hz =>
      refine Or.inl ⟨⟨hc.short, hc.prio, hc.static⟩, rfl, rfl, ?_⟩
      rintro ⟨-, hle | hzero⟩
      · exact absurd hn (not_lt.mpr hle)
      · exact hz hzero
    | overdue h ht hl hn => exact Or.inr ⟨⟨hc.short.1, rfl⟩, rfl, h1, hn⟩
    | rrSlice h => cases hc.short.1.symm.trans h
    | otherSlice a i h => exact absurd hc.short.1 h

theorem wakeUpForkedProcess_overdue (h : wakeUpForkedProcess HZ child k = some k')
    (hne : child ≠ k.current) (hp : (k.core k.current).IsOverdue) :
    (k'.core k.current).IsOverdue := by
  obtain ⟨l, m, h1, h2, h3, -⟩ := wakeUpForkedProcess_moves (π := servedGuard) h
  have hsteps : ReflTransGen (TaskStep HZ l.ptrs servedGuard) (k.core k.current)
      (m.core k.current) := by
    rw [← h1.rest _ hne.symm]
    exact h2.steps
  rw [h3.rest _ hne.symm]
  clear h1 h2 h3
  generalize m.core k.current = d at hsteps
  induction hsteps with
  | refl => exact hp
  | tail _ hstep ih => exact hstep.overdue ih

/-- The tasks of a fork by a SHORT task, up to the point where the child is woken. -/
theorem doFork_parts {pid : ℤ} {cloneParent : Bool} (hs : Sound k)
    (he : Enabled k (.doFork child pid false cloneParent)) (hc : (k.core k.current).IsShort)
    (h : doFork HZ child pid false cloneParent k = some k') :
    ∃ l n, Shape l 0 ∧ l.ptrs = k.ptrs ∧ l.current = k.current ∧
      (k.core k.current).SharedOut HZ k.ptrs (l.core k.current) ∧
      l.core child = (k.core k.current).forked ∧ sleepTime l (l.tasks child) = 0 ∧
      sleepTime l (l.tasks k.current) = sleepTime k (k.tasks k.current) ∧
      wakeUpForkedProcess HZ child l = some n ∧ Quiet n k' ∧ k'.queue = n.queue := by
  obtain ⟨-, hidle, hcur, hl⟩ := he
  obtain ⟨h0, m, n, hm, hn, rfl⟩ := doFork_eq_some.mp h
  have hne : k.current ≠ k.rq.idle := hs.ne_idle hc.1
  obtain ⟨c, hshare, hb⟩ := forkTick_parts hcur.symm hidle.symm hs.idle.not_short hm
  have hbs := forkSplit_both (k := k) pid hcur.symm
  obtain ⟨hj, hchild, hpar⟩ := forkSplit_stamps (k := k) pid hcur.symm
  have hcore := linkChild_core child cloneParent m
  have hst : Stamps (forkSplit child (forkCopy child pid k)) (linkChild child cloneParent m) := by
    have hcurs : (forkSplit child (forkCopy child pid k)).current = k.current := hbs.curr
    have hshort : ((forkSplit child (forkCopy child pid k)).core k.current).IsShort := by
      rw [hbs.left, ← Core.forking_withSlice]
      exact Core.forking_isShort.mpr hc
    have h1 : Stamps _ m := forkTick_stamps (by rw [hcurs]; exact hshort)
      (by rw [hcurs, hbs.idle]; exact hne) hm
    have h2 := h1.mod (p := child) (f := fun t =>
      { t with pOpptr := if cloneParent then (m.tasks m.current).pOpptr else m.current })
      fun _ => rfl
    exact h2.of_tasks rfl rfl
  refine ⟨linkChild child cloneParent m, n, ?_, hb.ptrs, hb.curr, ?_, ?_, ?_, ?_, hn, ?_, ?_⟩
  · exact (hs.shape.forked hcur.symm hl (hs.arranged.tasks _) hm).of_core hcore rfl rfl rfl
  · rw [hcore, hb.left]
    exact hshare
  · rw [hcore, hb.right]
  · rw [hst.sleepTime, sleepTime, hj, hchild]
    simp [u32]
  · rw [hst.sleepTime, sleepTime, hj, hpar]
    rfl
  · rw [if_neg (by decide)]
    exact (recordSwitch_quiet _).trans (reschedTask_quiet _)
  · rfl

end

/-- After a fork by a SHORT task its child runs first, whenever the parent is still on `short_q`,
if and only if the fork's tick makes the parent overdue or the parent is queued again at a
priority worse than its static one. -/
theorem child_runs_first_iff (HZ : ℕ) (k k' : Kernel) (child : TaskId) (pid : ℤ)
    (cloneParent : Bool) (hs : Sound k) (he : Enabled k (.doFork child pid false cloneParent))
    (hshort : Short (k.tasks k.current))
    (h : doFork HZ child pid false cloneParent k = some k') :
    ((∃ i, k.current ∈ k'.queue k'.rq.shortQ i) → RunsFirst child k.current k') ↔
      ForkTickOverdue HZ (k.tasks k.current) ∨
        (k.tasks k.current).staticPrio < queuedPrio k (k.tasks k.current) := by
  have hs' : Sound k' := hs.exec he h
  have hcur : child ≠ k.current := he.2.2.1
  have h0 : (k.tasks k.current).timeSlice ≠ 0 := (doFork_eq_some.mp h).1
  have hc : (k.core k.current).ShortRanged :=
    ⟨hshort, (hs.arranged.tasks _ (hs.ne_idle hshort.1)).prio.short hshort,
      hs.arranged.static k.current⟩
  obtain ⟨l, n, hsl, hptr, hlcur, hshare, hchild, hcs, hps, hwake, hq, hqueue⟩ :=
    doFork_parts hs he hshort h
  rcases hshare.of_short hc h0 with ⟨hr, hprio, hstatic, hno⟩ | ⟨hover, -, hyes⟩
  · have hlc : (l.core child).ShortRanged := by
      rw [hchild]
      exact ⟨hshort, hc.prio, hc.static⟩
    obtain ⟨n', hptr', hen⟩ := wakeUpForkedProcess_enqueues hwake hsl (hlcur ▸ hcur) hlc
      (by rw [hchild]; rfl) hcs (hlcur.symm ▸ hr)
    rw [hlcur, hchild] at hen
    have hen' := hen.quiet hq hqueue
    have hqp : queuedPrio l (l.tasks k.current) = queuedPrio k (k.tasks k.current) := by
      unfold queuedPrio
      rw [hps, show (l.tasks k.current).prio = (k.tasks k.current).prio from hprio,
        show (l.tasks k.current).staticPrio = (k.tasks k.current).staticPrio from hstatic]
    have hon : ∃ i, k.current ∈ k'.queue k'.rq.shortQ i := by
      refine ⟨queuedPrio l (l.tasks k.current), hs'.shape.mem_iff.mpr ?_⟩
      change (k'.core k.current).runList = _
      rw [hen'.rest _ hcur.symm, hen'.waits, show k'.rq.cpu = n'.rq.cpu from
        congrArg Ptrs.cpu hen'.ptrs, show k'.rq.shortQ = n'.rq.shortQ from
        congrArg Ptrs.shortQ hen'.ptrs]
    rw [forall_prop_of_true hon, hen'.runsFirst_iff hs'.shape hcur, hqp,
      or_iff_right (a := ForkTickOverdue HZ (k.tasks k.current)) hno]
    rfl
  · refine iff_of_true ?_ (Or.inl hyes)
    rintro ⟨i, hi⟩
    have hov := wakeUpForkedProcess_overdue hwake (hlcur ▸ hcur) (hlcur.symm ▸ hover)
    rw [hlcur, ← congrFun hq.core k.current] at hov
    have hsh : (k'.core k.current).IsShort := (hs'.wellOrdered.short _ _ _ hi).mp rfl
    cases hsh.2.symm.trans hov.2

/-- Task 1 yields to task 2, which is less urgent, and gets the processor back at its priority. -/
def demotedParent : List Op :=
  startTask ++ [.doFork 2 2 false false, .setUserNice 2 5,
    .sysSchedSetscheduler 0 4 (shortParam 100 5), .sysSchedSetscheduler 2 4 (shortParam 100 5),
    .sysSchedYield, .sysSchedYield]

theorem child_runs_first_iff_demotedParent : ∃ k ∈ runFromBoot 512 demotedParent,
    ∃ k' ∈ doFork 512 3 3 false false k, k.current = 1 ∧ k'.queue k'.rq.shortQ 125 = [2, 1] ∧
      RunsFirst 3 1 k' := by
  obtain ⟨k, hk, hcur, he, hshort, hlt, k', hk', hq⟩ : ∃ k ∈ runFromBoot 512 demotedParent,
      k.current = 1 ∧ Enabled k (.doFork 3 3 false false) ∧ Short (k.tasks k.current) ∧
        (k.tasks k.current).staticPrio < queuedPrio k (k.tasks k.current) ∧
        ∃ k' ∈ doFork 512 3 3 false false k, k'.queue k'.rq.shortQ 125 = [2, 1] := by
    decide +kernel
  have hs : Sound k := runFromBoot_sound (C := fun _ _ => True) (by decide +kernel) hk
  have hr := (child_runs_first_iff 512 k k' 3 3 false hs he hshort hk').mpr (Or.inr hlt)
  rw [hcur] at hr
  exact ⟨k, hk, k', hk', hcur, hq, hr ⟨125, by rw [hq]; decide⟩⟩

/-- A task that just became SHORT forks: it is queued in front of its child, and `schedule`
picks it again. -/
theorem parent_runs_first : ∃ k ∈ runFromBoot 512 (shortTicks 100 5 0),
    ∃ k' ∈ doFork 512 2 2 false false k, k.current = 1 ∧ k'.queue k'.rq.shortQ 120 = [1, 2] ∧
      (∃ k'' ∈ schedule k', k''.current = 1) ∧
        ¬ ((∃ i, k.current ∈ k'.queue k'.rq.shortQ i) → RunsFirst 2 k.current k') := by
  obtain ⟨k, hk, hcur, he, k', hk', hq, hne, k'', hk'', hagain⟩ :
      ∃ k ∈ runFromBoot 512 (shortTicks 100 5 0), k.current = 1 ∧
        Enabled k (.doFork 2 2 false false) ∧ ∃ k' ∈ doFork 512 2 2 false false k,
          k'.queue k'.rq.shortQ 120 = [1, 2] ∧ k'.current ≠ 2 ∧
          ∃ k'' ∈ schedule k', k''.current = 1 := by
    decide +kernel
  have hs : Sound k := runFromBoot_sound (C := fun _ _ => True) (by decide +kernel) hk
  have hs' : Sound k' := hs.exec he hk'
  refine ⟨k, hk, k', hk', hcur, hq, ⟨k'', hk'', hagain⟩, fun hr => ?_⟩
  have h1 := hr ⟨120, by rw [hq, hcur]; decide⟩
  exact h1.served k' k'' hs'.wellOrdered rfl rfl rfl rfl hne hk'' (hagain.trans hcur.symm)

end ShortSched
