import ShortSched.Upkeep

/-! Class separation: from any consistent state in which every class is where it belongs,
every operation leads to such a state again. -/
namespace ShortSched
open Relation PartialRun

/-- Every task is placed. -/
structure Arranged (k : Kernel) : Prop where
  tasks : ∀ q ≠ k.rq.idle, (k.core q).Placed k.ptrs
  idle : (k.core k.rq.idle).IdlePlaced k.ptrs

section
variable {HZ : ℕ} {π : Guard} {ps : Ptrs} {c : Core} {k k' : Kernel} {op : Op} {p : TaskId}
  {a : ArrayIdx} {i d : ℤ}

theorem Arranged.static (h : Arranged k) (q : TaskId) :
    100 ≤ (k.core q).staticPrio ∧ (k.core q).staticPrio < 140 := by
  by_cases hq : q = k.rq.idle
  · rw [hq]
    rcases h.idle.placed with hp | hp
    · exact hp.static
    · exact hp.1
  · exact (h.tasks q hq).static

/-- A task that is woken for the first time is on no list. -/
theorem wakeUpForkedProcess_free (h : wakeUpForkedProcess HZ p k = some k')
    (hp : p ≠ k.current) : (k.core p).runList = none := by
  obtain ⟨l, m, n, i, h1, h2, -, h3, h4⟩ := wakeUpForkedProcess_only h
  have hl := (h3.activate h4).1
  have hcur : l.current = k.current := h1.curr
  rw [(requeueParent_moves (π := Guard.free) h2).2.rest p (hcur ▸ hp), h1.self] at hl
  exact hl

/-- Every operation keeps lists, bitmaps and counters consistent. -/
theorem Shape.exec (h : Shape k d) (ha : Arranged k) (hi : IdleOk k) (he : Enabled k op)
    (hs : exec HZ op k = some k') : Shape k' d := by
  cases op with
  | advance n => cases hs; exact h.of_core rfl rfl rfl rfl
  | setSigpending p b =>
    cases hs
    exact h.mod_same (p := p) (fun t => { t with sigpending := b }) fun _ => ⟨rfl, rfl, rfl⟩
  | setCredentials p uid euid capSysNice =>
    cases hs
    exact h.mod_same (p := p) (fun t => { t with uid, euid, capSysNice }) fun _ => ⟨rfl, rfl, rfl⟩
  | setCurrentState s =>
    cases hs
    exact h.mod_same (p := k.current) (fun t => { t with state := s }) fun _ => ⟨rfl, rfl, rfl⟩
  | schedule reason =>
    cases reason with
    | none => exact h.schedule hs
    | some r => exact (h.recordSwitch r).schedule hs
  | schedulerTick => exact h.schedulerTick (ha.tasks _) hs
  | tryToWakeUp p =>
    exact h.tryToWakeUp (ha.tasks p fun hp => hi.unhashed (hp ▸ he)).prio.range hs
  | wakeUpForkedProcess p =>
    have hp := ha.tasks p fun hp => hi.unhashed (hp ▸ he.1)
    refine h.wakeUpForkedProcess he.2.1 (wakeUpForkedProcess_free hs he.2.1) (fun hpol => ?_)
      (fun i hf => ?_) hs
    · exact (ha.tasks _ (he.2.2.1 hpol)).prio.range
    · exact (hp.forked hf).prio.range
  | doFork child pid vfork cloneParent =>
    exact h.doFork he.2.2.1.symm he.2.1.symm he.2.2.2 (ha.tasks _) ha.idle hs
  | setUserNice p nice => exact h.setUserNice hs
  | sysNice increment =>
    obtain ⟨⟨r, m⟩, hm, rfl⟩ := Option.map_eq_some_iff.mp hs
    obtain rfl | hn := sysNice_cases hm
    · exact h
    · exact h.setUserNice hn
  | sysSchedYield => exact h.sysSchedYield hs
  | sysSchedSetscheduler pid policy param =>
    obtain ⟨⟨r, m⟩, hm, rfl⟩ := Option.map_eq_some_iff.mp hs
    exact h.setscheduler (fun q _ => ha.static q) (sysSchedSetscheduler_eq hm)
  | sysSchedSetparam pid param =>
    obtain ⟨⟨r, m⟩, hm, rfl⟩ := Option.map_eq_some_iff.mp hs
    exact h.setscheduler (fun q _ => ha.static q) hm
  | exitNotify reaper childReaper => cases hs; exact h.exitNotify _ _
  | releaseTask p => cases hs; exact h.releaseTask p
  | initIdle => exact h.initIdle hs

/-- When active and expired array trade places, a task that is not on the active array stays
where it belongs. -/
theorem Core.Placed.swap (h : c.Placed ps)
    (hne : c.runList ≠ none → ∀ a ∈ c.array, a ≠ ps.active) :
    c.Placed { ps with active := ps.expired, expired := ps.active } where
  static := h.static
  prio := h.prio
  here := h.here
  home hl a ha := by
    have hb := h.home hl a ha
    have hn := hne hl a ha
    unfold Core.Belongs at hb ⊢
    cases hp : c.policy <;> simp only [hp] at hb ⊢
    case other => exact hb.symm
    case short => exact hb
    all_goals exact absurd hb hn

/-- No task is linked on an array that counts none. -/
theorem Shape.not_on_empty (h : Shape k d) (he : (k.rq.arrays a).nrActive = 0)
    (hl : (k.core p).runList ≠ none) (hcpu : ∀ l ∈ (k.core p).runList, l.cpu = k.rq.cpu) :
    ∀ b ∈ (k.core p).array, b ≠ a := by
  intro b hb hba
  obtain ⟨l, hl⟩ := Option.ne_none_iff_exists'.mp hl
  have hh := h.home p l hl
  have hla : l.array = a := Option.some.inj (hh.1.symm.trans (hba ▸ hb))
  have hmem : p ∈ (k.rq.arrays a).queue l.prio := by
    have hc : l.cpu = k.rq.cpu := hcpu l hl
    exact h.mem_iff.mpr (by rw [← hla, ← hc]; exact hl)
  have := (h.arrays a).nrActive_pos_iff.mpr ⟨p, l.prio, hmem⟩
  omega

/-- Every operation keeps every task placed. -/
theorem Effect.arranged (h : Effect HZ π op k k') (ha : Arranged k) (hs : Shape k' d) :
    Arranged k' := by
  have htasks : ∀ q, q ≠ k.rq.idle → (k'.core q).Placed k.ptrs := by
    intro q hq
    by_cases hc : op.child = some q
    · obtain ⟨-, -, i, hi, hsteps⟩ := h.born q hc
      refine steps_invariant (I := Core.Placed k.ptrs) (fun _ _ => TaskStep.placed) hsteps ?_
      by_cases he : k.current = k.rq.idle
      · exact (he ▸ ha.idle).forked hi
      · exact (ha.tasks _ he).forked hi
    · exact steps_invariant (I := Core.Placed k.ptrs) (fun _ _ => TaskStep.placed)
        (h.tasks q hq hc) (ha.tasks q hq)
  have hidle : (k'.core k.rq.idle).IdlePlaced k.ptrs :=
    steps_invariant (I := Core.IdlePlaced k.ptrs) (fun _ _ => IdleStep.placed) h.idleTask ha.idle
  rcases h.roles with hr | ⟨he, hr⟩
  · exact ⟨by rw [h.idle, hr]; exact htasks, by rw [h.idle, hr]; exact hidle⟩
  · have hcpu : k.ptrs.cpu = k'.rq.cpu := (congrArg Ptrs.cpu hr).symm
    have hswap : ∀ q, (k'.core q).Placed k.ptrs → (k'.core q).Placed k'.ptrs := by
      intro q hq
      rw [hr]
      exact hq.swap fun hl => hs.not_on_empty he hl fun l hl => (hq.here l hl).trans hcpu
    refine ⟨by rw [h.idle]; exact fun q hq => hswap q (htasks q hq), ?_⟩
    rw [h.idle]
    exact ⟨hidle.policy, hidle.placed.imp_left (hswap _)⟩

/-- The four arrays of a runqueue are different arrays. -/
def Ptrs.Distinct (ps : Ptrs) : Prop := [ps.active, ps.expired, ps.shortQ, ps.overdue].Nodup

instance (ps : Ptrs) : Decidable ps.Distinct := inferInstanceAs (Decidable (List.Nodup _))

theorem Ptrs.Distinct.ne {ps : Ptrs} (h : ps.Distinct) : ps.active ≠ ps.expired ∧
    ps.active ≠ ps.shortQ ∧ ps.active ≠ ps.overdue ∧ ps.expired ≠ ps.shortQ ∧
      ps.expired ≠ ps.overdue ∧ ps.shortQ ≠ ps.overdue := by
  unfold Ptrs.Distinct at h
  simp only [List.nodup_cons, List.mem_cons, List.not_mem_nil, or_false, not_or] at h
  obtain ⟨⟨h0, h1, h2⟩, ⟨h3, h4⟩, h5, -⟩ := h
  exact ⟨h0, h1, h2, h3, h4, h5⟩

/-- The four arrays are all there are. -/
theorem Ptrs.Distinct.cases {ps : Ptrs} (h : ps.Distinct) (a : ArrayIdx) :
    a = ps.active ∨ a = ps.expired ∨ a = ps.shortQ ∨ a = ps.overdue := by
  obtain ⟨c, w, x, y, z⟩ := ps
  unfold Ptrs.Distinct at h
  dsimp only at h ⊢
  revert a w x y z
  decide

theorem Effect.distinct (h : Effect HZ π op k k') (hd : k.ptrs.Distinct) : k'.ptrs.Distinct := by
  rcases h.roles with hr | ⟨-, hr⟩
  · rwa [hr]
  · rw [hr]
    exact (List.Perm.swap _ _ _).nodup_iff.mp hd

/-- A consistent state in which every task is placed. -/
structure Sound (k : Kernel) : Prop where
  distinct : k.ptrs.Distinct
  shape : Shape k 0
  arranged : Arranged k
  idle : IdleOk k

theorem Sound.exec (h : Sound k) (he : Enabled k op) (hs : exec HZ op k = some k') :
    Sound k' where
  distinct := (exec_effect hs he h.idle (Permits.free k op)).distinct h.distinct
  shape := h.shape.exec h.arranged h.idle he hs
  arranged := (exec_effect hs he h.idle (Permits.free k op)).arranged h.arranged
    (h.shape.exec h.arranged h.idle he hs)
  idle := (exec_effect hs he h.idle (Permits.free k op)).idleOk he h.idle

/-- Linked tasks are on the arrays of their class, at the priorities of their class. -/
def ClassesSeparated (k : Kernel) : Prop :=
  ∀ p a i, p ∈ k.queue a i →
    (Overdue (k.tasks p) → a = k.rq.overdue) ∧ (Short (k.tasks p) → a = k.rq.shortQ) ∧
      ((k.tasks p).policy = .fifo ∨ (k.tasks p).policy = .rr →
        a = k.rq.active ∧ (k.tasks p).prio < 100) ∧
      ((k.tasks p).policy = .other → (a = k.rq.active ∨ a = k.rq.expired) ∧
        100 ≤ (k.tasks p).prio ∧ (k.tasks p).prio < 140)

/-- Every list entry is on this runqueue. -/
theorem Sound.here (h : Sound k) (p : TaskId) : ∀ l ∈ (k.tasks p).runList, l.cpu = k.rq.cpu := by
  by_cases hp : p = k.rq.idle
  · subst hp
    rcases h.arranged.idle.placed with hi | ⟨-, -, hl, -⟩
    · exact hi.here
    · exact fun l hr => absurd (hl.symm.trans hr) (by simp)
  · exact (h.arranged.tasks p hp).here

theorem Sound.belongs (h : Sound k) (hp : p ∈ k.queue a i) :
    (k.core p).Belongs k.ptrs a ∧ (k.core p).PrioOk := by
  have hl : (k.core p).runList ≠ none := by
    have := h.shape.mem_iff.mp hp
    simp [Kernel.core, TaskStruct.core, this]
  have ha := (h.shape.of_mem hp).1
  by_cases hi : p = k.rq.idle
  · subst hi
    rcases h.arranged.idle.placed with hc | ⟨-, -, hc, -⟩
    · exact ⟨hc.home hl a ha, hc.prio⟩
    · exact absurd hc hl
  · have hc := h.arranged.tasks p hi
    exact ⟨hc.home hl a ha, hc.prio⟩

theorem Sound.separated (h : Sound k) : ClassesSeparated k := by
  intro p a i hp
  obtain ⟨hb, hprio⟩ := h.belongs hp
  have hpol : (k.core p).policy = (k.tasks p).policy := rfl
  have hov : (k.core p).isOverdue = (k.tasks p).isOverdue := rfl
  unfold Core.Belongs at hb
  rw [hpol, hov] at hb
  refine ⟨fun ho => ?_, fun hs => ?_, fun hr => ?_, fun ho => ?_⟩
  · simp only [ho.1, ho.2, if_true] at hb
    exact hb
  · simp only [hs.1, hs.2, Bool.false_eq_true, if_false] at hb
    exact hb
  · have hlt := (hprio.realTime hr).2
    rcases hr with hr | hr <;> simp only [hr] at hb <;> exact ⟨hb, hlt⟩
  · simp only [ho] at hb
    exact ⟨hb, hprio.other ho⟩

/-! Boot. -/

theorem emptyArray_ok : ArrayOk emptyArray where
  marked i hi := by
    have : i ≠ 140 := by simp at hi; omega
    simpa [emptyArray, maxPrio, maxRtPrio, maxUserRtPrio] using this
  delimiter := rfl
  counted := by simp [emptyArray, Buckets.total]
  outside _ _ := rfl

theorem bootKernel_shape (HZ : ℕ) : Shape (bootKernel HZ) 0 where
  located := ⟨fun p l _ => by simp [bootKernel, initTask, initRunqueue, emptyArray, Kernel.queue],
    fun l _ => by simp [bootKernel, initRunqueue, emptyArray, Kernel.queue]⟩
  home p l hl := by simp [bootKernel, initTask] at hl
  arrays _ := emptyArray_ok
  running := by simp [bootKernel, initRunqueue, emptyArray]

theorem initTask_placed (HZ : ℕ) (ps : Ptrs) : (initTask HZ).core.Placed ps :=
  .free ⟨show (100 : ℤ) ≤ 120 by decide, show (120 : ℤ) < 140 by decide⟩
    ⟨show (100 : ℤ) ≤ 120 by decide, show (120 : ℤ) < 140 by decide⟩ rfl

theorem schedInit_sound (h : schedInit HZ = some k) : Sound k := by
  have hm : Moves HZ Guard.free 0 (bootKernel HZ) k := schedInit_moves h
  have hplaced : ∀ q, (k.core q).Placed k.ptrs := by
    intro q
    rw [hm.ptrs]
    by_cases hq : q = 0
    · rw [hq]
      exact steps_invariant (I := Core.Placed _) (fun _ _ => TaskStep.placed) hm.steps
        (initTask_placed HZ _)
    · rw [hm.rest q hq]
      exact initTask_placed HZ _
  have hd : (bootKernel HZ).ptrs.Distinct :=
    show ([0, 1, 2, 3] : List ArrayIdx).Nodup by decide
  exact ⟨hm.ptrs ▸ hd,
    (bootKernel_shape HZ).tryToWakeUp (initTask_placed HZ (bootKernel HZ).ptrs).prio.range h,
    ⟨fun q _ => hplaced q, (schedInit_idleOk h).policy, Or.inl (hplaced _)⟩, schedInit_idleOk h⟩

theorem runFromBoot_sound {C : Kernel → Op → Prop} {ops : List Op}
    (hC : AlongBoot HZ C ops) (hr : runFromBoot HZ ops = some k) : Sound k :=
  (runFromBoot_invariant (J := Sound) (fun _ => schedInit_sound)
    (fun _ _ _ _ hs he _ h => hs.exec he h) hC hr).2

end
end ShortSched
