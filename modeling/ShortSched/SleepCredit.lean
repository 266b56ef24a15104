import ShortSched.SleepAverage
import ShortSched.Population
import ShortSched.Lib.Monitor

/-! Sleep credit along a run: a task gains sleep average for time that it was off the runqueue
because it slept, and for no other, just where no operation credits anybody else. -/
namespace ShortSched
open PartialRun

/-- `p` is off the runqueue because it sleeps. -/
def Kernel.Napping (k : Kernel) (p : TaskId) : Prop :=
  p ≠ k.current ∧ (k.tasks p).array = none ∧ (k.tasks p).state ≠ .running

instance (k : Kernel) (p : TaskId) : Decidable (k.Napping p) :=
  inferInstanceAs (Decidable (_ ∧ _ ∧ _))

/-- One step of a run. -/
structure SleepEvent where
  op : Op
  before : Kernel
  after : Kernel

/-- The time since a call of `schedule` took a task off the runqueue, for each task that has
neither run nor been on the runqueue since. -/
abbrev SleepLog := TaskId → Option ℕ

def SleepLog.boot : SleepLog := fun _ => none

def SleepLog.next (g : SleepLog) (e : SleepEvent) : SleepLog := fun p =>
  if e.after.current = p ∨ (e.after.tasks p).runList ≠ none then none
  else if e.before.current = p ∧ (e.before.tasks p).runList ≠ none then some 0
  else (g p).map (· + e.op.elapsed)

/-- The task that an operation wakes up. -/
def Op.woken : Op → Option TaskId
  | .tryToWakeUp p | .wakeUpForkedProcess p => some p
  | _ => none

/-- The sleep average of `p`, unless `p` is new, rises only when `p` is woken from being off the
runqueue, and by at most the time since `schedule` took it off. -/
def SleepLog.EarnedBy (g : SleepLog) (e : SleepEvent) (p : TaskId) : Prop :=
  e.op.child ≠ some p → (e.before.tasks p).sleepAvg < (e.after.tasks p).sleepAvg →
    e.op.woken = some p ∧ (e.before.tasks p).runList = none ∧
      ∃ t ∈ g p, (e.after.tasks p).sleepAvg ≤ (e.before.tasks p).sleepAvg + t

instance (g : SleepLog) (e : SleepEvent) (p : TaskId) : Decidable (g.EarnedBy e p) :=
  inferInstanceAs (Decidable (_ → _ → _ ∧ _ ∧ ∃ t ∈ g p, _))

def SleepLog.Earned (g : SleepLog) (e : SleepEvent) : Prop := ∀ p, g.EarnedBy e p

/-- Whoever an operation credits is asleep. -/
def CreditsSleepers (HZ : ℕ) (_ : SleepLog) (e : SleepEvent) : Prop :=
  ∀ p ∈ e.op.credited HZ e.before, e.before.Napping p

instance (HZ : ℕ) (g : SleepLog) (e : SleepEvent) : Decidable (CreditsSleepers HZ g e) :=
  inferInstanceAs (Decidable (∀ p ∈ _, _))

def sleepTrace (HZ : ℕ) (ops : List Op) : List SleepEvent :=
  (schedInit HZ).elim [] (trace (exec HZ) (fun op k k' => [⟨op, k, k'⟩]) ops)

/-- A task that is on no array afterwards has kept its state, and was on none before unless it
was linked. -/
def Core.StaysOff (c d : Core) : Prop :=
  d.array = none → d.state = c.state ∧ (c.runList = none → c.array = none)

/-- What an operation does to the place of `q`, and to that of the running task if another one
runs afterwards. -/
structure Turns (k k' : Kernel) (q : TaskId) : Prop where
  beside : q ≠ k.current → (k.core q).StaysOff (k'.core q)
  leaves : k'.current = k.current ∨ ∃ m, schedule m = some k' ∧ m.current = k.current ∧
    ((m.core k.current).runList = none ↔ (k.core k.current).runList = none)

/-- The log has the sleep time of every task that sleeps, and only of tasks that `schedule` took
off the runqueue. -/
structure SleepLog.Tracks (k : Kernel) (g : SleepLog) : Prop where
  sound : Sound k
  populated : Populated k
  napping : ∀ p, k.Napping p → ∃ t ∈ g p, sleepTime k (k.tasks p) ≤ t
  off : ∀ p, ∀ t ∈ g p, p ≠ k.current ∧ (k.tasks p).runList = none ∧
    ((k.tasks p).array = none → (k.tasks p).state ≠ .running)

section
variable {HZ : ℕ} {k k' m : Kernel} {op : Op} {p q : TaskId} {b c d : Core} {ps : Ptrs}
  {g : SleepLog}

theorem Core.StaysOff.refl (c : Core) : c.StaysOff c := fun ha => ⟨rfl, fun _ => ha⟩

theorem Core.StaysOff.of_array (h : d.array ≠ none) : c.StaysOff d := fun ha => absurd ha h

theorem schedule_rest (h : schedule k = some k') (hq : q ≠ k.current) :
    k'.core q = k.core q := by
  obtain ⟨m, hm, hsw, -⟩ := schedule_switch h
  obtain ⟨c, hc, -⟩ := schedulePrev_only hm
  rw [hsw.core, hc.rest hq]

theorem Only.turns (h : Only p c k k') (hc : p ≠ k.current → (k.core p).StaysOff c) (q : TaskId) :
    Turns k k' q where
  beside hq := by
    by_cases hp : q = p
    · rw [hp, h.self]
      exact hc (hp ▸ hq)
    · rw [h.rest hp]
      exact .refl _
  leaves := Or.inl h.curr

theorem Quiet.turns (h : Quiet k k') (q : TaskId) : Turns k k' q :=
  (h.only_self k.current).turns (fun hn => absurd rfl hn) q

theorem Turns.of_rest (hc : k'.rq.curr = k.rq.curr) (hr : q ≠ k.current → k'.core q = k.core q) :
    Turns k k' q where
  beside hq := by
    rw [hr hq]
    exact .refl _
  leaves := Or.inl hc

/-- An operation that ends in a call of `schedule`. -/
theorem Turns.of_schedule (h : schedule m = some k') (hc : m.current = k.current)
    (hl : (m.core k.current).runList = none ↔ (k.core k.current).runList = none)
    (hb : q ≠ k.current → (k.core q).StaysOff (m.core q)) : Turns k k' q where
  beside hq := by
    rw [schedule_rest h (hc ▸ hq)]
    exact hb hq
  leaves := Or.inr ⟨m, h, hc, hl⟩

theorem setUserNice_turns {nice : ℤ} (h : setUserNice p nice k = some k') (q : TaskId) :
    Turns k k' q := by
  obtain ⟨c, h1, -, hs, ha⟩ := setUserNice_only h
  exact h1.turns (fun _ hn => ⟨hs, fun _ => ha ▸ hn⟩) q

theorem Core.Requeued.off {queued : Bool} (h : c.Requeued ps queued d) (ha : d.array = none) :
    queued = false ∧ d = c := by
  unfold Core.Requeued at h
  split_ifs at h with hq
  · obtain ⟨-, i, -, rfl⟩ := h
    cases ha
  · exact ⟨Bool.eq_false_iff.mpr hq, h⟩

/-- A task that goes back to where it was is linked if it was. -/
theorem Core.Requeued.linked_iff (h : c.Requeued ps b.array.isSome d)
    (hb : b.array ≠ none → b.runList ≠ none) (hc : c.runList = b.left.runList) :
    d.runList = none ↔ b.runList = none := by
  unfold Core.Requeued at h
  split_ifs at h with hq
  · obtain ⟨-, i, -, rfl⟩ := h
    exact iff_of_false (Option.some_ne_none _) (hb (Option.isSome_iff_ne_none.mp hq))
  · rw [h, hc, Core.left, if_neg hq]

theorem Core.left_of_array (h : c.array.isSome = false) : c.left = c := by
  unfold Core.left
  rw [if_neg (by simp [h])]

theorem setscheduler_turns {pid policy i : ℤ} {param : Option UserParam}
    (h : setscheduler HZ pid policy param k = some (i, k')) (q : TaskId) : Turns k k' q := by
  obtain ⟨e, -, -, rfl⟩ | ⟨acc, hacc, -, h⟩ := setscheduler_cases h
  · exact (Quiet.refl k').turns q
  obtain ⟨m, hm, -⟩ := setschedulerApply_eq_some.mp h
  have hlinked := (leaveQueue_only hm).2
  obtain ⟨hstate, -⟩ := (k.core acc.target).left_same
  cases setschedulerApply_applied h (setschedulerCheck_ok hacc) with
  | becomes d n hp hsh hd hn hsch =>
    refine .of_schedule hsch hn.curr ?_ fun hq => ?_
    · by_cases ht : k.current = acc.target
      · rw [ht, hn.self]
        exact hd.linked_iff hlinked rfl
      · rw [hn.rest ht]
    · by_cases ht : q = acc.target
      · rw [ht, hn.self]
        apply Core.StaysOff.of_array
        intro ha
        obtain ⟨-, rfl⟩ := hd.off ha
        cases ha
      · rw [hn.rest ht]
        exact .refl _
  | stays hp hsh hn =>
    exact hn.turns (fun _ _ => ⟨hstate, fun hl => by_contra fun ha => hlinked ha hl⟩) q
  | changes d hsh hd hn =>
    refine hn.turns (fun _ ha => ?_) q
    obtain ⟨hq, rfl⟩ := hd.off ha
    rw [Core.left_of_array hq] at ha ⊢
    exact ⟨rfl, fun _ => ha⟩

theorem yield_turns (h : sysSchedYield k = some k') (q : TaskId) : Turns k k' q := by
  obtain ⟨m, hm, h⟩ := Option.bind_eq_some_iff.mp h
  obtain ⟨hl, a, i, -, -, -, -, ho⟩ := yieldMove_only hm
  refine .of_schedule h ho.curr ?_ fun hq => ?_
  · change (m.core k.current).runList = none ↔ _
    rw [ho.self]
    exact iff_of_false (Option.some_ne_none _) hl
  · change (k.core q).StaysOff (m.core q)
    rw [ho.rest hq]
    exact .refl _

theorem tryToWakeUp_turns (h : tryToWakeUp HZ p k = some k') (q : TaskId) : Turns k k' q := by
  rcases tryToWakeUp_only h with ⟨ha, h1⟩ | ⟨-, -, i, -, h1⟩
  · exact h1.turns (fun _ => .of_array ha) q
  · exact h1.turns (fun _ => .of_array (Option.some_ne_none _)) q

theorem wakeUpForkedProcess_turns (h : wakeUpForkedProcess HZ p k = some k') (q : TaskId) :
    Turns k k' q := by
  obtain ⟨l, m, n, i, h1, h2, -, h3, h4⟩ := wakeUpForkedProcess_only h
  obtain ⟨-, j, -, h5⟩ := activateTask_only h4
  have hm := (requeueParent_moves (π := Guard.free) h2).2
  constructor
  · intro hq
    by_cases hp : q = p
    · rw [hp, h5.self]
      exact .of_array (Option.some_ne_none _)
    · rw [h5.rest hp, h3.rest hp, hm.rest q (by rwa [show l.current = k.current from h1.curr]),
        h1.rest hp]
      exact .refl _
  · exact Or.inl (h5.curr.trans (h3.curr.trans (hm.curr.trans h1.curr)))

theorem exitNotify_turns (reaper childReaper : TaskId) (k : Kernel) (q : TaskId) :
    Turns k (exitNotify reaper childReaper k) q where
  beside hq := by
    have h1 : (exitNotify reaper childReaper k).core q =
        (forgetOriginalParent reaper childReaper k.current k).core q :=
      (mod_only rfl : Only k.current _ _ (exitNotify reaper childReaper k)).rest hq
    rw [h1]
    simp only [Kernel.core, forgetOriginalParent]
    split_ifs
    · exact fun ha => ⟨rfl, fun _ => ha⟩
    · exact fun ha => ⟨rfl, fun _ => ha⟩
    · exact .refl _
  leaves := Or.inl rfl

theorem exec_turns (h : exec HZ op k = some k') (hi : IdleOk k) (he : Enabled k op)
    (hq : op.child ≠ some q) : Turns k k' q := by
  cases op with
  | advance n =>
    cases h
    have hn : Quiet k { k with jiffies := u32 (k.jiffies + n) } := ⟨⟨rfl, rfl, rfl, rfl⟩, rfl⟩
    exact hn.turns q
  | setSigpending p b =>
    cases h
    exact (mod_quiet (f := fun t => { t with sigpending := b }) fun _ => rfl).turns q
  | setCredentials p uid euid capSysNice =>
    cases h
    exact (mod_quiet (f := fun t => { t with uid, euid, capSysNice }) fun _ => rfl).turns q
  | setCurrentState s =>
    cases h
    exact (mod_only (p := k.current) (f := fun t => { t with state := s }) rfl).turns
      (fun hn => absurd rfl hn) q
  | schedule reason =>
    rcases reason with _ | r
    · exact .of_schedule h rfl Iff.rfl fun _ => .refl _
    · exact .of_schedule h rfl Iff.rfl fun _ => .refl _
  | schedulerTick =>
    obtain ⟨c, -, ho⟩ := schedulerTick_step h fun hs => hi.not_short hs.1
    exact ho.turns (fun hn => absurd rfl hn) q
  | tryToWakeUp p => exact tryToWakeUp_turns h q
  | wakeUpForkedProcess p => exact wakeUpForkedProcess_turns h q
  | doFork child pid vfork cloneParent =>
    have hf := doFork_forked (π := Guard.free) h he.2.2.1.symm he.2.1.symm hi.not_short
      (fun _ => trivial) fun _ => trivial
    exact .of_rest hf.curr fun hn => hf.rest q hn fun hc => hq (congrArg some hc.symm)
  | setUserNice p nice => exact setUserNice_turns h q
  | sysNice increment =>
    obtain ⟨⟨r, m⟩, hm, rfl⟩ := Option.map_eq_some_iff.mp h
    obtain rfl | hn := sysNice_cases hm
    · exact (Quiet.refl m).turns q
    · exact setUserNice_turns hn q
  | sysSchedYield => exact yield_turns h q
  | sysSchedSetscheduler pid policy param =>
    obtain ⟨⟨r, m⟩, hm, rfl⟩ := Option.map_eq_some_iff.mp h
    exact setscheduler_turns (sysSchedSetscheduler_eq hm) q
  | sysSchedSetparam pid param =>
    obtain ⟨⟨r, m⟩, hm, rfl⟩ := Option.map_eq_some_iff.mp h
    exact setscheduler_turns hm q
  | exitNotify reaper childReaper =>
    cases h
    exact exitNotify_turns _ _ _ q
  | releaseTask p =>
    cases h
    obtain ⟨-, hc, -, -, hrest, -⟩ := releaseTask_core HZ Guard.free p k
    exact .of_rest hc (hrest q)
  | initIdle =>
    obtain ⟨-, hc, -, -, hrest, -⟩ := initIdle_core h
    exact .of_rest hc (hrest q)

/-- A new child is queued. -/
theorem doFork_queued {pid : ℤ} {vfork cloneParent : Bool}
    (h : doFork HZ p pid vfork cloneParent k = some k') :
    (k'.tasks p).array ≠ none ∧ (k'.tasks p).runList ≠ none := by
  obtain ⟨-, m, n, -, hn, rfl⟩ := doFork_eq_some.mp h
  obtain ⟨-, -, w, -, -, -, -, -, hact⟩ := wakeUpForkedProcess_only hn
  obtain ⟨-, i, -, ho⟩ := activateTask_only hact
  have hq : Quiet n (if vfork then n else
      reschedTask n.current (recordSwitch .taskCreated n)) := by
    split_ifs
    · exact Quiet.refl n
    · exact (recordSwitch_quiet _).trans (reschedTask_quiet _)
  have hc := congrFun hq.core p
  rw [ho.self] at hc
  constructor
  · rw [show (_ : TaskStruct).array = _ from congrArg Core.array hc]
    exact Option.some_ne_none _
  · rw [show (_ : TaskStruct).runList = _ from congrArg Core.runList hc]
    exact Option.some_ne_none _

/-- `schedule` stamps its caller, and takes it off the runqueue only if it is not runnable. -/
theorem schedule_leaves (h : schedule m = some k') :
    sleepTime k' (k'.tasks m.current) = 0 ∧
      ((k'.core m.current).state ≠ .running → (m.core m.current).runList ≠ none) ∧
      ((m.core m.current).runList ≠ none → (k'.core m.current).runList = none →
        (k'.core m.current).state ≠ .running) := by
  obtain ⟨-, hst⟩ := schedule_stamps h
  obtain ⟨n, hn, hsw, -⟩ := schedule_switch h
  obtain ⟨c, ho, hcase⟩ := schedulePrev_only hn
  have hself : k'.core m.current = c := by rw [hsw.core, ho.self]
  refine ⟨?_, ?_, ?_⟩
  · rw [hst.sleepTime, Kernel.mod_tasks_self]
    simp [sleepTime, stampSleep, Kernel.mod, u32]
  · rw [hself]
    rcases hcase with ⟨hr, rfl⟩ | ⟨-, rfl⟩ | ⟨-, hl, rfl⟩
    · exact fun hn => absurd hr hn
    · exact fun hn => absurd rfl hn
    · exact fun _ => hl
  · rw [hself]
    rcases hcase with ⟨-, rfl⟩ | ⟨-, rfl⟩ | ⟨hs, -, rfl⟩
    · exact fun hl hn => absurd hn hl
    · exact fun hl hn => absurd hn hl
    · exact fun _ _ => hs

theorem Populated.napping_free (h : Populated k) (hp : k.Napping p) : (k.tasks p).runList = none :=
  by_contra fun hl => hp.2.2 (h.running p hl hp.1)

/-! The log. -/

theorem SleepLog.next_eq_some {e : SleepEvent} {t : ℕ} : t ∈ g.next e p ↔
    e.after.current ≠ p ∧ (e.after.tasks p).runList = none ∧
      (e.before.current = p ∧ (e.before.tasks p).runList ≠ none ∧ t = 0 ∨
        ¬ (e.before.current = p ∧ (e.before.tasks p).runList ≠ none) ∧
          ∃ u ∈ g p, t = u + e.op.elapsed) := by
  unfold SleepLog.next
  split_ifs with h1 h2
  · simp only [Option.mem_def, reduceCtorEq, false_iff]
    rintro ⟨hc, hl, -⟩
    exact h1.elim hc fun hn => hn hl
  · obtain ⟨hc, hl⟩ := not_or.mp h1
    rw [and_iff_right hc, and_iff_right (not_not.mp hl)]
    simp [h2, eq_comm]
  · obtain ⟨hc, hl⟩ := not_or.mp h1
    rw [and_iff_right hc, and_iff_right (not_not.mp hl), or_iff_right fun hn => h2 ⟨hn.1, hn.2.1⟩,
      and_iff_right h2]
    simp [eq_comm]

theorem child_array (hs : exec HZ op k = some k') (hc : op.child = some p) :
    (k'.tasks p).array ≠ none ∧ (k'.tasks p).runList ≠ none := by
  cases op with
  | doFork child pid vfork cloneParent =>
    cases hc
    exact doFork_queued hs
  | _ => cases hc

/-- The log has the tasks that sleep after the step. -/
theorem SleepLog.Tracks.next_napping (h : g.Tracks k) (he : Enabled k op)
    (hs : exec HZ op k = some k') (hp : k'.Napping p) :
    ∃ t ∈ g.next ⟨op, k, k'⟩ p, sleepTime k' (k'.tasks p) ≤ t := by
  have hc : op.child ≠ some p := fun hc => (child_array hs hc).1 hp.2.1
  have ht := exec_turns hs h.sound.idle he hc
  have hfree := (h.populated.exec h.sound he hs).napping_free hp
  by_cases hcur : p = k.current
  · -- it went to sleep in this step
    subst hcur
    obtain hsame | ⟨m, hm, hmc, hl⟩ := ht.leaves
    · exact absurd hsame.symm hp.1
    · have hsl := schedule_leaves hm
      rw [hmc] at hsl
      refine ⟨0, SleepLog.next_eq_some.mpr ⟨hp.1.symm, hfree, Or.inl ⟨rfl, ?_, rfl⟩⟩, hsl.1.le⟩
      exact fun hn => hsl.2.1 hp.2.2 (hl.mpr hn)
  · obtain ⟨hstate, harray⟩ := ht.beside hcur hp.2.1
    have hrun : (k.core p).state ≠ .running := hstate ▸ hp.2.2
    have hl : (k.core p).runList = none :=
      by_contra fun hl => hrun (h.populated.running p hl hcur)
    obtain ⟨t, hgt, hle⟩ := h.napping p ⟨hcur, harray hl, hrun⟩
    refine ⟨t + op.elapsed, SleepLog.next_eq_some.mpr ⟨hp.1.symm, hfree,
      Or.inr ⟨fun hn => hcur hn.1.symm, t, hgt, rfl⟩⟩, ?_⟩
    exact ((exec_slept hs h.sound he hc).stamp hcur).trans (Nat.add_le_add_right hle _)

/-- What the log has after the step is off the runqueue. -/
theorem SleepLog.Tracks.next_off {t : ℕ} (h : g.Tracks k) (he : Enabled k op)
    (hs : exec HZ op k = some k') (ht : t ∈ g.next ⟨op, k, k'⟩ p) :
    p ≠ k'.current ∧ (k'.tasks p).runList = none ∧
      ((k'.tasks p).array = none → (k'.tasks p).state ≠ .running) := by
  obtain ⟨hcur, hfree, hcase⟩ := SleepLog.next_eq_some.mp ht
  have hc : op.child ≠ some p := fun hc => (child_array hs hc).2 hfree
  have htn := exec_turns hs h.sound.idle he hc
  refine ⟨hcur.symm, hfree, fun ha => ?_⟩
  rcases hcase with ⟨hp, hl, -⟩ | ⟨-, u, hu, -⟩
  · obtain hsame | ⟨m, hm, hmc, hlm⟩ := htn.leaves
    · exact absurd (hsame.trans hp) hcur
    · have hsl := schedule_leaves hm
      rw [hmc, hp] at hsl
      rw [hp] at hlm
      exact hsl.2.2 (fun hn => hl (hlm.mp hn)) hfree
  · obtain ⟨hpc, hpl, hpa⟩ := h.off p u hu
    obtain ⟨hstate, harray⟩ := htn.beside hpc ha
    change (k'.core p).state ≠ _
    rw [hstate]
    exact hpa (harray hpl)

theorem SleepLog.Tracks.next (h : g.Tracks k) (he : Enabled k op) (hs : exec HZ op k = some k') :
    (g.next ⟨op, k, k'⟩).Tracks k' where
  sound := h.sound.exec he hs
  populated := h.populated.exec h.sound he hs
  napping _ hp := h.next_napping he hs hp
  off _ _ ht := h.next_off he hs ht

/-- A task that is credited while it sleeps is being woken. -/
theorem Op.woken_of_napping (hp : p ∈ op.credited HZ k) (hn : k.Napping p) : op.woken = some p := by
  have hacc : ∀ acc : Accepted, p ∉ acc.credited HZ k := by
    intro acc hm
    unfold Accepted.credited at hm
    split_ifs at hm with hc
    · rw [List.mem_singleton] at hm
      exact hc.1 (hm ▸ hn.2.1)
    · cases hm
  have hcall : ∀ o : Option Accepted, p ∉ o.elim [] (Accepted.credited HZ k) := by
    rintro (_ | acc)
    · exact List.not_mem_nil
    · exact hacc acc
  cases op with
  | tryToWakeUp q =>
    simp only [Op.credited] at hp
    split_ifs at hp
    · exact congrArg some (List.mem_singleton.mp hp).symm
    · cases hp
  | wakeUpForkedProcess q =>
    rcases List.mem_append.mp hp with hp | hp
    · split_ifs at hp
      · exact absurd (List.mem_singleton.mp hp) hn.1
      · cases hp
    · split_ifs at hp
      · exact congrArg some (List.mem_singleton.mp hp).symm
      · cases hp
  | doFork child pid vfork cloneParent =>
    simp only [Op.credited] at hp
    split_ifs at hp
    · exact absurd (List.mem_singleton.mp hp) hn.1
    · cases hp
  | sysSchedSetscheduler pid policy param =>
    exact absurd hp (hcall (Op.accepted k (.sysSchedSetscheduler pid policy param)))
  | sysSchedSetparam pid param =>
    exact absurd hp (hcall (Op.accepted k (.sysSchedSetparam pid param)))
  | _ => cases hp

/-- A credit is not for a new child, and a task that is woken for it is on no array. -/
theorem Op.credited_old (hp : p ∈ op.credited HZ k) (he : Enabled k op) :
    op.child ≠ some p ∧ (op.woken = some p → (k.tasks p).array = none) := by
  cases op with
  | tryToWakeUp q =>
    refine ⟨fun hc => (by cases hc), fun hw => ?_⟩
    cases hw
    simp only [Op.credited] at hp
    split_ifs at hp with hc
    · exact hc.1
    · cases hp
  | wakeUpForkedProcess q =>
    refine ⟨fun hc => (by cases hc), fun hw => ?_⟩
    cases hw
    exact he.2.2.2
  | doFork child pid vfork cloneParent =>
    refine ⟨fun hc => ?_, fun hw => (by cases hw)⟩
    cases hc
    simp only [Op.credited] at hp
    split_ifs at hp
    · exact he.2.2.1 (List.mem_singleton.mp hp)
    · cases hp
  | _ => exact ⟨fun hc => (by cases hc), fun hw => (by cases hw)⟩

/-- In one step, all gains are earned exactly when all credits go to sleepers. -/
theorem SleepLog.Tracks.earned_iff (h : g.Tracks k) (he : Enabled k op)
    (hs : exec HZ op k = some k') :
    g.Earned ⟨op, k, k'⟩ ↔ CreditsSleepers HZ g ⟨op, k, k'⟩ := by
  constructor
  · intro hE p hp
    obtain ⟨hc, hoff⟩ := Op.credited_old hp he
    have hgain := (exec_slept hs h.sound he hc).gains.mpr hp
    obtain ⟨hw, -, t, ht, -⟩ := hE p hc hgain
    obtain ⟨hcur, -, hstate⟩ := h.off p t ht
    exact ⟨hcur, hoff hw, hstate (hoff hw)⟩
  · intro hC p hc hgain
    have hsl := exec_slept hs h.sound he hc
    have hp := hsl.gains.mp hgain
    have hn : k.Napping p := hC p hp
    obtain ⟨t, ht, hle⟩ := h.napping p hn
    exact ⟨Op.woken_of_napping hp hn, h.populated.napping_free hn, t, ht,
      hsl.bound.trans (Nat.add_le_add_left hle _)⟩

theorem schedInit_tracks (h : schedInit HZ = some k) : SleepLog.boot.Tracks k where
  sound := schedInit_sound h
  populated := schedInit_populated h
  napping p hp := by
    have hstate : (k.core p).state = .running := by
      rcases tryToWakeUp_only h with ⟨hn, -⟩ | ⟨-, -, i, -, h1⟩
      · exact absurd rfl hn
      · by_cases h0 : p = 0
        · rw [h0, h1.self]
          rfl
        · rw [h1.rest h0]
          rfl
    exact absurd hstate hp.2.2
  off p t ht := by cases ht

end

/-- In every run from boot: a sleep average rises only when its task is woken from being off the
runqueue, by at most the time since `schedule` took it off, if and only if every task that an
operation of the run credits is asleep. -/
theorem sleep_credit_iff (HZ : ℕ) (ops : List Op) (hE : AlongBoot HZ (fun _ _ => True) ops) :
    Accepts SleepLog.next SleepLog.Earned (sleepTrace HZ ops) SleepLog.boot ↔
      Accepts SleepLog.next (CreditsSleepers HZ) (sleepTrace HZ ops) SleepLog.boot := by
  cases h : schedInit HZ with
  | none => simp [sleepTrace, h, Accepts]
  | some k =>
    rw [sleepTrace, h]
    refine trace_accepts_iff (R := fun k g => SleepLog.Tracks k g) (fun s o t g hR hc ht => ?_)
      (schedInit_tracks h) (hE k h)
    refine ⟨hR.next hc.1 ht, ?_⟩
    simp only [Accepts, and_true]
    exact hR.earned_iff hc.1 ht

/-- Task 1 sleeps for seven jiffies. -/
def sevenJiffies : List Op :=
  startTask ++ [.setCurrentState .interruptible, .schedule none, .advance 7, .tryToWakeUp 1]

theorem sleep_credit_sevenJiffies :
    Accepts SleepLog.next SleepLog.Earned (sleepTrace 512 sevenJiffies) SleepLog.boot ∧
      ∃ k ∈ runFromBoot 512 sevenJiffies, (k.tasks 1).sleepAvg = 7 := by
  have hE : AlongBoot 512 (fun _ _ => True) sevenJiffies := by decide +kernel
  rw [sleep_credit_iff 512 sevenJiffies hE]
  decide +kernel

/-- Task 1 becomes SHORT and runs for two jiffies. -/
def twoJiffies : List Op :=
  startTask ++ [.sysSchedSetscheduler 0 4 (shortParam 100 5), .advance 1, .schedulerTick,
    .advance 1, .schedulerTick]

/-- A SHORT task that has not slept forks, and the time that it ran is credited to it. -/
theorem running_parent_gains_sleep :
    AlongBoot 512 (fun _ _ => True) (twoJiffies ++ [.doFork 2 2 false false]) ∧
      (∃ k ∈ runFromBoot 512 twoJiffies, ∃ k' ∈ doFork 512 2 2 false false k, k.current = 1 ∧
        (k.tasks 1).sleepAvg = 0 ∧ (k'.tasks 1).sleepAvg = 2) ∧
      ¬ Accepts SleepLog.next SleepLog.Earned
        (sleepTrace 512 (twoJiffies ++ [.doFork 2 2 false false])) SleepLog.boot := by
  refine ⟨by decide +kernel, by decide +kernel, fun h => ?_⟩
  have h1 := h.imp (Q := fun g e => g.EarnedBy e 1) fun g e he => he 1
  revert h1
  decide +kernel

end ShortSched
