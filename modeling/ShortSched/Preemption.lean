import ShortSched.ClassOrder

/-! Preemption by a wake-up: `try_to_wake_up` compares two priorities where `schedule` goes
by class first. -/
namespace ShortSched
open Relation PartialRun

/-- The classes, in the order in which `schedule` serves them. -/
inductive SchedClass where
  | realTime | short | other | overdue | idle
  deriving DecidableEq, Repr

def SchedClass.rank : SchedClass → ℕ
  | .realTime => 0
  | .short => 1
  | .other => 2
  | .overdue => 3
  | .idle => 4

/-- The priorities of a class. -/
def SchedClass.Covers (i : ℤ) : SchedClass → Prop
  | .realTime => 0 ≤ i ∧ i < 100
  | .short | .other => 100 ≤ i ∧ i < 140
  | .overdue => i = 0
  | .idle => i = 140

def Kernel.schedClass (k : Kernel) (p : TaskId) : SchedClass :=
  if p = k.rq.idle then .idle
  else match (k.tasks p).policy with
    | .fifo | .rr => .realTime
    | .other => .other
    | .short => if (k.tasks p).isOverdue then .overdue else .short

/-- `schedule` prefers `p` to `q`: by class, and within the first three classes by priority. -/
def Kernel.Outranks (k : Kernel) (p q : TaskId) : Prop :=
  (k.schedClass p).rank < (k.schedClass q).rank ∨
    k.schedClass p = k.schedClass q ∧ (k.schedClass p).rank < 3 ∧
      (k.tasks p).prio < (k.tasks q).prio

/-- The priority of `p` when it has been woken. -/
def wokenPrio (HZ : ℕ) (k : Kernel) (p : TaskId) : ℤ := (credited HZ k (k.tasks p)).prio

/-- When comparing the priorities `i` of the woken and `j` of the running task, of classes
`c` and `d`, gives their order in `schedule`. -/
def SchedClass.Agree (i j : ℤ) : SchedClass → SchedClass → Prop
  | .realTime, .overdue | .short, .overdue | .other, .overdue => False
  | .overdue, .short | .overdue, .other => False
  | .overdue, .realTime => j = 0
  | .short, .other => i < j
  | .other, .short => j ≤ i
  | _, _ => True

/-- Consistent queues, and every task with the priorities of its class. -/
structure Ranked (k : Kernel) : Prop where
  shape : Shape k 0
  prio : ∀ q ≠ k.rq.idle, (k.core q).PrioOk
  idle : k.current = k.rq.idle → (k.tasks k.current).prio = maxPrio

section
variable {HZ : ℕ} {k k' m : Kernel} {p q : TaskId}

theorem activated_tasks_self (HZ : ℕ) (k : Kernel) (p : TaskId) : (k.activated HZ p).tasks p =
    { credited HZ k (k.tasks p) with
      runList := some ⟨k.rq.cpu, activationArray k.rq (k.tasks p), wokenPrio HZ k p⟩
      array := some (activationArray k.rq (k.tasks p)) } := by
  simp [Kernel.activated, Kernel.link, wokenPrio]

theorem activated_tasks_ne (HZ : ℕ) (k : Kernel) (h : q ≠ p) :
    (k.activated HZ p).tasks q = k.tasks q := by
  simp only [Kernel.activated, Kernel.modRq_tasks, Kernel.link]
  rw [place_tasks_ne h, Kernel.mod_tasks_ne h]

theorem credited_class (HZ : ℕ) (k : Kernel) (t : TaskStruct) : (credited HZ k t).policy = t.policy ∧
    (credited HZ k t).isOverdue = t.isOverdue := by
  unfold credited
  split_ifs <;> exact ⟨rfl, rfl⟩

/-- A wake-up requests a reschedule when the woken task has the lower priority value. -/
theorem tryToWakeUp_preempts (HZ : ℕ) (ha : (k.tasks p).array = none)
    (hl : (k.tasks p).runList = none)
    (hp : p ≠ k.rq.curr) :
    ∃ k', tryToWakeUp HZ p k = some k' ∧ k'.rq.curr = k.rq.curr ∧ k'.rq.idle = k.rq.idle ∧
      (k'.tasks p).policy = (k.tasks p).policy ∧ (k'.tasks p).isOverdue = (k.tasks p).isOverdue ∧
      (k'.tasks p).prio = wokenPrio HZ k p ∧
      k'.tasks k.rq.curr = { k.tasks k.rq.curr with
        needResched := if wokenPrio HZ k p < (k.tasks k.rq.curr).prio then true
          else (k.tasks k.rq.curr).needResched } := by
  obtain ⟨k1, hk1, hj, ht, hc, hi⟩ : ∃ k1, (if (k.tasks p).state = .uninterruptible then
      k.modRq fun rq => { rq with nrUninterruptible := rq.nrUninterruptible - 1 } else k) = k1 ∧
        k1.jiffies = k.jiffies ∧ k1.tasks = k.tasks ∧ k1.rq.curr = k.rq.curr ∧
          k1.rq.idle = k.rq.idle := by
    refine ⟨_, rfl, ?_⟩
    split_ifs <;> exact ⟨rfl, rfl, rfl, rfl⟩
  have hw : wokenPrio HZ k1 p = wokenPrio HZ k p := by
    rw [wokenPrio, wokenPrio, credited, credited, sleepTime, sleepTime, hj, ht]
  have hact : activateTask HZ p k1 = some (k1.activated HZ p) :=
    activateTask_eq_some.mpr ⟨by rw [ht]; exact hl, rfl⟩
  have hself := activated_tasks_self HZ k1 p
  have hne := activated_tasks_ne HZ k1 hp.symm
  have hcur : (k1.activated HZ p).rq.curr = k.rq.curr := hc
  have hidle : (k1.activated HZ p).rq.idle = k.rq.idle := hi
  obtain ⟨hpol, hov⟩ := credited_class HZ k1 (k1.tasks p)
  have hprio : ((k1.activated HZ p).tasks p).prio = wokenPrio HZ k p := by
    rw [hself]
    exact hw
  simp only [tryToWakeUp, if_pos ha, wakeQueue, hk1, hact, Option.bind_eq_bind, Option.bind_some,
    Option.pure_def, hprio, hcur, hne, ht]
  generalize k1.activated HZ p = n at hself hne hcur hidle hprio ⊢
  rw [ht] at hself hne hpol hov
  have hrec : (recordSwitch .highierTaskActive n).tasks = n.tasks := rfl
  by_cases hlt : wokenPrio HZ k p < (k.tasks k.rq.curr).prio
  · simp only [if_pos hlt, Option.map_some]
    refine ⟨_, rfl, hcur, hidle, ?_⟩
    simp only [reschedTask, Kernel.mod_tasks_self, Kernel.mod_tasks_ne hp,
      Kernel.mod_tasks_ne hp.symm, hrec, hne]
    exact ⟨hself ▸ hpol, hself ▸ hov, hself ▸ hprio, trivial⟩
  · simp only [if_neg hlt, Option.map_some]
    refine ⟨_, rfl, hcur, hidle, ?_⟩
    simp only [Kernel.mod_tasks_self, Kernel.mod_tasks_ne hp.symm, hne]
    exact ⟨hself ▸ hpol, hself ▸ hov, hself ▸ hprio, trivial⟩

theorem Ranked.covers (h : Ranked k) (hq : q = k.rq.idle → q = k.current) :
    (k.schedClass q).Covers (k.tasks q).prio := by
  unfold Kernel.schedClass
  by_cases hi : q = k.rq.idle
  · rw [if_pos hi]
    have hc := hq hi
    subst hc
    exact h.idle hi
  · have hp : (k.core q).PrioOk := h.prio q hi
    rw [if_neg hi]
    cases hpol : (k.tasks q).policy with
    | other => exact hp.other hpol
    | fifo => exact hp.realTime (Or.inl hpol)
    | rr => exact hp.realTime (Or.inr hpol)
    | short =>
      cases ho : (k.tasks q).isOverdue with
      | true => exact hp.overdue ⟨hpol, ho⟩
      | false => exact hp.short ⟨hpol, ho⟩

/-- Waking a task up leaves its priority among those of its class. -/
theorem SchedClass.Covers.woken {c : SchedClass} (h : c.Covers (k.tasks p).prio)
    (hc : c ≠ .idle) : c.Covers (wokenPrio HZ k p) := by
  have hw : wokenPrio HZ k p = (k.tasks p).prio ∨ 100 ≤ (k.tasks p).prio ∧
      100 ≤ wokenPrio HZ k p ∧ wokenPrio HZ k p < 140 := credited_prio HZ k (k.tasks p)
  cases c <;> simp only [SchedClass.Covers] at h ⊢
  case idle => exact absurd rfl hc
  all_goals omega

theorem Kernel.schedClass_ne_idle (hp : p ≠ k.rq.idle) : k.schedClass p ≠ .idle := by
  unfold Kernel.schedClass
  rw [if_neg hp]
  split
  · decide
  · decide
  · decide
  · split_ifs <;> decide

theorem Kernel.schedClass_congr (hi : k'.rq.idle = k.rq.idle)
    (hp : (k'.tasks q).policy = (k.tasks q).policy)
    (ho : (k'.tasks q).isOverdue = (k.tasks q).isOverdue) : k'.schedClass q = k.schedClass q := by
  unfold Kernel.schedClass
  rw [hi, hp, ho]

/-- The comparison of two priorities against the order of `schedule`, class by class. -/
theorem SchedClass.agree_iff {c d : SchedClass} {i j : ℤ} (hc : c.Covers i) (hd : d.Covers j)
    (hne : c ≠ .idle) :
    ((i < j) ↔ c.rank < d.rank ∨ c = d ∧ c.rank < 3 ∧ i < j) ↔ SchedClass.Agree i j c d := by
  cases c <;> cases d <;>
    simp [SchedClass.Covers, SchedClass.rank, SchedClass.Agree] at hc hd hne ⊢
  all_goals omega

theorem Sound.ranked (h : Sound k)
    (hidle : k.current = k.rq.idle → (k.tasks k.current).prio = maxPrio) : Ranked k :=
  ⟨h.shape, fun q hq => (h.arranged.tasks q hq).prio, hidle⟩

end

/-- In every consistent state a wake-up goes through, and it requests a reschedule exactly
when the woken task outranks the running one, if and only if the two priorities are in the
order of the classes. -/
theorem wakeUp_preempts_iff (HZ : ℕ) (k : Kernel) (p : TaskId) (hk : Ranked k)
    (ha : (k.tasks p).array = none) (hi : p ≠ k.rq.idle) (hp : p ≠ k.current)
    (hres : (k.tasks k.current).needResched = false) :
    ∃ k', tryToWakeUp HZ p k = some k' ∧
      (((k'.tasks k.current).needResched = true ↔ k'.Outranks p k.current) ↔
        SchedClass.Agree (wokenPrio HZ k p) (k.tasks k.current).prio (k.schedClass p)
          (k.schedClass k.current)) := by
  obtain ⟨k', hk', -, hidle, hpol, hov, hprio, hcur⟩ := tryToWakeUp_preempts HZ ha
    (hk.shape.free_of_array_none ha) hp
  change k'.tasks k.current = { k.tasks k.current with
    needResched := if wokenPrio HZ k p < (k.tasks k.current).prio then true
      else (k.tasks k.current).needResched } at hcur
  have hreq : (k'.tasks k.current).needResched = true ↔
      wokenPrio HZ k p < (k.tasks k.current).prio := by
    rw [hcur, hres]
    simp
  have hclass := Kernel.schedClass_congr hidle hpol hov
  have hclass' : k'.schedClass k.current = k.schedClass k.current :=
    Kernel.schedClass_congr hidle (by rw [hcur]) (by rw [hcur])
  have hprio' : (k'.tasks k.current).prio = (k.tasks k.current).prio := by rw [hcur]
  refine ⟨k', hk', ?_⟩
  rw [hreq, Kernel.Outranks, hclass, hclass', hprio, hprio']
  exact SchedClass.agree_iff ((hk.covers fun h => absurd h hi).woken
    (Kernel.schedClass_ne_idle hi)) (hk.covers fun _ => rfl) (Kernel.schedClass_ne_idle hi)

instance (k : Kernel) (p q : TaskId) : Decidable (k.Outranks p q) := by
  unfold Kernel.Outranks
  infer_instance

/-- Task 1 sleeps until it is woken while the idle task runs. -/
def sleeper : List Op := startTask ++ [.setCurrentState .interruptible, .schedule none]

theorem wakeUp_preempts_iff_sleeper : ∃ k ∈ runFromBoot 512 sleeper,
    ∃ k' ∈ tryToWakeUp 512 1 k,
      ((k'.tasks k.current).needResched = true ↔ k'.Outranks 1 k.current) := by
  obtain ⟨k, hk, ha, hi, hc, hr, hp, hcl⟩ : ∃ k ∈ runFromBoot 512 sleeper,
      (k.tasks 1).array = none ∧ 1 ≠ k.rq.idle ∧ 1 ≠ k.current ∧
        (k.tasks k.current).needResched = false ∧ (k.tasks k.current).prio = maxPrio ∧
          k.schedClass 1 = .other ∧ k.schedClass k.current = .idle := by
    decide +kernel
  have hsound := runFromBoot_sound (C := fun _ _ => True) (by decide +kernel) hk
  obtain ⟨k', hk', h⟩ :=
    wakeUp_preempts_iff 512 k 1 (hsound.ranked fun _ => hp) ha hi hc hr
  refine ⟨k, hk, k', hk', h.mpr ?_⟩
  rw [hcl.1, hcl.2]
  trivial

/-- Task 1 runs overdue while task 2 of `SCHED_OTHER` sleeps. -/
def overdueRuns : List Op := startTask ++ [.doFork 2 2 false false,
  .setCurrentState .interruptible, .schedule none, .tryToWakeUp 1,
  .setCurrentState .interruptible, .schedule none,
  .sysSchedSetscheduler 0 4 (shortParam 2 1), .schedulerTick, .schedule none]

/-- A woken task of `SCHED_OTHER` does not preempt a running overdue task. -/
theorem overdue_not_preempted : ∃ k ∈ runFromBoot 512 overdueRuns, Ranked k ∧
    (k.tasks 2).array = none ∧ 2 ≠ k.rq.idle ∧ 2 ≠ k.current ∧
      (k.tasks k.current).needResched = false ∧ Overdue (k.tasks k.current) ∧
        ∃ k' ∈ tryToWakeUp 512 2 k, k'.Outranks 2 k.current ∧
          (k'.tasks k.current).needResched = false := by
  obtain ⟨k, hk, hi, h⟩ : ∃ k ∈ runFromBoot 512 overdueRuns, k.current ≠ k.rq.idle ∧
      (k.tasks 2).array = none ∧ 2 ≠ k.rq.idle ∧ 2 ≠ k.current ∧
        (k.tasks k.current).needResched = false ∧ Overdue (k.tasks k.current) ∧
          ∃ k' ∈ tryToWakeUp 512 2 k, k'.Outranks 2 k.current ∧
            (k'.tasks k.current).needResched = false := by
    decide +kernel
  have hsound := runFromBoot_sound (C := fun _ _ => True) (by decide +kernel) hk
  exact ⟨k, hk, hsound.ranked fun he => absurd he hi, h⟩

end ShortSched
