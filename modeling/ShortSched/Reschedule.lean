import Mathlib.Data.Prod.Lex
import ShortSched.LockDiscipline
import ShortSched.PolicyLinks
import ShortSched.Preemption

/-! Changes of nice value and of policy: whether they make the running task give way when a
queued task comes before it in the order of `schedule`. -/
namespace ShortSched
open PartialRun

/-- Where a task stands in the order of `schedule`: real-time tasks, SHORT tasks, tasks of the
active and of the expired array, each by priority, and overdue tasks. -/
def Core.rank (ps : Ptrs) (c : Core) : ℕ ×ₗ ℤ :=
  if c.IsOverdue then toLex (4, 0)
  else if c.prio < 100 then toLex (0, c.prio)
  else if c.IsShort then toLex (1, c.prio)
  else if c.array = some ps.expired then toLex (3, c.prio)
  else toLex (2, c.prio)

/-- The rank of `p` if it were `c`; the idle task is last. -/
def Kernel.rankAs (k : Kernel) (p : TaskId) (c : Core) : ℕ ×ₗ ℤ :=
  if p = k.rq.idle then toLex (5, 0) else c.rank k.ptrs

def Kernel.rank (k : Kernel) (p : TaskId) : ℕ ×ₗ ℤ := k.rankAs p (k.core p)

/-- A queued task comes before the task that was running, and did not before. -/
def Kernel.NewlyOutranked (k k' : Kernel) : Prop :=
  ∃ q, k'.Linked q ∧ k'.rank q < k'.rank k.current ∧ ¬ k.rank q < k.rank k.current

/-- The lock operations and calls of `schedule` of a policy call. -/
def Op.locks (k : Kernel) : Op → List LockOp
  | .sysSchedSetscheduler pid policy param => setschedulerLocks k pid policy
      (if policy = 4 then param.map UserParam.clearPriority else param)
  | .sysSchedSetparam pid param => setschedulerLocks k pid (-1) param
  | _ => []

/-- When a queued task newly comes before the running one, the running one is asked to give
way, or `schedule` has been called. -/
def Reschedules (k k' : Kernel) (op : Op) : Prop :=
  k.NewlyOutranked k' → (k'.tasks k.current).needResched = true ∨ .schedule ∈ op.locks k

/-- An effective `set_user_nice`, or an accepted change of policy or parameters. -/
def Op.Reprioritises (k : Kernel) (p : TaskId) : Op → Prop
  | .setUserNice q nice => q = p ∧ taskNice (k.tasks p) ≠ nice ∧ -20 ≤ nice ∧ nice ≤ 19 ∧
      (k.tasks p).policy ≠ .short
  | op => ∃ acc ∈ op.accepted k, acc.target = p

/-- The task with the nice value of static priority `s`. -/
def Core.niced (s : ℤ) (c : Core) : Core :=
  { c with staticPrio := s, prio := if c.prio < 100 then c.prio else s }

/-- The target of a policy change when it is back on the active array. -/
def requeued (HZ : ℕ) (k : Kernel) (acc : Accepted) : Core :=
  { (credited HZ k (assignPolicy acc (k.tasks acc.target))).core with array := some k.rq.active }

/-- With `p` as `c`, the running task has a queued task before it that was not. -/
def Kernel.Reorders (k : Kernel) (p : TaskId) (c : Core) : Prop :=
  if p = k.current then
    ∃ q ≠ p, k.Linked q ∧ k.rank q < k.rankAs p c ∧ ¬ k.rank q < k.rank p
  else k.rankAs p c < k.rank k.current ∧ ¬ k.rank p < k.rank k.current

/-- The calls that never reschedule, where they change who comes first: `set_user_nice` of
another task, and changes to a policy other than SHORT. -/
def Op.Reorders (HZ : ℕ) (k : Kernel) : Op → Prop
  | .setUserNice p nice => p ≠ k.current ∧ k.Reorders p ((k.core p).niced (niceToPrio nice))
  | op => ∃ acc ∈ op.accepted k, acc.policy ≠ .short ∧
      k.Reorders acc.target (requeued HZ k acc)

/-- The ranks of the queued tasks, class by class. -/
inductive Ranks (k : Kernel) (q : TaskId) : ℕ ×ₗ ℤ → Prop
  | realTime (h : RealTime (k.tasks q)) (hs : ¬ Short (k.tasks q)) :
      Ranks k q (toLex (0, (k.tasks q).prio))
  | short (h : Short (k.tasks q)) (hr : ¬ RealTime (k.tasks q)) :
      Ranks k q (toLex (1, (k.tasks q).prio))
  | active (h : Other (k.tasks q)) (ha : ∃ i, q ∈ k.queue k.rq.active i) :
      Ranks k q (toLex (2, (k.tasks q).prio))
  | expired (h : Other (k.tasks q)) (ha : ∀ i, q ∉ k.queue k.rq.active i) :
      Ranks k q (toLex (3, (k.tasks q).prio))
  | overdue (h : Overdue (k.tasks q)) : Ranks k q (toLex (4, 0))

section
variable {HZ : ℕ} {k k' m : Kernel} {p q : TaskId} {a : ArrayIdx} {i s : ℤ} {c d : Core}
  {acc : Accepted} {op : Op}

/-! The order of `schedule`. -/

theorem Kernel.rank_ne_idle (hp : p ≠ k.rq.idle) : k.rank p = (k.core p).rank k.ptrs :=
  if_neg hp

theorem Core.rank_overdue {ps : Ptrs} (h : c.IsOverdue) : c.rank ps = toLex (4, 0) :=
  if_pos h

theorem Core.rank_realTime {ps : Ptrs} (h : ¬ c.IsOverdue) (hp : c.prio < 100) :
    c.rank ps = toLex (0, c.prio) := by
  rw [Core.rank, if_neg h, if_pos hp]

theorem Core.rank_short {ps : Ptrs} (h : c.IsShort) (hp : ¬ c.prio < 100) :
    c.rank ps = toLex (1, c.prio) := by
  have ho : ¬ c.IsOverdue := fun ho => by cases h.2.symm.trans ho.2
  rw [Core.rank, if_neg ho, if_neg hp, if_pos h]

theorem Core.rank_other {ps : Ptrs} (h : c.policy ≠ .short) (hp : ¬ c.prio < 100) :
    c.rank ps = toLex (if c.array = some ps.expired then 3 else 2, c.prio) := by
  rw [Core.rank, if_neg fun ho => h ho.1, if_neg hp, if_neg fun hs => h hs.1]
  split_ifs <;> rfl

/-- Only four fields matter. -/
theorem Core.rank_congr {ps : Ptrs} (hp : d.policy = c.policy) (ho : d.isOverdue = c.isOverdue)
    (hi : d.prio = c.prio) (ha : d.array = c.array) : d.rank ps = c.rank ps := by
  have hover : d.IsOverdue ↔ c.IsOverdue := by rw [Core.IsOverdue, Core.IsOverdue, hp, ho]
  have hshort : d.IsShort ↔ c.IsShort := by rw [Core.IsShort, Core.IsShort, hp, ho]
  simp only [Core.rank, hover, hshort, hi, ha]

theorem WellOrdered.ranks (h : WellOrdered k) (hq : k.Linked q) (hi : q ≠ k.rq.idle) :
    Ranks k q (k.rank q) := by
  obtain ⟨a, i, hq⟩ := hq
  obtain ⟨ha, hprio⟩ := h.shape.of_mem hq
  have ha' : (k.core q).array = some a := ha
  have hprio' : (k.core q).prio = i := hprio
  have hunique : ∀ b j, q ∈ k.queue b j → b = a := fun b j hj => by
    have hb := (h.shape.of_mem hj).1
    exact Option.some.inj (hb.symm.trans ha)
  obtain ⟨hae, has, -⟩ := h.distinct.ne
  rw [Kernel.rank_ne_idle hi]
  rcases h.cases hq with ⟨hact, hlt, hr⟩ | ⟨hact, hle, ho⟩ | ⟨-, hle, hs⟩ | ⟨-, ho⟩
  · rw [Core.rank_realTime (c := k.core q) hr.2 (by omega)]
    have hns : ¬ Short (k.tasks q) := fun hs =>
      has (hact.symm.trans ((h.short q a i hq).mpr hs))
    exact .realTime hr hns
  · rw [Core.rank_other (c := k.core q) ho.2 (by omega), ha']
    by_cases he : a = k.rq.expired
    · subst he
      rw [if_pos (show some k.rq.expired = some k.ptrs.expired from rfl)]
      exact .expired ho fun j hj => hae (hunique _ j hj)
    · rw [if_neg fun hc : some a = some k.ptrs.expired => he (Option.some.inj hc)]
      have hact' : a = k.rq.active := hact.resolve_right he
      exact .active ho ⟨i, hact' ▸ hq⟩
  · rw [Core.rank_short (c := k.core q) hs (by omega)]
    have hnr : ¬ rtTask (k.tasks q) := by
      rw [rtTask, hprio, maxRtPrio]
      exact not_lt.mpr hle
    exact .short hs fun hr => hnr hr.1
  · rw [Core.rank_overdue (c := k.core q) ho]
    exact .overdue ho

/-- No queued task comes before the one that is chosen. -/
theorem Choice.first (hc : Choice k p) (h : WellOrdered k) (hp : k.Linked p)
    (hi : ¬ k.Linked k.rq.idle) (hq : k.Linked q) : ¬ k.rank q < k.rank p := by
  have hqr := h.ranks hq fun he => hi (he ▸ hq)
  have hpr := h.ranks hp fun he => hi (he ▸ hp)
  intro hlt
  generalize k.rank q = r at hqr hlt
  generalize k.rank p = r' at hpr hlt
  cases hc with
  | realTime hc hmin =>
    cases hpr with
    | realTime =>
      cases hqr with
      | realTime hr =>
        have := hmin q hq hr
        simp [Prod.Lex.toLex_lt_toLex] at hlt
        omega
      | _ => simp [Prod.Lex.toLex_lt_toLex] at hlt
    | short _ hr => exact hr hc
    | active ho => exact ho.1 hc.1
    | expired ho => exact ho.1 hc.1
    | overdue ho => exact hc.2 ho
  | short hnr hc hmin =>
    cases hpr with
    | short =>
      cases hqr with
      | realTime hr => exact hnr q hq hr
      | short hs =>
        have := hmin q hq hs
        simp [Prod.Lex.toLex_lt_toLex] at hlt
        omega
      | _ => simp [Prod.Lex.toLex_lt_toLex] at hlt
    | realTime _ hs => exact hs hc
    | active ho => exact ho.2 hc.1
    | expired ho => exact ho.2 hc.1
    | overdue ho => cases hc.2.symm.trans ho.2
  | other hnr hns hc ha hmin =>
    cases hpr with
    | active =>
      cases hqr with
      | realTime hr => exact hnr q hq hr
      | short hs => exact hns q hq hs
      | active _ ha =>
        obtain ⟨i, hi⟩ := ha
        have := hmin q i hi
        simp [Prod.Lex.toLex_lt_toLex] at hlt
        omega
      | _ => simp [Prod.Lex.toLex_lt_toLex] at hlt
    | realTime hr => exact hc.1 hr.1
    | short hs => exact hc.2 hs.1
    | expired _ hn =>
      obtain ⟨i, hi⟩ := ha
      exact hn i hi
    | overdue ho => exact hc.2 ho.1
  | overdue hnr hns hno hc =>
    cases hqr with
    | realTime hr => exact hnr q hq hr
    | short hs => exact hns q hq hs
    | active ho => exact hno q hq ho
    | expired ho => exact hno q hq ho
    | overdue =>
      cases hpr with
      | realTime hr => exact hr.2 hc
      | short hs => cases hs.2.symm.trans hc.2
      | active ho => exact ho.2 hc.1
      | expired ho => exact ho.2 hc.1
      | overdue => exact lt_irrefl _ hlt

theorem schedulePrev_linked (h : WellOrdered k) (hm : schedulePrev p k = some m)
    (hq : m.Linked q) : k.Linked q := by
  obtain ⟨a, i, hq⟩ := hq
  obtain ⟨c, ho, hc⟩ := schedulePrev_only hm
  have hl : (m.core q).runList = some ⟨m.rq.cpu, a, i⟩ := (h.schedulePrev hm).shape.mem_iff.mp hq
  have hcpu : m.rq.cpu = k.rq.cpu := congrArg Ptrs.cpu ho.ptrs
  have hk : (k.core q).runList = some ⟨k.rq.cpu, a, i⟩ := by
    rw [← hcpu, ← hl]
    by_cases he : q = p
    · subst he
      rw [ho.self] at hl ⊢
      rcases hc with ⟨-, rfl⟩ | ⟨-, rfl⟩ | ⟨-, -, rfl⟩
      · rfl
      · rfl
      · cases hl
    · rw [ho.rest he]
  exact ⟨a, i, h.shape.mem_iff.mpr hk⟩

/-! What each of the calls does to the ranks. -/

theorem Kernel.rank_only_self (h : Only p d k k') : k'.rank p = k.rankAs p d := by
  rw [Kernel.rank, Kernel.rankAs, Kernel.rankAs, h.self, h.idle, h.ptrs]

theorem Kernel.rank_only_rest (h : Only p d k k') (hq : q ≠ p) : k'.rank q = k.rank q := by
  rw [Kernel.rank, Kernel.rank, Kernel.rankAs, Kernel.rankAs, h.rest hq, h.idle, h.ptrs]

theorem Kernel.rankAs_congr (h : d.rank k.ptrs = c.rank k.ptrs) :
    k.rankAs p d = k.rankAs p c := by
  rw [Kernel.rankAs, Kernel.rankAs, h]

/-- When one queued task changes and stays queued, the order changes as its rank says. -/
theorem newlyOutranked_iff (h : Only p d k k') (hrank : d.rank k.ptrs = c.rank k.ptrs)
    (hl : ∀ q, k'.Linked q ↔ k.Linked q) (hp : k.Linked p) :
    k.NewlyOutranked k' ↔ k.Reorders p c := by
  have hself : k'.rank p = k.rankAs p c :=
    (Kernel.rank_only_self h).trans (Kernel.rankAs_congr hrank)
  have hrest : ∀ q ≠ p, k'.rank q = k.rank q := fun q hq => Kernel.rank_only_rest h hq
  unfold Kernel.NewlyOutranked Kernel.Reorders
  split_ifs with hc
  · rw [← hc]
    constructor
    · rintro ⟨q, hq, hlt, hn⟩
      have hne : q ≠ p := fun he => lt_irrefl _ (he ▸ hlt)
      rw [hself, hrest q hne] at hlt
      exact ⟨q, hne, (hl q).mp hq, hlt, hn⟩
    · rintro ⟨q, hne, hq, hlt, hn⟩
      rw [← hself, ← hrest q hne] at hlt
      exact ⟨q, (hl q).mpr hq, hlt, hn⟩
  · rw [hrest _ (Ne.symm hc)]
    constructor
    · rintro ⟨q, hq, hlt, hn⟩
      by_cases he : q = p
      · rw [he, hself] at hlt
        exact ⟨hlt, he ▸ hn⟩
      · rw [hrest q he] at hlt
        exact absurd hlt hn
    · rintro ⟨hlt, hn⟩
      exact ⟨p, (hl p).mpr hp, hself ▸ hlt, hn⟩

theorem needResched_offQueue : OffQueue TaskStruct.needResched :=
  ⟨fun _ _ => rfl, fun _ _ => rfl, fun _ _ _ _ => rfl, fun _ _ _ => rfl⟩

theorem enqueueTask_linked (h : enqueueTask p a k = some k') (q : TaskId) :
    k'.Linked q ↔ k.Linked q ∨ q = p := by
  obtain ⟨-, rfl⟩ := enqueueTask_eq_some.mp h
  exact link_linked q

/-- What `set_user_nice` does to the queues: the task goes to the queue of its new priority. -/
theorem renice_requeue {f : TaskStruct → TaskStruct} {g : Core → Core}
    (hk : WellOrdered k) (hp : k.Linked p) (hf : ∀ t, (f t).core = g t.core)
    (hneed : ∀ t, (f t).needResched = t.needResched) (hdown : dequeueTask p a k = some m)
    (hup : enqueueTask p a (m.mod p f) = some n) :
    Only p ((g (k.core p).free).on k.ptrs a (g (k.core p).free).prio) k n ∧
      (∀ q, n.Linked q ↔ k.Linked q) ∧ Same TaskStruct.needResched k n := by
  obtain ⟨-, ho⟩ := dequeueTask_only hdown
  refine ⟨((ho.mod hf).enqueue hup).2, fun q => ?_, ?_⟩
  · rw [enqueueTask_linked hup, Kernel.linked_congr Kernel.mod_queue,
      (dequeueTask_linked hk.shape.located hdown).2.1]
    by_cases hq : q = p
    · simp [hq, hp]
    · simp [hq]
  · have hsame := (Same.refl TaskStruct.needResched k).dequeue needResched_offQueue.lists hdown
    exact (hsame.mod hneed).enqueue needResched_offQueue.lists hup

/-- An effective `set_user_nice` of a queued task: its rank follows the new value, and only its
own running makes it ask for a reschedule. -/
theorem setUserNice_queued {nice : ℤ} (hk : WellOrdered k) (hp : k.Linked p)
    (he : taskNice (k.tasks p) ≠ nice ∧ -20 ≤ nice ∧ nice ≤ 19 ∧ (k.tasks p).policy ≠ .short)
    (h : setUserNice p nice k = some k') : ∃ d, Only p d k k' ∧
      d.rank k.ptrs = ((k.core p).niced (niceToPrio nice)).rank k.ptrs ∧
      (∀ q, k'.Linked q ↔ k.Linked q) ∧ (k'.tasks k.current).needResched =
        if p = k.current ∧ ¬ rtTask (k.tasks p) then true
        else (k.tasks k.current).needResched := by
  obtain ⟨hne, hlo, hhi, hpol⟩ := he
  have hno : ¬ (taskNice (k.tasks p) = nice ∨ nice < -20 ∨ nice > 19 ∨
      (k.tasks p).policy = .short) := by
    rintro (h | h | h | h)
    · exact hne h
    · omega
    · omega
    · exact hpol h
  cases setUserNice_cases h with
  | ignored hn => exact absurd hn hno
  | realTime _ hrt =>
    have hlt : (k.core p).prio < 100 := hrt
    refine ⟨{ k.core p with staticPrio := niceToPrio nice }, mod_only rfl, ?_, fun q => ?_, ?_⟩
    · exact Core.rank_congr rfl rfl (if_pos hlt).symm rfl
    · exact Kernel.linked_congr Kernel.mod_queue
    · rw [if_neg fun hc : p = k.current ∧ ¬ rtTask (k.tasks p) => hc.2 hrt]
      exact ((Same.refl TaskStruct.needResched k).mod fun _ => by rfl).field _
  | unqueued _ _ ha =>
    obtain ⟨a, i, hmem⟩ := hp
    cases ha.symm.trans (hk.shape.of_mem hmem).1
  | requeued a m n _ hrt ha hdown hup =>
    have hge : ¬ (k.core p).prio < 100 := hrt
    obtain ⟨ho, hl, hresched⟩ := renice_requeue
      (f := fun t => { t with staticPrio := niceToPrio nice, prio := niceToPrio nice })
      (g := fun c => { c with staticPrio := niceToPrio nice, prio := niceToPrio nice })
      hk hp (fun _ => rfl) (fun _ => rfl) hdown hup
    have hrank : (({ (k.core p).free with
          staticPrio := niceToPrio nice, prio := niceToPrio nice } : Core).on k.ptrs a
        (niceToPrio nice)).rank k.ptrs = ((k.core p).niced (niceToPrio nice)).rank k.ptrs :=
      Core.rank_congr rfl rfl (if_neg hge).symm ha.symm
    have hcur : n.rq.curr = k.current := ho.curr
    by_cases hc : p = k.current
    · rw [if_pos (hc.trans hcur.symm)]
      refine ⟨_, (ho.quiet (recordSwitch_quiet _)).quiet (reschedTask_quiet _), hrank, hl, ?_⟩
      rw [if_pos ⟨hc, hrt⟩, hcur, reschedTask, Kernel.mod_tasks_self]
    · rw [if_neg fun he => hc (he.trans hcur)]
      refine ⟨_, ho, hrank, hl, ?_⟩
      rw [if_neg fun he => hc he.1]
      exact hresched.field _

/-- The sleep credit does not depend on where the task hangs. -/
theorem credited_prio_congr {t u : TaskStruct} (hj : m.jiffies = k.jiffies)
    (hu : ∃ l a, u = { t with runList := l, array := a }) :
    (credited HZ m u).prio = (credited HZ k t).prio := by
  obtain ⟨l, a, rfl⟩ := hu
  have hs : sleepTime m { t with runList := l, array := a } = sleepTime k t := by
    rw [sleepTime, sleepTime, hj]
  unfold credited
  rw [hs]
  by_cases h : ¬ rtTask t ∧ sleepTime k t ≠ 0
  · rw [if_pos h, if_pos (show ¬ rtTask { t with runList := l, array := a } ∧ _ from h)]
    rfl
  · rw [if_neg h, if_neg (show ¬ (¬ rtTask { t with runList := l, array := a } ∧ _) from h)]

theorem assignPolicy_congr {t u : TaskStruct} (hu : ∃ l a, u = { t with runList := l, array := a }) :
    ∃ l a, assignPolicy acc u = { assignPolicy acc t with runList := l, array := a } := by
  obtain ⟨l, a, rfl⟩ := hu
  exact ⟨l, a, rfl⟩

theorem deactivateTask_tasks (hk : WellOrdered k) (h : deactivateTask p k = some m) :
    m.tasks p = { k.tasks p with runList := none, array := none } := by
  obtain ⟨a, -, rfl⟩ := hk.shape.of_deactivateTask h
  simp [Kernel.deactivated, Kernel.unlink, Kernel.uncounted]

/-- A queued task that gets a policy other than SHORT is back on the active array, and nothing
asks for a reschedule. -/
theorem setschedulerApply_requeued (hk : WellOrdered k) (hp : k.Linked acc.target)
    (hs : acc.policy ≠ .short) (h : setschedulerApply HZ acc k = some k') :
    ∃ d, Only acc.target d k k' ∧ d.rank k.ptrs = (requeued HZ k acc).rank k.ptrs ∧
      (∀ q, k'.Linked q ↔ k.Linked q) ∧
        (k'.tasks k.current).needResched = (k.tasks k.current).needResched := by
  have hlinked := hp
  obtain ⟨a, i, hmem⟩ := hp
  have ha : (k.tasks acc.target).array = some a := (hk.shape.of_mem hmem).1
  obtain ⟨m, hm, h⟩ := setschedulerApply_eq_some.mp h
  rw [if_neg fun hc => hs hc.2, if_neg fun hc => hs hc.2] at h
  rw [ha, Option.isSome_some, if_pos rfl] at hm
  rw [ha, Option.isSome_some] at h
  obtain ⟨n, hn, h⟩ := installPolicy_eq_some.mp h
  rw [if_pos rfl] at hn
  rw [if_neg hs] at h
  cases h
  obtain ⟨-, hdown⟩ := deactivateTask_only hm
  have hassign := hdown.mod (f := assignPolicy acc) (g := Core.assigned acc) fun t => by
    rfl
  obtain ⟨-, i, -, ho⟩ := hassign.activate hn
  have hprio : i = (requeued HZ k acc).prio := by
    have hi : (k'.tasks acc.target).prio = i := congrArg Core.prio ho.self
    obtain ⟨-, rfl⟩ := activateTask_eq_some.mp hn
    rw [activated_tasks_self] at hi
    rw [← hi]
    have htask : ∃ l a, (m.mod acc.target (assignPolicy acc)).tasks acc.target =
        { assignPolicy acc (k.tasks acc.target) with runList := l, array := a } := by
      rw [Kernel.mod_tasks_self, deactivateTask_tasks hk hm]
      exact assignPolicy_congr ⟨_, _, rfl⟩
    have hj : m.jiffies = k.jiffies :=
      ((Same.refl TaskStruct.needResched k).deactivate needResched_offQueue.lists hm).jiffies
    exact credited_prio_congr (m := m.mod acc.target (assignPolicy acc)) hj htask
  obtain ⟨hpol, hov⟩ := credited_class HZ k (assignPolicy acc (k.tasks acc.target))
  refine ⟨_, ho, Core.rank_congr ?_ ?_ hprio ?_, fun q => ?_, ?_⟩
  · exact hpol.symm
  · exact hov.symm
  · exact congrArg some (if_neg hs)
  · rw [(activateTask_linked hn).1, Kernel.linked_congr Kernel.mod_queue,
      (deactivateTask_linked hk.shape.located hm).2.1]
    by_cases hq : q = acc.target
    · simp [hq, hlinked]
    · simp [hq]
  · have h1 := (Same.refl TaskStruct.needResched k).deactivate needResched_offQueue.lists hm
    have h2 := (h1.mod (p := acc.target) (f := assignPolicy acc) fun _ => by rfl).activate
      needResched_offQueue hn
    exact h2.field _

/-- The rank of a SHORT task does not depend on its array. -/
theorem Core.rank_short_congr {ps : Ptrs} (hs : c.IsShort) (hp : d.policy = c.policy)
    (ho : d.isOverdue = c.isOverdue) (hi : d.prio = c.prio) : d.rank ps = c.rank ps := by
  have hds : d.IsShort := by rwa [Core.IsShort, hp, ho]
  have hno : ∀ {c : Core}, c.IsShort → ¬ c.IsOverdue := fun hs ho => by
    cases hs.2.symm.trans ho.2
  by_cases hlt : c.prio < 100
  · rw [Core.rank_realTime (hno hs) hlt, Core.rank_realTime (hno hds) (hi ▸ hlt), hi]
  · rw [Core.rank_short hs hlt, Core.rank_short hds (hi ▸ hlt), hi]

theorem Core.left_prio (c : Core) : c.left.prio = c.prio := by
  unfold Core.left
  split_ifs <;> rfl

/-- A SHORT task that stays SHORT keeps its rank. -/
theorem setschedulerApply_stays {pid policy : ℤ} {param : Option UserParam}
    (hpass : Passed k pid policy param acc) (h : setschedulerApply HZ acc k = some k')
    (hp : (k.tasks acc.target).policy = .short) (hs : acc.policy = .short) :
    ¬ k.NewlyOutranked k' := by
  have hns : (k.core acc.target).IsShort :=
    ⟨hp, Bool.eq_false_iff.mpr fun ho => hpass.notOverdue ⟨hp, ho⟩⟩
  cases setschedulerApply_applied h hpass with
  | becomes d m hother => cases hother.symm.trans hp
  | changes d hn => exact absurd hs hn
  | stays _ _ ho =>
    have hrank : ∀ q, k'.rank q = k.rank q := by
      intro q
      by_cases hq : q = acc.target
      · subst hq
        rw [Kernel.rank_only_self ho]
        exact Kernel.rankAs_congr
          (Core.rank_short_congr hns (Core.left_policy _) (Core.left_isOverdue _) (Core.left_prio _))
      · exact Kernel.rank_only_rest ho hq
    rintro ⟨q, -, hlt, hn⟩
    rw [hrank, hrank] at hlt
    exact hn hlt

/-- Of the accepted calls those that make a task of `SCHED_OTHER` SHORT call `schedule`. -/
theorem schedule_mem_locks (hacc : op.accepted k = some acc) : .schedule ∈ op.locks k ↔
    (k.tasks acc.target).policy = .other ∧ acc.policy = .short := by
  have hcall : ∀ {pid policy : ℤ} {param : Option UserParam},
      (setschedulerCheck k pid policy param).toOption = some acc →
        (.schedule ∈ setschedulerLocks k pid policy param ↔
          (k.tasks acc.target).policy = .other ∧ acc.policy = .short) := by
    intro pid policy param h
    have hok := toOption_eq_some.mp h
    rcases setschedulerLocks_cases k pid policy param with ⟨r, hr, -⟩ | ⟨acc', hok', -, hl⟩
    · cases hok.symm.trans hr
    · cases hok.symm.trans hok'
      rw [hl]
      split_ifs with hs
      · simp [hs]
      · simp [hs, ExitLabel.path]
  cases op with
  | sysSchedSetscheduler pid policy param => exact hcall hacc
  | sysSchedSetparam pid param => exact hcall hacc
  | _ => cases hacc

theorem reschedules_policy (hk : WellOrdered k) (hp : k.Linked acc.target)
    (hacc : op.accepted k = some acc) (h : exec HZ op k = some k') :
    Reschedules k k' op ↔ (k.tasks k.current).needResched = true ∨
      ¬ (acc.policy ≠ .short ∧ k.Reorders acc.target (requeued HZ k acc)) := by
  obtain ⟨happly, pid, policy, param, hpass⟩ := exec_accepted h hacc
  unfold Reschedules
  rw [schedule_mem_locks hacc]
  by_cases hs : acc.policy = .short
  · apply iff_of_true _ (Or.inr fun hn => hn.1 hs)
    intro hnew
    cases hpol : (k.tasks acc.target).policy with
    | other => exact Or.inr ⟨rfl, hs⟩
    | short => exact absurd hnew (setschedulerApply_stays hpass happly hpol hs)
    | fifo => exact absurd hs (hpass.realTime (Or.inl hpol))
    | rr => exact absurd hs (hpass.realTime (Or.inr hpol))
  · obtain ⟨d, ho, hrank, hl, hres⟩ := setschedulerApply_requeued hk hp hs happly
    rw [newlyOutranked_iff ho hrank hl hp, hres]
    tauto

theorem reschedules_nice {nice : ℤ} (hk : WellOrdered k) (hp : k.Linked p)
    (he : taskNice (k.tasks p) ≠ nice ∧ -20 ≤ nice ∧ nice ≤ 19 ∧ (k.tasks p).policy ≠ .short)
    (h : setUserNice p nice k = some k') : Reschedules k k' (.setUserNice p nice) ↔
      (k.tasks k.current).needResched = true ∨
        ¬ (p ≠ k.current ∧ k.Reorders p ((k.core p).niced (niceToPrio nice))) := by
  obtain ⟨d, ho, hrank, hl, hres⟩ := setUserNice_queued hk hp he h
  have hlocks : .schedule ∉ (Op.setUserNice p nice).locks k := List.not_mem_nil
  unfold Reschedules
  rw [newlyOutranked_iff ho hrank hl hp, hres]
  by_cases hc : p = k.current
  · apply iff_of_true _ (Or.inr fun hn => hn.1 hc)
    intro hnew
    by_cases hrt : rtTask (k.tasks p)
    · -- the priority of a real-time task does not follow its nice value
      have hsame : k.rankAs p ((k.core p).niced (niceToPrio nice)) = k.rank p :=
        Kernel.rankAs_congr (Core.rank_congr rfl rfl (if_pos hrt) rfl)
      rw [Kernel.Reorders, if_pos hc, hsame] at hnew
      obtain ⟨q, -, -, hlt, hn⟩ := hnew
      exact absurd hlt hn
    · exact Or.inl (if_pos ⟨hc, hrt⟩)
  · rw [if_neg fun hn => hc hn.1]
    tauto

end

/-- The ranks are the order of `schedule`: of the tasks that stay queued, none comes before the
one that it picks, once it has switched the arrays. -/
theorem schedule_picks_first (k k' : Kernel) (h : WellOrdered k) (hi : ¬ k.Linked k.rq.idle)
    (hs : schedule k = some k') : ∃ m, schedulePrev k.current k = some m ∧ ∀ q, m.Linked q →
      ¬ (swapArrays m).rank q < (swapArrays m).rank k'.current := by
  obtain ⟨m, hm, -⟩ := Option.bind_eq_some_iff.mp hs
  obtain ⟨m', n, hm', hn, hcase⟩ := h.schedule fun hd => h.deactivated_linked hm hd
  cases hm.symm.trans hm'
  cases hs.symm.trans hn
  refine ⟨m, hm, fun q hq => ?_⟩
  have hsw := swapArrays_switch m
  have hmoves : Moves 0 Guard.free k.current k m := schedulePrev_moves hm
  have hidle : (swapArrays m).rq.idle = k.rq.idle := hsw.idle.trans hmoves.idle
  rcases hcase with ⟨hnone, -⟩ | ⟨⟨a, i, -, hhead⟩, hc⟩
  · exact absurd hq (hnone q)
  · apply hc.first ((h.schedulePrev hm).switch hsw) ⟨a, i, List.mem_of_mem_head? hhead⟩
    · rw [hidle]
      intro hl
      exact hi (schedulePrev_linked h hm (hsw.linked.mp hl))
    · exact hsw.linked.mpr hq

/-- Task 1 runs, and its child waits with the same priority. -/
def waitingChild : List Op := startTask ++ [.doFork 2 2 false false, .schedule none]

/-- Task 1 has made itself nicer than its child, and `schedule` passes the processor on. -/
theorem schedule_picks_first_waitingChild :
    ∃ k ∈ runFromBoot 512 (waitingChild ++ [.setUserNice 1 10]), ∃ k' ∈ schedule k,
      k'.current = 2 ∧ ∃ m, schedulePrev k.current k = some m ∧ m.Linked 1 ∧
        ¬ (swapArrays m).rank 1 < (swapArrays m).rank 2 := by
  obtain ⟨k, hk, hi, k', hk', hc, m, hm, i, hl⟩ :
      ∃ k ∈ runFromBoot 512 (waitingChild ++ [.setUserNice 1 10]),
        (k.tasks k.rq.idle).runList = none ∧ ∃ k' ∈ schedule k, k'.current = 2 ∧
          ∃ m ∈ schedulePrev k.current k, ∃ i ∈ [(k.tasks 1).prio], 1 ∈ m.queue m.rq.active i := by
    decide +kernel
  have hw : WellOrdered k :=
    (runFromBoot_sound (C := fun _ _ => True) (by decide +kernel) hk).wellOrdered
  have hidle : ¬ k.Linked k.rq.idle := by
    rintro ⟨a, j, hj⟩
    cases hi.symm.trans (hw.shape.mem_iff.mp hj)
  obtain ⟨m', hm', hfirst⟩ := schedule_picks_first k k' hw hidle hk'
  cases hm.symm.trans hm'
  have hlinked : m.Linked 1 := ⟨_, i, hl.2⟩
  have h12 := hfirst 1 hlinked
  rw [hc] at h12
  exact ⟨k, hk, k', hk', hc, m, hm, hlinked, h12⟩

/-- In every consistent state, an effective `set_user_nice` or an accepted policy change of a
queued task reschedules when it must, exactly when the running task was already asked to give
way, or the call is one of those that always reschedule, or the order does not change. -/
theorem reschedules_iff (HZ : ℕ) (k k' : Kernel) (op : Op) (p : TaskId) (hk : WellOrdered k)
    (hp : k.Linked p) (hop : op.Reprioritises k p) (h : exec HZ op k = some k') :
    Reschedules k k' op ↔ (k.tasks k.current).needResched = true ∨ ¬ op.Reorders HZ k := by
  have hpolicy : ∀ {acc : Accepted}, op.accepted k = some acc → acc.target = p →
      (Reschedules k k' op ↔ (k.tasks k.current).needResched = true ∨
        ¬ ∃ acc ∈ op.accepted k, acc.policy ≠ .short ∧
          k.Reorders acc.target (requeued HZ k acc)) := by
    rintro acc hacc rfl
    rw [reschedules_policy hk hp hacc h, hacc]
    simp
  cases op with
  | setUserNice q nice =>
    obtain ⟨rfl, he⟩ := hop
    exact reschedules_nice hk hp he h
  | sysSchedSetscheduler pid policy param =>
    obtain ⟨acc, hacc, ht⟩ := hop
    exact hpolicy hacc ht
  | sysSchedSetparam pid param =>
    obtain ⟨acc, hacc, ht⟩ := hop
    exact hpolicy hacc ht
  | _ =>
    obtain ⟨acc, hacc, -⟩ := hop
    cases hacc

/-- User memory with the priority of a real-time task. -/
def rtParam (priority : ℤ) : Option UserParam := some (UserParam.unchanged ⟨priority, 0, 0, 0⟩)

/-- Task 1 makes itself nicer than its child. -/
theorem reschedules_iff_waitingChild : ∃ k ∈ runFromBoot 512 waitingChild,
    ∃ k' ∈ exec 512 (.setUserNice 1 10) k, k.NewlyOutranked k' ∧
      (k'.tasks k.current).needResched = true := by
  obtain ⟨k, hk, hc, ⟨i, hi⟩, hn, k', hk', ⟨j, hj⟩, hlt, hnlt⟩ :
      ∃ k ∈ runFromBoot 512 waitingChild, 1 = k.current ∧ (∃ i ∈ [(k.tasks 1).prio],
        1 ∈ k.queue k.rq.active i) ∧ (taskNice (k.tasks 1) ≠ 10 ∧ (-20 : ℤ) ≤ 10 ∧ (10 : ℤ) ≤ 19 ∧
          (k.tasks 1).policy ≠ .short) ∧ ∃ k' ∈ exec 512 (.setUserNice 1 10) k,
        (∃ j ∈ [(k'.tasks 2).prio], 2 ∈ k'.queue k'.rq.active j) ∧
          k'.rank 2 < k'.rank k.current ∧ ¬ k.rank 2 < k.rank k.current := by
    decide +kernel
  have hw : WellOrdered k :=
    (runFromBoot_sound (C := fun _ _ => True) (by decide +kernel) hk).wellOrdered
  have hnew : k.NewlyOutranked k' := ⟨2, ⟨_, j, hj.2⟩, hlt, hnlt⟩
  have hres := (reschedules_iff 512 k k' (.setUserNice 1 10) 1 hw ⟨_, i, hi.2⟩ ⟨rfl, hn⟩ hk').mpr
    (Or.inr fun h => h.1 hc)
  refine ⟨k, hk, k', hk', hnew, (hres hnew).resolve_right ?_⟩
  exact List.not_mem_nil

/-- Neither raising the child by its nice value nor making it real-time asks task 1 to give
way. -/
theorem raised_child_waits : ∃ k ∈ runFromBoot 512 waitingChild, WellOrdered k ∧
    ∀ op ∈ [Op.setUserNice 2 (-5), .sysSchedSetscheduler 2 1 (rtParam 1)],
      k.Linked 2 ∧ op.Reprioritises k 2 ∧ ∃ k' ∈ exec 512 op k, ¬ Reschedules k k' op := by
  obtain ⟨k, hk, ⟨i, hi⟩, hop, hraise⟩ : ∃ k ∈ runFromBoot 512 waitingChild,
      (∃ i ∈ [(k.tasks 2).prio], 2 ∈ k.queue k.rq.active i) ∧
      ((taskNice (k.tasks 2) ≠ -5 ∧ (-20 : ℤ) ≤ -5 ∧ (-5 : ℤ) ≤ 19 ∧
          (k.tasks 2).policy ≠ .short) ∧
        ∃ acc ∈ (Op.sysSchedSetscheduler 2 1 (rtParam 1)).accepted k, acc.target = 2) ∧
      ∀ op ∈ [Op.setUserNice 2 (-5), .sysSchedSetscheduler 2 1 (rtParam 1)],
        ∃ k' ∈ exec 512 op k, (∃ j ∈ [(k'.tasks 2).prio], 2 ∈ k'.queue k'.rq.active j) ∧
          k'.rank 2 < k'.rank k.current ∧ ¬ k.rank 2 < k.rank k.current ∧
            (k'.tasks k.current).needResched = false ∧ .schedule ∉ op.locks k := by
    decide +kernel
  have hw : WellOrdered k :=
    (runFromBoot_sound (C := fun _ _ => True) (by decide +kernel) hk).wellOrdered
  refine ⟨k, hk, hw, fun op hmem => ⟨⟨_, i, hi.2⟩, ?_, ?_⟩⟩
  · simp only [List.mem_cons, List.not_mem_nil, or_false] at hmem
    rcases hmem with rfl | rfl
    · exact ⟨rfl, hop.1⟩
    · exact hop.2
  · obtain ⟨k', hk', ⟨j, hj⟩, hlt, hnlt, hres, hlocks⟩ := hraise op hmem
    refine ⟨k', hk', fun h => ?_⟩
    rcases h ⟨2, ⟨_, j, hj.2⟩, hlt, hnlt⟩ with hr | hr
    · cases hres.symm.trans hr
    · exact hlocks hr

end ShortSched
