import ShortSched.Progress

/-! The class order of `schedule`: real-time tasks by priority, then SHORT tasks, then tasks
of `SCHED_OTHER`, then overdue tasks, then the idle task. -/
namespace ShortSched
open Relation PartialRun

/-- A task that `schedule` treats as real-time. -/
def RealTime (t : TaskStruct) : Prop := rtTask t ∧ ¬ Overdue t

/-- A task of `SCHED_OTHER` with one of the priorities of its class. -/
def Other (t : TaskStruct) : Prop := ¬ rtTask t ∧ t.policy ≠ .short

instance (t : TaskStruct) : Decidable (RealTime t) := by unfold RealTime; infer_instance
instance (t : TaskStruct) : Decidable (Other t) := by unfold Other; infer_instance

/-- Consistent queues with every class on its own arrays. -/
structure WellOrdered (k : Kernel) : Prop where
  distinct : k.ptrs.Distinct
  shape : Shape k 0
  realTime : ∀ p a i, p ∈ k.queue a i → i < 100 → a ≠ k.rq.overdue → a = k.rq.active
  short : ∀ p a i, p ∈ k.queue a i → (a = k.rq.shortQ ↔ Short (k.tasks p))
  overdue : ∀ p a i, p ∈ k.queue a i → (a = k.rq.overdue ↔ Overdue (k.tasks p))
  zero : ∀ p i, p ∈ k.queue k.rq.overdue i → i = 0

/-- A previous task that `schedule` takes off its runqueue. -/
def Deactivated (t : TaskStruct) : Prop :=
  t.state ≠ .running ∧ ¬ (t.state = .interruptible ∧ t.sigpending = true)

instance (t : TaskStruct) : Decidable (Deactivated t) := by unfold Deactivated; infer_instance

/-- The task that comes first in the class order. -/
inductive Choice (k : Kernel) (p : TaskId) : Prop
  | realTime (hp : RealTime (k.tasks p))
      (hmin : ∀ q, k.Linked q → RealTime (k.tasks q) → (k.tasks p).prio ≤ (k.tasks q).prio)
  | short (hr : ∀ q, k.Linked q → ¬ RealTime (k.tasks q)) (hp : Short (k.tasks p))
      (hmin : ∀ q, k.Linked q → Short (k.tasks q) → (k.tasks p).prio ≤ (k.tasks q).prio)
  | other (hr : ∀ q, k.Linked q → ¬ RealTime (k.tasks q))
      (hs : ∀ q, k.Linked q → ¬ Short (k.tasks q))
      (hp : Other (k.tasks p)) (ha : ∃ i, p ∈ k.queue k.rq.active i)
      (hmin : ∀ q i, q ∈ k.queue k.rq.active i → (k.tasks p).prio ≤ (k.tasks q).prio)
  | overdue (hr : ∀ q, k.Linked q → ¬ RealTime (k.tasks q))
      (hs : ∀ q, k.Linked q → ¬ Short (k.tasks q))
      (ho : ∀ q, k.Linked q → ¬ Other (k.tasks q)) (hp : Overdue (k.tasks p))
      (hfirst : (k.queue k.rq.overdue 0).head? = some p)

/-- `schedule` goes through: to the idle task when nothing stays linked, and else to the head
of an occupied queue, which comes first in the class order. Until `init_idle` parks it, the
idle task is one of the linked tasks. -/
def PicksInOrder (k : Kernel) : Prop :=
  ∃ m k', schedulePrev k.current k = some m ∧ schedule k = some k' ∧
    ((∀ p, ¬ m.Linked p) → k'.rq.curr = k.rq.idle) ∧
    ((∃ p, m.Linked p) → Choice (swapArrays m) k'.rq.curr ∧
      ∃ a i, pickQueue (swapArrays m) = some (a, i) ∧
        ((swapArrays m).queue a i).head? = some k'.rq.curr) ∧
    (¬ m.Linked k.rq.idle → (k'.rq.curr = k.rq.idle ↔ ∀ p, ¬ m.Linked p))

section
variable {HZ : ℕ} {k k' m : Kernel} {p q : TaskId} {a b : ArrayIdx} {i j d : ℤ}

/-- An index is the least occupied queue, or negative when the array is empty. -/
theorem arrayIdx_spec {r : PrioArray} (h : ArrayOk r) :
    (0 ≤ arrayIdx r ∧ r.queue (arrayIdx r) ≠ [] ∧ ∀ p i, p ∈ r.queue i → arrayIdx r ≤ i) ∨
      arrayIdx r < 0 ∧ ∀ p i, p ∉ r.queue i := by
  unfold arrayIdx
  by_cases hn : r.nrActive > 0
  · rw [if_pos hn]
    obtain ⟨h0, -, h2⟩ := h.first_occupied hn
    exact Or.inl ⟨h0, h2, fun p i hp => h.first_le hp⟩
  · rw [if_neg hn]
    exact Or.inr ⟨by decide, fun p i hp => hn (h.nrActive_pos_iff.mpr ⟨p, i, hp⟩)⟩

/-- Where a queued task hangs and which class it has. -/
theorem WellOrdered.cases (h : WellOrdered k) (hp : p ∈ k.queue a i) :
    a = k.rq.active ∧ i < 100 ∧ RealTime (k.tasks p) ∨
    (a = k.rq.active ∨ a = k.rq.expired) ∧ 100 ≤ i ∧ Other (k.tasks p) ∨
    a = k.rq.shortQ ∧ 100 ≤ i ∧ Short (k.tasks p) ∨
    a = k.rq.overdue ∧ Overdue (k.tasks p) := by
  have hi := (h.shape.of_mem hp).2
  obtain ⟨h0, h1, h2, h3, h4, h5⟩ := h.distinct.ne
  have hs := h.short p a i hp
  have ho := h.overdue p a i hp
  have hr := h.realTime p a i hp
  have hrt : rtTask (k.tasks p) ↔ i < 100 := by rw [← hi]; rfl
  have hplain : a ≠ k.rq.shortQ → a ≠ k.rq.overdue → (k.tasks p).policy ≠ .short := by
    intro hns hno hpol
    cases hov : (k.tasks p).isOverdue with
    | true => exact hno (ho.mpr ⟨hpol, hov⟩)
    | false => exact hns (hs.mpr ⟨hpol, hov⟩)
  rcases h.distinct.cases a with rfl | rfl | rfl | rfl
  · have hpol := hplain h1 h2
    by_cases hlt : i < 100
    · exact Or.inl ⟨rfl, hlt, hrt.mpr hlt, fun hov => hpol hov.1⟩
    · exact Or.inr (Or.inl ⟨Or.inl rfl, not_lt.mp hlt, fun hc => hlt (hrt.mp hc), hpol⟩)
  · have hpol := hplain h3 h4
    have hlt : ¬ i < 100 := fun hc => h0 (hr hc h4).symm
    exact Or.inr (Or.inl ⟨Or.inr rfl, not_lt.mp hlt, fun hc => hlt (hrt.mp hc), hpol⟩)
  · have hlt : ¬ i < 100 := fun hc => h1 (hr hc h5).symm
    exact Or.inr (Or.inr (Or.inl ⟨rfl, not_lt.mp hlt, hs.mp rfl⟩))
  · exact Or.inr (Or.inr (Or.inr ⟨rfl, ho.mp rfl⟩))

/-- The active array has no SHORT tasks. -/
theorem WellOrdered.active_class (h : WellOrdered k) (hp : p ∈ k.queue k.rq.active i) :
    i < 100 ∧ RealTime (k.tasks p) ∨ 100 ≤ i ∧ Other (k.tasks p) := by
  obtain ⟨-, h1, h2, -⟩ := h.distinct.ne
  rcases h.cases hp with ⟨-, hi, hc⟩ | ⟨-, hi, hc⟩ | ⟨ha, -⟩ | ⟨ha, -⟩
  · exact Or.inl ⟨hi, hc⟩
  · exact Or.inr ⟨hi, hc⟩
  · exact absurd ha h1
  · exact absurd ha h2

/-- The order survives when every task stays on its array, and outside the real-time range. -/
theorem WellOrdered.of_mem (h : WellOrdered k) (hs : Shape m 0) (hptr : m.ptrs = k.ptrs)
    (hsub : ∀ q b j, q ∈ m.queue b j → ∃ i, q ∈ k.queue b i ∧ (i < 100 ∨ j < 100 → j = i))
    (hclass : ∀ q, (m.core q).policy = (k.core q).policy ∧
      (m.core q).isOverdue = (k.core q).isOverdue) : WellOrdered m := by
  have hactive : m.rq.active = k.rq.active := congrArg Ptrs.active hptr
  have hshort : m.rq.shortQ = k.rq.shortQ := congrArg Ptrs.shortQ hptr
  have hover : m.rq.overdue = k.rq.overdue := congrArg Ptrs.overdue hptr
  refine ⟨by rw [hptr]; exact h.distinct, hs, fun q b j hq => ?_, fun q b j hq => ?_,
    fun q b j hq => ?_, fun q j hq => ?_⟩
  · obtain ⟨i, hi, he⟩ := hsub q b j hq
    rw [hover, hactive]
    intro hj
    exact h.realTime q b i hi (he (Or.inr hj) ▸ hj)
  · obtain ⟨i, hi, -⟩ := hsub q b j hq
    rw [hshort, h.short q b i hi]
    change (k.core q).IsShort ↔ (m.core q).IsShort
    rw [Core.IsShort, Core.IsShort, (hclass q).1, (hclass q).2]
  · obtain ⟨i, hi, -⟩ := hsub q b j hq
    rw [hover, h.overdue q b i hi]
    change (k.core q).IsOverdue ↔ (m.core q).IsOverdue
    rw [Core.IsOverdue, Core.IsOverdue, (hclass q).1, (hclass q).2]
  · rw [hover] at hq
    obtain ⟨i, hi, he⟩ := hsub q _ j hq
    have h0 := h.zero q i hi
    exact (he (Or.inl (by omega))).trans h0

/-- The order survives when tasks leave. -/
theorem WellOrdered.of_core (h : WellOrdered k) (hs : Shape m 0) (hptr : m.ptrs = k.ptrs)
    (hlist : ∀ q, (m.core q).runList = (k.core q).runList ∨ (m.core q).runList = none)
    (hclass : ∀ q, (m.core q).policy = (k.core q).policy ∧
      (m.core q).isOverdue = (k.core q).isOverdue) : WellOrdered m := by
  have hcpu : m.rq.cpu = k.rq.cpu := congrArg Ptrs.cpu hptr
  apply h.of_mem hs hptr _ hclass
  intro q b j hq
  have hm : (m.core q).runList = some ⟨m.rq.cpu, b, j⟩ := hs.mem_iff.mp hq
  rcases hlist q with hl | hl
  · refine ⟨j, h.shape.mem_iff.mpr ?_, fun _ => rfl⟩
    rw [← hcpu, ← hm]
    exact hl.symm
  · exact absurd (hl.symm.trans hm) (by simp)

theorem Switch.queue (h : Switch k k') : k'.queue = k.queue := by
  unfold Kernel.queue
  rw [h.arrays]

theorem Switch.linked (h : Switch k k') : k'.Linked p ↔ k.Linked p := by
  unfold Kernel.Linked
  rw [h.queue]

theorem ArrayOk.not_mem_of_zero {r : PrioArray} (h : ArrayOk r) (h0 : r.nrActive = 0) :
    p ∉ r.queue i := by
  intro hp
  have := h.nrActive_pos_iff.mpr ⟨p, i, hp⟩
  omega

/-- The order survives a context switch. -/
theorem WellOrdered.switch (h : WellOrdered k) (hs : Switch k k') : WellOrdered k' where
  distinct := by
    rcases hs.ptrs with hr | ⟨-, hr⟩
    · rw [hr]
      exact h.distinct
    · rw [hr]
      exact (List.Perm.swap _ _ _).nodup_iff.mp h.distinct
  shape := h.shape.switch hs
  realTime q b j hq hj := by
    rw [hs.queue] at hq
    rw [hs.overdue]
    intro hb
    have ha := h.realTime q b j hq hj hb
    rcases hs.roles with ⟨hr, -⟩ | ⟨h0, -⟩
    · rw [hr]
      exact ha
    · exact absurd (ha ▸ hq) ((h.shape.arrays _).not_mem_of_zero h0)
  short q b j hq := by
    rw [hs.queue] at hq
    rw [hs.shortQ, h.short q b j hq]
    change (k.core q).IsShort ↔ (k'.core q).IsShort
    rw [hs.core]
  overdue q b j hq := by
    rw [hs.queue] at hq
    rw [hs.overdue, h.overdue q b j hq]
    change (k.core q).IsOverdue ↔ (k'.core q).IsOverdue
    rw [hs.core]
  zero q j hq := by
    rw [hs.queue, hs.overdue] at hq
    exact h.zero q j hq

/-- After the swap an empty active array means that the expired one is empty too. -/
theorem swapArrays_expired (h : ∀ a, ArrayOk (k.rq.arrays a))
    (h0 : ∀ p i, p ∉ (swapArrays k).queue (swapArrays k).rq.active i) :
    p ∉ (swapArrays k).queue (swapArrays k).rq.expired i := by
  unfold swapArrays at h0 ⊢
  by_cases hn : (k.rq.arrays k.rq.active).nrActive = 0
  · rw [if_pos hn]
    exact (h _).not_mem_of_zero hn
  · rw [if_neg hn] at h0
    have hpos : 0 < (k.rq.arrays k.rq.active).nrActive := by
      have := (h k.rq.active).nrActive_nonneg
      omega
    obtain ⟨q, j, hq⟩ := (h _).nrActive_pos_iff.mp hpos
    exact absurd hq (h0 q j)

/-- The first task of an occupied queue. -/
theorem exists_head (h : k.queue a i ≠ []) :
    ∃ p, (k.queue a i).head? = some p ∧ p ∈ k.queue a i := by
  obtain ⟨p, hp⟩ := Option.ne_none_iff_exists'.mp (mt List.head?_eq_none_iff.mp h)
  exact ⟨p, hp, List.mem_of_head? hp⟩

/-- A real-time task is found in the active array. -/
theorem WellOrdered.realTime_idx (h : WellOrdered k) (hl : k.Linked q)
    (hr : RealTime (k.tasks q)) : 0 ≤ arrayIdx (k.rq.arrays k.rq.active) ∧
      arrayIdx (k.rq.arrays k.rq.active) ≤ (k.tasks q).prio ∧ (k.tasks q).prio < 100 := by
  obtain ⟨a, i, hq⟩ := hl
  have hlt : (k.tasks q).prio < 100 := hr.1
  have hi := (h.shape.of_mem hq).2
  have ha : a = k.rq.active :=
    h.realTime q a i hq (hi ▸ hlt) fun ho => hr.2 ((h.overdue q a i hq).mp ho)
  subst ha
  rcases arrayIdx_spec (h.shape.arrays k.rq.active) with ⟨h0, -, hle⟩ | ⟨-, hn⟩
  · exact ⟨h0, hi ▸ hle q i hq, hlt⟩
  · exact absurd hq (hn q i)

/-- A SHORT task is found in the SHORT array. -/
theorem WellOrdered.short_idx (h : WellOrdered k) (hl : k.Linked q) (hs : Short (k.tasks q)) :
    0 ≤ arrayIdx (k.rq.arrays k.rq.shortQ) ∧
      arrayIdx (k.rq.arrays k.rq.shortQ) ≤ (k.tasks q).prio := by
  obtain ⟨a, i, hq⟩ := hl
  have hi := (h.shape.of_mem hq).2
  obtain rfl := (h.short q a i hq).mpr hs
  rcases arrayIdx_spec (h.shape.arrays k.rq.shortQ) with ⟨h0, -, hle⟩ | ⟨-, hn⟩
  · exact ⟨h0, hi ▸ hle q i hq⟩
  · exact absurd hq (hn q i)

/-- As long as a task of `SCHED_OTHER` is queued the active array is not empty. -/
theorem WellOrdered.other_idx (h : WellOrdered k) (hl : k.Linked q) (ho : Other (k.tasks q))
    (hswap : (∀ p i, p ∉ k.queue k.rq.active i) → ∀ p i, p ∉ k.queue k.rq.expired i) :
    0 ≤ arrayIdx (k.rq.arrays k.rq.active) := by
  obtain ⟨a, i, hq⟩ := hl
  rcases arrayIdx_spec (h.shape.arrays k.rq.active) with ⟨h0, -, -⟩ | ⟨-, hn⟩
  · exact h0
  · rcases h.cases hq with ⟨rfl, -, -⟩ | ⟨rfl | rfl, -, -⟩ | ⟨-, -, hc⟩ | ⟨-, hc⟩
    · exact absurd hq (hn q i)
    · exact absurd hq (hn q i)
    · exact absurd hq (hswap hn q i)
    · exact absurd hc.1 ho.2
    · exact absurd hc.1 ho.2

/-- As soon as a task is queued, `queue` is assigned, and its first task is the choice. -/
theorem WellOrdered.pickQueue (h : WellOrdered k) (hl : k.Linked q)
    (hswap : (∀ p i, p ∉ k.queue k.rq.active i) → ∀ p i, p ∉ k.queue k.rq.expired i) :
    ∃ a i p, pickQueue k = some (a, i) ∧ (k.queue a i).head? = some p ∧ Choice k p := by
  have hact := arrayIdx_spec (h.shape.arrays k.rq.active)
  have hshort := arrayIdx_spec (h.shape.arrays k.rq.shortQ)
  have hover := arrayIdx_spec (h.shape.arrays k.rq.overdue)
  have hreal := fun q hq => h.realTime_idx (q := q) hq
  have hsh := fun q hq => h.short_idx (q := q) hq
  have hoth := fun q hq ho => h.other_idx (q := q) hq ho hswap
  unfold ShortSched.pickQueue
  dsimp only
  generalize arrayIdx (k.rq.arrays k.rq.active) = ia at hact hreal hoth ⊢
  generalize arrayIdx (k.rq.arrays k.rq.shortQ) = is at hshort hsh ⊢
  generalize arrayIdx (k.rq.arrays k.rq.overdue) = io at hover ⊢
  by_cases h1 : ia < 100 ∧ ia ≥ 0
  · rw [if_pos h1]
    obtain ⟨-, hne, -⟩ | ⟨hn, -⟩ := hact
    · obtain ⟨p, hp, hmem⟩ := exists_head hne
      have hi := (h.shape.of_mem hmem).2
      obtain ⟨-, hc⟩ | ⟨h100, -⟩ := h.active_class hmem
      · exact ⟨_, _, p, rfl, hp, .realTime hc fun q hq hr => hi ▸ (hreal q hq hr).2.1⟩
      · omega
    · omega
  rw [if_neg h1]
  have hr : ∀ q, k.Linked q → ¬ RealTime (k.tasks q) := fun q hq hr => by
    have := hreal q hq hr
    omega
  by_cases h2 : is ≥ 0
  · rw [if_pos h2]
    obtain ⟨-, hne, -⟩ | ⟨hn, -⟩ := hshort
    · obtain ⟨p, hp, hmem⟩ := exists_head hne
      have hi := (h.shape.of_mem hmem).2
      exact ⟨_, _, p, rfl, hp, .short hr ((h.short p _ _ hmem).mp rfl) fun q hq hs =>
        hi ▸ (hsh q hq hs).2⟩
    · omega
  rw [if_neg h2]
  have hs : ∀ q, k.Linked q → ¬ Short (k.tasks q) := fun q hq hs => h2 (hsh q hq hs).1
  by_cases h3 : ia ≥ 100
  · rw [if_pos h3]
    obtain ⟨-, hne, hle⟩ | ⟨hn, -⟩ := hact
    · obtain ⟨p, hp, hmem⟩ := exists_head hne
      have hi := (h.shape.of_mem hmem).2
      obtain ⟨hlt, -⟩ | ⟨-, hc⟩ := h.active_class hmem
      · omega
      · refine ⟨_, _, p, rfl, hp, .other hr hs hc ⟨_, hmem⟩ fun q i hq => ?_⟩
        rw [hi, (h.shape.of_mem hq).2]
        exact hle q i hq
    · omega
  rw [if_neg h3]
  have ho : ∀ q, k.Linked q → ¬ Other (k.tasks q) := fun q hq ho => by
    have := hoth q hq ho
    omega
  obtain ⟨a, i, hq⟩ := hl
  rcases h.cases hq with ⟨-, -, hc⟩ | ⟨-, -, hc⟩ | ⟨-, -, hc⟩ | ⟨rfl, -⟩
  · exact absurd hc (hr q ⟨a, i, hq⟩)
  · exact absurd hc (ho q ⟨a, i, hq⟩)
  · exact absurd hc (hs q ⟨a, i, hq⟩)
  · obtain ⟨h0, hne, -⟩ | ⟨-, hn⟩ := hover
    · rw [if_pos h0]
      obtain ⟨p, hp, hmem⟩ := exists_head hne
      have hio := h.zero p io hmem
      exact ⟨_, _, p, rfl, hp, .overdue hr hs ho ((h.overdue p _ _ hmem).mp rfl) (hio ▸ hp)⟩
    · exact absurd hq (hn q i)

/-! From the previous task to the next. -/

theorem WellOrdered.linked_here (h : WellOrdered k) (hl : k.Linked p) :
    Here k p ∧ (k.core p).array ≠ none := by
  obtain ⟨a, i, hp⟩ := hl
  exact ⟨h.shape.here hp, by
    rw [show (k.core p).array = some a from (h.shape.of_mem hp).1]
    exact Option.some_ne_none a⟩

theorem schedulePrev_deactivated (h : Deactivated (k.tasks p)) : schedulePrev p k =
    deactivateTask p (k.mod p fun t => { t with sleepTimestamp := k.jiffies }) := by
  obtain ⟨hr, hi⟩ := h
  unfold schedulePrev
  simp only [Kernel.mod_tasks_self]
  cases hs : (k.tasks p).state <;> dsimp only
  case running => exact absurd hs hr
  case interruptible => rw [if_neg fun hp => hi ⟨hs, hp⟩]

theorem schedulePrev_stays (h : ¬ Deactivated (k.tasks p)) : ∃ m, schedulePrev p k = some m := by
  unfold schedulePrev
  simp only [Kernel.mod_tasks_self]
  cases hs : (k.tasks p).state <;> dsimp only
  case running => exact ⟨_, rfl⟩
  case interruptible =>
    split_ifs with hp
    · exact ⟨_, rfl⟩
    · exact absurd ⟨by simp [hs], fun hi => hp hi.2⟩ h
  all_goals exact absurd ⟨by simp [hs], fun hi => by simp [hs] at hi⟩ h

theorem schedulePrev_total (h : Deactivated (k.tasks p) → Here k p ∧ (k.core p).array ≠ none) :
    ∃ k', schedulePrev p k = some k' := by
  by_cases hd : Deactivated (k.tasks p)
  · obtain ⟨hl, ha⟩ := h hd
    rw [schedulePrev_deactivated hd]
    refine deactivateTask_total (hl.mod p _ fun _ => rfl) ?_
    simpa [Kernel.core, TaskStruct.core] using ha
  · exact schedulePrev_stays hd

/-- A previous task that is taken off the runqueue was on it. -/
theorem WellOrdered.deactivated_linked (h : WellOrdered k) (hm : schedulePrev p k = some m)
    (hd : Deactivated (k.tasks p)) : k.Linked p := by
  rw [schedulePrev_deactivated hd] at hm
  obtain ⟨⟨c, a, i⟩, hl, hc⟩ := deactivateTask_here hm
  rw [Kernel.mod_tasks_self] at hl
  obtain rfl : c = k.rq.cpu := hc
  exact ⟨a, i, h.shape.mem_iff.mpr hl⟩

theorem WellOrdered.schedulePrev (h : WellOrdered k) (hm : schedulePrev p k = some m) :
    WellOrdered m := by
  obtain ⟨c, hc, hcase⟩ := schedulePrev_only hm
  have hcore : (c.runList = (k.core p).runList ∨ c.runList = none) ∧
      c.policy = (k.core p).policy ∧ c.isOverdue = (k.core p).isOverdue := by
    rcases hcase with ⟨-, rfl⟩ | ⟨-, rfl⟩ | ⟨-, -, rfl⟩
    · exact ⟨Or.inl rfl, rfl, rfl⟩
    · exact ⟨Or.inl rfl, rfl, rfl⟩
    · exact ⟨Or.inr rfl, rfl, rfl⟩
  refine h.of_core (h.shape.schedulePrev hm) hc.ptrs (fun q => ?_) fun q => ?_
  all_goals
    by_cases hq : q = p
    · subst hq
      rw [hc.self]
      first | exact hcore.1 | exact hcore.2
    · rw [hc.rest hq]
      first | exact Or.inl rfl | exact ⟨rfl, rfl⟩

/-- `nr_running` counts the linked tasks. -/
theorem Shape.nrRunning_ne_zero (h : Shape k 0) : k.rq.nrRunning ≠ 0 ↔ ∃ p, k.Linked p := by
  rw [h.running, add_zero]
  have hnn : ∀ a ∈ Finset.univ, 0 ≤ (k.rq.arrays a).nrActive :=
    fun a _ => (h.arrays a).nrActive_nonneg
  rw [ne_eq, Finset.sum_eq_zero_iff_of_nonneg hnn]
  push Not
  constructor
  · rintro ⟨a, -, ha⟩
    obtain ⟨p, i, hp⟩ := (h.arrays a).nrActive_pos_iff.mp (by
      have := (h.arrays a).nrActive_nonneg
      omega)
    exact ⟨p, a, i, hp⟩
  · rintro ⟨p, a, i, hp⟩
    have := (h.arrays a).nrActive_pos_iff.mpr ⟨p, i, hp⟩
    exact ⟨a, Finset.mem_univ a, by omega⟩

/-- `pick_next_task`: the idle task when nothing is linked, else the choice. -/
theorem WellOrdered.pickNext (h : WellOrdered k) : ∃ next k', pickNext k = some (next, k') ∧
    ((∀ p, ¬ k.Linked p) ∧ next = k.rq.idle ∨
      (∃ a i, ShortSched.pickQueue (swapArrays k) = some (a, i) ∧
        ((swapArrays k).queue a i).head? = some next) ∧ Choice (swapArrays k) next) := by
  by_cases hn : k.rq.nrRunning = 0
  · refine ⟨_, _, if_pos hn, Or.inl ⟨fun p hp => ?_, rfl⟩⟩
    exact h.shape.nrRunning_ne_zero.mpr ⟨p, hp⟩ hn
  · obtain ⟨q, hq⟩ := h.shape.nrRunning_ne_zero.mp hn
    have hsw := swapArrays_switch k
    obtain ⟨a, i, next, hpick, hhead, hch⟩ := (h.switch hsw).pickQueue (hsw.linked.mpr hq)
      fun h0 p i => swapArrays_expired h.shape.arrays h0
    refine ⟨next, swapArrays k, ?_, Or.inr ⟨⟨a, i, hpick, hhead⟩, hch⟩⟩
    rw [ShortSched.pickNext, if_neg hn]
    simp only [hpick, hhead, Option.bind_eq_bind, Option.bind_some, Option.pure_def]

/-- `schedule` goes through, to the idle task or to the choice among the linked tasks. -/
theorem WellOrdered.schedule (h : WellOrdered k)
    (hprev : Deactivated (k.tasks k.current) → k.Linked k.current) :
    ∃ m k', ShortSched.schedulePrev k.current k = some m ∧ schedule k = some k' ∧
      ((∀ p, ¬ m.Linked p) ∧ k'.rq.curr = k.rq.idle ∨
        (∃ a i, ShortSched.pickQueue (swapArrays m) = some (a, i) ∧
          ((swapArrays m).queue a i).head? = some k'.rq.curr) ∧
            Choice (swapArrays m) k'.rq.curr) := by
  obtain ⟨m, hm⟩ := schedulePrev_total fun hs => h.linked_here (hprev hs)
  obtain ⟨next, n, hn, hcase⟩ := (h.schedulePrev hm).pickNext
  have hmv : Moves 0 Guard.free k.current k m := schedulePrev_moves hm
  have hcur := (switchTasks_switch (k := n) k.current next
    ((pickNext_switch hn).2.1.trans hmv.curr)).2.2
  refine ⟨m, switchTasks k.current next n, hm, ?_, ?_⟩
  · rw [ShortSched.schedule]
    simp only [hm, hn, Option.bind_eq_bind, Option.bind_some, Option.pure_def]
  · rw [hcur, ← show m.rq.idle = k.rq.idle from hmv.idle]
    exact hcase

theorem Core.Belongs.short_iff {ps : Ptrs} {c : Core} (h : c.Belongs ps a) (hd : ps.Distinct) :
    a = ps.shortQ ↔ c.IsShort := by
  obtain ⟨-, h1, -, h3, -, h5⟩ := hd.ne
  unfold Core.Belongs at h
  unfold Core.IsShort
  cases hp : c.policy <;> simp only [hp] at h
  case short =>
    cases ho : c.isOverdue <;> simp only [ho, if_true, Bool.false_eq_true, if_false] at h
    · simp [h]
    · simp [h, h5.symm]
  case other => rcases h with rfl | rfl <;> simp [h1, h3]
  all_goals simp [h, h1]

theorem Core.Belongs.overdue_iff {ps : Ptrs} {c : Core} (h : c.Belongs ps a) (hd : ps.Distinct) :
    a = ps.overdue ↔ c.IsOverdue := by
  obtain ⟨-, -, h2, -, h4, h5⟩ := hd.ne
  unfold Core.Belongs at h
  unfold Core.IsOverdue
  cases hp : c.policy <;> simp only [hp] at h
  case short =>
    cases ho : c.isOverdue <;> simp only [ho, if_true, Bool.false_eq_true, if_false] at h
    · simp [h, h5]
    · simp [h]
  case other => rcases h with rfl | rfl <;> simp [h2, h4]
  all_goals simp [h, h2]

/-- Only real-time and overdue tasks have priorities below `MAX_RT_PRIO`. -/
theorem Core.Belongs.realTime {ps : Ptrs} {c : Core} (h : c.Belongs ps a) (hp : c.PrioOk)
    (hlt : c.prio < 100) (ho : ¬ c.IsOverdue) : a = ps.active := by
  unfold Core.Belongs at h
  cases hc : c.policy with
  | other =>
    have h100 := (hp.other hc).1
    omega
  | short =>
    have h100 := (hp.short ⟨hc, Bool.eq_false_iff.mpr fun hov => ho ⟨hc, hov⟩⟩).1
    omega
  | fifo => simpa only [hc] using h
  | rr => simpa only [hc] using h

/-- In a sound state `schedule` finds the classes where it looks for them. -/
theorem Sound.wellOrdered (h : Sound k) : WellOrdered k where
  distinct := h.distinct
  shape := h.shape
  realTime p a i hp hi hne := by
    obtain ⟨hb, hok⟩ := h.belongs hp
    rw [← (h.shape.of_mem hp).2] at hi
    exact hb.realTime hok hi fun ho => hne ((hb.overdue_iff h.distinct).mpr ho)
  short p a i hp := (h.belongs hp).1.short_iff h.distinct
  overdue p a i hp := (h.belongs hp).1.overdue_iff h.distinct
  zero p i hp := by
    obtain ⟨hb, hok⟩ := h.belongs hp
    rw [← (h.shape.of_mem hp).2]
    exact hok.overdue ((hb.overdue_iff h.distinct).mp rfl)

end

/-- From every well-ordered state `schedule` picks in the class order exactly when the previous
task is linked, if it is one that `schedule` deactivates. -/
theorem schedule_class_order_iff (k : Kernel) (h : WellOrdered k) :
    PicksInOrder k ↔ (Deactivated (k.tasks k.current) → k.Linked k.current) := by
  constructor
  · rintro ⟨m, -, hm, -⟩ hd
    exact h.deactivated_linked hm hd
  intro hprev
  obtain ⟨m, k', hm, hk', hcase⟩ := h.schedule hprev
  have hlinked : ∀ a i, ((swapArrays m).queue a i).head? = some k'.rq.curr →
      m.Linked k'.rq.curr := fun a i hh =>
    (swapArrays_switch m).linked.mp ⟨a, i, List.mem_of_head? hh⟩
  refine ⟨m, k', hm, hk', ?_⟩
  rcases hcase with ⟨hn, hidle⟩ | ⟨⟨a, i, hq, hh⟩, hch⟩
  · exact ⟨fun _ => hidle, fun ⟨p, hp⟩ => absurd hp (hn p), fun _ => iff_of_true hidle hn⟩
  · have hl := hlinked a i hh
    exact ⟨fun hn => absurd hl (hn _), fun _ => ⟨hch, a, i, hq, hh⟩,
      fun hni => iff_of_false (fun he => hni (he ▸ hl)) fun hn => hn _ hl⟩

/-- A SHORT task gives up the processor while its child, of the same class, waits. -/
theorem schedule_class_order_iff_shortForks : ∃ k ∈ runFromBoot 512 (shortTicks 100 5 3 ++
      [.doFork 2 2 false false, .setCurrentState .interruptible]),
    ∃ m k', schedulePrev k.current k = some m ∧ schedule k = some k' ∧
      Choice (swapArrays m) k'.rq.curr ∧ k'.rq.curr = 2 := by
  obtain ⟨k, hk, hl, hm, hc⟩ : ∃ k ∈ runFromBoot 512 (shortTicks 100 5 3 ++
        [.doFork 2 2 false false, .setCurrentState .interruptible]),
      k.current ∈ k.queue k.rq.shortQ 120 ∧
        (∃ m ∈ schedulePrev k.current k, 2 ∈ m.queue m.rq.shortQ 120) ∧
          ∃ k' ∈ schedule k, k'.rq.curr = 2 := by
    decide +kernel
  have hsound := runFromBoot_sound (C := fun _ _ => True) (by decide +kernel) hk
  obtain ⟨m, k', hm', hk', -, h, -⟩ :=
    (schedule_class_order_iff k hsound.wellOrdered).mpr fun _ => ⟨_, _, hl⟩
  obtain ⟨m'', hm'', hq⟩ := hm
  obtain ⟨k'', hk'', hcur⟩ := hc
  cases hm'.symm.trans hm''
  cases hk'.symm.trans hk''
  exact ⟨k, hk, m, k', hm', hk', (h ⟨2, _, _, hq⟩).1, hcur⟩

/-- A SHORT task that has a child changes its own parameters and then goes to sleep. -/
def unlinkedSleeper : List Op := shortTicks 100 5 3 ++ [.doFork 2 2 false false,
  .sysSchedSetparam 0 (shortParam 200 5), .setCurrentState .interruptible]

/-- The child is runnable, but `schedule` follows the NULL array of the task that sleeps. -/
theorem unlinked_prev_stops_schedule : AlongBoot 512 (fun _ _ => True) unlinkedSleeper ∧
    ∃ k ∈ runFromBoot 512 unlinkedSleeper, WellOrdered k ∧ k.current = 1 ∧
      (k.tasks 1).array = none ∧ k.Linked 2 ∧ schedule k = none ∧ ¬ PicksInOrder k := by
  have hC : AlongBoot 512 (fun _ _ => True) unlinkedSleeper := by decide +kernel
  obtain ⟨k, hk, hc, ha, hl, hs⟩ : ∃ k ∈ runFromBoot 512 unlinkedSleeper, k.current = 1 ∧
      (k.tasks 1).array = none ∧ 2 ∈ k.queue k.rq.shortQ 120 ∧ (schedule k).isNone := by
    decide +kernel
  have hnone : schedule k = none := Option.isNone_iff_eq_none.mp hs
  refine ⟨hC, k, hk, (runFromBoot_sound hC hk).wellOrdered, hc, ha, ⟨_, _, hl⟩, hnone, ?_⟩
  rintro ⟨m, k', -, hk', -⟩
  cases hnone.symm.trans hk'

end ShortSched
