import ShortSched.Core
import ShortSched.Shape

/-! What the queue primitives and the functions of the scheduler do to the task they are
called on, as steps of the machine of one task. -/
namespace ShortSched
open Relation

def Kernel.core (k : Kernel) (q : TaskId) : Core := (k.tasks q).core

def Kernel.ptrs (k : Kernel) : Ptrs := k.rq.ptrs

/-- The parts of a state that only a context switch or a fork changes. -/
structure Fixed (k k' : Kernel) : Prop where
  ptrs : k'.ptrs = k.ptrs
  curr : k'.rq.curr = k.rq.curr
  idle : k'.rq.idle = k.rq.idle
  pidhash : k'.pidhash = k.pidhash

/-- Only task `p` changed, and it is now `c`. -/
structure Only (p : TaskId) (c : Core) (k k' : Kernel) : Prop extends Fixed k k' where
  core : k'.core = Function.update k.core p c

/-- No task changed in what scheduling depends on. -/
structure Quiet (k k' : Kernel) : Prop extends Fixed k k' where
  core : k'.core = k.core

section
variable {k k' k'' : Kernel} {p q : TaskId} {c c' : Core} {a : ArrayIdx} {i : ℤ} {HZ : ℕ}

theorem Fixed.refl (k : Kernel) : Fixed k k := ⟨rfl, rfl, rfl, rfl⟩

theorem Fixed.trans (h : Fixed k k') (h' : Fixed k' k'') : Fixed k k'' :=
  ⟨h'.ptrs.trans h.ptrs, h'.curr.trans h.curr, h'.idle.trans h.idle, h'.pidhash.trans h.pidhash⟩

theorem Only.self (h : Only p c k k') : k'.core p = c := by rw [h.core, Function.update_self]

theorem Only.rest (h : Only p c k k') (hq : q ≠ p) : k'.core q = k.core q := by
  rw [h.core, Function.update_of_ne hq]

theorem Only.trans (h : Only p c k k') (h' : Only p c' k' k'') : Only p c' k k'' where
  toFixed := h.toFixed.trans h'.toFixed
  core := by rw [h'.core, h.core, Function.update_idem]

theorem Only.quiet (h : Only p c k k') (h' : Quiet k' k'') : Only p c k k'' where
  toFixed := h.toFixed.trans h'.toFixed
  core := by rw [h'.core, h.core]

theorem Quiet.only (h : Quiet k k') (h' : Only p c k' k'') : Only p c k k'' where
  toFixed := h.toFixed.trans h'.toFixed
  core := by rw [h'.core, h.core]

theorem Quiet.refl (k : Kernel) : Quiet k k where
  toFixed := Fixed.refl k
  core := rfl

theorem Quiet.trans (h : Quiet k k') (h' : Quiet k' k'') : Quiet k k'' where
  toFixed := h.toFixed.trans h'.toFixed
  core := by rw [h'.core, h.core]

theorem Quiet.only_self (h : Quiet k k') (p : TaskId) : Only p (k.core p) k k' where
  toFixed := h.toFixed
  core := by rw [h.core, Function.update_eq_self]

theorem mod_only {f : TaskStruct → TaskStruct} (h : (f (k.tasks p)).core = c) :
    Only p c k (k.mod p f) where
  toFixed := ⟨rfl, rfl, rfl, rfl⟩
  core := by
    funext q
    by_cases hq : q = p
    · subst hq; simp [Kernel.core, h]
    · simp [Kernel.core, hq, Kernel.mod_tasks_ne hq]

/-- Assignments to fields that scheduling does not depend on. -/
theorem mod_quiet {f : TaskStruct → TaskStruct} (h : ∀ t, (f t).core = t.core) :
    Quiet k (k.mod p f) where
  toFixed := ⟨rfl, rfl, rfl, rfl⟩
  core := by
    funext q
    exact Kernel.mod_field TaskStruct.core h q

theorem modRq_quiet {g : Runqueue → Runqueue} (hp : (g k.rq).ptrs = k.rq.ptrs)
    (hc : (g k.rq).curr = k.rq.curr) (hi : (g k.rq).idle = k.rq.idle) : Quiet k (k.modRq g) where
  toFixed := ⟨hp, hc, hi, rfl⟩
  core := rfl

theorem modArray_quiet {g : PrioArray → PrioArray} : Quiet k (k.modArray a g) :=
  modRq_quiet rfl rfl rfl

theorem recordSwitch_quiet (reason : SwitchReason) : Quiet k (recordSwitch reason k) :=
  modRq_quiet rfl rfl rfl

theorem reschedTask_quiet (q : TaskId) : Quiet k (reschedTask q k) := mod_quiet fun _ => rfl

theorem listDel_only (h : listDel p k = some k') : (k.core p).runList ≠ none ∧
    Only p (k.core p).free k k' := by
  obtain ⟨l, hl, -, rfl⟩ := listDel_eq_some.mp h
  refine ⟨by simp [Kernel.core, TaskStruct.core, hl], ?_⟩
  exact modArray_quiet.only (mod_only rfl)

theorem listAdd_only {f : List TaskId → List TaskId} (h : listAdd p a i f k = some k') :
    (k.core p).runList = none ∧
      Only p ((k.core p).listed (k.ptrs.entry a i)) k k' := by
  obtain ⟨hl, rfl⟩ := listAdd_eq_some.mp h
  exact ⟨hl, modArray_quiet.only (mod_only rfl)⟩

theorem place_only {f : List TaskId → List TaskId} :
    Only p ((k.core p).on k.ptrs a i) k (k.place p a i f) :=
  modArray_quiet.only (mod_only rfl)

theorem enqueueTask_only (h : enqueueTask p a k = some k') : (k.core p).runList = none ∧
    Only p ((k.core p).on k.ptrs a (k.core p).prio) k k' := by
  obtain ⟨hl, rfl⟩ := enqueueTask_eq_some.mp h
  exact ⟨hl, place_only⟩

theorem dequeueTask_only (h : dequeueTask p a k = some k') : (k.core p).runList ≠ none ∧
    Only p (k.core p).free k k' := by
  simp only [dequeueTask, Option.bind_eq_bind, Option.bind_eq_some_iff] at h
  obtain ⟨m, hm, h⟩ := h
  have hd := listDel_only hm
  have hq : Quiet m k' := by
    split_ifs at h
    · cases h; exact modArray_quiet
    · cases h; exact Quiet.refl _
  exact ⟨hd.1, (modArray_quiet.only hd.2).quiet hq⟩

theorem deactivateTask_only (h : deactivateTask p k = some k') : (k.core p).runList ≠ none ∧
    Only p (k.core p).off k k' := by
  rw [deactivateTask_eq, Option.map_eq_some_iff] at h
  obtain ⟨m, hm, rfl⟩ := h
  obtain ⟨a, -, hm⟩ := Option.bind_eq_some_iff.mp hm
  have hd := dequeueTask_only hm
  have hq : Quiet k (k.uncounted p) := modRq_quiet rfl rfl rfl
  refine ⟨hd.1, (hq.only hd.2).trans (mod_only ?_)⟩
  have hs : (m.tasks p).core = (k.core p).free := hd.2.self
  change { (m.tasks p).core with array := none } = (k.core p).off
  rw [hs]
  rfl

theorem effectivePrio_dynamic (HZ : ℕ) (t : TaskStruct) : t.core.Dynamic (effectivePrio HZ t) := by
  have hr := effectivePrio_range HZ t
  refine ⟨hr.1, hr.2, fun hs h1 h2 => ?_⟩
  have hp : t.policy = .short := hs.1
  have ho : t.isOverdue = false := hs.2
  change 100 ≤ t.staticPrio at h1
  change t.staticPrio < 140 at h2
  change _ = t.staticPrio
  simp only [effectivePrio, hp, ho, maxPrio, maxRtPrio, maxUserRtPrio, if_true,
    Bool.false_eq_true, if_false]
  split_ifs <;> omega

/-- `activate_task` may recompute the priority of a task that is not real-time. -/
theorem credited_core (HZ : ℕ) (k : Kernel) (t : TaskStruct) :
    ∃ i, (i = t.core.prio ∨ 100 ≤ t.core.prio ∧ t.core.Dynamic i) ∧
      (credited HZ k t).core = t.core.withPrio i := by
  unfold credited
  split_ifs with h
  · have hp : 100 ≤ t.core.prio := not_lt.mp h.1
    obtain ⟨t', ht, hc⟩ : ∃ t' : TaskStruct, t'.core = t.core ∧
        creditSleep HZ (sleepTime k t) t = { t' with prio := effectivePrio HZ t' } :=
      ⟨{ t with sleepAvg := if u32 (t.sleepAvg + sleepTime k t) > maxSleepAvg HZ
          then maxSleepAvg HZ else u32 (t.sleepAvg + sleepTime k t) }, rfl, rfl⟩
    refine ⟨effectivePrio HZ t', Or.inr ⟨hp, ht ▸ effectivePrio_dynamic HZ t'⟩, ?_⟩
    rw [hc, ← ht]
    rfl
  · exact ⟨t.core.prio, Or.inl rfl, rfl⟩

theorem activateTask_only (h : activateTask HZ p k = some k') : (k.core p).runList = none ∧
    ∃ i, (i = (k.core p).prio ∨ 100 ≤ (k.core p).prio ∧ (k.core p).Dynamic i) ∧
      Only p ((k.core p).on k.ptrs ((k.core p).wakeArray k.ptrs) i) k k' := by
  obtain ⟨hl, rfl⟩ := activateTask_eq_some.mp h
  obtain ⟨i, hi, hc⟩ := credited_core HZ k (k.tasks p)
  refine ⟨hl, i, hi, ?_⟩
  have h1 : Only p ((k.core p).withPrio i) k (k.mod p (credited HZ k)) := mod_only hc
  have h2 := enqueueTask_only (p := p) (a := activationArray k.rq (k.tasks p))
    (k := k.mod p (credited HZ k)) (enqueueTask_eq_some.mpr
      ⟨by rw [Kernel.mod_tasks_self, credited_runList, hl], rfl⟩)
  have h3 := h1.trans h2.2
  rw [h1.self] at h3
  exact h3.quiet (modRq_quiet rfl rfl rfl)

/-! Fields outside the core that the queue operations leave alone. -/

/-- The clock stands, and `g` of every task is what it was. -/
structure Same {β : Type*} (g : TaskStruct → β) (k k' : Kernel) : Prop where
  jiffies : k'.jiffies = k.jiffies
  field : ∀ q, g (k'.tasks q) = g (k.tasks q)

/-- `g` reads nothing that the list operations assign. -/
structure OffLists {β : Type*} (g : TaskStruct → β) : Prop where
  listed : ∀ t l, g { t with runList := l } = g t
  array : ∀ t a, g { t with array := a } = g t
  placed : ∀ t l a i, g { t with runList := l, array := a, prio := i } = g t

/-- `g` reads nothing that the queue operations assign. -/
structure OffQueue {β : Type*} (g : TaskStruct → β) : Prop where
  listed : ∀ t l, g { t with runList := l } = g t
  array : ∀ t a, g { t with array := a } = g t
  placed : ∀ t l a i, g { t with runList := l, array := a, prio := i } = g t
  credited : ∀ t n i, g { t with sleepAvg := n, prio := i } = g t

section
variable {β : Type*} {g : TaskStruct → β} {m n : Kernel} {f : TaskStruct → TaskStruct}

theorem Same.refl (g : TaskStruct → β) (k : Kernel) : Same g k k := ⟨rfl, fun _ => rfl⟩

theorem Same.trans (h : Same g k m) (h' : Same g m k') : Same g k k' :=
  ⟨h'.jiffies.trans h.jiffies, fun q => (h'.field q).trans (h.field q)⟩

theorem Same.mod (h : Same g k m) (hf : ∀ t, g (f t) = g t) : Same g k (m.mod p f) :=
  ⟨h.jiffies, fun q => (Kernel.mod_field g hf q).trans (h.field q)⟩

theorem Same.of_tasks (h : Same g k m) (ht : n.tasks = m.tasks) (hj : n.jiffies = m.jiffies) :
    Same g k n :=
  ⟨hj.trans h.jiffies, fun q => by rw [ht]; exact h.field q⟩

theorem Same.recordSwitch (h : Same g k m) (r : SwitchReason) :
    Same g k (recordSwitch r m) := h.of_tasks rfl rfl

theorem Same.map {γ : Type*} (h : Same g k m) (f : β → γ) : Same (fun t => f (g t)) k m :=
  ⟨h.jiffies, fun q => congrArg f (h.field q)⟩

theorem OffQueue.lists (hg : OffQueue g) : OffLists g := ⟨hg.listed, hg.array, hg.placed⟩

theorem Same.dequeue (h : Same g k m) (hg : OffLists g) (hd : dequeueTask p a m = some n) :
    Same g k n := by
  simp only [dequeueTask, Option.bind_eq_bind, Option.bind_eq_some_iff] at hd
  obtain ⟨l, hl, hd⟩ := hd
  obtain ⟨e, -, -, rfl⟩ := listDel_eq_some.mp hl
  have h1 : Same g k (m.mod p fun t => { t with runList := none }) :=
    h.mod fun t => hg.listed t none
  split_ifs at hd <;> cases hd <;> exact h1.of_tasks rfl rfl

theorem Same.enqueue (h : Same g k m) (hg : OffLists g) (he : enqueueTask p a m = some n) :
    Same g k n := by
  obtain ⟨-, rfl⟩ := enqueueTask_eq_some.mp he
  have h1 : Same g k (m.mod p fun t =>
    { t with runList := some ⟨m.rq.cpu, a, (m.tasks p).prio⟩, array := some a,
             prio := (m.tasks p).prio }) := h.mod fun t => hg.placed t _ _ _
  exact h1.of_tasks rfl rfl

theorem Same.deactivate (h : Same g k m) (hg : OffLists g) (hd : deactivateTask p m = some n) :
    Same g k n := by
  rw [deactivateTask_eq, Option.map_eq_some_iff] at hd
  obtain ⟨l, hl, rfl⟩ := hd
  obtain ⟨a, -, hl⟩ := Option.bind_eq_some_iff.mp hl
  have h1 : Same g k (m.uncounted p) := h.of_tasks rfl rfl
  exact (h1.dequeue hg hl).mod fun t => hg.array t none

theorem OffQueue.of_credited (hg : OffQueue g) (HZ : ℕ) (k : Kernel) (t : TaskStruct) :
    g (ShortSched.credited HZ k t) = g t := by
  unfold ShortSched.credited
  split_ifs
  · exact hg.credited t _ _
  · rfl

theorem Same.activate (h : Same g k m) (hg : OffQueue g) (ha : activateTask HZ p m = some n) :
    Same g k n := by
  obtain ⟨hl, rfl⟩ := activateTask_eq_some.mp ha
  have h1 : Same g k (m.mod p (ShortSched.credited HZ m)) := h.mod (hg.of_credited HZ m)
  have h2 := h1.enqueue hg.lists (enqueueTask_eq_some.mpr
    ⟨by rw [Kernel.mod_tasks_self, credited_runList, hl], rfl⟩ : enqueueTask p
      (activationArray m.rq (m.tasks p)) _ = some _)
  exact h2.of_tasks rfl rfl

end

end
end ShortSched
