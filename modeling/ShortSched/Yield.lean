import ShortSched.ClassOrder

/-! `sys_sched_yield`: the task that yields goes behind another one of its array, and `schedule`
then picks a different task. -/
namespace ShortSched
open Buckets

/-- Where a yield puts the running task back: at the tail of its queue, behind the first task of
it, or behind the first task of the next occupied queue. -/
inductive YieldPlace (k : Kernel) (a : ArrayIdx) (i : ℤ) : ℤ → (List TaskId → List TaskId) → Prop
  | tail (h : rtTask (k.tasks k.current)) : YieldPlace k a i i (· ++ [k.current])
  | second (h : ¬ rtTask (k.tasks k.current)) (hne : (k.queue a i).erase k.current ≠ []) :
      YieldPlace k a i i (insertSecond k.current)
  | next (h : ¬ rtTask (k.tasks k.current)) (he : (k.queue a i).erase k.current = []) :
      YieldPlace k a i (yieldPrio ((k.rq.arrays a).pull k.current i).bitmap i)
        (insertSecond k.current)

/-- On no array is `p` the first task of the first occupied queue. -/
def Behind (k : Kernel) (p : TaskId) : Prop :=
  ∀ a i, (k.queue a i).head? = some p → ∃ q j, q ∈ k.queue a j ∧ j < i

/-- A well-formed state in which every class is where `schedule` looks for it, and tasks of
`SCHED_OTHER` have no real-time priority. -/
structure ClassesApart (k : Kernel) : Prop extends WellOrdered k where
  other : ∀ p, k.Linked p → (k.tasks p).policy = .other → ¬ rtTask (k.tasks p)

section
variable {k k' m : Kernel} {p q : TaskId} {a b : ArrayIdx} {i j l n d : ℤ}
  {g : List TaskId → List TaskId}

theorem Sound.classesApart (h : Sound k) : ClassesApart k where
  toWellOrdered := h.wellOrdered
  other p hl ho := by
    obtain ⟨a, i, hp⟩ := hl
    exact not_lt.mpr ((h.belongs hp).2.other ho).1

/-- The moves of a yield, as one: the task is pulled off its queue and put back. -/
theorem yieldMove_place (h : Shape k d) (hp : k.current ∈ k.queue a i)
    (hy : yieldMove k = some m) : ∃ j g, YieldPlace k a i j g ∧
      m.rq.arrays = Function.update k.rq.arrays a (((k.rq.arrays a).pull k.current i).put j g) ∧
      ∀ q ≠ k.current, m.tasks q = k.tasks q := by
  obtain ⟨ha, rfl⟩ := h.of_mem hp
  simp only [yieldMove, Option.bind_eq_bind, Option.bind_eq_some_iff, ha, Option.some.injEq,
    exists_eq_left'] at hy
  obtain ⟨l, hl, hy⟩ := hy
  obtain ⟨e, he, -, hl⟩ := listDel_eq_some.mp hl
  obtain rfl : e = ⟨k.rq.cpu, a, (k.tasks k.current).prio⟩ :=
    Option.some.inj (he.symm.trans (h.mem_iff.mp hp))
  have hrt : rtTask (l.tasks k.current) ↔ rtTask (k.tasks k.current) := by
    rw [hl, Kernel.mod_tasks_self]
    rfl
  have hqueue : l.queue a (k.tasks k.current).prio =
      (k.queue a (k.tasks k.current).prio).erase k.current := by
    rw [hl]
    simp [Kernel.queue, Kernel.modQueue, Kernel.modArray]
  have hback : ∀ g, listAdd k.current a (k.tasks k.current).prio g l = some m →
      m.rq.arrays = Function.update k.rq.arrays a
        (((k.rq.arrays a).pull k.current (k.tasks k.current).prio).put
          (k.tasks k.current).prio g) ∧ ∀ q ≠ k.current, m.tasks q = k.tasks q := by
    intro g hg
    obtain ⟨-, rfl⟩ := listAdd_eq_some.mp hg
    subst hl
    refine ⟨?_, fun q hq => by simp [Kernel.mod_tasks_ne hq]⟩
    rw [PrioArray.put_pull (h.arrays a) hp]
    simp [Kernel.modQueue, Kernel.modArray, Kernel.modRq, Kernel.mod]
  split_ifs at hy with hr hne
  · exact ⟨_, _, .tail (hrt.mp hr), hback _ hy⟩
  · rw [hqueue] at hne
    exact ⟨_, _, .second (fun hc => hr (hrt.mpr hc)) hne, hback _ hy⟩
  · rw [hqueue, not_not] at hne
    have hbit : ((l.modArray a (clearBit (k.tasks k.current).prio)).rq.arrays a).bitmap =
        ((k.rq.arrays a).pull k.current (k.tasks k.current).prio).bitmap := by
      subst hl
      change ((k.rq.arrays a).queue _).erase _ = [] at hne
      simp [Kernel.modArray_arrays, Kernel.modQueue, clearBit, PrioArray.pull, hne]
    refine ⟨_, _, .next (fun hc => hr (hrt.mpr hc)) hne, ?_⟩
    rw [hbit] at hy
    simp only [Option.bind_eq_some_iff, Option.pure_def, Option.some.injEq] at hy
    obtain ⟨n, hn, rfl⟩ := hy
    obtain ⟨-, rfl⟩ := listAdd_eq_some.mp hn
    subst hl
    change ((k.rq.arrays a).queue _).erase _ = [] at hne
    refine ⟨?_, fun q hq => by simp [Kernel.mod_tasks_ne hq]⟩
    simp [Kernel.modQueue, Kernel.modArray, Kernel.modRq, Kernel.mod, PrioArray.put,
      PrioArray.pull, hne, clearBit, setBit]

theorem YieldPlace.mem_put {r : PrioArray} (h : YieldPlace k a i j g) :
    p ∈ (r.put j g).queue l ↔ p ∈ r.queue l ∨ p = k.current ∧ l = j := by
  have hg : ∀ x, x ∈ g (r.queue j) ↔ x ∈ r.queue j ∨ x = k.current := by
    intro x
    cases h
    case tail => simp
    all_goals
      rw [(insertSecond_perm _ _).mem_iff, List.mem_cons]
      exact or_comm
  simp only [PrioArray.put]
  by_cases hl : l = j
  · subst hl
    simp [hg]
  · simp [hl]

/-- Wherever the task is put back, a task of its array is in front of it. -/
theorem YieldPlace.behind {r : PrioArray} (h : YieldPlace k a i j g) (hr : ArrayOk r)
    (hpull : r = (k.rq.arrays a).pull k.current i) (hcur : ∀ l, k.current ∉ r.queue l)
    (hq : q ∈ r.queue n) (hrt : rtTask (k.tasks k.current) → r.queue i ≠ [])
    (hhead : ((r.put j g).queue l).head? = some k.current) :
    ∃ x l', x ∈ (r.put j g).queue l' ∧ l' < l := by
  obtain rfl : l = j := by
    by_contra hl
    have hmem := List.mem_of_mem_head? hhead
    rw [h.mem_put] at hmem
    exact hmem.elim (hcur l) fun hc => hl hc.2
  have hout : ∀ {e : List TaskId}, e ≠ [] → k.current ∉ e → e.head? ≠ some k.current :=
    fun _ hn hc => hn (List.mem_of_mem_head? hc)
  simp only [PrioArray.put, Function.update_self] at hhead
  have hsecond : r.queue l ≠ [] → g = insertSecond k.current → False := by
    rintro hne rfl
    rw [head_insertSecond _ hne] at hhead
    exact hout hne (hcur l) hhead
  cases h with
  | tail h =>
    rw [List.head?_append_of_ne_nil _ (hrt h)] at hhead
    exact absurd hhead (hout (hrt h) (hcur _))
  | second h hne =>
    refine (hsecond ?_ rfl).elim
    rw [hpull]
    simpa [PrioArray.pull, Kernel.queue] using hne
  | next h he =>
    obtain ⟨h0, h140, hocc⟩ := hr.first_occupied (hr.nrActive_pos_iff.mpr ⟨q, n, hq⟩)
    rw [← hpull] at hsecond ⊢
    by_cases hf : schedFindFirstBit r.bitmap = maxPrio ∨ schedFindFirstBit r.bitmap ≤ i
    · have hempty : r.queue i = [] := by
        rw [hpull]
        simpa [PrioArray.pull, Kernel.queue] using he
      have hne : schedFindFirstBit r.bitmap ≠ i := fun hc => hocc (hc ▸ hempty)
      obtain ⟨x, hx⟩ := List.exists_mem_of_ne_nil _ hocc
      have hstay : yieldPrio r.bitmap i = i := if_pos hf
      rw [hstay]
      refine ⟨x, schedFindFirstBit r.bitmap, ?_, ?_⟩
      · simp only [PrioArray.put]
        rwa [Function.update_of_ne hne]
      · simp only [maxPrio, maxRtPrio, maxUserRtPrio] at hf
        omega
    · have hnext : yieldPrio r.bitmap i = schedFindFirstBit r.bitmap := if_neg hf
      rw [hnext] at hsecond
      exact (hsecond hocc rfl).elim

theorem Shape.pull_queue (h : Shape k d) (hp : p ∈ k.queue a i) (l : ℤ) :
    ((k.rq.arrays a).pull p i).queue l = (k.queue a l).erase p := by
  simp only [PrioArray.pull]
  by_cases hl : l = i
  · subst hl
    rw [Function.update_self]
    rfl
  · rw [Function.update_of_ne hl, List.erase_of_not_mem]
    · rfl
    · intro hc
      exact hl ((h.of_mem hc).2.symm.trans (h.of_mem hp).2)

theorem Shape.notMem_erase (h : Shape k d) : p ∉ (k.queue a i).erase p :=
  ((h.located.nodup ⟨k.rq.cpu, a, i⟩ rfl).not_mem_erase)

/-- What a yield leaves of a well-formed state. -/
structure Yielded (k m : Kernel) (a : ArrayIdx) (j : ℤ) : Prop where
  mem : ∀ p b l, p ∈ m.queue b l ↔ p ≠ k.current ∧ p ∈ k.queue b l ∨
    p = k.current ∧ b = a ∧ l = j
  order : ∀ b l, (m.queue b l).erase k.current = (k.queue b l).erase k.current
  tasks : ∀ q ≠ k.current, m.tasks q = k.tasks q

theorem YieldPlace.yielded (hplace : YieldPlace k a i j g) (h : Shape k d)
    (hp : k.current ∈ k.queue a i)
    (harr : m.rq.arrays = Function.update k.rq.arrays a
      (((k.rq.arrays a).pull k.current i).put j g))
    (hrest : ∀ q ≠ k.current, m.tasks q = k.tasks q) : Yielded k m a j := by
  have hself : m.queue a = (((k.rq.arrays a).pull k.current i).put j g).queue := by
    unfold Kernel.queue
    rw [harr, Function.update_self]
  have hother : ∀ b, b ≠ a → m.queue b = k.queue b := by
    intro b hb
    unfold Kernel.queue
    rw [harr, Function.update_of_ne hb]
  have haway : ∀ b, b ≠ a → ∀ l, k.current ∉ k.queue b l := by
    intro b hb l hc
    exact hb (Option.some.inj ((h.of_mem hc).1.symm.trans (h.of_mem hp).1))
  constructor
  · intro p b l
    by_cases hb : b = a
    · subst hb
      rw [hself, hplace.mem_put, h.pull_queue hp,
        (h.located.nodup ⟨k.rq.cpu, b, l⟩ rfl).mem_erase_iff]
      simp
    · rw [hother b hb]
      constructor
      · intro hq
        exact Or.inl ⟨fun he => haway b hb l (he ▸ hq), hq⟩
      · rintro (⟨-, hq⟩ | ⟨-, he, -⟩)
        · exact hq
        · exact absurd he hb
  · intro b l
    by_cases hb : b = a
    · subst hb
      rw [hself]
      simp only [PrioArray.put]
      by_cases hl : l = j
      · subst hl
        have hg : ∀ e : List TaskId, k.current ∉ e → (g e).erase k.current = e := by
          intro e he
          cases hplace
          case tail => simp [List.erase_append_right _ he]
          all_goals exact insertSecond_erase he
        rw [Function.update_self, h.pull_queue hp, hg _ h.notMem_erase]
      · rw [Function.update_of_ne hl, h.pull_queue hp, List.erase_of_not_mem h.notMem_erase]
    · rw [hother b hb]
  · exact hrest

/-- Only a task outside the real-time range changes its priority, and stays outside. -/
theorem YieldPlace.same_prio (h : YieldPlace k a i j g) (hi : (k.tasks k.current).prio = i)
    (hrt : i < 100 ∨ j < 100) : j = i := by
  cases h with
  | tail => rfl
  | second => rfl
  | next h =>
    have hn : ¬ i < 100 := hi ▸ h
    have := yieldPrio_range ((k.rq.arrays a).pull k.current i).bitmap i
    omega

/-- A task that shares its array, and is not real-time, has another task in front of it once it
has yielded. -/
theorem ClassesApart.yield_behind (h : ClassesApart k)
    (hpol : (k.tasks k.current).policy = .other ∨ (k.tasks k.current).policy = .short)
    (hp : k.current ∈ k.queue a i) (hq : q ∈ k.queue a n) (hne : q ≠ k.current)
    (hplace : YieldPlace k a i j g) (hy : Yielded k m a j)
    (harr : m.rq.arrays = Function.update k.rq.arrays a
      (((k.rq.arrays a).pull k.current i).put j g)) : Behind m k.current := by
  intro b l hhead
  obtain ⟨hn, -⟩ | ⟨-, rfl, rfl⟩ := (hy.mem _ _ _).mp (List.mem_of_mem_head? hhead)
  · exact absurd rfl hn
  have hpulled : ∀ x l, x ∈ ((k.rq.arrays b).pull k.current i).queue l ↔
      x ≠ k.current ∧ x ∈ k.queue b l := by
    intro x l
    rw [h.shape.pull_queue hp, (h.shape.located.nodup ⟨k.rq.cpu, b, l⟩ rfl).mem_erase_iff]
  have hself : m.queue b = (((k.rq.arrays b).pull k.current i).put l g).queue := by
    unfold Kernel.queue
    rw [harr, Function.update_self]
  rw [hself] at hhead ⊢
  refine hplace.behind ((h.shape.arrays b).pull hp) rfl (fun l hc => ?_)
    ((hpulled q n).mpr ⟨hne, hq⟩) (fun hrt => ?_) hhead
  · exact ((hpulled _ _).mp hc).1 rfl
  · -- only an overdue task is below `MAX_RT_PRIO`, and all of them are at priority 0
    have hover : Overdue (k.tasks k.current) := by
      rcases hpol with ho | hs
      · exact absurd hrt (h.other _ ⟨b, i, hp⟩ ho)
      · by_contra hno
        have hshort : Short (k.tasks k.current) :=
          ⟨hs, Bool.eq_false_of_not_eq_true fun ht => hno ⟨hs, ht⟩⟩
        have hb := (h.short _ _ _ hp).mpr hshort
        rw [rtTask, (h.shape.of_mem hp).2] at hrt
        have hact := h.realTime _ _ _ hp hrt fun hc => hno ((h.overdue _ _ _ hp).mp hc)
        exact h.distinct.ne.2.1 (hact.symm.trans hb)
    have hb := (h.overdue _ _ _ hp).mpr hover
    subst hb
    have hi := h.zero _ _ hp
    have hn := h.zero _ _ hq
    subst hi hn
    exact List.ne_nil_of_mem ((hpulled q 0).mpr ⟨hne, hq⟩)

theorem ClassesApart.yieldMove (h : ClassesApart k) (hp : k.current ∈ k.queue a i)
    (hm : yieldMove k = some m) (hplace : YieldPlace k a i j g) (hy : Yielded k m a j) :
    ClassesApart m := by
  obtain ⟨-, b, j', -, -, -, -, ho⟩ := yieldMove_only hm
  have hi := (h.shape.of_mem hp).2
  have hs : Shape m 0 := h.shape.yieldMove hm
  have hsub : ∀ q b l, q ∈ m.queue b l → ∃ n, q ∈ k.queue b n ∧ (n < 100 ∨ l < 100 → l = n) := by
    intro q b l hq
    obtain ⟨-, hq⟩ | ⟨rfl, rfl, rfl⟩ := (hy.mem _ _ _).mp hq
    · exact ⟨l, hq, fun _ => rfl⟩
    · exact ⟨i, hp, hplace.same_prio hi⟩
  have hclass : ∀ q, (m.core q).policy = (k.core q).policy ∧
      (m.core q).isOverdue = (k.core q).isOverdue := by
    intro q
    by_cases hq : q = k.current
    · rw [hq, ho.self]
      exact ⟨rfl, rfl⟩
    · rw [ho.rest hq]
      exact ⟨rfl, rfl⟩
  refine ⟨h.toWellOrdered.of_mem hs ho.ptrs hsub hclass, fun q hl hpol hrt => ?_⟩
  obtain ⟨b, l, hq⟩ := hl
  obtain ⟨n, hn, he⟩ := hsub q b l hq
  rw [rtTask, (hs.of_mem hq).2] at hrt
  apply h.other q ⟨b, n, hn⟩ ((hclass q).1.symm.trans hpol)
  rw [rtTask, (h.shape.of_mem hn).2, ← he (Or.inr hrt)]
  exact hrt

/-! The call of `schedule`. -/

theorem pickQueue_first (hs : ∀ a, ArrayOk (k.rq.arrays a)) (h : pickQueue k = some (a, i))
    (hq : q ∈ k.queue a j) : i ≤ j := by
  have hle : ∀ b, q ∈ k.queue b j → arrayIdx (k.rq.arrays b) ≤ j := by
    intro b hb
    rcases arrayIdx_spec (hs b) with ⟨-, -, hmin⟩ | ⟨-, hnone⟩
    · exact hmin q j hb
    · exact absurd hb (hnone q j)
  unfold pickQueue at h
  dsimp only at h
  split_ifs at h <;> cases h <;> exact hle _ hq

theorem schedulePrev_queue (h : schedulePrev p k = some k') :
    k'.queue = k.queue ∨ (k'.core p).runList = none := by
  obtain ⟨-, rfl⟩ | ⟨-, rfl⟩ | ⟨-, hd⟩ := schedulePrev_cases h
  · exact Or.inl rfl
  · exact Or.inl rfl
  · right
    obtain ⟨-, h1⟩ := deactivateTask_only hd
    rw [h1.self]
    rfl

/-- `schedule` does not pick the task that called it while another one is in front of it. -/
theorem WellOrdered.schedule_other (h : WellOrdered k) (hb : Behind k k.current)
    (hcur : k.Linked k.current) (hq : k.Linked q) (hne : q ≠ k.current) :
    ∃ k', ShortSched.schedule k = some k' ∧ k'.current ≠ k.current := by
  obtain ⟨m, k', hm, hk', hcase⟩ := h.schedule fun _ => hcur
  refine ⟨k', hk', ?_⟩
  have hwm : WellOrdered m := h.schedulePrev hm
  obtain ⟨c, ho, -⟩ := schedulePrev_only hm
  have hlinked : m.Linked q := by
    obtain ⟨b, n, hqn⟩ := hq
    refine ⟨b, n, hwm.shape.mem_iff.mpr ?_⟩
    change (m.core q).runList = _
    rw [ho.rest hne, show m.rq.cpu = k.rq.cpu from congrArg Ptrs.cpu ho.ptrs]
    exact h.shape.mem_iff.mp hqn
  have hbm : Behind m k.current := by
    intro b l hhead
    rcases schedulePrev_queue hm with he | hn
    · rw [he] at hhead ⊢
      exact hb b l hhead
    · have hr := hwm.shape.mem_iff.mp (List.mem_of_mem_head? hhead)
      cases hn.symm.trans hr
  rcases hcase with ⟨hnone, -⟩ | ⟨⟨b, l, hpick, hhead⟩, -⟩
  · exact absurd hlinked (hnone q)
  · intro he
    rw [show k'.rq.curr = k.current from he, (swapArrays_switch m).queue] at hhead
    obtain ⟨x, n, hx, hlt⟩ := hbm b l hhead
    rw [← (swapArrays_switch m).queue] at hx
    have := pickQueue_first (hwm.switch (swapArrays_switch m)).shape.arrays hpick hx
    omega

end

/-- A task of `SCHED_OTHER` or `SCHED_SHORT` that yields while another task is on its array gives
way to a different task, and the yield itself moves only the task that called it. -/
theorem yield_gives_way (k : Kernel) (h : ClassesApart k) (a : ArrayIdx) (i j : ℤ) (q : TaskId)
    (hpol : (k.tasks k.current).policy = .other ∨ (k.tasks k.current).policy = .short)
    (hcur : k.current ∈ k.queue a i) (hq : q ∈ k.queue a j) (hne : q ≠ k.current) :
    ∃ m k', yieldMove k = some m ∧ sysSchedYield k = some k' ∧ k'.current ≠ k.current ∧
      (∀ p ≠ k.current, (m.tasks p).array = (k.tasks p).array ∧
        (m.tasks p).prio = (k.tasks p).prio) ∧
      (∀ b l, (m.queue b l).erase k.current = (k.queue b l).erase k.current) ∧
      ∀ b l, 0 ≤ l → l < maxPrio → ((m.rq.arrays b).bitmap l = true ↔ m.queue b l ≠ []) := by
  obtain ⟨m, hm⟩ := yieldMove_total (h.shape.here hcur) (by
    change (k.tasks k.current).array ≠ none
    rw [(h.shape.of_mem hcur).1]
    exact Option.some_ne_none a)
  obtain ⟨j', g, hplace, harr, hrest⟩ := yieldMove_place h.shape hcur hm
  have hy : Yielded k m a j' := hplace.yielded h.shape hcur harr hrest
  have hwm : ClassesApart m := h.yieldMove hcur hm hplace hy
  have hmc : m.current = k.current := by
    obtain ⟨-, b, l, -, -, -, -, ho⟩ := yieldMove_only hm
    exact ho.curr
  have hw : WellOrdered (recordSwitch .taskYields m) :=
    hwm.toWellOrdered.of_core (hwm.shape.recordSwitch _) rfl (fun _ => Or.inl rfl)
      fun _ => ⟨rfl, rfl⟩
  obtain ⟨k', hk', hgone⟩ := hw.schedule_other (q := q)
    (by
      change Behind m m.current
      rw [hmc]
      exact h.yield_behind hpol hcur hq hne hplace hy harr)
    (by
      change m.Linked m.current
      rw [hmc]
      exact ⟨a, j', (hy.mem _ _ _).mpr (Or.inr ⟨rfl, rfl, rfl⟩)⟩)
    ⟨a, j, (hy.mem _ _ _).mpr (Or.inl ⟨hne, hq⟩)⟩ (fun he => hne (he.trans hmc))
  refine ⟨m, k', hm, ?_, fun he => hgone (he.trans hmc.symm), fun p hp => ?_, hy.order,
    fun b l h0 h1 => ?_⟩
  · rw [sysSchedYield, hm]
    exact hk'
  · rw [hy.tasks p hp]
    exact ⟨rfl, rfl⟩
  · exact (hwm.shape.arrays b).marked l (Finset.mem_Ico.mpr ⟨h0, h1⟩)

/-- A SHORT task yields to its child, which is on `short_q` too. -/
theorem yield_gives_way_shortFork : ∃ k ∈ runFromBoot 512 (shortTicks 100 5 0 ++
      [.doFork 2 2 false false]), k.current = 1 ∧
    ∃ k', sysSchedYield k = some k' ∧ k'.current ≠ 1 := by
  obtain ⟨k, hk, hcur, hpol, h1, h2⟩ : ∃ k ∈ runFromBoot 512 (shortTicks 100 5 0 ++
      [.doFork 2 2 false false]), k.current = 1 ∧ (k.tasks k.current).policy = .short ∧
        k.current ∈ k.queue k.rq.shortQ 120 ∧ 2 ∈ k.queue k.rq.shortQ 120 := by
    decide +kernel
  have hs : Sound k := runFromBoot_sound (C := fun _ _ => True) (by decide +kernel) hk
  obtain ⟨m, k', -, hk', hne, -⟩ := yield_gives_way k hs.classesApart _ _ _ 2 (Or.inr hpol) h1 h2
    (by rw [hcur]; decide)
  exact ⟨k, hk, hcur, k', hk', hcur ▸ hne⟩

end ShortSched
