import ShortSched.System

/-! Where each scheduling class belongs. Every operation keeps linked overdue tasks on the
overdue array, SHORT tasks on the SHORT array, real-time tasks on the active array and other
tasks on the active or the expired array. -/
namespace ShortSched
open Relation

/-- The arrays on which a task of a class may be linked. -/
def Core.Belongs (ps : Ptrs) (c : Core) (a : ArrayIdx) : Prop :=
  match c.policy with
  | .other => a = ps.active ∨ a = ps.expired
  | .fifo | .rr => a = ps.active
  | .short => a = if c.isOverdue then ps.overdue else ps.shortQ

/-- The priorities of a class. -/
def Core.PrioOk (c : Core) : Prop :=
  match c.policy with
  | .other => 100 ≤ c.prio ∧ c.prio < 140
  | .fifo | .rr => 0 ≤ c.prio ∧ c.prio < 100
  | .short => if c.isOverdue then c.prio = 0 else 100 ≤ c.prio ∧ c.prio < 140

/-- A task with the priorities of its class that, when it is linked, is where its class
belongs. -/
structure Core.Placed (ps : Ptrs) (c : Core) : Prop where
  static : 100 ≤ c.staticPrio ∧ c.staticPrio < 140
  prio : c.PrioOk
  here : ∀ l ∈ c.runList, l.cpu = ps.cpu
  home : c.runList ≠ none → ∀ a ∈ c.array, c.Belongs ps a

/-- The idle task: linked like any other task until it parks itself. -/
structure Core.IdlePlaced (ps : Ptrs) (c : Core) : Prop where
  policy : c.policy = .other
  placed : c.Placed ps ∨ (100 ≤ c.staticPrio ∧ c.staticPrio < 140) ∧ 100 ≤ c.prio ∧
    c.runList = none ∧ c.array = none

section
variable {HZ : ℕ} {ps : Ptrs} {π : Guard} {c c' : Core} {a : ArrayIdx} {i : ℤ}

theorem Core.PrioOk.range (h : c.PrioOk) : 0 ≤ c.prio ∧ c.prio < 140 := by
  unfold Core.PrioOk at h
  cases hp : c.policy <;> simp only [hp] at h
  case short => split_ifs at h <;> omega
  all_goals omega

theorem Core.PrioOk.overdue (h : c.PrioOk) (ho : c.IsOverdue) : c.prio = 0 := by
  unfold Core.PrioOk at h
  simpa only [ho.1, ho.2, if_true] using h

theorem Core.PrioOk.short (h : c.PrioOk) (hs : c.IsShort) : 100 ≤ c.prio ∧ c.prio < 140 := by
  unfold Core.PrioOk at h
  simpa only [hs.1, hs.2, Bool.false_eq_true, if_false] using h

theorem Core.PrioOk.other (h : c.PrioOk) (hc : c.policy = .other) :
    100 ≤ c.prio ∧ c.prio < 140 := by
  unfold Core.PrioOk at h
  simpa only [hc] using h

theorem Core.PrioOk.realTime (h : c.PrioOk) (hc : c.policy = .fifo ∨ c.policy = .rr) :
    0 ≤ c.prio ∧ c.prio < 100 := by
  unfold Core.PrioOk at h
  rcases hc with hc | hc
  · simpa only [hc] using h
  · simpa only [hc] using h

/-- A priority that only moved within the range of `SCHED_OTHER` suits any class that is
neither real-time nor overdue. -/
theorem Core.PrioOk.moved {d : Core} (h : c.PrioOk) (hp : d.policy = c.policy)
    (ho : d.isOverdue = c.isOverdue)
    (hi : d.prio = c.prio ∨ 100 ≤ c.prio ∧ 100 ≤ d.prio ∧ d.prio < 140) : d.PrioOk := by
  unfold Core.PrioOk at h ⊢
  rw [hp, ho]
  cases hq : c.policy <;> simp only [hq] at h ⊢
  case short => split_ifs at h ⊢ <;> omega
  all_goals omega

theorem Core.wakeArray_belongs (ps : Ptrs) (c : Core) : c.Belongs ps (c.wakeArray ps) := by
  unfold Core.Belongs Core.wakeArray
  cases c.policy <;> simp

/-- A placed task goes to a queue where it belongs. -/
theorem Core.Placed.on (h : c.Placed ps) (hb : c.Belongs ps a)
    (hi : i = c.prio ∨ 100 ≤ c.prio ∧ 100 ≤ i ∧ i < 140) : (c.on ps a i).Placed ps where
  static := h.static
  prio := h.prio.moved (d := c.on ps a i) rfl rfl hi
  here l hl := by
    cases hl
    rfl
  home _ b hb' := by
    cases hb'
    exact hb

/-- Changes that leave class, priorities and links alone. -/
theorem Core.Placed.congr (h : c.Placed ps) (hp : c'.policy = c.policy)
    (ho : c'.isOverdue = c.isOverdue) (hprio : c'.prio = c.prio)
    (hs : c'.staticPrio = c.staticPrio) (hl : c'.runList = c.runList)
    (ha : c'.array = c.array) : c'.Placed ps where
  static := by rw [hs]; exact h.static
  prio := h.prio.moved hp ho (Or.inl hprio)
  here := by rw [hl]; exact h.here
  home := by
    unfold Core.Belongs
    rw [hl, ha, hp, ho]
    exact h.home

/-- A task that is on no list is placed as soon as its priorities are right. -/
theorem Core.Placed.free (hs : 100 ≤ c.staticPrio ∧ c.staticPrio < 140) (hp : c.PrioOk)
    (hl : c.runList = none) : c.Placed ps where
  static := hs
  prio := hp
  here l h := by simp [hl] at h
  home h := absurd hl h

theorem TickStep.placed (h : TickStep HZ ps c c') (hc : c.Placed ps) : c'.Placed ps := by
  cases h with
  | skip => exact hc
  | down => exact hc.congr rfl rfl rfl rfl rfl rfl
  | trial hs =>
    refine Core.Placed.on (hc.congr rfl rfl rfl rfl rfl rfl) ?_ (Or.inl rfl)
    simp only [Core.Belongs, hs.1, hs.2, Bool.false_eq_true, if_false]
  | overdue hs =>
    refine ⟨hc.static, ?_, fun l hl => ?_, fun _ a ha => ?_⟩
    · simp [Core.PrioOk, Core.on, hs.1]
    · cases hl
      rfl
    · cases ha
      simp only [Core.Belongs, Core.on, hs.1, if_true]
  | rrSlice hp =>
    refine Core.Placed.on (hc.congr rfl rfl rfl rfl rfl rfl) ?_ (Or.inl rfl)
    simp only [Core.Belongs, hp]
  | otherSlice a i hp h100 ht hl ha hi =>
    refine Core.Placed.on (hc.congr rfl rfl rfl rfl rfl rfl) ?_ (Or.inr ⟨h100, hi.1, hi.2.1⟩)
    have hprio := hc.prio
    unfold Core.PrioOk at hprio
    cases hq : c.policy <;> simp only [hq] at hprio hp
    case other => simpa only [Core.Belongs, hq] using ha
    case short => exact absurd rfl hp
    all_goals omega

theorem Core.Placed.forking (hc : c.Placed ps) (n : ℕ) : (c.forking.withSlice n).Placed ps := by
  unfold Core.forking
  split_ifs
  · exact hc.congr rfl rfl rfl rfl rfl rfl
  · exact hc.congr rfl rfl rfl rfl rfl rfl

theorem ShareStep.placed (h : ShareStep HZ ps π c c') (hc : c.Placed ps) : c'.Placed ps := by
  cases h with
  | fork => exact hc.forking _
  | forkTick _ _ _ _ hstep => exact hstep.placed (hc.forking 1)
  | reap => exact hc.congr rfl rfl rfl rfl rfl rfl
  | orphan => exact hc.congr rfl rfl rfl rfl rfl rfl

theorem TaskStep.placed (h : TaskStep HZ ps π c c') (hc : c.Placed ps) : c'.Placed ps := by
  cases h with
  | tick h => exact h.placed hc
  | share h => exact h.placed hc
  | state => exact hc.congr rfl rfl rfl rfl rfl rfl
  | activate i hl hi =>
    exact hc.on (c.wakeArray_belongs ps) (hi.imp_right fun h => ⟨h.1, h.2.1, h.2.2.1⟩)
  | deactivate => exact .free hc.static (hc.prio.moved rfl rfl (Or.inl rfl)) rfl
  | recompute i hp hl hi =>
    exact .free hc.static (hc.prio.moved (d := c.withPrio i) rfl rfl
      (Or.inr ⟨hp, hi.1, hi.2.1⟩)) hl
  | yield a i hl ha hr hi =>
    refine hc.on (hc.home hl a ha) (hi.imp_right fun h => ?_)
    by_cases h100 : c.prio < 100
    · exact absurd (hr h100) (by omega)
    · omega
  | nice s h hs hp =>
    exact ⟨hs, hc.prio.moved rfl rfl (Or.inl rfl), hc.here, hc.home⟩
  | niceOff s h hs hp ha =>
    refine ⟨hs, hc.prio.moved rfl rfl (Or.inr ⟨hp, hs⟩), hc.here, fun hl b hb => ?_⟩
    exact absurd (hb.symm.trans ha) (by simp)
  | niceOn a s h hs hp hl ha =>
    exact Core.Placed.on ⟨hs, hc.prio.moved rfl rfl (Or.inl rfl), hc.here, hc.home⟩
      (hc.home hl a ha) (Or.inr ⟨hp, hs⟩)
  | enter r n hp ha hg =>
    have hs := hc.static
    refine ⟨hs, by simpa [Core.PrioOk] using hs, hc.here, fun _ b hb => ?_⟩
    cases hb
    simp [Core.Belongs]
  | update r hs hg => exact hc.congr rfl rfl rfl rfl rfl rfl
  | setPolicy q i ho hq ha hr hoth =>
    refine ⟨hc.static, ?_, hc.here, fun _ b hb => absurd (hb.symm.trans ha) (by simp)⟩
    have hs := hc.static
    cases q with
    | other =>
      have := hoth rfl
      simp only [Core.PrioOk]
      omega
    | fifo => exact hr (Or.inl rfl)
    | rr => exact hr (Or.inr rfl)
    | short => exact absurd rfl hq

/-- A child starts on no list, with a priority of its class. -/
theorem Core.Placed.forked (hc : c.Placed ps) (hi : c.Fresh i) :
    (c.forked.withPrio i).Placed ps := by
  refine .free hc.static (hc.prio.moved (d := c.forked.withPrio i) rfl rfl ?_) rfl
  rcases hi with ⟨-, rfl⟩ | ⟨h100, hi⟩
  · exact Or.inl rfl
  · exact Or.inr ⟨h100, hi.1, hi.2.1⟩

theorem Core.IdlePlaced.forked (hc : c.IdlePlaced ps) (hi : c.Fresh i) :
    (c.forked.withPrio i).Placed ps := by
  rcases hc.placed with hp | ⟨hs, h100, -, -⟩
  · exact hp.forked hi
  · have hr : 100 ≤ i ∧ i < 140 := by
      rcases hi with ⟨hlt, -⟩ | ⟨-, hi⟩
      · omega
      · exact ⟨hi.1, hi.2.1⟩
    refine .free hs ?_ rfl
    have : (c.forked.withPrio i).policy = .other := hc.policy
    simp only [Core.PrioOk, this]
    exact hr

/-- Once it is parked the idle task is only charged for ticks and forks. -/
theorem TickStep.parked (h : TickStep HZ ps c c') (hl : c.runList = none) :
    c'.staticPrio = c.staticPrio ∧ c'.prio = c.prio ∧ c'.runList = none ∧
      c'.array = c.array := by
  cases h with
  | skip => exact ⟨rfl, rfl, hl, rfl⟩
  | down => exact ⟨rfl, rfl, hl, rfl⟩
  | trial _ _ hn => exact absurd hl hn
  | overdue _ _ hn => exact absurd hl hn
  | rrSlice _ _ hn => exact absurd hl hn
  | otherSlice _ _ _ _ _ hn => exact absurd hl hn

theorem Core.forking_parked (c : Core) (n : ℕ) :
    (c.forking.withSlice n).staticPrio = c.staticPrio ∧ (c.forking.withSlice n).prio = c.prio ∧
      (c.forking.withSlice n).runList = c.runList ∧
        (c.forking.withSlice n).array = c.array := by
  unfold Core.forking
  split_ifs <;> exact ⟨rfl, rfl, rfl, rfl⟩

theorem ShareStep.parked (h : ShareStep HZ ps π c c') (hl : c.runList = none) :
    c'.staticPrio = c.staticPrio ∧ c'.prio = c.prio ∧ c'.runList = none ∧
      c'.array = c.array := by
  cases h with
  | fork =>
    obtain ⟨h1, h2, h3, h4⟩ := c.forking_parked (c.timeSlice / 2)
    exact ⟨h1, h2, h3.trans hl, h4⟩
  | forkTick _ _ _ _ hstep =>
    obtain ⟨h1, h2, h3, h4⟩ := c.forking_parked 1
    obtain ⟨h1', h2', h3', h4'⟩ := hstep.parked (h3.trans hl)
    exact ⟨h1'.trans h1, h2'.trans h2, h3', h4'.trans h4⟩
  | reap => exact ⟨rfl, rfl, hl, rfl⟩
  | orphan => exact ⟨rfl, rfl, hl, rfl⟩

theorem IdleStep.placed (h : IdleStep HZ ps π c c') (hc : c.IdlePlaced ps) :
    c'.IdlePlaced ps := by
  refine ⟨h.policy.trans hc.policy, ?_⟩
  have hpol := hc.policy
  rcases hc.placed with hp | ⟨hs, h100, hl, ha⟩
  · have h100 : 100 ≤ c.prio := by
      have := hp.prio
      simp only [Core.PrioOk, hpol] at this
      exact this.1
    cases h with
    | tick h => exact Or.inl (h.placed hp)
    | share h => exact Or.inl (h.placed hp)
    | running => exact Or.inl (hp.congr rfl rfl rfl rfl rfl rfl)
    | deactivate => exact Or.inr ⟨hp.static, h100, rfl, rfl⟩
    | park => exact Or.inr ⟨hp.static, show 100 ≤ 140 by decide, rfl, rfl⟩
  · right
    cases h with
    | tick h =>
      obtain ⟨h1, h2, h3, h4⟩ := h.parked hl
      exact ⟨h1 ▸ hs, h2 ▸ h100, h3, h4.trans ha⟩
    | share h =>
      obtain ⟨h1, h2, h3, h4⟩ := h.parked hl
      exact ⟨h1 ▸ hs, h2 ▸ h100, h3, h4.trans ha⟩
    | running => exact ⟨hs, h100, hl, ha⟩
    | deactivate hn => exact absurd hl hn
    | park hn => exact absurd hl hn

end
end ShortSched
