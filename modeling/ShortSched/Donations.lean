import ShortSched.Lib.Ledger
import ShortSched.Lib.Monitor
import ShortSched.Slices

/-! The ticks that a parent gives to its child at a fork, and what comes back when it reaps
the child. -/
namespace ShortSched
open Relation PartialRun Ledger

/-- A child born with some ticks, and a task reaped. -/
inductive SliceEvent where
  | gave (parent child : TaskId) (ticks : ℕ)
  /-- `onFirst` when reaper and child still run on the slices that they were born with. -/
  | reaped (reaper child : TaskId) (onFirst : Bool) (growth : ℕ)
  deriving DecidableEq, Repr

def sliceEvents (op : Op) (k k' : Kernel) : List SliceEvent :=
  match op with
  | .doFork child _ _ _ => [.gave k.current child (k'.tasks child).timeSlice]
  | .releaseTask p =>
      [.reaped k.current p ((k.tasks k.current).firstTimeSlice && (k.tasks p).firstTimeSlice)
        ((k'.tasks k.current).timeSlice - (k.tasks k.current).timeSlice)]
  | _ => []

@[irreducible] def sliceTrace (HZ : ℕ) (ops : List Op) : List SliceEvent :=
  (schedInit HZ).elim [] (trace (exec HZ) sliceEvents ops)

/-- The gifts to children that are not reaped yet. -/
abbrev Gifts := List (Gift TaskId)

def Gifts.next (l : Gifts) : SliceEvent → Gifts
  | .gave parent child ticks => ⟨parent, child, ticks⟩ :: forget child l
  | .reaped _ child _ _ => close child l

/-- When a parent reaps a child that it has forked, its slice grows by no more than it gave. -/
def Gifts.Repaid (l : Gifts) : SliceEvent → Prop
  | .gave _ _ _ => True
  | .reaped reaper child _ growth =>
      ∀ g ∈ l, g.donor = reaper → g.child = child → growth ≤ g.amount

/-- A task on its first slice that reaps a child on its first slice has forked it itself. -/
def Gifts.OwnChild (l : Gifts) : SliceEvent → Prop
  | .gave _ _ _ => True
  | .reaped reaper child onFirst _ => onFirst = true → ∃ g ∈ l, g.child = child ∧ g.donor = reaper

instance (l : Gifts) : (e : SliceEvent) → Decidable (l.Repaid e)
  | .gave _ _ _ => isTrue trivial
  | .reaped reaper child _ growth => inferInstanceAs (Decidable
      (∀ g ∈ l, g.donor = reaper → g.child = child → growth ≤ g.amount))

instance (l : Gifts) : (e : SliceEvent) → Decidable (l.OwnChild e)
  | .gave _ _ _ => isTrue trivial
  | .reaped reaper child onFirst _ => inferInstanceAs (Decidable
      (onFirst = true → ∃ g ∈ l, g.child = child ∧ g.donor = reaper))

/-- The tick that a fork makes up for really ends the slice of the task. -/
def Core.Charged (ps : Ptrs) (c : Core) : Prop :=
  c.IsShort ∨ c.policy ≠ .short ∧ c.array = some ps.active ∧ (c.policy = .rr ∨ 100 ≤ c.prio)

instance (ps : Ptrs) (c : Core) : Decidable (c.Charged ps) :=
  inferInstanceAs (Decidable (_ ∨ _ ∧ _ ∧ _))

/-- No slice is generated: a fork that leaves a task on its first slice without a tick is
charged to it, and a task that becomes SHORT on its first slice gets no more than it had. -/
def KeepsGifts (k : Kernel) (op : Op) : Prop :=
  (op.child ≠ none → (k.tasks k.current).timeSlice + 1 < 4294967296 ∧
    ((k.tasks k.current).firstTimeSlice = true → (k.tasks k.current).timeSlice = 1 →
      k.current ≠ k.rq.idle ∧ (k.core k.current).Charged k.ptrs)) ∧
  ∀ acc ∈ op.accepted k, (k.tasks acc.target).policy = .other → acc.policy = .short →
    (k.tasks acc.target).firstTimeSlice = true →
      1 ≤ shortTimeslice 512 (acc.user.deref .requestedTimeStore) 0 ∧
        shortTimeslice 512 (acc.user.deref .requestedTimeStore) 0 ≤
          (k.tasks acc.target).timeSlice

instance (k : Kernel) (op : Op) : Decidable (KeepsGifts k op) :=
  inferInstanceAs (Decidable (_ ∧ ∀ acc ∈ op.accepted k, _))

/-- A task that stays on its first slice only uses it up, and not wholly. -/
def Core.Spends (c c' : Core) : Prop :=
  c'.firstTimeSlice = true → c.firstTimeSlice = true ∧
    (1 ≤ c.timeSlice → 1 ≤ c'.timeSlice ∧ c'.timeSlice ≤ c.timeSlice)

def giftGuard : Guard := { Guard.free with
  enter := fun c requestedTime _ => c.firstTimeSlice = true →
    1 ≤ shortTimeslice 512 requestedTime 0 ∧ shortTimeslice 512 requestedTime 0 ≤ c.timeSlice
  reap := fun _ _ => False }

section
variable {ps : Ptrs} {c d e : Core} {k k' : Kernel} {op : Op} {p q : TaskId} {l : Gifts}

theorem Core.Spends.refl (c : Core) : c.Spends c := fun h => ⟨h, fun h1 => ⟨h1, le_rfl⟩⟩

theorem Core.Spends.trans (h : c.Spends d) (h' : d.Spends e) : c.Spends e := by
  intro he
  obtain ⟨hd, h2⟩ := h' he
  obtain ⟨hc, h1⟩ := h hd
  refine ⟨hc, fun hpos => ?_⟩
  obtain ⟨h3, h4⟩ := h1 hpos
  obtain ⟨h5, h6⟩ := h2 h3
  exact ⟨h5, h6.trans h4⟩

theorem Core.Spends.of_same (hf : d.firstTimeSlice = c.firstTimeSlice)
    (ht : d.timeSlice = c.timeSlice) : c.Spends d := by
  intro h
  refine ⟨hf ▸ h, fun h1 => ?_⟩
  rw [ht]
  exact ⟨h1, le_rfl⟩

theorem Core.Spends.of_refilled (hf : d.firstTimeSlice = false) : c.Spends d := by
  intro h
  cases hf.symm.trans h

theorem u32_pred_le {n : ℕ} (hn : 1 ≤ n) : u32 (n - 1) ≤ n := by
  unfold u32
  omega

theorem TickStep.spends (h : TickStep 512 ps c d) : c.Spends d := by
  cases h with
  | skip => exact .refl c
  | down _ ht =>
    intro hf
    exact ⟨hf, fun h1 => ⟨Nat.one_le_iff_ne_zero.mpr ht, u32_pred_le h1⟩⟩
  | _ => exact .of_refilled rfl

theorem Core.forking_slices (c : Core) : c.forking.firstTimeSlice = c.firstTimeSlice ∧
    c.forking.timeSlice = c.timeSlice := by
  unfold Core.forking
  split_ifs <;> exact ⟨rfl, rfl⟩

theorem ShareStep.spends (h : ShareStep 512 ps giftGuard c d) : c.Spends d := by
  obtain ⟨hf, -⟩ := c.forking_slices
  cases h with
  | fork _ ht =>
    intro h
    refine ⟨hf ▸ h, fun h1 => ?_⟩
    simp only [Core.withSlice]
    omega
  | forkTick _ _ ht h0 hstep =>
    have h1 : c.Spends (c.forking.withSlice 1) := by
      intro h
      exact ⟨hf ▸ h, fun h1 => ⟨le_rfl, h1⟩⟩
    exact h1.trans hstep.spends
  | reap child hg => exact hg.elim
  | orphan => exact .of_refilled rfl

theorem TaskStep.spends (h : TaskStep 512 ps giftGuard c d) : c.Spends d := by
  cases h with
  | tick h => exact h.spends
  | share h => exact h.spends
  | enter r n hp ha hg =>
    intro hf
    exact ⟨hf, fun _ => hg hf⟩
  | _ => exact .of_same rfl rfl

theorem IdleStep.spends (h : IdleStep 512 ps giftGuard c d) : c.Spends d := by
  cases h with
  | tick h => exact h.spends
  | share h => exact h.spends
  | _ => exact .of_same rfl rfl

theorem spends_of_steps {r : Core → Core → Prop} (hr : ∀ c d, r c d → c.Spends d)
    (h : ReflTransGen r c d) : c.Spends d := by
  induction h with
  | refl => exact .refl c
  | tail _ hs ih => exact ih.trans (hr _ _ hs)

/-- An operation that forks no task spends slices. -/
theorem Effect.spends (h : Effect 512 giftGuard op k k') (hc : op.child = none) (q : TaskId) :
    (k.core q).Spends (k'.core q) := by
  by_cases hq : q = k.rq.idle
  · rw [hq]
    exact spends_of_steps (fun _ _ => IdleStep.spends) h.idleTask
  · exact spends_of_steps (fun _ _ => TaskStep.spends) (h.tasks q hq (by simp [hc]))

theorem KeepsGifts.permits (h : KeepsGifts k op) (hr : op.released = none) :
    Permits giftGuard k op :=
  { Permits.free k op with
    reap := fun p hp => by simp [hr] at hp
    enter := fun acc ha ht hs => by
      obtain ⟨hf, hts⟩ := (k.core acc.target).left_slices
      intro hfirst
      rw [hf] at hfirst
      have h1 := h.2 acc ha ht hs hfirst
      exact ⟨h1.1, hts ▸ h1.2⟩ }

/-! A tick that is charged to a task with one tick left ends its first slice. -/

theorem tickShort_last (h : tickShort 512 p k = some k') (hs : (k.core p).IsShort)
    (ht : u32 ((k.core p).timeSlice - 1) = 0) : (k'.core p).firstTimeSlice = false := by
  obtain ⟨c, hc, ho⟩ := tickShort_step h hs
  rw [ho.self]
  cases hc with
  | skip hn => exact absurd hs hn
  | down _ h0 => exact absurd ht h0
  | _ => rfl

theorem tickRt_last (h : tickRt 512 p k = some k') (hr : (k.core p).policy = .rr)
    (ht : u32 ((k.core p).timeSlice - 1) = 0) : (k'.core p).firstTimeSlice = false := by
  cases tickRt_cases h with
  | fifo hn => exact absurd hr hn
  | goesOn _ h0 => exact absurd ht h0
  | newSlice m _ _ hdown hup =>
    have h1 := (((Only.refl k p).countDown.mod (g := fun c =>
      { c with timeSlice := taskTimeslice 512 c.staticPrio, firstTimeSlice := false })
      fun _ => rfl).quiet (reschedTask_quiet p)).dequeue hdown
    rw [(h1.2.enqueue hup).2.self]
    rfl

theorem tickOther_last (h : tickOther 512 p k = some k')
    (ht : u32 ((k.core p).timeSlice - 1) = 0) : (k'.core p).firstTimeSlice = false := by
  have hq : Quiet k (k.mod p fun t => { t with sleepAvg := t.sleepAvg - 1 }) :=
    mod_quiet fun _ => rfl
  have h1 := (hq.only_self p).countDown
  cases tickOther_cases h with
  | goesOn h0 => exact absurd ht h0
  | expires m _ hdown hup =>
    obtain ⟨i, -, h2⟩ := ((h1.dequeue hdown).2.quiet (reschedTask_quiet p)).newSlice 512
    rw [((h2.quiet (stampExpired_quiet _)).enqueue hup).2.self]
    rfl
  | stays m _ hdown hup =>
    obtain ⟨i, -, h2⟩ := ((h1.dequeue hdown).2.quiet (reschedTask_quiet p)).newSlice 512
    rw [(h2.enqueue hup).2.self]
    rfl

theorem schedulerTick_last (h : schedulerTick 512 k = some k') (hi : k.current ≠ k.rq.idle)
    (hc : (k.core k.current).Charged k.ptrs) (ht : u32 ((k.core k.current).timeSlice - 1) = 0) :
    (k'.core k.current).firstTimeSlice = false := by
  simp only [schedulerTick, if_neg hi] at h
  rcases hc with hs | ⟨hs, ha, hp⟩
  · rw [if_pos (show (k.tasks k.current).policy = .short from hs.1),
      if_pos (show (k.tasks k.current).isOverdue = false from hs.2)] at h
    exact tickShort_last h hs ht
  · rw [if_neg (show (k.tasks k.current).policy ≠ .short from hs),
      if_neg (not_not.mpr (show (k.tasks k.current).array = some k.rq.active from ha))] at h
    split_ifs at h with hr
    · rcases hp with hp | hp
      · exact tickRt_last h hp ht
      · exact absurd hr (not_lt.mpr hp)
    · exact tickOther_last h ht

/-! A fork shares the slice of the parent. -/

/-- No task's slice changed. -/
def KeepSlices (k k' : Kernel) : Prop := ∀ q,
  (k'.core q).firstTimeSlice = (k.core q).firstTimeSlice ∧
    (k'.core q).timeSlice = (k.core q).timeSlice

theorem KeepSlices.trans {k'' : Kernel} (h : KeepSlices k k') (h' : KeepSlices k' k'') :
    KeepSlices k k'' := by
  intro q
  exact ⟨(h' q).1.trans (h q).1, (h' q).2.trans (h q).2⟩

theorem Quiet.keepSlices (h : Quiet k k') : KeepSlices k k' := by
  intro q
  rw [h.core]
  exact ⟨rfl, rfl⟩

theorem Only.keepSlices (h : Only p c k k') (hf : c.firstTimeSlice = (k.core p).firstTimeSlice)
    (ht : c.timeSlice = (k.core p).timeSlice) : KeepSlices k k' := by
  intro q
  by_cases hq : q = p
  · rw [hq, h.self]
    exact ⟨hf, ht⟩
  · rw [h.rest hq]
    exact ⟨rfl, rfl⟩

theorem requeueParent_keepSlices (h : requeueParent 512 p k = some k') : KeepSlices k k' := by
  obtain ⟨-, m, hm, -, h⟩ | ⟨-, rfl⟩ := requeueParent_cases h
  · have h1 : KeepSlices k m := (deactivateTask_only hm).2.keepSlices rfl rfl
    obtain ⟨-, i, -, h2⟩ := activateTask_only h
    exact h1.trans (h2.keepSlices rfl rfl)
  · exact (Quiet.refl k').keepSlices

theorem wakeUpForkedProcess_keepSlices (h : wakeUpForkedProcess 512 p k = some k') :
    KeepSlices k k' := by
  obtain ⟨l, m, n, i, h1, h2, -, h3, h4⟩ := wakeUpForkedProcess_only h
  obtain ⟨-, j, -, h5⟩ := activateTask_only h4
  exact (((h1.keepSlices rfl rfl).trans (requeueParent_keepSlices h2)).trans
    (h3.keepSlices rfl rfl)).trans (h5.keepSlices rfl rfl)

theorem Core.Charged.forking (h : c.Charged ps) (n : ℕ) :
    (c.forking.withSlice n).Charged ps := by
  unfold Core.forking
  split_ifs <;> exact h

/-- The slice of the parent after `forkTick`: half of what it was, or its first slice is over. -/
theorem forkTick_slices {m n : Kernel}
    (hm : Both p q (c.forking.withSlice (c.timeSlice / 2)) d k m) (hp : k.current = p)
    (hc : c.timeSlice / 2 = 0 → k.current ≠ k.rq.idle ∧ c.Charged k.ptrs)
    (h : forkTick 512 m = some n) (hf : (n.core p).firstTimeSlice = true) :
    n = m ∧ c.timeSlice / 2 ≠ 0 := by
  have hcur : m.current = p := hm.curr.trans hp
  have hts : (m.tasks p).timeSlice = c.timeSlice / 2 := congrArg Core.timeSlice hm.left
  have hcases := forkTick_cases h
  rw [hcur, hts] at hcases
  obtain ⟨h2, h⟩ | ⟨h2, rfl⟩ := hcases
  · obtain ⟨hi, hch⟩ := hc h2
    have h1 : Only p (c.forking.withSlice 1) m (m.mod p fun t => { t with timeSlice := 1 }) :=
      mod_only (congrArg (Core.withSlice 1) hm.left)
    have hcur' : (m.mod p fun t => { t with timeSlice := 1 }).current = p := hcur
    have hidle : m.rq.idle = k.rq.idle := hm.idle
    have hlast := schedulerTick_last h (by rw [hcur', Kernel.mod_rq, hidle, ← hp]; exact hi)
      (by rw [hcur', h1.self, h1.ptrs, hm.ptrs]; exact hch.forking 1)
      (by rw [hcur', h1.self]; rfl)
    rw [hcur', hf] at hlast
    cases hlast
  · exact ⟨rfl, h2⟩

theorem doFork_keepSlices {child : TaskId} {pid : ℤ} {vfork cloneParent : Bool}
    (h : doFork 512 child pid vfork cloneParent k = some k') :
    (k.core k.current).timeSlice ≠ 0 ∧
      ∃ m, forkTick 512 (forkSplit child (forkCopy child pid k)) = some m ∧ KeepSlices m k' := by
  obtain ⟨h0, m, n, hm, hn, rfl⟩ := doFork_eq_some.mp h
  have hl : KeepSlices m (linkChild child cloneParent m) := by
    intro q
    rw [linkChild_core]
    exact ⟨rfl, rfl⟩
  have hq : Quiet n (if vfork then n else
      reschedTask n.current (recordSwitch .taskCreated n)) := by
    split_ifs
    · exact Quiet.refl n
    · exact (recordSwitch_quiet _).trans (reschedTask_quiet _)
  exact ⟨h0, m, hm, (hl.trans (wakeUpForkedProcess_keepSlices hn)).trans hq.keepSlices⟩

/-- A child gets half of the slice, and a parent that stays on its first slice keeps the rest. -/
theorem doFork_slices {child : TaskId} {pid : ℤ} {vfork cloneParent : Bool} (hi : IdleOk k)
    (h : doFork 512 child pid vfork cloneParent k = some k')
    (he : Enabled k (.doFork child pid vfork cloneParent))
    (hk : KeepsGifts k (.doFork child pid vfork cloneParent)) :
    1 ≤ (k'.core child).timeSlice ∧ (k'.core child).timeSlice < 2147483648 ∧
      ((k'.core k.current).firstTimeSlice = true → (k.core k.current).firstTimeSlice = true ∧
        1 ≤ (k'.core k.current).timeSlice ∧ (k'.core k.current).timeSlice +
          (k'.core child).timeSlice ≤ (k.core k.current).timeSlice) := by
  obtain ⟨hfresh, hidle, hcur, -⟩ := he
  obtain ⟨hts, hcharge⟩ := hk.1 (by simp [Op.child])
  change (k.core k.current).timeSlice + 1 < 4294967296 at hts
  obtain ⟨h0, m, hm, hkeep⟩ := doFork_keepSlices h
  have hb := forkSplit_both pid hcur.symm
  obtain ⟨c, hshare, hb'⟩ := forkTick_forked (π := giftGuard) hcur.symm hidle.symm hi.not_short h0
    (fun _ => trivial) (fun _ => trivial) hm
  have hborn : (k'.core child).timeSlice = u32 ((k.core k.current).timeSlice + 1) / 2 := by
    rw [(hkeep child).2, hb'.right]
    rfl
  rw [u32_of_range (by omega) (by exact_mod_cast hts)] at hborn
  refine ⟨by omega, by omega, fun hf => ?_⟩
  rw [(hkeep _).1] at hf
  have hfirst : (k.core k.current).firstTimeSlice = true := by
    rw [hb'.left] at hf
    exact (hshare.spends hf).1
  obtain ⟨rfl, h2⟩ := forkTick_slices hb rfl (fun h2 => hcharge hfirst (by
    change (k.core k.current).timeSlice = 1
    omega)) hm hf
  have hparent : (k'.core k.current).timeSlice = (k.core k.current).timeSlice / 2 := by
    rw [(hkeep _).2, hb.left]
    rfl
  exact ⟨hfirst, by omega, by omega⟩

/-! Runs. -/

/-- What a task on its first slice has, and has given to children that are on theirs, is covered
by the gift that it was born with. -/
structure GiftsOk (k : Kernel) (l : Gifts) : Prop where
  idle : IdleOk k
  solvent : Solvent (fun p => (k.core p).firstTimeSlice) (fun p => (k.core p).timeSlice) l
  positive : ∀ g ∈ l, (k.core g.child).firstTimeSlice = true → 1 ≤ (k.core g.child).timeSlice
  small : ∀ g ∈ l, g.amount < 2147483648

theorem GiftsOk.spend (hk : GiftsOk k l) (hi : IdleOk k')
    (h : ∀ q, (k.core q).Spends (k'.core q)) : GiftsOk k' l where
  idle := hi
  solvent := by
    apply hk.solvent.spend
    intro g hg ho
    obtain ⟨h1, h2⟩ := h g.child ho
    exact ⟨h1, (h2 (hk.positive g hg h1)).2⟩
  positive g hg ho := by
    obtain ⟨h1, h2⟩ := h g.child ho
    exact (h2 (hk.positive g hg h1)).1
  small := hk.small

theorem GiftsOk.fork {child : TaskId} {pid : ℤ} {vfork cloneParent : Bool} (hk : GiftsOk k l)
    (hi : IdleOk k') (he : Enabled k (.doFork child pid vfork cloneParent))
    (hc : KeepsGifts k (.doFork child pid vfork cloneParent))
    (h : doFork 512 child pid vfork cloneParent k = some k') :
    GiftsOk k' (⟨k.current, child, (k'.core child).timeSlice⟩ :: forget child l) := by
  obtain ⟨h1, h2, h3⟩ := doFork_slices hk.idle h he hc
  obtain ⟨-, hidle, hcur, -⟩ := he
  have hf := doFork_forked (π := giftGuard) h hcur.symm hidle.symm hk.idle.not_short
    (fun _ => trivial)
    fun _ => trivial
  constructor
  · exact hi
  · apply hk.solvent.give hcur.symm (q := child) le_rfl ⟨rfl, rfl⟩
    · intro ho
      obtain ⟨h4, -, h5⟩ := h3 ho
      exact ⟨h4, h5⟩
    · intro r hp hq ho
      rw [hf.rest r hp hq] at ho ⊢
      exact ⟨ho, le_rfl⟩
  · intro g hg ho
    rcases List.mem_cons.mp hg with rfl | hg
    · exact h1
    · obtain ⟨hg, -, hne⟩ := mem_forget.mp hg
      by_cases hp : g.child = k.current
      · rw [hp] at ho ⊢
        exact (h3 ho).2.1
      · rw [hf.rest _ hp hne] at ho ⊢
        exact hk.positive g hg ho
  · intro g hg
    rcases List.mem_cons.mp hg with rfl | hg
    · exact h2
    · exact hk.small g (mem_forget.mp hg).1

theorem reapedSlice_le (n m : ℕ) : reapedSlice 512 n m ≤ n + m := by
  have h : u32 (n + m) ≤ n + m := by
    unfold u32
    omega
  have h' : maxTimeslice 512 = 153 := by decide
  have h'' : u32 153 = 153 := by decide
  simp only [reapedSlice, h', h'']
  split_ifs <;> omega

theorem one_le_reapedSlice {n m : ℕ} (hn : 1 ≤ n) (h : n + m < 4294967296) :
    1 ≤ reapedSlice 512 n m := by
  have hu : u32 (n + m) = n + m := by
    rw [u32_of_range (by omega) (by exact_mod_cast h)]
    omega
  have h' : u32 (maxTimeslice 512) = 153 := by decide
  simp only [reapedSlice, hu, h']
  split_ifs <;> omega

/-- What reaping does to the slice of the running task, and to no other. -/
theorem releaseTask_slices (p : TaskId) (k : Kernel) :
    (∀ q ≠ k.current, (releaseTask 512 p k).core q = k.core q) ∧
      ((releaseTask 512 p k).core k.current).firstTimeSlice =
        (k.core k.current).firstTimeSlice ∧
      ((releaseTask 512 p k).core k.current).timeSlice =
        if (k.core p).firstTimeSlice then
          reapedSlice 512 (k.core k.current).timeSlice (k.core p).timeSlice
        else (k.core k.current).timeSlice := by
  have hq : Quiet (schedExit 512 p { k with pidhash := k.pidhash.erase p }) (releaseTask 512 p k) :=
    mod_quiet (f := fun t => { t with pid := 0 }) fun _ => rfl
  have hw := weighSleep_quiet p (returnSlice 512 p { k with pidhash := k.pidhash.erase p })
  have hcore : (releaseTask 512 p k).core =
      (returnSlice 512 p { k with pidhash := k.pidhash.erase p }).core := hq.core.trans hw.core
  rw [hcore]
  unfold returnSlice
  have hfp : (k.tasks p).firstTimeSlice = (k.core p).firstTimeSlice := rfl
  dsimp only
  rw [hfp]
  split_ifs
  · have h1 : Only k.current ((k.core k.current).withSlice
        (reapedSlice 512 (k.core k.current).timeSlice (k.core p).timeSlice))
        { k with pidhash := k.pidhash.erase p } _ :=
      mod_only (f := fun t => { t with
        timeSlice := reapedSlice 512 t.timeSlice (k.tasks p).timeSlice }) rfl
    have hf := congrArg Core.firstTimeSlice h1.self
    have ht := congrArg Core.timeSlice h1.self
    exact ⟨fun q hq => h1.rest hq, hf, ht⟩
  · exact ⟨fun _ _ => rfl, rfl, rfl⟩

theorem GiftsOk.reap (hk : GiftsOk k l) (hi : IdleOk (releaseTask 512 p k))
    (hown : (k.core k.current).firstTimeSlice = true → (k.core p).firstTimeSlice = true →
      ∃ g ∈ l, g.child = p ∧ g.donor = k.current) :
    GiftsOk (releaseTask 512 p k) (close p l) := by
  obtain ⟨hrest, hf, ht⟩ := releaseTask_slices p k
  have hle : ((releaseTask 512 p k).core k.current).timeSlice ≤ (k.core k.current).timeSlice +
      if (k.core p).firstTimeSlice then (k.core p).timeSlice else 0 := by
    rw [ht]
    split_ifs
    · exact reapedSlice_le _ _
    · exact le_rfl
  constructor
  · exact hi
  · apply hk.solvent.repay (r := k.current) hown
    · intro ho
      rw [hf] at ho
      exact ⟨ho, hle⟩
    · intro q hq ho
      rw [hrest q hq] at ho ⊢
      exact ⟨ho, le_rfl⟩
  · intro g hg ho
    have hgl := (mem_close.mp hg).1
    by_cases hc : g.child = k.current
    · rw [hc, hf] at ho
      have h1 := hk.positive g hgl (hc ▸ ho)
      rw [hc] at h1 ⊢
      rw [ht]
      split_ifs with hp
      · obtain ⟨d, hd, rfl, hdonor⟩ := hown ho hp
        have h2 := hk.solvent.pair_le hgl hd (hdonor.trans hc.symm) (hc ▸ ho) hp
        have h3 := hk.small g hgl
        rw [hc] at h2
        exact one_le_reapedSlice h1 (by omega)
      · exact h1
    · rw [hrest _ hc] at ho ⊢
      exact hk.positive g hgl ho
  · intro g hg
    exact hk.small g (mem_close.mp hg).1

/-- Each operation keeps the ledger of the gifts covered, and none repays too much. -/
theorem GiftsOk.step (hk : GiftsOk k l) (he : Enabled k op) (hc : KeepsGifts k op)
    (h : exec 512 op k = some k')
    (hown : Accepts Gifts.next Gifts.OwnChild (sliceEvents op k k') l) :
    GiftsOk k' ((sliceEvents op k k').foldl Gifts.next l) ∧
      Accepts Gifts.next Gifts.Repaid (sliceEvents op k k') l := by
  have hi : IdleOk k' := (exec_effect h he hk.idle (Permits.free k op)).idleOk he hk.idle
  have hspend : op.child = none → op.released = none → GiftsOk k' l := fun h1 h2 =>
    hk.spend hi fun q => (exec_effect h he hk.idle (hc.permits h2)).spends h1 q
  cases op with
  | doFork child pid vfork cloneParent => exact ⟨hk.fork hi he hc h, trivial, trivial⟩
  | releaseTask p =>
    cases h
    constructor
    · apply hk.reap hi
      intro h1 h2
      exact hown.1 (Bool.and_eq_true_iff.mpr ⟨h1, h2⟩)
    · refine ⟨fun g hg _ hchild => ?_, trivial⟩
      have ht := (releaseTask_slices p k).2.2
      change ((releaseTask 512 p k).core k.current).timeSlice - (k.core k.current).timeSlice ≤ _
      rw [ht]
      split_ifs with hp
      · have h1 := reapedSlice_le (k.core k.current).timeSlice (k.core p).timeSlice
        have h2 := hk.solvent.balance_le hg (hchild ▸ hp)
        rw [hchild] at h2
        omega
      · omega
  | _ => exact ⟨hspend rfl rfl, trivial⟩

/-- In every run in which no slice is generated and a task on its first slice reaps on theirs
only children of its own, no task gets more back from a child than it gave. -/
theorem reaping_creates_no_slice (ops : List Op) (hC : AlongBoot 512 KeepsGifts ops)
    (hown : Accepts Gifts.next Gifts.OwnChild (sliceTrace 512 ops) []) :
    Accepts Gifts.next Gifts.Repaid (sliceTrace 512 ops) [] := by
  unfold sliceTrace at hown ⊢
  cases h0 : schedInit 512 with
  | none => trivial
  | some k0 =>
    rw [h0] at hown
    apply trace_accepts (R := GiftsOk) (Q := Gifts.OwnChild) _ _ (hC k0 h0) hown
    · intro k op k' l hk ho h hq
      exact hk.step ho.1 ho.2 h hq
    · exact ⟨schedInit_idleOk h0, by simp [Solvent], by simp, by simp⟩

end

/-- A SHORT task forks; its child stops being SHORT and becomes it again, exits and is reaped. -/
def reenteringChild (requestedTime : ℤ) : List Op :=
  startTask ++ [.sysSchedSetscheduler 0 4 (shortParam 8 4), .doFork 2 2 false false,
    .setCurrentState .interruptible, .schedule none, .sysSchedSetscheduler 0 0 otherParam,
    .sysSchedSetscheduler 0 4 (shortParam requestedTime 1), .exitNotify 0 0, .tryToWakeUp 1,
    .schedule (some .taskEnded), .releaseTask 2]

theorem reaping_creates_no_slice_reenteringChild :
    Accepts Gifts.next Gifts.Repaid (sliceTrace 512 (reenteringChild 4)) [] ∧
      SliceEvent.reaped 1 2 true 2 ∈ sliceTrace 512 (reenteringChild 4) := by
  constructor
  · exact reaping_creates_no_slice (reenteringChild 4) (by decide +kernel) (by decide +kernel)
  · decide +kernel

/-- A child that becomes SHORT for five seconds gives its parent 151 ticks for the two ticks
that it was born with. -/
theorem new_slice_is_reaped : AlongBoot 512 (fun _ _ => True) (reenteringChild 5000) ∧
    SliceEvent.gave 1 2 2 ∈ sliceTrace 512 (reenteringChild 5000) ∧
    SliceEvent.reaped 1 2 true 151 ∈ sliceTrace 512 (reenteringChild 5000) ∧
    ¬ Accepts Gifts.next Gifts.Repaid (sliceTrace 512 (reenteringChild 5000)) [] := by
  decide +kernel

section
variable {HZ : ℕ} {k : Kernel} {p : TaskId}

theorem schedExit_timeSlice : ((schedExit HZ p k).tasks k.current).timeSlice =
    if (k.tasks p).firstTimeSlice then
      reapedSlice HZ (k.tasks k.current).timeSlice (k.tasks p).timeSlice
    else (k.tasks k.current).timeSlice := by
  have hw := congrArg Core.timeSlice
    (congrFun (weighSleep_quiet p (returnSlice HZ p k)).core k.current)
  refine Eq.trans hw ?_
  change ((returnSlice HZ p k).tasks k.current).timeSlice = _
  unfold returnSlice
  split_ifs
  · rw [Kernel.mod_tasks_self]
  · rfl

/-- The sum is not smaller than what was there unless it is clamped or wraps. -/
theorem le_reapedSlice_iff {n m : ℕ} (hHZ : maxTimeslice HZ < 4294967296)
    (hn : n < 4294967296) (hm : m < 4294967296) :
    n ≤ reapedSlice HZ n m ↔ (n : ℤ) ≤ maxTimeslice HZ ∧ n + m < 4294967296 := by
  have h0 : 0 ≤ maxTimeslice HZ := by
    unfold maxTimeslice
    positivity
  have hsum : u32 ((n : ℤ) + m) = if n + m < 4294967296 then n + m else n + m - 4294967296 := by
    unfold u32
    split_ifs <;> omega
  have hmax : u32 (maxTimeslice HZ) = (maxTimeslice HZ).toNat := u32_of_range h0 hHZ
  simp only [reapedSlice, hsum, hmax]
  split_ifs <;> omega

end

/-- `sched_exit` leaves the slice of the running task at least as large as it was, exactly when
the child is not on its first slice or the slice is at most `MAX_TIMESLICE` and the sum fits. -/
theorem reaping_keeps_slice_iff (HZ : ℕ) (hHZ : maxTimeslice HZ < 4294967296) (k : Kernel)
    (p : TaskId) (hcur : (k.tasks k.current).timeSlice < 4294967296)
    (hp : (k.tasks p).timeSlice < 4294967296) :
    (k.tasks k.current).timeSlice ≤ ((schedExit HZ p k).tasks k.current).timeSlice ↔
      ((k.tasks p).firstTimeSlice = true →
        ((k.tasks k.current).timeSlice : ℤ) ≤ maxTimeslice HZ ∧
          (k.tasks k.current).timeSlice + (k.tasks p).timeSlice < 4294967296) := by
  rw [schedExit_timeSlice]
  split_ifs with hf
  · rw [le_reapedSlice_iff hHZ hcur hp, forall_prop_of_true hf]
  · exact iff_of_true le_rfl fun h => absurd h hf

/-- A task of `SCHED_OTHER` reaps the child that it forked. -/
theorem reaping_keeps_slice_iff_startTask : ∃ k ∈ runFromBoot 512 (startTask ++
      [.doFork 2 2 false false, .schedule none, .setCurrentState .interruptible, .schedule none,
        .exitNotify 0 0, .tryToWakeUp 1, .schedule (some .taskEnded)]),
    (k.tasks 2).state = .zombie ∧ (k.tasks 2).firstTimeSlice = true ∧
      (k.tasks k.current).timeSlice ≤ ((schedExit 512 2 k).tasks k.current).timeSlice := by
  obtain ⟨k, hk, hz, hf, hs, hp⟩ : ∃ k ∈ runFromBoot 512 (startTask ++
      [.doFork 2 2 false false, .schedule none, .setCurrentState .interruptible, .schedule none,
        .exitNotify 0 0, .tryToWakeUp 1, .schedule (some .taskEnded)]),
      (k.tasks 2).state = .zombie ∧ (k.tasks 2).firstTimeSlice = true ∧
        (k.tasks k.current).timeSlice ≤ 153 ∧ (k.tasks 2).timeSlice ≤ 153 := by
    decide +kernel
  refine ⟨k, hk, hz, hf, (reaping_keeps_slice_iff 512 (by decide) k 2 (by omega) (by omega)).mpr
    fun _ => ⟨?_, by omega⟩⟩
  have hmax : maxTimeslice 512 = 153 := by decide
  omega

/-- A SHORT task with 1280 ticks left reaps the child that it gave 1280 ticks. -/
def shortReaper : List Op :=
  startTask ++ [.sysSchedSetscheduler 0 4 (shortParam 5000 50), .doFork 2 2 false false,
    .setCurrentState .interruptible, .schedule none, .exitNotify 0 0, .tryToWakeUp 1,
    .schedule (some .taskEnded)]

theorem reaping_penalises_short : AlongBoot 512 (fun _ _ => True) shortReaper ∧
    ∃ k ∈ runFromBoot 512 shortReaper, k.current = 1 ∧ Short (k.tasks 1) ∧
      (k.tasks 2).state = .zombie ∧ (k.tasks 1).timeSlice = 1280 ∧
        (k.tasks 2).timeSlice = 1280 ∧ ((schedExit 512 2 k).tasks 1).timeSlice = 153 ∧
          ¬ (k.tasks k.current).timeSlice ≤
            ((schedExit 512 2 k).tasks k.current).timeSlice := by
  decide +kernel

end ShortSched
