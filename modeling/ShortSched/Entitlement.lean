import ShortSched.Queries
import ShortSched.Slices

/-! What a SHORT task is entitled to in its current trial, and what it has left of it. -/
namespace ShortSched
open Relation PartialRun

/-- The ticks of a trial: the requested time over the number of the trial. -/
def entitlement (HZ : ℕ) (requestedTime currentTrial : ℤ) : ℤ :=
  requestedTime * HZ / 1000 / (currentTrial + 1)

/-- No SHORT task has more left than its entitlement, and no task is reported to have more
left than it requested. -/
structure WithinEntitlement (HZ : ℕ) (k : Kernel) : Prop where
  slices : ∀ p, Short (k.tasks p) → 1 ≤ (k.tasks p).requestedTime →
    ((k.tasks p).timeSlice : ℤ) ≤
      entitlement HZ (k.tasks p).requestedTime (k.tasks p).currentTrial
  remaining : ∀ pid p, findTaskByPid k pid = some p →
    sysRemainingTime HZ k pid ≤ (k.tasks p).requestedTime

/-- What the running task gets when it reaps a child with `child` ticks left of its first
slice is within `ticks`: their sum, or the bound on what it may get. -/
def ReapFits (HZ : ℕ) (parent child : ℕ) (ticks : ℤ) : Prop :=
  (u32 (parent + child) : ℤ) ≤ ticks ∨ maxTimeslice HZ ≤ ticks

instance (HZ parent child : ℕ) (ticks : ℤ) : Decidable (ReapFits HZ parent child ticks) :=
  inferInstanceAs (Decidable (_ ∨ _))

/-- No tick is charged to a SHORT task with an empty slice, no SHORT task reaps a child with
more on its first slice than fits, and a SHORT task whose requested time is changed has no more
left than the new one allows. -/
def KeepsEntitlement (HZ : ℕ) (k : Kernel) (op : Op) : Prop :=
  (op.ticks → Short (k.tasks k.current) → (k.tasks k.current).timeSlice ≠ 0) ∧
  (∀ p ∈ op.released, Short (k.tasks k.current) → (k.tasks p).firstTimeSlice = true →
    ReapFits HZ (k.tasks k.current).timeSlice (k.tasks p).timeSlice
      (entitlement HZ (k.tasks k.current).requestedTime (k.tasks k.current).currentTrial)) ∧
  ∀ acc ∈ op.accepted k, Short (k.tasks acc.target) → acc.policy = .short →
    ((k.tasks acc.target).timeSlice : ℤ) ≤ entitlement HZ (acc.user.deref .requestedTimeStore)
      (k.tasks acc.target).currentTrial

instance (HZ : ℕ) (k : Kernel) (op : Op) : Decidable (KeepsEntitlement HZ k op) :=
  inferInstanceAs (Decidable (_ ∧ (∀ p ∈ op.released, _) ∧ ∀ acc ∈ op.accepted k, _))

/-- The fields that an entitlement is computed from are in range. -/
structure Core.Asked (c : Core) : Prop where
  time : 0 ≤ c.requestedTime ∧ c.requestedTime ≤ 5000
  short : c.IsShort → 1 ≤ c.requestedTime ∧ 0 ≤ c.currentTrial

def Core.Entitled (HZ : ℕ) (c : Core) : Prop :=
  c.IsShort → (c.timeSlice : ℤ) ≤ entitlement HZ c.requestedTime c.currentTrial

/-- Parameters are in range and set for tasks of other policies only, and ticks and reaped
children are as they should be. -/
def entitleGuard (HZ : ℕ) : Guard := { Guard.free with
  update := fun _ => False
  enter := fun _ requestedTime _ => 1 ≤ requestedTime ∧ requestedTime ≤ 5000
  reap := fun c child => c.IsShort → child.firstTimeSlice = true →
    ReapFits HZ c.timeSlice child.timeSlice (entitlement HZ c.requestedTime c.currentTrial)
  tick := fun c => c.IsShort → c.timeSlice ≠ 0 }

section
variable {HZ : ℕ} {ps : Ptrs} {π : Guard} {c c' : Core} {k k' : Kernel} {op : Op} {r t : ℤ}
  {p : TaskId}

/-! The arithmetic of entitlements. -/

theorem shortTimeslice_eq_entitlement (hHZ : HZ * 5000 < 2147483648) (hr : 0 ≤ r ∧ r ≤ 5000)
    (ht : 0 ≤ t) : (shortTimeslice HZ r t : ℤ) = entitlement HZ r t := by
  have h0 : 0 ≤ r * HZ := Int.mul_nonneg hr.1 (by omega)
  have h1 : 0 ≤ r * HZ / 1000 / (t + 1) := Int.ediv_nonneg (by omega) (by omega)
  rw [shortTimeslice_eq hHZ hr ht, Int.toNat_of_nonneg h1, entitlement]

/-- A trial lasts no longer than what was requested. -/
theorem entitlement_le (hr : 0 ≤ r) : entitlement HZ r t ≤ r * HZ / 1000 := by
  have h0 : 0 ≤ r * HZ := Int.mul_nonneg hr (by omega)
  exact Int.ediv_le_self _ (by omega)

theorem entitlement_zero (HZ : ℕ) (r : ℤ) : entitlement HZ r 0 = r * HZ / 1000 := by
  rw [entitlement, zero_add, Int.ediv_one]

theorem mul_hz_le (hr : r ≤ 5000) : r * HZ ≤ 5000 * HZ :=
  Int.mul_le_mul_of_nonneg_right hr (by omega)

theorem Core.Entitled.le (hc : c.Entitled HZ) (ha : c.Asked) (hs : c.IsShort) :
    (c.timeSlice : ℤ) ≤ c.requestedTime * HZ / 1000 :=
  (hc hs).trans (entitlement_le ha.time.1)

/-- Slices within entitlements are small. -/
theorem Core.Entitled.small (hHZ : HZ * 5000 < 2147483648) (hc : c.Entitled HZ) (ha : c.Asked)
    (hs : c.IsShort) : (c.timeSlice : ℤ) * 1000 < 2147483648 := by
  have h1 := hc.le ha hs
  have h2 : c.requestedTime * HZ ≤ 5000 * HZ := mul_hz_le ha.time.2
  omega

theorem reapedSlice_le_iff (hHZ : HZ * 5000 < 2147483648) {n m : ℕ} :
    (reapedSlice HZ n m : ℤ) ≤ t ↔ ReapFits HZ n m t := by
  have h0 : 0 ≤ maxTimeslice HZ ∧ maxTimeslice HZ < 4294967296 := by
    unfold maxTimeslice
    omega
  have h1 : (u32 (maxTimeslice HZ) : ℤ) = maxTimeslice HZ := by
    rw [u32_of_range h0.1 h0.2, Int.toNat_of_nonneg h0.1]
  unfold reapedSlice ReapFits
  dsimp only
  split_ifs with h
  · rw [h1]
    omega
  · omega

/-! Fields in range, for every task. -/

theorem TickStep.asked (h : TickStep HZ ps c c') (hc : c.Asked) : c'.Asked := by
  cases h with
  | trial hs =>
    have h0 := hc.short hs
    refine ⟨hc.time, fun _ => ⟨h0.1, ?_⟩⟩
    simp only [Core.on]
    omega
  | overdue => exact ⟨hc.time, fun hs => by cases hs.2⟩
  | _ => exact ⟨hc.time, hc.short⟩

theorem Core.Asked.forking (hc : c.Asked) (n : ℕ) : (c.forking.withSlice n).Asked := by
  unfold Core.forking
  split_ifs
  · exact ⟨hc.time, hc.short⟩
  · exact ⟨hc.time, hc.short⟩

theorem ShareStep.asked (h : ShareStep HZ ps π c c') (hc : c.Asked) : c'.Asked := by
  cases h with
  | fork => exact hc.forking _
  | forkTick _ _ _ _ hstep => exact hstep.asked (hc.forking 1)
  | _ => exact ⟨hc.time, hc.short⟩

theorem TaskStep.asked (henter : ∀ c r n, π.enter c r n → 1 ≤ r ∧ r ≤ 5000)
    (hupdate : ∀ r, π.update r → 1 ≤ r ∧ r ≤ 5000) (h : TaskStep HZ ps π c c') (hc : c.Asked) :
    c'.Asked := by
  cases h with
  | tick h => exact h.asked hc
  | share h => exact h.asked hc
  | enter r n _ _ hg =>
    have h1 := henter _ _ _ hg
    exact ⟨⟨by simp only; omega, h1.2⟩, fun _ => ⟨h1.1, le_rfl⟩⟩
  | update r hs hg =>
    have h1 := hupdate r hg
    exact ⟨⟨by simp only; omega, h1.2⟩, fun _ => ⟨h1.1, (hc.short hs).2⟩⟩
  | setPolicy q i _ hq => exact ⟨hc.time, fun hs => absurd hs.1 hq⟩
  | _ => exact ⟨hc.time, hc.short⟩

theorem IdleStep.asked (h : IdleStep HZ ps π c c') (hc : c.Asked) : c'.Asked := by
  cases h with
  | tick h => exact h.asked hc
  | share h => exact h.asked hc
  | _ => exact ⟨hc.time, hc.short⟩

theorem Core.Asked.forked (hc : c.Asked) (i : ℤ) : (c.forked.withPrio i).Asked := by
  refine ⟨hc.time, fun hs => ⟨(hc.short hs).1, ?_⟩⟩
  have h0 : 0 ≤ c.currentTrial := (hc.short hs).2
  simp only [Core.withPrio, Core.forked]
  split_ifs
  · exact le_rfl
  · exact h0

/-! One step of a task whose requested time is not changed. -/

theorem TickStep.entitled (hHZ : HZ * 5000 < 2147483648) (h : TickStep HZ ps c c')
    (hg : c.IsShort → c.timeSlice ≠ 0) (ha : c.Asked) (hc : c.Entitled HZ) : c'.Entitled HZ := by
  cases h with
  | skip => exact hc
  | down _ ht =>
    intro hs
    have h0 := hg hs
    have h1 := hc.small hHZ ha hs
    refine le_trans ?_ (hc hs)
    simp only
    rw [u32_of_range (by omega) (by omega)]
    omega
  | trial hs =>
    intro _
    have h0 := (ha.short hs).2
    exact (shortTimeslice_eq_entitlement hHZ ha.time (by omega)).le
  | overdue => exact fun hs => by cases hs.2
  | rrSlice hp => exact fun hs => by cases hp.symm.trans hs.1
  | otherSlice _ _ hp => exact fun hs => absurd hs.1 hp

theorem Core.Entitled.forking {n : ℕ} (hn : c.IsShort → (n : ℤ) ≤
    entitlement HZ c.requestedTime c.currentTrial) : (c.forking.withSlice n).Entitled HZ := by
  unfold Core.forking
  split_ifs
  · exact hn
  · exact hn

theorem ShareStep.entitled (hHZ : HZ * 5000 < 2147483648)
    (h : ShareStep HZ ps (entitleGuard HZ) c c') (ha : c.Asked) (hc : c.Entitled HZ) :
    c'.Entitled HZ := by
  cases h with
  | fork =>
    apply Core.Entitled.forking
    intro hs
    have h1 := hc hs
    omega
  | forkTick _ _ h2 h0 hstep hg =>
    apply hstep.entitled hHZ hg (ha.forking 1)
    apply Core.Entitled.forking
    intro hs
    have h1 := hc hs
    omega
  | reap child hg hf => exact fun hs => (reapedSlice_le_iff hHZ).mpr (hg hs hf)
  | orphan => exact hc

theorem TaskStep.entitled (hHZ : HZ * 5000 < 2147483648)
    (h : TaskStep HZ ps (entitleGuard HZ) c c') (ha : c.Asked) (hc : c.Entitled HZ) :
    c'.Entitled HZ := by
  cases h with
  | tick h hg => exact h.entitled hHZ hg ha hc
  | share h => exact h.entitled hHZ ha hc
  | enter r n _ _ hg =>
    intro _
    have hr : 1 ≤ r ∧ r ≤ 5000 := hg
    exact (shortTimeslice_eq_entitlement hHZ ⟨by omega, hr.2⟩ le_rfl).le
  | update r _ hg => exact absurd hg id
  | setPolicy q i _ hq => exact fun hs => absurd hs.1 hq
  | _ => exact hc

/-- A child gets half of what its parent has left, but at least as many trials. -/
theorem Core.Entitled.forked (hHZ : HZ * 5000 < 2147483648) (ha : c.Asked) (hc : c.Entitled HZ)
    (i : ℤ) : (c.forked.withPrio i).Entitled HZ := by
  intro (hs : c.IsShort)
  have h1 := hc.le ha hs
  have h2 := hc.small hHZ ha hs
  simp only [Core.withPrio, Core.forked, Core.off, if_pos hs, entitlement_zero]
  rw [u32_of_range (by omega) (by omega)]
  omega

/-! One operation. -/

theorem releaseTask_slice (hf : (k.tasks p).firstTimeSlice = true) :
    (releaseTask HZ p k).core k.current = (k.core k.current).withSlice
      (reapedSlice HZ (k.tasks k.current).timeSlice (k.tasks p).timeSlice) := by
  have hq : Quiet (schedExit HZ p { k with pidhash := k.pidhash.erase p }) (releaseTask HZ p k) :=
    mod_quiet (f := fun t => { t with pid := 0 }) fun _ => rfl
  have hs : Only k.current ((k.core k.current).withSlice
      (reapedSlice HZ (k.tasks k.current).timeSlice (k.tasks p).timeSlice))
      { k with pidhash := k.pidhash.erase p }
      (schedExit HZ p { k with pidhash := k.pidhash.erase p }) := by
    unfold schedExit returnSlice
    rw [if_pos hf]
    exact Only.quiet (mod_only rfl) (weighSleep_quiet _ _)
  exact (hs.quiet hq).self

/-- What an accepted change of the requested time leaves of a SHORT task. -/
theorem exec_requested {acc : Accepted} (h : exec HZ op k = some k')
    (hacc : op.accepted k = some acc) (hp : (k.tasks acc.target).policy = .short)
    (hs : acc.policy = .short) : (k.core acc.target).IsShort ∧
      Only acc.target { (k.core acc.target).left with
        requestedTime := acc.user.deref .requestedTimeStore } k k' := by
  obtain ⟨happly, pid, policy, param, hpassed⟩ := exec_accepted h hacc
  constructor
  · exact ⟨hp, Bool.eq_false_iff.mpr fun ho => hpassed.notOverdue ⟨hp, ho⟩⟩
  · cases setschedulerApply_applied happly hpassed with
    | becomes d m hother => cases hother.symm.trans hp
    | stays _ _ h1 => exact h1
    | changes d hns => exact absurd hs hns

theorem KeepsEntitlement.permits (hC : KeepsEntitlement HZ k op) (hr : InRange k op)
    (hu : ∀ acc ∈ op.accepted k, (k.tasks acc.target).policy = .short → acc.policy ≠ .short) :
    Permits (entitleGuard HZ) k op :=
  { Permits.free k op with
    forkTick := fun _ _ _ => one_ne_zero
    reap := fun p hp => hC.2.1 p hp
    enter := fun acc hacc _ hs => hr acc hacc hs
    update := fun acc hacc hp hs => hu acc hacc hp hs
    tick := fun ht hs => hC.1 (ht ▸ rfl) hs }

theorem exec_asked (h : exec HZ op k = some k') (he : Enabled k op) (hi : IdleOk k)
    (hr : InRange k op) (ha : ∀ q, (k.core q).Asked) (q : TaskId) : (k'.core q).Asked := by
  let π : Guard := { Guard.free with
    update := fun r => 1 ≤ r ∧ r ≤ 5000
    enter := fun _ r _ => 1 ≤ r ∧ r ≤ 5000 }
  have hg : Permits π k op :=
    { Permits.free k op with
      enter := fun acc hacc _ hs => hr acc hacc hs
      update := fun acc hacc _ hs => hr acc hacc hs }
  exact (exec_effect h he hi hg).tasks_invariant
    (fun _ _ _ => TaskStep.asked (fun _ _ _ h => h) fun _ h => h) (fun _ _ _ => IdleStep.asked)
    (fun _ i hc _ _ => hc.forked i) ha q

theorem exec_entitled (hHZ : HZ * 5000 < 2147483648) (h : exec HZ op k = some k')
    (he : Enabled k op) (hi : IdleOk k) (hr : InRange k op) (ha : ∀ q, (k.core q).Asked)
    (hk : ∀ q, (k.core q).Entitled HZ) (hC : KeepsEntitlement HZ k op) (q : TaskId) :
    (k'.core q).Entitled HZ := by
  by_cases hu : ∃ acc ∈ op.accepted k, (k.tasks acc.target).policy = .short ∧ acc.policy = .short
  · obtain ⟨acc, hacc, hp, hs⟩ := hu
    obtain ⟨hshort, h1⟩ := exec_requested h hacc hp hs
    by_cases hq : q = acc.target
    · rw [hq, h1.self]
      intro _
      simp only [Core.left_slices, Core.left_trials]
      exact hC.2.2 acc hacc hshort hs
    · rw [h1.rest hq]
      exact hk q
  · have hg : Permits (entitleGuard HZ) k op :=
      hC.permits hr fun acc hacc hp hs => hu ⟨acc, hacc, hp, hs⟩
    have heff := exec_effect h he hi hg
    have hi' := heff.idleOk he hi
    refine (heff.others_invariant (I := fun c => c.Asked ∧ c.Entitled HZ) ?_ ?_ ?_ ?_ q).2
    · exact ⟨exec_asked h he hi hr ha _, fun hs => absurd hs.1 hi'.not_short⟩
    · rintro c c' hstep ⟨hca, hce⟩
      exact ⟨hstep.asked (fun _ _ _ hg => hg) (fun _ hg => absurd hg id) hca,
        hstep.entitled hHZ hca hce⟩
    · rintro c i ⟨hca, hce⟩ _ _
      exact ⟨hca.forked i, hce.forked hHZ hca i⟩
    · exact fun q => ⟨ha q, hk q⟩

/-- A tick charged to a task with an empty slice leaves it almost all that fits in a word. -/
theorem schedulerTick_wraps (hHZ : HZ * 5000 < 2147483648) (h : schedulerTick HZ k = some k')
    (hi : IdleOk k) (ha : (k.core k.current).Asked) (hs : (k.core k.current).IsShort)
    (h0 : (k.tasks k.current).timeSlice = 0) : ¬ (k'.core k.current).Entitled HZ := by
  obtain ⟨c, hstep, h1⟩ := schedulerTick_step h fun hs => hi.not_short hs.1
  have hu : u32 ((k.core k.current).timeSlice - 1) = 4294967295 := by
    rw [show (k.core k.current).timeSlice = 0 from h0]
    rfl
  rw [h1.self]
  intro hc
  cases hstep with
  | skip hn => exact hn hs
  | down =>
    have hsmall := Core.Entitled.small hHZ hc ⟨ha.time, ha.short⟩ hs
    simp only [hu] at hsmall
    omega
  | trial _ ht => exact absurd (hu.symm.trans ht) (by decide)
  | overdue _ ht => exact absurd (hu.symm.trans ht) (by decide)
  | rrSlice hp => cases hp.symm.trans hs.1
  | otherSlice _ _ hp => exact hp hs.1

/-- An operation keeps every SHORT task within its entitlement just when it meets the
condition. -/
theorem exec_entitled_iff (hHZ : HZ * 5000 < 2147483648) (h : exec HZ op k = some k')
    (he : Enabled k op) (hi : IdleOk k) (hr : InRange k op) (ha : ∀ q, (k.core q).Asked)
    (hk : ∀ q, (k.core q).Entitled HZ) :
    (∀ q, (k'.core q).Entitled HZ) ↔ KeepsEntitlement HZ k op := by
  constructor
  · intro hk'
    refine ⟨fun ht hs h0 => ?_, fun p hp hs hf => ?_, fun acc hacc hs hpol => ?_⟩
    · cases op <;> cases ht
      exact schedulerTick_wraps hHZ h hi (ha _) hs h0 (hk' _)
    · cases op <;> cases hp
      cases h
      have hc := hk' k.current
      rw [releaseTask_slice hf] at hc
      exact (reapedSlice_le_iff hHZ).mp (hc hs)
    · obtain ⟨-, h1⟩ := exec_requested h hacc hs.1 hpol
      have hc := hk' acc.target
      rw [h1.self] at hc
      have hs' : (k.core acc.target).left.IsShort := by
        rw [Core.IsShort, Core.left_policy, Core.left_isOverdue]
        exact hs
      have hle := hc hs'
      simp only [Core.left_slices, Core.left_trials] at hle
      exact hle
  · exact fun hC => exec_entitled hHZ h he hi hr ha hk hC

/-! Whole states and runs. -/

theorem remainingTime_le (hHZ : HZ * 5000 < 2147483648) {pid : ℤ} (ha : (k.core p).Asked)
    (hc : (k.core p).Entitled HZ) (hp : findTaskByPid k pid = some p) :
    sysRemainingTime HZ k pid ≤ (k.tasks p).requestedTime := by
  have ht : 0 ≤ (k.tasks p).requestedTime := ha.time.1
  simp only [sysRemainingTime, hp]
  split_ifs with hpol ho
  · exact le_trans (by decide) ht
  · exact ht
  · have hs : (k.core p).IsShort := ⟨not_not.mp hpol, Bool.eq_false_iff.mpr ho⟩
    have h1 : ((k.tasks p).timeSlice : ℤ) ≤ (k.tasks p).requestedTime * HZ / 1000 := hc.le ha hs
    have h2 : (k.tasks p).requestedTime * HZ ≤ 5000 * HZ := mul_hz_le ha.time.2
    have h3 : (k.tasks p).requestedTime ≤ 5000 := ha.time.2
    have hu : u32 ((k.tasks p).timeSlice * 1000) = (k.tasks p).timeSlice * 1000 := by
      rw [u32_of_range (by omega) (by omega)]
      omega
    have hdiv : (k.tasks p).timeSlice * 1000 / HZ ≤ (k.tasks p).requestedTime.toNat := by
      apply Nat.div_le_of_le_mul
      zify
      rw [Int.toNat_of_nonneg ht, mul_comm (HZ : ℤ)]
      omega
    rw [hu]
    generalize (k.tasks p).timeSlice * 1000 / HZ = n at hdiv
    unfold i32
    rw [Int.bmod_eq_of_le] <;> omega

theorem withinEntitlement_iff (hHZ : HZ * 5000 < 2147483648) (ha : ∀ q, (k.core q).Asked) :
    WithinEntitlement HZ k ↔ ∀ q, (k.core q).Entitled HZ := by
  constructor
  · intro h q hs
    exact h.slices q hs ((ha q).short hs).1
  · intro h
    constructor
    · exact fun q hs _ => h q hs
    · exact fun pid q hq => remainingTime_le hHZ (ha q) (h q) hq

theorem schedInit_other (h : schedInit HZ = some k) (q : TaskId) :
    (k.core q).policy = .other ∧ (k.core q).requestedTime = 0 := by
  rcases tryToWakeUp_only h with ⟨hn, -⟩ | ⟨-, -, i, -, h1⟩
  · exact absurd rfl hn
  · by_cases hq : q = 0
    · rw [hq, h1.self]
      exact ⟨rfl, rfl⟩
    · rw [h1.rest hq]
      exact ⟨rfl, rfl⟩

/-- In a run from boot with parameters in range every SHORT task is within its entitlement, and
is reported to be, in every state reached, just when every step meets the condition. -/
theorem slices_within_entitlement_iff (HZ : ℕ) (hHZ : HZ * 5000 < 2147483648) (ops : List Op)
    (hE : AlongBoot HZ InRange ops) (k : Kernel) (hr : runFromBoot HZ ops = some k) :
    (∀ pre, pre <+: ops → ∀ m ∈ runFromBoot HZ pre, WithinEntitlement HZ m) ↔
      AlongBoot HZ (KeepsEntitlement HZ) ops := by
  refine runFromBoot_always_iff (J := fun k => IdleOk k ∧ ∀ q, (k.core q).Asked)
    (fun k h0 => ?_) ?_ hE hr
  · have hother := schedInit_other h0
    have ha : ∀ q, (k.core q).Asked := fun q =>
      ⟨by rw [(hother q).2]; decide, fun hs => by cases (hother q).1.symm.trans hs.1⟩
    refine ⟨⟨schedInit_idleOk h0, ha⟩, (withinEntitlement_iff hHZ ha).mpr fun q hs => ?_⟩
    cases (hother q).1.symm.trans hs.1
  · rintro k op k' ⟨hi, ha⟩ he hrange h
    have ha' := exec_asked h he hi hrange ha
    have hi' := (exec_effect h he hi (Permits.free k op)).idleOk he hi
    refine ⟨⟨hi', ha'⟩, fun hP => ?_⟩
    rw [withinEntitlement_iff hHZ ha']
    exact exec_entitled_iff hHZ h he hi hrange ha ((withinEntitlement_iff hHZ ha).mp hP)

end

/-- A task on its second trial, of two of the five ticks that it asked for. -/
theorem slices_within_entitlement_iff_shortTicks : ∃ k ∈ runFromBoot 512 (shortTicks 10 5 5),
    (∀ pre, pre <+: shortTicks 10 5 5 → ∀ m ∈ runFromBoot 512 pre, WithinEntitlement 512 m) ∧
      (k.tasks 1).currentTrial = 1 ∧ (k.tasks 1).timeSlice = 2 := by
  have hE : AlongBoot 512 InRange (shortTicks 10 5 5) := by decide +kernel
  have hC : AlongBoot 512 (KeepsEntitlement 512) (shortTicks 10 5 5) := by decide +kernel
  obtain ⟨k, hk, hs⟩ : ∃ k ∈ runFromBoot 512 (shortTicks 10 5 5),
      (k.tasks 1).currentTrial = 1 ∧ (k.tasks 1).timeSlice = 2 := by
    decide +kernel
  exact ⟨k, hk, (slices_within_entitlement_iff 512 (by decide) _ hE k hk).mpr hC, hs⟩

/-- A SHORT task that asked for five seconds asks for 100 ms instead. -/
def lowersTime : List Op := shortEnters 5000 5 ++ [.sysSchedSetparam 0 (shortParam 100 5)]

/-- It keeps the slice of five seconds, and these are reported as its remaining time. -/
theorem lowered_time_keeps_slice : AlongBoot 512 InRange lowersTime ∧
    ∃ k ∈ runFromBoot 512 lowersTime, Short (k.tasks 1) ∧ (k.tasks 1).requestedTime = 100 ∧
      (k.tasks 1).timeSlice = 2560 ∧ entitlement 512 100 (k.tasks 1).currentTrial = 51 ∧
        sysRemainingTime 512 k 1 = 5000 ∧ ¬ WithinEntitlement 512 k := by
  refine ⟨by decide +kernel, ?_⟩
  obtain ⟨k, hk, hfind, hs, hr, ht, he, hm⟩ : ∃ k ∈ runFromBoot 512 lowersTime,
      findTaskByPid k 1 = some 1 ∧ Short (k.tasks 1) ∧ (k.tasks 1).requestedTime = 100 ∧
        (k.tasks 1).timeSlice = 2560 ∧ entitlement 512 100 (k.tasks 1).currentTrial = 51 ∧
          sysRemainingTime 512 k 1 = 5000 := by
    decide +kernel
  refine ⟨k, hk, hs, hr, ht, he, hm, fun h => ?_⟩
  have hle := h.remaining 1 1 hfind
  omega

end ShortSched
