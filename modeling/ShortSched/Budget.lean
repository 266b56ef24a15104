import Mathlib.Algebra.BigOperators.Group.Finset.Basic
import ShortSched.Slices

/-! The CPU time of a SHORT task: how many ticks it is charged before it becomes overdue. -/
namespace ShortSched
open Relation PartialRun

/-- The slices of the first `m` trials of a task that asked for `T` ticks. -/
def budget (T m : ℕ) : ℕ := ∑ i ∈ Finset.range m, T / (i + 1)

/-- A tick charged to `p` as the current task. -/
def Charges (p : TaskId) (k : Kernel) (op : Op) : Prop := op.ticks ∧ k.current = p

instance (p : TaskId) (k : Kernel) (op : Op) : Decidable (Charges p k op) :=
  inferInstanceAs (Decidable (_ ∧ _))

/-- `p` does not fork or reap, its policy and parameters are not set, and it is not replaced by
a new task. -/
def Undisturbed (p : TaskId) (k : Kernel) (op : Op) : Prop :=
  (k.current = p → op.child = none ∧ op.released = none) ∧
    (∀ acc ∈ op.accepted k, acc.target ≠ p) ∧ op.child ≠ some p

instance (p : TaskId) (k : Kernel) (op : Op) : Decidable (Undisturbed p k op) :=
  inferInstanceAs (Decidable (_ ∧ (∀ acc ∈ op.accepted k, _) ∧ _))

/-- A SHORT task in trial `j` of `N`, counted from 0, when it has been charged `spent` ticks of
the budget of `T`. -/
structure Core.OnTrial (R N T spent j : ℕ) (c : Core) : Prop where
  short : c.IsShort
  time : c.requestedTime = R
  trials : c.numberOfTrials = N
  trial : c.currentTrial = j
  left : j < N
  slice : 1 ≤ c.timeSlice ∧ c.timeSlice ≤ T / (j + 1)
  spent : spent + c.timeSlice = budget T (j + 1)

/-- A task that has become overdue by using up its budget. -/
structure Core.UsedUp (N T spent : ℕ) (c : Core) : Prop where
  overdue : c.IsOverdue
  trial : c.currentTrial = (min N T : ℕ)
  spent : budget T (min N T) ≤ spent

def Core.Budgeted (R N T spent : ℕ) (c : Core) : Prop :=
  (∃ j, c.OnTrial R N T spent j) ∨ c.UsedUp N T spent

section
variable {HZ R N T spent j : ℕ} {ps : Ptrs} {c d : Core} {k k' : Kernel} {op : Op} {p : TaskId}

theorem budget_succ (T m : ℕ) : budget T (m + 1) = budget T m + T / (m + 1) :=
  Finset.sum_range_succ _ _

theorem budget_mono (T : ℕ) {m n : ℕ} (h : m ≤ n) : budget T m ≤ budget T n :=
  Finset.sum_le_sum_of_subset (Finset.range_mono h)

/-- In ticks, the slice of trial `j` is a `j + 1`-th of the requested time. -/
theorem shortTimeslice_nat (hHZ : HZ * 5000 < 2147483648) (hR : R ≤ 5000) (j : ℕ) :
    shortTimeslice HZ R j = R * HZ / 1000 / (j + 1) := by
  rw [shortTimeslice_eq hHZ (by omega) (by omega)]
  norm_cast

/-- A trial with a slice is one of those that the task has. -/
theorem Core.OnTrial.succ_le (h : c.OnTrial R N T spent j) : j + 1 ≤ min N T := by
  have hT : 1 ≤ T / (j + 1) := h.slice.1.trans h.slice.2
  have hj : j + 1 ≤ T := (Nat.div_pos_iff.mp hT).2
  exact le_min h.left hj

theorem Core.OnTrial.spent_lt (h : c.OnTrial R N T spent j) : spent < budget T (min N T) := by
  have h1 : budget T (j + 1) ≤ budget T (min N T) := budget_mono T h.succ_le
  have h2 := h.spent
  have h3 := h.slice.1
  omega

/-- A tick uses up one tick of the slice; with the last one the next trial begins, or the
budget is used up. -/
theorem Core.OnTrial.tick (hHZ : HZ * 5000 < 2147483648) (hR : R ≤ 5000) (hT : T = R * HZ / 1000)
    (h : TickStep HZ ps c d) (hc : c.OnTrial R N T spent j) : d.Budgeted R N T (spent + 1) := by
  have hslice := hc.slice
  have hspent := hc.spent
  have hnext : shortTimeslice HZ c.requestedTime (c.currentTrial + 1) = T / (j + 1 + 1) := by
    rw [hc.time, hc.trial, hT]
    exact_mod_cast shortTimeslice_nat hHZ hR (j + 1)
  have hu : u32 (c.timeSlice - 1) = c.timeSlice - 1 := by
    have h1 : T / (j + 1) ≤ T := Nat.div_le_self _ _
    have h2 : R * HZ ≤ 5000 * HZ := Nat.mul_le_mul_right _ hR
    rw [u32_of_range (by omega) (by omega)]
    omega
  cases h with
  | skip hn => exact absurd hc.short hn
  | down _ h0 =>
    left
    refine ⟨j, hc.short, hc.time, hc.trials, hc.trial, hc.left, ?_, ?_⟩
    · dsimp only
      omega
    · dsimp only
      omega
  | trial hs h0 hl hn hz =>
    left
    rw [hc.trial, hc.trials] at hn
    have hlast : spent + 1 = budget T (j + 1) := by omega
    refine ⟨j + 1, hs, hc.time, hc.trials, ?_, by omega, ?_, ?_⟩
    · simp only [Core.on, hc.trial]
      omega
    · simp only [Core.on]
      omega
    · simp only [Core.on]
      rw [hlast, hnext, ← budget_succ]
  | overdue hs h0 hl hn =>
    right
    have hlast : spent + 1 = budget T (j + 1) := by omega
    have hm : j + 1 = min N T := by
      apply hc.succ_le.antisymm
      rcases hn with hn | hn
      · rw [hc.trial, hc.trials] at hn
        omega
      · rw [hnext] at hn
        have hj : T < j + 1 + 1 := (Nat.div_eq_zero_iff_lt (by omega)).mp hn
        omega
    constructor
    · exact ⟨hs.1, rfl⟩
    · simp only [Core.on, hc.trial, ← hm]
      omega
    · rw [hlast, hm]
  | rrSlice hp => cases hp.symm.trans hc.short.1
  | otherSlice a i hp => exact absurd hc.short.1 hp

/-- Overdue tasks are not charged. -/
theorem TickStep.of_overdue (h : TickStep HZ ps c d) (ho : c.IsOverdue) : d = c := by
  have hns : ¬ c.IsShort := fun hs => by cases hs.2.symm.trans ho.2
  cases h with
  | skip => rfl
  | down hd =>
    rcases hd with hs | hp | ⟨hp, -⟩
    · exact absurd hs hns
    · cases hp.symm.trans ho.1
    · exact absurd ho.1 hp
  | trial hs => exact absurd hs hns
  | overdue hs => exact absurd hs hns
  | rrSlice hp => cases hp.symm.trans ho.1
  | otherSlice a i hp => exact absurd ho.1 hp

theorem Core.Budgeted.tick (hHZ : HZ * 5000 < 2147483648) (hR : R ≤ 5000)
    (hT : T = R * HZ / 1000) (h : TickStep HZ ps c d) (hc : c.Budgeted R N T spent) :
    d.Budgeted R N T (spent + 1) := by
  rcases hc with ⟨j, hc⟩ | hc
  · exact hc.tick hHZ hR hT h
  · rw [h.of_overdue hc.overdue]
    exact Or.inr ⟨hc.overdue, hc.trial, hc.spent.trans (Nat.le_succ _)⟩

/-! Beside the task. -/

/-- What the budget is reckoned from. -/
def Core.SameBudget (c d : Core) : Prop :=
  d.policy = c.policy ∧ d.isOverdue = c.isOverdue ∧ d.requestedTime = c.requestedTime ∧
    d.numberOfTrials = c.numberOfTrials ∧ d.currentTrial = c.currentTrial ∧
    (c.IsShort → d.timeSlice = c.timeSlice)

theorem TaskStep.sameBudget (h : TaskStep HZ ps Guard.aside c d) (hc : c.policy = .short) :
    c.SameBudget d := by
  cases h with
  | tick _ hg => exact hg.elim
  | share h =>
    cases h with
    | fork hg =>
      have hf : c.forking = c := if_neg fun hs => hg hs
      rw [hf]
      exact ⟨rfl, rfl, rfl, rfl, rfl, fun hs => (hg hs).elim⟩
    | forkTick _ _ _ _ _ hg => exact hg.elim
    | reap _ hg => exact hg.elim
    | orphan => exact ⟨rfl, rfl, rfl, rfl, rfl, fun _ => rfl⟩
  | nice _ hp => exact absurd hc hp
  | niceOff _ hp => exact absurd hc hp
  | niceOn _ _ hp => exact absurd hc hp
  | enter _ _ hp => cases hp.symm.trans hc
  | update _ _ hg => exact hg.elim
  | setPolicy _ _ _ _ _ _ _ hg => exact hg.elim
  | _ => exact ⟨rfl, rfl, rfl, rfl, rfl, fun _ => rfl⟩

theorem Core.Budgeted.congr (hc : c.Budgeted R N T spent) (h : c.SameBudget d) :
    d.Budgeted R N T spent := by
  obtain ⟨hp, ho, hr, hn, ht, hs⟩ := h
  rcases hc with ⟨j, hc⟩ | hc
  · left
    have hslice := hs hc.short
    refine ⟨j, ⟨hp.trans hc.short.1, ho.trans hc.short.2⟩, hr.trans hc.time, hn.trans hc.trials,
      ht.trans hc.trial, hc.left, ?_, ?_⟩
    · rw [hslice]
      exact hc.slice
    · rw [hslice]
      exact hc.spent
  · exact Or.inr ⟨⟨hp.trans hc.overdue.1, ho.trans hc.overdue.2⟩, ht.trans hc.trial, hc.spent⟩

theorem Core.Budgeted.policy (hc : c.Budgeted R N T spent) : c.policy = .short := by
  rcases hc with ⟨j, hc⟩ | hc
  · exact hc.short.1
  · exact hc.overdue.1

/-- An operation charges the task what it charges it, and does nothing else to its budget. -/
theorem Core.Budgeted.exec (hHZ : HZ * 5000 < 2147483648) (hR : R ≤ 5000)
    (hT : T = R * HZ / 1000) (h : exec HZ op k = some k') (he : Enabled k op) (hi : IdleOk k)
    (hu : Undisturbed p k op) (hc : (k.core p).Budgeted R N T spent) :
    (k'.core p).Budgeted R N T (spent + if Charges p k op then 1 else 0) := by
  have hp : p ≠ k.rq.idle := by
    rintro rfl
    exact hi.not_short hc.policy
  split_ifs with ht
  · obtain ⟨ht, rfl⟩ := ht
    cases op with
    | schedulerTick =>
      obtain ⟨c, hstep, h1⟩ := schedulerTick_step h fun hs => hi.not_short hs.1
      rw [h1.self]
      exact hc.tick hHZ hR hT hstep
    | _ => cases ht
  · have hn : ¬ op.Concerns k p := by
      rintro (⟨hcur, hop⟩ | ⟨acc, ha, he⟩ | hch)
      · obtain ⟨h1, h2⟩ := hu.1 hcur
        simp only [h1, h2, Option.isSome_none, Bool.false_eq_true, or_false] at hop
        exact ht ⟨hop, hcur⟩
      · exact hu.2.1 acc ha he
      · exact hu.2.2 hch
    exact steps_invariant (I := Core.Budgeted R N T spent)
      (fun c d hs hc => hc.congr (hs.sameBudget hc.policy)) (exec_aside h he hi hp hn) hc

/-- A task that becomes SHORT has its whole budget left. -/
theorem exec_budgeted {acc : Accepted} (hHZ : HZ * 5000 < 2147483648) (hR : R ≤ 5000)
    (hN : 1 ≤ N) (hT : 1 ≤ R * HZ / 1000) (h : exec HZ op k = some k') (he : Enabled k op)
    (hi : IdleOk k) (ha : op.accepted k = some acc) (hother : (k.tasks acc.target).policy = .other)
    (hshort : acc.policy = .short) (htime : acc.user.deref .requestedTimeStore = R)
    (htrials : acc.user.deref .trialNumStore = N) :
    (k'.core acc.target).Budgeted R N (R * HZ / 1000) 0 := by
  obtain ⟨happ, pid, policy, param, hp⟩ := exec_accepted h ha
  have hslice : shortTimeslice HZ R 0 = R * HZ / 1000 := by
    have h0 := shortTimeslice_nat hHZ hR 0
    rwa [Nat.zero_add, Nat.div_one] at h0
  cases setschedulerApply_applied happ hp with
  | stays hs => cases hother.symm.trans hs
  | changes _ hn => exact absurd hshort hn
  | becomes d m _ _ hd hm hsched =>
    have hdb : d.Budgeted R N (R * HZ / 1000) 0 := by
      have hc : (((k.core acc.target).left.entered HZ k.ptrs acc.user).assigned acc).Budgeted
          R N (R * HZ / 1000) 0 := by
        left
        refine ⟨0, ⟨hshort, rfl⟩, htime, htrials, rfl, hN, ?_, ?_⟩
        · simp only [Core.assigned, Core.entered, htime, hslice]
          omega
        · simp only [Core.assigned, Core.entered, htime, hslice]
          simp [budget]
      unfold Core.Requeued at hd
      split_ifs at hd
      · obtain ⟨-, i, -, rfl⟩ := hd
        exact hc.congr ⟨rfl, rfl, rfl, rfl, rfl, fun _ => rfl⟩
      · rwa [hd]
    have hidle : acc.target ≠ m.rq.idle := by
      rw [hm.idle]
      intro ht
      have hcur : k.current ≠ k.rq.idle := by
        cases op with
        | sysSchedSetscheduler | sysSchedSetparam => exact he
        | _ => cases ha
      exact findProcessByPid_ne_idle hp.target hi hcur ht
    have heff : Effect HZ Guard.aside (.schedule none) m k' := schedule_effect hsched rfl
    rw [← hm.self] at hdb
    exact steps_invariant (I := Core.Budgeted R N (R * HZ / 1000) 0)
      (fun c d hs hc => hc.congr (hs.sameBudget hc.policy))
      (heff.tasks _ hidle fun hc => by cases hc) hdb

end

/-- A task of `SCHED_OTHER` becomes SHORT with `R` ms and `N` trials, which are `T` ticks in the
first trial. However it is interrupted, it stays SHORT until it has been charged the slices of
`min N T` trials, and is then overdue with that many trials used. -/
theorem overdue_after_budget (HZ R N : ℕ) (hHZ : HZ * 5000 < 2147483648) (hR : R ≤ 5000)
    (hN : 1 ≤ N) (hT : 1 ≤ R * HZ / 1000) (pre ops : List Op) (op : Op) (k0 k1 k : Kernel)
    (acc : Accepted) (hpre : AlongBoot HZ (fun _ _ => True) pre)
    (h0 : runFromBoot HZ pre = some k0) (he : Enabled k0 op) (h1 : exec HZ op k0 = some k1)
    (ha : op.accepted k0 = some acc) (hother : (k0.tasks acc.target).policy = .other)
    (hshort : acc.policy = .short) (htime : acc.user.deref .requestedTimeStore = R)
    (htrials : acc.user.deref .trialNumStore = N)
    (hC : Along (exec HZ) (fun k op => Enabled k op ∧ Undisturbed acc.target k op) ops k1)
    (hr : run (exec HZ) ops k1 = some k) :
    let T := R * HZ / 1000
    let spent := tally (exec HZ) (Charges acc.target) ops k1
    (spent < budget T (min N T) → Short (k.tasks acc.target)) ∧
      (budget T (min N T) ≤ spent → Overdue (k.tasks acc.target) ∧
        (k.tasks acc.target).currentTrial = (min N T : ℕ)) := by
  intro T spent
  have hi : IdleOk k0 :=
    (runFromBoot_invariant (J := fun _ => True) (fun _ _ => trivial)
      (fun _ _ _ _ _ _ _ _ => trivial) hpre h0).1
  have hi1 : IdleOk k1 := (exec_effect h1 he hi (Permits.free k0 op)).idleOk he hi
  have hb1 := exec_budgeted hHZ hR hN hT h1 he hi ha hother hshort htime htrials
  obtain ⟨-, hb⟩ := run_tally
    (J := fun n k => IdleOk k ∧ (k.core acc.target).Budgeted R N T n)
    (fun n k op k' hJ ho h =>
      ⟨(exec_effect h ho.1 hJ.1 (Permits.free k op)).idleOk ho.1 hJ.1,
        hJ.2.exec hHZ hR rfl h ho.1 hJ.1 ho.2⟩) ⟨hi1, hb1⟩ hC hr
  rw [Nat.zero_add] at hb
  rcases hb with ⟨j, hb⟩ | hb
  · constructor
    · intro _
      exact hb.short
    · intro hle
      exact absurd hb.spent_lt (not_lt.mpr hle)
  · constructor
    · intro hlt
      exact absurd hb.spent (not_le.mpr hlt)
    · intro _
      exact ⟨hb.overdue, hb.trial⟩

/-- 4 ms are 2 ticks, so that there are only two of three trials, of 2 ticks and of 1. -/
theorem overdue_after_budget_threeTicks : ∃ k0 ∈ runFromBoot 512 startTask,
    ∃ k1 ∈ exec 512 (.sysSchedSetscheduler 0 4 (shortParam 4 3)) k0,
      ∃ k ∈ run (exec 512) [.schedulerTick, .schedulerTick, .sysSchedYield, .schedulerTick] k1,
        Overdue (k.tasks 1) ∧ (k.tasks 1).currentTrial = 2 := by
  have hpre : AlongBoot 512 (fun _ _ => True) startTask := by decide +kernel
  obtain ⟨k0, h0, he, acc, ha, ht, hs, hR, hN, hother, k1, h1, hC, k, hr, hspent⟩ :
      ∃ k0 ∈ runFromBoot 512 startTask,
        Enabled k0 (.sysSchedSetscheduler 0 4 (shortParam 4 3)) ∧
        ∃ acc ∈ (Op.sysSchedSetscheduler 0 4 (shortParam 4 3)).accepted k0, acc.target = 1 ∧
        acc.policy = .short ∧ acc.user.deref .requestedTimeStore = 4 ∧
        acc.user.deref .trialNumStore = 3 ∧ (k0.tasks 1).policy = .other ∧
        ∃ k1 ∈ exec 512 (.sysSchedSetscheduler 0 4 (shortParam 4 3)) k0,
        Along (exec 512) (fun k op => Enabled k op ∧ Undisturbed 1 k op)
          [.schedulerTick, .schedulerTick, .sysSchedYield, .schedulerTick] k1 ∧
        ∃ k ∈ run (exec 512) [.schedulerTick, .schedulerTick, .sysSchedYield, .schedulerTick] k1,
          tally (exec 512) (Charges 1)
            [.schedulerTick, .schedulerTick, .sysSchedYield, .schedulerTick] k1 = 3 := by
    decide +kernel
  rw [← ht] at hother hC hspent
  have h := (overdue_after_budget 512 4 3 (by decide) (by decide) (by decide) (by decide) startTask
    _ _ k0 k1 k acc hpre h0 he h1 ha hother hs hR hN hC hr).2
  rw [hspent, ht] at h
  exact ⟨k0, h0, k1, h1, k, hr, h (by decide)⟩

end ShortSched
