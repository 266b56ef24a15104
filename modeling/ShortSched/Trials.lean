import ShortSched.System

/-! The trials of SHORT tasks: how they are counted, shared at a fork and reported. -/
namespace ShortSched
open Relation

/-- `sys_remaining_trials`. -/
def sysRemainingTrials (k : Kernel) (pid : ℤ) : ℤ :=
  match k.pidhash.find? fun p => (k.tasks p).pid = pid with
  | none => -1
  | some p =>
    if (k.tasks p).policy = .short then
      if (k.tasks p).isOverdue then 0
      else (k.tasks p).numberOfTrials - (k.tasks p).currentTrial
    else -EINVAL

/-- A SHORT task that is not overdue has a trial left, out of at most 50. -/
def Core.HasTrials (c : Core) : Prop :=
  c.IsShort → 1 ≤ c.numberOfTrials ∧ c.numberOfTrials ≤ 50 ∧
    0 ≤ c.currentTrial ∧ c.currentTrial < c.numberOfTrials

instance (c : Core) : Decidable c.HasTrials := inferInstanceAs (Decidable (_ → _))

/-- Halving the number of trials leaves the parent one that it has not used, unless the
fork takes its last tick and with it the running trial. -/
def Core.CanShare (c : Core) : Prop :=
  c.timeSlice = 1 ∨ 2 * (c.currentTrial + 1) ≤ c.numberOfTrials

instance (c : Core) : Decidable c.CanShare := inferInstanceAs (Decidable (_ ∨ _))

def trialGuard : Guard := { Guard.free with
  enter := fun _ _ trials => 1 ≤ trials ∧ trials ≤ 50
  fork := Core.CanShare }

section
variable {HZ : ℕ} {ps : Ptrs} {c c' : Core}

theorem TickStep.hasTrials (h : TickStep HZ ps c c') (hc : c.HasTrials) : c'.HasTrials := by
  cases h with
  | skip => exact hc
  | down => exact hc
  | trial hs ht hl hn hz =>
    intro _
    have := hc hs
    simp only [Core.on]
    omega
  | overdue => intro hs; cases hs.2
  | rrSlice hp =>
    intro hs
    cases hp.symm.trans hs.1
  | otherSlice a i hp => exact fun hs => absurd hs.1 hp

/-- A parent whose last tick goes to the child uses up a trial at once. -/
theorem TickStep.hasTrials_of_fork (h : TickStep HZ ps (c.forking.withSlice 1) c')
    (hc : c.HasTrials) : c'.HasTrials := by
  by_cases hs : c.IsShort
  · obtain ⟨h1, h2, h3, h4⟩ := hc hs
    have hf : c.forking = { c with numberOfTrials := c.numberOfTrials / 2 } := by
      rw [Core.forking, if_pos hs]
    rw [hf] at h
    cases h with
    | skip hn => exact absurd hs hn
    | down _ ht => exact absurd rfl ht
    | trial _ _ _ hn =>
      intro _
      simp only [Core.on, Core.withSlice] at hn ⊢
      omega
    | overdue => intro hs; cases hs.2
    | rrSlice hp => cases hs.1.symm.trans hp
    | otherSlice a i hp => exact absurd hs.1 hp
  · have hf : c.forking = c := by rw [Core.forking, if_neg hs]
    rw [hf] at h
    exact h.hasTrials hc

theorem ShareStep.hasTrials (h : ShareStep HZ ps trialGuard c c') (hc : c.HasTrials) :
    c'.HasTrials := by
  cases h with
  | fork hg ht =>
    intro hs
    have hs' : c.IsShort := Core.forking_isShort.mp hs
    obtain ⟨h1, h2, h3, h4⟩ := hc hs'
    have hf : c.forking = { c with numberOfTrials := c.numberOfTrials / 2 } := by
      rw [Core.forking, if_pos hs']
    rw [hf]
    simp only [Core.withSlice]
    rcases hg hs' with h5 | h5
    · rw [h5] at ht
      exact absurd rfl ht
    · omega
  | forkTick _ hg ht h0 hstep => exact hstep.hasTrials_of_fork hc
  | reap => exact hc
  | orphan => exact hc

theorem TaskStep.hasTrials (h : TaskStep HZ ps trialGuard c c') (hc : c.HasTrials) :
    c'.HasTrials := by
  cases h with
  | tick h => exact h.hasTrials hc
  | share h => exact h.hasTrials hc
  | enter r n hp ha hg =>
    intro _
    have := hg
    simp only [trialGuard] at this
    dsimp only
    omega
  | setPolicy q i ho hq => exact fun hs => absurd hs.1 hq
  | _ => exact hc

theorem IdleStep.hasTrials (h : IdleStep HZ ps trialGuard c c') (hc : c.HasTrials) :
    c'.HasTrials := by
  cases h with
  | tick h => exact h.hasTrials hc
  | share h => exact h.hasTrials hc
  | _ => exact hc

theorem Core.HasTrials.forked (hc : c.HasTrials) : c.forked.HasTrials := by
  intro hs
  have hs' : c.IsShort := hs
  obtain ⟨h1, h2, h3, h4⟩ := hc hs'
  simp only [Core.forked, if_pos hs']
  omega

end

/-! Runs. -/

/-- A SHORT task forks only while its trials can be shared, and a task becomes SHORT only
with 1 to 50 trials. -/
def SharesTrials (k : Kernel) (op : Op) : Prop :=
  (op.child ≠ none → (k.core k.current).IsShort → (k.core k.current).CanShare) ∧
    ∀ acc ∈ op.accepted k, (k.tasks acc.target).policy = .other → acc.policy = .short →
      1 ≤ acc.user.deref .trialNumStore ∧ acc.user.deref .trialNumStore ≤ 50

instance (k : Kernel) (op : Op) : Decidable (SharesTrials k op) :=
  inferInstanceAs (Decidable (_ ∧ _))

theorem SharesTrials.permits {k : Kernel} {op : Op} (h : SharesTrials k op) :
    Permits trialGuard k op :=
  { Permits.free k op with
    fork := h.1
    enter := h.2 }

theorem runFromBoot_hasTrials {HZ : ℕ} {ops : List Op} {k : Kernel}
    (hC : AlongBoot HZ SharesTrials ops) (hr : runFromBoot HZ ops = some k) (p : TaskId) :
    (k.core p).HasTrials :=
  runFromBoot_tasks (I := Core.HasTrials) (fun h => by cases h.1)
    (fun _ _ _ => TaskStep.hasTrials) (fun _ _ _ => IdleStep.hasTrials)
    (fun _ _ hc _ _ => hc.forked) (fun _ _ _ _ h => h.permits) hC hr p

theorem sysRemainingTrials_short {k : Kernel} {pid : ℤ} {p : TaskId}
    (hp : k.pidhash.find? (fun p => (k.tasks p).pid = pid) = some p) (hs : Short (k.tasks p)) :
    sysRemainingTrials k pid = (k.tasks p).numberOfTrials - (k.tasks p).currentTrial := by
  simp only [sysRemainingTrials, hp, hs.1, hs.2, if_true, Bool.false_eq_true, if_false]

/-- In every run in which SHORT tasks fork only while their trials can be shared, every
SHORT task that is not overdue has used fewer than its 1 to 50 trials. -/
theorem trials_in_range (HZ : ℕ) (ops : List Op) (k : Kernel)
    (hC : AlongBoot HZ SharesTrials ops) (hr : runFromBoot HZ ops = some k) :
    (∀ p, Short (k.tasks p) →
      (1 ≤ (k.tasks p).numberOfTrials ∧ (k.tasks p).numberOfTrials ≤ 50) ∧
        0 ≤ (k.tasks p).currentTrial ∧ (k.tasks p).currentTrial < (k.tasks p).numberOfTrials) ∧
      ∀ pid p, k.pidhash.find? (fun p => (k.tasks p).pid = pid) = some p → Short (k.tasks p) →
        0 < sysRemainingTrials k pid := by
  have hall : ∀ p, Short (k.tasks p) →
      (1 ≤ (k.tasks p).numberOfTrials ∧ (k.tasks p).numberOfTrials ≤ 50) ∧
        0 ≤ (k.tasks p).currentTrial ∧ (k.tasks p).currentTrial < (k.tasks p).numberOfTrials := by
    intro p hs
    obtain ⟨h1, h2, h3, h4⟩ := runFromBoot_hasTrials hC hr p hs
    exact ⟨⟨h1, h2⟩, h3, h4⟩
  refine ⟨hall, fun pid p hp hs => ?_⟩
  rw [sysRemainingTrials_short hp hs]
  have := (hall p hs).2.2
  omega

/-- A task becomes SHORT and forks at once. -/
def shortForks (trials : ℤ) : List Op :=
  startTask ++ [.sysSchedSetscheduler 0 4 (shortParam 1000 trials), .doFork 2 2 false false]

theorem trials_in_range_shortForks : ∃ k ∈ runFromBoot 512 (shortForks 4),
    Short (k.tasks 1) ∧ (k.tasks 1).currentTrial < (k.tasks 1).numberOfTrials ∧
      0 < sysRemainingTrials k 2 := by
  obtain ⟨k, hk, hs, hs', hp⟩ : ∃ k ∈ runFromBoot 512 (shortForks 4), Short (k.tasks 1) ∧
      Short (k.tasks 2) ∧ k.pidhash.find? (fun p => (k.tasks p).pid = 2) = some 2 := by
    decide +kernel
  have h := trials_in_range 512 (shortForks 4) k (by decide +kernel) hk
  exact ⟨k, hk, hs, (h.1 1 hs).2.2, h.2 2 2 hp hs'⟩

/-- A SHORT task with a single trial has none left when it has forked. -/
theorem fork_uses_up_trials : AlongBoot 512 (fun _ _ => True) (shortForks 1) ∧
    ∃ k ∈ runFromBoot 512 (shortForks 1), Short (k.tasks 1) ∧
      (k.tasks 1).numberOfTrials = 0 ∧ sysRemainingTrials k 1 = 0 := by
  decide +kernel

/-! The split of a fork. -/

/-- The trials and the ticks that a SHORT task has left are shared between parent and child,
the odd one going to the child. -/
structure FairSplit (parent parent' child : TaskStruct) : Prop where
  childTrials : child.numberOfTrials - child.currentTrial =
    (parent.numberOfTrials - parent.currentTrial + 1) / 2
  parentTrials : parent'.numberOfTrials - parent'.currentTrial =
    (parent.numberOfTrials - parent.currentTrial) / 2
  allTrials : child.numberOfTrials - child.currentTrial +
    (parent'.numberOfTrials - parent'.currentTrial) = parent.numberOfTrials - parent.currentTrial
  childSlice : child.timeSlice = (parent.timeSlice + 1) / 2
  parentSlice : parent'.timeSlice = parent.timeSlice / 2
  allSlices : child.timeSlice + parent'.timeSlice = parent.timeSlice

instance (parent parent' child : TaskStruct) : Decidable (FairSplit parent parent' child) :=
  decidable_of_iff (_ ∧ _ ∧ _ ∧ _ ∧ _ ∧ _)
    ⟨fun ⟨h1, h2, h3, h4, h5, h6⟩ => ⟨h1, h2, h3, h4, h5, h6⟩,
      fun ⟨h1, h2, h3, h4, h5, h6⟩ => ⟨h1, h2, h3, h4, h5, h6⟩⟩

theorem u32_succ_eq_iff {t : ℕ} (ht : t < 4294967296) :
    u32 (t + 1) / 2 = (t + 1) / 2 ↔ t + 1 < 4294967296 := by
  unfold u32
  rcases Nat.lt_or_ge (t + 1) 4294967296 with h | h
  · rw [Int.emod_eq_of_lt (by omega) (by omega)]
    omega
  · obtain rfl : t = 4294967295 := by omega
    decide

theorem halved_sub_eq_iff (n c : ℤ) : n / 2 - c = (n - c) / 2 ↔
    c = 0 ∨ c = 1 ∧ n % 2 = 0 ∨ c = -1 ∧ n % 2 = 1 := by
  omega

/-- A fork shares the rest of a SHORT task's budget exactly when the parent has used no
trial, or one out of an even number, and the slice can still be counted up. -/
theorem forkSplit_fair_iff (k : Kernel) (child : TaskId) (pid : ℤ) (hc : k.current ≠ child)
    (hs : Short (k.tasks k.current)) (ht : (k.tasks k.current).timeSlice < 4294967296) :
    FairSplit (k.tasks k.current)
        ((forkSplit child (forkCopy child pid k)).tasks k.current)
        ((forkSplit child (forkCopy child pid k)).tasks child) ↔
      ((k.tasks k.current).currentTrial = 0 ∨
        (k.tasks k.current).currentTrial = 1 ∧ (k.tasks k.current).numberOfTrials % 2 = 0 ∨
        (k.tasks k.current).currentTrial = -1 ∧ (k.tasks k.current).numberOfTrials % 2 = 1) ∧
      (k.tasks k.current).timeSlice + 1 < 4294967296 := by
  have h := forkSplit_both pid hc
  have hsh : (k.core k.current).IsShort := hs
  rw [Core.forking, if_pos hsh] at h
  set n := (k.tasks k.current).numberOfTrials
  set c := (k.tasks k.current).currentTrial
  set t := (k.tasks k.current).timeSlice
  set parent := (forkSplit child (forkCopy child pid k)).tasks k.current
  set born := (forkSplit child (forkCopy child pid k)).tasks child
  have hn : parent.numberOfTrials = n / 2 := congrArg Core.numberOfTrials h.left
  have hcu : parent.currentTrial = c := congrArg Core.currentTrial h.left
  have hts : parent.timeSlice = t / 2 := congrArg Core.timeSlice h.left
  have hn' : born.numberOfTrials = (n - c + 1) / 2 := by
    have := congrArg Core.numberOfTrials h.right
    rwa [Core.forked, if_pos hsh] at this
  have hcu' : born.currentTrial = 0 := by
    have := congrArg Core.currentTrial h.right
    rwa [Core.forked, if_pos hsh, if_pos hsh] at this
  have hts' : born.timeSlice = u32 (t + 1) / 2 := congrArg Core.timeSlice h.right
  rw [← halved_sub_eq_iff, ← u32_succ_eq_iff ht]
  constructor
  · intro hf
    have h2 := hf.parentTrials
    have h4 := hf.childSlice
    rw [hn, hcu] at h2
    rw [hts'] at h4
    exact ⟨h2, h4⟩
  · rintro ⟨h2, h4⟩
    refine ⟨?_, ?_, ?_, ?_, hts, ?_⟩
    · rw [hn', hcu']
      omega
    · rw [hn, hcu]
      exact h2
    · rw [hn, hcu, hn', hcu', h2]
      omega
    · rw [hts', h4]
    · rw [hts, hts', h4]
      omega

theorem forkSplit_fair_shortTicks : ∃ k ∈ runFromBoot 512 (shortTicks 1000 5 2),
    FairSplit (k.tasks k.current) ((forkSplit 2 (forkCopy 2 2 k)).tasks k.current)
      ((forkSplit 2 (forkCopy 2 2 k)).tasks 2) := by
  obtain ⟨k, hk, hc, hs, ht, h0⟩ : ∃ k ∈ runFromBoot 512 (shortTicks 1000 5 2), k.current ≠ 2 ∧
      Short (k.tasks k.current) ∧ (k.tasks k.current).timeSlice = 510 ∧
        (k.tasks k.current).currentTrial = 0 := by
    decide +kernel
  exact ⟨k, hk, (forkSplit_fair_iff k 2 2 hc hs (by omega)).mpr ⟨Or.inl h0, by omega⟩⟩

/-- In its third trial out of five a task keeps no trial when it forks. -/
theorem fork_loses_trial : AlongBoot 512 (fun _ _ => True) (shortTicks 6 5 4) ∧
    ∃ k ∈ runFromBoot 512 (shortTicks 6 5 4), Short (k.tasks k.current) ∧
      (k.tasks k.current).numberOfTrials = 5 ∧ (k.tasks k.current).currentTrial = 2 ∧
      (k.tasks k.current).timeSlice = 1 ∧
      ((forkSplit 2 (forkCopy 2 2 k)).tasks k.current).numberOfTrials -
        ((forkSplit 2 (forkCopy 2 2 k)).tasks k.current).currentTrial = 0 ∧
      ¬ FairSplit (k.tasks k.current) ((forkSplit 2 (forkCopy 2 2 k)).tasks k.current)
        ((forkSplit 2 (forkCopy 2 2 k)).tasks 2) := by
  decide +kernel

end ShortSched
