import ShortSched.Population
import ShortSched.Slices

/-! The slices of ordinary tasks: those of `SCHED_OTHER` and `SCHED_RR` have one tick to
`MAX_TIMESLICE`, as long as no task gets one of these policies with the slice of another. -/
namespace ShortSched
open Relation PartialRun

def Policy.Ordinary (q : Policy) : Prop := q = .other ∨ q = .rr

instance (q : Policy) : Decidable q.Ordinary := inferInstanceAs (Decidable (_ ∨ _))

def SliceInBounds (n : ℕ) : Prop := 1 ≤ n ∧ (n : ℤ) ≤ maxTimeslice 512

instance (n : ℕ) : Decidable (SliceInBounds n) := inferInstanceAs (Decidable (_ ∧ _))

/-- Every existing task of `SCHED_OTHER` and `SCHED_RR` has a slice in bounds. -/
def SlicesBounded (k : Kernel) : Prop :=
  ∀ p, k.Exists p → (k.tasks p).policy.Ordinary → SliceInBounds (k.tasks p).timeSlice

instance (k : Kernel) : Decidable (SlicesBounded k) :=
  decidable_of_iff (∀ p ∈ k.rq.idle :: k.pidhash,
      (k.tasks p).policy.Ordinary → SliceInBounds (k.tasks p).timeSlice) (by
    simp only [SlicesBounded, Kernel.Exists, List.mem_cons]
    exact forall_congr' fun p => by rw [or_comm])

/-- A task that is not ordinary gets an ordinary policy only with a slice in bounds, and the
slice of an ordinary task does not wrap to zero when it reaps. -/
def KeepsBounds (k : Kernel) (op : Op) : Prop :=
  (∀ acc ∈ op.accepted k, acc.policy.Ordinary → ¬ (k.tasks acc.target).policy.Ordinary →
    SliceInBounds (k.tasks acc.target).timeSlice) ∧
  ∀ p ∈ op.released, (k.tasks k.current).policy.Ordinary → (k.tasks p).firstTimeSlice = true →
    u32 ((k.tasks k.current).timeSlice + (k.tasks p).timeSlice) ≠ 0

instance (k : Kernel) (op : Op) : Decidable (KeepsBounds k op) :=
  inferInstanceAs (Decidable ((∀ acc ∈ op.accepted k, _) ∧ ∀ p ∈ op.released, _))

def boundGuard : Guard := { Guard.free with
  change := fun c q => q.Ordinary → ¬ c.policy.Ordinary → SliceInBounds c.timeSlice
  reap := fun c child => c.policy.Ordinary → child.firstTimeSlice = true →
    u32 (c.timeSlice + child.timeSlice) ≠ 0 }

/-- The bounds, with what refills are computed from. -/
structure Core.SliceBounded (c : Core) : Prop where
  static : 100 ≤ c.staticPrio ∧ c.staticPrio < 140
  slice : c.policy.Ordinary → SliceInBounds c.timeSlice

section
variable {ps : Ptrs} {c c' : Core} {k k' : Kernel} {op : Op}

theorem sliceInBounds_iff {n : ℕ} : SliceInBounds n ↔ 1 ≤ n ∧ n ≤ 153 := by
  have h : maxTimeslice 512 = 153 := by decide
  rw [SliceInBounds, h]
  omega

theorem taskTimeslice_inBounds (hc : c.SliceBounded) :
    SliceInBounds (taskTimeslice 512 c.staticPrio) :=
  sliceInBounds_iff.mpr (taskTimeslice_range hc.static)

theorem Policy.not_ordinary_short : ¬ Policy.short.Ordinary := by decide

theorem TickStep.sliceBounded (h : TickStep 512 ps c c') (hc : c.SliceBounded) :
    c'.SliceBounded := by
  cases h with
  | skip => exact hc
  | down _ ht =>
    constructor
    · exact hc.static
    · intro hp
      have hb := sliceInBounds_iff.mp (hc.slice hp)
      rw [u32_of_range (by omega) (by omega)] at ht ⊢
      rw [sliceInBounds_iff]
      dsimp only
      omega
  | trial hs => exact ⟨hc.static, fun hp => absurd (hs.1 ▸ hp) Policy.not_ordinary_short⟩
  | overdue hs => exact ⟨hc.static, fun hp => absurd (hs.1 ▸ hp) Policy.not_ordinary_short⟩
  | rrSlice => exact ⟨hc.static, fun _ => taskTimeslice_inBounds hc⟩
  | otherSlice => exact ⟨hc.static, fun _ => taskTimeslice_inBounds hc⟩

theorem Core.SliceBounded.forking (hc : c.SliceBounded) {n : ℕ}
    (hn : c.policy.Ordinary → SliceInBounds n) : (c.forking.withSlice n).SliceBounded := by
  have hs : c.forking.staticPrio = c.staticPrio := by
    unfold Core.forking
    split_ifs <;> rfl
  constructor
  · change 100 ≤ c.forking.staticPrio ∧ c.forking.staticPrio < 140
    rw [hs]
    exact hc.static
  · intro hp
    rw [show (c.forking.withSlice n).policy = c.policy from c.forking_policy] at hp
    exact hn hp

theorem ShareStep.sliceBounded (h : ShareStep 512 ps boundGuard c c') (hc : c.SliceBounded) :
    c'.SliceBounded := by
  cases h with
  | fork _ ht =>
    apply hc.forking
    intro hp
    have hb := sliceInBounds_iff.mp (hc.slice hp)
    rw [sliceInBounds_iff]
    omega
  | forkTick _ _ ht h0 hstep =>
    exact hstep.sliceBounded (hc.forking fun _ => sliceInBounds_iff.mpr (by decide))
  | reap child hg hf =>
    constructor
    · exact hc.static
    · intro hp
      have hu := hg hp hf
      have h' : maxTimeslice 512 = 153 := by decide
      have h'' : u32 153 = 153 := by decide
      rw [sliceInBounds_iff]
      simp only [Core.withSlice, reapedSlice, h', h'']
      split_ifs <;> omega
  | orphan => exact ⟨hc.static, hc.slice⟩

theorem TaskStep.sliceBounded (h : TaskStep 512 ps boundGuard c c') (hc : c.SliceBounded) :
    c'.SliceBounded := by
  cases h with
  | tick h => exact h.sliceBounded hc
  | share h => exact h.sliceBounded hc
  | nice s _ hs => exact ⟨hs, hc.slice⟩
  | niceOff s _ hs => exact ⟨hs, hc.slice⟩
  | niceOn a s _ hs => exact ⟨hs, hc.slice⟩
  | enter => exact ⟨hc.static, fun hp => absurd hp Policy.not_ordinary_short⟩
  | setPolicy q i _ _ _ _ _ hg =>
    constructor
    · exact hc.static
    · intro hq
      by_cases hp : c.policy.Ordinary
      · exact hc.slice hp
      · exact hg hq hp
  | _ => exact ⟨hc.static, hc.slice⟩

theorem IdleStep.sliceBounded (h : IdleStep 512 ps boundGuard c c') (hc : c.SliceBounded) :
    c'.SliceBounded := by
  cases h with
  | tick h => exact h.sliceBounded hc
  | share h => exact h.sliceBounded hc
  | _ => exact ⟨hc.static, hc.slice⟩

theorem Core.SliceBounded.forked (hc : c.SliceBounded) (i : ℤ) :
    (c.forked.withPrio i).SliceBounded := by
  constructor
  · exact hc.static
  · intro hp
    have hb := sliceInBounds_iff.mp (hc.slice hp)
    rw [sliceInBounds_iff]
    simp only [Core.withPrio, Core.forked]
    rw [u32_of_range (by omega) (by omega)]
    omega

theorem KeepsBounds.permits (h : KeepsBounds k op) : Permits boundGuard k op :=
  { Permits.free k op with
    change := fun acc ha _ hq hn => by
      have h1 := h.1 acc ha hq
      rw [Core.left_policy] at hn
      rw [(Core.left_slices _).2]
      exact h1 hn
    reap := fun p hp => h.2 p hp }

theorem SlicesBounded.exec (hk : SlicesBounded k) (hs : Sound k) (hp : Populated k)
    (he : Enabled k op) (hc : KeepsBounds k op) (h : exec 512 op k = some k') :
    SlicesBounded k' := by
  have hall : ∀ q, k.Exists q → (k.core q).SliceBounded := fun q hq =>
    ⟨hs.arranged.static q, hk q hq⟩
  intro q hq
  exact ((exec_effect h he hs.idle hc.permits).existing_invariant hp
    (fun _ _ _ => TaskStep.sliceBounded) (fun _ _ _ => IdleStep.sliceBounded)
    (fun _ i hc _ _ => hc.forked i) hall q hq).slice

/-- From every state with the slices of ordinary tasks in bounds, they are in bounds in every
state of a run in which no task gets an ordinary policy with a slice out of bounds and none of
them wraps to zero. -/
theorem ordinary_slices_bounded (k0 : Kernel) (hs : Sound k0) (hp : Populated k0)
    (h0 : SlicesBounded k0) (ops : List Op)
    (hC : Along (exec 512) (fun k op => Enabled k op ∧ KeepsBounds k op) ops k0) (k : Kernel)
    (hr : run (exec 512) ops k0 = some k) : SlicesBounded k := by
  have hrun := run_invariant (I := fun k => (Sound k ∧ Populated k) ∧ SlicesBounded k)
    (fun k op k' hk ho h => ?_) ⟨⟨hs, hp⟩, h0⟩ hC hr
  · exact hrun.2
  · obtain ⟨⟨hs, hp⟩, hb⟩ := hk
    exact ⟨⟨hs.exec ho.1 h, hp.exec hs ho.1 h⟩, hb.exec hs hp ho.1 ho.2 h⟩

end

/-- The slice of the boot task is shared until it is in bounds. -/
def sharedBoot : List Op := [.initIdle, .doFork 1 1 false false, .doFork 2 2 false false,
  .schedule none, .doFork 3 3 false false]

/-- Task 1 becomes SHORT and leaves the policy again. -/
def shortDetour (requestedTime : ℤ) : List Op :=
  [.sysSchedSetscheduler 0 4 (shortParam requestedTime 50), .sysSchedSetscheduler 0 0 otherParam]

theorem ordinary_slices_bounded_shortDetour : ∃ k0 ∈ runFromBoot 512 sharedBoot,
    SlicesBounded k0 ∧ ∃ k ∈ run (exec 512) (shortDetour 100) k0, SlicesBounded k ∧
      (k.tasks 1).policy = .other ∧ (k.tasks 1).timeSlice = 51 := by
  obtain ⟨k0, hk0, hb, hC, k, hk, hp, ht⟩ : ∃ k0 ∈ runFromBoot 512 sharedBoot,
      SlicesBounded k0 ∧
      Along (exec 512) (fun k op => Enabled k op ∧ KeepsBounds k op) (shortDetour 100) k0 ∧
        ∃ k ∈ run (exec 512) (shortDetour 100) k0,
          (k.tasks 1).policy = .other ∧ (k.tasks 1).timeSlice = 51 := by
    decide +kernel
  have hboot : AlongBoot 512 (fun _ _ => True) sharedBoot := by decide +kernel
  obtain ⟨hs, hpop⟩ := runFromBoot_populated hboot hk0
  exact ⟨k0, hk0, hb, k, hk, ordinary_slices_bounded k0 hs hpop hb _ hC k hk, hp, ht⟩

/-- A task that leaves the SHORT policy keeps its slice of five seconds. -/
theorem short_slice_is_kept : AlongBoot 512 (fun _ _ => True) sharedBoot ∧
    ∃ k0 ∈ runFromBoot 512 sharedBoot, SlicesBounded k0 ∧
      Along (exec 512) Enabled (shortDetour 5000) k0 ∧
      ∃ k ∈ run (exec 512) (shortDetour 5000) k0, (k.tasks 1).policy = .other ∧
        (k.tasks 1).timeSlice = 2560 ∧ ¬ SlicesBounded k := by
  decide +kernel

end ShortSched
