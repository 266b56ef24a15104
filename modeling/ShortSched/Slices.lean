import ShortSched.System

/-! Time slices with `HZ = 512`: no slice is ever zero, so that neither the count down of
`scheduler_tick` wraps nor `do_fork` stops at `BUG()`. -/
namespace ShortSched
open Relation

theorem u32_of_range {x : ℤ} (h0 : 0 ≤ x) (h1 : x < 4294967296) : u32 x = x.toNat := by
  unfold u32
  rw [Int.emod_eq_of_lt h0 h1]

/-- The slice of a trial is the requested time in ticks over the number of the trial, as long
as the ticks of five seconds fit into an `int`. -/
theorem shortTimeslice_eq {HZ : ℕ} (hHZ : HZ * 5000 < 2147483648) {r c : ℤ}
    (hr : 0 ≤ r ∧ r ≤ 5000) (hc : 0 ≤ c) :
    shortTimeslice HZ r c = (r * HZ / 1000 / (c + 1)).toNat := by
  have h0 : 0 ≤ r * HZ := Int.mul_nonneg hr.1 (by omega)
  have hle : r * HZ ≤ 5000 * HZ := Int.mul_le_mul_of_nonneg_right hr.2 (by omega)
  have h1 : i32 (r * HZ) = r * HZ := by
    unfold i32
    rw [Int.bmod_eq_of_le] <;> omega
  have h2 : (r * HZ).tdiv 1000 = r * HZ / 1000 := Int.tdiv_eq_ediv_of_nonneg h0
  have h3 : 0 ≤ r * HZ / 1000 := by omega
  have h4 : 0 ≤ r * HZ / 1000 / (c + 1) := Int.ediv_nonneg h3 (by omega)
  have h5 : r * HZ / 1000 / (c + 1) ≤ r * HZ / 1000 := Int.ediv_le_self _ h3
  unfold shortTimeslice
  rw [h1, h2, Int.tdiv_eq_ediv_of_nonneg h3]
  exact u32_of_range h4 (by omega)

theorem shortTimeslice_le {r c : ℤ} (hr : 0 ≤ r ∧ r ≤ 5000) (hc : 0 ≤ c) :
    shortTimeslice 512 r c ≤ 2560 := by
  have h3 : 0 ≤ r * 512 / 1000 := by omega
  have h5 : r * 512 / 1000 / (c + 1) ≤ r * 512 / 1000 := Int.ediv_le_self _ h3
  rw [shortTimeslice_eq (by decide) hr hc, show ((512 : ℕ) : ℤ) = 512 from rfl]
  omega

theorem taskTimeslice_range {s : ℤ} (hs : 100 ≤ s ∧ s < 140) :
    1 ≤ taskTimeslice 512 s ∧ taskTimeslice 512 s ≤ 153 := by
  have h1 : (148 * (139 - s)).tdiv 39 = 148 * (139 - s) / 39 :=
    Int.tdiv_eq_ediv_of_nonneg (by omega)
  have h2 : taskTimeslice 512 s = u32 (5 + (148 * (139 - s)).tdiv 39) := rfl
  rw [h2, h1, u32_of_range (by omega) (by omega)]
  omega

/-- What keeps a slice at one tick or more: the bounds on the slice itself and on the
fields that refills are computed from. -/
structure Core.SliceOk (c : Core) : Prop where
  slice : 1 ≤ c.timeSlice ∧ c.timeSlice ≤ 2560
  static : 100 ≤ c.staticPrio ∧ c.staticPrio < 140
  time : c.policy = .short → 0 ≤ c.requestedTime ∧ c.requestedTime ≤ 5000
  trial : c.policy = .short → 0 ≤ c.currentTrial

def sliceGuard : Guard := { Guard.free with
  update := fun requestedTime => 1 ≤ requestedTime ∧ requestedTime ≤ 5000
  enter := fun _ requestedTime _ => 2 ≤ requestedTime ∧ requestedTime ≤ 5000
  reap := fun _ => Core.SliceOk }

section
variable {ps : Ptrs} {c c' : Core}

theorem TickStep.sliceOk (h : TickStep 512 ps c c') (hc : c.SliceOk) : c'.SliceOk := by
  have ht := hc.slice
  have hu : u32 (c.timeSlice - 1) = c.timeSlice - 1 := by
    rw [u32_of_range (by omega) (by omega)]
    omega
  cases h with
  | skip => exact hc
  | down _ h0 =>
    rw [hu] at h0 ⊢
    exact { hc with slice := ⟨Nat.one_le_iff_ne_zero.mpr h0, by simp only; omega⟩ }
  | trial hs _ _ _ hz =>
    have h0 := hc.trial hs.1
    have hl := shortTimeslice_le (hc.time hs.1) (c := c.currentTrial + 1) (by omega)
    exact ⟨⟨Nat.one_le_iff_ne_zero.mpr hz, hl⟩, hc.static, hc.time, fun hp => by
      simp only [Core.on]
      omega⟩
  | overdue hs =>
    have h0 := hc.trial hs.1
    exact ⟨⟨le_rfl, show 1 ≤ 2560 by decide⟩, hc.static, hc.time, fun hp => by
      simp only [Core.on]
      omega⟩
  | rrSlice =>
    have h1 := taskTimeslice_range hc.static
    exact ⟨⟨h1.1, h1.2.trans (by decide)⟩, hc.static, hc.time, hc.trial⟩
  | otherSlice =>
    have h1 := taskTimeslice_range hc.static
    exact ⟨⟨h1.1, h1.2.trans (by decide)⟩, hc.static, hc.time, hc.trial⟩

theorem Core.SliceOk.forking (hc : c.SliceOk) {n : ℕ} (hn : 1 ≤ n ∧ n ≤ 2560) :
    (c.forking.withSlice n).SliceOk := by
  unfold Core.forking
  split_ifs
  · exact ⟨hn, hc.static, hc.time, hc.trial⟩
  · exact ⟨hn, hc.static, hc.time, hc.trial⟩

theorem reapedSlice_range {t u : ℕ} (ht : 1 ≤ t ∧ t ≤ 2560) (hu : 1 ≤ u ∧ u ≤ 2560) :
    1 ≤ reapedSlice 512 t u ∧ reapedSlice 512 t u ≤ 2560 := by
  have h1 : u32 ((t : ℤ) + u) = t + u := by
    rw [u32_of_range (by omega) (by omega)]
    omega
  have h2 : maxTimeslice 512 = 153 := rfl
  have h3 : u32 153 = 153 := rfl
  unfold reapedSlice
  rw [h1, h2, h3]
  dsimp only
  split_ifs <;> omega

theorem ShareStep.sliceOk (h : ShareStep 512 ps sliceGuard c c') (hc : c.SliceOk) :
    c'.SliceOk := by
  have ht := hc.slice
  cases h with
  | fork _ h0 => exact hc.forking (by omega)
  | forkTick _ _ _ _ hstep => exact hstep.sliceOk (hc.forking (by decide))
  | reap child hg => exact { hc with slice := reapedSlice_range ht hg.slice }
  | orphan => exact { hc with }

theorem TaskStep.sliceOk (h : TaskStep 512 ps sliceGuard c c') (hc : c.SliceOk) :
    c'.SliceOk := by
  cases h with
  | tick h => exact h.sliceOk hc
  | share h => exact h.sliceOk hc
  | nice s _ hs => exact { hc with static := hs }
  | niceOff s _ hs => exact { hc with static := hs }
  | niceOn a s _ hs => exact ⟨hc.slice, hs, hc.time, hc.trial⟩
  | enter r n hp ha hg =>
    have h1 := shortTimeslice_le (r := r) (c := 0) ⟨by have := hg.1; omega, hg.2⟩ le_rfl
    refine ⟨⟨?_, h1⟩, hc.static, fun _ => ⟨by have := hg.1; simp only; omega, hg.2⟩,
      fun _ => le_rfl⟩
    have := hg.1
    have := hg.2
    simp only
    rw [shortTimeslice_eq (by decide) (by omega) le_rfl]
    omega
  | update r hs hg =>
    exact { hc with time := fun _ => ⟨by have := hg.1; simp only; omega, hg.2⟩ }
  | setPolicy q i ho hq =>
    exact ⟨hc.slice, hc.static, fun hp => absurd hp hq, fun hp => absurd hp hq⟩
  | _ => exact ⟨hc.slice, hc.static, hc.time, hc.trial⟩

theorem IdleStep.sliceOk (h : IdleStep 512 ps sliceGuard c c') (hc : c.SliceOk) :
    c'.SliceOk := by
  cases h with
  | tick h => exact h.sliceOk hc
  | share h => exact h.sliceOk hc
  | _ => exact ⟨hc.slice, hc.static, hc.time, hc.trial⟩

theorem Core.SliceOk.forked (hc : c.SliceOk) : c.forked.SliceOk := by
  have ht := hc.slice
  have h1 : u32 ((c.timeSlice : ℤ) + 1) = c.timeSlice + 1 := by
    rw [u32_of_range (by omega) (by omega)]
    omega
  refine ⟨?_, hc.static, hc.time, fun hp => ?_⟩
  · simp only [Core.forked, h1]
    omega
  · simp only [Core.forked]
    split_ifs
    · exact le_rfl
    · exact hc.trial hp

end

/-! Runs. -/

/-- Accepted calls that leave a task SHORT store a requested time of 1 to 5000 ms. -/
def InRange (k : Kernel) (op : Op) : Prop :=
  ∀ acc ∈ op.accepted k, acc.policy = .short →
    1 ≤ acc.user.deref .requestedTimeStore ∧ acc.user.deref .requestedTimeStore ≤ 5000

/-- No task becomes SHORT with a requested time of 1 ms, less than a tick. -/
def EntersWithTick (k : Kernel) (op : Op) : Prop :=
  ∀ acc ∈ op.accepted k, (k.tasks acc.target).policy = .other → acc.policy = .short →
    acc.user.deref .requestedTimeStore ≠ 1

instance (k : Kernel) (op : Op) : Decidable (InRange k op) :=
  inferInstanceAs (Decidable (∀ acc ∈ op.accepted k, acc.policy = .short →
    1 ≤ acc.user.deref .requestedTimeStore ∧ acc.user.deref .requestedTimeStore ≤ 5000))

instance (k : Kernel) (op : Op) : Decidable (EntersWithTick k op) :=
  inferInstanceAs (Decidable (∀ acc ∈ op.accepted k, (k.tasks acc.target).policy = .other →
    acc.policy = .short → acc.user.deref .requestedTimeStore ≠ 1))

theorem EntersWithTick.permits {k : Kernel} {op : Op} (h : EntersWithTick k op)
    (hr : InRange k op) (hk : ∀ q, (k.core q).SliceOk) : Permits sliceGuard k op where
  fork _ _ := trivial
  forkTick _ _ := trivial
  change _ _ _ := trivial
  tick _ := trivial
  yield _ _ _ := trivial
  reap p _ := hk p
  enter acc ha ht hs := by
    have h1 := hr acc ha hs
    have h2 := h acc ha ht hs
    exact ⟨by omega, h1.2⟩
  update acc ha _ hs := hr acc ha hs

/-- With parameters in range, and as long as no task becomes SHORT with 1 ms, no task ever
has an empty slice: counting one tick does not wrap, and `do_fork` does not reach `BUG()`. -/
theorem timeSlice_never_zero (ops : List Op) (k : Kernel)
    (hC : AlongBoot 512 (fun k op => InRange k op ∧ EntersWithTick k op) ops)
    (hr : runFromBoot 512 ops = some k) :
    (∀ p, 1 ≤ (k.tasks p).timeSlice ∧
        u32 ((k.tasks p).timeSlice - 1) + 1 = (k.tasks p).timeSlice) ∧
      (k.tasks k.current).timeSlice ≠ 0 := by
  have hboot : (initTask 512).core.SliceOk := by
    constructor
    · decide
    · decide
    · intro h
      cases h
    · intro h
      cases h
  have hall : ∀ p, (k.core p).SliceOk :=
    runFromBoot_tasks (I := Core.SliceOk) hboot
      (fun _ _ _ => TaskStep.sliceOk) (fun _ _ _ => IdleStep.sliceOk)
      (fun _ _ hc _ _ => { hc.forked with }) (fun _ _ hk _ h => h.2.permits h.1 hk) hC hr
  have hslice : ∀ p, 1 ≤ (k.tasks p).timeSlice ∧ (k.tasks p).timeSlice ≤ 2560 :=
    fun p => (hall p).slice
  refine ⟨fun p => ⟨(hslice p).1, ?_⟩, Nat.one_le_iff_ne_zero.mp (hslice _).1⟩
  have := hslice p
  rw [u32_of_range (by omega) (by omega)]
  omega

/-- The boot task starts a task that becomes SHORT. -/
def shortEnters (requestedTime trials : ℤ) : List Op :=
  startTask ++ [.sysSchedSetscheduler 0 4 (shortParam requestedTime trials)]

theorem timeSlice_never_zero_shortEnters : ∃ k ∈ runFromBoot 512 (shortEnters 2 50),
    (k.tasks 1).policy = .short ∧ 1 ≤ (k.tasks 1).timeSlice := by
  obtain ⟨k, hk, hs⟩ : ∃ k ∈ runFromBoot 512 (shortEnters 2 50),
      (k.tasks 1).policy = .short := by
    decide +kernel
  exact ⟨k, hk, hs,
    ((timeSlice_never_zero (shortEnters 2 50) k (by decide +kernel) hk).1 1).1⟩

/-- A task that becomes SHORT with 1 ms has an empty slice, the tick counts it down from
zero, and a fork before the tick stops at `BUG()`. -/
theorem one_ms_is_no_slice : AlongBoot 512 InRange (shortEnters 1 50) ∧
    (∃ k ∈ runFromBoot 512 (shortEnters 1 50), k.current = 1 ∧ (k.tasks 1).timeSlice = 0 ∧
      u32 ((k.tasks 1).timeSlice - 1) = 4294967295) ∧
    runFromBoot 512 (shortEnters 1 50 ++ [.doFork 2 2 false false]) = none := by
  refine ⟨by decide +kernel, by decide +kernel, ?_⟩
  rw [← Option.isNone_iff_eq_none]
  decide +kernel

end ShortSched
