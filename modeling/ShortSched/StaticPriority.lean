import ShortSched.ClassOrder

/-! The priority of SHORT tasks: it is the static one, unless a task that is alone at its
priority yields while there are SHORT tasks only behind it. -/
namespace ShortSched
open Relation PartialRun Buckets

/-- The running task keeps its queue when it yields: it is not alone there, or a queue before it
is occupied, or none behind it. -/
def Kernel.YieldsInPlace (k : Kernel) : Prop :=
  (∃ q ∈ k.queue k.rq.shortQ (k.tasks k.current).prio, q ≠ k.current) ∨
  (∃ j < 140, (j : ℕ) < (k.tasks k.current).prio ∧ k.queue k.rq.shortQ j ≠ []) ∨
  ∀ j < 140, (k.tasks k.current).prio < (j : ℕ) → k.queue k.rq.shortQ j = []

instance (k : Kernel) : Decidable k.YieldsInPlace :=
  inferInstanceAs (Decidable (_ ∨ _ ∨ _))

/-- SHORT tasks yield in place. -/
def KeepsStaticPrio (k : Kernel) (op : Op) : Prop :=
  op = .sysSchedYield → Short (k.tasks k.current) → k.YieldsInPlace

instance (k : Kernel) : (op : Op) → Decidable (KeepsStaticPrio k op)
  | .sysSchedYield => decidable_of_iff (Short (k.tasks k.current) → k.YieldsInPlace)
      (by simp [KeepsStaticPrio])
  | .advance _ | .setSigpending .. | .setCredentials .. | .setCurrentState _ | .schedule _
  | .schedulerTick | .tryToWakeUp _ | .wakeUpForkedProcess _ | .doFork .. | .setUserNice ..
  | .sysNice _ | .sysSchedSetscheduler .. | .sysSchedSetparam .. | .exitNotify ..
  | .releaseTask _ | .initIdle => isTrue nofun

def Core.AtStaticPrio (c : Core) : Prop := c.IsShort → c.prio = c.staticPrio

def placeGuard : Guard := { Guard.free with yield := fun c i => c.IsShort → i = c.prio }

section
variable {HZ : ℕ} {ps : Ptrs} {c c' : Core} {k k' : Kernel} {op : Op} {p : TaskId}
  {a : ArrayIdx} {i : ℤ}

/-- The queue to which a task yields that is alone at its priority. -/
theorem yieldPrio_eq {q : PrioArray} (h : ArrayOk q)
    (hq : (∃ j < 140, (j : ℕ) < i ∧ q.queue j ≠ []) ∨
      ∀ j < 140, i < (j : ℕ) → q.queue j = []) :
    yieldPrio (clearBit i q).bitmap i = i := by
  have hmark : ∀ j ∈ prios, j ≠ i → ((clearBit i q).bitmap j = true ↔ q.queue j ≠ []) := by
    intro j hj hne
    change Function.update q.bitmap i false j = true ↔ _
    rw [Function.update_of_ne hne]
    exact h.marked j hj
  have hb := nextMark_bounds (b := (clearBit i q).bitmap) (i := 0) (n := 140)
  set f := schedFindFirstBit (clearBit i q).bitmap with hf
  change 0 ≤ f ∧ f ≤ 0 + (140 : ℕ) at hb
  have hmax : maxPrio = 140 := rfl
  unfold yieldPrio
  dsimp only
  rw [← hf]
  split_ifs with hc
  · rfl
  · rw [hmax] at hc
    rcases hq with ⟨j, hj, hlt, hne⟩ | hnone
    · have hset : (clearBit i q).bitmap j = true := (hmark j (by simp; omega) hlt.ne).mpr hne
      have hle : f ≤ j := nextMark_le (by omega) hset
      omega
    · have hset : (clearBit i q).bitmap f = true := nextMark_marked (i := 0) (n := 140) (by
        change f < 0 + (140 : ℕ)
        omega)
      have hne := (hmark f (by simp; omega) (by omega)).mp hset
      obtain ⟨n, hn⟩ := Int.eq_ofNat_of_zero_le hb.1
      rw [hn] at hne
      exact absurd (hnone n (by omega) (by omega)) hne

/-- A SHORT task that yields in place keeps its priority. -/
theorem Sound.yieldTarget_eq (h : Sound k) (hs : Short (k.tasks k.current))
    (hy : k.YieldsInPlace) (hi : i ∈ k.yieldTarget) : i = (k.tasks k.current).prio := by
  obtain ⟨a, ha, hi⟩ := Option.bind_eq_some_iff.mp hi
  obtain ⟨m, hm, rfl⟩ := Option.map_eq_some_iff.mp hi
  obtain ⟨⟨c, b, j⟩, hl, hc, rfl⟩ := listDel_eq_some.mp hm
  obtain ⟨hb, hj⟩ := h.shape.home _ _ hl
  dsimp only at hb hj hc
  obtain rfl : b = a := Option.some.inj (hb.symm.trans ha)
  subst hj hc
  have hp : k.current ∈ k.queue b (k.tasks k.current).prio := h.shape.mem_iff.mpr hl
  have hshort : b = k.rq.shortQ := (h.separated _ _ _ hp).2.1 hs
  dsimp only
  split_ifs with hcase
  · rfl
  · rw [not_or, not_not] at hcase
    have he : (k.queue b (k.tasks k.current).prio).erase k.current = [] := by
      simpa [Kernel.queue, Kernel.modQueue, Kernel.modArray] using hcase.2
    have hbit : (clearBit (k.tasks k.current).prio (((k.modQueue b (k.tasks k.current).prio
        (·.erase k.current)).mod k.current fun t => { t with runList := none }).rq.arrays
          b)).bitmap = (clearBit (k.tasks k.current).prio (k.rq.arrays b)).bitmap := by
      simp [Kernel.modQueue, Kernel.modArray, clearBit]
    rw [hbit]
    apply yieldPrio_eq (h.shape.arrays b)
    rcases hy with ⟨q, hq, hne⟩ | hy
    · rw [← hshort] at hq
      have := (List.mem_erase_of_ne hne).mpr hq
      rw [he] at this
      cases this
    · rw [hshort]
      exact hy

/-! Runs. -/

/-- A priority that fits a task, with the range in which it is recomputed. -/
structure Core.StaticOk (c : Core) : Prop where
  static : 100 ≤ c.staticPrio ∧ c.staticPrio < 140
  prio : c.AtStaticPrio

theorem Core.Dynamic.static (h : c.Dynamic i) (hc : c.StaticOk) (hs : c.IsShort) :
    i = c.staticPrio := h.2.2 hs hc.static.1 hc.static.2

theorem TickStep.staticOk (h : TickStep HZ ps c c') (hc : c.StaticOk) : c'.StaticOk := by
  cases h with
  | overdue => exact ⟨hc.static, fun hs => by cases hs.2⟩
  | otherSlice a i hp => exact ⟨hc.static, fun hs => absurd hs.1 hp⟩
  | _ => exact ⟨hc.static, hc.prio⟩

theorem Core.StaticOk.forking (hc : c.StaticOk) (n : ℕ) : (c.forking.withSlice n).StaticOk := by
  unfold Core.forking
  split_ifs <;> exact ⟨hc.static, hc.prio⟩

theorem ShareStep.staticOk {π : Guard} (h : ShareStep HZ ps π c c') (hc : c.StaticOk) :
    c'.StaticOk := by
  cases h with
  | fork => exact hc.forking _
  | forkTick _ _ _ _ hstep => exact hstep.staticOk (hc.forking 1)
  | reap => exact ⟨hc.static, hc.prio⟩
  | orphan => exact ⟨hc.static, hc.prio⟩

theorem TaskStep.staticOk (h : TaskStep HZ ps placeGuard c c') (hc : c.StaticOk) :
    c'.StaticOk := by
  cases h with
  | tick h => exact h.staticOk hc
  | share h => exact h.staticOk hc
  | activate i _ hi =>
    constructor
    · exact hc.static
    · intro hs
      rcases hi with rfl | ⟨-, hi⟩
      · exact hc.prio hs
      · exact hi.static hc hs
  | recompute i _ _ hi => exact ⟨hc.static, fun hs => hi.static hc hs⟩
  | yield a i _ _ _ _ hg => exact ⟨hc.static, fun hs => (hg hs).trans (hc.prio hs)⟩
  | nice s hp hs => exact ⟨hs, fun hc' => absurd hc'.1 hp⟩
  | niceOff s hp hs => exact ⟨hs, fun hc' => absurd hc'.1 hp⟩
  | niceOn a s hp hs => exact ⟨hs, fun hc' => absurd hc'.1 hp⟩
  | enter => exact ⟨hc.static, fun _ => rfl⟩
  | setPolicy q _ _ hq => exact ⟨hc.static, fun hs => absurd hs.1 hq⟩
  | _ => exact ⟨hc.static, hc.prio⟩

theorem Core.StaticOk.forked (hc : c.StaticOk) (hi : c.Fresh i) :
    (c.forked.withPrio i).StaticOk := by
  constructor
  · exact hc.static
  · intro hs
    have hs' : c.IsShort := hs
    rcases hi with ⟨-, rfl⟩ | ⟨-, hi⟩
    · exact hc.prio hs'
    · exact hi.static hc hs'

theorem KeepsStaticPrio.permits (h : KeepsStaticPrio k op) (hs : Sound k) :
    Permits placeGuard k op :=
  { Permits.free k op with
    yield := fun ho _ hi hc => hs.yieldTarget_eq hc (h ho hc) hi }

theorem Effect.atStaticPrio (h : Effect HZ placeGuard op k k') (hs : Sound k) (hs' : Sound k')
    (hk : ∀ q, (k.core q).AtStaticPrio) (q : TaskId) : (k'.core q).AtStaticPrio := by
  refine (h.others_invariant (I := Core.StaticOk) ⟨hs'.arranged.static _, fun hsh => ?_⟩
    (fun _ _ => TaskStep.staticOk) (fun _ _ hc hi _ => hc.forked hi)
    (fun q => ⟨hs.arranged.static q, hk q⟩) q).prio
  cases hsh.1.symm.trans hs'.idle.policy

theorem runFromBoot_atStaticPrio {ops : List Op} (hC : AlongBoot HZ KeepsStaticPrio ops)
    (hr : runFromBoot HZ ops = some k) : Sound k ∧ ∀ q, (k.core q).AtStaticPrio := by
  refine (runFromBoot_invariant (J := fun k => Sound k ∧ ∀ q, (k.core q).AtStaticPrio)
    (fun k hk => ⟨schedInit_sound hk, fun q => ?_⟩) (fun k op k' _ hk he hc h => ?_) hC hr).2
  · have hm : Moves HZ placeGuard 0 (bootKernel HZ) k := schedInit_moves hk
    have h0 : (initTask HZ).core.StaticOk :=
      ⟨⟨show (100 : ℤ) ≤ 120 by decide, show (120 : ℤ) < 140 by decide⟩, fun hs => by cases hs.1⟩
    by_cases hq : q = 0
    · rw [hq]
      exact (steps_invariant (I := Core.StaticOk) (fun _ _ => TaskStep.staticOk) hm.steps h0).prio
    · rw [hm.rest q hq]
      exact h0.prio
  · have hs' := hk.1.exec he h
    exact ⟨hs', (exec_effect h he hk.1.idle (hc.permits hk.1)).atStaticPrio hk.1 hs' hk.2⟩

theorem Sound.short_prio (h : Sound k) (hs : Short (k.tasks p)) : 100 ≤ (k.tasks p).prio := by
  have hne : p ≠ k.rq.idle := by
    rintro rfl
    cases h.idle.policy.symm.trans hs.1
  have hp : (k.core p).PrioOk := (h.arranged.tasks p hne).prio
  exact (hp.short ⟨hs.1, hs.2⟩).1

/-- The SHORT task that is chosen has the least priority value of the SHORT tasks. -/
theorem schedule_short_least (h : Sound k) (hk : schedule k = some k')
    (hs : Short (k'.tasks k'.current)) {q : TaskId} (hl : k'.Linked q)
    (hq : Short (k'.tasks q)) : (k'.tasks k'.current).prio ≤ (k'.tasks q).prio := by
  have hexec : exec 0 (.schedule none) k = some k' := hk
  have he : Enabled k (.schedule none) := trivial
  have hprio := (h.exec he hexec).short_prio hs
  obtain ⟨m, hm, ⟨next, n⟩, hn, rfl⟩ := schedule_eq_some.mp hk
  obtain ⟨next', n', hn', hcase⟩ := (h.wellOrdered.schedulePrev hm).pickNext
  cases hn.symm.trans hn'
  have hmv : Moves 0 Guard.free k.current k m := schedulePrev_moves hm
  obtain ⟨hsw, hcur, -⟩ := pickNext_switch hn
  obtain ⟨hsw', -, hcur'⟩ := switchTasks_switch (k := n) k.current next (hcur.trans hmv.curr)
  generalize switchTasks k.current next n = k' at hs hl hq hprio hsw' hcur' hexec
  obtain rfl : k'.current = next := hcur'
  have hcore : (swapArrays m).core = k'.core := by
    rw [(swapArrays_switch m).core, hsw'.core, hsw.core]
  have hlink : ∀ p, m.Linked p ↔ k'.Linked p := fun p => by rw [hsw'.linked, hsw.linked]
  have hprio' : ∀ p, ((swapArrays m).tasks p).prio = (k'.tasks p).prio := fun p =>
    congrArg Core.prio (congrFun hcore p)
  have hshort : ∀ p, Short (k'.tasks p) → Short ((swapArrays m).tasks p) := fun p hp => by
    have hc : ((swapArrays m).core p).IsShort := by rw [hcore]; exact hp
    exact hc
  rcases hcase with ⟨hnone, -⟩ | ⟨-, hchoice⟩
  · exact absurd ((hlink q).mpr hl) (hnone q)
  · cases hchoice with
    | realTime hp =>
      have hlt : ((swapArrays m).tasks k'.current).prio < 100 := hp.1
      rw [hprio'] at hlt
      omega
    | short _ _ hmin =>
      have hle := hmin q ((swapArrays_switch m).linked.mpr ((hlink q).mpr hl)) (hshort q hq)
      rwa [hprio', hprio'] at hle
    | other _ _ hp => exact absurd (hshort _ hs).1 hp.2
    | overdue _ _ _ hp => cases hp.2.symm.trans (hshort _ hs).2

/-- In every run in which SHORT tasks yield in place, the priority of every SHORT task is its
static priority, and a SHORT task is only chosen when none with a better one is linked. -/
theorem short_prio_is_static (HZ : ℕ) (ops : List Op) (k : Kernel)
    (hC : AlongBoot HZ KeepsStaticPrio ops) (hr : runFromBoot HZ ops = some k) :
    (∀ p, Short (k.tasks p) → (k.tasks p).prio = (k.tasks p).staticPrio) ∧
      ∀ k' ∈ schedule k, Short (k'.tasks k'.current) → ∀ q, k'.Linked q → Short (k'.tasks q) →
        (k'.tasks k'.current).staticPrio ≤ (k'.tasks q).staticPrio := by
  obtain ⟨hs, hall⟩ := runFromBoot_atStaticPrio hC hr
  constructor
  · exact hall
  · intro k' hk hcur q hl hq
    have hexec : exec HZ (.schedule none) k = some k' := hk
    have he : Enabled k (.schedule none) := trivial
    have hyield : KeepsStaticPrio k (.schedule none) := fun h => by cases h
    have hs' := hs.exec he hexec
    have hall' : ∀ q, (k'.core q).AtStaticPrio :=
      (exec_effect hexec he hs.idle (hyield.permits hs)).atStaticPrio hs hs' hall
    have hle := schedule_short_least hs hk hcur hl hq
    have h1 : (k'.tasks k'.current).prio = (k'.tasks k'.current).staticPrio := hall' _ hcur
    have h2 : (k'.tasks q).prio = (k'.tasks q).staticPrio := hall' q hq
    rwa [h1, h2] at hle

end

/-- Task 1 and its child become SHORT, the child with the given nice value, and task 1 yields. -/
def yieldsTo (nice : ℤ) : List Op :=
  startTask ++ [.doFork 2 2 false false, .setUserNice 2 nice,
    .sysSchedSetscheduler 2 4 (shortParam 1000 4), .sysSchedSetscheduler 1 4 (shortParam 1000 4),
    .schedule none, .sysSchedYield]

theorem short_prio_is_static_yieldsTo : ∃ k ∈ runFromBoot 512 (yieldsTo 0),
    Short (k.tasks 1) ∧ (k.tasks 1).prio = (k.tasks 1).staticPrio ∧
      ∃ k' ∈ schedule k, Short (k'.tasks k'.current) ∧
        (k'.tasks k'.current).staticPrio ≤ (k'.tasks 1).staticPrio := by
  obtain ⟨k, hk, hs, k', hk', hcur, hs', hq⟩ : ∃ k ∈ runFromBoot 512 (yieldsTo 0),
      Short (k.tasks 1) ∧ ∃ k' ∈ schedule k, Short (k'.tasks k'.current) ∧
        Short (k'.tasks 1) ∧ 1 ∈ k'.queue k'.rq.shortQ 120 := by
    decide +kernel
  have h := short_prio_is_static 512 (yieldsTo 0) k (by decide +kernel) hk
  exact ⟨k, hk, hs, h.1 1 hs, k', hk', hcur, h.2 k' hk' hcur 1 ⟨_, _, hq⟩ hs'⟩

/-- A task that is alone at priority 120 moves to 125 when it yields, and the task that was
there goes on. -/
theorem yield_leaves_static_prio : AlongBoot 512 (fun _ _ => True) (yieldsTo 5) ∧
    ∃ k ∈ runFromBoot 512 (yieldsTo 5), Short (k.tasks 1) ∧ (k.tasks 1).staticPrio = 120 ∧
      (k.tasks 1).prio = 125 ∧ k.current = 2 ∧ (k.tasks 2).staticPrio = 125 := by
  decide +kernel

end ShortSched
