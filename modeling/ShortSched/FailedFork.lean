import ShortSched.ForkFailure
import ShortSched.System

/-! What a `do_fork` that fails leaves behind. -/
namespace ShortSched

section
variable {ω : Type}

/-- The fields of the caller, the runqueue and the counters are as they were. -/
structure Untouched (s s' : Machine ω) : Prop where
  timeSlice : (s'.kernel.tasks s.current).timeSlice = (s.kernel.tasks s.current).timeSlice
  numberOfTrials :
    (s'.kernel.tasks s.current).numberOfTrials = (s.kernel.tasks s.current).numberOfTrials
  currentTrial : (s'.kernel.tasks s.current).currentTrial = (s.kernel.tasks s.current).currentTrial
  policy : (s'.kernel.tasks s.current).policy = (s.kernel.tasks s.current).policy
  sleepAvg : (s'.kernel.tasks s.current).sleepAvg = (s.kernel.tasks s.current).sleepAvg
  vforkDone : (s'.proc s.current).vforkDone = (s.proc s.current).vforkDone
  rq : s'.kernel.rq = s.kernel.rq
  nrThreads : s'.nrThreads = s.nrThreads
  users : s'.users = s.users

/-- A structure is not shared, and there is no memory for a new one. -/
def NoMemory (r : Shared) (share : Bool) (new : Shared → Option ℕ) : Prop :=
  share = false ∧ new r = none

/-- A copy fails: there is something to copy, and no memory. -/
def CopyFails (r : Shared) (share : Bool) (new : Shared → Option ℕ) (s : Machine ω) : Prop :=
  (s.proc s.current).shared r ≠ none ∧ NoMemory r share new

/-- One of the copies fails; `fs` and `sig` are allocated before there is a look at what the
running task has. -/
def CopiesFail (flags : CloneFlags) (new : Shared → Option ℕ) (s : Machine ω) : Prop :=
  CopyFails .files flags.files new s ∨ NoMemory .fs flags.fs new ∨
    NoMemory .sig flags.sighand new ∨ CopyFails .mm flags.vm new s

/-- No thread or no number is free, or a copy fails. -/
def StartFails (flags : CloneFlags) (supply : Supply) (s : Machine ω) : Prop :=
  s.nrThreads ≥ s.maxThreads ∨
    (getPid flags supply.pid s = 0 ∧ (s.kernel.tasks s.current).pid ≠ 0) ∨
    CopiesFail flags supply.new s

/-- The call fails before it has an `mm` for the child. -/
def FailsEarly (flags : CloneFlags) (supply : Supply) (s : Machine ω) : Prop :=
  (flags.newns ∧ flags.fs) ∨ (flags.pid ∧ (s.kernel.tasks s.current).pid ≠ 0) ∨
    supply.task = none ∨ overLimit s.current s ∨ StartFails flags supply s

/-- Apart from the reference counts, only the task_struct of `p` differs. -/
structure Aside (p : TaskId) (s t : Machine ω) : Prop where
  rq : t.kernel.rq = s.kernel.rq
  tasks : ∀ q ≠ p, t.kernel.tasks q = s.kernel.tasks q
  proc : ∀ q ≠ p, t.proc q = s.proc q
  owner : (t.proc p).user = (s.proc p).user
  users : t.users = s.users
  nrThreads : t.nrThreads = s.nrThreads
  maxThreads : t.maxThreads = s.maxThreads

variable {s t u s' : Machine ω} {p q : TaskId} {x : Outside ω} {HZ : ℕ} {flags : CloneFlags}
  {new : Shared → Option ℕ} {r : Shared} {supply : Supply}

theorem Aside.refl (p : TaskId) (s : Machine ω) : Aside p s s :=
  ⟨rfl, fun _ _ => rfl, fun _ _ => rfl, rfl, rfl, rfl, rfl⟩

theorem Aside.trans (h : Aside p s t) (h' : Aside p t u) : Aside p s u where
  rq := h'.rq.trans h.rq
  tasks q hq := (h'.tasks q hq).trans (h.tasks q hq)
  proc q hq := (h'.proc q hq).trans (h.proc q hq)
  owner := h'.owner.trans h.owner
  users := h'.users.trans h.users
  nrThreads := h'.nrThreads.trans h.nrThreads
  maxThreads := h'.maxThreads.trans h.maxThreads

theorem Aside.current (h : Aside p s t) : t.current = s.current :=
  congrArg Runqueue.curr h.rq

/-! What may be done aside. -/

theorem Aside.modProc (h : Aside p s t) {f : Process → Process} (hf : ∀ a, (f a).user = a.user) :
    Aside p s (t.modProc p f) := by
  apply h.trans
  refine ⟨rfl, fun _ _ => rfl, fun q hq => Function.update_of_ne hq _ _, ?_, rfl, rfl, rfl⟩
  simp only [Machine.modProc, Function.update_self, hf]

theorem Aside.modTask (h : Aside p s t) (f : TaskStruct → TaskStruct) :
    Aside p s (t.modKernel fun k => k.mod p f) :=
  h.trans ⟨rfl, fun _ hq => Kernel.mod_tasks_ne hq, fun _ _ => rfl, rfl, rfl, rfl, rfl⟩

theorem Aside.modCount (h : Aside p s t) (r : Shared) (i : ℕ) (f : ℤ → ℤ) :
    Aside p s (t.modCount r i f) :=
  ⟨h.rq, h.tasks, h.proc, h.owner, h.users, h.nrThreads, h.maxThreads⟩

theorem Aside.modMmCount (h : Aside p s t) (i : ℕ) (f : ℤ → ℤ) : Aside p s (t.modMmCount i f) :=
  ⟨h.rq, h.tasks, h.proc, h.owner, h.users, h.nrThreads, h.maxThreads⟩

theorem Aside.modWorld (h : Aside p s t) (f : ω → ω) : Aside p s (t.modWorld f) :=
  ⟨h.rq, h.tasks, h.proc, h.owner, h.users, h.nrThreads, h.maxThreads⟩

/-! The copies. -/

theorem withShared_user (r : Shared) (i : Option ℕ) (a : Process) :
    (a.withShared r i).user = a.user := rfl

theorem copyShared_aside (r : Shared) (share : Bool) (new : Option ℕ) (h : Aside p s t) :
    Aside p s (copyShared r share new p t).2 := by
  unfold copyShared
  cases (t.proc t.current).shared r with
  | none => exact h
  | some i =>
    dsimp only
    split_ifs
    · exact h.modCount r i (· + 1)
    · cases new with
      | none => exact h.modProc (withShared_user r none)
      | some n => exact (h.modProc (withShared_user r (some n))).modCount r n fun _ => 1

theorem copyShared_fails (r : Shared) (share : Bool) (new : Shared → Option ℕ) (p : TaskId)
    (t : Machine ω) : (copyShared r share (new r) p t).1 = false ↔ CopyFails r share new t := by
  unfold copyShared CopyFails NoMemory
  cases hi : (t.proc t.current).shared r with
  | none => simp
  | some i =>
    cases share with
    | true => simp
    | false => cases new r <;> simp

theorem copyMm_aside (flags : CloneFlags) (new : Option ℕ) (h : Aside p s t) :
    Aside p s (copyMm flags new p t).2 := by
  have h1 : Aside p s (t.modProc p fun a => { a.withShared .mm none with activeMm := none }) :=
    h.modProc fun _ => rfl
  unfold copyMm
  cases (t.proc t.current).shared .mm with
  | none => exact h1
  | some m =>
    dsimp only
    split_ifs
    · exact (h1.modCount .mm m (· + 1)).modProc
        (f := fun a => { a.withShared .mm (some m) with activeMm := some m }) fun _ => rfl
    · cases new with
      | none => exact h1
      | some n =>
        have h2 := (h1.modCount .mm n fun _ => 1).modMmCount n fun _ => 1
        exact h2.modProc
          (f := fun a => { a.withShared .mm (some n) with activeMm := some n }) fun _ => rfl

theorem copyMm_fails (flags : CloneFlags) (new : Shared → Option ℕ) (p : TaskId) (t : Machine ω) :
    (copyMm flags (new .mm) p t).1 = false ↔ CopyFails .mm flags.vm new t := by
  unfold copyMm CopyFails NoMemory
  dsimp only
  cases hi : (t.proc t.current).shared .mm with
  | none => simp
  | some i =>
    cases hv : flags.vm with
    | true => simp
    | false => cases new .mm <;> simp

/-- The running task has what it had. -/
theorem Aside.copyFails_iff (h : Aside p s t) (hp : p ≠ s.current) (share : Bool) :
    CopyFails r share new t ↔ CopyFails r share new s := by
  unfold CopyFails
  rw [h.current, h.proc _ hp.symm]

/-! The ladder. Below `exit_mm` it touches nothing of the caller, and at its foot it gives
back what was taken from the user. -/

theorem exitShared_aside (r : Shared) (h : Aside p s t) : Aside p s (exitShared r p t) := by
  unfold exitShared
  cases (t.proc p).shared r with
  | none => exact h
  | some i => exact (h.modProc (withShared_user r none)).modCount r i _

/-- The user has one reference more than at least one. -/
theorem badForkCleanupCount_aside (hx : x.DropsReference)
    (hu : 1 ≤ (s.users (s.proc p).user).count) (h : Aside p (chargeUser p s) t) :
    Aside p s (badForkCleanupCount x p t) := by
  have howner : (t.proc p).user = (s.proc p).user := h.owner
  have huser : t.users (s.proc p).user =
      ⟨(s.users (s.proc p).user).count + 1, (s.users (s.proc p).user).processes + 1⟩ := by
    rw [h.users]
    exact Function.update_self _ _ _
  refine ⟨h.rq, h.tasks, h.proc, howner, ?_, h.nrThreads, h.maxThreads⟩
  funext v
  simp only [badForkCleanupCount, Machine.modUser, howner]
  by_cases hv : v = (s.proc p).user
  · subst hv
    rw [Function.update_self, huser, hx _ (by dsimp only; omega)]
    simp
  · rw [Function.update_of_ne hv, h.users]
    exact Function.update_of_ne hv _ _

section
variable (hx : x.DropsReference) (hu : 1 ≤ (s.users (s.proc p).user).count)
include hx hu

theorem badForkCleanup_aside (h : Aside p (chargeUser p s) t) :
    Aside p s (badForkCleanup x p t) := by
  apply badForkCleanupCount_aside hx hu
  have h1 := h.modWorld (x.putExecDomain (t.proc p).execDomain)
  cases hm : (t.proc p).binfmtModule with
  | none => simpa only [Machine.modWorld, hm] using h1
  | some m => simpa only [Machine.modWorld, hm] using h1.modWorld (x.decUseCount m)

theorem badForkCleanupFiles_aside (h : Aside p (chargeUser p s) t) :
    Aside p s (badForkCleanupFiles x p t) :=
  badForkCleanup_aside hx hu (exitShared_aside .files h)

theorem badForkCleanupFs_aside (h : Aside p (chargeUser p s) t) :
    Aside p s (badForkCleanupFs x p t) :=
  badForkCleanupFiles_aside hx hu (exitShared_aside .fs h)

theorem badForkCleanupSighand_aside (h : Aside p (chargeUser p s) t) :
    Aside p s (badForkCleanupSighand x p t) :=
  badForkCleanupFs_aside hx hu
    ⟨h.rq, h.tasks, h.proc, h.owner, h.users, h.nrThreads, h.maxThreads⟩

end

/-! Below `exit_mm` the other tasks stay as they are. -/

theorem exitShared_proc (r : Shared) (hq : q ≠ p) : (exitShared r p t).proc q = t.proc q := by
  unfold exitShared
  cases (t.proc p).shared r with
  | none => rfl
  | some i => exact Function.update_of_ne hq _ _

theorem badForkCleanup_proc : (badForkCleanup x p t).proc = t.proc := by
  unfold badForkCleanup
  dsimp only [Machine.modWorld]
  cases (t.proc p).binfmtModule <;> rfl

theorem badForkCleanupSighand_proc (hq : q ≠ p) :
    (badForkCleanupSighand x p t).proc q = t.proc q := by
  unfold badForkCleanupSighand badForkCleanupFs badForkCleanupFiles exitFs exitFiles
  rw [badForkCleanup_proc, exitShared_proc .files hq, exitShared_proc .fs hq]

/-! `exit_mm`. -/

theorem mmput_aside (m : ℕ) (h : Aside p s t) : Aside p s (mmput m t) := by
  have h1 := h.modCount .mm m (· - 1)
  unfold mmput
  dsimp only
  split_ifs
  · exact h1.modMmCount m _
  · exact h1

theorem complete_proc {c : TaskId} (h : complete HZ c s = some t) : t.proc = s.proc := by
  obtain ⟨k, -, rfl⟩ := Option.map_eq_some_iff.mp h
  rfl

/-- `exit_mm` is about the task it is called for, but for `mm_release`. -/
theorem exitMm_parts (h : exitMm HZ p t = some s') :
    ∃ u, mmRelease HZ t = some u ∧ Aside p u s' := by
  obtain ⟨u, hu, h⟩ := Option.bind_eq_some_iff.mp h
  refine ⟨u, hu, ?_⟩
  cases hm : (t.proc p).shared .mm with
  | none =>
    rw [hm] at h
    cases h
    exact Aside.refl p _
  | some m =>
    rw [hm] at h
    dsimp only at h
    split_ifs at h
    cases h
    have h1 := (Aside.refl p u).modMmCount m (· + 1)
    exact mmput_aside m (h1.modProc (withShared_user .mm none))

theorem exitMm_quiet (h : exitMm HZ p t = some s') (hv : (t.proc t.current).vforkDone = none) :
    Aside p t s' := by
  obtain ⟨u, hu, ha⟩ := exitMm_parts h
  unfold mmRelease at hu
  rw [hv] at hu
  cases hu
  exact ha

theorem exitMm_releases (h : exitMm HZ p t = some s') (hp : p ≠ t.current)
    (hv : (t.proc t.current).vforkDone ≠ none) : (s'.proc t.current).vforkDone = none := by
  obtain ⟨u, hu, ha⟩ := exitMm_parts h
  obtain ⟨c, hc⟩ := Option.ne_none_iff_exists'.mp hv
  unfold mmRelease at hu
  rw [hc] at hu
  have hproc := complete_proc hu
  rw [ha.proc _ hp.symm, hproc]
  simp only [Machine.modProc, Function.update_self]

/-! The copies in a row. -/

/-- A copy that comes out with `ok` is done aside, and `ok` says whether it failed. -/
theorem copyShared_parts {b : Machine ω} {share ok : Bool} (hp : p ≠ b.current)
    (h : copyShared r share (new r) p t = (ok, u)) (ha : Aside p b t) :
    Aside p b u ∧ (ok = false ↔ CopyFails r share new b) := by
  have h1 := copyShared_aside r share (new r) ha
  have h2 := copyShared_fails r share new p t
  rw [h] at h1 h2
  exact ⟨h1, h2.trans (ha.copyFails_iff hp share)⟩

theorem copyPresent_parts {b : Machine ω} {share ok : Bool}
    (h : copyPresent r share (new r) p t = some (ok, u)) (ha : Aside p b t) :
    Aside p b u ∧ (ok = false ↔ NoMemory r share new) := by
  unfold copyPresent at h
  unfold NoMemory
  cases share with
  | true =>
    obtain ⟨i, -, h⟩ := Option.map_eq_some_iff.mp h
    cases h
    exact ⟨ha.modCount r i (· + 1), by simp⟩
  | false =>
    cases hn : new r with
    | none =>
      rw [hn] at h
      cases h
      exact ⟨ha.modProc (withShared_user r none), by simp⟩
    | some n =>
      rw [hn] at h
      obtain ⟨i, -, h⟩ := Option.map_eq_some_iff.mp h
      cases h
      exact ⟨(ha.modProc (withShared_user r (some n))).modCount r n fun _ => 1, by simp⟩

theorem copyMm_parts {b : Machine ω} {ok : Bool} (hp : p ≠ b.current)
    (h : copyMm flags (new .mm) p t = (ok, u)) (ha : Aside p b t) :
    Aside p b u ∧ (ok = false ↔ CopyFails .mm flags.vm new b) := by
  have h1 := copyMm_aside flags (new .mm) ha
  have h2 := copyMm_fails flags new p t
  rw [h] at h1 h2
  exact ⟨h1, h2.trans (ha.copyFails_iff hp flags.vm)⟩

/-- Either a copy fails, and what was taken is given back, or all of them are made and the child
has its `mm` when `exit_mm` is called for it. -/
theorem copyProcess_failed {ret : ℤ} (hx : x.DropsReference)
    (hu : 1 ≤ (s.users (s.proc p).user).count) (hp : p ≠ s.current)
    (ha : Aside p (chargeUser p s) t)
    (h : copyProcess x HZ flags new p t = some (ret, s')) (hret : ret ≠ 0) :
    (CopiesFail flags new s ∧ Aside p s s') ∨
      (¬CopiesFail flags new s ∧
        ∃ u, Aside p (chargeUser p s) u ∧ badForkCleanupMm x HZ p u = some s') := by
  have hp' : p ≠ (chargeUser p s).current := hp
  unfold copyProcess at h
  rcases h1 : copyFiles flags (new .files) p t with ⟨ok1, t1⟩
  obtain ⟨ha1, hf1⟩ := copyShared_parts hp' h1 ha
  rw [h1] at h
  dsimp only at h
  by_cases hok1 : ok1 = false
  · rw [if_pos hok1] at h
    cases h
    exact .inl ⟨.inl (hf1.mp hok1), badForkCleanup_aside hx hu ha1⟩
  rw [if_neg hok1] at h
  obtain ⟨⟨ok2, t2⟩, h2, h⟩ := Option.bind_eq_some_iff.mp h
  obtain ⟨ha2, hf2⟩ := copyPresent_parts h2 ha1
  dsimp only at h
  by_cases hok2 : ok2 = false
  · rw [if_pos hok2] at h
    cases h
    exact .inl ⟨.inr (.inl (hf2.mp hok2)), badForkCleanupFiles_aside hx hu ha2⟩
  rw [if_neg hok2] at h
  obtain ⟨⟨ok3, t3⟩, h3, h⟩ := Option.bind_eq_some_iff.mp h
  obtain ⟨ha3, hf3⟩ := copyPresent_parts h3 ha2
  dsimp only at h
  by_cases hok3 : ok3 = false
  · rw [if_pos hok3] at h
    cases h
    exact .inl ⟨.inr (.inr (.inl (hf3.mp hok3))), badForkCleanupFs_aside hx hu ha3⟩
  rw [if_neg hok3] at h
  rcases h4 : copyMm flags (new .mm) p t3 with ⟨ok4, t4⟩
  obtain ⟨ha4, hf4⟩ := copyMm_parts hp' h4 ha3
  rw [h4] at h
  dsimp only at h
  by_cases hok4 : ok4 = false
  · rw [if_pos hok4] at h
    cases h
    exact .inl ⟨.inr (.inr (.inr (hf4.mp hok4))), badForkCleanupSighand_aside hx hu ha4⟩
  rw [if_neg hok4] at h
  have hmade : ¬CopiesFail flags new s := by
    rintro (hf | hf | hf | hf)
    · exact hok1 (hf1.mpr hf)
    · exact hok2 (hf2.mpr hf)
    · exact hok3 (hf3.mpr hf)
    · exact hok4 (hf4.mpr hf)
  refine .inr ⟨hmade, ?_⟩
  have ha5 := ha4.modWorld fun _ => (x.copyNamespace flags p t4.world).2
  split_ifs at h with hok5 hok6
  · obtain ⟨u, hu, h⟩ := Option.map_eq_some_iff.mp h
    cases h
    exact ⟨_, ha5, hu⟩
  · obtain ⟨u, hu, h⟩ := Option.map_eq_some_iff.mp h
    cases h
    have ha6 := ha5.modWorld
      fun _ => (x.copyThread flags p (x.copyNamespace flags p t4.world).2).2
    exact ⟨_, ha6.modWorld (x.exitNamespace p), hu⟩
  · cases h
    exact absurd rfl hret

/-! From the charge of the user on. -/

theorem getFormat_aside (h : Aside p s t) : Aside p s (getFormat x p t) := by
  have h1 := h.modWorld (x.getExecDomain (t.proc p).execDomain)
  unfold getFormat
  dsimp only [Machine.modWorld]
  cases (t.proc p).binfmtModule with
  | none => exact h1
  | some m => exact h1.modWorld (x.incUseCount m)

theorem initChild_aside (flags : CloneFlags) (h : Aside p s t) :
    Aside p s (initChild flags p t) := by
  have h1 := h.modTask fun a => { a with runList := none, sigpending := false, array := none }
  unfold initChild
  dsimp only
  split_ifs
  · have h2 := h1.modProc (f := fun a => { a with vforkDone := some t.current }) fun _ => rfl
    exact ⟨h2.rq, h2.tasks, h2.proc, h2.owner, h2.users, h2.nrThreads, h2.maxThreads⟩
  · exact h1.modProc (f := fun a => { a with vforkDone := none }) fun _ => rfl

/-- The number of a child is not negative; a caller that shares its own is process 0. -/
theorem getPid_nonneg (hpid : ¬(flags.pid ∧ (s.kernel.tasks s.current).pid ≠ 0)) (found : ℕ) :
    0 ≤ getPid flags found s := by
  unfold getPid
  split_ifs with hf
  · have h0 : (s.kernel.tasks s.current).pid = 0 := by
      by_contra hne
      exact hpid ⟨hf, hne⟩
    rw [h0]
  · exact Int.natCast_nonneg found

/-- Either the start fails, and the user gets back what was charged, or `exit_mm` is called with
the user still charged. -/
theorem startChild_failed {ret : ℤ} (hx : x.DropsReference)
    (hu : 1 ≤ (s.users (s.proc p).user).count) (hp : p ≠ s.current)
    (hpid : ¬(flags.pid ∧ (s.kernel.tasks s.current).pid ≠ 0))
    (h : startChild x HZ flags supply p s = some (ret, s')) (hret : ret < 0) :
    (StartFails flags supply s ∧ Aside p s s') ∨
      (¬StartFails flags supply s ∧
        ∃ u, Aside p (chargeUser p s) u ∧ badForkCleanupMm x HZ p u = some s') := by
  have ha := Aside.refl p (chargeUser p s)
  unfold startChild at h
  dsimp only at h
  by_cases hthr : (chargeUser p s).nrThreads ≥ (chargeUser p s).maxThreads
  · rw [if_pos hthr] at h
    cases h
    exact .inl ⟨.inl hthr, badForkCleanupCount_aside hx hu ha⟩
  rw [if_neg hthr] at h
  have ha1 := (getFormat_aside (x := x) ha).modTask fun t =>
    { t with state := .uninterruptible, pid := getPid flags supply.pid (chargeUser p s) }
  generalize Machine.modKernel _ (getFormat x p (chargeUser p s)) = c at h ha1
  have hcaller : c.kernel.tasks c.current = s.kernel.tasks s.current := by
    rw [ha1.current]
    exact ha1.tasks _ hp.symm
  rw [hcaller] at h
  by_cases hnum : getPid flags supply.pid s = 0 ∧ (s.kernel.tasks s.current).pid ≠ 0
  · have hnum' : getPid flags supply.pid (chargeUser p s) = 0 ∧
        (s.kernel.tasks s.current).pid ≠ 0 := hnum
    rw [if_pos hnum'] at h
    cases h
    exact .inl ⟨.inr (.inl hnum), badForkCleanup_aside hx hu ha1⟩
  have hnum' : ¬(getPid flags supply.pid (chargeUser p s) = 0 ∧
      (s.kernel.tasks s.current).pid ≠ 0) := hnum
  rw [if_neg hnum'] at h
  obtain ⟨⟨retval, v⟩, hcopy, h⟩ := Option.bind_eq_some_iff.mp h
  by_cases hr0 : retval = 0
  · rw [if_neg (not_not.mpr hr0)] at h
    obtain ⟨k, -, hk⟩ := Option.map_eq_some_iff.mp h
    cases hk
    exact absurd hret (not_lt.mpr (getPid_nonneg hpid supply.pid))
  rw [if_pos hr0] at h
  cases h
  obtain ⟨hf, ht⟩ | ⟨hf, hmm⟩ :=
    copyProcess_failed hx hu hp (initChild_aside flags ha1) hcopy hr0
  · exact .inl ⟨.inr (.inr hf), ht⟩
  · refine .inr ⟨?_, hmm⟩
    rintro (he | he | he)
    · exact hthr he
    · exact hnum he
    · exact hf he

/-! The whole call. The copy of the caller has its limit, its user and its rights. -/

theorem dupTask_task (hp : p ≠ s.current) :
    (dupTask p s).kernel.tasks s.current = s.kernel.tasks s.current :=
  Kernel.mod_tasks_ne (k := s.kernel) (f := fun _ => s.kernel.tasks s.current) hp.symm

theorem dupTask_proc (hp : p ≠ s.current) : (dupTask p s).proc s.current = s.proc s.current :=
  Function.update_of_ne hp.symm _ _

theorem dupTask_child : (dupTask p s).proc p = s.proc s.current := Function.update_self _ _ _

theorem overLimit_dupTask (hp : p ≠ s.current) :
    overLimit p (dupTask p s) ↔ overLimit s.current s := by
  have hcur : (dupTask p s).current = s.current := rfl
  unfold overLimit
  rw [dupTask_child, hcur, dupTask_proc hp]
  rfl

theorem startFails_dupTask (flags : CloneFlags) (supply : Supply) (hp : p ≠ s.current) :
    StartFails flags supply (dupTask p s) ↔ StartFails flags supply s := by
  have hcur : (dupTask p s).current = s.current := rfl
  unfold StartFails CopiesFail CopyFails getPid
  rw [hcur, dupTask_task hp, dupTask_proc hp]
  rfl

theorem Aside.untouched (h : Aside p (dupTask p s) s') (hp : p ≠ s.current) : Untouched s s' := by
  have htask := (h.tasks _ hp.symm).trans (dupTask_task hp)
  have hproc := (h.proc _ hp.symm).trans (dupTask_proc hp)
  constructor
  case rq => exact h.rq
  case nrThreads => exact h.nrThreads
  case users => exact h.users
  case vforkDone => rw [hproc]
  all_goals rw [htask]

theorem untouched_self (s : Machine ω) : Untouched s s :=
  ⟨rfl, rfl, rfl, rfl, rfl, rfl, rfl, rfl, rfl⟩

/-- A call that fails early leaves the caller untouched, and one that fails later goes through
`exit_mm` with the user still charged. -/
theorem doFork_failed {ret : ℤ} (hx : x.DropsReference)
    (hfresh : ∀ p, supply.task = some p → p ≠ s.current)
    (hu : 1 ≤ (s.users (s.proc s.current).user).count)
    (h : s.doFork x HZ flags supply = some (ret, s')) (hret : ret < 0) :
    (FailsEarly flags supply s ∧ Untouched s s') ∨
      (¬FailsEarly flags supply s ∧ ∃ p u, p ≠ s.current ∧
        Aside p (chargeUser p (dupTask p s)) u ∧ badForkCleanupMm x HZ p u = some s') := by
  unfold Machine.doFork at h
  by_cases hns : flags.newns ∧ flags.fs
  · rw [if_pos hns] at h
    cases h
    exact .inl ⟨.inl hns, untouched_self s⟩
  rw [if_neg hns] at h
  by_cases hcp : flags.pid ∧ (s.kernel.tasks s.current).pid ≠ 0
  · rw [if_pos hcp] at h
    cases h
    exact .inl ⟨.inr (.inl hcp), untouched_self s⟩
  rw [if_neg hcp] at h
  cases htask : supply.task with
  | none =>
    rw [htask] at h
    cases h
    exact .inl ⟨.inr (.inr (.inl htask)), untouched_self s⟩
  | some p =>
    have hp := hfresh p htask
    have hlim := overLimit_dupTask hp
    have hstart := startFails_dupTask flags supply hp
    rw [htask] at h
    dsimp only at h
    split_ifs at h with hl
    · cases h
      exact .inl ⟨.inr (.inr (.inr (.inl (hlim.mp hl)))), (Aside.refl p _).untouched hp⟩
    · rw [← dupTask_child (p := p)] at hu
      rw [← dupTask_task hp] at hcp
      obtain ⟨hf, ht⟩ | ⟨hf, u, hmm⟩ :=
        startChild_failed (s := dupTask p s) hx hu hp hcp h hret
      · exact .inl ⟨.inr (.inr (.inr (.inr (hstart.mp hf)))), ht.untouched hp⟩
      · refine .inr ⟨?_, p, u, hp, hmm⟩
        rintro (he | he | he | he | he)
        · exact hns he
        · exact hcp (by rwa [dupTask_task hp])
        · exact absurd (htask.symm.trans he) (Option.some_ne_none p)
        · exact hl (hlim.mpr he)
        · exact hf (hstart.mpr he)

/-- A call that fails leaves its caller untouched exactly if no parent waits for the caller, or
it never came to `exit_mm`. -/
theorem failed_fork_untouched_iff {ret : ℤ} (hx : x.DropsReference)
    (hfresh : ∀ p, supply.task = some p → p ≠ s.current)
    (hu : 1 ≤ (s.users (s.proc s.current).user).count)
    (h : s.doFork x HZ flags supply = some (ret, s')) (hret : ret < 0) :
    Untouched s s' ↔ (s.proc s.current).vforkDone = none ∨ FailsEarly flags supply s := by
  obtain ⟨he, ht⟩ | ⟨hl, p, u, hp, ha, hc⟩ := doFork_failed hx hfresh hu h hret
  · exact ⟨fun _ => .inr he, fun _ => ht⟩
  have hcur : u.current = s.current := ha.current
  have hproc : u.proc s.current = s.proc s.current := (ha.proc _ hp.symm).trans (dupTask_proc hp)
  obtain ⟨v, hv, rfl⟩ := Option.map_eq_some_iff.mp hc
  constructor
  · intro ht
    by_contra hno
    obtain ⟨hwait, -⟩ := not_or.mp hno
    have hnone : (v.proc s.current).vforkDone = none := by
      rw [← hcur]
      refine exitMm_releases hv (hcur ▸ hp) ?_
      rwa [hcur, hproc]
    have hkept := ht.vforkDone
    rw [badForkCleanupSighand_proc hp.symm, hnone] at hkept
    exact hwait hkept.symm
  · intro hor
    have hnone := hor.resolve_right hl
    have hq : Aside p u v := exitMm_quiet hv (by rwa [hcur, hproc])
    rw [← dupTask_child (p := p)] at hu
    exact (badForkCleanupSighand_aside hx hu (ha.trans hq)).untouched hp

end

/-! A namespace for which there is no memory. -/

/-- Only `copy_namespace` fails, and only when it is asked for a new one. -/
def noNamespace : Outside Unit where
  freeUid u := { u with count := u.count - 1 }
  exitSighand sig count i := if sig = some i then count i - 1 else count i
  getExecDomain _ w := w
  putExecDomain _ w := w
  incUseCount _ w := w
  decUseCount _ w := w
  copyNamespace flags _ w := (!flags.newns, w)
  exitNamespace _ w := w
  copyThread _ _ w := (0, w)

theorem noNamespace_dropsReference : noNamespace.DropsReference := fun _ _ => rfl

/-- Task 1 of a kernel that runs it, with one of everything. -/
def oneProcess (k : Kernel) : Machine Unit where
  kernel := k
  proc _ :=
    { user := 0, rlimNproc := 64, capSysAdmin := true, capSysResource := true, vforkDone := none
      shared := fun _ => some 0, activeMm := some 0, execDomain := 0, binfmtModule := none }
  users _ := ⟨1, 1⟩
  count _ _ := 1
  mmCount _ := 1
  completion _ := ⟨0, []⟩
  nrThreads := 1
  maxThreads := 64
  world := ()

def vforkFlags : CloneFlags := ⟨false, false, false, true, false, false, true, false⟩
def newnsFlags : CloneFlags := ⟨true, false, false, false, false, false, false, false⟩

/-- The task_struct and the pid `n`, and structures of that number. -/
def numbered (n : ℕ) : Supply := ⟨some n, n, fun _ => some n⟩

theorem failed_fork_untouched_iff_newns : ∃ k ∈ runFromBoot 512 startTask, ∃ s',
    (oneProcess k).doFork noNamespace 512 newnsFlags (numbered 2) = some (-12, s') ∧
      Untouched (oneProcess k) s' := by
  obtain ⟨k, hk, hcur, hret⟩ : ∃ k ∈ runFromBoot 512 startTask, k.current = 1 ∧
      ((oneProcess k).doFork noNamespace 512 newnsFlags (numbered 2)).map Prod.fst = some (-12) := by
    decide +kernel
  obtain ⟨⟨ret, s'⟩, h, rfl⟩ := Option.map_eq_some_iff.mp hret
  refine ⟨k, hk, s', h, ?_⟩
  refine (failed_fork_untouched_iff noNamespace_dropsReference ?_ ?_ h (by decide)).mpr (.inl rfl)
  · rintro p ⟨⟩
    change 2 ≠ k.current
    rw [hcur]
    decide
  · exact le_refl _

/-- Task 1 forks with `CLONE_VFORK` and waits; task 2 runs. -/
def vforkChild (k : Kernel) : Option (Machine Unit) :=
  ((oneProcess k).doFork noNamespace 512 vforkFlags (numbered 2)).bind fun (_, s) =>
    waitForCompletion 1 s

/-- The child of a vfork fails to fork, and its parent is woken. -/
theorem failed_fork_wakes_parent : ∃ k ∈ runFromBoot 512 startTask, ∃ s ∈ vforkChild k, ∃ s',
    s.doFork noNamespace 512 newnsFlags (numbered 3) = some (-12, s') ∧
      s.current = 2 ∧ (s.proc 2).vforkDone = some 1 ∧ (s.kernel.tasks 1).state = .uninterruptible ∧
      (s'.proc 2).vforkDone = none ∧ (s'.kernel.tasks 1).state = .running ∧
      s'.kernel.rq.nrRunning = s.kernel.rq.nrRunning + 1 ∧ ¬Untouched s s' := by
  obtain ⟨k, hk, s, hs, ⟨ret, s'⟩, h, rfl, hcur, hv, hst, hv', hst', hn⟩ :
      ∃ k ∈ runFromBoot 512 startTask, ∃ s ∈ vforkChild k,
      ∃ r ∈ s.doFork noNamespace 512 newnsFlags (numbered 3), r.1 = -12 ∧
        s.current = 2 ∧ (s.proc 2).vforkDone = some 1 ∧
        (s.kernel.tasks 1).state = .uninterruptible ∧ (r.2.proc 2).vforkDone = none ∧
        (r.2.kernel.tasks 1).state = .running ∧
        r.2.kernel.rq.nrRunning = s.kernel.rq.nrRunning + 1 := by
    decide +kernel
  refine ⟨k, hk, s, hs, s', h, hcur, hv, hst, hv', hst', hn, fun hu => ?_⟩
  have hkept : s'.kernel.rq.nrRunning = s.kernel.rq.nrRunning := congrArg Runqueue.nrRunning hu.rq
  have hmore : s'.kernel.rq.nrRunning = s.kernel.rq.nrRunning + 1 := hn
  omega

end ShortSched
