import ShortSched.ClassOrder
import ShortSched.Consistency

/-! No operation stops the machine in a state where the running task is linked, or is the
idle task: no NULL array is followed and no list is corrupted. -/
namespace ShortSched
open Relation PartialRun

/-- A backed state in which a running task other than the idle task is linked, and the idle
task is runnable. -/
structure Alive (k : Kernel) : Prop extends Backed k where
  current : k.current ≠ k.rq.idle → (k.core k.current).runList ≠ none
  idleRuns : (k.core k.rq.idle).state = .running

/-- The system call entry finds the memory that it writes through. -/
def Op.Mapped (op : Op) : Prop := op.policyArg = 4 → ∃ u ∈ op.param, u.lp ≠ none

instance (op : Op) : Decidable op.Mapped :=
  inferInstanceAs (Decidable (op.policyArg = 4 → ∃ u ∈ op.param, u.lp ≠ none))

/-- The operation does not stop the kernel by itself: no fork by a task without a slice, and no
store through a bad user pointer. -/
structure Survives (k : Kernel) (op : Op) : Prop where
  slice : op.child ≠ none → (k.tasks k.current).timeSlice ≠ 0
  mapped : op.Mapped

instance (k : Kernel) (op : Op) : Decidable (Survives k op) :=
  decidable_of_iff ((op.child ≠ none → (k.tasks k.current).timeSlice ≠ 0) ∧ op.Mapped)
    ⟨fun h => ⟨h.1, h.2⟩, fun h => ⟨h.1, h.2⟩⟩

/-- An accepted call that makes a task SHORT finds it on the runqueue, and no call leaves the
running task SHORT, which would take it off its queue. -/
structure KeepsQueues (k : Kernel) (op : Op) : Prop where
  enters : EntersQueued k op
  stays : ∀ acc ∈ op.accepted k, acc.target = k.current → (k.tasks k.current).policy = .short →
    acc.policy ≠ .short

instance (k : Kernel) (op : Op) : Decidable (KeepsQueues k op) :=
  decidable_of_iff (EntersQueued k op ∧ ∀ acc ∈ op.accepted k, acc.target = k.current →
      (k.tasks k.current).policy = .short → acc.policy ≠ .short)
    ⟨fun h => ⟨h.1, h.2⟩, fun h => ⟨h.1, h.2⟩⟩

section
variable {HZ : ℕ} {ps : Ptrs} {c d : Core} {k k' m : Kernel} {op : Op} {p q : TaskId}

theorem Sound.linkedHere (h : Sound k) (hl : (k.core p).runList ≠ none) :
    Here k p ∧ (k.core p).array ≠ none := by
  obtain ⟨l, hl⟩ := Option.ne_none_iff_exists'.mp hl
  refine ⟨⟨l, hl, h.here p l hl⟩, ?_⟩
  rw [show (k.core p).array = some l.array from (h.shape.home p l hl).1]
  exact Option.some_ne_none _

/-- Sound states stay sound while a task other than the idle task moves. -/
theorem Sound.of_moves (h : Sound k) (hm : Moves HZ Guard.free p k m) (hp : p ≠ k.rq.idle)
    (hs : Shape m 0) : Sound m := by
  have he : Effect HZ Guard.free (.schedule none) k m := hm.effect hp rfl
  exact ⟨he.distinct h.distinct, hs, he.arranged h.arranged hs, he.idleOk trivial h.idle⟩

theorem Sound.quiet (h : Sound k) (hq : Quiet k m) (hs : Shape m 0) : Sound m := by
  have he : Effect 0 Guard.free (.schedule none) k m := hq.effect rfl
  exact ⟨he.distinct h.distinct, hs, he.arranged h.arranged hs, he.idleOk trivial h.idle⟩

theorem Sound.recordSwitch (h : Sound k) (r : SwitchReason) : Sound (recordSwitch r k) :=
  h.quiet (recordSwitch_quiet r) (h.shape.recordSwitch r)

theorem Sound.schedule_total (h : Sound k)
    (hp : (k.core k.current).state ≠ .running → (k.core k.current).runList ≠ none) :
    ∃ k', schedule k = some k' := by
  obtain ⟨-, k', -, hk', -⟩ := h.wellOrdered.schedule fun hd => by
    obtain ⟨⟨c, a, i⟩, hl⟩ := Option.ne_none_iff_exists'.mp (hp hd.1)
    have hc : c = k.rq.cpu := h.here _ _ hl
    exact ⟨a, i, h.shape.mem_iff.mpr (hc ▸ hl)⟩
  exact ⟨k', hk'⟩

/-- Only the idle task may run without being linked, and it never sleeps. -/
theorem Alive.prev (h : Alive k) (hs : (k.core k.current).state ≠ .running) :
    (k.core k.current).runList ≠ none := by
  refine h.current fun hi => hs ?_
  rw [hi]
  exact h.idleRuns

/-! Policy changes. -/

theorem requeueIf_total (HZ : ℕ) (queued : Bool) (h : (k.core p).runList = none) :
    ∃ k', (if queued then activateTask HZ p k else some k) = some k' := by
  cases queued with
  | true => exact activateTask_total h
  | false => exact ⟨k, rfl⟩

/-- The call of `schedule` by a task that has just become SHORT. -/
theorem Alive.schedule_entered {acc : Accepted} (h : Alive k) (hi : acc.target ≠ k.rq.idle)
    (hp : (k.core acc.target).policy = .other) (hs : acc.policy = .short)
    (hd : (((k.core acc.target).left.entered HZ k.ptrs acc.user).assigned acc).Requeued k.ptrs
      (k.core acc.target).array.isSome d)
    (hm : Only acc.target d k m) (hshape : Shape m 0) :
    ∃ k', schedule (reschedTask m.current (recordSwitch .highierTaskActive m)) = some k' := by
  have hmv : Moves HZ Guard.free acc.target k m := hm.moves
    ((Core.entered_steps hp hs (h.attached acc.target) trivial).trans hd.steps)
  have hq : Quiet m (reschedTask m.current (recordSwitch .highierTaskActive m)) :=
    (recordSwitch_quiet _).trans (reschedTask_quiet _)
  refine (h.of_moves (hmv.quiet hq) hi ((hshape.recordSwitch _).reschedTask _)).schedule_total ?_
  rw [hq.core, show (reschedTask m.current (recordSwitch .highierTaskActive m)).current = k.current
    from hm.curr]
  intro hrun
  by_cases hc : k.current = acc.target
  · have ha : (k.core acc.target).array ≠ none :=
      (h.linkedHere (hc ▸ h.current (hc ▸ hi))).2
    rw [Core.Requeued, if_pos (Option.isSome_iff_ne_none.mpr ha)] at hd
    obtain ⟨-, i, -, rfl⟩ := hd
    rw [hc, hm.self]
    exact Option.some_ne_none _
  · rw [hm.rest hc] at hrun ⊢
    exact h.prev hrun

theorem setschedulerApply_total (HZ : ℕ) {acc : Accepted} {pid policy : ℤ}
    {param : Option UserParam}
    (h : Alive k) (hp : Passed k pid policy param acc) (hi : acc.target ≠ k.rq.idle) :
    ∃ k', setschedulerApply HZ acc k = some k' := by
  obtain ⟨m, hm⟩ : ∃ m, (if (k.tasks acc.target).array.isSome then deactivateTask acc.target k
      else some k) = some m := by
    split_ifs with ha
    · have hn : (k.core acc.target).array ≠ none := Option.isSome_iff_ne_none.mp ha
      exact deactivateTask_total (h.linkedHere (h.attached _ hn)).1 hn
    · exact ⟨k, rfl⟩
  obtain ⟨hc, -⟩ := leaveQueue_only hm
  obtain ⟨hshape, harr, hstatic⟩ := h.shape.leaveQueue hm
  have hlm : (m.core acc.target).runList = none := hshape.free_of_array_none harr
  have hpol : (m.tasks acc.target).policy = (k.core acc.target).policy := by
    change (m.core acc.target).policy = _
    rw [hc.self, Core.left_policy]
  suffices hs : ∃ k', _ = some k' by
    obtain ⟨k', hk'⟩ := hs
    exact ⟨k', setschedulerApply_eq_some.mpr ⟨m, hm, hk'⟩⟩
  rw [hpol]
  split_ifs with h1 h2
  · have hb := (hc.mod (f := becomeShort HZ acc.user m.rq.shortQ)
      (g := Core.entered HZ m.ptrs acc.user) fun _ => rfl).mod (f := assignPolicy acc)
      (g := Core.assigned acc) fun _ => rfl
    obtain ⟨n, hn⟩ := requeueIf_total HZ (k.tasks acc.target).array.isSome
      (mod_runList (q := acc.target) (f := assignPolicy acc) (mod_runList (q := acc.target)
        (f := becomeShort HZ acc.user m.rq.shortQ) hlm fun _ => rfl) fun _ => rfl)
    obtain ⟨d, hd, hnd⟩ := requeue_only hb hn
    rw [hc.ptrs] at hd
    have hstat : 100 ≤ (m.core acc.target).staticPrio ∧ (m.core acc.target).staticPrio < 140 :=
      hstatic ▸ h.arranged.static acc.target
    have hsn : Shape n 0 := by
      refine Shape.requeueIf ((hshape.mod_free (f := becomeShort HZ acc.user m.rq.shortQ) hlm
        hlm).mod_free (f := assignPolicy acc) ?_ ?_) ?_ hn
      · rwa [Kernel.mod_tasks_self]
      · rwa [Kernel.mod_tasks_self]
      · rw [Kernel.mod_tasks_self, Kernel.mod_tasks_self]
        exact assignPolicy_prio_range hp.priority hstat
    obtain ⟨k', hk'⟩ := h.schedule_entered hi h1.1 h1.2 hd hnd hsn
    exact ⟨k', installPolicy_eq_some.mpr ⟨n, hn, by rwa [if_pos h1.2]⟩⟩
  · exact ⟨_, rfl⟩
  · obtain ⟨n, hn⟩ := requeueIf_total HZ (k.tasks acc.target).array.isSome
      (mod_runList (q := acc.target) (f := assignPolicy acc) hlm fun _ => rfl)
    exact ⟨n, installPolicy_eq_some.mpr ⟨n, hn, if_neg (hp.not_short h1 h2)⟩⟩

/-! Forks. -/

theorem Alive.forkTick_total {child : TaskId} (h : Alive k) (HZ : ℕ) (pid : ℤ)
    (hc : k.current ≠ child) :
    ∃ m, forkTick HZ (forkSplit child (forkCopy child pid k)) = some m := by
  have hb := forkSplit_both pid hc
  generalize forkSplit child (forkCopy child pid k) = s at hb ⊢
  have hcur : s.current = k.current := hb.curr
  unfold forkTick
  split_ifs
  · refine schedulerTick_total fun hi => ?_
    change s.current ≠ s.rq.idle at hi
    rw [hcur, hb.idle] at hi
    obtain ⟨⟨l, hl, hcpu⟩, -⟩ := h.linkedHere (h.current hi)
    refine Here.mod (p := s.current) ⟨l, ?_, hcpu.trans (congrArg Ptrs.cpu hb.ptrs).symm⟩ _ _
      fun _ => rfl
    have hrun : (s.core k.current).runList = (k.core k.current).runList := by
      rw [hb.left, (Core.forking_parked _ _).2.2.1]
    rw [← hcur] at hrun
    rw [← hcur] at hl
    exact hrun.trans hl
  · exact ⟨s, rfl⟩

theorem Alive.doFork_total {child : TaskId} {pid : ℤ} {vfork cloneParent : Bool} (h : Alive k)
    (he : Enabled k (.doFork child pid vfork cloneParent))
    (h0 : (k.tasks k.current).timeSlice ≠ 0) :
    ∃ k', doFork HZ child pid vfork cloneParent k = some k' := by
  obtain ⟨-, hic, hc, hl⟩ := he
  obtain ⟨m, hm⟩ := h.forkTick_total HZ pid hc.symm
  obtain ⟨c, hshare, hb⟩ := forkTick_forked (π := Guard.free) hc.symm hic.symm h.idle.not_short h0
    (fun _ => trivial) (fun _ => trivial) hm
  have hshape : Shape m 0 := h.shape.forked hc.symm hl (h.arranged.tasks _) hm
  have hcore := linkChild_core child cloneParent m
  have hcur : (linkChild child cloneParent m).current = k.current := hb.curr
  obtain ⟨n, hn⟩ := wakeUpForkedProcess_total HZ (p := child)
    (k := linkChild child cloneParent m) (hcur ▸ hc) (by rw [hcore, hb.right]; rfl) (by
      rw [hcur, hcore, hb.right, hb.left]
      intro hs
      have hi : k.current ≠ k.rq.idle := fun he => h.idle.not_short (he ▸ hs)
      have hlc := hshare.linked (h.current hi)
      obtain ⟨l, hl⟩ := Option.ne_none_iff_exists'.mp hlc
      have hlm : ((linkChild child cloneParent m).core k.current).runList = some l := by
        rw [hcore, hb.left, hl]
      refine ⟨⟨l, hlm, ?_⟩, ?_⟩
      · have hcpu := (hshare.placed (h.arranged.tasks _ hi)).here l hl
        exact hcpu.trans (congrArg Ptrs.cpu hb.ptrs).symm
      · rw [← hb.left, show (m.core k.current).array = some l.array from
          (hshape.home k.current l (by rw [← hl, ← hb.left]; rfl)).1]
        exact Option.some_ne_none _)
  exact ⟨_, doFork_eq_some.mpr ⟨h0, m, n, hm, hn, rfl⟩⟩

/-! Every operation. -/

theorem sysSchedSetscheduler_total {pid policy : ℤ} {param : Option UserParam} {x : ℤ × Kernel}
    (hm : Op.Mapped (.sysSchedSetscheduler pid policy param))
    (h : setscheduler HZ pid policy
      (if policy = 4 then param.map UserParam.clearPriority else param) k = some x) :
    sysSchedSetscheduler HZ pid policy param k = some x := by
  unfold sysSchedSetscheduler
  by_cases hp : policy = 4
  · obtain ⟨u, rfl, hlp⟩ : ∃ u, param = some u ∧ u.lp ≠ none := hm hp
    rw [if_pos hp] at h
    rw [if_pos (show policy = Policy.short.code from hp)]
    dsimp only
    rw [if_neg hlp]
    exact h
  · rw [if_neg hp] at h
    rw [if_neg (show policy ≠ Policy.short.code from hp)]
    exact h

theorem Alive.setscheduler_total (h : Alive k) (HZ : ℕ) (pid policy : ℤ)
    (param : Option UserParam) (hi : k.current ≠ k.rq.idle) :
    ∃ x, setscheduler HZ pid policy param k = some x := by
  unfold setscheduler
  split
  next => exact ⟨_, rfl⟩
  next acc hacc =>
    have hp := setschedulerCheck_ok hacc
    obtain ⟨m, hm⟩ := setschedulerApply_total HZ h hp
      (findProcessByPid_ne_idle hp.target h.idle hi)
    exact ⟨_, Option.map_eq_some_iff.mpr ⟨m, hm, rfl⟩⟩

theorem Alive.exec_total (h : Alive k) (he : Enabled k op) (hs : Survives k op) :
    ∃ k', exec HZ op k = some k' := by
  cases op with
  | schedule reason =>
    cases reason with
    | none => exact h.schedule_total h.prev
    | some r => exact (h.toSound.recordSwitch r).schedule_total h.prev
  | schedulerTick => exact schedulerTick_total fun hi => (h.linkedHere (h.current hi)).1
  | tryToWakeUp p => exact tryToWakeUp_total fun ha => h.shape.free_of_array_none ha
  | wakeUpForkedProcess p =>
    exact wakeUpForkedProcess_total HZ he.2.1 (h.shape.free_of_array_none he.2.2.2)
      fun hp => h.linkedHere (h.current (he.2.2.1 hp))
  | doFork child pid vfork cloneParent => exact h.doFork_total he (hs.slice (Option.some_ne_none _))
  | setUserNice p nice =>
    exact setUserNice_total nice fun ha => (h.linkedHere (h.attached p ha)).1
  | sysNice increment =>
    obtain ⟨m, hm⟩ := setUserNice_total (p := k.current) (newNice (k.tasks k.current)
      increment) fun ha => (h.linkedHere (h.attached _ ha)).1
    change ∃ k', (ShortSched.sysNice increment k).map Prod.snd = some k'
    unfold ShortSched.sysNice
    split_ifs
    · exact ⟨k, rfl⟩
    · exact ⟨m, by rw [hm]; rfl⟩
  | sysSchedYield =>
    obtain ⟨hh, ha⟩ := h.linkedHere (h.current he)
    obtain ⟨m, hm⟩ := yieldMove_total hh ha
    have hmv : Moves HZ Guard.free k.current k m := yieldMove_moves hm fun _ _ => trivial
    have hsm : Sound m := h.of_moves hmv he (h.shape.yieldMove hm)
    obtain ⟨k', hk'⟩ := (hsm.recordSwitch .taskYields).schedule_total fun _ => by
      change (m.core m.current).runList ≠ none
      rw [show m.current = k.current from hmv.curr]
      exact yieldMove_keeps hm _ (h.current he)
    exact ⟨k', Option.bind_eq_some_iff.mpr ⟨m, hm, hk'⟩⟩
  | sysSchedSetscheduler pid policy param =>
    obtain ⟨x, hx⟩ := h.setscheduler_total HZ pid policy
      (if policy = 4 then param.map UserParam.clearPriority else param) he
    exact ⟨x.2, Option.map_eq_some_iff.mpr ⟨x, sysSchedSetscheduler_total hs.mapped hx, rfl⟩⟩
  | sysSchedSetparam pid param =>
    obtain ⟨x, hx⟩ := h.setscheduler_total HZ pid (-1) param he
    exact ⟨x.2, Option.map_eq_some_iff.mpr ⟨x, hx, rfl⟩⟩
  | initIdle =>
    obtain ⟨m, hm⟩ := deactivateTask_total (p := k.current)
      (k := k.modRq fun rq => { rq with curr := k.current, idle := k.current })
      (h.linkedHere (h.attached _ he.2)).1 he.2
    exact bind_defined hm ⟨_, rfl⟩
  | _ => exact ⟨_, rfl⟩

/-! The running task stays linked. -/

theorem schedule_current (h : schedule k = some k') (hs : Shape k' 0)
    (hi : k'.current ≠ k'.rq.idle) : (k'.core k'.current).runList ≠ none := by
  obtain ⟨m, hm, hsw, hcase⟩ := schedule_switch h
  have hmv : Moves 0 Guard.free k.current k m := schedulePrev_moves hm
  rcases hcase with ⟨hc, -⟩ | ⟨a, i, hmem⟩
  · exact absurd (hc.trans (hsw.idle.trans hmv.idle).symm) hi
  · rw [← hsw.queue] at hmem
    rw [show (k'.core k'.current).runList = _ from hs.mem_iff.mp (List.mem_of_head? hmem)]
    exact Option.some_ne_none _

theorem Alive.setscheduler_current {pid policy r : ℤ} {param : Option UserParam} (h : Alive k)
    (hs : setscheduler HZ pid policy param k = some (r, k')) (hshape : Shape k' 0)
    (hv : ∀ acc, setschedulerCheck k pid policy param = .ok acc → acc.target = k.current →
      (k.tasks k.current).policy = .short → acc.policy ≠ .short)
    (hi : k'.current ≠ k'.rq.idle) : (k'.core k'.current).runList ≠ none := by
  obtain ⟨e, -, -, rfl⟩ | ⟨acc, hacc, -, hm⟩ := setscheduler_cases hs
  · exact h.current hi
  · cases setschedulerApply_applied hm (setschedulerCheck_ok hacc) with
    | becomes d n ho hp hd hn hsch => exact schedule_current hsch hshape hi
    | stays ho hp hn =>
      rw [show k'.current = k.current from hn.curr, show k'.rq.idle = k.rq.idle from hn.idle] at hi
      rw [show k'.current = k.current from hn.curr]
      have hne : k.current ≠ acc.target := fun he =>
        hv acc hacc he.symm (he ▸ ho) hp
      rw [hn.rest hne]
      exact h.current hi
    | changes d hp hd hn =>
      rw [show k'.current = k.current from hn.curr, show k'.rq.idle = k.rq.idle from hn.idle] at hi
      rw [show k'.current = k.current from hn.curr]
      by_cases hc : k.current = acc.target
      · have ha := (h.linkedHere (h.current hi)).2
        rw [hc] at ha
        rw [Core.Requeued, if_pos (Option.isSome_iff_ne_none.mpr ha)] at hd
        obtain ⟨-, i, -, rfl⟩ := hd
        rw [hc, hn.self]
        exact Option.some_ne_none _
      · rw [hn.rest hc]
        exact h.current hi

theorem Alive.keep (h : Alive k) (hk : Keeps k k') (hc : k'.rq.curr = k.rq.curr)
    (hid : k'.rq.idle = k.rq.idle) (hi : k'.current ≠ k'.rq.idle) :
    (k'.core k'.current).runList ≠ none := by
  rw [show k'.current = k.current from hc] at hi ⊢
  exact hk _ (h.current (hid ▸ hi))

theorem Alive.exec_current (h : Alive k) (he : Enabled k op) (hv : KeepsQueues k op)
    (hs : exec HZ op k = some k') (hshape : Shape k' 0) (hi : k'.current ≠ k'.rq.idle) :
    (k'.core k'.current).runList ≠ none := by
  have hidle : k'.rq.idle = k.rq.idle := (exec_effect hs he h.idle (Permits.free k op)).idle
  cases op with
  | advance n => cases hs; exact h.current hi
  | setSigpending p b =>
    cases hs
    have hq : Quiet k (k.mod p fun t => { t with sigpending := b }) := mod_quiet fun _ => rfl
    exact h.keep hq.keeps rfl rfl hi
  | setCredentials p uid euid capSysNice =>
    cases hs
    have hq : Quiet k (k.mod p fun t => { t with uid, euid, capSysNice }) := mod_quiet fun _ => rfl
    exact h.keep hq.keeps rfl rfl hi
  | setCurrentState s =>
    cases hs
    have ho := (Only.refl k k.current).mod (f := fun t => { t with state := s })
      (g := Core.withState s) fun _ => rfl
    exact h.keep (ho.keeps id) rfl rfl hi
  | schedule reason =>
    cases reason with
    | none => exact schedule_current hs hshape hi
    | some r => exact schedule_current hs hshape hi
  | schedulerTick =>
    have hid : ¬ (k.core k.rq.idle).IsShort := fun hc => h.idle.not_short hc.1
    obtain ⟨c, -, hc⟩ := schedulerTick_step hs hid
    exact h.keep (schedulerTick_keeps hs hid) hc.curr hidle hi
  | tryToWakeUp p =>
    have hm : Moves HZ Guard.free p k k' := tryToWakeUp_moves hs
    exact h.keep (tryToWakeUp_keeps hs) hm.curr hidle hi
  | wakeUpForkedProcess p =>
    obtain ⟨l, m, h1, h2, h3, -⟩ := wakeUpForkedProcess_moves (π := Guard.free) hs
    exact h.keep (wakeUpForkedProcess_keeps hs) (h3.curr.trans (h2.curr.trans h1.curr)) hidle hi
  | doFork child pid vfork cloneParent =>
    obtain ⟨-, hic, hc, hl⟩ := he
    have hf := doFork_forked (π := Guard.free) hs hc.symm hic.symm h.idle.not_short
      (fun _ => trivial) fun _ => trivial
    exact h.keep (doFork_keeps hs hc.symm hic.symm hl h.idle) hf.curr hidle hi
  | setUserNice p nice =>
    have hm : Moves HZ Guard.free p k k' := setUserNice_moves hs
    exact h.keep (setUserNice_keeps hs) hm.curr hidle hi
  | sysNice increment =>
    obtain ⟨⟨r, m⟩, hm, rfl⟩ := Option.map_eq_some_iff.mp hs
    obtain rfl | hn := sysNice_cases hm
    · exact h.current hi
    · have hmoves : Moves HZ Guard.free k.current k m := setUserNice_moves hn
      exact h.keep (setUserNice_keeps hn) hmoves.curr hidle hi
  | sysSchedYield =>
    obtain ⟨m, -, hs⟩ := Option.bind_eq_some_iff.mp hs
    exact schedule_current hs hshape hi
  | sysSchedSetscheduler pid policy param =>
    obtain ⟨⟨r, m⟩, hm, rfl⟩ := Option.map_eq_some_iff.mp hs
    exact h.setscheduler_current (sysSchedSetscheduler_eq hm) hshape
      (fun acc ha => hv.stays acc (toOption_eq_some.mpr ha)) hi
  | sysSchedSetparam pid param =>
    obtain ⟨⟨r, m⟩, hm, rfl⟩ := Option.map_eq_some_iff.mp hs
    exact h.setscheduler_current hm hshape
      (fun acc ha => hv.stays acc (toOption_eq_some.mpr ha)) hi
  | exitNotify reaper childReaper =>
    cases hs
    exact h.keep (exitNotify_keeps reaper childReaper k) rfl rfl hi
  | releaseTask p =>
    cases hs
    obtain ⟨-, hc, -⟩ := releaseTask_core HZ Guard.free p k
    exact h.keep (releaseTask_keeps p k) hc hidle hi
  | initIdle =>
    obtain ⟨-, hc, hid, -⟩ := initIdle_core hs
    exact absurd (hc.trans hid.symm) hi

theorem TickStep.state (h : TickStep HZ ps c d) : d.state = c.state := by
  cases h <;> rfl

theorem Core.forking_state (n : ℕ) : (c.forking.withSlice n).state = c.state := by
  unfold Core.forking
  split_ifs <;> rfl

/-- The idle task never sleeps. -/
theorem IdleStep.runs {π : Guard} (h : IdleStep HZ ps π c d) (hc : c.state = .running) :
    d.state = .running := by
  cases h with
  | tick h => exact h.state.trans hc
  | share h =>
    cases h with
    | fork => exact (Core.forking_state _).trans hc
    | forkTick _ _ _ _ h => exact h.state.trans ((Core.forking_state 1).trans hc)
    | reap => exact hc
    | orphan => exact hc
  | running => rfl
  | deactivate => exact hc
  | park => rfl

/-- Every operation that keeps the queues leaves an alive state alive. -/
theorem Alive.exec (h : Alive k) (he : Enabled k op) (hq : KeepsQueues k op)
    (hs : exec HZ op k = some k') : Alive k' := by
  have hb := h.toBacked.exec he hq.enters hs
  have heff := exec_effect hs he h.idle (Permits.free k op)
  refine ⟨hb, fun hi => h.exec_current he hq hs hb.shape hi, ?_⟩
  rw [heff.idle]
  exact steps_invariant (I := fun c => c.state = .running) (fun _ _ => IdleStep.runs)
    heff.idleTask h.idleRuns

theorem schedInit_alive (h : schedInit HZ = some k) : Alive k := by
  rcases tryToWakeUp_only h with ⟨hn, -⟩ | ⟨-, -, i, -, h1⟩
  · exact absurd rfl hn
  have hc : k.current = 0 := h1.curr
  have hi : k.rq.idle = 0 := h1.idle
  refine ⟨schedInit_backed h, fun hne => absurd (hc.trans hi.symm) hne, ?_⟩
  rw [hi, h1.self]
  rfl

theorem runFromBoot_alive {ops : List Op} (hC : AlongBoot HZ KeepsQueues ops)
    (hr : runFromBoot HZ ops = some k) : Alive k :=
  (runFromBoot_invariant (J := Alive) (fun _ => schedInit_alive)
    (fun _ _ _ _ hs he hq h => hs.exec he hq h) hC hr).2

theorem schedInit_total (HZ : ℕ) : ∃ k, schedInit HZ = some k := tryToWakeUp_total fun _ => rfl

end

/-- Along every run from boot in which each accepted call that makes a task SHORT finds the
task on the runqueue and no call leaves the running task SHORT, lists, bitmaps, counters and
array pointers agree in every state that is reached; and no list operation of such a run
fails: it goes through unless it stops at `BUG()` or at a bad user pointer. -/
theorem queues_stay_consistent (HZ : ℕ) (ops : List Op) (hC : AlongBoot HZ KeepsQueues ops) :
    (∀ k, runFromBoot HZ ops = some k → WellFormed k) ∧
      (AlongBoot HZ Survives ops → ∃ k, runFromBoot HZ ops = some k) := by
  constructor
  · intro k hr
    exact (runFromBoot_alive hC hr).wellFormed
  intro hS
  obtain ⟨k0, h0⟩ := schedInit_total HZ
  have hstep : ∀ k op, Alive k → (Enabled k op ∧ KeepsQueues k op) ∧ Enabled k op ∧
      Survives k op → ∃ k', exec HZ op k = some k' ∧ Alive k' := by
    rintro k op h ⟨⟨he, hq⟩, -, hv⟩
    obtain ⟨k', hk'⟩ := h.exec_total he hv
    exact ⟨k', hk', h.exec he hq hk'⟩
  obtain ⟨k, hk, -⟩ := run_total hstep (schedInit_alive h0) ((hC k0 h0).and (hS k0 h0))
  exact ⟨k, by rw [runFromBoot, h0, Option.bind_some, hk]⟩

/-- A SHORT task forks, sleeps, is woken by its child and made a task of `SCHED_OTHER`. -/
def shortFamily : List Op := shortTicks 100 5 3 ++ [.doFork 2 2 false false,
  .setCurrentState .interruptible, .schedule none, .tryToWakeUp 1,
  .sysSchedSetscheduler 1 0 (shortParam 0 0), .sysSchedYield]

theorem queues_stay_consistent_shortFamily :
    ∃ k, runFromBoot 512 shortFamily = some k ∧ WellFormed k := by
  have h := queues_stay_consistent 512 shortFamily (by decide +kernel)
  obtain ⟨k, hk⟩ := h.2 (by decide +kernel)
  exact ⟨k, hk, h.1 k hk⟩

/-- Task 2 makes its sleeping parent SHORT. -/
def shortSleeper : List Op := startTask ++ [.doFork 2 2 false false,
  .setCurrentState .interruptible, .schedule none,
  .sysSchedSetscheduler 1 4 (shortParam 100 5)]

/-- The parent then points to an array that it is not linked on, and the next wake-up leaves
it off the runqueue. -/
theorem stale_array_loses_wakeUp : AlongBoot 512 (fun _ _ => True) shortSleeper ∧
    ∃ k ∈ runFromBoot 512 shortSleeper, ¬ WellFormed k ∧
      ∃ k' ∈ tryToWakeUp 512 1 k, (k'.tasks 1).state = .running ∧ ¬ k'.Linked 1 := by
  have hC : AlongBoot 512 (fun _ _ => True) shortSleeper := by decide +kernel
  obtain ⟨k, hk, ha, hl, hw⟩ : ∃ k ∈ runFromBoot 512 shortSleeper, (k.tasks 1).array ≠ none ∧
      (k.tasks 1).runList = none ∧ ∃ k' ∈ tryToWakeUp 512 1 k, (k'.tasks 1).state = .running ∧
        (k'.tasks 1).runList = none ∧ 1 ∈ k.pidhash := by
    decide +kernel
  have hs := runFromBoot_sound hC hk
  obtain ⟨k', hk', hr, hl', hp⟩ := hw
  have hen : Enabled k (.tryToWakeUp 1) := hp
  have hs' : Sound k' := hs.exec hen hk'
  have hfree : ∀ {k : Kernel}, Sound k → (k.tasks 1).runList = none → ¬ k.Linked 1 := by
    intro k hs hl hlink
    obtain ⟨a, i, hr⟩ := hs.shape.linked_iff.mp hlink
    cases hl.symm.trans hr
  exact ⟨hC, k, hk, fun hw => ha (hw.null 1 (hfree hs hl)), k', hk', hr, hfree hs' hl'⟩

/-- The last tick of a SHORT task that took itself off its queue unlinks it once more. -/
example : ∃ k ∈ runFromBoot 512 (shortTicks 2 5 0 ++ [.sysSchedSetparam 0 (shortParam 2 5)]),
    (k.tasks 1).runList = none ∧ (exec 512 .schedulerTick k).isNone := by
  decide +kernel

end ShortSched
