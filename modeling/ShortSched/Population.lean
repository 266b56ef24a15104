import ShortSched.Separation

/-! The tasks that exist: whoever runs or is linked is in the pid hash or is the idle task, and
only the running task may be linked and not runnable. -/
namespace ShortSched
open Relation PartialRun

/-- `p` is in the pid hash or is the idle task. -/
def Kernel.Exists (k : Kernel) (p : TaskId) : Prop := p ∈ k.pidhash ∨ p = k.rq.idle

instance (k : Kernel) (p : TaskId) : Decidable (k.Exists p) := inferInstanceAs (Decidable (_ ∨ _))

structure Populated (k : Kernel) : Prop where
  current : k.Exists k.current
  linked : ∀ q, (k.core q).runList ≠ none → k.Exists q
  running : ∀ q, (k.core q).runList ≠ none → q ≠ k.current → (k.core q).state = .running
  once : k.pidhash.Nodup

section
variable {HZ : ℕ} {ps : Ptrs} {c d : Core} {k k' m : Kernel} {op : Op} {p q : TaskId}
  {e : ℤ}

theorem Fixed.exists_iff (h : Fixed k k') : k'.Exists p ↔ k.Exists p := by
  unfold Kernel.Exists
  rw [h.pidhash, h.idle]

/-- A change of one task keeps the population when the task exists where it is linked, and is
runnable there unless it is the running task. -/
theorem Populated.only (hk : Populated k) (h : Only p c k k')
    (hc : c.runList ≠ none → k.Exists p ∧ (p ≠ k.current → c.state = .running)) :
    Populated k' := by
  have hcur : k'.current = k.current := h.curr
  constructor
  · rw [hcur, h.exists_iff]
    exact hk.current
  · intro q hq
    rw [h.exists_iff]
    by_cases hqp : q = p
    · rw [hqp, h.self] at hq
      exact hqp ▸ (hc hq).1
    · rw [h.rest hqp] at hq
      exact hk.linked q hq
  · intro q hq hn
    rw [hcur] at hn
    by_cases hqp : q = p
    · rw [hqp, h.self] at hq ⊢
      exact (hc hq).2 (hqp ▸ hn)
    · rw [h.rest hqp] at hq ⊢
      exact hk.running q hq hn
  · rw [h.pidhash]
    exact hk.once

theorem Populated.quiet (hk : Populated k) (h : Quiet k k') : Populated k' :=
  hk.only (h.only_self k.current) fun _ => ⟨hk.current, fun hn => absurd rfl hn⟩

/-- A change of the running task keeps the population. -/
theorem Populated.only_current (hk : Populated k) (h : Only k.current c k k') : Populated k' :=
  hk.only h fun _ => ⟨hk.current, fun hn => absurd rfl hn⟩

/-- So does one that links no task and keeps the state. -/
theorem Populated.only_same (hk : Populated k) (h : Only p c k k')
    (hl : c.runList ≠ none → (k.core p).runList ≠ none) (hs : c.state = (k.core p).state) :
    Populated k' := by
  apply hk.only h
  intro hc
  constructor
  · exact hk.linked p (hl hc)
  · intro hn
    rw [hs]
    exact hk.running p (hl hc) hn

/-! The operations. -/

theorem Populated.schedule (hk : Populated k) (hs : Shape k' e) (h : schedule k = some k') :
    Populated k' := by
  obtain ⟨m, hm, hsw, hnext⟩ := schedule_switch h
  obtain ⟨c, hc, hcase⟩ := schedulePrev_only hm
  have hpm : Populated m := hk.only_current hc
  have hprev : c.runList ≠ none → c.state = .running := by
    rcases hcase with ⟨hr, rfl⟩ | ⟨-, rfl⟩ | ⟨-, -, rfl⟩
    · exact fun _ => hr
    · exact fun _ => rfl
    · exact fun hn => absurd rfl hn
  have hex : ∀ q, k'.Exists q ↔ m.Exists q := by
    intro q
    unfold Kernel.Exists
    rw [hsw.pidhash, hsw.idle]
  constructor
  · rw [hex]
    rcases hnext with ⟨hi, -⟩ | ⟨a, i, hq⟩
    · exact Or.inr (hi.trans hc.idle.symm)
    · apply hpm.linked
      rw [Kernel.queue, ← hsw.arrays] at hq
      have hl := hs.mem_iff.mp (List.mem_of_head? hq)
      rw [← hsw.core]
      change (k'.tasks k'.rq.curr).runList ≠ none
      rw [hl]
      exact Option.some_ne_none _
  · intro q hq
    rw [hsw.core] at hq
    rw [hex]
    exact hpm.linked q hq
  · intro q hq _
    rw [hsw.core] at hq ⊢
    by_cases hqp : q = k.current
    · rw [hqp, hc.self] at hq ⊢
      exact hprev hq
    · exact hpm.running q hq (by rwa [show m.current = k.current from hc.curr])
  · rw [hsw.pidhash]
    exact hpm.once

theorem Populated.tryToWakeUp (hk : Populated k) (hp : p ∈ k.pidhash)
    (h : tryToWakeUp HZ p k = some k') : Populated k' := by
  rcases tryToWakeUp_only h with ⟨-, h1⟩ | ⟨-, -, i, -, h1⟩
  · exact hk.only h1 fun _ => ⟨Or.inl hp, fun _ => rfl⟩
  · exact hk.only h1 fun _ => ⟨Or.inl hp, fun _ => rfl⟩

theorem Populated.requeueParent (hk : Populated k) (h : requeueParent HZ p k = some k') :
    Populated k' := by
  obtain ⟨-, m, hm, hc, h⟩ | ⟨-, rfl⟩ := requeueParent_cases h
  · obtain ⟨-, h1⟩ := deactivateTask_only hm
    rw [← hc] at h
    obtain ⟨-, i, -, h2⟩ := activateTask_only h
    exact (hk.only_current h1).only_current h2
  · exact hk

theorem Populated.wakeUpForkedProcess (hk : Populated k) (hp : p ∈ k.pidhash) (hc : p ≠ k.current)
    (h : wakeUpForkedProcess HZ p k = some k') : Populated k' := by
  obtain ⟨l, m, n, i, h1, h2, -, h3, h4⟩ := wakeUpForkedProcess_only h
  obtain ⟨-, j, -, h5⟩ := activateTask_only h4
  have hm := requeueParent_moves (π := Guard.free) h2
  have hpl : Populated l := hk.only h1 fun _ => ⟨Or.inl hp, fun _ => rfl⟩
  have hpn : Populated n := (hpl.requeueParent h2).only_same h3 (fun h => h) rfl
  have hstate : (n.core p).state = .running := by
    have hcl : p ≠ l.current := by rwa [show l.current = k.current from h1.curr]
    rw [h3.self]
    change (m.core p).state = .running
    rw [hm.2.rest p hcl, h1.self]
    rfl
  have hfix : Fixed k n := (h1.toFixed.trans hm.2.toFixed).trans h3.toFixed
  exact hpn.only h5 fun _ => ⟨Or.inl (hfix.pidhash ▸ hp), fun _ => hstate⟩

theorem Populated.doFork {child : TaskId} {pid : ℤ} {vfork cloneParent : Bool} (hk : Populated k)
    (hi : IdleOk k) (he : Enabled k (.doFork child pid vfork cloneParent))
    (h : doFork HZ child pid vfork cloneParent k = some k') : Populated k' := by
  obtain ⟨hfresh, hidle, hcur, -⟩ := he
  obtain ⟨h0, m, n, hm, hn, rfl⟩ := doFork_eq_some.mp h
  obtain ⟨c, -, hb⟩ := forkTick_forked (π := Guard.free) hcur.symm hidle.symm hi.not_short h0
    (fun _ => trivial) (fun _ => trivial) hm
  have hcm : m.current = k.current := hb.curr
  have hcore := linkChild_core child cloneParent m
  have hlinked : Populated (linkChild child cloneParent m) := by
    have hex : ∀ q, k.Exists q → (linkChild child cloneParent m).Exists q := by
      intro q hq
      rcases hq with hq | hq
      · left
        change q ∈ child :: m.pidhash
        rw [hb.pidhash]
        exact List.mem_cons_of_mem _ hq
      · exact Or.inr (hq.trans hb.idle.symm)
    constructor
    · change (linkChild child cloneParent m).Exists m.current
      rw [hcm]
      exact hex _ hk.current
    · intro q hq
      rw [hcore] at hq
      by_cases hqc : q = child
      · exact Or.inl (hqc ▸ List.mem_cons_self)
      · apply hex
        by_cases hqp : q = k.current
        · exact hqp ▸ hk.current
        · rw [hb.rest q hqp hqc] at hq
          exact hk.linked q hq
    · intro q hq hqn
      rw [hcore] at hq ⊢
      have hqp : q ≠ k.current := by rwa [← hcm]
      by_cases hqc : q = child
      · rw [hqc, hb.right] at hq
        exact absurd rfl hq
      · rw [hb.rest q hqp hqc] at hq ⊢
        exact hk.running q hq hqp
    · change (child :: m.pidhash).Nodup
      rw [hb.pidhash]
      exact List.nodup_cons.mpr ⟨hfresh, hk.once⟩
  have hpn : Populated n := hlinked.wakeUpForkedProcess List.mem_cons_self
    (by change child ≠ m.current; rwa [hcm]) hn
  split_ifs
  · exact hpn
  · exact hpn.quiet ((recordSwitch_quiet _).trans (reschedTask_quiet _))

theorem setUserNice_only {nice : ℤ} (h : setUserNice p nice k = some k') :
    ∃ c, Only p c k k' ∧ (c.runList = none ↔ (k.core p).runList = none) ∧
      c.state = (k.core p).state ∧ c.array = (k.core p).array := by
  cases setUserNice_cases h with
  | ignored => exact ⟨_, Only.refl k p, Iff.rfl, rfl, rfl⟩
  | realTime =>
    exact ⟨_, mod_only (f := fun t => { t with staticPrio := niceToPrio nice }) rfl, Iff.rfl, rfl,
      rfl⟩
  | unqueued =>
    exact ⟨_, mod_only (f := fun t => { t with
      staticPrio := niceToPrio nice, prio := niceToPrio nice }) rfl, Iff.rfl, rfl, rfl⟩
  | requeued a m n _ _ ha hdown hup =>
    obtain ⟨hl, h1⟩ := (Only.refl k p).dequeue hdown
    have h2 := ((h1.mod (g := fun c =>
      { c with staticPrio := niceToPrio nice, prio := niceToPrio nice }) fun _ => rfl).enqueue
      hup).2
    have hiff : (some (k.ptrs.entry a (niceToPrio nice)) = none ↔
        (k.core p).runList = none) := iff_of_false (Option.some_ne_none _) hl
    split_ifs
    · exact ⟨_, (h2.quiet (recordSwitch_quiet _)).quiet (reschedTask_quiet _), hiff, rfl, ha.symm⟩
    · exact ⟨_, h2, hiff, rfl, ha.symm⟩

theorem Populated.setUserNice {nice : ℤ} (hk : Populated k)
    (h : setUserNice p nice k = some k') : Populated k' := by
  obtain ⟨c, h1, hl, hs, -⟩ := setUserNice_only h
  exact hk.only_same h1 (mt hl.mpr) hs

theorem Core.Requeued.same {queued : Bool} (h : c.Requeued ps queued d) :
    d.state = c.state ∧ (queued = false → d.runList = c.runList) := by
  unfold Core.Requeued at h
  split_ifs at h with hq
  · obtain ⟨-, i, -, rfl⟩ := h
    exact ⟨rfl, fun hn => by simp [hn] at hq⟩
  · rw [h]
    exact ⟨rfl, fun _ => rfl⟩

theorem Core.left_same (c : Core) : c.left.state = c.state ∧
    (c.left.runList ≠ none → c.runList ≠ none) := by
  unfold Core.left
  split_ifs
  · exact ⟨rfl, fun hn => absurd rfl hn⟩
  · exact ⟨rfl, fun h => h⟩

/-- An accepted policy change keeps the state of its target, and links it only where it was
linked. -/
theorem Applied.populated {acc : Accepted} (hk : Populated k) (hs : Shape k' e)
    (hl : (k.core acc.target).array ≠ none → (k.core acc.target).runList ≠ none)
    (h : Applied HZ acc k k') : Populated k' := by
  have hsame : ∀ {c d : Core} {m : Kernel}, c.state = (k.core acc.target).state →
      (c.runList ≠ none → (k.core acc.target).runList ≠ none) →
      c.Requeued k.ptrs (k.core acc.target).array.isSome d → Only acc.target d k m →
      Populated m := by
    intro c d m hstate hlink hd hm
    obtain ⟨h1, h2⟩ := hd.same
    apply hk.only_same hm
    · intro hdl
      cases ha : (k.core acc.target).array with
      | none =>
        rw [ha] at h2
        exact hlink (h2 rfl ▸ hdl)
      | some a => exact hl (by rw [ha]; exact Option.some_ne_none a)
    · exact h1.trans hstate
  obtain ⟨h1, h2⟩ := (k.core acc.target).left_same
  cases h with
  | becomes d m hp hsh hd hm h =>
    exact (hsame (c := ((k.core acc.target).left.entered HZ k.ptrs acc.user).assigned acc)
      h1 h2 hd hm).schedule hs h
  | stays hp hsh h => exact hk.only_same h h2 h1
  | changes d hsh hd h => exact hsame (c := (k.core acc.target).left.assigned acc) h1 h2 hd h

theorem Populated.setscheduler {pid policy r : ℤ} {param : Option UserParam} (hk : Populated k)
    (hs : Shape k' e) (h : setscheduler HZ pid policy param k = some (r, k')) : Populated k' := by
  obtain ⟨e, -, -, rfl⟩ | ⟨acc, hacc, -, hm⟩ := setscheduler_cases h
  · exact hk
  · obtain ⟨n, hn, -⟩ := setschedulerApply_eq_some.mp hm
    exact (setschedulerApply_applied hm (setschedulerCheck_ok hacc)).populated hk hs
      (leaveQueue_only hn).2

theorem Populated.exitNotify (hk : Populated k) (reaper childReaper : TaskId) :
    Populated (exitNotify reaper childReaper k) := by
  set m := forgetOriginalParent reaper childReaper k.current k with hm
  have hl : ∀ q, (m.core q).runList = (k.core q).runList ∧ (m.core q).state = (k.core q).state := by
    intro q
    simp only [hm, forgetOriginalParent, Kernel.core]
    split_ifs <;> exact ⟨rfl, rfl⟩
  have hpm : Populated m := by
    constructor
    · exact hk.current
    · intro q hq
      rw [(hl q).1] at hq
      exact hk.linked q hq
    · intro q hq hn
      rw [(hl q).1] at hq
      rw [(hl q).2]
      exact hk.running q hq hn
    · exact hk.once
  exact hpm.only_current (mod_only (p := m.current) (f := fun t => { t with state := .zombie }) rfl)

theorem Populated.releaseTask (hk : Populated k) (hp : (k.tasks p).state = .zombie)
    (hc : p ≠ k.current) : Populated (releaseTask HZ p k) := by
  have hfree : (k.core p).runList = none := by
    by_contra hl
    have hr := hk.running p hl hc
    cases hp.symm.trans hr
  have hpm : Populated { k with pidhash := k.pidhash.erase p } := by
    have hex : ∀ q, q ≠ p → k.Exists q →
        Kernel.Exists { k with pidhash := k.pidhash.erase p } q := by
      intro q hq h
      exact h.imp_left (List.mem_erase_of_ne hq).mpr
    constructor
    · exact hex _ hc.symm hk.current
    · intro q hq
      apply hex q _ (hk.linked q hq)
      rintro rfl
      exact hq hfree
    · exact hk.running
    · exact hk.once.erase p
  have hq : Quiet (schedExit HZ p { k with pidhash := k.pidhash.erase p })
      (ShortSched.releaseTask HZ p k) :=
    mod_quiet (f := fun t => { t with pid := 0 }) fun _ => rfl
  rcases schedExit_only HZ p { k with pidhash := k.pidhash.erase p } with h | ⟨-, h⟩
  · exact (hpm.quiet h).quiet hq
  · exact (hpm.only_current h).quiet hq

theorem Populated.initIdle (hk : Populated k) (hc : k.current = k.rq.idle)
    (h : initIdle k = some k') : Populated k' := by
  obtain ⟨-, hcur, hidle, hhash, hrest, -, hself⟩ := initIdle_core h
  have hex : ∀ q, k'.Exists q ↔ k.Exists q := by
    intro q
    unfold Kernel.Exists
    rw [hhash, hidle, ← hc, Kernel.current]
  have hfree : ∀ q, (k'.core q).runList ≠ none → q ≠ k.current ∧ k'.core q = k.core q := by
    intro q hq
    have hne : q ≠ k.current := by
      rintro rfl
      rw [hself] at hq
      exact hq rfl
    exact ⟨hne, hrest q hne⟩
  constructor
  · rw [hex, show k'.current = k.current from hcur]
    exact hk.current
  · intro q hq
    obtain ⟨-, h1⟩ := hfree q hq
    rw [hex]
    exact hk.linked q (h1 ▸ hq)
  · intro q hq _
    obtain ⟨hne, h1⟩ := hfree q hq
    rw [h1] at hq ⊢
    exact hk.running q hq hne
  · rw [hhash]
    exact hk.once

/-- Every operation keeps the population. -/
theorem Populated.exec (hk : Populated k) (hs : Sound k) (he : Enabled k op)
    (h : exec HZ op k = some k') : Populated k' := by
  have hs' : Shape k' 0 := (hs.exec he h).shape
  cases op with
  | advance n => cases h; exact hk.quiet ⟨⟨rfl, rfl, rfl, rfl⟩, rfl⟩
  | setSigpending p b =>
    cases h
    exact hk.quiet (mod_quiet (f := fun t => { t with sigpending := b }) fun _ => rfl)
  | setCredentials p uid euid capSysNice =>
    cases h
    exact hk.quiet (mod_quiet (f := fun t => { t with uid, euid, capSysNice }) fun _ => rfl)
  | setCurrentState s =>
    cases h
    exact hk.only_current (mod_only (f := fun t => { t with state := s }) rfl)
  | schedule reason =>
    cases reason with
    | none => exact hk.schedule hs' h
    | some r => exact (hk.quiet (recordSwitch_quiet r)).schedule hs' h
  | schedulerTick =>
    obtain ⟨c, -, h1⟩ := schedulerTick_step h fun hc => hs.idle.not_short hc.1
    exact hk.only_current h1
  | tryToWakeUp p => exact hk.tryToWakeUp he h
  | wakeUpForkedProcess p => exact hk.wakeUpForkedProcess he.1 he.2.1 h
  | doFork child pid vfork cloneParent => exact hk.doFork hs.idle he h
  | setUserNice p nice => exact hk.setUserNice h
  | sysNice increment =>
    obtain ⟨⟨r, m⟩, hm, rfl⟩ := Option.map_eq_some_iff.mp h
    obtain rfl | hn := sysNice_cases hm
    · exact hk
    · exact hk.setUserNice hn
  | sysSchedYield =>
    obtain ⟨m, hm, h⟩ := Option.bind_eq_some_iff.mp h
    obtain ⟨-, a, i, -, -, -, -, h1⟩ := yieldMove_only hm
    exact ((hk.only_current h1).quiet (recordSwitch_quiet _)).schedule hs' h
  | sysSchedSetscheduler pid policy param =>
    obtain ⟨⟨r, m⟩, hm, rfl⟩ := Option.map_eq_some_iff.mp h
    exact hk.setscheduler hs' (sysSchedSetscheduler_eq hm)
  | sysSchedSetparam pid param =>
    obtain ⟨⟨r, m⟩, hm, rfl⟩ := Option.map_eq_some_iff.mp h
    exact hk.setscheduler hs' hm
  | exitNotify reaper childReaper => cases h; exact hk.exitNotify reaper childReaper
  | releaseTask p => cases h; exact hk.releaseTask he.2.1 he.2.2
  | initIdle => exact hk.initIdle he.1 h

/-- A property of single tasks that steps and births preserve holds of all tasks that exist
after an operation. -/
theorem Effect.existing_invariant {π : Guard} {I : Core → Prop} (h : Effect HZ π op k k')
    (hk : Populated k) (hstep : ∀ ps c c', TaskStep HZ ps π c c' → I c → I c')
    (hidle : ∀ ps c c', IdleStep HZ ps π c c' → I c → I c')
    (hborn : ∀ c i, I c → c.timeSlice ≠ 0 → (c.IsShort → π.fork c) → I (c.forked.withPrio i))
    (hI : ∀ q, k.Exists q → I (k.core q)) (q : TaskId) (hq : k'.Exists q) : I (k'.core q) := by
  by_cases hc : op.child = some q
  · obtain ⟨h0, hg, i, -, hs⟩ := h.born q hc
    exact steps_invariant (hstep _) hs (hborn _ i (hI _ hk.current) h0 hg)
  · by_cases hqi : q = k.rq.idle
    · rw [hqi]
      exact steps_invariant (hidle _) h.idleTask (hI _ (Or.inr rfl))
    · apply steps_invariant (hstep _) (h.tasks q hqi hc)
      apply hI
      rcases hq with hq | hq
      · exact (h.hashed q hq).imp_right fun hb => absurd hb hc
      · exact Or.inr (hq.trans h.idle)

theorem schedInit_populated (h : schedInit HZ = some k) : Populated k := by
  have hidle : k.rq.idle = 0 ∧ k.rq.curr = 0 ∧ k.pidhash = [] ∧
      ∀ q, (k.core q).runList ≠ none → q = 0 := by
    have hm : Moves HZ Guard.free 0 (bootKernel HZ) k := schedInit_moves h
    refine ⟨hm.idle, hm.curr, hm.pidhash, fun q hq => ?_⟩
    by_contra hne
    rw [hm.rest q hne] at hq
    exact hq rfl
  obtain ⟨h1, h2, h3, h4⟩ := hidle
  constructor
  · exact Or.inr (h2.trans h1.symm)
  · intro q hq
    exact Or.inr ((h4 q hq).trans h1.symm)
  · intro q hq hn
    exact absurd ((h4 q hq).trans h2.symm) hn
  · rw [h3]
    exact List.nodup_nil

theorem runFromBoot_populated {C : Kernel → Op → Prop} {ops : List Op}
    (hC : AlongBoot HZ C ops) (hr : runFromBoot HZ ops = some k) : Sound k ∧ Populated k := by
  obtain ⟨-, h⟩ := runFromBoot_invariant (J := fun k => Sound k ∧ Populated k)
    (fun k hk => ⟨schedInit_sound hk, schedInit_populated hk⟩)
    (fun k op k' _ hk he _ h => ⟨hk.1.exec he h, hk.2.exec hk.1 he h⟩) hC hr
  exact h

end
end ShortSched
