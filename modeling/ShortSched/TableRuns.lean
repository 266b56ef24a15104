import ShortSched.Lib.PartialRun
import ShortSched.Waiting

/-! Runs of the process table from boot. -/
namespace ShortSched
open Cells Rotation PartialRun

/-- What is done to the process table. `setGroup` stands for `setpgid` and `setsid`, `attach` and
`detach` for ptrace, `become_reaper` for init, and `touch` for all code that has nothing to do
with links, ids and parents. -/
inductive TableOp where
  | switchTo (p : TaskId)
  | fork (p : TaskId) (f : CloneLinks) (copyFails : Bool)
  | startExit
  | finishExit (code : ℤ)
  | wait4 (pid : ℤ) (options : ℕ) (fault : ℤ)
  | reparentToInit
  | daemonize
  | becomeReaper
  | setGroup (p : TaskId) (pgrp session : ℤ)
  | attach (p : TaskId)
  | detach (p : TaskId)
  | touch (p : TaskId) (e : Entry)

/-- The rest of a task_struct, which `touch` may change. -/
def Entry.touched (e e' : Entry) : Entry :=
  { e with
    state := if e.state = .zombie then .zombie else e'.state
    firstTimeSlice := e'.firstTimeSlice
    exitCode := e'.exitCode
    exitSignal := e'.exitSignal
    pdeathSignal := e'.pdeathSignal
    parentExecId := e'.parentExecId
    selfExecId := e'.selfExecId
    capKill := e'.capKill
    sigpending := e'.sigpending }

/-- One operation. `n` bounds the loops. -/
def Table.step (n : ℕ) (maxThreads : ℤ) (op : TableOp) (t : Table) : Option Table :=
  match op with
  | .switchTo p => some { t with current := p }
  | .fork p f copyFails => (t.doFork n maxThreads p f copyFails).map Prod.snd
  | .startExit => t.startExit
  | .finishExit code => t.finishExit n code
  | .wait4 pid options fault => (t.sysWait4 n pid options fault).map Prod.snd
  | .reparentToInit => some t.reparentToInit
  | .daemonize => some t.daemonize
  | .becomeReaper => some { t with childReaper := t.current }
  | .setGroup p pgrp session => some (t.mod p fun e => { e with pgrp, session })
  | .attach p => some (reparent p t.current (t.mod p fun e => { e with ptraced := true }))
  | .detach p =>
    some (reparent p (t.tasks p).pOpptr (t.mod p fun e => { e with ptraced := false }))
  | .touch p e => some (t.mod p fun e' => e'.touched e)

/-- On the ring of tasks, behind `init_task`. -/
def Table.Linked (n : ℕ) (t : Table) (p : TaskId) : Prop := ∃ ps ∈ t.forEachTask n, p ∈ ps

/-- A number that a task on the ring holds. -/
def Table.InUse (n : ℕ) (t : Table) (v : ℤ) : Prop := ∃ ps ∈ t.forEachTask n, t.Held ps v

/-- `current` runs, so it has not died. -/
def Table.Runs (t : Table) : Prop := (t.tasks t.current).state ≠ .zombie

/-- When the code outside does the operation: the allocator hands out unused task_structs, a task
that has died is not scheduled again, idle tasks and init do not exit, groups are joined or made
by their leader, and forks find a free pid. -/
def Admissible (n : ℕ) (t : Table) : TableOp → Prop
  | .switchTo p => (p = initTaskAddr ∨ t.Linked n p) ∧ (t.tasks p).state ≠ .zombie
  | .fork p f _ => p ≠ initTaskAddr ∧ ¬ t.Linked n p ∧ t.Runs ∧
      (t.tasks t.current).exiting = false ∧ f.pid = false ∧
      ∃ v ∈ List.range' 1 32767, Candidate firstPid pidMax t.lastPid (v : ℕ) ∧ ¬ t.InUse n v
  | .startExit => t.Runs ∧ (t.tasks t.current).pid ≠ 0 ∧ (t.tasks t.current).pid ≠ 1
  | .finishExit _ => t.Runs ∧ (t.tasks t.current).exiting = true
  | .wait4 _ _ _ => t.Runs
  | .reparentToInit => t.current ≠ initTaskAddr
  | .daemonize => t.current ≠ initTaskAddr
  | .becomeReaper => (t.tasks t.current).pid = 1
  | .setGroup p pgrp session => t.Linked n p ∧ t.InUse n pgrp ∧ t.InUse n session
  | .attach p => t.Linked n p ∧ t.Runs
  | .detach p => t.Linked n p
  | .touch _ e => e.state ≠ .zombie

instance (n : ℕ) (t : Table) (p : TaskId) : Decidable (t.Linked n p) :=
  inferInstanceAs (Decidable (∃ ps ∈ t.forEachTask n, p ∈ ps))

instance (n : ℕ) (t : Table) (v : ℤ) : Decidable (t.InUse n v) :=
  inferInstanceAs (Decidable (∃ ps ∈ t.forEachTask n, ∃ p ∈ ps, (t.tasks p).holds v))

instance (t : Table) : Decidable t.Runs := inferInstanceAs (Decidable (_ ≠ _))

instance (lo hi b v : ℤ) : Decidable (Candidate lo hi b v) :=
  inferInstanceAs (Decidable (b < v ∧ v < hi ∨ lo ≤ v ∧ v < b))

instance (n : ℕ) (t : Table) : (op : TableOp) → Decidable (Admissible n t op)
  | .switchTo _ => inferInstanceAs (Decidable (_ ∧ _))
  | .fork _ _ _ => inferInstanceAs (Decidable (_ ∧ _))
  | .startExit => inferInstanceAs (Decidable (_ ∧ _))
  | .finishExit _ => inferInstanceAs (Decidable (_ ∧ _))
  | .wait4 _ _ _ => inferInstanceAs (Decidable t.Runs)
  | .reparentToInit => inferInstanceAs (Decidable (_ ≠ _))
  | .daemonize => inferInstanceAs (Decidable (_ ≠ _))
  | .becomeReaper => inferInstanceAs (Decidable (_ = _))
  | .setGroup _ _ _ => inferInstanceAs (Decidable (_ ∧ _))
  | .attach _ => inferInstanceAs (Decidable (_ ∧ _))
  | .detach _ => inferInstanceAs (Decidable (Table.Linked _ _ _))
  | .touch _ _ => inferInstanceAs (Decidable (_ ≠ _))

/-- `init_task`, alone in the table. -/
def Table.boot : Table where
  tasks _ :=
    { state := .running, exiting := false, ptraced := false, firstTimeSlice := false
      nextTask := initTaskAddr, prevTask := initTaskAddr, exitCode := 0, exitSignal := 0
      pdeathSignal := 0, pid := 0, pgrp := 0, session := 0, tgid := 0, pOpptr := initTaskAddr
      pPptr := initTaskAddr, pCptr := none, pYsptr := none, pOsptr := none
      threadNext := initTaskAddr, threadPrev := initTaskAddr, pidhashNext := none
      pidhashPprev := .bucket 0, parentExecId := 0, selfExecId := 0, capKill := true
      sigpending := false }
  pidhash _ := none
  nrThreads := 0
  lastPid := 0
  nextSafe := pidMax
  current := initTaskAddr
  childReaper := initTaskAddr
  sent := []

/-- A run from boot in which every operation is admissible. -/
def TableRun (n : ℕ) (maxThreads : ℤ) (ops : List TableOp) (t : Table) : Prop :=
  Along (Table.step n maxThreads) (Admissible n) ops .boot ∧
    run (Table.step n maxThreads) ops .boot = some t

section
variable {t t' : Table} {c c' : Census} {p q r : TaskId} {n : ℕ} {m v : ℤ} {op : TableOp}
  {ops : List TableOp}

theorem boot_sound (hm : 0 ≤ m) : Table.boot.Sound m ⟨[], fun _ => [], fun _ => []⟩ where
  lists := by
    refine ⟨⟨rfl, rfl, rfl⟩, by simp, ⟨fun i => ⟨_, rfl, rfl⟩, by simp, by simp⟩, by simp,
      ⟨fun i => ⟨_, rfl, rfl⟩, by simp, by simp⟩, by simp, ?_, rfl⟩
    rintro p hp
    obtain rfl := List.mem_singleton.mp hp
    refine ⟨[], ⟨rfl, rfl, rfl⟩, by simp, fun x => ?_⟩
    simp [Table.boot]
  cache := ⟨by simp [Table.boot], le_rfl, by simp [Table.Held]⟩
  started := by simp
  pids := by simp
  unique := by simp
  initIds := ⟨rfl, rfl, rfl, rfl⟩
  initParents := ⟨rfl, rfl⟩
  parents := by simp
  current := List.mem_singleton.mpr rfl
  reaper := ⟨List.mem_singleton.mpr rfl, by simp [Table.boot]⟩
  exiting := by simp [Table.boot]
  limit := hm

theorem linked_iff (h : t.Sound m c) (hn : m < n) : t.Linked n p ↔ p ∈ c.tasks := by
  simp [Table.Linked, h.lists.forEachTask (h.length_lt hn)]

theorem inUse_iff (h : t.Sound m c) (hn : m < n) : t.InUse n v ↔ t.Held c.tasks v := by
  simp [Table.InUse, h.lists.forEachTask (h.length_lt hn)]

/-- Other numbers of groups, as long as somebody holds them. -/
theorem Table.Sound.setGroup {f : Entry → Entry} (h : t.Sound m c)
    (hb : ∀ e, (f e).bones = e.bones) (hp : p ≠ initTaskAddr)
    (hsame : (f (t.tasks p)).pOpptr = (t.tasks p).pOpptr ∧
      (f (t.tasks p)).state = (t.tasks p).state ∧ (f (t.tasks p)).exiting = (t.tasks p).exiting)
    (hheld : p ∈ c.tasks → ∀ v, v = (f (t.tasks p)).pgrp ∨ v = (f (t.tasks p)).session →
      t.lastPid < v → t.Held c.tasks v) : (t.mod p f).Sound m c := by
  have hbones := hb (t.tasks p)
  have hpid : (f (t.tasks p)).bones.pid = (t.tasks p).bones.pid := congrArg Entry.pid hbones
  have htgid : (f (t.tasks p)).bones.tgid = (t.tasks p).bones.tgid := congrArg Entry.tgid hbones
  simp only [Entry.bones] at hpid htgid
  refine h.assign hb (fun he => absurd he hp) (fun hpt => hsame.1 ▸ (h.parents p hpt).2)
    (fun hpt v hv hlt => ?_) (by rw [hsame.2.1]) fun _ => Or.inl hsame.2.2
  rw [Entry.holds_iff, hpid, htgid] at hv
  rcases hv with hv | hv | hv | hv
  · exact ⟨p, hpt, Entry.holds_iff.mpr (Or.inl hv)⟩
  · exact hheld hpt v (Or.inl hv.symm) hlt
  · exact ⟨p, hpt, Entry.holds_iff.mpr (Or.inr (Or.inr (Or.inl hv)))⟩
  · exact hheld hpt v (Or.inr hv.symm) hlt

/-- The flag does not matter, nor does the parent as long as it lives. -/
theorem Table.Sound.trace {b : Bool} (h : t.Sound m c) (hp : p ∈ c.tasks) (hq : t.Alive c q) :
    ∃ t' c', ShortSched.reparent p q (t.mod p fun e => { e with ptraced := b }) = t' ∧
      t'.Sound m c' ∧ (∀ x, x ∈ c'.tasks ↔ x ∈ c.tasks) ∧
      ∀ x, (t'.tasks x).pid = (t.tasks x).pid := by
  have h1 : (t.mod p fun e => { e with ptraced := b }).Sound m c :=
    h.mod (fun _ => rfl) ⟨rfl, rfl, rfl, rfl, rfl, rfl, rfl, Iff.rfl⟩
  refine ⟨_, _, rfl, h1.reparent hp ⟨hq.1, ?_⟩, fun x => h.lists.mem_requeue hp, fun x => ?_⟩
  · rw [Table.mod_tasks]
    split_ifs with he
    · exact he ▸ hq.2
    · exact hq.2
  · rw [reparent_pid, Table.mod_tasks]
    split_ifs with hx <;> simp [hx]

/-- Who enters the table in a step, and who leaves it. -/
structure Turnover (n : ℕ) (t : Table) (c : Census) (op : TableOp) (t' : Table) (c' : Census) :
    Prop where
  stays : ∀ x ∈ c.tasks, x ∈ c'.tasks → (t'.tasks x).pid = (t.tasks x).pid
  enters : ∀ x ∈ c'.tasks, x ∉ c.tasks → ∃ f copyFails, op = .fork x f copyFails ∧
    Next firstPid pidMax t.lastPid (t.Held c.tasks) (t'.tasks x).pid
  leaves : ∀ x ∈ c.tasks, x ∉ c'.tasks → (t.tasks x).state = .zombie ∧
    ∃ pid options fault, op = .wait4 pid options fault ∧ t.Mine options x ∧
      t.sysWait4 n pid options fault = some (some (t.tasks x).pid, t')

/-- The same tasks. -/
theorem Turnover.same (hm : ∀ x, x ∈ c'.tasks ↔ x ∈ c.tasks)
    (hp : ∀ x ∈ c'.tasks, (t'.tasks x).pid = (t.tasks x).pid) : Turnover n t c op t' c' where
  stays x _ hx := hp x hx
  enters x hx hno := absurd ((hm x).mp hx) hno
  leaves x hx hno := absurd ((hm x).mpr hx) hno

theorem Turnover.mod {f : Entry → Entry} (hf : ∀ e, (f e).pid = e.pid) :
    Turnover n t c op (t.mod p f) c := by
  refine Turnover.same (fun _ => Iff.rfl) fun x _ => ?_
  rw [Table.mod_tasks]
  split_ifs with hx
  · rw [hf, hx]
  · rfl

theorem Turnover.wait4 {pid fault : ℤ} {options : ℕ} {r : Option ℤ} (h : t.Sound m c)
    (ht' : t.sysWait4 n pid options fault = some (r, t'))
    (hsame : ∀ x ∈ c'.tasks, (t'.tasks x).pid = (t.tasks x).pid)
    (hends : WaitEnds (t.setState .interruptible) c pid options fault r c') :
    Turnover n t c (.wait4 pid options fault) t' c' := by
  have hfield : ∀ x, ((t.setState .interruptible).tasks x).pid = (t.tasks x).pid ∧
      ((t.setState .interruptible).tasks x).pPptr = (t.tasks x).pPptr ∧
      ((t.setState .interruptible).tasks x).tgid = (t.tasks x).tgid := by
    intro x
    rw [Table.setState, Table.mod_tasks]
    split_ifs with hx <;> simp [hx]
  cases hends with
  | reaped x hx hz ho =>
    have hmem : ∀ y, y ∈ c.tasks.erase x ↔ y ≠ x ∧ y ∈ c.tasks := fun y => h.lists.mem_erase
    refine ⟨fun y _ hy => hsame y hy, fun y hy hno => ?_, fun y hy hno => ?_⟩
    · exact absurd ((hmem y).mp hy).2 hno
    · obtain rfl : y = x := by
        by_contra hne
        exact hno ((hmem y).mpr ⟨hne, hy⟩)
      refine ⟨?_, pid, options, fault, rfl, ?_, ?_⟩
      · rw [Table.setState, Table.mod_tasks] at hz
        split_ifs at hz
        exact hz
      · have hmine := hx.2.1
        unfold Table.Mine at hmine ⊢
        simp only [(hfield _).2.1, (hfield _).2.2] at hmine
        exact hmine
      · rw [ht', (hfield y).1]
  | handedBack x hx hz ho =>
    exact Turnover.same (fun y => h.lists.mem_requeue hx.1) hsame
  | fault x hx hr hf => exact Turnover.same (fun _ => Iff.rfl) hsame
  | stopped x hx hr hs => exact Turnover.same (fun _ => Iff.rfl) hsame
  | noChild hno => exact Turnover.same (fun _ => Iff.rfl) hsame
  | busy hp hr => exact Turnover.same (fun _ => Iff.rfl) hsame

/-- Every operation comes to its end and keeps the table well formed. Forks enter tasks, with a
new pid, and only waiting removes them. -/
theorem step_sound (h : t.Sound m c) (hn : m < n) (hn' : 32768 ≤ n) (ha : Admissible n t op) :
    ∃ t' c', t.step n m op = some t' ∧ t'.Sound m c' ∧ Turnover n t c op t' c' := by
  cases op with
  | switchTo p =>
    refine ⟨_, c, rfl, h.switchTo ?_, .same (fun _ => Iff.rfl) fun _ _ => rfl⟩
    rw [List.mem_cons, ← linked_iff h hn]
    exact ha.1
  | fork p f copyFails =>
    obtain ⟨hp0, hp, hz, hx, hf, v, -, hv, hfree⟩ := ha
    rw [linked_iff h hn] at hp
    rw [inUse_iff h hn] at hfree
    obtain ⟨v, t', c', ht', hs, hold, hborn⟩ := h.doFork f copyFails hn hn'
      (show p ∉ initTaskAddr :: c.tasks by simp [hp0, hp]) hz hx hf ⟨v, hv, hfree⟩
    refine ⟨t', c', congrArg (Option.map Prod.snd) ht', hs, ?_⟩
    rcases hborn with ⟨-, htasks⟩ | ⟨hnext, htasks, hpid⟩
    · exact .same (by simp [htasks]) fun x hx => hold x (htasks ▸ hx)
    · refine ⟨fun x hx _ => hold x hx, fun x hx hno => ?_, fun x hx hno => ?_⟩
      · obtain rfl : x = p := by simpa [htasks, hno] using hx
        exact ⟨f, copyFails, rfl, hpid ▸ hnext⟩
      · exact absurd (htasks ▸ List.mem_append_left _ hx) hno
  | startExit =>
    obtain ⟨-, h0, h1⟩ := ha
    have hstart : t.startExit = some _ := if_neg (by tauto)
    exact ⟨_, c, hstart, h.startExit hstart, .mod fun _ => rfl⟩
  | finishExit code =>
    have h1 : (t.mod t.current fun e => { e with exitCode := code }).Sound m c :=
      h.mod (fun _ => rfl) ⟨rfl, rfl, rfl, rfl, rfl, rfl, rfl, Iff.rfl⟩
    obtain ⟨r, t', -, ht', -, -, he, hs⟩ := h1.exited hn (by
      rw [Table.mod_current, Table.mod_self]
      exact ha.2)
    refine ⟨t', _, ht', hs, .same (fun x => by rw [handOver_tasks]) fun x _ => ?_⟩
    rw [(he.ids x).1, Table.mod_tasks]
    split_ifs with hx <;> simp [hx]
  | wait4 pid options fault =>
    by_cases hopt : options &&& 0x1ffffffc = 0
    · obtain ⟨r, t', c', ht', hs, hsame, hends⟩ := sysWait4_ends pid fault h hn ha hopt
      exact ⟨t', c', congrArg (Option.map Prod.snd) ht', hs, .wait4 h ht' hsame hends⟩
    · refine ⟨t, c, ?_, h, .same (fun _ => Iff.rfl) fun _ _ => rfl⟩
      rw [Table.step, Table.sysWait4, if_pos hopt]
      rfl
  | reparentToInit =>
    obtain ⟨c', hs, htasks, hpid⟩ := h.reparentToInit ha
    have hmem : t.current ∈ c.tasks := (List.mem_cons.mp h.current).resolve_left ha
    exact ⟨_, c', rfl, hs, .same (fun x => htasks ▸ h.lists.mem_requeue hmem) fun x _ => hpid x⟩
  | daemonize =>
    refine ⟨_, c, rfl, h.setGroup (fun _ => rfl) ha ⟨rfl, rfl, rfl⟩ ?_, .mod fun _ => rfl⟩
    intro hc v hv hlt
    have h1 := h.started (List.ne_nil_of_mem hc)
    have hv1 : v = 1 := by simpa using hv
    omega
  | becomeReaper =>
    have hone : (t.tasks t.current).pid = 1 := ha
    have hcur := h.of_pid_ne_zero h.current (by omega)
    refine ⟨_, c, rfl, ?_, .same (fun _ => Iff.rfl) fun _ _ => rfl⟩
    exact h.mono (h.lists.of_bones (fun _ => rfl) rfl rfl) (fun _ => id) (fun _ _ => ⟨rfl, rfl⟩)
      (fun v hv _ => hv) ⟨rfl, rfl⟩ ⟨rfl, rfl, rfl, rfl⟩ h.parents h.current
      ⟨h.current, ha.le⟩ h.exiting le_rfl
  | setGroup p pgrp session =>
    obtain ⟨hp, hg, hs⟩ := ha
    rw [linked_iff h hn] at hp
    rw [inUse_iff h hn] at hg hs
    refine ⟨_, c, rfl, h.setGroup (fun _ => rfl) (h.lists.ne_init hp) ⟨rfl, rfl, rfl⟩ ?_,
      .mod fun _ => rfl⟩
    rintro - v (rfl | rfl) -
    · exact hg
    · exact hs
  | attach p =>
    rw [Admissible, linked_iff h hn] at ha
    obtain ⟨t', c', ht', hs, hm, hp⟩ := h.trace (b := true) ha.1 ⟨h.current, ha.2⟩
    exact ⟨t', c', congrArg some ht', hs, .same hm fun x _ => hp x⟩
  | detach p =>
    rw [Admissible, linked_iff h hn] at ha
    obtain ⟨t', c', ht', hs, hm, hp⟩ := h.trace (b := false) ha (h.parents p ha).2
    exact ⟨t', c', congrArg some ht', hs, .same hm fun x _ => hp x⟩
  | touch p e =>
    refine ⟨_, c, rfl, h.mod (fun _ => rfl) ⟨rfl, rfl, rfl, rfl, rfl, rfl, rfl, ?_⟩,
      .mod fun _ => rfl⟩
    have he : e.state ≠ .zombie := ha
    by_cases hz : (t.tasks p).state = .zombie <;> simp [Entry.touched, hz, he]

/-- Runs from boot go through, and reach well-formed tables only. -/
theorem tableRun_sound (hm : 0 ≤ m) (hn : m < n) (hn' : 32768 ≤ n)
    (hC : Along (Table.step n m) (Admissible n) ops .boot) :
    ∃ t, run (Table.step n m) ops .boot = some t ∧ ∃ c, t.Sound m c :=
  run_total (fun _ _ ⟨_, hs⟩ ha =>
    let ⟨t', c', ht', hs', _⟩ := step_sound hs hn hn' ha
    ⟨t', ht', c', hs'⟩) ⟨_, boot_sound hm⟩ hC

theorem TableRun.sound (h : TableRun n m ops t) (hm : 0 ≤ m) (hn : m < n) (hn' : 32768 ≤ n) :
    ∃ c, t.Sound m c := by
  obtain ⟨t', ht', hs⟩ := tableRun_sound hm hn hn' h.1
  rw [h.2, Option.some.injEq] at ht'
  exact ht' ▸ hs

end

/-- Init forks a task, and that one forks another, which dies. -/
def household : List TableOp :=
  let f : CloneLinks := ⟨false, false, false, false, SIGCHLD⟩
  [.fork 1 f false, .switchTo 1, .becomeReaper, .fork 2 f false, .switchTo 2, .fork 3 f false,
    .switchTo 3, .startExit, .finishExit 0]

theorem household_run : ∃ t, TableRun 32768 100 household t := by
  have hC : Along (Table.step 32768 100) (Admissible 32768) household .boot := by decide +kernel
  obtain ⟨t, ht, -⟩ := tableRun_sound (by decide) (by decide) le_rfl hC
  exact ⟨t, hC, ht⟩

end ShortSched
