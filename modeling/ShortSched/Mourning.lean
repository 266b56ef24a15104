import ShortSched.TableRuns

/-! Exiting tasks, their children, and who waits for them, in every run. -/
namespace ShortSched
open Cells Rotation PartialRun

section
variable {t : Table} {c : Census} {p : TaskId} {n : ℕ} {m pid code fault : ℤ} {options : ℕ}
  {ops : List TableOp}

/-- No task has a parent or an original parent that has died or left the table, and a task that
has died has no children. -/
theorem parents_alive (hm : 0 ≤ m) (hn : m < n) (hn' : 32768 ≤ n) (h : TableRun n m ops t) :
    (∀ p, t.Linked n p → ∀ q, q = (t.tasks p).pPptr ∨ q = (t.tasks p).pOpptr →
      (q = initTaskAddr ∨ t.Linked n q) ∧ (t.tasks q).state ≠ .zombie) ∧
    ∀ p, (t.tasks p).state = .zombie → t.children n p = some [] := by
  obtain ⟨c, hs⟩ := h.sound hm hn hn'
  constructor
  · intro p hp q hq
    rw [linked_iff hs hn] at hp ⊢
    rw [← List.mem_cons]
    obtain ⟨h1, h2⟩ := hs.parents p hp
    rcases hq with rfl | rfl
    · exact h1
    · exact h2
  · intro p hp
    rw [hs.lists.children (hs.length_lt hn), (hs.no_kids fun ha => ha.2 hp).1]

theorem parents_alive_household : ∃ t, TableRun 32768 100 household t ∧
    ∀ p, (t.tasks p).state = .zombie → t.children 32768 p = some [] := by
  obtain ⟨t, ht⟩ := household_run
  exact ⟨t, ht, (parents_alive (by decide) (by decide) le_rfl ht).2⟩

/-- A task that has died can be waited for: its parent runs on, and when it calls `wait4` for the
pid it gets it at once. -/
theorem zombie_reaped (hm : 0 ≤ m) (hn : m < n) (hn' : 32768 ≤ n) (h : TableRun n m ops t)
    (hp : t.Linked n p) (hz : (t.tasks p).state = .zombie) :
    ((t.tasks p).pPptr = initTaskAddr ∨ t.Linked n (t.tasks p).pPptr) ∧
    (t.tasks (t.tasks p).pPptr).state ≠ .zombie ∧
    ∃ t', { t with current := (t.tasks p).pPptr }.sysWait4 n (t.tasks p).pid Table.WALL 0 =
      some (some (t.tasks p).pid, t') := by
  obtain ⟨c, hs⟩ := h.sound hm hn hn'
  rw [linked_iff hs hn] at hp ⊢
  obtain ⟨hlive, hq⟩ := (hs.parents p hp).1
  refine ⟨List.mem_cons.mp hlive, hq, ?_⟩
  obtain ⟨r, t', c', ht', -, -, hends⟩ := sysWait4_ends (t.tasks p).pid 0 (hs.switchTo hlive) hn hq
    (by decide : Table.WALL &&& 0x1ffffffc = 0)
  refine ⟨t', ht'.trans ?_⟩
  generalize hT : ({ t with current := (t.tasks p).pPptr } : Table).setState .interruptible = T
    at hends
  have hself : p ≠ (t.tasks p).pPptr := fun he => hq (he ▸ hz)
  have hother : ∀ x, x ≠ (t.tasks p).pPptr → T.tasks x = t.tasks x := by
    intro x hx
    rw [← hT]
    exact (Table.mod_tasks x).trans (if_neg hx)
  have hpid : ∀ x, (T.tasks x).pid = (t.tasks x).pid := by
    intro x
    rw [← hT, Table.setState, Table.mod_tasks]
    split_ifs with hx <;> simp [hx]
  have hpos := (hs.pids p hp).1
  have honly : ∀ x, T.Awaited c (t.tasks p).pid Table.WALL x →
      (T.tasks x).pid = (t.tasks p).pid := by
    rintro x ⟨-, -, hw⟩
    unfold Table.waitsFor at hw
    rw [if_pos (by omega)] at hw
    simpa using (Bool.and_eq_true_iff.mp hw).1
  have hmine : T.Awaited c (t.tasks p).pid Table.WALL p := by
    refine ⟨hp, Or.inl ?_, ?_⟩
    · rw [hother p hself, ← hT]
      rfl
    · unfold Table.waitsFor
      rw [if_pos (by omega), hpid]
      simp
  have hrep : Table.reports Table.WALL (T.tasks p) = true := by
    rw [hother p hself]
    simp [Table.reports, hz]
  cases hends with
  | fault x hx hr hf => exact absurd rfl hf
  | stopped x hx hr hst => rw [honly x hx]
  | reaped x hx hzx ho => rw [honly x hx]
  | handedBack x hx hzx ho => rw [honly x hx]
  | noChild hno => exact absurd hmine (hno p)
  | busy hex hno => rw [hno p hmine] at hrep; cases hrep

theorem zombie_reaped_household : ∃ t, TableRun 32768 100 household t ∧
    (t.tasks 3).state = .zombie ∧ (t.tasks (t.tasks 3).pPptr).state ≠ .zombie ∧
    ∃ t', { t with current := (t.tasks 3).pPptr }.sysWait4 32768
      (t.tasks 3).pid Table.WALL 0 = some (some (t.tasks 3).pid, t') := by
  obtain ⟨t, ht⟩ := household_run
  have hrun : (run (Table.step 32768 100) household .boot).map
      (fun t => (decide (t.Linked 32768 3), (t.tasks 3).state)) = some (true, .zombie) := by
    decide +kernel
  rw [ht.2, Option.map_some, Option.some.injEq, Prod.mk.injEq, decide_eq_true_eq] at hrun
  exact ⟨t, ht, hrun.2, (zombie_reaped (by decide) (by decide) le_rfl ht hrun.1 hrun.2).2⟩

/-- A turn of `sys_wait4` with valid options comes to its end in every table that a run reaches. It
reports a child that the call is for, if one has died or stopped, and removes it from the lists or
hands it back to the parent it had before it was traced. Without one to report, it returns or
sleeps by its options, and fails if there is no child to wait for. -/
theorem wait_ends (hm : 0 ≤ m) (hn : m < n) (hn' : 32768 ≤ n) (h : TableRun n m ops t)
    (hr : t.Runs) (hopt : options &&& 0x1ffffffc = 0) (pid fault : ℤ) :
    ∃ c r t' c', t.Lists c ∧ t.sysWait4 n pid options fault = some (r, t') ∧ t'.Lists c' ∧
      WaitEnds (t.setState .interruptible) c pid options fault r c' := by
  obtain ⟨c, hs⟩ := h.sound hm hn hn'
  obtain ⟨r, t', c', ht', hs', -, hends⟩ := sysWait4_ends pid fault hs hn hr hopt
  exact ⟨c, r, t', c', hs.lists, ht', hs'.lists, hends⟩

/-- The parent of the task that has died runs again. -/
def mourners : List TableOp := household ++ [.switchTo 2]

theorem mourners_run : ∃ t, TableRun 32768 100 mourners t ∧ t.Runs ∧
    Admissible 32768 t (.wait4 (-1) 0 0) := by
  have hC : Along (Table.step 32768 100) (Admissible 32768) mourners .boot := by decide +kernel
  obtain ⟨t, ht, -⟩ := tableRun_sound (by decide) (by decide) le_rfl hC
  have hrun : (run (Table.step 32768 100) mourners .boot).map
      (fun t => decide (Admissible 32768 t (.wait4 (-1) 0 0))) = some true := by
    decide +kernel
  rw [ht, Option.map_some, Option.some.injEq, decide_eq_true_eq] at hrun
  exact ⟨t, ⟨hC, ht⟩, hrun, hrun⟩

theorem wait_ends_mourners : ∃ t, TableRun 32768 100 mourners t ∧
    ∃ c r t' c', t.Lists c ∧ t.sysWait4 32768 (-1) 0 0 = some (r, t') ∧ t'.Lists c' ∧
      WaitEnds (t.setState .interruptible) c (-1) 0 0 r c' := by
  obtain ⟨t, ht, hr, -⟩ := mourners_run
  exact ⟨t, ht, wait_ends (by decide) (by decide) le_rfl ht hr (by decide) (-1) 0⟩

/-- How long tasks and their pids stay. A task enters the table by `fork` only, with a pid that no
task holds, and keeps the pid as long as it is there. It leaves when it has died and its parent, or
a thread of its parent's group, gets its pid from `wait4`. -/
theorem task_tenure {op : TableOp} (hm : 0 ≤ m) (hn : m < n) (hn' : 32768 ≤ n)
    (h : TableRun n m ops t) (ha : Admissible n t op) :
    ∃ t', t.step n m op = some t' ∧
      (∀ p, t.Linked n p → t'.Linked n p → (t'.tasks p).pid = (t.tasks p).pid) ∧
      (∀ p, ¬ t.Linked n p → t'.Linked n p → ∃ f copyFails, op = .fork p f copyFails ∧
        Next firstPid pidMax t.lastPid (t.InUse n) (t'.tasks p).pid) ∧
      ∀ p, t.Linked n p → ¬ t'.Linked n p → (t.tasks p).state = .zombie ∧
        ∃ pid options fault, op = .wait4 pid options fault ∧ t.Mine options p ∧
          t.sysWait4 n pid options fault = some (some (t.tasks p).pid, t') := by
  obtain ⟨c, hs⟩ := h.sound hm hn hn'
  obtain ⟨t', c', ht', hs', hstays, henters, hleaves⟩ := step_sound hs hn hn' ha
  have huse : t.InUse n = t.Held c.tasks := funext fun v => propext (inUse_iff hs hn)
  refine ⟨t', ht', ?_⟩
  simp only [huse, linked_iff hs hn, linked_iff hs' hn]
  exact ⟨hstays, fun p hno hp => henters p hp hno, hleaves⟩

theorem task_tenure_mourners : ∃ t, TableRun 32768 100 mourners t ∧
    ∃ t', t.step 32768 100 (.wait4 (-1) 0 0) = some t' ∧
      ∀ p, t.Linked 32768 p → t'.Linked 32768 p → (t'.tasks p).pid = (t.tasks p).pid := by
  obtain ⟨t, ht, -, ha⟩ := mourners_run
  obtain ⟨t', ht', hstays, -⟩ := task_tenure (by decide) (by decide) le_rfl ht ha
  exact ⟨t, ht, t', ht', hstays⟩

/-- An exit code changes no thread's flags or links. -/
theorem reaper_mod {p q : TaskId} :
    (t.mod p fun e => { e with exitCode := code }).reaper n q = t.reaper n q := by
  have hp : (t.mod p fun e => { e with exitCode := code }).pointers = t.pointers := by
    simp only [Table.mod_pointers, Pointers.ext_iff, Function.update_eq_self_iff]
    simp [Table.pointers]
  have hx : ∀ x, ((t.mod p fun e => { e with exitCode := code }).tasks x).exiting =
      (t.tasks x).exiting := by
    intro x
    rw [Table.mod_tasks]
    split_ifs with he <;> simp [he]
  simp only [Table.reaper, Table.otherThreads, hp, hx, Table.mod_childReaper]

/-- When a task exits, each of its children goes to the head of its heir's list of children, and
the other lists stay as they are. The heir is the original parent, or, where that is the exiting
task, the reaper: a thread of its group that goes on, or `child_reaper`. The parents of the exiting
task and of the children that have died before it are told, of each death once. -/
theorem exit_handsOver (hm : 0 ≤ m) (hn : m < n) (hn' : 32768 ≤ n) (h : TableRun n m ops t)
    (ha : Admissible n t (.finishExit code)) :
    ∃ ks r t', t.children n t.current = some ks ∧ t.reaper n t.current = some r ∧
      t.finishExit n code = some t' ∧ (t'.tasks t.current).state = .zombie ∧
      t'.forEachTask n = t.forEachTask n ∧
      r ≠ t.current ∧ (t.tasks r).state ≠ .zombie ∧ t'.children n t.current = some [] ∧
      (∀ q, q ≠ t.current → t'.children n q = (t.children n q).map fun old =>
        (ks.filter fun p => t.heir r p = q).reverse ++ old) ∧
      (∀ p, t.Linked n p → (t'.tasks p).pOpptr = t.heir r p) ∧
      t'.notices = t.notices ++
        (t.current :: ks.filter fun p => (t'.tasks p).state = .zombie).map fun p =>
          (p, (t'.tasks p).exitSignal) := by
  obtain ⟨c, hs⟩ := h.sound hm hn hn'
  have hlen := hs.length_lt hn
  have h1 : (t.mod t.current fun e => { e with exitCode := code }).Sound m c :=
    hs.mod (fun _ => rfl) ⟨rfl, rfl, rfl, rfl, rfl, rfl, rfl, Iff.rfl⟩
  obtain ⟨r, t', hreap, ht', hr, hrcur, he, hs'⟩ := h1.exited hn (by
    rw [Table.mod_current, Table.mod_self]
    exact ha.2)
  rw [reaper_mod] at hreap
  have hop : ∀ x, ((t.mod t.current fun e => { e with exitCode := code }).tasks x).pOpptr =
      (t.tasks x).pOpptr := by
    intro x
    rw [Table.mod_tasks]
    split_ifs with hx <;> simp [hx]
  have hheir : ∀ x, (t.mod t.current fun e => { e with exitCode := code }).heir r x =
      t.heir r x := by
    intro x
    simp only [Table.heir, hop, Table.mod_current, Table.mod_childReaper]
  have hlen' := hs'.length_lt hn
  have hkids : ∀ p ∈ c.kids t.current,
      (t.mod t.current fun e => { e with exitCode := code }).heir r p ≠ t.current := by
    intro p hp
    rw [hheir]
    exact heir_ne (hs.reaper_ne ha.2) hrcur p
  obtain ⟨hnil, hother⟩ := handOver_kids (c := c) rfl hkids
  refine ⟨c.kids t.current, r, t', hs.lists.children hlen _, hreap, ht', ?_, ?_, hrcur, ?_, ?_,
    fun q hq => ?_, fun p hp => ?_, he.notices⟩
  · rw [he.state, Table.mod_current, if_pos rfl]
  · rw [hs'.lists.forEachTask hlen', hs.lists.forEachTask hlen, handOver_tasks]
  · have hne : r ≠ t.current := hrcur
    have hz := hr.2
    rwa [Table.mod_tasks, if_neg hne] at hz
  · rw [hs'.lists.children hlen']
    exact congrArg some hnil
  · rw [hs'.lists.children hlen', hs.lists.children hlen]
    simp only [Table.mod_current, hother q hq, hheir, Option.map_some]
  · rw [he.pOpptr, if_pos ((linked_iff hs hn).mp hp), hheir]

/-- Init's child has two children, of which one has died, and goes. -/
def parting : List TableOp :=
  mourners ++ [.fork 4 ⟨false, false, false, false, SIGCHLD⟩ false, .startExit]

theorem exit_handsOver_parting : ∃ t, TableRun 32768 100 parting t ∧
    ∃ t', t.finishExit 32768 0 = some t' ∧ t'.children 32768 2 = some [] := by
  have hC : Along (Table.step 32768 100) (Admissible 32768) parting .boot := by decide +kernel
  obtain ⟨t, ht, -⟩ := tableRun_sound (by decide) (by decide) le_rfl hC
  have hrun : (run (Table.step 32768 100) parting .boot).map
      (fun t => (decide (Admissible 32768 t (.finishExit 0)), t.current)) = some (true, 2) := by
    decide +kernel
  rw [ht, Option.map_some, Option.some.injEq, Prod.mk.injEq, decide_eq_true_eq] at hrun
  obtain ⟨-, r, t', -, -, ht', -, -, -, -, hnil, -⟩ :=
    exit_handsOver (by decide) (by decide) le_rfl ⟨hC, ht⟩ hrun.1
  exact ⟨t, ⟨hC, ht⟩, t', ht', hrun.2 ▸ hnil⟩

end
end ShortSched
