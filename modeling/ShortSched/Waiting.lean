import ShortSched.TableSound

/-! `sys_wait4` on a well-formed process table, and kernel threads that go over to init. -/
namespace ShortSched
open Cells

/-- A child of the caller, or of another thread of its group if threads are not told apart. -/
def Table.Mine (t : Table) (options : ℕ) (p : TaskId) : Prop :=
  (t.tasks p).pPptr = t.current ∨ options &&& Table.WNOTHREAD = 0 ∧
    (t.tasks (t.tasks p).pPptr).tgid = (t.tasks t.current).tgid

/-- A child that the call is for. -/
def Table.Awaited (t : Table) (c : Census) (pid : ℤ) (options : ℕ) (p : TaskId) : Prop :=
  p ∈ c.tasks ∧ t.Mine options p ∧
    Table.waitsFor pid options (t.tasks t.current) (t.tasks p) = true

/-- How a turn of `sys_wait4` can end: what it returns, and the lists it leaves behind. -/
inductive WaitEnds (t : Table) (c : Census) (pid : ℤ) (options : ℕ) (fault : ℤ) :
    Option ℤ → Census → Prop
  | fault (p : TaskId) (hp : t.Awaited c pid options p)
      (hr : Table.reports options (t.tasks p) = true) (hf : fault ≠ 0) :
      WaitEnds t c pid options fault (some fault) c
  | stopped (p : TaskId) (hp : t.Awaited c pid options p)
      (hr : Table.reports options (t.tasks p) = true) (hs : (t.tasks p).state = .stopped) :
      WaitEnds t c pid options fault (some (t.tasks p).pid) c
  | reaped (p : TaskId) (hp : t.Awaited c pid options p) (hz : (t.tasks p).state = .zombie)
      (ho : (t.tasks p).pOpptr = (t.tasks p).pPptr) :
      WaitEnds t c pid options fault (some (t.tasks p).pid)
        (c.remove p (t.tasks p).pPptr (pidHashfn (t.tasks p).pid))
  | handedBack (p : TaskId) (hp : t.Awaited c pid options p) (hz : (t.tasks p).state = .zombie)
      (ho : (t.tasks p).pOpptr ≠ (t.tasks p).pPptr) :
      WaitEnds t c pid options fault (some (t.tasks p).pid)
        { c.move p (t.tasks p).pPptr (t.tasks p).pOpptr with tasks := c.tasks.erase p ++ [p] }
  | noChild (h : ∀ p, ¬ t.Awaited c pid options p) :
      WaitEnds t c pid options fault (some (-ECHILD)) c
  | busy (hp : ∃ p, t.Awaited c pid options p)
      (hr : ∀ p, t.Awaited c pid options p → Table.reports options (t.tasks p) = false) :
      WaitEnds t c pid options fault
        (if options &&& Table.WNOHANG ≠ 0 then some 0
          else if (t.tasks t.current).sigpending then some (-ERESTARTSYS) else none) c

section
variable {t t' : Table} {c c' : Census} {p q r : TaskId} {n options : ℕ} {m pid fault : ℤ}

theorem Table.Lists.children (h : t.Lists c) (hn : c.tasks.length < n) (q : TaskId) :
    t.children n q = some (c.kids q) := by
  have hlen := ((h.kids.nodup q).subperm fun x hx => ((h.parent x q).mp hx).1).length_le
  exact (h.kids.chain q).walk (by omega)

theorem mapM_some {α β : Type} {f : α → Option β} {g : α → β} {l : List α}
    (h : ∀ x ∈ l, f x = some (g x)) : l.mapM f = some (l.map g) := by
  induction l with
  | nil => rfl
  | cons x l ih =>
    have hl := ih fun y hy => h y (List.mem_cons_of_mem _ hy)
    simp [h x List.mem_cons_self, hl]

/-- The loops of `sys_wait4` come by each child once. -/
theorem waitScope_eq (h : t.Sound m c) (hn : m < n) (options : ℕ) :
    ∃ ps, t.waitScope n options = some ps ∧ ps.Nodup ∧
      ∀ p, p ∈ ps ↔ p ∈ c.tasks ∧ t.Mine options p := by
  have hlen := h.length_lt hn
  have hkids : ∀ l : List TaskId, l.mapM (t.children n) = some (l.map c.kids) :=
    fun l => mapM_some fun q _ => h.lists.children hlen q
  have hnodup : ∀ l : List TaskId, l.Nodup → (l.map c.kids).flatten.Nodup := by
    intro l hl
    rw [List.nodup_flatten]
    constructor
    · simp only [List.mem_map, forall_exists_index, and_imp, forall_apply_eq_imp_iff₂]
      exact fun q _ => h.lists.kids.nodup q
    · rw [List.pairwise_map]
      refine hl.imp fun hab => ?_
      exact List.disjoint_left.mpr fun x hx hx' => hab (h.lists.kids.disjoint _ _ x hx hx')
  have hmem : ∀ (l : List TaskId) p, p ∈ (l.map c.kids).flatten ↔
      p ∈ c.tasks ∧ (t.tasks p).pPptr ∈ l := by
    intro l p
    simp only [List.mem_flatten, List.mem_map, exists_exists_and_eq_and, h.lists.parent]
    constructor
    · rintro ⟨q, hq, hp, rfl⟩
      exact ⟨hp, hq⟩
    · exact fun ⟨hp, hq⟩ => ⟨_, hq, hp, rfl⟩
  unfold Table.waitScope Table.Mine
  by_cases ho : options &&& Table.WNOTHREAD = 0
  · obtain ⟨l, hl, hnd, hthreads⟩ := h.lists.otherThreads h.current hlen
    refine ⟨((t.current :: l).map c.kids).flatten, ?_, hnodup _ hnd, fun p => ?_⟩
    · simp only [ne_eq, ho, not_true, if_false, hl, Option.bind_eq_bind, Option.bind_some, hkids]
    · rw [hmem]
      refine and_congr_right fun hp => ?_
      rw [hthreads]
      constructor
      · exact fun hq => Or.inr ⟨ho, hq.2⟩
      · rintro (hq | hq)
        · rw [hq]
          exact ⟨h.current, rfl⟩
        · exact ⟨(h.parents p hp).1.1, hq.2⟩
  · refine ⟨([t.current].map c.kids).flatten, ?_, hnodup _ (List.nodup_singleton _), fun p => ?_⟩
    · simp only [ne_eq, ho, not_false_eq_true, if_true, Option.bind_eq_bind, Option.bind_some,
        hkids]
    · rw [hmem, List.mem_singleton]
      simp [ho]

/-- What the scan finds: a child to report if there is one, else whether there are children. -/
theorem waitScan_eq (h : t.Sound m c) (hn : m < n) (pid : ℤ) (options : ℕ) :
    ∃ found flag, t.waitScan n pid options = some (found, flag) ∧
      (flag = true ↔ ∃ p, t.Awaited c pid options p) ∧
      (∀ p, found = some p → t.Awaited c pid options p ∧
        Table.reports options (t.tasks p) = true) ∧
      (found = none → ∀ p, t.Awaited c pid options p →
        Table.reports options (t.tasks p) = false) := by
  obtain ⟨ps, hps, -, hmem⟩ := waitScope_eq h hn options
  have hmine : ∀ p, p ∈ ps.filter (fun p =>
      Table.waitsFor pid options (t.tasks t.current) (t.tasks p)) ↔ t.Awaited c pid options p := by
    intro p
    rw [List.mem_filter, hmem, and_assoc]
    rfl
  refine ⟨_, _, by rw [Table.waitScan, hps]; rfl, ?_, fun p hp => ?_, fun hnone p hp => ?_⟩
  · simp only [Bool.not_eq_true', List.isEmpty_eq_false_iff_exists_mem, hmine]
  · have hr := List.find?_some hp
    exact ⟨(hmine p).mp (List.mem_of_find?_eq_some hp), hr⟩
  · have hno := List.find?_eq_none.mp hnone p ((hmine p).mpr hp)
    simpa using hno

theorem reports_iff {e : Entry} : Table.reports options e = true →
    e.state = .stopped ∨ e.state = .zombie := by
  unfold Table.reports
  simp only [Bool.or_eq_true, Bool.and_eq_true, decide_eq_true_eq]
  tauto

/-- Setting the state of a living task. -/
theorem Table.Sound.setState {s : TaskState} (h : t.Sound m c)
    (hz : (t.tasks t.current).state ≠ .zombie) (hs : s ≠ .zombie) : (t.setState s).Sound m c :=
  h.mod (fun _ => rfl) ⟨rfl, rfl, rfl, rfl, rfl, rfl, rfl, by simp [hz, hs]⟩

/-- Reporting a child keeps the table well formed. -/
theorem waitReport_ends (fault : ℤ) (h : t.Sound m c) (hcur : (t.tasks t.current).state ≠ .zombie)
    (hp : t.Awaited c pid options p) (hr : Table.reports options (t.tasks p) = true) :
    ∃ r t' c', t.waitReport p fault = some (r, t') ∧ t'.Sound m c' ∧ t'.current = t.current ∧
      (t'.tasks t.current).state ≠ .zombie ∧
      (∀ x ∈ c'.tasks, (t'.tasks x).pid = (t.tasks x).pid) ∧
      WaitEnds t c pid options fault (some r) c' := by
  unfold Table.waitReport
  by_cases hf : fault = 0
  swap
  · exact ⟨fault, t, c, if_pos hf, h, rfl, hcur, fun _ _ => rfl, .fault p hp hr hf⟩
  rw [if_neg (not_not.mpr hf)]
  dsimp only
  rcases reports_iff hr with hs | hz
  · rw [if_pos hs]
    refine ⟨_, _, c, rfl, ?_, rfl, ?_, fun x _ => ?_, .stopped p hp hr hs⟩
    · exact h.mod (fun _ => rfl) ⟨rfl, rfl, rfl, rfl, rfl, rfl, rfl, Iff.rfl⟩
    · rw [Table.mod_tasks]
      split_ifs with he
      · exact he ▸ hcur
      · exact hcur
    · rw [Table.mod_tasks]
      split_ifs with he <;> simp [he]
  · rw [if_neg (by simp [hz])]
    have hpcur : p ≠ t.current := fun he => hcur (he ▸ hz)
    by_cases ho : (t.tasks p).pOpptr = (t.tasks p).pPptr
    · rw [if_neg (not_not.mpr ho)]
      obtain ⟨t', ht', hsound⟩ := h.releaseTask hp.1 hz hpcur
      rw [ht']
      refine ⟨_, t', _, rfl, hsound, ?_, ?_, fun x hx => ?_, .reaped p hp hz ho⟩
      all_goals
        unfold Table.releaseTask at ht'
        rw [if_neg hpcur, Option.some.injEq] at ht'
        have hrel := unhashProcess_relinked p t
        rw [← ht']
      · exact hrel.current
      · rw [Table.mod_tasks, if_neg hpcur.symm]
        exact (hrel.field Entry.state (fun _ => rfl) _).trans_ne hcur
      · rw [Table.mod_tasks, if_neg (h.lists.mem_erase.mp hx).1]
        exact hrel.field Entry.pid (fun _ => rfl) x
    · rw [if_pos ho]
      have hrel := reparent_relinked p (t.tasks p).pOpptr t
      refine ⟨_, _, _, rfl, (h.reparent hp.1 (h.parents p hp.1).2).send _, hrel.current, ?_,
        fun x _ => reparent_pid, .handedBack p hp hz ho⟩
      rw [Table.send_tasks, hrel.field Entry.state (fun _ => rfl), Table.mod_tasks,
        if_neg hpcur.symm]
      exact hcur

/-- A turn of `sys_wait4` reports a child that has died or stopped if the caller awaits one,
fails if there is none to await, and sleeps only when all of them are still running. -/
theorem sysWait4_ends (pid fault : ℤ) (h : t.Sound m c) (hn : m < n)
    (hcur : (t.tasks t.current).state ≠ .zombie) (hopt : options &&& 0x1ffffffc = 0) :
    ∃ r t' c', t.sysWait4 n pid options fault = some (r, t') ∧ t'.Sound m c' ∧
      (∀ x ∈ c'.tasks, (t'.tasks x).pid = (t.tasks x).pid) ∧
      WaitEnds (t.setState .interruptible) c pid options fault r c' := by
  have h0 := h.setState hcur (s := .interruptible) (by decide)
  have hcur0 : ((t.setState .interruptible).tasks (t.setState .interruptible).current).state ≠
      .zombie := by
    simp [Table.setState, Table.mod_self]
  have hpid : ∀ (s : TaskState) (t' : Table) x,
      ((t'.setState s).tasks x).pid = (t'.tasks x).pid := by
    intro s t' x
    rw [Table.setState, Table.mod_tasks]
    split_ifs with hx <;> simp [hx]
  obtain ⟨found, flag, hscan, hflag, hfound, hnone⟩ := waitScan_eq h0 hn pid options
  unfold Table.sysWait4
  rw [if_neg (not_not.mpr hopt)]
  simp only [hscan, Option.bind_eq_bind, Option.bind_some]
  have hrun : ∀ {t' c'}, t'.Sound m c' → (t'.tasks t'.current).state ≠ .zombie →
      (Table.setState .running t').Sound m c' := fun hs hz => hs.setState hz (by decide)
  cases found with
  | some p =>
    obtain ⟨hp, hr⟩ := hfound p rfl
    obtain ⟨r, t', c', hrep, hsound, hc, hz, hsame, hends⟩ := waitReport_ends fault h0 hcur0 hp hr
    dsimp only
    rw [hrep]
    refine ⟨_, _, c', rfl, hrun hsound (by rwa [hc]), fun x hx => ?_, hends⟩
    rw [hpid, hsame x hx, hpid]
  | none =>
    have hno := hnone rfl
    cases flag with
    | false =>
      refine ⟨_, _, c, rfl, hrun h0 hcur0, fun x _ => (hpid _ _ x).trans (hpid _ t x),
        .noChild fun p hp => ?_⟩
      cases hflag.mpr ⟨p, hp⟩
    | true =>
      have hends : WaitEnds _ c pid options fault _ c := .busy (hflag.mp rfl) hno
      dsimp only
      rw [if_neg (by decide)]
      by_cases hw : options &&& Table.WNOHANG ≠ 0
      · rw [if_pos hw] at hends ⊢
        exact ⟨_, _, c, rfl, hrun h0 hcur0, fun x _ => (hpid _ _ x).trans (hpid _ t x), hends⟩
      · rw [if_neg hw] at hends ⊢
        split_ifs at hends ⊢ with hsig
        · exact ⟨_, _, c, rfl, hrun h0 hcur0, fun x _ => (hpid _ _ x).trans (hpid _ t x), hends⟩
        · exact ⟨_, _, c, rfl, h0, fun x _ => hpid _ t x, hends⟩

/-! `reparent_to_init`. -/

/-- Links do not depend on the original parent and the flags. -/
theorem mod_flags_pointers (q : TaskId) {f : Entry → Entry}
    (hf : ∀ e, (f e).bones = e.bones) : (t.mod q f).pointers = t.pointers := by
  have hfield : ∀ {β : Type} (g : Entry → β), (∀ e, g e = g e.bones) →
      ∀ x, g ((t.mod q f).tasks x) = g (t.tasks x) := by
    refine fun g hg x => Table.mod_field g (fun e => ?_) x
    rw [hg, hf, ← hg]
  simp only [Table.pointers, hfield Entry.nextTask (fun _ => rfl),
    hfield Entry.prevTask (fun _ => rfl), hfield Entry.pPptr (fun _ => rfl),
    hfield Entry.pCptr (fun _ => rfl), hfield Entry.pYsptr (fun _ => rfl),
    hfield Entry.pOsptr (fun _ => rfl), hfield Entry.threadNext (fun _ => rfl),
    hfield Entry.threadPrev (fun _ => rfl), hfield Entry.pidhashNext (fun _ => rfl),
    hfield Entry.pidhashPprev (fun _ => rfl)]
  rfl

/-- `reparent_to_init` is a change of parents and of flags. -/
theorem reparentToInit_eq (hcur : t.current ≠ initTaskAddr) :
    t.reparentToInit.pointers = (reparent t.current t.childReaper t).pointers ∧
      Relinked ((reparent t.current t.childReaper t).mod t.current fun e =>
        { e with
          pOpptr := t.childReaper, exitSignal := SIGCHLD, ptraced := false, capKill := true })
        t.reparentToInit := by
  have hr := removeLinks_relinked t.current t
  have hto : t.reparentToInit = (setLinks t.current
      (((removeLinks t.current t).mod t.current fun e => { e with pPptr := t.childReaper }).mod
        t.current fun e => { e with pOpptr := t.childReaper })).mod t.current fun e =>
      { e with exitSignal := SIGCHLD, ptraced := false, capKill := true } := by
    simp only [Table.reparentToInit, hr.childReaper, Table.mod_childReaper]
  have hmod : ∀ T : Table, (setLinks t.current (T.mod t.current fun e =>
      { e with pOpptr := t.childReaper })).pointers = (setLinks t.current T).pointers := by
    intro T
    rw [setLinks_pointers hcur, setLinks_pointers hcur, mod_flags_pointers]
    exact fun _ => rfl
  rw [hto]
  constructor
  · apply Eq.trans
    · apply mod_flags_pointers
      exact fun _ => rfl
    · exact hmod _
  · have hboth := ((hr.mod_both (p := t.current) (f := fun e =>
      { e with pPptr := t.childReaper })).mod_both (p := t.current) (f := fun e =>
      { e with pOpptr := t.childReaper })).trans (setLinks_relinked t.current _)
    have hplain := (reparent_relinked t.current t.childReaper t).mod_both (p := t.current)
      (f := fun e => { e with
        pOpptr := t.childReaper, exitSignal := SIGCHLD, ptraced := false, capKill := true })
    rw [Table.mod_mod] at hplain
    have hall := hboth.mod_both (p := t.current) (f := fun e =>
      { e with exitSignal := SIGCHLD, ptraced := false, capKill := true })
    rw [Table.mod_mod, Table.mod_mod] at hall
    exact hplain.symm.trans hall

/-- A kernel thread that goes over to init has a living parent again. -/
theorem Table.Sound.reparentToInit (h : t.Sound m c) (hcur : t.current ≠ initTaskAddr) :
    ∃ c', t.reparentToInit.Sound m c' ∧ c'.tasks = c.tasks.erase t.current ++ [t.current] ∧
      ∀ x, (t.reparentToInit.tasks x).pid = (t.tasks x).pid := by
  have hmem : t.current ∈ c.tasks := (List.mem_cons.mp h.current).resolve_left hcur
  obtain ⟨hv, hrel⟩ := reparentToInit_eq hcur
  have h1 := h.reparent hmem h.reaper_alive
  have hrel1 := reparent_relinked t.current t.childReaper t
  have hpid1 : ∀ x, ((ShortSched.reparent t.current t.childReaper t).tasks x).pid =
      (t.tasks x).pid := fun x => reparent_pid
  generalize ShortSched.reparent t.current t.childReaper t = t1 at *
  have hreap : t1.childReaper = t.childReaper := hrel1.childReaper
  have h2 : (t1.mod t.current fun e => { e with
      pOpptr := t.childReaper, exitSignal := SIGCHLD, ptraced := false, capKill := true }).Sound m
      _ := h1.assign (fun _ => rfl) (fun he => absurd he hcur)
        (fun _ => hreap ▸ h1.reaper_alive) (fun hp v hv _ => ⟨_, hp, hv⟩) Iff.rfl
        fun _ => Or.inl rfl
  have hlists : t.reparentToInit.Lists _ := h2.lists.of_pointers (by
      rw [hv, mod_flags_pointers]
      exact fun _ => rfl)
    (fun x _ => ⟨(hrel.sameKin x).pid, (hrel.sameKin x).tgid⟩) hrel.nrThreads
  have h3 := h2.of_sameKin hlists hrel.sameKin ⟨hrel.lastPid, hrel.nextSafe⟩ hrel.childReaper
    (hrel.current ▸ h2.current)
  refine ⟨_, h3, rfl, fun x => ?_⟩
  rw [(hrel.sameKin x).pid, Table.mod_tasks, ← hpid1 x]
  split_ifs with hx <;> simp [hx]

end
end ShortSched
