import ShortSched.TableRuns

/-! Process groups that lose their last connection to the rest of their session. -/
namespace ShortSched
open Cells Rotation PartialRun

/-- Between `t` and `t'` the group has been sent `SIGHUP` and then `SIGCONT`. -/
def Table.HungUp (pgrp : ℤ) (t t' : Table) : Prop :=
  ∃ s, t.sent <+: s ∧ s ++ [.killPg pgrp SIGHUP, .killPg pgrp SIGCONT] <+: t'.sent

section
variable {t t' t'' t1 : Table} {c : Census} {p q r : TaskId} {n : ℕ} {m pgrp code : ℤ}
  {ops : List TableOp} {ps : List TaskId}

theorem Table.HungUp.after (h : t.HungUp pgrp t') (hs : t'.sent <+: t''.sent) :
    t.HungUp pgrp t'' := by
  obtain ⟨s, h1, h2⟩ := h
  exact ⟨s, h1, h2.trans hs⟩

theorem Table.HungUp.before (h : t'.HungUp pgrp t'') (hs : t.sent <+: t'.sent) :
    t.HungUp pgrp t'' := by
  obtain ⟨s, h1, h2⟩ := h
  exact ⟨s, hs.trans h1, h2⟩

theorem connects_iff : t.connects pgrp p = true ↔ (t.tasks p).pgrp = pgrp ∧
    (t.tasks p).state ≠ .zombie ∧ (t.tasks (t.tasks p).pPptr).pid ≠ 1 ∧
    (t.tasks (t.tasks p).pPptr).pgrp ≠ pgrp ∧
    (t.tasks (t.tasks p).pPptr).session = (t.tasks p).session := by
  simp [Table.connects, and_assoc]

/-- Whether a task connects its group depends on ids, its parent and whether it lives. -/
theorem connects_congr (hids : ∀ x, (t'.tasks x).pid = (t.tasks x).pid ∧
      (t'.tasks x).pgrp = (t.tasks x).pgrp ∧ (t'.tasks x).session = (t.tasks x).session)
    (hp : (t'.tasks p).pPptr = (t.tasks p).pPptr)
    (hz : (t'.tasks p).state = .zombie ↔ (t.tasks p).state = .zombie) :
    t'.connects pgrp p = t.connects pgrp p := by
  rw [Bool.eq_iff_iff, connects_iff, connects_iff, hp, ne_eq, hz]
  simp only [hids]

theorem willBecomeOrphanedPgrp_iff (hps : t.forEachTask n = some ps) (ignored : Option TaskId) :
    t.willBecomeOrphanedPgrp n pgrp ignored = some true ↔
      ∀ x ∈ ps, ignored ≠ some x → t.connects pgrp x = false := by
  simp [Table.willBecomeOrphanedPgrp, hps]

theorem isOrphanedPgrp_iff (hps : t.forEachTask n = some ps) :
    t.isOrphanedPgrp n pgrp = some true ↔ ∀ x ∈ ps, t.connects pgrp x = false := by
  rw [Table.isOrphanedPgrp, willBecomeOrphanedPgrp_iff hps]
  simp

theorem isOrphanedPgrp_congr (hps : t'.forEachTask n = t.forEachTask n)
    (hc : ∀ x, t'.connects pgrp x = t.connects pgrp x) :
    t'.isOrphanedPgrp n pgrp = t.isOrphanedPgrp n pgrp := by
  simp only [Table.isOrphanedPgrp, Table.willBecomeOrphanedPgrp, hps, hc]

theorem hasStoppedJobs_iff (hps : t.forEachTask n = some ps) :
    t.hasStoppedJobs n pgrp = some true ↔
      ∃ x ∈ ps, (t.tasks x).pgrp = pgrp ∧ (t.tasks x).state = .stopped := by
  simp [Table.hasStoppedJobs, hps]

/-- Case i of the check. -/
theorem notifyGroup_hangsUp (hc : t.connects (t.tasks t.current).pgrp t.current = true)
    (ho : t.willBecomeOrphanedPgrp n (t.tasks t.current).pgrp (some t.current) = some true)
    (hj : t.hasStoppedJobs n (t.tasks t.current).pgrp = some true)
    (h : t.notifyGroup n = some t') : t.HungUp (t.tasks t.current).pgrp t' := by
  obtain ⟨-, -, -, hg, hs⟩ := connects_iff.mp hc
  simp only [Table.notifyGroup, ho, hj, Option.bind_eq_bind, Option.bind_some, ne_eq, hg, hs,
    not_false_eq_true, and_self, if_true, Option.some.injEq] at h
  rw [← h]
  exact ⟨t.sent, List.prefix_rfl, by simp [Table.killPgrp, Table.send]⟩

/-- Case ii of the check. -/
theorem announce_hangsUp (hg : (t.tasks p).pgrp ≠ (t.tasks t.current).pgrp)
    (hs : (t.tasks p).session = (t.tasks t.current).session)
    (ho : t.isOrphanedPgrp n (t.tasks p).pgrp = some true)
    (hj : t.hasStoppedJobs n (t.tasks p).pgrp = some true) (h : t.announce n p = some t') :
    t.HungUp (t.tasks p).pgrp t' := by
  have hany : ∀ s, ({ t with sent := s } : Table).isOrphanedPgrp n (t.tasks p).pgrp = some true ∧
      ({ t with sent := s } : Table).hasStoppedJobs n (t.tasks p).pgrp = some true :=
    fun _ => ⟨ho, hj⟩
  unfold Table.announce at h
  split_ifs at h with hz
  all_goals
    simp only [Table.send, (hany _).1, (hany _).2, Option.bind_eq_bind, Option.bind_some,
      hg, hs, and_self, ne_eq, not_false_eq_true, if_true, Option.some.injEq] at h
    rw [← h]
  · refine ⟨t.sent ++ [.notifyParent p (t.tasks p).exitSignal], List.prefix_append _ _, ?_⟩
    simp [Table.killPgrp, Table.send]
  · exact ⟨t.sent, List.prefix_rfl, by simp [Table.killPgrp, Table.send]⟩

/-- After the last child in the group and session, what comes later makes no difference to a group
that is orphaned in the end: the children `l` still have their old parent, who connects none of
them. -/
theorem last_hangsUp {l : List TaskId} (hps : t.forEachTask n = some ps)
    (hg : (t.tasks p).pgrp ≠ (t.tasks t.current).pgrp)
    (hs : (t.tasks p).session = (t.tasks t.current).session)
    (hparent : ∀ x ∈ l, (t.tasks x).pPptr = t.current)
    (hlast : ∀ x ∈ l, (t.tasks x).pgrp = (t.tasks p).pgrp →
      (t.tasks x).session ≠ (t.tasks t.current).session)
    (h : t.announce n p = some t1) (htasks : t1.tasks = t.tasks) (hover : HandedOver l t1 t')
    (ho : ∀ x ∈ ps, t'.connects (t.tasks p).pgrp x = false)
    (hj : ∃ x ∈ ps, (t'.tasks x).pgrp = (t.tasks p).pgrp ∧ (t'.tasks x).state = .stopped) :
    t.HungUp (t.tasks p).pgrp t1 := by
  have hsame : ∀ {β : Type} (g : Entry → β), (∀ e, g e = g e.unlinked) →
      (∀ e, g e.handedOver = g e) → ∀ x, g (t'.tasks x) = g (t.tasks x) := by
    intro β g hg hg' x
    rw [hover.same g hg hg', htasks]
  have hgroup := hsame Entry.pgrp (fun _ => rfl) fun _ => rfl
  have hstate := hsame Entry.state (fun _ => rfl) fun _ => rfl
  apply announce_hangsUp hg hs _ _ h
  · rw [isOrphanedPgrp_iff hps]
    intro x hx
    by_cases hxl : x ∈ l
    · by_contra hc
      obtain ⟨h1, -, -, -, h5⟩ := connects_iff.mp (Bool.not_eq_false _ ▸ hc)
      rw [hparent x hxl] at h5
      exact hlast x hxl h1 h5.symm
    · rw [← ho x hx]
      refine (connects_congr (fun y => ⟨?_, hgroup y, ?_⟩) ?_ (by rw [hstate])).symm
      · exact hsame Entry.pid (fun _ => rfl) (fun _ => rfl) y
      · exact hsame Entry.session (fun _ => rfl) (fun _ => rfl) y
      · rw [hover.field Entry.pPptr fun _ => rfl, if_neg hxl, htasks]
  · rw [hasStoppedJobs_iff hps]
    simpa only [hgroup, hstate] using hj

/-- The loop signals each group of a child which is orphaned and has stopped jobs at its end. The
check that finds this out is the one for the last child in the group: those that come later are
in other sessions, and do not connect the group as long as they have their old parent. -/
theorem disownAll_hangsUp (pgrp : ℤ) {l : List TaskId} {m : ℕ} (hl : c.kids t.current = l)
    (h : t.settle.Lists c) (hop : ∀ p ∈ l, (t.tasks p).pOpptr ≠ t.current)
    (hn : c.tasks.length < n) (hm : l.length < m) (ht' : t.disownAll n m = some t') :
    t.sent <+: t'.sent ∧ (pgrp ≠ (t.tasks t.current).pgrp →
      (∃ q ∈ l, (t.tasks q).pgrp = pgrp ∧ (t.tasks q).session = (t.tasks t.current).session) →
      (∀ x ∈ c.tasks, t'.connects pgrp x = false) →
      (∃ x ∈ c.tasks, (t'.tasks x).pgrp = pgrp ∧ (t'.tasks x).state = .stopped) →
      t.HungUp pgrp t') := by
  induction l generalizing t c m with
  | nil =>
    obtain ⟨m, rfl⟩ := Nat.exists_eq_succ_of_ne_zero (Nat.ne_of_gt hm)
    have hnone : (t.tasks t.current).pCptr = none := no_first_child hl h
    obtain rfl : t = t' := by simpa [Table.disownAll, hnone] using ht'
    exact ⟨List.prefix_rfl, by simp⟩
  | cons p l ih =>
    obtain ⟨m, rfl⟩ := Nat.exists_eq_succ_of_ne_zero (Nat.ne_of_gt (Nat.zero_lt_of_lt hm))
    obtain ⟨hp, t1, s, hs, ht1, -, hlists1, hkids1⟩ :=
      disownAll_turn hl h (hop p List.mem_cons_self) hn
    have hd : (t.disown p).sent = t.sent := (disown_relinked p t).sent
    have hcur : (t.disown p).current = t.current := (disown_relinked p t).current
    have hsent1 : t.sent <+: t1.sent := by
      rw [ht1, ← hd]
      exact List.prefix_append _ _
    have hcur1 : t1.current = t.current := by rw [ht1, ← hcur]
    have htasks1 : t1.tasks = (t.disown p).tasks := by rw [ht1]
    have hsame : ∀ {β : Type} (g : Entry → β), (∀ e, g e = g e.unlinked) →
        (∀ e, g e.handedOver = g e) → ∀ x, g (t1.tasks x) = g (t.tasks x) := by
      intro β g hg hg' x
      rw [htasks1]
      exact disown_field g hg hg' x
    have hop1 : ∀ x ∈ l, (t1.tasks x).pOpptr ≠ t1.current := by
      intro x hx
      rw [hcur1, hsame Entry.pOpptr (fun _ => rfl) fun _ => rfl]
      exact hop x (List.mem_cons_of_mem _ hx)
    have hm1 : l.length < m := by simpa using hm
    have ht1' : t1.disownAll n m = some t' := by simpa [Table.disownAll, hp, hs] using ht'
    obtain ⟨hsent, hih⟩ := ih hkids1 hlists1 hop1 hn hm1 ht1'
    refine ⟨hsent1.trans hsent, fun hne hq horphan hstop => ?_⟩
    simp only [hcur1, hsame Entry.pgrp (fun _ => rfl) fun _ => rfl,
      hsame Entry.session (fun _ => rfl) fun _ => rfl] at hih
    by_cases hlater : ∃ q ∈ l, (t.tasks q).pgrp = pgrp ∧
        (t.tasks q).session = (t.tasks t.current).session
    · exact (hih hne hlater horphan hstop).before hsent1
    -- the child of this turn is the last one
    obtain ⟨q, hql, rfl, hsession⟩ := hq
    obtain rfl : q = p :=
      (List.mem_cons.mp hql).resolve_right fun hq => hlater ⟨q, hq, rfl, hsession⟩
    obtain ⟨t'', ht'', hover, -⟩ := disownAll_lists hkids1 hlists1 hop1 hn hm1
    obtain rfl := Option.some.inj (ht1'.symm.trans ht'')
    have hring : (t.disown q).forEachTask n = some c.tasks := by
      have hring1 := hlists1.forEachTask hn
      rwa [forEachTask_congr settle_views.1, ht1] at hring1
    have hkept : ∀ {β : Type} (g : Entry → β), (∀ e, g e = g e.unlinked) →
        (∀ e, g e.handedOver = g e) → ∀ x, g ((t.disown q).tasks x) = g (t.tasks x) :=
      fun g hg hg' x => disown_field g hg hg' x
    have hgroup := hkept Entry.pgrp (fun _ => rfl) fun _ => rfl
    have hsess := hkept Entry.session (fun _ => rfl) fun _ => rfl
    have hhung : (t.disown q).HungUp ((t.disown q).tasks q).pgrp t1 := by
      apply last_hangsUp hring _ _ _ _ hs htasks1 hover
      · rwa [hgroup]
      · rwa [hgroup]
      · rwa [hgroup, hgroup, hcur]
      · rwa [hsess, hsess, hcur]
      · intro x hx
        have hxq : x ≠ q := fun he => (List.nodup_cons.mp (hl ▸ h.kids.nodup t.current)).1 (he ▸ hx)
        have hx' : x ∈ c.kids t.current := hl ▸ List.mem_cons_of_mem _ hx
        rw [(disown_relinked q t).field Entry.pPptr fun _ => rfl, Table.mod_tasks, if_neg hxq, hcur]
        apply ((settle_relinked t).field Entry.pPptr (fun _ => rfl) x).symm.trans
        exact ((h.parent x _).mp hx').2
      · intro x hx hgx hsx
        rw [hgroup, hgroup] at hgx
        rw [hsess, hsess, hcur] at hsx
        exact hlater ⟨x, hx, hgx, hsx⟩
    rw [hgroup] at hhung
    exact (hhung.before (by rw [hd])).after hsent

/-- `exit_notify` signals each group which it leaves orphaned and with stopped jobs, and which it
did not find orphaned. -/
theorem exitNotify_hangsUp (h : t.Lists c) (hcur : t.current ∈ c.tasks)
    (hn : c.tasks.length < n) (hreap : t.childReaper ≠ t.current)
    (ht' : t.exitNotify n = some t') (hbefore : t.isOrphanedPgrp n pgrp = some false)
    (hafter : t'.isOrphanedPgrp n pgrp = some true)
    (hjobs : t'.hasStoppedJobs n pgrp = some true) : t.HungUp pgrp t' := by
  obtain ⟨r, sig, t1, t2, t3, hs⟩ := exitNotify_stages h hcur hn hreap
  obtain ⟨r', t'', -, -, ht'', hexited⟩ := exitNotify_exited h hcur hn hreap
  obtain rfl := Option.some.inj (ht'.symm.trans ht'')
  have hps := h.forEachTask hn
  have hps' := hexited.lists.forEachTask (n := n) (by rwa [handOver_tasks])
  rw [handOver_tasks] at hps'
  rw [isOrphanedPgrp_iff hps'] at hafter
  rw [hasStoppedJobs_iff hps'] at hjobs
  obtain ⟨x, hx, hconn⟩ : ∃ x ∈ c.tasks, t.connects pgrp x = true := by
    by_contra! hno
    have ho := (isOrphanedPgrp_iff hps).mpr fun x hx => Bool.eq_false_iff.mpr (hno x hx)
    cases hbefore.symm.trans ho
  have hstill : ∀ y, y ≠ t.current → y ∉ c.kids t.current →
      t'.connects pgrp y = t.connects pgrp y := by
    intro y hy hk
    refine connects_congr (fun z => ?_) ?_ ?_
    · obtain ⟨h1, h2, h3, -⟩ := hexited.ids z
      exact ⟨h1, h2, h3⟩
    · rw [hexited.pPptr, if_neg hk]
    · rw [hexited.state, if_neg hy]
  have hids1 : ∀ y, (t1.tasks y).pid = (t.tasks y).pid ∧ (t1.tasks y).pgrp = (t.tasks y).pgrp ∧
      (t1.tasks y).session = (t.tasks y).session ∧ (t1.tasks y).pPptr = (t.tasks y).pPptr ∧
      (t1.tasks y).state = (t.tasks y).state := by
    intro y
    rw [hs.forgotten.tasks]
    split_ifs <;> exact ⟨rfl, rfl, rfl, rfl, rfl⟩
  have hconn1 : ∀ y, t1.connects pgrp y = t.connects pgrp y := fun y =>
    connects_congr (fun z => ⟨(hids1 z).1, (hids1 z).2.1, (hids1 z).2.2.1⟩) (hids1 y).2.2.2.1
      (by rw [(hids1 y).2.2.2.2])
  have hcur1 : t1.current = t.current := hs.forgotten.current
  obtain ⟨hrest, hloop⟩ := disownAll_hangsUp pgrp rfl hs.lists3.settle
    (hs.pOpptr_ne h hreap) hn ((h.kids_length _).trans_lt hn) (hs.rest ▸ ht')
  have hsent3 : t2.sent <+: t3.sent := by
    rw [hs.sent]
    exact List.prefix_append _ _
  obtain ⟨hxg, hxz, hxi, hxp, hxs⟩ := connects_iff.mp hconn
  by_cases hxc : x = t.current
  · -- the task itself connected its group
    have hg : (t1.tasks t1.current).pgrp = pgrp := by rw [hcur1, (hids1 _).2.1, ← hxc, hxg]
    have hgroup : t1.HungUp (t1.tasks t1.current).pgrp t2 := by
      apply notifyGroup_hangsUp _ _ _ hs.group
      · rw [hg, hcur1, hconn1, ← hxc, hconn]
      · rw [hg, willBecomeOrphanedPgrp_iff (hs.lists1.forEachTask hn)]
        intro y hy hne
        have hyc : y ≠ t.current := fun he => hne (by rw [hcur1, he])
        rw [hconn1]
        by_cases hk : y ∈ c.kids t.current
        · by_contra hc
          obtain ⟨-, -, -, hyp, -⟩ := connects_iff.mp (Bool.not_eq_false _ ▸ hc)
          rw [((h.parent y _).mp hk).2, ← hxc] at hyp
          exact hyp hxg
        · rw [← hstill y hyc hk]
          exact hafter y hy
      · rw [hg, hasStoppedJobs_iff (hs.lists1.forEachTask hn)]
        obtain ⟨y, hy, hyg, hyst⟩ := hjobs
        refine ⟨y, hy, ?_, ?_⟩
        · rw [(hids1 y).2.1, ← hyg, (hexited.ids y).2.1]
        · rw [hexited.state] at hyst
          split_ifs at hyst
          rw [(hids1 y).2.2.2.2, hyst]
    rw [hg] at hgroup
    exact (hgroup.before hs.forgotten.sent).after (hsent3.trans hrest)
  · -- a child of the task connected the group by its old parent
    have hk : x ∈ c.kids t.current := by
      by_contra hk
      have hno := hafter x hx
      rw [hstill x hxc hk, hconn] at hno
      cases hno
    rw [((h.parent x _).mp hk).2] at hxi hxp hxs
    have hids3 : ∀ y, (t3.tasks y).pgrp = (t.tasks y).pgrp ∧
        (t3.tasks y).session = (t.tasks y).session := by
      intro y
      rw [hs.died.tasks, hs.signalled.tasks]
      obtain ⟨-, h1, h2, -⟩ := hids1 y
      split_ifs <;> exact ⟨h1, h2⟩
    have hsent : t.sent <+: t3.sent :=
      hs.forgotten.sent.trans (hs.signalled.sent.trans hsent3)
    refine (hloop ?_ ⟨x, ?_, ?_, ?_⟩ hafter hjobs).before hsent
    · rw [hs.current, (hids3 _).1]
      exact hxp.symm
    · rwa [hs.current]
    · rw [(hids3 x).1, hxg]
    · rw [hs.current, (hids3 x).2, (hids3 _).2, hxs]

/-- In every table that a run reaches, a task that exits leaves no process group orphaned and with
stopped jobs without `SIGHUP` and `SIGCONT`, unless the group was orphaned before. -/
theorem orphans_hungUp (hm : 0 ≤ m) (hn : m < n) (hn' : 32768 ≤ n) (h : TableRun n m ops t)
    (ha : Admissible n t (.finishExit code)) (pgrp : ℤ) : ∃ t', t.finishExit n code = some t' ∧
      (t.isOrphanedPgrp n pgrp = some false → t'.isOrphanedPgrp n pgrp = some true →
        t'.hasStoppedJobs n pgrp = some true → t.HungUp pgrp t') := by
  obtain ⟨c, hs⟩ := h.sound hm hn hn'
  have h1 : (t.mod t.current fun e => { e with exitCode := code }).Sound m c :=
    hs.mod (fun _ => rfl) ⟨rfl, rfl, rfl, rfl, rfl, rfl, rfl, Iff.rfl⟩
  have hx : ((t.mod t.current fun e => { e with exitCode := code }).tasks
      (t.mod t.current fun e => { e with exitCode := code }).current).exiting = true := by
    rw [Table.mod_current, Table.mod_self]
    exact ha.2
  obtain ⟨r, t', -, ht', -, -, -, -⟩ := h1.exited hn hx
  have hcur := h1.of_pid_ne_zero h1.current (by
    have := (h1.exiting _ h1.current).2 hx
    omega)
  refine ⟨t', ht', fun hbefore hafter hjobs => ?_⟩
  have hconn : ∀ y, (t.mod t.current fun e => { e with exitCode := code }).connects pgrp y =
      t.connects pgrp y := by
    intro y
    apply connects_congr
    · intro z
      rw [Table.mod_tasks]
      split_ifs with hz <;> simp [hz]
    all_goals
      rw [Table.mod_tasks]
      split_ifs with hy <;> simp [hy]
  have hring : (t.mod t.current fun e => { e with exitCode := code }).forEachTask n =
      t.forEachTask n := by
    rw [h1.lists.forEachTask (h1.length_lt hn), hs.lists.forEachTask (hs.length_lt hn)]
  rw [← isOrphanedPgrp_congr hring hconn] at hbefore
  exact (exitNotify_hangsUp h1.lists hcur (h1.length_lt hn) (h1.reaper_ne hx) ht' hbefore hafter
    hjobs).before List.prefix_rfl

/-- Init's child leads a session, and the stopped child that it leaves has a group of its own. -/
def loggingOut : List TableOp :=
  let f : CloneLinks := ⟨false, false, false, false, SIGCHLD⟩
  [.fork 1 f false, .switchTo 1, .becomeReaper, .fork 2 f false, .switchTo 2, .setGroup 2 2 2,
    .fork 3 f false, .setGroup 3 3 2,
    .touch 3 { Table.boot.tasks 3 with state := .stopped, exitCode := 20 }, .startExit]

theorem orphans_hungUp_loggingOut : ∃ t t', TableRun 32768 100 loggingOut t ∧
    t.finishExit 32768 0 = some t' ∧ t.HungUp 3 t' := by
  have hC : Along (Table.step 32768 100) (Admissible 32768) loggingOut .boot := by decide +kernel
  obtain ⟨t, ht, -⟩ := tableRun_sound (by decide) (by decide) le_rfl hC
  have hrun : (run (Table.step 32768 100) loggingOut .boot).map (fun t =>
      (decide (Admissible 32768 t (.finishExit 0)), t.isOrphanedPgrp 32768 3,
        (t.finishExit 32768 0).map fun t' =>
          (t'.isOrphanedPgrp 32768 3, t'.hasStoppedJobs 32768 3))) =
      some (true, some false, some (some true, some true)) := by
    decide +kernel
  rw [ht, Option.map_some, Option.some.injEq, Prod.mk.injEq, Prod.mk.injEq,
    decide_eq_true_eq] at hrun
  obtain ⟨ha, hbefore, hafter⟩ := hrun
  obtain ⟨t', ht', hhung⟩ := orphans_hungUp (by decide) (by decide) le_rfl ⟨hC, ht⟩ ha 3
  rw [ht', Option.map_some, Option.some.injEq, Prod.mk.injEq] at hafter
  exact ⟨t, t', ⟨hC, ht⟩, ht', hhung hbefore hafter.1 hafter.2⟩

end
end ShortSched
