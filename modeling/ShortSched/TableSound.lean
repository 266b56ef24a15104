import ShortSched.ExitNotify

/-! The invariant of the process table, and that forking, exiting and waiting keep it. -/
namespace ShortSched
open Cells Rotation

/-- A task in the table that has not died. -/
def Table.Alive (t : Table) (c : Census) (q : TaskId) : Prop :=
  q ∈ initTaskAddr :: c.tasks ∧ (t.tasks q).state ≠ .zombie

/-- The process table is well formed: its links are those of the lists `c`, pids are unique, no
task has a dead parent, and the reaper cannot exit. -/
structure Table.Sound (maxThreads : ℤ) (c : Census) (t : Table) : Prop where
  lists : t.Lists c
  cache : PidCache t c.tasks
  started : c.tasks ≠ [] → 1 ≤ t.lastPid
  pids : ∀ p ∈ c.tasks, 1 ≤ (t.tasks p).pid ∧ (t.tasks p).pid < pidMax
  unique : ∀ p ∈ c.tasks, ∀ q ∈ c.tasks, (t.tasks p).pid = (t.tasks q).pid → p = q
  initIds : (t.tasks initTaskAddr).pid = 0 ∧ (t.tasks initTaskAddr).tgid = 0 ∧
    (t.tasks initTaskAddr).pgrp = 0 ∧ (t.tasks initTaskAddr).session = 0
  initParents : (t.tasks initTaskAddr).pPptr = initTaskAddr ∧
    (t.tasks initTaskAddr).pOpptr = initTaskAddr
  parents : ∀ p ∈ c.tasks, t.Alive c (t.tasks p).pPptr ∧ t.Alive c (t.tasks p).pOpptr
  current : t.current ∈ initTaskAddr :: c.tasks
  reaper : t.childReaper ∈ initTaskAddr :: c.tasks ∧ (t.tasks t.childReaper).pid ≤ 1
  exiting : ∀ p ∈ initTaskAddr :: c.tasks,
    ((t.tasks p).state = .zombie → (t.tasks p).exiting = true) ∧
      ((t.tasks p).exiting = true → 2 ≤ (t.tasks p).pid)
  limit : t.nrThreads ≤ maxThreads

/-- The same to its relations: ids, parents, and whether it lives. -/
structure SameKin (e e' : Entry) : Prop where
  pid : e'.pid = e.pid
  pgrp : e'.pgrp = e.pgrp
  session : e'.session = e.session
  tgid : e'.tgid = e.tgid
  pPptr : e'.pPptr = e.pPptr
  pOpptr : e'.pOpptr = e.pOpptr
  exiting : e'.exiting = e.exiting
  zombie : e'.state = .zombie ↔ e.state = .zombie

theorem Relinked.sameKin {t t' : Table} (h : Relinked t t') (x : TaskId) :
    SameKin (t.tasks x) (t'.tasks x) where
  pid := h.field Entry.pid (fun _ => rfl) x
  pgrp := h.field Entry.pgrp (fun _ => rfl) x
  session := h.field Entry.session (fun _ => rfl) x
  tgid := h.field Entry.tgid (fun _ => rfl) x
  pPptr := h.field Entry.pPptr (fun _ => rfl) x
  pOpptr := h.field Entry.pOpptr (fun _ => rfl) x
  exiting := h.field Entry.exiting (fun _ => rfl) x
  zombie := by rw [h.field Entry.state (fun _ => rfl) x]

section
variable {t t' : Table} {c c' : Census} {p q r : TaskId} {f : Entry → Entry} {n : ℕ} {m v s : ℤ}

namespace Table.Sound

/-- What to check when no task is new. -/
theorem mono (h : t.Sound m c) (hl : t'.Lists c') (hsub : ∀ x ∈ c'.tasks, x ∈ c.tasks)
    (hids : ∀ x ∈ initTaskAddr :: c'.tasks,
      (t'.tasks x).pid = (t.tasks x).pid ∧ (t'.tasks x).tgid = (t.tasks x).tgid)
    (hheld : ∀ v, t'.Held c'.tasks v → t.lastPid < v → t.Held c.tasks v)
    (hpid : t'.lastPid = t.lastPid ∧ t'.nextSafe = t.nextSafe)
    (hinit : (t'.tasks initTaskAddr).pPptr = (t.tasks initTaskAddr).pPptr ∧
      (t'.tasks initTaskAddr).pOpptr = (t.tasks initTaskAddr).pOpptr ∧
      (t'.tasks initTaskAddr).pgrp = (t.tasks initTaskAddr).pgrp ∧
      (t'.tasks initTaskAddr).session = (t.tasks initTaskAddr).session)
    (hparents : ∀ x ∈ c'.tasks, t'.Alive c' (t'.tasks x).pPptr ∧ t'.Alive c' (t'.tasks x).pOpptr)
    (hcurrent : t'.current ∈ initTaskAddr :: c'.tasks)
    (hreaper : t'.childReaper ∈ initTaskAddr :: c'.tasks ∧ (t'.tasks t'.childReaper).pid ≤ 1)
    (hexiting : ∀ x ∈ initTaskAddr :: c'.tasks,
      ((t'.tasks x).state = .zombie → (t'.tasks x).exiting = true) ∧
        ((t'.tasks x).exiting = true → 2 ≤ (t'.tasks x).pid))
    (hlimit : t'.nrThreads ≤ t.nrThreads) : t'.Sound m c' where
  lists := hl
  cache := by
    refine ⟨hpid.1 ▸ h.cache.lastPid, hpid.2 ▸ h.cache.nextSafe, fun v hv hlt => ?_⟩
    rw [hpid.1] at hlt
    exact hpid.2 ▸ h.cache.safe v (hheld v hv hlt) hlt
  started hne := by
    obtain ⟨x, hx⟩ := List.exists_mem_of_ne_nil _ hne
    exact hpid.1 ▸ h.started (List.ne_nil_of_mem (hsub x hx))
  pids p hp := by
    rw [(hids p (List.mem_cons_of_mem _ hp)).1]
    exact h.pids p (hsub p hp)
  unique p hp q hq := by
    rw [(hids p (List.mem_cons_of_mem _ hp)).1, (hids q (List.mem_cons_of_mem _ hq)).1]
    exact h.unique p (hsub p hp) q (hsub q hq)
  initIds := by
    rw [(hids _ List.mem_cons_self).1, (hids _ List.mem_cons_self).2, hinit.2.2.1, hinit.2.2.2]
    exact h.initIds
  initParents := by
    rw [hinit.1, hinit.2.1]
    exact h.initParents
  parents := hparents
  current := hcurrent
  reaper := hreaper
  exiting := hexiting
  limit := hlimit.trans h.limit

theorem of_sameKin (h : t.Sound m c) (hl : t'.Lists c)
    (hkin : ∀ x, SameKin (t.tasks x) (t'.tasks x))
    (hpid : t'.lastPid = t.lastPid ∧ t'.nextSafe = t.nextSafe)
    (hreaper : t'.childReaper = t.childReaper)
    (hcurrent : t'.current ∈ initTaskAddr :: c.tasks) : t'.Sound m c := by
  have halive : ∀ q, t'.Alive c q ↔ t.Alive c q :=
    fun q => and_congr_right fun _ => not_congr (hkin q).zombie
  refine h.mono hl (fun _ => id) (fun x _ => ⟨(hkin x).pid, (hkin x).tgid⟩) ?_ hpid
    ⟨(hkin _).pPptr, (hkin _).pOpptr, (hkin _).pgrp, (hkin _).session⟩ (fun x hx => ?_) hcurrent
    ?_ (fun x hx => ?_) ?_
  · rintro v ⟨x, hx, hv⟩ -
    refine ⟨x, hx, ?_⟩
    rw [Entry.holds_iff] at hv ⊢
    rwa [(hkin x).pid, (hkin x).pgrp, (hkin x).tgid, (hkin x).session] at hv
  · rw [(hkin x).pPptr, (hkin x).pOpptr, halive, halive]
    exact h.parents x hx
  · rw [hreaper, (hkin _).pid]
    exact h.reaper
  · rw [(hkin x).zombie, (hkin x).exiting, (hkin x).pid]
    exact h.exiting x hx
  · rw [hl.nrThreads, h.lists.nrThreads]

/-- Assignments that leave pid and links alone. -/
theorem assign (h : t.Sound m c) (hb : ∀ e, (f e).bones = e.bones)
    (hinit : p = initTaskAddr → (f (t.tasks p)).pOpptr = (t.tasks p).pOpptr ∧
      (f (t.tasks p)).pgrp = (t.tasks p).pgrp ∧ (f (t.tasks p)).session = (t.tasks p).session)
    (hop : p ∈ c.tasks → t.Alive c (f (t.tasks p)).pOpptr)
    (hheld : p ∈ c.tasks → ∀ v, (f (t.tasks p)).holds v = true → t.lastPid < v →
      t.Held c.tasks v)
    (hz : (f (t.tasks p)).state = .zombie ↔ (t.tasks p).state = .zombie)
    (hx : p ∈ initTaskAddr :: c.tasks → (f (t.tasks p)).exiting = (t.tasks p).exiting ∨
      (f (t.tasks p)).exiting = true ∧ 2 ≤ (t.tasks p).pid) : (t.mod p f).Sound m c := by
  have hbones : ∀ {β : Type} (g : Entry → β), (∀ e, g e = g e.bones) →
      ∀ x, g ((t.mod p f).tasks x) = g (t.tasks x) := by
    refine fun g hg x => Table.mod_field g (fun e => ?_) x
    rw [hg, hb, ← hg]
  have hpid := hbones Entry.pid fun _ => rfl
  have hpp := hbones Entry.pPptr fun _ => rfl
  have hself : (t.mod p f).tasks p = f (t.tasks p) := Table.mod_self
  have hother : ∀ x, x ≠ p → (t.mod p f).tasks x = t.tasks x :=
    fun x hx => (Table.mod_tasks x).trans (if_neg hx)
  have hzombie : ∀ x, ((t.mod p f).tasks x).state = .zombie ↔ (t.tasks x).state = .zombie := by
    intro x
    by_cases hxp : x = p
    · rw [hxp, hself, hz]
    · rw [hother x hxp]
  have halive : ∀ q, (t.mod p f).Alive c q ↔ t.Alive c q :=
    fun q => and_congr_right fun _ => not_congr (hzombie q)
  have hinit' : ((t.mod p f).tasks initTaskAddr).pOpptr = (t.tasks initTaskAddr).pOpptr ∧
      ((t.mod p f).tasks initTaskAddr).pgrp = (t.tasks initTaskAddr).pgrp ∧
      ((t.mod p f).tasks initTaskAddr).session = (t.tasks initTaskAddr).session := by
    by_cases hp : initTaskAddr = p
    · rw [hp, hself]
      exact hinit hp.symm
    · rw [hother _ hp]
      exact ⟨rfl, rfl, rfl⟩
  refine h.mono (h.lists.mod hb) (fun _ => id)
    (fun x _ => ⟨hpid x, hbones Entry.tgid (fun _ => rfl) x⟩) ?_ ⟨rfl, rfl⟩ ⟨hpp _, hinit'⟩
    (fun x hxt => ?_) h.current ?_ (fun x hxl => ?_) le_rfl
  · rintro v ⟨x, hxt, hv⟩ hlt
    by_cases hxp : x = p
    · subst hxp
      exact hheld hxt v (hself ▸ hv) hlt
    · exact ⟨x, hxt, hother x hxp ▸ hv⟩
  · rw [hpp, halive, halive]
    refine ⟨(h.parents x hxt).1, ?_⟩
    by_cases hxp : x = p
    · subst hxp
      exact hself ▸ hop hxt
    · rw [hother x hxp]
      exact (h.parents x hxt).2
  · rw [hpid]
    exact h.reaper
  · obtain ⟨hdead, htwo⟩ := h.exiting x hxl
    rw [hzombie, hpid]
    by_cases hxp : x = p
    · subst hxp
      rw [hself]
      rcases hx hxl with he | ⟨he, hp2⟩
      · rw [he]
        exact ⟨hdead, htwo⟩
      · exact ⟨fun _ => he, fun _ => hp2⟩
    · rw [hother x hxp]
      exact ⟨hdead, htwo⟩

/-- Assignments that leave ids alone as well. -/
theorem mod (h : t.Sound m c) (hb : ∀ e, (f e).bones = e.bones)
    (hkin : SameKin (t.tasks p) (f (t.tasks p))) : (t.mod p f).Sound m c := by
  refine h.assign hb (fun _ => ⟨hkin.pOpptr, hkin.pgrp, hkin.session⟩)
    (fun hp => hkin.pOpptr ▸ (h.parents p hp).2) (fun hp v hv _ => ⟨p, hp, ?_⟩) hkin.zombie
    fun _ => Or.inl hkin.exiting
  rw [Entry.holds_iff] at hv ⊢
  rwa [hkin.pid, hkin.pgrp, hkin.tgid, hkin.session] at hv

theorem send (h : t.Sound m c) (e : Sent) : (t.send e).Sound m c :=
  h.of_sameKin (h.lists.of_bones (fun _ => rfl) rfl rfl)
    (fun _ => ⟨rfl, rfl, rfl, rfl, rfl, rfl, rfl, Iff.rfl⟩) ⟨rfl, rfl⟩ rfl h.current

theorem switchTo (h : t.Sound m c) (hp : p ∈ initTaskAddr :: c.tasks) :
    { t with current := p }.Sound m c :=
  h.of_sameKin (h.lists.of_bones (fun _ => rfl) rfl rfl)
    (fun _ => ⟨rfl, rfl, rfl, rfl, rfl, rfl, rfl, Iff.rfl⟩) ⟨rfl, rfl⟩ rfl hp

theorem of_pid_ne_zero (h : t.Sound m c) (hp : p ∈ initTaskAddr :: c.tasks)
    (h0 : (t.tasks p).pid ≠ 0) : p ∈ c.tasks := by
  rcases List.mem_cons.mp hp with rfl | hp
  · exact absurd h.initIds.1 h0
  · exact hp

theorem reaper_alive (h : t.Sound m c) : t.Alive c t.childReaper := by
  refine ⟨h.reaper.1, fun hz => ?_⟩
  have hx := h.exiting _ h.reaper.1
  have h1 := h.reaper.2
  have h2 := hx.2 (hx.1 hz)
  omega

/-- Nothing is behind the `p_cptr` of a task_struct that is nobody's parent. -/
theorem no_kids (h : t.Sound m c) (hq : ¬ t.Alive c q) :
    c.kids q = [] ∧ (t.tasks q).pCptr = none := by
  have hnil : c.kids q = [] := by
    rw [List.eq_nil_iff_forall_not_mem]
    intro x hx
    obtain ⟨hxt, rfl⟩ := (h.lists.parent x q).mp hx
    exact hq (h.parents x hxt).1
  obtain ⟨v, hs, hv⟩ := h.lists.kids.chain q
  rw [hnil] at hs
  cases hs
  exact ⟨hnil, hv⟩

theorem length_lt (h : t.Sound m c) (hn : m < n) : c.tasks.length < n := by
  have hlen := h.lists.nrThreads
  have hlim := h.limit
  omega

/-! Exiting. -/

theorem startExit (h : t.Sound m c) (hs : t.startExit = some t') : t'.Sound m c := by
  unfold Table.startExit at hs
  split_ifs at hs with hpid
  cases hs
  have hcur := h.of_pid_ne_zero h.current fun h0 => hpid (Or.inl h0)
  refine h.assign (fun _ => rfl) (fun _ => ⟨rfl, rfl, rfl⟩) (fun hp => (h.parents _ hp).2)
    (fun hp v hv _ => ⟨_, hp, hv⟩) Iff.rfl fun _ => Or.inr ⟨rfl, ?_⟩
  have hge := (h.pids _ hcur).1
  omega

/-- The reaper does not exit. -/
theorem reaper_ne (h : t.Sound m c) (hx : (t.tasks t.current).exiting = true) :
    t.childReaper ≠ t.current := by
  intro he
  have htwo := (h.exiting _ h.current).2 hx
  have hle := h.reaper.2
  rw [he] at hle
  omega

/-- What `exit_notify` makes of a well-formed table. -/
theorem exited (h : t.Sound m c) (hn : m < n) (hx : (t.tasks t.current).exiting = true) :
    ∃ r t', t.reaper n t.current = some r ∧ t.exitNotify n = some t' ∧ t.Alive c r ∧
      r ≠ t.current ∧ Exited c r t t' ∧
      t'.Sound m (c.handOver t.current (t.heir r) (c.kids t.current)) := by
  have htwo := (h.exiting _ h.current).2 hx
  have hcur := h.of_pid_ne_zero h.current (by omega)
  have hreap := h.reaper_ne hx
  obtain ⟨r, t', hr, hrcur, ht', he⟩ := exitNotify_exited h.lists hcur (h.length_lt hn) hreap
  have hralive : t.Alive c r := by
    obtain ⟨r', hr', halive⟩ := reaper_eq h.lists h.current (h.length_lt hn)
    obtain rfl : r' = r := Option.some.inj (hr'.symm.trans hr)
    rcases halive with rfl | ⟨-, hlive, -, hrx⟩
    · exact h.reaper_alive
    · refine ⟨hlive, fun hz => ?_⟩
      rw [(h.exiting _ hlive).1 hz] at hrx
      cases hrx
  refine ⟨r, t', hr, ht', hralive, hrcur, he, ?_⟩
  have hmem : ∀ x, x ∈ (c.handOver t.current (t.heir r) (c.kids t.current)).tasks ↔
      x ∈ c.tasks := by
    intro x
    rw [handOver_tasks]
  have hmem' : ∀ x, x ∈ initTaskAddr ::
      (c.handOver t.current (t.heir r) (c.kids t.current)).tasks ↔ x ∈ initTaskAddr :: c.tasks := by
    intro x
    rw [handOver_tasks]
  have halive : ∀ q, t.Alive c q → q ≠ t.current →
      t'.Alive (c.handOver t.current (t.heir r) (c.kids t.current)) q := by
    rintro q ⟨hq, hz⟩ hne
    refine ⟨(hmem' q).mpr hq, ?_⟩
    rwa [he.state, if_neg hne]
  have hheir : ∀ x ∈ c.tasks, t.Alive c (t.heir r x) ∧ t.heir r x ≠ t.current := by
    intro x hx
    unfold Table.heir
    split_ifs with hop hxr
    · exact ⟨h.reaper_alive, hreap⟩
    · exact ⟨hralive, hrcur⟩
    · exact ⟨(h.parents x hx).2, hop⟩
  have hinit : initTaskAddr ∉ c.tasks := (List.nodup_cons.mp h.lists.nodup).1
  refine h.mono he.lists (fun x => (hmem x).mp) (fun x _ => ⟨(he.ids x).1, (he.ids x).2.2.2.1⟩) ?_
    ⟨he.lastPid, he.nextSafe⟩ ⟨?_, ?_, (he.ids _).2.1, (he.ids _).2.2.1⟩ (fun x hx => ?_) ?_ ?_
    (fun x hxl => ?_) he.nrThreads.le
  · rintro v ⟨x, hx, hv⟩ -
    refine ⟨x, (hmem x).mp hx, ?_⟩
    obtain ⟨h1, h2, h3, h4, -⟩ := he.ids x
    rw [Entry.holds_iff] at hv ⊢
    rwa [h1, h2, h3, h4] at hv
  · rw [he.pPptr, if_neg fun hk => hinit ((h.lists.parent _ _).mp hk).1]
  · rw [he.pOpptr, if_neg hinit]
  · rw [hmem] at hx
    rw [he.pOpptr, if_pos hx, he.pPptr]
    obtain ⟨ha, hne⟩ := hheir x hx
    refine ⟨?_, halive _ ha hne⟩
    split_ifs with hk
    · exact halive _ ha hne
    · refine halive _ (h.parents x hx).1 fun hpp => hk ?_
      exact (h.lists.parent x _).mpr ⟨hx, hpp⟩
  · rw [he.current, hmem']
    exact h.current
  · rw [he.childReaper, hmem', (he.ids _).1]
    exact h.reaper
  · obtain ⟨h1, -, -, -, h5⟩ := he.ids x
    rw [he.state, h1, h5]
    refine ⟨fun hz => ?_, (h.exiting x ((hmem' x).mp hxl)).2⟩
    split_ifs at hz with hxc
    · rw [hxc]
      exact hx
    · exact (h.exiting x ((hmem' x).mp hxl)).1 hz

/-! Changes of parents. -/

/-- A task gets a living parent. -/
theorem reparent (h : t.Sound m c) (hp : p ∈ c.tasks) (hr : t.Alive c r) :
    (reparent p r t).Sound m
      { c.move p (t.tasks p).pPptr r with tasks := c.tasks.erase p ++ [p] } := by
  have hp0 := h.lists.ne_init hp
  have hrel := reparent_relinked p r t
  have hlists := h.lists.reparent hp r
  have hmem : ∀ x, x ∈ c.tasks.erase p ++ [p] ↔ x ∈ c.tasks := fun x => h.lists.mem_requeue hp
  have hmem' : ∀ x, x ∈ initTaskAddr :: (c.tasks.erase p ++ [p]) ↔ x ∈ initTaskAddr :: c.tasks := by
    intro x
    rw [List.mem_cons, List.mem_cons, hmem]
  have hsame : ∀ {β : Type} (g : Entry → β), (∀ e, g e = g e.unlinked) →
      (∀ e, g { e with pPptr := r } = g e) →
      ∀ x, g ((ShortSched.reparent p r t).tasks x) = g (t.tasks x) :=
    fun g hg hg' x => (hrel.field g hg x).trans (Table.mod_field g hg' x)
  have hpid := hsame Entry.pid (fun _ => rfl) fun _ => rfl
  have hstate := hsame Entry.state (fun _ => rfl) fun _ => rfl
  have hop := hsame Entry.pOpptr (fun _ => rfl) fun _ => rfl
  have hexit := hsame Entry.exiting (fun _ => rfl) fun _ => rfl
  have hpp : ∀ x, ((ShortSched.reparent p r t).tasks x).pPptr =
      if x = p then r else (t.tasks x).pPptr := by
    intro x
    rw [hrel.field Entry.pPptr fun _ => rfl, Table.mod_tasks]
    split_ifs <;> rfl
  have halive : ∀ q, t.Alive c q → (ShortSched.reparent p r t).Alive
      { c.move p (t.tasks p).pPptr r with tasks := c.tasks.erase p ++ [p] } q := by
    rintro q ⟨hq, hz⟩
    exact ⟨(hmem' q).mpr hq, by rwa [hstate]⟩
  refine h.mono hlists (fun x => (hmem x).mp)
    (fun x _ => ⟨hpid x, hsame Entry.tgid (fun _ => rfl) (fun _ => rfl) x⟩) ?_
    ⟨hrel.lastPid, hrel.nextSafe⟩ ⟨?_, hop _, hsame Entry.pgrp (fun _ => rfl) (fun _ => rfl) _,
      hsame Entry.session (fun _ => rfl) (fun _ => rfl) _⟩ (fun x hx => ?_) ?_ ?_ (fun x hx => ?_)
    hrel.nrThreads.le
  · rintro v ⟨x, hx, hv⟩ -
    refine ⟨x, (hmem x).mp hx, ?_⟩
    rwa [hsame (fun e => e.holds v) (fun _ => rfl) fun _ => rfl] at hv
  · rw [hpp, if_neg hp0.symm]
  · have hx' := (hmem x).mp hx
    rw [hpp, hop]
    refine ⟨?_, halive _ (h.parents x hx').2⟩
    split_ifs
    · exact halive r hr
    · exact halive _ (h.parents x hx').1
  · rw [hrel.current, hmem']
    exact h.current
  · rw [hrel.childReaper, hmem', hpid]
    exact h.reaper
  · rw [hstate, hpid, hexit]
    exact h.exiting x ((hmem' x).mp hx)

/-- A dead child leaves the table. -/
theorem releaseTask (h : t.Sound m c) (hp : p ∈ c.tasks) (hz : (t.tasks p).state = .zombie)
    (hcur : p ≠ t.current) : ∃ t', t.releaseTask p = some t' ∧
      t'.Sound m (c.remove p (t.tasks p).pPptr (pidHashfn (t.tasks p).pid)) := by
  have hrel := unhashProcess_relinked p t
  have hlists := h.lists.unhash hp
  have hdead : ¬ t.Alive c p := fun ha => ha.2 hz
  generalize hc' : c.remove p (t.tasks p).pPptr (pidHashfn (t.tasks p).pid) = c' at hlists
  have hmem : ∀ x, x ∈ c'.tasks ↔ x ≠ p ∧ x ∈ c.tasks := by
    intro x
    rw [← hc']
    exact h.lists.mem_erase
  have hoff : p ∉ initTaskAddr :: c'.tasks := by
    rw [List.mem_cons, not_or, hmem]
    exact ⟨h.lists.ne_init hp, fun hx => hx.1 rfl⟩
  have hcptr : ((unhashProcess p t).tasks p).pCptr = none := by
    obtain ⟨v, hs, hv⟩ := hlists.kids.chain p
    have hnil : c'.kids p = [] := by
      rw [List.eq_nil_iff_forall_not_mem]
      intro x hx
      rw [← hc'] at hx
      obtain ⟨hx, hxp⟩ := h.lists.mem_kids_remove.mp hx
      exact hdead (hxp ▸ (h.parents x (List.mem_of_mem_erase hx)).1)
    rw [hnil] at hs
    cases hs
    exact hv
  have hlists' := hlists.outside (f := fun e => { e with pid := 0 }) hoff hcptr hcptr
  have hsame : ∀ {β : Type} (g : Entry → β), (∀ e, g e = g e.unlinked) →
      ∀ x ∈ initTaskAddr :: c'.tasks,
        g (((unhashProcess p t).mod p fun e => { e with pid := 0 }).tasks x) = g (t.tasks x) := by
    intro β g hg x hx
    rw [Table.mod_tasks, if_neg fun he : x = p => hoff (he ▸ hx)]
    exact hrel.field g hg x
  have hsub : ∀ x, x ∈ initTaskAddr :: c'.tasks → x ∈ initTaskAddr :: c.tasks := by
    simp only [List.mem_cons, hmem]
    tauto
  have halive : ∀ q, t.Alive c q →
      ((unhashProcess p t).mod p fun e => { e with pid := 0 }).Alive c' q := by
    rintro q ⟨hq, hqz⟩
    have hqp : q ≠ p := fun he => hdead (he ▸ ⟨hq, hqz⟩)
    have hq' : q ∈ initTaskAddr :: c'.tasks := by
      simp only [List.mem_cons, hmem] at hq ⊢
      tauto
    exact ⟨hq', by rwa [hsame Entry.state (fun _ => rfl) q hq']⟩
  refine ⟨_, if_neg hcur, h.mono hlists' (fun x hx => ((hmem x).mp hx).2) (fun x hx =>
    ⟨hsame Entry.pid (fun _ => rfl) x hx, hsame Entry.tgid (fun _ => rfl) x hx⟩) ?_
    ⟨hrel.lastPid, hrel.nextSafe⟩ ⟨?_, ?_, ?_, ?_⟩ (fun x hx => ?_) ?_ ?_ (fun x hx => ?_) ?_⟩
  · rintro v ⟨x, hx, hv⟩ -
    refine ⟨x, ((hmem x).mp hx).2, ?_⟩
    rwa [hsame (fun e => e.holds v) (fun _ => rfl) x (List.mem_cons_of_mem _ hx)] at hv
  · exact hsame Entry.pPptr (fun _ => rfl) _ List.mem_cons_self
  · exact hsame Entry.pOpptr (fun _ => rfl) _ List.mem_cons_self
  · exact hsame Entry.pgrp (fun _ => rfl) _ List.mem_cons_self
  · exact hsame Entry.session (fun _ => rfl) _ List.mem_cons_self
  · rw [hsame Entry.pPptr (fun _ => rfl) x (List.mem_cons_of_mem _ hx),
      hsame Entry.pOpptr (fun _ => rfl) x (List.mem_cons_of_mem _ hx)]
    have hpar := h.parents x ((hmem x).mp hx).2
    exact ⟨halive _ hpar.1, halive _ hpar.2⟩
  · have hc := h.current
    rw [Table.mod_current, hrel.current]
    simp only [List.mem_cons, hmem] at hc ⊢
    tauto
  · have hr := halive _ h.reaper_alive
    rw [Table.mod_childReaper, hrel.childReaper]
    exact ⟨hr.1, (hsame Entry.pid (fun _ => rfl) _ hr.1).le.trans h.reaper.2⟩
  · rw [hsame Entry.state (fun _ => rfl) x hx, hsame Entry.exiting (fun _ => rfl) x hx,
      hsame Entry.pid (fun _ => rfl) x hx]
    exact h.exiting x (hsub x hx)
  · rw [Table.mod_nrThreads, hrel.nrThreads]
    simp

/-! Forking. -/

/-- `get_pid` has moved on. -/
theorem withPid (h : t.Sound m c) (hv : 1 ≤ v)
    (hcache : PidCache { t with lastPid := v, nextSafe := s } c.tasks) :
    { t with lastPid := v, nextSafe := s }.Sound m c where
  lists := h.lists.of_bones (fun _ => rfl) rfl rfl
  cache := hcache
  started _ := hv
  pids := h.pids
  unique := h.unique
  initIds := h.initIds
  initParents := h.initParents
  parents := h.parents
  current := h.current
  reaper := h.reaper
  exiting := h.exiting
  limit := h.limit

/-- The parents of a child are alive. -/
theorem current_parents (h : t.Sound m c) (hz : (t.tasks t.current).state ≠ .zombie) :
    t.Alive c t.current ∧ t.Alive c (t.tasks t.current).pPptr ∧
      t.Alive c (t.tasks t.current).pOpptr := by
  have hcur : t.Alive c t.current := ⟨h.current, hz⟩
  rcases List.mem_cons.mp h.current with he | hc
  · have hp := h.initParents
    rw [← he] at hp
    rw [hp.1, hp.2]
    exact ⟨hcur, hcur, hcur⟩
  · exact ⟨hcur, h.parents _ hc⟩

/-- Whatever `current` has above `last_pid`, a task in the table holds. -/
theorem held_groups (h : t.Sound m c) (hv : 1 ≤ t.lastPid) {w : ℤ}
    (hw : (t.tasks t.current).pgrp = w ∨ (t.tasks t.current).session = w ∨
      (t.tasks t.current).tgid = w) (hlt : t.lastPid < w) : t.nextSafe ≤ w := by
  rcases List.mem_cons.mp h.current with he | hc
  · obtain ⟨-, h2, h3, h4⟩ := h.initIds
    rw [he] at hw
    omega
  · refine h.cache.safe w ⟨_, hc, ?_⟩ hlt
    rw [Entry.holds_iff]
    tauto

/-- A new task with a pid that nobody holds, and with the groups of `current`. -/
theorem link (e : Entry) (cloneParent cloneThread : Bool) (h : t.Sound m c)
    (hp : p ∉ initTaskAddr :: c.tasks) (hz : (t.tasks t.current).state ≠ .zombie)
    (hlast : e.pid = t.lastPid) (hv : 1 ≤ t.lastPid) (hfree : ¬ t.Held c.tasks t.lastPid)
    (hgroups : e.pgrp = (t.tasks t.current).pgrp ∧ e.session = (t.tasks t.current).session)
    (hcptr : e.pCptr = none) (hzombie : e.state ≠ .zombie) (hexit : e.exiting = false)
    (hlimit : t.nrThreads < m) :
    ∃ t' c', linkTask p cloneParent cloneThread (t.mod p fun _ => e) = t' ∧ t'.Sound m c' ∧
      c'.tasks = c.tasks ++ [p] ∧ (t'.tasks p).pid = t.lastPid ∧
      (t'.tasks p).state = e.state ∧ ∀ x ∈ c.tasks, (t'.tasks x).pid = (t.tasks x).pid := by
  have hne : ∀ x ∈ initTaskAddr :: c.tasks, x ≠ p := fun x hx he => hp (he ▸ hx)
  have hcurp : t.current ≠ p := hne _ h.current
  have hpdead : ¬ t.Alive c p := fun ha => hp ha.1
  have hlists := h.lists.outside (f := fun _ => e) hp hcptr (h.no_kids hpdead).2
  have hself : (t.mod p fun _ => e).tasks p = e := Table.mod_self
  have hother : ∀ x ∈ initTaskAddr :: c.tasks, (t.mod p fun _ => e).tasks x = t.tasks x :=
    fun x hx => (Table.mod_tasks x).trans (if_neg (hne x hx))
  have hfresh : ∀ x ∈ initTaskAddr :: c.tasks, (t.tasks x).tgid ≠ t.lastPid := by
    intro x hx he
    rcases List.mem_cons.mp hx with rfl | hx
    · rw [h.initIds.2.1] at he
      omega
    · exact hfree ⟨x, hx, Entry.holds_iff.mpr (Or.inr (Or.inr (Or.inl he)))⟩
  have hl := hlists.linkTask cloneParent cloneThread hp
    (by rw [hself]; exact hcptr) h.current fun _ x hx => by
      rw [hself, hother x hx, hlast]
      exact hfresh x hx
  have hrel := linkTask_relinked (t := t.mod p fun _ => e) (p := p) cloneParent cloneThread hcurp
  simp only [Table.mod_current, hother _ h.current, hself] at hl hrel
  generalize hes : Entry.settled p cloneParent cloneThread t.current (t.tasks t.current) = f
    at hl hrel
  generalize linkTask p cloneParent cloneThread (t.mod p fun _ => e) = t' at hl hrel
  have hold : ∀ {β : Type} (g : Entry → β), (∀ e, g e = g e.unlinked) →
      ∀ x ∈ initTaskAddr :: c.tasks, g (t'.tasks x) = g (t.tasks x) := by
    intro β g hg x hx
    rw [hrel.field g hg, Table.mod_tasks, if_neg (hne x hx)]
    exact congrArg g (hother x hx)
  have hnew : ∀ {β : Type} (g : Entry → β), (∀ e, g e = g e.unlinked) →
      g (t'.tasks p) = g (f e) := by
    intro β g hg
    rw [hrel.field g hg, Table.mod_self]
    exact congrArg (fun e => g (f e)) hself
  have hpid : (t'.tasks p).pid = t.lastPid := by
    rw [hnew Entry.pid fun _ => rfl, ← hes, ← hlast]
    rfl
  have hstate : (t'.tasks p).state = e.state := by
    rw [hnew Entry.state fun _ => rfl, ← hes]
    rfl
  obtain ⟨halive, hpp, hop⟩ := h.current_parents hz
  have hparents : t.Alive c (f e).pPptr ∧ t.Alive c (f e).pOpptr := by
    simp only [← hes, Entry.settled]
    constructor <;> split_ifs <;> assumption
  have hmem : ∀ x, x ∈ c.tasks ++ [p] ↔ x ∈ c.tasks ∨ x = p := by simp
  have hlive : ∀ x, x ∈ initTaskAddr :: (c.tasks ++ [p]) ↔ x ∈ initTaskAddr :: c.tasks ∨ x = p := by
    simp [or_assoc]
  have halive' : ∀ q, t.Alive c q →
      t'.Alive (c.add p (f e).pPptr (pidHashfn e.pid)) q := by
    rintro q ⟨hq, hqz⟩
    exact ⟨(hlive q).mpr (Or.inl hq), by rwa [hold Entry.state (fun _ => rfl) q hq]⟩
  have hheld : ∀ x ∈ c.tasks, (t'.tasks x).pid ≠ t.lastPid := by
    intro x hx he
    rw [hold Entry.pid (fun _ => rfl) x (List.mem_cons_of_mem _ hx)] at he
    exact hfree ⟨x, hx, Entry.holds_iff.mpr (Or.inl he)⟩
  have hinit := List.mem_cons_self (a := initTaskAddr) (l := c.tasks)
  refine ⟨t', _, rfl, ⟨hl, ⟨?_, ?_, ?_⟩, fun _ => ?_, fun x hx => ?_, fun x hx y hy hxy => ?_, ?_,
    ?_, fun x hx => ?_, ?_, ?_, fun x hx => ?_, ?_⟩, rfl, hpid, hstate,
    fun x hx => hold Entry.pid (fun _ => rfl) x (List.mem_cons_of_mem _ hx)⟩
  · rw [hrel.lastPid]
    exact h.cache.lastPid
  · rw [hrel.nextSafe]
    exact h.cache.nextSafe
  · rintro w ⟨x, hx, hw⟩ hlt
    rw [hrel.lastPid] at hlt
    rw [hrel.nextSafe]
    rcases (hmem x).mp hx with hx | rfl
    · rw [hold (fun e => e.holds w) (fun _ => rfl) x (List.mem_cons_of_mem _ hx)] at hw
      exact h.cache.safe w ⟨x, hx, hw⟩ hlt
    · rw [hnew (fun e => e.holds w) fun _ => rfl, ← hes, Entry.holds_iff] at hw
      apply h.held_groups hv _ hlt
      simp only [Entry.settled] at hw
      rw [hgroups.1, hgroups.2, hlast] at hw
      rcases hw with rfl | hw | hw | hw
      · exact absurd hlt (lt_irrefl _)
      · exact Or.inl hw
      · split_ifs at hw
        · exact Or.inr (Or.inr hw)
        · exact absurd hlt (hw ▸ lt_irrefl _)
      · exact Or.inr (Or.inl hw)
  · rw [hrel.lastPid]
    exact hv
  · rcases (hmem x).mp hx with hx | rfl
    · rw [hold Entry.pid (fun _ => rfl) x (List.mem_cons_of_mem _ hx)]
      exact h.pids x hx
    · rw [hpid]
      exact ⟨hv, h.cache.lastPid.2⟩
  · rcases (hmem x).mp hx with hx' | rfl <;> rcases (hmem y).mp hy with hy' | rfl
    · rw [hold Entry.pid (fun _ => rfl) x (List.mem_cons_of_mem _ hx'),
        hold Entry.pid (fun _ => rfl) y (List.mem_cons_of_mem _ hy')] at hxy
      exact h.unique x hx' y hy' hxy
    · exact absurd (hxy.trans hpid) (hheld x hx')
    · exact absurd (hxy.symm.trans hpid) (hheld y hy')
    · rfl
  · rw [hold Entry.pid (fun _ => rfl) _ hinit, hold Entry.tgid (fun _ => rfl) _ hinit,
      hold Entry.pgrp (fun _ => rfl) _ hinit, hold Entry.session (fun _ => rfl) _ hinit]
    exact h.initIds
  · rw [hold Entry.pPptr (fun _ => rfl) _ hinit, hold Entry.pOpptr (fun _ => rfl) _ hinit]
    exact h.initParents
  · rcases (hmem x).mp hx with hx | rfl
    · rw [hold Entry.pPptr (fun _ => rfl) x (List.mem_cons_of_mem _ hx),
        hold Entry.pOpptr (fun _ => rfl) x (List.mem_cons_of_mem _ hx)]
      exact ⟨halive' _ (h.parents x hx).1, halive' _ (h.parents x hx).2⟩
    · rw [hnew Entry.pPptr fun _ => rfl, hnew Entry.pOpptr fun _ => rfl]
      exact ⟨halive' _ hparents.1, halive' _ hparents.2⟩
  · rw [hrel.current]
    exact (hlive _).mpr (Or.inl h.current)
  · have hr := h.reaper
    rw [hrel.childReaper]
    refine ⟨(hlive _).mpr (Or.inl hr.1), ?_⟩
    exact (hold Entry.pid (fun _ => rfl) _ hr.1).le.trans hr.2
  · rcases (hlive x).mp hx with hx | rfl
    · rw [hold Entry.state (fun _ => rfl) x hx, hold Entry.exiting (fun _ => rfl) x hx,
        hold Entry.pid (fun _ => rfl) x hx]
      exact h.exiting x hx
    · have hne' : (t'.tasks x).exiting = false := by
        rw [hnew Entry.exiting fun _ => rfl, ← hes, ← hexit]
        rfl
      rw [hne', hnew Entry.state fun _ => rfl, ← hes]
      exact ⟨fun hd => absurd hd hzombie, fun hd => by cases hd⟩
  · rw [hrel.nrThreads]
    exact hlimit

/-- `do_fork` makes a task with the next free pid, or fails and makes none. -/
theorem doFork (f : CloneLinks) (copyFails : Bool) (h : t.Sound m c) (hn : m < n)
    (hn' : 32768 ≤ n) (hp : p ∉ initTaskAddr :: c.tasks)
    (hz : (t.tasks t.current).state ≠ .zombie) (hx : (t.tasks t.current).exiting = false)
    (hf : f.pid = false)
    (hleft : ∃ v, Candidate firstPid pidMax t.lastPid v ∧ ¬ t.Held c.tasks v) :
    ∃ v t' c', t.doFork n m p f copyFails = some (v, t') ∧ t'.Sound m c' ∧
      (∀ x ∈ c.tasks, (t'.tasks x).pid = (t.tasks x).pid) ∧
      (v < 0 ∧ c'.tasks = c.tasks ∨ Next firstPid pidMax t.lastPid (t.Held c.tasks) v ∧
        c'.tasks = c.tasks ++ [p] ∧ (t'.tasks p).pid = v) := by
  unfold Table.doFork
  rw [hf]
  dsimp only
  rw [if_neg (by simp)]
  by_cases hlim : t.nrThreads ≥ m
  · rw [if_pos hlim]
    exact ⟨_, t, c, rfl, h, fun _ _ => rfl, Or.inl ⟨by decide, rfl⟩⟩
  rw [if_neg hlim]
  obtain ⟨v, s, hnext, hget, hcache⟩ :=
    getPid_next (h.lists.forEachTask (h.length_lt hn)) h.cache hn' hleft
  have hv : 1 ≤ v := by
    have hc := hnext.1.1
    have hl := h.cache.lastPid.1
    unfold Candidate firstPid at hc
    omega
  have h1 := h.withPid hv hcache
  rw [hget, Option.bind_eq_bind, Option.bind_some]
  dsimp only
  rw [if_neg fun h0 => by omega]
  by_cases hcopy : copyFails = true
  · rw [if_pos hcopy]
    exact ⟨_, _, c, rfl, h1, fun _ _ => rfl, Or.inl ⟨by decide, rfl⟩⟩
  · rw [if_neg hcopy]
    obtain ⟨t', c', ht', hsound, htasks, hpid, hstate, hold⟩ :=
      h1.link ((t.tasks t.current).copied v f) f.parent f.thread hp hz rfl hv hnext.2 ⟨rfl, rfl⟩
        rfl (by simp [Entry.copied]) hx (not_le.mp hlim)
    rw [ht']
    -- a traced child is sent a signal first, which leaves the tasks as they are
    have hwake : ∀ t'' : Table, t''.Sound m c' → t''.tasks = t'.tasks →
        (t''.mod p fun e => { e with state := .running }).Sound m c' ∧
          ∀ x, ((t''.mod p fun e => { e with state := .running }).tasks x).pid =
            (t'.tasks x).pid := by
      intro t'' hs he
      constructor
      · exact hs.mod (fun _ => rfl)
          ⟨rfl, rfl, rfl, rfl, rfl, rfl, rfl, by simp [he, hstate, Entry.copied]⟩
      · intro x
        rw [Table.mod_tasks, he]
        split_ifs with hx <;> simp [hx]
    have hsent : ∃ t'', (if (t'.tasks p).ptraced = true then t'.send (.sendSig SIGSTOP p) else t') =
        t'' ∧ t''.Sound m c' ∧ t''.tasks = t'.tasks := by
      split_ifs
      · exact ⟨_, rfl, hsound.send _, rfl⟩
      · exact ⟨_, rfl, hsound, rfl⟩
    obtain ⟨t'', ht'', hs, he⟩ := hsent
    rw [ht'']
    obtain ⟨hs', hsame⟩ := hwake t'' hs he
    exact ⟨v, _, c', rfl, hs', fun x hx => (hsame x).trans (hold x hx),
      Or.inr ⟨hnext, htasks, (hsame p).trans hpid⟩⟩

end Table.Sound

end
end ShortSched
