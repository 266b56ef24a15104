import ShortSched.ProcessLife

/-! `exit_notify`: where the children of an exiting task go. -/
namespace ShortSched
open Cells

/-- The table as it is meant during the loop of `exit_notify`, which sets the `p_ysptr` of the
first child only when its turn comes. -/
def Table.settle (t : Table) : Table :=
  match (t.tasks t.current).pCptr with
  | none => t
  | some p => t.setYsptr p none

/-- The notices that parents get. -/
def Sent.notice : Sent → Option (TaskId × ℤ)
  | .notifyParent p sig => some (p, sig)
  | _ => none

/-- The children `ps` of `q` are handed over, one after the other. -/
def Census.handOver (q : TaskId) (parent : TaskId → TaskId) (ps : List TaskId) (c : Census) :
    Census := ps.foldl (fun c p => c.move p q (parent p)) c

/-- The notices that a table has sent to parents. -/
def Table.notices (t : Table) : List (TaskId × ℤ) := t.sent.filterMap Sent.notice

/-- The global variables are as before. -/
structure SameGlobals (t t' : Table) : Prop where
  nrThreads : t'.nrThreads = t.nrThreads
  lastPid : t'.lastPid = t.lastPid
  nextSafe : t'.nextSafe = t.nextSafe
  current : t'.current = t.current
  childReaper : t'.childReaper = t.childReaper

/-- What becomes of a child that is handed over, apart from its links. -/
def Entry.handedOver (e : Entry) : Entry := { e with ptraced := false, pPptr := e.pOpptr }

/-- The children `l` have been handed over: they change, and zombies among them are announced
again. -/
structure HandedOver (l : List TaskId) (t t' : Table) : Prop extends SameGlobals t t' where
  tasks : ∀ x, (t'.tasks x).unlinked =
    if x ∈ l then (t.tasks x).handedOver.unlinked else (t.tasks x).unlinked
  notices : t'.notices = t.notices ++
    (l.filter fun p => (t.tasks p).state = .zombie).map fun p => (p, (t.tasks p).exitSignal)

section
variable {t t' : Table} {c : Census} {p q r : TaskId} {n m : ℕ}

theorem handOver_tasks {parent : TaskId → TaskId} {ps : List TaskId} :
    (c.handOver q parent ps).tasks = c.tasks := by
  induction ps generalizing c with
  | nil => rfl
  | cons p ps ih => exact ih

/-- The last to be handed over comes first with its new parent. -/
theorem handOver_kids {parent : TaskId → TaskId} {ps : List TaskId} (hq : c.kids q = ps)
    (hp : ∀ p ∈ ps, parent p ≠ q) : (c.handOver q parent ps).kids q = [] ∧
      ∀ r, r ≠ q → (c.handOver q parent ps).kids r =
        (ps.filter fun p => parent p = r).reverse ++ c.kids r := by
  induction ps generalizing c with
  | nil => simp [Census.handOver, hq]
  | cons p ps ih =>
    have hpq : parent p ≠ q := hp p List.mem_cons_self
    have hmove : (c.move p q (parent p)).kids q = ps := by
      simp [Census.move, hpq.symm, hq]
    obtain ⟨hnil, hother⟩ := ih hmove fun x hx => hp x (List.mem_cons_of_mem _ hx)
    refine ⟨hnil, fun r hr => ?_⟩
    rw [show c.handOver q parent (p :: ps) = (c.move p q (parent p)).handOver q parent ps from rfl,
      hother r hr]
    by_cases hpr : parent p = r
    · simp [Census.move, ← hpr, hpq]
    · simp [Census.move, hpr, hr, Ne.symm hpr]

/-! One turn of the loop. -/

theorem settle_pointers (hp : (t.tasks t.current).pCptr = some p) : t.settle.pointers =
    { t.pointers with ysptr := Function.update t.pointers.ysptr p none } := by
  unfold Table.settle
  rw [hp]
  exact setYsptr_pointers

theorem settle_of_none (hp : (t.tasks t.current).pCptr = none) : t.settle = t := by
  unfold Table.settle
  rw [hp]

theorem settle_relinked (t : Table) : Relinked t t.settle := by
  unfold Table.settle
  split
  · exact Relinked.refl t
  · exact (Relinked.refl t).mod

theorem settle_views : t.settle.pointers.ring = t.pointers.ring ∧
    t.settle.pointers.threads = t.pointers.threads ∧
    t.settle.pointers.hash = t.pointers.hash := by
  cases hp : (t.tasks t.current).pCptr with
  | none =>
    rw [settle_of_none hp]
    exact ⟨rfl, rfl, rfl⟩
  | some p =>
    rw [settle_pointers hp]
    exact ⟨rfl, rfl, rfl⟩

theorem settle_sent {s : List Sent} :
    ({ t with sent := s } : Table).settle = { t.settle with sent := s } := by
  unfold Table.settle
  cases (t.tasks t.current).pCptr <;> rfl

theorem forEachTask_congr (h : t'.pointers.ring = t.pointers.ring) :
    t'.forEachTask n = t.forEachTask n := by
  unfold Table.forEachTask
  rw [h]

theorem disown_relinked (p : TaskId) (t : Table) :
    Relinked (t.mod p fun e => { e with ptraced := false, pPptr := e.pOpptr }) (t.disown p) := by
  have h := ((Relinked.refl t).mod (p := t.current)
    (f := fun e => { e with pCptr := (t.tasks p).pOsptr })).mod (p := p)
    (f := fun e => { e with pYsptr := none })
  have hboth := (h.mod_both (p := p) (f := fun e => { e with ptraced := false })).mod_both
    (p := p) (f := fun e => { e with pPptr := e.pOpptr })
  rw [Table.mod_mod] at hboth
  simp only [Table.disown, Table.setCptr, Table.setYsptr, Table.setOsptr]
  split
  · exact hboth.mod.mod
  · exact hboth.mod.mod.mod

theorem disown_pointers (hr : (t.tasks p).pOpptr = r) (hne : r ≠ t.current) :
    (t.disown p).pointers = { t.pointers with
      cptr := Function.update (Function.update t.pointers.cptr t.current (t.pointers.osptr p)) r
        (some p)
      pptr := Function.update t.pointers.pptr p r
      ysptr := match t.pointers.cptr r with
        | none => Function.update t.pointers.ysptr p none
        | some q => Function.update (Function.update t.pointers.ysptr p none) q (some p)
      osptr := Function.update t.pointers.osptr p (t.pointers.cptr r) } := by
  have hflag : ∀ t : Table, (t.mod p fun e => { e with ptraced := false }).pointers =
      t.pointers := by
    intro t
    simp only [Table.mod_pointers, Pointers.ext_iff, Function.update_eq_self_iff]
    simp [Table.pointers]
  have hparent : ∀ t : Table, (t.tasks p).pOpptr = r →
      (t.mod p fun e => { e with pPptr := e.pOpptr }).pointers =
        { t.pointers with pptr := Function.update t.pointers.pptr p r } := by
    rintro t rfl
    simp only [Table.mod_pointers, Pointers.ext_iff, Function.update_eq_self_iff]
    simp [Table.pointers]
  have hop : (((((t.setCptr t.current (t.pointers.osptr p)).setYsptr p none).mod p fun e =>
      { e with ptraced := false }).tasks p).pOpptr) = r := by
    have hlinks : Relinked t ((t.setCptr t.current (t.pointers.osptr p)).setYsptr p none) :=
      (Relinked.refl t).mod.mod
    rw [Table.mod_self]
    exact (hlinks.field Entry.pOpptr (fun _ => rfl) p).trans hr
  simp only [Table.disown, read_pointers, setOsptr_pointers, hparent _ hop, hflag,
    setYsptr_pointers, setCptr_pointers, Function.update_self, Function.update_of_ne hne]
  cases t.pointers.cptr r <;> simp [hparent _ hop, hflag]

/-- With the stale `p_ysptr` of the next child put right, a child goes from one family list to
the other. -/
theorem disown_family (hp : t.pointers.cptr t.current = some p)
    (hr : (t.tasks p).pOpptr = r) (hne : r ≠ t.current) (hpp : t.pointers.pptr p = t.current)
    (ho : ∀ o, t.pointers.osptr p = some o → o ≠ p ∧ t.pointers.pptr o = t.current)
    (hq : ∀ q, t.pointers.cptr r = some q → q ≠ p ∧ t.pointers.osptr p ≠ some q) :
    (t.disown p).settle.pointers.family = (t.settle.pointers.family.remove .elder p).insert .elder
      (.youngest r) p := by
  have hcur : (t.disown p).current = t.current := (disown_relinked p t).current
  have hd := disown_pointers hr hne
  have hcptr : ((t.disown p).tasks (t.disown p).current).pCptr = t.pointers.osptr p := by
    rw [hcur]
    change (t.disown p).pointers.cptr t.current = _
    rw [hd]
    simp [Function.update_of_ne hne.symm]
  have hs : (t.disown p).settle.pointers = { (t.disown p).pointers with
      ysptr := match t.pointers.osptr p with
        | none => (t.disown p).pointers.ysptr
        | some x => Function.update (t.disown p).pointers.ysptr x none } := by
    cases hc : t.pointers.osptr p with
    | none => rw [settle_of_none (hcptr.trans hc)]
    | some x => exact settle_pointers (hcptr.trans hc)
  rw [hs, hd, settle_pointers hp]
  simp only [Pointers.family, Links.insert, Links.remove, Links.mk.injEq, Function.update_self, hpp]
  constructor
  · ext c x
    cases c <;> simp [Function.update_apply, hne]
  · ext x
    cases hro : t.pointers.osptr p with
    | none =>
      cases hrc : t.pointers.cptr r with
      | none => by_cases hx : x = p <;> simp [hne, hrc, hx]
      | some q =>
        obtain ⟨hqp, -⟩ := hq q hrc
        by_cases hx : x = p
        · simp [hne, hrc, hx, hqp.symm]
        · by_cases hxq : x = q <;> simp [hne, hrc, hx, hxq, hqp]
    | some o =>
      obtain ⟨hop, hoc⟩ := ho o hro
      cases hrc : t.pointers.cptr r with
      | none =>
        by_cases hx : x = p
        · simp [hne, hrc, hx, hop.symm]
        · by_cases hxo : x = o <;> simp [hne, hrc, hx, hxo, hop, hoc]
      | some q =>
        obtain ⟨hqp, hoq⟩ := hq q hrc
        rw [hro, ne_eq, Option.some.injEq] at hoq
        by_cases hx : x = p
        · simp [hne, hrc, hx, hop.symm, hqp.symm]
        · by_cases hxo : x = o
          · simp [hne, hrc, hxo, hop, hoc, hoq]
          · by_cases hxq : x = q <;> simp [hne, hrc, hx, hxo, hxq, hqp, Ne.symm hoq]

/-- The first child and the elder sibling that it is linked with. -/
theorem Table.Lists.first_child (h : t.Lists c) (hp : t.pointers.cptr q = some p) :
    ∃ l, c.kids q = p :: l ∧ ∀ o, t.pointers.osptr p = some o → o ∈ l := by
  obtain ⟨v, hs, hv⟩ := h.kids.chain q
  cases hk : c.kids q with
  | nil =>
    rw [hk] at hs
    cases hs
    cases hv.symm.trans hp
  | cons x l =>
    rw [hk] at hs
    obtain ⟨hx, -, hl⟩ := hs
    obtain rfl : x = p := Option.some.inj (hx.symm.trans hp)
    refine ⟨l, rfl, fun o ho => ?_⟩
    exact Chain.get_mem ⟨v, hl, hv⟩ (Or.inl rfl) ho

/-- One turn of the loop hands the first child over. -/
theorem disown_lists (h : t.settle.Lists c) (hp : t.pointers.cptr t.current = some p)
    (hne : (t.tasks p).pOpptr ≠ t.current) : ∃ l, c.kids t.current = p :: l ∧
      (t.disown p).settle.Lists (c.move p t.current (t.tasks p).pOpptr) := by
  have hsettle := settle_pointers hp
  have hfirst : t.settle.pointers.cptr t.current = some p := by
    rw [hsettle]
    exact hp
  obtain ⟨l, hk, hl⟩ := h.first_child hfirst
  have hpk : p ∈ c.kids t.current := by simp [hk]
  have hparent : ∀ x ∈ c.kids t.current, t.pointers.pptr x = t.current := by
    intro x hx
    rw [← ((h.parent x _).mp hx).2]
    exact ((settle_relinked t).field Entry.pPptr (fun _ => rfl) x).symm
  have hpl : p ∉ l := (List.nodup_cons.mp (hk ▸ h.kids.nodup t.current)).1
  have hosptr : ∀ o, t.pointers.osptr p = some o → o ∈ l := by
    rw [hsettle] at hl
    exact hl
  have hold : ∀ q, t.pointers.cptr (t.tasks p).pOpptr = some q → q ∉ c.kids t.current := by
    intro q hq hq'
    have hmem := (h.kids.chain (t.tasks p).pOpptr).get_mem (a := q) (Or.inl rfl) (by
      rw [hsettle]
      exact hq)
    exact hne (h.kids.disjoint _ _ q hmem hq')
  have hfamily := disown_family hp rfl hne (hparent p hpk)
    (fun o ho => ⟨fun he => hpl (he ▸ hosptr o ho), hparent o (by simp [hk, hosptr o ho])⟩)
    (fun q hq => ⟨fun he => hold q hq (he ▸ hpk), fun ho => hold q hq (by simp [hk, hosptr q ho])⟩)
  refine ⟨l, hk, ?_⟩
  have hviews : (t.disown p).settle.pointers.ring = t.settle.pointers.ring ∧
      (t.disown p).settle.pointers.threads = t.settle.pointers.threads ∧
      (t.disown p).settle.pointers.hash = t.settle.pointers.hash := by
    obtain ⟨hr, ht, hh⟩ := settle_views (t := t)
    obtain ⟨hr', ht', hh'⟩ := settle_views (t := t.disown p)
    rw [hr, ht, hh, hr', ht', hh', disown_pointers rfl hne]
    exact ⟨rfl, rfl, rfl⟩
  have hrel := (disown_relinked p t).trans (settle_relinked _)
  have hmod : ∀ {β : Type} (g : Entry → β), (∀ e, g e = g e.unlinked) →
      (∀ e, g { e with ptraced := false, pPptr := e.pOpptr } = g e) →
      ∀ x, g ((t.disown p).settle.tasks x) = g (t.settle.tasks x) := by
    intro β g hg hg' x
    rw [hrel.field g hg, (settle_relinked t).field g hg]
    exact Table.mod_field g hg' x
  have hkids := (h.kids.remove family_layout hpk).push family_layout (fun j hj => by
    rw [mem_update_erase (h.kids.nodup _) fun j hj => h.kids.disjoint _ _ p hj hpk] at hj
    exact hj.1 rfl) (t.tasks p).pOpptr
  refine ⟨?_, h.nodup, ?_, fun x q => ?_, ?_, fun x i => ?_, ?_, ?_⟩
  · rw [hviews.1]
    exact h.ring
  · rw [hfamily]
    exact hkids
  · have hpptr : ((t.disown p).settle.tasks x).pPptr =
        if x = p then (t.tasks p).pOpptr else (t.settle.tasks x).pPptr := by
      rw [hrel.field Entry.pPptr fun _ => rfl, (settle_relinked t).field Entry.pPptr fun _ => rfl,
        Table.mod_tasks]
      split_ifs <;> rfl
    have hpt : p ∈ c.tasks := ((h.parent p _).mp hpk).1
    simp only [Census.move]
    rw [mem_update_cons, mem_update_erase (h.kids.nodup _)
      fun j hj => h.kids.disjoint _ _ p hj hpk, h.parent, hpptr]
    split_ifs with hxp
    · simp [hxp, hpt, eq_comm]
    · simp [hxp]
  · rw [hviews.2.2]
    exact h.hashed
  · rw [hmod Entry.pid (fun _ => rfl) fun _ => rfl]
    exact h.bucket x i
  · rw [hviews.2.1]
    exact h.threads.congr (fun _ => Iff.rfl) (fun x _ => hmod Entry.tgid (fun _ => rfl)
      (fun _ => rfl) x) fun _ _ => ⟨rfl, rfl⟩
  · exact hrel.nrThreads.trans ((settle_relinked t).nrThreads.symm.trans h.nrThreads)

/-- Announcing a child only sends signals. -/
theorem announce_eq {ps : List TaskId} (hps : t.forEachTask n = some ps) :
    ∃ s, t.announce n p = some { t with sent := t.sent ++ s } ∧
      s.filterMap Sent.notice = if (t.tasks p).state = .zombie then [(p, (t.tasks p).exitSignal)]
        else [] := by
  have horphan : ∀ s, ∃ b, ({ t with sent := s } : Table).isOrphanedPgrp n
      (t.tasks p).pgrp = some b := fun s => ⟨_, congrArg (Option.map _) hps⟩
  have hstop : ∀ s, ∃ b, ({ t with sent := s } : Table).hasStoppedJobs n
      (t.tasks p).pgrp = some b := fun s => ⟨_, congrArg (Option.map _) hps⟩
  have hgroup : ∀ s, ∃ s', (if (t.tasks p).pgrp ≠ (t.tasks t.current).pgrp ∧
        (t.tasks p).session = (t.tasks t.current).session then do
      let orphaned ← ({ t with sent := s } : Table).isOrphanedPgrp n (t.tasks p).pgrp
      let stopped ← ({ t with sent := s } : Table).hasStoppedJobs n (t.tasks p).pgrp
      some (if orphaned ∧ stopped then
        ({ t with sent := s } : Table).killPgrp (t.tasks p).pgrp else { t with sent := s })
    else some { t with sent := s }) = some { t with sent := s ++ s' } ∧
      s'.filterMap Sent.notice = [] := by
    intro s
    obtain ⟨b, hb⟩ := horphan s
    obtain ⟨b', hb'⟩ := hstop s
    rw [hb, hb']
    by_cases hg : (t.tasks p).pgrp ≠ (t.tasks t.current).pgrp ∧
        (t.tasks p).session = (t.tasks t.current).session
    · rw [if_pos hg]
      by_cases hk : b = true ∧ b' = true
      · refine ⟨[.killPg (t.tasks p).pgrp SIGHUP, .killPg (t.tasks p).pgrp SIGCONT], ?_, rfl⟩
        simp [hk, Table.killPgrp, Table.send]
      · refine ⟨[], ?_, rfl⟩
        simp only [Option.bind_eq_bind, Option.bind_some, if_neg hk, List.append_nil]
    · refine ⟨[], ?_, rfl⟩
      rw [if_neg hg, List.append_nil]
  unfold Table.announce
  by_cases hz : (t.tasks p).state = .zombie
  · obtain ⟨s', hs', hn⟩ := hgroup (t.sent ++ [.notifyParent p (t.tasks p).exitSignal])
    refine ⟨.notifyParent p (t.tasks p).exitSignal :: s', ?_, ?_⟩
    · simp only [if_pos hz, Table.send]
      rw [hs', List.append_assoc]
      rfl
    · simp [hz, Sent.notice, hn]
  · obtain ⟨s', hs', hn⟩ := hgroup t.sent
    exact ⟨s', by simpa only [if_neg hz] using hs', by simpa [hz] using hn⟩

theorem disown_field {β : Type*} (g : Entry → β) (hg : ∀ e, g e = g e.unlinked)
    (hg' : ∀ e, g e.handedOver = g e) (x : TaskId) : g ((t.disown p).tasks x) = g (t.tasks x) :=
  ((disown_relinked p t).field g hg x).trans (Table.mod_field g hg' x)

theorem handedOver_unlinked (e : Entry) : e.handedOver.unlinked = e.unlinked.handedOver := rfl

theorem HandedOver.field {β : Type*} {l : List TaskId} (h : HandedOver l t t') (g : Entry → β)
    (hg : ∀ e, g e = g e.unlinked) (x : TaskId) :
    g (t'.tasks x) = if x ∈ l then g (t.tasks x).handedOver else g (t.tasks x) := by
  rw [hg, h.tasks]
  split_ifs <;> exact (hg _).symm

theorem HandedOver.same {β : Type*} {l : List TaskId} (h : HandedOver l t t') (g : Entry → β)
    (hg : ∀ e, g e = g e.unlinked) (hg' : ∀ e, g e.handedOver = g e) (x : TaskId) :
    g (t'.tasks x) = g (t.tasks x) := by
  rw [h.field g hg, hg', ite_self]

/-- One child and then the rest. -/
theorem HandedOver.cons {l : List TaskId} {s : List Sent} (hp : p ∉ l)
    (hs : s.filterMap Sent.notice = if ((t.disown p).tasks p).state = .zombie
      then [(p, ((t.disown p).tasks p).exitSignal)] else [])
    (h : HandedOver l { t.disown p with sent := (t.disown p).sent ++ s } t') :
    HandedOver (p :: l) t t' := by
  have hrel := disown_relinked p t
  have hstate : ∀ x, ((t.disown p).tasks x).state = (t.tasks x).state :=
    disown_field Entry.state (fun _ => rfl) fun _ => rfl
  have hsignal : ∀ x, ((t.disown p).tasks x).exitSignal = (t.tasks x).exitSignal :=
    disown_field Entry.exitSignal (fun _ => rfl) fun _ => rfl
  refine ⟨⟨h.nrThreads.trans hrel.nrThreads, h.lastPid.trans hrel.lastPid,
    h.nextSafe.trans hrel.nextSafe, h.current.trans hrel.current,
    h.childReaper.trans hrel.childReaper⟩, fun x => ?_, ?_⟩
  · rw [h.tasks, handedOver_unlinked, hrel.tasks, Table.mod_tasks]
    by_cases hx : x = p
    · simp [hx, hp, Entry.handedOver]
    · simp [hx, handedOver_unlinked]
  · rw [h.notices]
    simp only [Table.notices, List.filterMap_append, hs, hrel.sent, Table.mod_sent, hstate,
      hsignal, List.filter_cons, List.append_assoc]
    by_cases hz : (t.tasks p).state = .zombie <;> simp [hz]

theorem no_first_child (hl : c.kids t.current = []) (h : t.settle.Lists c) :
    (t.tasks t.current).pCptr = none := by
  cases hp : (t.tasks t.current).pCptr with
  | none => rfl
  | some p =>
    obtain ⟨l, hk, -⟩ := h.first_child (p := p) (q := t.current) (by
      rw [settle_pointers hp]
      exact hp)
    cases hl.symm.trans hk

/-- One turn of the loop: the first child is handed over and announced, which sends signals. -/
theorem disownAll_turn {l : List TaskId} (hl : c.kids t.current = p :: l) (h : t.settle.Lists c)
    (hop : (t.tasks p).pOpptr ≠ t.current) (hn : c.tasks.length < n) :
    (t.tasks t.current).pCptr = some p ∧ ∃ t1 s, (t.disown p).announce n p = some t1 ∧
      t1 = { t.disown p with sent := (t.disown p).sent ++ s } ∧
      (s.filterMap Sent.notice = if ((t.disown p).tasks p).state = .zombie
        then [(p, ((t.disown p).tasks p).exitSignal)] else []) ∧
      t1.settle.Lists (c.move p t.current (t.tasks p).pOpptr) ∧
      (c.move p t.current (t.tasks p).pOpptr).kids t1.current = l := by
  have hp : (t.tasks t.current).pCptr = some p := by
    have hchain := h.kids.chain t.current
    rw [hl] at hchain
    have hmem := hchain.head
    cases hc : (t.tasks t.current).pCptr with
    | none =>
      rw [settle_of_none hc] at hmem
      cases hc.symm.trans hmem
    | some x =>
      rw [settle_pointers hc] at hmem
      exact hc.symm.trans hmem
  obtain ⟨l', hk, hlists⟩ := disown_lists h hp hop
  have hring : (t.disown p).forEachTask n = some c.tasks := by
    rw [← forEachTask_congr settle_views.1]
    exact hlists.forEachTask hn
  obtain ⟨s, hs, hnotice⟩ := announce_eq (p := p) hring
  have hcur : (t.disown p).current = t.current := (disown_relinked p t).current
  refine ⟨hp, _, s, hs, rfl, hnotice, ?_, ?_⟩
  · rw [settle_sent]
    exact hlists.of_pointers rfl (fun _ _ => ⟨rfl, rfl⟩) rfl
  · simp [hcur, Census.move, hop.symm, hl]

/-- The loop ends with every child handed over. -/
theorem disownAll_lists {l : List TaskId} (hl : c.kids t.current = l) (h : t.settle.Lists c)
    (hop : ∀ p ∈ l, (t.tasks p).pOpptr ≠ t.current) (hn : c.tasks.length < n)
    (hm : l.length < m) : ∃ t', t.disownAll n m = some t' ∧ HandedOver l t t' ∧
      t'.Lists (c.handOver t.current (fun p => (t.tasks p).pOpptr) l) := by
  induction l generalizing t c m with
  | nil =>
    obtain ⟨m, rfl⟩ := Nat.exists_eq_succ_of_ne_zero (Nat.ne_of_gt hm)
    have hnone := no_first_child hl h
    refine ⟨t, by simp [Table.disownAll, hnone], ⟨⟨rfl, rfl, rfl, rfl, rfl⟩, by simp, by simp⟩, ?_⟩
    rw [settle_of_none hnone] at h
    exact h
  | cons p l ih =>
    obtain ⟨m, rfl⟩ := Nat.exists_eq_succ_of_ne_zero (Nat.ne_of_gt (Nat.zero_lt_of_lt hm))
    obtain ⟨hp, t1, s, hs, ht1, hnotice, hlists1, hkids1⟩ :=
      disownAll_turn hl h (hop p List.mem_cons_self) hn
    have hpl : p ∉ l := (List.nodup_cons.mp (hl ▸ h.kids.nodup t.current)).1
    have hcur1 : t1.current = t.current := by
      rw [ht1]
      exact (disown_relinked p t).current
    have hparents : (fun x => (t1.tasks x).pOpptr) = fun x => (t.tasks x).pOpptr := by
      funext x
      rw [ht1]
      exact disown_field Entry.pOpptr (fun _ => rfl) (fun _ => rfl) x
    obtain ⟨t', ht', hover, hlists'⟩ := ih (m := m) hkids1 hlists1 (fun x hx => by
        rw [hcur1, congrFun hparents x]
        exact hop x (List.mem_cons_of_mem _ hx)) hn (by simpa using hm)
    refine ⟨t', ?_, ?_, ?_⟩
    · rw [Table.disownAll, hp]
      simp only [hs, Option.bind_some, ht']
    · exact HandedOver.cons hpl hnotice (ht1 ▸ hover)
    · rw [hparents, hcur1] at hlists'
      exact hlists'

/-! The original parents. -/

theorem Table.Lists.otherThreads (h : t.Lists c) (hp : p ∈ initTaskAddr :: c.tasks)
    (hn : c.tasks.length < n) : ∃ l, t.otherThreads n p = some l ∧ (p :: l).Nodup ∧
      ∀ x, x ∈ p :: l ↔ x ∈ initTaskAddr :: c.tasks ∧ (t.tasks x).tgid = (t.tasks p).tgid := by
  obtain ⟨l, hr, hnd, hl⟩ := h.threads p hp
  have hlen : (p :: l).length ≤ (initTaskAddr :: c.tasks).length :=
    (hnd.subperm fun x hx => ((hl x).mp hx).1).length_le
  simp only [List.length_cons] at hlen
  exact ⟨l, hr.walk (List.nodup_cons.mp hnd).1 (by omega), hnd, hl⟩

/-- The reaper is a thread of the same group that is not exiting, or `child_reaper`. -/
theorem reaper_eq (h : t.Lists c) (hp : p ∈ initTaskAddr :: c.tasks) (hn : c.tasks.length < n) :
    ∃ r, t.reaper n p = some r ∧ (r = t.childReaper ∨ r ≠ p ∧ r ∈ initTaskAddr :: c.tasks ∧
      (t.tasks r).tgid = (t.tasks p).tgid ∧ (t.tasks r).exiting = false) := by
  obtain ⟨l, hl, hnd, hmem⟩ := h.otherThreads hp hn
  refine ⟨(l.find? fun x => !(t.tasks x).exiting).getD t.childReaper, ?_, ?_⟩
  · rw [Table.reaper, hl]
    rfl
  cases hf : l.find? fun x => !(t.tasks x).exiting with
  | none => exact Or.inl rfl
  | some r =>
    right
    have hr := List.mem_of_find?_eq_some hf
    obtain ⟨hlive, htgid⟩ := (hmem r).mp (List.mem_cons_of_mem _ hr)
    refine ⟨fun he => (List.nodup_cons.mp hnd).1 (he ▸ hr), hlive, htgid, ?_⟩
    simpa using List.find?_some hf

/-- The children of `father` among the tasks `ps` get `r` as their original parent. -/
structure Forgotten (father r : TaskId) (ps : List TaskId) (t t' : Table) : Prop
    extends SameGlobals t t' where
  tasks : ∀ x, t'.tasks x = if x ∈ ps ∧ (t.tasks x).pOpptr = father
    then (t.tasks x).orphaned (if x = r then t.childReaper else r) else t.tasks x
  pidhash : t'.pidhash = t.pidhash
  notices : t'.notices = t.notices
  sent : t.sent <+: t'.sent

theorem forgetParent_forgotten {father : TaskId} :
    Forgotten father r [p] t (Table.forgetParent father r t p) := by
  have htasks : ∀ x, (t.mod p (Entry.orphaned (if p = r then t.childReaper else r))).tasks x =
      if x = p then (t.tasks x).orphaned (if x = r then t.childReaper else r) else t.tasks x := by
    intro x
    rw [Table.mod_tasks]
    by_cases hx : x = p <;> simp [hx]
  unfold Table.forgetParent
  by_cases hf : (t.tasks p).pOpptr = father
  · rw [if_pos hf]
    have hcond : ∀ x, (x ∈ [p] ∧ (t.tasks x).pOpptr = father) ↔ x = p := by
      intro x
      rw [List.mem_singleton]
      exact ⟨And.left, fun hx => ⟨hx, hx ▸ hf⟩⟩
    apply iteInduction (motive := Forgotten father r [p] t) <;> intro
    · exact ⟨⟨rfl, rfl, rfl, rfl, rfl⟩, fun x => by rw [if_congr (hcond x) rfl rfl]; exact htasks x,
        rfl, by simp [Table.notices, Table.send, Sent.notice], List.prefix_append _ _⟩
    · exact ⟨⟨rfl, rfl, rfl, rfl, rfl⟩, fun x => by rw [if_congr (hcond x) rfl rfl]; exact htasks x,
        rfl, rfl, List.prefix_rfl⟩
  · rw [if_neg hf]
    refine ⟨⟨rfl, rfl, rfl, rfl, rfl⟩, fun x => ?_, rfl, rfl, List.prefix_rfl⟩
    rw [if_neg]
    rintro ⟨hx, hx'⟩
    rw [List.mem_singleton] at hx
    exact hf (hx ▸ hx')

theorem foldl_forgotten {father : TaskId} {ps : List TaskId} (hn : ps.Nodup) :
    Forgotten father r ps t (ps.foldl (Table.forgetParent father r) t) := by
  induction ps generalizing t with
  | nil => exact ⟨⟨rfl, rfl, rfl, rfl, rfl⟩, by simp, rfl, rfl, List.prefix_rfl⟩
  | cons p ps ih =>
    obtain ⟨hp, hn⟩ := List.nodup_cons.mp hn
    have h1 : Forgotten father r [p] t _ := forgetParent_forgotten
    have h2 := ih hn (t := Table.forgetParent father r t p)
    refine ⟨⟨h2.nrThreads.trans h1.nrThreads, h2.lastPid.trans h1.lastPid,
      h2.nextSafe.trans h1.nextSafe, h2.current.trans h1.current,
      h2.childReaper.trans h1.childReaper⟩, fun x => ?_, h2.pidhash.trans h1.pidhash,
      h2.notices.trans h1.notices, h1.sent.trans h2.sent⟩
    have hx1 := h1.tasks x
    rw [List.foldl_cons, h2.tasks, h1.childReaper]
    by_cases hx : x = p
    · subst hx
      rw [if_neg fun h => hp h.1, hx1]
      simp
    · have hsame : (Table.forgetParent father r t p).tasks x = t.tasks x :=
        hx1.trans (if_neg fun h => hx (List.mem_singleton.mp h.1))
      rw [hsame]
      simp [hx]

/-! The whole of `exit_notify`. -/

/-- The original parent of a task after `current` has exited. -/
def Table.heir (t : Table) (r x : TaskId) : TaskId :=
  if (t.tasks x).pOpptr = t.current then (if x = r then t.childReaper else r)
  else (t.tasks x).pOpptr

theorem heir_ne (hreap : t.childReaper ≠ t.current) (hr : r ≠ t.current) (x : TaskId) :
    t.heir r x ≠ t.current := by
  unfold Table.heir
  split_ifs <;> assumption

/-- What `exit_notify` has done for a task in the table `c`, with the reaper `r`. -/
structure Exited (c : Census) (r : TaskId) (t t' : Table) : Prop extends SameGlobals t t' where
  lists : t'.Lists (c.handOver t.current (t.heir r) (c.kids t.current))
  ids : ∀ x, (t'.tasks x).pid = (t.tasks x).pid ∧ (t'.tasks x).pgrp = (t.tasks x).pgrp ∧
    (t'.tasks x).session = (t.tasks x).session ∧ (t'.tasks x).tgid = (t.tasks x).tgid ∧
    (t'.tasks x).exiting = (t.tasks x).exiting
  state : ∀ x, (t'.tasks x).state = if x = t.current then .zombie else (t.tasks x).state
  pOpptr : ∀ x, (t'.tasks x).pOpptr = if x ∈ c.tasks then t.heir r x else (t.tasks x).pOpptr
  pPptr : ∀ x, (t'.tasks x).pPptr =
    if x ∈ c.kids t.current then t.heir r x else (t.tasks x).pPptr
  notices : t'.notices = t.notices ++
    (t.current :: (c.kids t.current).filter fun p => (t'.tasks p).state = .zombie).map fun p =>
      (p, (t'.tasks p).exitSignal)

/-- Notifying a group only sends signals. -/
structure Signalled (t t' : Table) : Prop extends SameGlobals t t' where
  tasks : t'.tasks = t.tasks
  pidhash : t'.pidhash = t.pidhash
  notices : t'.notices = t.notices
  sent : t.sent <+: t'.sent

theorem notifyGroup_signalled {ps : List TaskId} (hps : t.forEachTask n = some ps) :
    ∃ t', t.notifyGroup n = some t' ∧ Signalled t t' := by
  have horphan : t.willBecomeOrphanedPgrp n (t.tasks t.current).pgrp (some t.current) = some _ :=
    congrArg (Option.map _) hps
  have hstop : t.hasStoppedJobs n (t.tasks t.current).pgrp = some _ := congrArg (Option.map _) hps
  unfold Table.notifyGroup
  simp only [horphan, hstop, Option.bind_eq_bind, Option.bind_some]
  refine ⟨_, rfl, ?_⟩
  split_ifs
  · refine ⟨⟨rfl, rfl, rfl, rfl, rfl⟩, rfl, rfl, ?_, ?_⟩
    · simp [Table.notices, Table.killPgrp, Table.send, Sent.notice]
    · simp [Table.killPgrp, Table.send]
  · exact ⟨⟨rfl, rfl, rfl, rfl, rfl⟩, rfl, rfl, rfl, List.prefix_rfl⟩

/-- `current` has died of `sig`, and nothing else has changed. -/
structure Died (sig : ℤ) (t t' : Table) : Prop extends SameGlobals t t' where
  tasks : ∀ x, t'.tasks x = if x = t.current
    then { t.tasks x with exitSignal := sig, state := .zombie } else t.tasks x
  pidhash : t'.pidhash = t.pidhash
  notices : t'.notices = t.notices ++ [(t.current, sig)]

theorem becomeZombie_died (t : Table) : ∃ sig, Died sig t t.becomeZombie ∧
    t.becomeZombie.sent = t.sent ++ [.notifyParent t.current sig] := by
  have hdied : ∀ sig, Died sig t ((t.mod t.current fun e =>
      { e with exitSignal := sig, state := .zombie }).send (.notifyParent t.current sig)) := by
    refine fun sig => ⟨⟨rfl, rfl, rfl, rfl, rfl⟩, fun x => ?_, rfl, ?_⟩
    · rw [Table.send_tasks, Table.mod_tasks]
      by_cases hx : x = t.current <;> simp [hx]
    · simp [Table.notices, Table.send, Sent.notice]
  unfold Table.becomeZombie
  dsimp only
  split_ifs
  · refine ⟨SIGCHLD, ?_⟩
    rw [Table.mod_mod, Table.mod_self]
    exact ⟨hdied SIGCHLD, rfl⟩
  · refine ⟨(t.tasks t.current).exitSignal, ?_, ?_⟩
    · have h := hdied (t.tasks t.current).exitSignal
      simpa [Table.mod] using h
    · simp [Table.send, Table.mod]

theorem handOver_congr {f g : TaskId → TaskId} {l : List TaskId} (h : ∀ p ∈ l, f p = g p) :
    c.handOver q f l = c.handOver q g l := by
  induction l generalizing c with
  | nil => rfl
  | cons p l ih =>
    have hrest := ih (c := c.move p q (f p)) fun x hx => h x (List.mem_cons_of_mem _ hx)
    simp only [Census.handOver, List.foldl_cons] at hrest ⊢
    rw [hrest, h p List.mem_cons_self]

theorem Table.Lists.settle (h : t.Lists c) : t.settle.Lists c := by
  cases hp : (t.tasks t.current).pCptr with
  | none => rwa [settle_of_none hp]
  | some p =>
    have hrel := settle_relinked t
    refine h.of_pointers ?_ (fun x _ => ⟨hrel.field Entry.pid (fun _ => rfl) x,
      hrel.field Entry.tgid (fun _ => rfl) x⟩) hrel.nrThreads
    have hys : t.pointers.ysptr p = none := by
      obtain ⟨l, hk, -⟩ := h.first_child (q := t.current) hp
      obtain ⟨_, hs, -⟩ := h.kids.chain t.current
      rw [hk] at hs
      have hback := hs.2.1
      simp only [Pointers.family] at hback
      cases hy : t.pointers.ysptr p with
      | none => rfl
      | some y => simp [hy] at hback
    rw [settle_pointers hp, ← hys, Function.update_eq_self]

theorem Forgotten.lists {father : TaskId} {ps : List TaskId} (hf : Forgotten father r ps t t')
    (h : t.Lists c) : t'.Lists c := by
  refine h.of_bones (fun x => ?_) hf.pidhash hf.nrThreads
  rw [hf.tasks]
  split_ifs <;> rfl

theorem Died.lists {sig : ℤ} (hd : Died sig t t') (h : t.Lists c) : t'.Lists c := by
  refine h.of_bones (fun x => ?_) hd.pidhash hd.nrThreads
  rw [hd.tasks]
  split_ifs <;> rfl

/-- How `exit_notify` goes: `t1` has the new original parents, in `t2` the group of the task has
its signals, and in `t3` the task has died. -/
structure ExitStages (n : ℕ) (c : Census) (r : TaskId) (sig : ℤ) (t t1 t2 t3 : Table) : Prop where
  reaper : t.reaper n t.current = some r
  ne : r ≠ t.current
  forgotten : Forgotten t.current r c.tasks t t1
  lists1 : t1.Lists c
  group : t1.notifyGroup n = some t2
  signalled : Signalled t1 t2
  died : Died sig t2 t3
  sent : t3.sent = t2.sent ++ [.notifyParent t.current sig]
  lists3 : t3.Lists c
  current : t3.current = t.current
  rest : t.exitNotify n = t3.disownAll n n
  pOpptr : ∀ x, (t3.tasks x).pOpptr = if x ∈ c.tasks then t.heir r x else (t.tasks x).pOpptr

theorem exitNotify_stages (h : t.Lists c) (hcur : t.current ∈ c.tasks)
    (hn : c.tasks.length < n) (hreap : t.childReaper ≠ t.current) :
    ∃ r sig t1 t2 t3, ExitStages n c r sig t t1 t2 t3 := by
  obtain ⟨r, hr, hr'⟩ := reaper_eq h (List.mem_cons_of_mem _ hcur) hn
  have hrcur : r ≠ t.current := by
    rcases hr' with rfl | hr'
    · exact hreap
    · exact hr'.1
  have hforget : Forgotten t.current r c.tasks t _ :=
    foldl_forgotten (List.nodup_cons.mp h.nodup).2
  generalize ht1 : c.tasks.foldl (Table.forgetParent t.current r) t = t1 at hforget
  have hlists1 := hforget.lists h
  obtain ⟨t2, hgroup, hsignal⟩ := notifyGroup_signalled (hlists1.forEachTask hn)
  have hcur2 : t2.current = t.current := hsignal.current.trans hforget.current
  obtain ⟨sig, hdied, hsent⟩ := becomeZombie_died t2
  have hlists3 := hdied.lists (hlists1.of_bones (fun x => by rw [hsignal.tasks]) hsignal.pidhash
    hsignal.nrThreads)
  have hexit : t.exitNotify n = t2.becomeZombie.disownAll n n := by
    simp [Table.exitNotify, Table.forgetOriginalParent, hr, h.forEachTask hn, ht1, hgroup]
  refine ⟨r, sig, t1, t2, _, hr, hrcur, hforget, hlists1, hgroup, hsignal, hdied, hcur2 ▸ hsent,
    hlists3, hdied.current.trans hcur2, hexit, fun x => ?_⟩
  rw [hdied.tasks, hsignal.tasks, hforget.tasks]
  unfold Table.heir
  split_ifs <;> simp_all [Entry.orphaned]

/-- The children of the task that has died have other original parents. -/
theorem ExitStages.pOpptr_ne {sig : ℤ} {t1 t2 t3 : Table} (hs : ExitStages n c r sig t t1 t2 t3)
    (h : t.Lists c) (hreap : t.childReaper ≠ t.current) :
    ∀ x ∈ c.kids t3.current, (t3.tasks x).pOpptr ≠ t3.current := by
  intro x hx
  rw [hs.current] at hx ⊢
  rw [hs.pOpptr, if_pos ((h.parent x _).mp hx).1]
  exact heir_ne hreap hs.ne x

theorem Table.Lists.kids_length (h : t.Lists c) (q : TaskId) :
    (c.kids q).length ≤ c.tasks.length :=
  ((h.kids.nodup q).subperm fun x hx => ((h.parent x q).mp hx).1).length_le

/-- `exit_notify` comes to its end, with all children at their new parents. -/
theorem exitNotify_exited (h : t.Lists c) (hcur : t.current ∈ c.tasks) (hn : c.tasks.length < n)
    (hreap : t.childReaper ≠ t.current) : ∃ r t', t.reaper n t.current = some r ∧
      r ≠ t.current ∧ t.exitNotify n = some t' ∧ Exited c r t t' := by
  obtain ⟨r, sig, t1, t2, t3, hs⟩ := exitNotify_stages h hcur hn hreap
  have hforget := hs.forgotten
  have hsignal := hs.signalled
  have hdied := hs.died
  have hcur2 : t2.current = t.current := hsignal.current.trans hforget.current
  have hcur3 := hs.current
  have htasks3 := hdied.tasks
  rw [hcur2, hsignal.tasks] at htasks3
  have hop := hs.pOpptr
  have hkids : ∀ x ∈ c.kids t.current, x ∈ c.tasks := fun x hx => ((h.parent x _).mp hx).1
  obtain ⟨t', ht', hover, hlists'⟩ := disownAll_lists (m := n) rfl hs.lists3.settle
    (hs.pOpptr_ne h hreap) hn ((h.kids_length _).trans_lt hn)
  rw [hcur3] at hover hlists'
  rw [handOver_congr (g := t.heir r) fun x hx => by rw [hop, if_pos (hkids x hx)]] at hlists'
  refine ⟨r, t', hs.reaper, hs.ne, hs.rest.trans ht', ?_⟩
  have hids : ∀ {β : Type} (g : Entry → β), (∀ e, g e = g e.unlinked) →
      (∀ e, g e.handedOver = g e) → (∀ q e, g (e.orphaned q) = g e) →
      (∀ e, g { e with exitSignal := sig, state := .zombie } = g e) →
      ∀ x, g (t'.tasks x) = g (t.tasks x) := by
    intro β g hg hg' hq hz x
    rw [hover.same g hg hg', htasks3, hforget.tasks]
    split_ifs <;> simp only [hq, hz]
  have hpOpptr := hover.same Entry.pOpptr (fun _ => rfl) fun _ => rfl
  have hstate := hover.same Entry.state (fun _ => rfl) fun _ => rfl
  have hsig := hover.same Entry.exitSignal (fun _ => rfl) fun _ => rfl
  refine ⟨⟨?_, ?_, ?_, ?_, ?_⟩, hlists', fun x => ⟨?_, ?_, ?_, ?_, ?_⟩, fun x => ?_, fun x => ?_,
    fun x => ?_, ?_⟩
  · exact hover.nrThreads.trans (hdied.nrThreads.trans (hsignal.nrThreads.trans hforget.nrThreads))
  · exact hover.lastPid.trans (hdied.lastPid.trans (hsignal.lastPid.trans hforget.lastPid))
  · exact hover.nextSafe.trans (hdied.nextSafe.trans (hsignal.nextSafe.trans hforget.nextSafe))
  · exact hover.current.trans hcur3
  · exact hover.childReaper.trans
      (hdied.childReaper.trans (hsignal.childReaper.trans hforget.childReaper))
  · exact hids Entry.pid (fun _ => rfl) (fun _ => rfl) (fun _ _ => rfl) (fun _ => rfl) x
  · exact hids Entry.pgrp (fun _ => rfl) (fun _ => rfl) (fun _ _ => rfl) (fun _ => rfl) x
  · exact hids Entry.session (fun _ => rfl) (fun _ => rfl) (fun _ _ => rfl) (fun _ => rfl) x
  · exact hids Entry.tgid (fun _ => rfl) (fun _ => rfl) (fun _ _ => rfl) (fun _ => rfl) x
  · exact hids Entry.exiting (fun _ => rfl) (fun _ => rfl) (fun _ _ => rfl) (fun _ => rfl) x
  · rw [hstate, htasks3, hforget.tasks]
    split_ifs <;> rfl
  · rw [hpOpptr, hop]
  · rw [hover.field Entry.pPptr fun _ => rfl]
    by_cases hx : x ∈ c.kids t.current
    · rw [if_pos hx, if_pos hx]
      exact (hop x).trans (if_pos (hkids x hx))
    · rw [if_neg hx, if_neg hx, htasks3, hforget.tasks]
      split_ifs <;> rfl
  · rw [hover.notices, hdied.notices, hsignal.notices, hforget.notices, hcur2, List.append_assoc]
    have hzsig : (t'.tasks t.current).exitSignal = sig := by
      rw [hsig, htasks3, if_pos rfl]
    simp only [hstate, hsig, List.map_cons, List.singleton_append]
    rw [← hsig t.current, hzsig]

end
end ShortSched
