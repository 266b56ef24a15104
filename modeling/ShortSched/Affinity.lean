import ShortSched.MigrationRequests

/-! Tasks are on CPUs that their mask allows, once `set_cpus_allowed` has returned. The migration
thread reads the mask before it takes the locks, so this needs that no other call for the task
comes before then. -/
namespace ShortSched
open Locks PartialRun Tokens

variable {n : ℕ} {A : Type}

def Errand.setting (p : TaskId) : Errand n → Option TaskId
  | setAllowed _ => some p
  | kick q => some q
  | _ => none

def Onward.setting : Onward n → Option TaskId
  | out => none
  | again p e => e.setting p
  | down p => some p

/-- The task that a path is in `set_cpus_allowed` for. -/
def Place.setting : Place n A → Option TaskId
  | repeatLockTask p e | lockTask p e _ | recheck p e _ | holding p e _ => e.setting p
  | masked p _ _ => some p
  | unlockTask _ k => k.setting
  | down p => some p
  | _ => none

/-- Where a migration thread is about to take a task. -/
def Place.bound : Place n A → Option (MigrationReq A × Fin n)
  | readSrc r d | lockFirst r _ d | lockSecond r _ d | checkSrc r _ d | moveCpu r _ d
  | unlockSrc r _ d true | unlockDest r d true => some (r, d)
  | _ => none

/-- A request in hand that may still lead to a move. -/
def Place.due : Place n A → Option (MigrationReq A)
  | unlockOwn o => o
  | readDest r | readSrc r _ | lockFirst r _ _ | lockSecond r _ _ | checkSrc r _ _
  | moveCpu r _ _ | unlockSrc r _ _ true | unlockDest r _ true => some r
  | _ => none

/-- The requests on a CPU that may still lead to a move. -/
def SmpState.due (m : Cpus n A) (s : SmpState n A) : Fin n → List (MigrationReq A) :=
  s.requests m Place.due

/-- `p` is on a CPU that its mask allows, or is being moved to one, and the CPU on which it is being
woken up for the first time is one of them. -/
structure SmpState.Affine (m : Cpus n A) (p : TaskId) (s : SmpState n A) : Prop where
  one : ∀ a b, (s.place a).setting = some p → (s.place b).setting = some p → a = b
  bound : ∀ a r d, (s.place a).bound = some (r, d) → r.task = p → s.allowed p d = true
  waking : ∀ a, (s.place a).task = some p → (s.place a).stage = .waking →
    s.allowed p (m.home a) = true
  placed : s.birth p = .woken →
    s.allowed p (s.cpu p) = true ∨ (∃ a mask rq, s.place a = .masked p mask rq) ∨
      ∃ r ∈ s.due m (s.cpu p), r.task = p

/-- `p` gets no new mask while it is being given one, and its fork ends on a CPU that its mask
allows. -/
structure Serial (m : Cpus n A) (p : TaskId) (s : SmpState n A) (o : A × PathChoice n) : Prop where
  call : ∀ mask, o.2 = .call p (.setAllowed mask) → ∀ b, (s.place b).setting ≠ some p
  wakeForked : o.2 = .wakeForked p → s.allowed p (m.home o.1) = true

/-- A run in which `p` is left alone while it is forked, on a CPU that its mask allows, and the
calls of `set_cpus_allowed` for it come one after the other. -/
structure SerialRun [DecidableEq A] (m : Cpus n A) (p : TaskId) (os : List (A × PathChoice n))
    (s u : SmpState n A) : Prop extends SmpRun m os s u where
  alone : ForkAlone m p os s
  serial : Along (smpExec m) (Serial m p) os s

section
variable {m : Cpus n A} {T : TaskId → Prop} {a b e : A} {s s' : SmpState n A} {p : TaskId}
  {c d : Fin n} {q q' : Place n A} {r : MigrationReq A}

theorem ffs_allowed {mask : Fin n → Bool} (h : ffs mask = some c) : mask c = true :=
  List.find?_some h

theorem onward_place_setting (k : Onward n) : (k.place : Place n A).setting = k.setting := by
  cases k <;> rfl

theorem LockStep.setting (h : LockStep q q') : q'.setting = q.setting := by
  cases h with
  | unlockTask rq k => exact onward_place_setting k
  | unlockOne r c d again | unlockDest r d again => cases again <;> rfl
  | _ => rfl

theorem LockStep.bound (h : LockStep q q') : q'.bound = q.bound := by
  cases h with
  | unlockTask rq k => cases k <;> rfl
  | unlockOne r c d again | unlockDest r d again | unlockSrc r c d again => cases again <;> rfl
  | _ => rfl

theorem LockStep.due (h : LockStep q q') : q'.due = q.due := by
  cases h with
  | unlockTask rq k => cases k <;> rfl
  | unlockOne r c d again | unlockDest r d again | unlockSrc r c d again => cases again <;> rfl
  | _ => rfl

theorem errand_setting {e : Errand n} {x : TaskId} (h : e.awaits = some p) :
    e.setting x = some p := by
  cases e <;> cases h
  rfl

theorem Place.setting_of_awaits (h : q.awaits = some p) : q.setting = some p := by
  cases q with
  | repeatLockTask | lockTask | recheck | holding => exact errand_setting h
  | unlockTask rq k =>
    cases k with
    | again x e => exact errand_setting h
    | _ => exact h
  | down => exact h
  | _ => cases h

theorem Place.inHand_of_bound (h : q.bound = some (r, d)) : q.inHand = some r := by
  cases q with
  | unlockSrc x c d again | unlockDest x d again =>
    cases again <;> cases h
    rfl
  | readSrc | lockFirst | lockSecond | checkSrc | moveCpu =>
    cases h
    rfl
  | _ => cases h

theorem Place.task_of_bound (h : q.bound = some (r, d)) : q.task = some r.task := by
  cases q with
  | unlockSrc x c d again | unlockDest x d again =>
    cases again <;> cases h
    rfl
  | readSrc | lockFirst | lockSecond | checkSrc | moveCpu =>
    cases h
    rfl
  | _ => cases h

theorem Place.inHand_of_due (h : q.due = some r) : q.inHand = some r := by
  cases q with
  | unlockSrc x c d again | unlockDest x d again =>
    cases again <;> cases h
    rfl
  | unlockOwn | readDest | readSrc | lockFirst | lockSecond | checkSrc | moveCpu => exact h
  | _ => cases h

theorem pending_of_due (h : r ∈ s.due m c) : r ∈ s.pending m c := by
  rcases List.mem_append.mp h with hhand | hqueue
  · have hr := Place.inHand_of_due (Option.mem_toList.mp hhand)
    exact List.mem_append_left _ (Option.mem_toList.mpr hr)
  · exact List.mem_append_right _ hqueue

/-- What a migration thread has in hand is a request on its CPU. -/
theorem SmpState.Sound.pending_of_inHand (hs : s.Sound m T) (h : (s.place a).inHand = some r) :
    r ∈ s.pending m (m.home a) := by
  have ha := (hs.migrating a (Place.migrating_of_inHand h)).1
  simp [SmpState.pending, SmpState.requests, ← ha, h]

variable [DecidableEq A] {ch : PathChoice n}

/-- While a task is given a mask, and before its migration is asked for, there is no request for
it. -/
theorem SmpState.Affine.no_request (hf : s.Affine m p) (hacc : s.Accounts m)
    (ha : (s.place a).setting = some p) (hno : (s.place a).awaits = none)
    (hr : r ∈ s.pending m c) : r.task ≠ p := by
  rintro rfl
  have hawaits := hacc.tasks c r hr
  have hra := hf.one _ _ (Place.setting_of_awaits hawaits) ha
  rw [hra, hno] at hawaits
  cases hawaits

theorem Acted.setting (h : Acted m a s ch s') (hch : ch.Proper m)
    (hp : (s'.place a).setting = some p) :
    (s.place a).setting = some p ∨ ∃ mask, ch = .call p (.setAllowed mask) := by
  cases h with
  | call x e hx =>
    rw [goto_self] at hp
    cases e with
    | setAllowed mask =>
      cases hp
      exact Or.inr ⟨mask, rfl⟩
    | kick y => exact absurd rfl (hch.2 y)
    | _ => cases hp
  | activate x e rq k hx hk | awake x e rq k hx hk =>
    rw [goto_self] at hp
    left
    rw [hx]
    cases e <;> cases hk <;> exact hp
  | sleep | deactivate | switch | fork => exact Or.inl hp
  | look x e hx | missed x e rq hx | got x e rq hx | fastMigrate x e rq hx =>
    rw [goto_self] at hp
    left
    rw [hx]
    exact hp
  | mask x mask rq hx | request x mask rq hx =>
    rw [goto_self] at hp
    left
    rw [hx]
    exact hp
  | _ =>
    rw [goto_self] at hp
    cases hp

/-- The mask of a task is changed by its `set_cpus_allowed`, or copied when it is forked. -/
theorem Acted.new_mask (h : Acted m a s ch s') (p : TaskId) : s'.allowed p = s.allowed p ∨
    (∃ mask rq, s.place a = .holding p (.setAllowed mask) rq ∧ s'.place a = .masked p mask rq) ∨
      ch = .fork p := by
  cases h with
  | fork x hx =>
    by_cases hpx : p = x
    · exact Or.inr (Or.inr (hpx ▸ rfl))
    · exact Or.inl (Function.update_of_ne hpx ..)
  | mask x mask rq hx =>
    by_cases hpx : p = x
    · subst hpx
      exact Or.inr (Or.inl ⟨mask, rq, hx, goto_self⟩)
    · exact Or.inl (Function.update_of_ne hpx ..)
  | _ => exact Or.inl rfl

theorem Acted.bound (h : Acted m a s ch s') (hb : (s'.place a).bound = some (r, d)) :
    (s.place a).bound = some (r, d) ∨ s.allowed r.task d = true := by
  cases h with
  | sleep | deactivate | switch | fork => exact Or.inl hb
  | dest x c hx hc =>
    rw [goto_self] at hb
    cases hb
    exact Or.inr (ffs_allowed hc)
  | src x c hx | stale x c d' hx | fresh x c d' hx =>
    rw [goto_self] at hb
    left
    rw [hx]
    exact hb
  | _ =>
    rw [goto_self] at hb
    cases hb

/-- A task that has been woken up for the first time gets another CPU only if its mask allows it. -/
theorem Acted.allowed (h : Acted m a s ch s') (hf : s.Affine m p) (hs : s.Sound m T) (hT : T p)
    (hb : s.birth p = .woken) (hb' : s'.birth p = .woken) (hne : s'.cpu p ≠ s.cpu p) :
    s.allowed p (s'.cpu p) = true := by
  have hupd : ∀ {x : TaskId} {d : Fin n}, Function.update s.cpu x d p ≠ s.cpu p →
      (p = x → s.allowed p d = true) → s.allowed p (Function.update s.cpu x d p) = true := by
    intro x d hx hall
    by_cases hpx : p = x
    · subst hpx
      simpa using hall rfl
    · exact absurd (Function.update_of_ne hpx ..) hx
  cases h with
  | fork x hx =>
    refine hupd hne ?_
    rintro rfl
    have hnew : (s.copyCurrent p (m.home a)).birth p = .copied := Function.update_self ..
    rw [hnew] at hb'
    cases hb'
  | forkCpu x hx =>
    refine hupd hne ?_
    rintro rfl
    have hstage := (hs.born p hT).stage a (by rw [hx]; rfl)
    rw [hb, hx] at hstage
    cases hstage
  | fastMigrate x e rq hx harr hcurr hmask => exact hupd hne fun he => he ▸ hmask
  | moveIdle x mask rq c hx harr hcurr hc => exact hupd hne fun he => he ▸ ffs_allowed hc
  | carry b x hx =>
    refine hupd hne ?_
    rintro rfl
    exact (hs.knows_at hx rfl hT).2.2.2
  | move r c d hx => exact hupd hne fun he => hf.bound a r d (by rw [hx]; rfl) he.symm
  | _ => exact absurd rfl hne

/-- A request leads to a move, unless the task has left the CPU by itself. -/
theorem Acted.due (h : Acted m a s ch s') (hs : s.Sound m T) (hr : r ∈ s.due m c) :
    r ∈ s'.due m c ∨ c = m.home a ∧ ∃ e d, s.place a = .moveCpu r e d := by
  have hne : ∀ b, b ≠ a → s'.place b = s.place b := fun b hb => h.place_ne hb
  have hkeep : (s'.place a).due = (s.place a).due → s'.migrationQueue = s.migrationQueue →
      r ∈ s'.due m c := by
    intro hh hq
    have hdue : s'.due m = s.due m := requests_congr hq hh hne
    rwa [hdue]
  cases h with
  | request x mask rq hx =>
    left
    have hhand := requests_queue (m := m) (f := Place.due) (by simp [hx, Place.due]) hne
    rw [SmpState.due, hhand]
    simp only [SmpState.due, SmpState.requests, List.mem_append] at hr ⊢
    refine hr.imp_right fun hr => ?_
    by_cases hc : c = rq
    · subst hc
      simp [SmpState.goto, hr]
    · simpa [SmpState.goto, hc] using hr
  | takeRequest x rs hx hq =>
    left
    have ha := (hs.migrating a (hx ▸ trivial)).1
    by_cases hc : c = m.home a
    · subst hc
      simpa [SmpState.due, SmpState.requests, ← ha, hx, hq, Place.due, SmpState.goto] using hr
    · have hca : m.thread c ≠ a := by
        rintro rfl
        exact hc (m.home_thread c).symm
      simpa [SmpState.due, SmpState.requests, SmpState.goto, SmpState.setState, hc, hca] using hr
  | move x e d hx | elsewhere x e d hx =>
    have ha := (hs.migrating a (hx ▸ trivial)).1
    by_cases hc : c = m.home a
    · subst hc
      simp only [SmpState.due, SmpState.requests, ← ha, hx, Place.due, Option.toList_some,
        List.cons_append, List.nil_append, List.mem_cons] at hr
      rcases hr with rfl | hr
      · exact Or.inr ⟨rfl, e, d, hx⟩
      · left
        exact List.mem_append_right _ hr
    · have hca : m.thread c ≠ a := by
        rintro rfl
        exact hc (m.home_thread c).symm
      left
      simpa [SmpState.due, SmpState.requests, SmpState.goto, SmpState.setCpu, hca] using hr
  | sleep | deactivate | switch | fork => exact Or.inl hr
  | activate x e rq k hx | awake x e rq k hx =>
    exact Or.inl (hkeep (by simp [hx, Place.due]) rfl)
  | _ => exact Or.inl (hkeep (by simp [‹s.place a = _›, Place.due]) rfl)

/-- How `set_cpus_allowed` goes on after the new mask. -/
theorem Acted.unmasked {mask : Fin n → Bool} {rq : Fin n} (h : Acted m a s ch s')
    (hs : s.Sound m T) (hT : T p) (hp : s.place a = .masked p mask rq) :
    s'.allowed p (s'.cpu p) = true ∨ ∃ r ∈ s'.due m (s'.cpu p), r.task = p := by
  obtain ⟨hcpu, hmask⟩ : s.cpu p = rq ∧ s.allowed p = mask := hs.knows_at hp rfl hT
  cases h with
  | fits x mask' rq' hx hfit =>
    cases hp.symm.trans hx
    left
    exact (congrFun hmask _).trans hfit
  | moveIdle x mask' rq' c hx harr hcurr hc =>
    cases hp.symm.trans hx
    left
    have hall := ffs_allowed hc
    simpa [SmpState.goto, SmpState.setCpu] using hall
  | request x mask' rq' hx =>
    cases hp.symm.trans hx
    refine Or.inr ⟨⟨p, a⟩, List.mem_append_right _ ?_, rfl⟩
    simp [SmpState.goto, hcpu]
  | _ => exact absurd (hp.symm.trans ‹s.place a = _›) (by rintro ⟨⟩)

/-- The mask of a task stays what it is while the task is woken up for the first time. -/
theorem Acted.waking_mask (h : Acted m a s ch s') (hs : s.Sound m T) (hT : T p)
    (hl : LeftAlone p s (a, ch)) (hb : (s.place b).task = some p)
    (hw : (s.place b).stage = .waking) : s'.allowed p = s.allowed p := by
  rcases h.new_mask p with hmask | ⟨mask, rq, hplace, -⟩ | rfl
  · exact hmask
  · have hstage := (hs.born p hT).stage a (by rw [hplace]; rfl)
    rw [(hs.born p hT).stage b hb, hw, hplace] at hstage
    cases hstage
  · exact absurd hb ((hl.fork rfl).task b)

/-- A task that has had its first wake-up is on a CPU that its mask allows, or on its way. -/
theorem Acted.placed (h : Acted m a s ch s') (hs : s.Sound m T) (hT : T p) (hf : s.Affine m p)
    (hb : s.birth p = .woken) (hb' : s'.birth p = .woken) :
    s'.allowed p (s'.cpu p) = true ∨ (∃ b mask rq, s'.place b = .masked p mask rq) ∨
      ∃ r ∈ s'.due m (s'.cpu p), r.task = p := by
  rcases h.new_mask p with hmask | ⟨mask, rq, -, hplace⟩ | rfl
  · by_cases hcpu : s'.cpu p = s.cpu p
    · rcases hf.placed hb with hall | ⟨x, mask, rq, hx⟩ | ⟨r, hr, hrp⟩
      · left
        rw [hmask, hcpu, hall]
      · by_cases hxa : x = a
        · exact (h.unmasked hs hT (hxa ▸ hx)).imp_right Or.inr
        · exact Or.inr (Or.inl ⟨x, mask, rq, (h.place_ne hxa).trans hx⟩)
      · rcases h.due hs hr with hr | ⟨hc, e, d, hplace⟩
        · exact Or.inr (Or.inr ⟨r, hcpu.symm ▸ hr, hrp⟩)
        · -- the task is still on the CPU of the migration thread, which moves it
          subst hrp
          have he : s.cpu r.task = e := hs.knows_at hplace rfl hT
          have hall : s.allowed r.task d = true := hf.bound a r d (by rw [hplace]; rfl) rfl
          left
          rw [hmask]
          cases h with
          | move x e' d' hx =>
            cases hplace.symm.trans hx
            simpa [SmpState.goto, SmpState.setCpu] using hall
          | elsewhere x e' d' hx hne =>
            cases hplace.symm.trans hx
            exact absurd (he.symm.trans hc) hne
          | _ => exact absurd (hplace.symm.trans ‹s.place a = _›) (by rintro ⟨⟩)
    · left
      rw [hmask]
      exact h.allowed hf hs hT hb hb' hcpu
  · exact Or.inr (Or.inl ⟨a, mask, rq, hplace⟩)
  · cases h with
    | fork x hx =>
      have hnew : (s.copyCurrent p (m.home a)).birth p = .copied := Function.update_self ..
      rw [hnew] at hb'
      cases hb'

theorem Acted.setting_one (h : Acted m a s ch s') (hch : ch.Proper m)
    (hser : Serial m p s (a, ch)) (hf : s.Affine m p) (hb : (s'.place b).setting = some p)
    (he : (s'.place e).setting = some p) : b = e := by
  have hold : ∀ b, (s'.place b).setting = some p → (s.place b).setting = some p ∨
      b = a ∧ ∃ mask, ch = .call p (.setAllowed mask) := by
    intro b hb
    by_cases hba : b = a
    · subst hba
      exact (h.setting hch hb).imp_right fun hcall => ⟨rfl, hcall⟩
    · exact Or.inl (h.place_ne hba ▸ hb)
  rcases hold b hb with hb | ⟨rfl, mask, hcall⟩ <;>
    rcases hold e he with he | ⟨rfl, mask', hcall'⟩
  · exact hf.one b e hb he
  · exact absurd hb (hser.call mask' hcall' b)
  · exact absurd he (hser.call mask hcall e)
  · rfl

/-- The mask of a task does not change while a migration thread is about to move it. -/
theorem Acted.bound_allowed (h : Acted m a s ch s') (hs : s.Sound m T) (hacc : s.Accounts m)
    (hl : LeftAlone r.task s (a, ch)) (hf : s.Affine m r.task)
    (hb : (s'.place b).bound = some (r, d)) : s'.allowed r.task d = true := by
  by_cases hba : b = a
  · subst hba
    rcases h.new_mask r.task with hmask | ⟨mask, rq, -, hplace⟩ | rfl
    · rw [hmask]
      rcases h.bound hb with hb | hall
      · exact hf.bound b r d hb rfl
      · exact hall
    · rw [hplace] at hb
      cases hb
    · cases h with
      | fork x hx =>
        have hout : (s.copyCurrent r.task (m.home b)).place b = .out := hx
        rw [hout] at hb
        cases hb
  · rw [h.place_ne hba] at hb
    rcases h.new_mask r.task with hmask | ⟨mask, rq, hplace, -⟩ | rfl
    · rw [hmask]
      exact hf.bound b r d hb rfl
    · have hr := hs.pending_of_inHand (Place.inHand_of_bound hb)
      exact absurd rfl (hf.no_request hacc (by rw [hplace]; rfl) (by rw [hplace]; rfl) hr)
    · exact absurd (Place.task_of_bound hb) ((hl.fork rfl).task b)

theorem Acted.waking_allowed (h : Acted m a s ch s') (hs : s.Sound m T) (hT : T p)
    (hl : LeftAlone p s (a, ch)) (hser : Serial m p s (a, ch)) (hf : s.Affine m p)
    (hb : (s'.place b).task = some p) (hw : (s'.place b).stage = .waking) :
    s'.allowed p (m.home b) = true := by
  by_cases hba : b = a
  · subst hba
    rcases h.task hb with ⟨hold, hstage⟩ | ⟨hstage, -⟩ | ⟨rfl, -⟩
    · rw [hstage] at hw
      rw [h.waking_mask hs hT hl hold hw]
      exact hf.waking b hold hw
    · rw [hstage] at hw
      cases hw
    · have hmask : s'.allowed p = s.allowed p := by
        cases h
        rfl
      rw [hmask]
      exact hser.wakeForked rfl
  · rw [h.place_ne hba] at hb hw
    rw [h.waking_mask hs hT hl hb hw]
    exact hf.waking b hb hw

/-- Every statement keeps a task where its mask allows. -/
theorem Acted.affine (h : Acted m a s ch s') (hs : s.Sound m T) (hT : T p) (hacc : s.Accounts m)
    (hch : ch.Proper m) (hl : LeftAlone p s (a, ch)) (hser : Serial m p s (a, ch))
    (hf : s.Affine m p) : s'.Affine m p := by
  constructor
  · exact fun b e hb he => h.setting_one hch hser hf hb he
  · rintro b r d hb rfl
    exact h.bound_allowed hs hacc hl hf hb
  · exact fun b hb hw => h.waking_allowed hs hT hl hser hf hb hw
  · intro hb'
    rcases h.birth p with hb | ⟨-, hb⟩ | ⟨-, hb, -⟩ | ⟨hplace, -⟩
    · exact h.placed hs hT hf (hb ▸ hb') hb'
    · rw [hb] at hb'
      cases hb'
    · rw [hb] at hb'
      cases hb'
    · -- the task is put on the CPU of the path that wakes it up
      have hcpu : s.cpu p = m.home a := hs.knows_at hplace rfl hT
      have hall := hf.waking a (by rw [hplace]; rfl) (by rw [hplace]; rfl)
      left
      cases h with
      | forkPut x hx => exact (congrArg (s.allowed p) hcpu).trans hall
      | _ => exact absurd (hplace.symm.trans ‹s.place a = _›) (by rintro ⟨⟩)

theorem Stepped.affine (h : Stepped m a s ch s') (hs : s.Sound m T) (hT : T p)
    (hacc : s.Accounts m) (hch : ch.Proper m) (hl : LeftAlone p s (a, ch))
    (hser : Serial m p s (a, ch)) (hf : s.Affine m p) : s'.Affine m p := by
  rcases h.sort with hact | ⟨l, q, rfl, hq⟩
  · exact hact.affine hs hT hacc hch hl hser hf
  · have hsame : ∀ {α : Type} (f : Place n A → α), f q = f (s.place a) →
        ∀ b, f (Function.update s.place a q b) = f (s.place b) := by
      intro α f hfq b
      by_cases hb : b = a
      · subst hb
        simpa using hfq
      · rw [Function.update_of_ne hb]
    constructor
    · intro b d hb hd
      exact hf.one b d ((hsame _ hq.setting b).symm.trans hb) ((hsame _ hq.setting d).symm.trans hd)
    · intro b r d hb
      exact hf.bound b r d ((hsame _ hq.bound b).symm.trans hb)
    · intro b hb hw
      exact hf.waking b ((hsame _ hq.task b).symm.trans hb) ((hsame _ hq.stage b).symm.trans hw)
    · intro hb
      rcases hf.placed hb with hall | ⟨x, mask, rq, hx⟩ | ⟨r, hr, hrp⟩
      · exact Or.inl hall
      · have hxa : x ≠ a := by
          rintro rfl
          rw [hx] at hq
          cases hq
        exact Or.inr (Or.inl ⟨x, mask, rq, (Function.update_of_ne hxa ..).trans hx⟩)
      · refine Or.inr (Or.inr ⟨r, ?_, hrp⟩)
        have hdue : ({ s with locked := l }.goto a q).due m = s.due m :=
          requests_congr rfl (by rw [goto_self, hq.due]) fun b hb => goto_of_ne hb
        rwa [hdue]

omit [DecidableEq A] in
theorem SmpState.Booted.affine (h : s.Booted m) : s.Affine m p := by
  constructor
  · intro a b ha
    rw [h.out] at ha
    cases ha
  · intro a r d ha
    rw [h.out] at ha
    cases ha
  · intro a ha
    rw [h.out] at ha
    cases ha
  · exact fun _ => Or.inl (h.allowed p)

variable {u : SmpState n A} {os : List (A × PathChoice n)}

theorem SerialRun.affine (h : SerialRun m p os s u) : u.Affine m p := by
  have hT : m.OwnAnd p p := Or.inl rfl
  have hops := ((Along.of_forall (C := fun _ o => o.2.Proper m) fun o ho _ => h.proper o ho).and
    h.alone).and h.serial
  have hall : u.Sound m (m.OwnAnd p) ∧ u.Accounts m ∧ u.Affine m p := by
    refine run_invariant (I := fun t => t.Sound m (m.OwnAnd p) ∧ t.Accounts m ∧ t.Affine m p) ?_
      ⟨h.booted.sound fun _ hq => Or.inr hq, h.booted.accounts, h.booted.affine⟩ hops h.run
    rintro t ⟨b, ch⟩ t' ⟨hs, hacc, hf⟩ ⟨⟨hch, hl⟩, hser⟩ ht
    have hst : Stepped m b t ch t' := step_stepped ht
    exact ⟨smpStep_soundOf hs hch hl ht, hst.accounts hs hch hacc,
      hst.affine hs hT hacc hch hl hser hf⟩
  exact hall.2.2

/-- Affinity: a task that has been woken up for the first time, and that no `set_cpus_allowed` is
under way for, belongs to a CPU that its mask allows, and runs and is queued on no other. -/
theorem affinity_kept (h : SerialRun m p os s u) (hb : u.birth p = .woken)
    (hp : ∀ b, (u.place b).setting ≠ some p) :
    u.allowed p (u.cpu p) = true ∧ (∀ c, u.curr c = p → u.allowed p c = true) ∧
      ∀ c, u.array p = some c → u.allowed p c = true := by
  have hT : m.OwnAnd p p := Or.inl rfl
  have hu := h.soundOf h.alone
  obtain ⟨hacc, -⟩ := h.toSmpRun.accounts
  have hno : ∀ c, ∀ r ∈ u.pending m c, r.task ≠ p := by
    rintro c r hr rfl
    exact hp r.caller (Place.setting_of_awaits (hacc.tasks c r hr))
  have hall : u.allowed p (u.cpu p) = true := by
    rcases h.affine.placed hb with hall | ⟨x, mask, rq, hx⟩ | ⟨r, hr, hrp⟩
    · exact hall
    · exact absurd (by rw [hx]; rfl) (hp x)
    · exact absurd hrp (hno _ r (pending_of_due hr))
  refine ⟨hall, ?_, ?_⟩
  · rintro c rfl
    rwa [hu.curr c hT] at hall
  · intro c hc
    rcases hu.placed p c hT hc with hcpu | ⟨x, r, d, hx, hrp⟩
    · rwa [hcpu] at hall
    · exact absurd hrp (hno _ r (hu.pending_of_inHand (by rw [hx]; rfl)))

theorem migrated_run : ∃ u, SerialRun twoCpus 4 migrated twoBooted u ∧ u.birth 4 = .woken ∧
    (∀ b, (u.place b).setting ≠ some 4) ∧ u.allowed 4 0 = false ∧ u.cpu 4 = 1 := by
  have hproper : ∀ o ∈ migrated, o.2.Proper twoCpus := by
    simp [migrated, migration, PathChoice.Proper, Errand.Proper, Cpus.Movable, twoCpus]
  have hview : (run (smpExec twoCpus) migrated twoBooted).map (fun u =>
      (u.birth 4, decide (∀ b, (u.place b).setting ≠ some 4), u.allowed 4 0, u.cpu 4)) =
        some (.woken, true, false, 1) := by
    decide +kernel
  have halone : ForkAlone twoCpus 4 migrated twoBooted :=
    forkAlone_of_woken rfl (by simp [migrated, migration])
  have hserial : Along (smpExec twoCpus) (Serial twoCpus 4) migrated twoBooted := by
    -- the first step is the only call, and then all paths are out
    have hrest : ∀ o ∈ migrated.tail, (∀ mask, o.2 ≠ .call 4 (.setAllowed mask)) ∧
        o.2 ≠ .wakeForked 4 := by
      simp [migrated, migration]
    refine ⟨⟨fun mask _ b => ?_, by rintro ⟨⟩⟩, fun t _ => Along.of_forall fun o ho u => ?_⟩
    · simp [twoBooted, Place.setting]
    · obtain ⟨hcall, hwake⟩ := hrest o ho
      exact ⟨fun mask he => absurd he (hcall mask), fun he => absurd he hwake⟩
  obtain ⟨u, hu, hall⟩ := Option.map_eq_some_iff.mp hview
  simp only [Prod.mk.injEq, decide_eq_true_eq] at hall
  exact ⟨u, ⟨⟨twoBooted_booted, hproper, hu⟩, halone, hserial⟩, hall⟩

theorem affinity_kept_migrated : ∃ u, SerialRun twoCpus 4 migrated twoBooted u ∧
    u.birth 4 = .woken ∧ (∀ b, (u.place b).setting ≠ some 4) ∧ u.cpu 4 = 1 ∧
    (u.allowed 4 (u.cpu 4) = true ∧ (∀ c, u.curr c = 4 → u.allowed 4 c = true) ∧
      ∀ c, u.array 4 = some c → u.allowed 4 c = true) := by
  obtain ⟨u, hrun, hbirth, hset, -, hcpu⟩ := migrated_run
  exact ⟨u, hrun, hbirth, hset, hcpu, affinity_kept hrun hbirth hset⟩

/-- Without `Serial`, a mask that is set while the migration thread goes on with the one before
is not kept: the task ends on CPU 1, which the later call has forbidden. -/
example : ((run (smpExec twoCpus) (migration.take 22 ++
    (4, .call 4 (.setAllowed ![true, false])) :: List.replicate 6 (4, .run) ++
    List.replicate 10 (0, .run) ++ [(2, .run)]) twoBooted).map fun u =>
      (decide (∀ b, (u.place b).setting ≠ some 4), u.allowed 4 1, u.cpu 4)) =
    some (true, false, 1) := by
  decide +kernel

end
end ShortSched
