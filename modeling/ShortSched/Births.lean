import ShortSched.LockOwners

/-! Which task a path works on, and what is known of a task while it is being forked. -/
namespace ShortSched
open Locks

variable {n : ℕ} {A : Type}

/-- A task that is no CPU's own. -/
def Cpus.Movable (m : Cpus n A) (p : TaskId) : Prop :=
  ∀ c, p ≠ m.idle c ∧ p ≠ m.migrationThread c

/-- Errands that come up: none concerns an idle task, new masks are for movable tasks and have a
CPU, and `kick` wakes a migration thread. -/
def Errand.Proper (m : Cpus n A) (p : TaskId) (e : Errand n) : Prop :=
  (∀ c, p ≠ m.idle c) ∧
    match e with
    | .setAllowed mask => m.Movable p ∧ ∃ c, mask c = true
    | .kick _ => ∃ c, p = m.migrationThread c
    | _ => True

/-- Calls come for the errands that callers have, and a fork makes no task that is a CPU's own. -/
def PathChoice.Proper (m : Cpus n A) : PathChoice n → Prop
  | call p e => e.Proper m p ∧ ∀ q, e ≠ .kick q
  | fork p => m.Movable p
  | _ => True

/-- The task that a path works on. -/
def Place.task : Place n A → Option TaskId
  | repeatLockTask p _ | lockTask p _ _ | recheck p _ _ | holding p _ _ | masked p _ _
  | unlockTask _ (.again p _) | pulled _ p | carried _ p | lockForked p | forkLocked p
  | forkPlaced p => some p
  | unlockOwn (some r) | readDest r | readSrc r _ | lockFirst r _ _ | lockSecond r _ _
  | checkSrc r _ _ | moveCpu r _ _ | dequeue r _ _ | enqueue r _ _ | unlockSrc r _ _ _
  | unlockDest r _ _ | up r => some r.task
  | _ => none

/-- How far the fork of the task that a path works on should have come. -/
def Place.stage : Place n A → Birth
  | lockForked _ | forkLocked _ | forkPlaced _ => .waking
  | _ => .woken

/-- A task that is neither running nor queued, and whose migration nobody has asked for. -/
structure SmpState.Resting (s : SmpState n A) (p : TaskId) : Prop where
  array : s.array p = none
  curr : ∀ c, s.curr c ≠ p
  requests : ∀ c, ∀ r ∈ s.migrationQueue c, r.task ≠ p

/-- A task_struct that is free to be allocated: nobody works on it. -/
structure SmpState.Unused (s : SmpState n A) (p : TaskId) : Prop extends s.Resting p where
  task : ∀ a, (s.place a).task ≠ some p

/-- A fork gets a task_struct that is unused, and no call concerns the task before it has been
woken up for the first time. -/
structure LeftAlone (p : TaskId) (s : SmpState n A) (o : A × PathChoice n) : Prop where
  call : ∀ e, o.2 = .call p e → s.birth p = .woken
  fork : o.2 = .fork p → s.Unused p

theorem LeftAlone.of_ne {p : TaskId} {s : SmpState n A} {o : A × PathChoice n}
    (hc : ∀ e, o.2 ≠ .call p e) (hf : o.2 ≠ .fork p) : LeftAlone p s o :=
  ⟨fun e he => absurd he (hc e), fun he => absurd he hf⟩

/-- What holds of a task that is left alone in its fork. -/
structure SmpState.Born (s : SmpState n A) (p : TaskId) : Prop where
  stage : ∀ a, (s.place a).task = some p → s.birth p = (s.place a).stage
  alone : s.birth p = .waking →
    ∀ a b, (s.place a).task = some p → (s.place b).task = some p → a = b
  resting : s.birth p ≠ .woken → s.Resting p

section
variable {m : Cpus n A} {a : A} {s s' : SmpState n A} {p : TaskId} {c : Fin n}

theorem stage_ne_copied (q : Place n A) : q.stage ≠ .copied := by
  cases q <;> rintro ⟨⟩

theorem LockStep.task {q q' : Place n A} (h : LockStep q q') : q'.task = q.task := by
  cases h with
  | unlockTask rq k => cases k <;> rfl
  | unlockOne r c d again | unlockDest r d again => cases again <;> rfl
  | _ => rfl

theorem LockStep.stage {q q' : Place n A} (h : LockStep q q') : q'.stage = q.stage := by
  cases h with
  | unlockTask rq k => cases k <;> rfl
  | unlockOne r c d again | unlockDest r d again => cases again <;> rfl
  | _ => rfl

/-- Whoever works on a task that is being woken up for the first time does so alone. -/
theorem SmpState.Born.waking (h : s.Born p) (ha : (s.place a).task = some p)
    (hw : (s.place a).stage = .waking) : ∀ b, b ≠ a → (s.place b).task ≠ some p := by
  intro b hba hb
  exact hba (h.alone ((h.stage a ha).trans hw) b a hb ha)

variable [DecidableEq A] {ch : PathChoice n}

theorem Acted.birth (h : Acted m a s ch s') (p : TaskId) :
    s'.birth p = s.birth p ∨ ch = .fork p ∧ s'.birth p = .copied ∨
      s.birth p = .copied ∧ s'.birth p = .waking ∧ s'.place a = .lockForked p ∨
        s.place a = .forkPlaced p ∧ s'.birth p = .woken ∧ s'.place a = .unlockThis := by
  cases h with
  | fork q hp =>
    by_cases hq : p = q
    · subst hq
      exact Or.inr (Or.inl ⟨rfl, Function.update_self ..⟩)
    · exact Or.inl (Function.update_of_ne hq ..)
  | wakeForked q hp hb =>
    by_cases hq : p = q
    · subst hq
      exact Or.inr (Or.inr (Or.inl ⟨hb, Function.update_self .., goto_self⟩))
    · exact Or.inl (Function.update_of_ne hq ..)
  | forkPut q hp =>
    by_cases hq : p = q
    · subst hq
      exact Or.inr (Or.inr (Or.inr ⟨hp, Function.update_self .., goto_self⟩))
    · exact Or.inl (Function.update_of_ne hq ..)
  | _ => exact Or.inl rfl

/-- How a path comes to work on a task. -/
theorem Acted.task (h : Acted m a s ch s') (hp : (s'.place a).task = some p) :
    (s.place a).task = some p ∧ (s'.place a).stage = (s.place a).stage ∨
      (s'.place a).stage = .woken ∧ ((∃ e, ch = .call p e) ∨ ¬ m.Movable p ∨ ¬ s.Resting p) ∨
        ch = .wakeForked p ∧ s.birth p = .copied ∧ s'.birth p = .waking := by
  cases h with
  | sleep | deactivate | switch | fork => exact Or.inl ⟨hp, rfl⟩
  | call q e hq =>
    rw [goto_self] at hp ⊢
    cases hp
    exact Or.inr (Or.inl ⟨rfl, Or.inl ⟨e, rfl⟩⟩)
  | wakeForked q hq hb =>
    rw [goto_self] at hp ⊢
    cases hp
    exact Or.inr (Or.inr ⟨rfl, hb, Function.update_self ..⟩)
  | request q mask rq hq =>
    rw [goto_self] at hp ⊢
    cases hp
    exact Or.inr (Or.inl ⟨rfl, Or.inr (Or.inl fun hm => (hm rq).2 rfl)⟩)
  | pull b q hq harr =>
    rw [goto_self] at hp ⊢
    cases hp
    refine Or.inr (Or.inl ⟨rfl, Or.inr (Or.inr fun hrest => ?_)⟩)
    rw [hrest.array] at harr
    cases harr
  | takeRequest r rs hq hqueue =>
    rw [goto_self] at hp ⊢
    cases hp
    refine Or.inr (Or.inl ⟨rfl, Or.inr (Or.inr fun hrest => ?_)⟩)
    exact hrest.requests _ r (hqueue ▸ List.mem_cons_self) rfl
  | activate q e rq k hq hk | awake q e rq k hq hk =>
    rw [goto_self] at hp
    cases e <;> cases hk <;> cases hp
  | look q e hq | missed q e rq hq | got q e rq hq | fastMigrate q e rq hq | mask q mask rq hq
  | carry b q hq | dest r d hq | src r d hq | stale r d e hq | fresh r d e hq | move r d e hq
  | elsewhere r d e hq | idleMoved r d e hq | dequeue r d e hq | enqueue r d e hq
  | forkCpu q hq =>
    rw [goto_self] at hp ⊢
    rw [hq]
    exact Or.inl ⟨hp, rfl⟩
  | _ =>
    rw [goto_self] at hp
    cases hp

/-- Whoever puts a task on a queue works on it. -/
theorem Acted.enqueues (h : Acted m a s ch s') (hp : s.array p = none) :
    s'.array p = none ∨ (s.place a).task = some p := by
  have hset : ∀ {q : TaskId} {o : Option (Fin n)}, (o = none ∨ (s.place a).task = some q) →
      Function.update s.array q o p = none ∨ (s.place a).task = some p := by
    intro q o ho
    by_cases hq : p = q
    · subst hq
      rwa [Function.update_self]
    · exact Or.inl ((Function.update_of_ne hq ..).trans hp)
  cases h with
  | activate q e rq k hq | put b q hq | enqueue r d e hq | forkPut q hq =>
    exact hset (Or.inr (by rw [hq]; rfl))
  | fork | deactivate | pull | dequeue => exact hset (Or.inl rfl)
  | _ => exact Or.inl hp

/-- Who gets the processor is an idle task, or was queued. -/
theorem Acted.resumes (h : Acted m a s ch s') (hp : s'.curr c = p) :
    s.curr c = p ∨ p = m.idle c ∨ s.array p = some c := by
  cases h with
  | switch q hq hqueue =>
    by_cases hc : c = m.home a
    · subst hc
      have hpq : q = p := (Function.update_self ..).symm.trans hp
      exact Or.inr (hpq ▸ hqueue)
    · exact Or.inl ((Function.update_of_ne hc ..).symm.trans hp)
  | _ => exact Or.inl hp

/-- Whoever asks for the migration of a task works on it. -/
theorem Acted.asks {r : MigrationReq A} (h : Acted m a s ch s') (hr : r ∈ s'.migrationQueue c) :
    r ∈ s.migrationQueue c ∨ ∃ mask rq, s.place a = .masked r.task mask rq := by
  cases h with
  | request q mask rq hq =>
    by_cases hc : c = rq
    · subst hc
      have hmem : r ∈ (⟨q, a⟩ :: s.migrationQueue c : List (MigrationReq A)) := by
        simpa [SmpState.goto] using hr
      rcases List.mem_cons.mp hmem with rfl | hmem
      · exact Or.inr ⟨mask, c, hq⟩
      · exact Or.inl hmem
    · exact Or.inl (by simpa [SmpState.goto, hc] using hr)
  | takeRequest x rs hp hq =>
    by_cases hc : c = m.home a
    · subst hc
      have hmem : r ∈ rs := by simpa [SmpState.goto] using hr
      exact Or.inl (hq ▸ List.mem_cons_of_mem _ hmem)
    · exact Or.inl (by simpa [SmpState.goto, SmpState.setState, hc] using hr)
  | _ => exact Or.inl hr

/-- A task that is at rest stays so as long as nobody works on it. -/
theorem Acted.resting (h : Acted m a s ch s') (hs : s.Resting p) (hm : m.Movable p)
    (hp : (s.place a).task ≠ some p) : s'.Resting p := by
  constructor
  · exact (h.enqueues hs.array).resolve_right hp
  · intro c hc
    rcases h.resumes hc with hc | rfl | hc
    · exact hs.curr c hc
    · exact (hm c).1 rfl
    · rw [hs.array] at hc
      cases hc
  · rintro c r hr rfl
    rcases h.asks hr with hr | ⟨mask, rq, hplace⟩
    · exact hs.requests c r hr rfl
    · exact hp (by rw [hplace]; rfl)

/-- `wake_up_forked_process` up to its `activate_task` leaves the task at rest. -/
theorem Acted.wakes (h : Acted m a s ch s') (hw : (s.place a).stage = .waking)
    (hs : s.Resting p) :
    s'.Resting p ∨ ∃ q, s.place a = .forkPlaced q ∧ s'.birth q = .woken := by
  cases h with
  | forkCpu q hp => exact Or.inl ⟨hs.array, hs.curr, hs.requests⟩
  | forkPut q hp => exact Or.inr ⟨q, hp, Function.update_self ..⟩
  | _ =>
    rw [‹s.place a = _›] at hw
    cases hw

omit [DecidableEq A] in
theorem SmpState.Born.not_copied (h : s.Born p) (hc : s.birth p = .copied) (b : A) :
    (s.place b).task ≠ some p :=
  fun hp => stage_ne_copied _ ((h.stage b hp).symm.trans hc)

omit [DecidableEq A] in
/-- For any other reason than its first wake-up, paths come to work on a task after it. -/
theorem SmpState.Born.over_of (h : s.Born p) (hown : ¬ m.Movable p → s.birth p = .woken)
    (hl : LeftAlone p s (a, ch)) (hwhy : (∃ e, ch = .call p e) ∨ ¬ m.Movable p ∨ ¬ s.Resting p) :
    s.birth p = .woken := by
  rcases hwhy with ⟨e, he⟩ | hm | hrest
  · exact hl.call e he
  · exact hown hm
  · exact not_not.mp (mt h.resting hrest)

/-- Who works on a task whose fork has not come further. -/
theorem Acted.stage_same (h : Acted m a s ch s') (hb : s.Born p)
    (hover : (∃ e, ch = .call p e) ∨ ¬ m.Movable p ∨ ¬ s.Resting p → s.birth p = .woken)
    (hsame : s'.birth p = s.birth p) {b : A} (hp : (s'.place b).task = some p) :
    s.birth p = (s'.place b).stage ∧ ((s.place b).task = some p ∨ s.birth p = .woken) := by
  by_cases hba : b = a
  · subst hba
    rcases h.task hp with ⟨hold, hstage⟩ | ⟨hstage, hwhy⟩ | ⟨-, hold, hnew⟩
    · exact ⟨(hb.stage b hold).trans hstage.symm, Or.inl hold⟩
    · exact ⟨(hover hwhy).trans hstage.symm, Or.inr (hover hwhy)⟩
    · rw [hsame, hold] at hnew
      cases hnew
  · rw [h.place_ne hba] at hp ⊢
    exact ⟨hb.stage b hp, Or.inl hp⟩

theorem Acted.born_same (h : Acted m a s ch s') (hb : s.Born p)
    (hown : ¬ m.Movable p → s.birth p = .woken) (hl : LeftAlone p s (a, ch))
    (hsame : s'.birth p = s.birth p) : s'.Born p := by
  have hstage := fun {b} => h.stage_same hb (hb.over_of hown hl) hsame (b := b)
  constructor
  · exact fun b hp => hsame.trans (hstage hp).1
  · intro hw x y hx hy
    rw [hsame] at hw
    have hn : s.birth p ≠ .woken := by
      rw [hw]
      rintro ⟨⟩
    exact hb.alone hw x y ((hstage hx).2.resolve_right hn) ((hstage hy).2.resolve_right hn)
  · intro hn
    rw [hsame] at hn
    by_cases hp : (s.place a).task = some p
    · have hw : (s.place a).stage = .waking := by
        cases hst : (s.place a).stage with
        | waking => rfl
        | woken => exact absurd ((hb.stage a hp).trans hst) hn
        | copied => exact absurd hst (stage_ne_copied _)
      rcases h.wakes hw (hb.resting hn) with hrest | ⟨q, hq, hnew⟩
      · exact hrest
      · rw [hq] at hp
        cases hp
        exact absurd (hsame.symm.trans hnew) hn
    · exact h.resting (hb.resting hn) (not_not.mp fun hm => hn (hown hm)) hp

theorem Acted.born_fork (h : Acted m a s (.fork p) s') (hl : s.Unused p) : s'.Born p := by
  cases h with
  | fork q hp =>
    constructor
    · exact fun b hb => absurd hb (hl.task b)
    · exact fun _ b d hb => absurd hb (hl.task b)
    · exact fun _ => ⟨Function.update_self .., hl.curr, hl.requests⟩

/-- `wake_up_forked_process` is called. -/
theorem Acted.born_waking (h : Acted m a s ch s') (hb : s.Born p)
    (hown : ¬ m.Movable p → s.birth p = .woken) (hold : s.birth p = .copied)
    (hnew : s'.birth p = .waking) (hplace : s'.place a = .lockForked p) : s'.Born p := by
  have hn : s.birth p ≠ .woken := by
    rw [hold]
    rintro ⟨⟩
  have honly : ∀ b, (s'.place b).task = some p → b = a := by
    intro b hp
    by_contra hba
    exact hb.not_copied hold b (h.place_ne hba ▸ hp)
  constructor
  · intro b hp
    rw [honly b hp, hplace, hnew]
    rfl
  · exact fun _ x y hx hy => (honly x hx).trans (honly y hy).symm
  · intro _
    exact h.resting (hb.resting hn) (not_not.mp fun hm => hn (hown hm)) (hb.not_copied hold a)

/-- `wake_up_forked_process` has put the task on a queue. -/
theorem Acted.born_woken (h : Acted m a s ch s') (hb : s.Born p)
    (hplace : s.place a = .forkPlaced p) (hnew : s'.birth p = .woken)
    (hout : s'.place a = .unlockThis) : s'.Born p := by
  have hp : (s.place a).task = some p := by rw [hplace]; rfl
  have hw : (s.place a).stage = .waking := by rw [hplace]; rfl
  constructor
  · intro b hb'
    by_cases hba : b = a
    · subst hba
      rw [hout] at hb'
      cases hb'
    · exact absurd (h.place_ne hba ▸ hb') (hb.waking hp hw b hba)
  · rw [hnew]
    rintro ⟨⟩
  · exact fun hn => absurd hnew hn

/-- Every statement keeps what holds of a task that is left alone in its fork. -/
theorem Acted.born (h : Acted m a s ch s') (hb : s.Born p)
    (hown : ¬ m.Movable p → s.birth p = .woken) (hl : LeftAlone p s (a, ch)) : s'.Born p := by
  rcases h.birth p with hsame | ⟨rfl, -⟩ | ⟨hold, hnew, hplace⟩ | ⟨hplace, hnew, hout⟩
  · exact h.born_same hb hown hl hsame
  · exact h.born_fork (hl.fork rfl)
  · exact h.born_waking hb hown hold hnew hplace
  · exact h.born_woken hb hplace hnew hout

/-- Locks do not matter for it. -/
theorem LockStep.born {q : Place n A} {l : Fin n → Bool} (h : LockStep (s.place a) q)
    (hb : s.Born p) : ({ s with locked := l }.goto a q).Born p := by
  have hsame : ∀ b, (Function.update s.place a q b).task = (s.place b).task ∧
      (Function.update s.place a q b).stage = (s.place b).stage := by
    intro b
    by_cases hba : b = a
    · subst hba
      rw [Function.update_self]
      exact ⟨h.task, h.stage⟩
    · rw [Function.update_of_ne hba]
      exact ⟨rfl, rfl⟩
  constructor
  · intro b hp
    exact (hb.stage b ((hsame b).1.symm.trans hp)).trans (hsame b).2.symm
  · intro hw b d hp hd
    exact hb.alone hw b d ((hsame b).1.symm.trans hp) ((hsame d).1.symm.trans hd)
  · intro hn
    obtain ⟨harr, hcurr, hreq⟩ := hb.resting hn
    exact ⟨harr, hcurr, hreq⟩

omit [DecidableEq A] in
/-- A task that is a CPU's own is never forked. -/
theorem leftAlone_own (hown : ¬ m.Movable p → s.birth p = .woken) (hch : ch.Proper m)
    (hp : ¬ m.Movable p) : LeftAlone p s (a, ch) := by
  constructor
  · exact fun _ _ => hown hp
  · rintro rfl
    exact absurd hch hp

theorem Acted.own (h : Acted m a s ch s') (hch : ch.Proper m) (hp : ¬ m.Movable p)
    (hown : s.birth p = .woken) : s'.birth p = .woken := by
  rcases h.birth p with hsame | ⟨rfl, -⟩ | ⟨hold, -⟩ | ⟨-, hnew, -⟩
  · exact hsame.trans hown
  · exact absurd hch hp
  · rw [hown] at hold
    cases hold
  · exact hnew

end
end ShortSched
