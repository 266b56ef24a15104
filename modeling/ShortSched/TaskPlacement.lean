import ShortSched.Births

/-! Tasks stay where the lock holders see them, and are queued on the CPU that they belong to. -/
namespace ShortSched
open Locks

variable {n : ℕ} {A : Type}

/-- The tasks at a place are fit for what is done with them. -/
def Place.Proper (m : Cpus n A) : Place n A → Prop
  | repeatLockTask p e | lockTask p e _ | recheck p e _ | holding p e _ => e.Proper m p
  | masked p mask _ => m.Movable p ∧ ∃ c, mask c = true
  | unlockTask _ (.again p e) => e.Proper m p
  | pulled _ p | carried _ p => ∀ c, p ≠ m.idle c
  | lockForked p | forkLocked p | forkPlaced p => m.Movable p
  | unlockOwn (some r) | readDest r | readSrc r _ | lockFirst r _ _ | lockSecond r _ _
  | checkSrc r _ _ | moveCpu r _ _ | dequeue r _ _ | enqueue r _ _ | unlockSrc r _ _ _
  | unlockDest r _ _ => m.Movable r.task
  | _ => True

/-- In the loop of `migration_thread`. -/
def Place.Migrating : Place n A → Prop
  | lockOwn | ownQueue | unlockOwn _ | readDest _ | readSrc _ _ | lockFirst _ _ _
  | lockSecond _ _ _ | checkSrc _ _ _ | moveCpu _ _ _ | dequeue _ _ _ | enqueue _ _ _
  | unlockSrc _ _ _ _ | unlockDest _ _ _ | up _ => True
  | _ => False

/-- What a path knows of the task that it works on, and a migration thread of its requests. -/
def Place.Knows (me : Fin n) (s : SmpState n A) : Place n A → Prop
  | holding p _ rq => s.cpu p = rq
  | masked p mask rq => s.cpu p = rq ∧ s.allowed p = mask
  | pulled b p => s.cpu p = b ∧ s.array p = none ∧ p ≠ s.curr b ∧ s.allowed p me = true
  | carried _ p => s.cpu p = me ∧ s.array p = none
  | moveCpu r src _ => s.cpu r.task = src
  | dequeue r src dest =>
    s.cpu r.task = dest ∧ (s.array r.task = none ∨ s.array r.task = some src)
  | enqueue r _ dest => s.cpu r.task = dest ∧ s.array r.task = none
  | forkPlaced p => s.cpu p = me
  | unlockOwn none => s.migrationQueue me = []
  | _ => True

/-- Places where a path changes the task that it works on and knows where it is. -/
def Place.Owns : Place n A → Prop
  | holding _ _ _ | masked _ _ _ | pulled _ _ | carried _ _ | moveCpu _ _ _ | dequeue _ _ _
  | enqueue _ _ _ | forkPlaced _ => True
  | _ => False

/-- What holds between the statements, for the tasks `T`. A task is queued on its CPU, unless the
migration thread is just taking it from one CPU to another. -/
structure SmpState.Sound (m : Cpus n A) (T : TaskId → Prop) (s : SmpState n A) : Prop where
  locking : s.Locking m
  proper : ∀ a, (s.place a).Proper m
  tracked : ∀ p, ¬ m.Movable p → T p
  own : ∀ p, ¬ m.Movable p → s.birth p = .woken
  born : ∀ p, T p → s.Born p
  knows : ∀ a, (∀ p, (s.place a).task = some p → T p) → (s.place a).Knows (m.home a) s
  placed : ∀ p c, T p → s.array p = some c →
    s.cpu p = c ∨ ∃ a r d, s.place a = .dequeue r c d ∧ r.task = p
  curr : ∀ c, T (s.curr c) → s.cpu (s.curr c) = c
  migrating : ∀ a, (s.place a).Migrating → a = m.thread (m.home a) ∧
    s.curr (m.home a) = m.migrationThread (m.home a)
  requests : ∀ c, ∀ r ∈ s.migrationQueue c, m.Movable r.task
  threads : ∀ c, s.cpu (m.migrationThread c) = c ∧
    ∀ d, s.allowed (m.migrationThread c) d = true → d = c
  idles : ∀ c, s.cpu (m.idle c) = c ∧ s.array (m.idle c) = none
  masks : ∀ p, ∃ c, s.allowed p c = true

section
variable {m : Cpus n A} {T : TaskId → Prop} {a : A} {s s' : SmpState n A} {p : TaskId} {c : Fin n}

/-- Where a queued task is, if the path holds the lock of the queue and is not the one that moves
the task. -/
theorem SmpState.Sound.queued (h : s.Sound m T) (hT : T p) (hp : s.array p = some c)
    (hc : c ∈ s.holds m a) (ha : ∀ r c d, s.place a ≠ .dequeue r c d) : s.cpu p = c := by
  rcases h.placed p c hT hp with hcpu | ⟨x, r, d, hx, -⟩
  · exact hcpu
  · have hxc : c ∈ s.holds m x := by
      unfold SmpState.holds
      rw [hx]
      simp [Place.holds]
    obtain rfl := h.locking.exclusive.unique c a x hc hxc
    exact absurd hx (ha r c d)

theorem holds_of_place {q : Place n A} (h : s.place a = q) (hc : c ∈ q.holds (m.home a)) :
    c ∈ s.holds m a := by
  unfold SmpState.holds
  rwa [h]

theorem SmpState.Sound.knows_at {q : Place n A} (hs : s.Sound m T) (h : s.place a = q)
    (hq : q.task = some p) (hT : T p) : q.Knows (m.home a) s := by
  subst h
  apply hs.knows a
  intro r hr
  exact Option.some.inj (hq.symm.trans hr) ▸ hT

theorem SmpState.Sound.tracked_thread (hs : s.Sound m T) (c : Fin n) : T (m.migrationThread c) :=
  hs.tracked _ fun hmov => (hmov c).2 rfl

theorem SmpState.Sound.curr_ne (hs : s.Sound m T) (hT : T p) (h : s.curr (s.cpu p) ≠ p)
    (c : Fin n) : s.curr c ≠ p := by
  rintro rfl
  rw [hs.curr c hT] at h
  exact h rfl

theorem SmpState.Sound.proper_at {q : Place n A} (hs : s.Sound m T) (h : s.place a = q) :
    q.Proper m := h ▸ hs.proper a

/-- Where a path changes a task, it holds the lock of its runqueue. -/
theorem Place.Knows.mem_holds {me : Fin n} {q : Place n A} (h : q.Knows me s)
    (hp : q.task = some p) (hq : q.Owns) : s.cpu p ∈ q.holds me := by
  cases q with
  | holding x e rq | moveCpu x src dest | forkPlaced x =>
    cases hp
    have hx : s.cpu _ = _ := h
    simp [Place.holds, hx]
  | masked x mask rq | pulled b x | carried b x | dequeue x src dest | enqueue x src dest =>
    cases hp
    simp [Place.holds, h.1]
  | _ => cases hq

/-- What a path knows stays true as long as nobody touches what its locks protect. -/
theorem Place.Knows.frame {me : Fin n} {q : Place n A} (h : q.Knows me s)
    (htask : ∀ p, q.task = some p → s.cpu p ∈ q.holds me →
      s'.cpu p = s.cpu p ∧ s'.array p = s.array p ∧ s'.allowed p = s.allowed p)
    (hcurr : ∀ c ∈ q.holds me, s'.curr c = s.curr c)
    (hqueue : ∀ c ∈ q.holds me, s'.migrationQueue c = s.migrationQueue c) : q.Knows me s' := by
  cases q with
  | holding p e rq =>
    have hp : s.cpu p = rq := h
    exact (htask p rfl (by simp [Place.holds, hp])).1.trans hp
  | masked p mask rq =>
    obtain ⟨hcpu, -, hmask⟩ := htask p rfl (by simp [Place.holds, h.1])
    exact ⟨hcpu.trans h.1, hmask.trans h.2⟩
  | pulled b p =>
    obtain ⟨hcpu, harr, hmask⟩ := htask p rfl (by simp [Place.holds, h.1])
    obtain ⟨h1, h2, h3, h4⟩ := h
    have hb := hcurr b (by simp [Place.holds])
    exact ⟨hcpu.trans h1, harr.trans h2, hb ▸ h3, by rw [hmask, h4]⟩
  | carried b p =>
    obtain ⟨hcpu, harr, -⟩ := htask p rfl (by simp [Place.holds, h.1])
    exact ⟨hcpu.trans h.1, harr.trans h.2⟩
  | moveCpu r src dest =>
    have hp : s.cpu r.task = src := h
    exact (htask r.task rfl (by simp [Place.holds, hp])).1.trans hp
  | dequeue r src dest | enqueue r src dest =>
    obtain ⟨hcpu, harr, -⟩ := htask r.task rfl (by simp [Place.holds, h.1])
    exact ⟨hcpu.trans h.1, harr ▸ h.2⟩
  | forkPlaced p =>
    have hp : s.cpu p = me := h
    exact (htask p rfl (by simp [Place.holds, hp])).1.trans hp
  | unlockOwn o =>
    cases o with
    | none => exact (hqueue me (by simp [Place.holds])).trans h
    | some r => trivial
  | _ => trivial

theorem Place.Migrating.not_out {q : Place n A} (h : q.Migrating) : q.isOut = false := by
  cases q with
  | out => cases h
  | _ => rfl

theorem LockStep.knows {q q' : Place n A} (h : LockStep q q') (me : Fin n) : q'.Knows me s := by
  cases h with
  | unlockTask rq k => cases k <;> trivial
  | unlockOne r c d again | unlockDest r d again => cases again <;> trivial
  | _ => trivial

theorem LockStep.proper {q q' : Place n A} (h : LockStep q q') (hq : q.Proper m) :
    q'.Proper m := by
  cases h with
  | unlockTask rq k => cases k <;> exact hq
  | unlockOne r c d again | unlockDest r d again => cases again <;> first | exact hq | trivial
  | lockTask | lockOne | lockFirst | lockSecond | unlockOwn | unlockSrc | lockForked => exact hq
  | _ => trivial

theorem LockStep.migrating {q q' : Place n A} (h : LockStep q q') (hq : q'.Migrating) :
    q.Migrating := by
  cases h with
  | unlockTask rq k => cases k <;> cases hq
  | lockOwn | lockOne | lockFirst | lockSecond | unlockOwn | unlockOne | unlockSrc
  | unlockDest => trivial
  | _ => cases hq

variable [DecidableEq A] {b : A} {ch : PathChoice n}

/-- The CPU, the queue and the mask of a task are changed under the lock of its runqueue only, but
for the copy of its fork and the first statement of its `wake_up_forked_process`. -/
theorem Acted.owner (h : Acted m a s ch s') (hs : s.Sound m T) (hT : T p) :
    s'.cpu p = s.cpu p ∧ s'.array p = s.array p ∧ s'.allowed p = s.allowed p ∨
      s.cpu p ∈ s.holds m a ∨ ch = .fork p ∨ s.place a = .forkLocked p := by
  have hone : ∀ {q : TaskId}, (p = q → s.cpu p ∈ s.holds m a) → (p ≠ q →
      s'.cpu p = s.cpu p ∧ s'.array p = s.array p ∧ s'.allowed p = s.allowed p) →
      s'.cpu p = s.cpu p ∧ s'.array p = s.array p ∧ s'.allowed p = s.allowed p ∨
        s.cpu p ∈ s.holds m a ∨ ch = .fork p ∨ s.place a = .forkLocked p := by
    intro q hmem hne
    by_cases hx : p = q
    · exact Or.inr (Or.inl (hmem hx))
    · exact Or.inl (hne hx)
  have hown : ∀ {q : TaskId} {x : Place n A}, s.place a = x → x.Owns → x.task = some q →
      p = q → s.cpu p ∈ s.holds m a := by
    rintro q x rfl hx hq rfl
    exact (hs.knows_at rfl hq hT).mem_holds hq hx
  cases h with
  | fork q hp =>
    by_cases hx : p = q
    · exact Or.inr (Or.inr (Or.inl (hx ▸ rfl)))
    · exact Or.inl ⟨Function.update_of_ne hx .., Function.update_of_ne hx ..,
        Function.update_of_ne hx ..⟩
  | forkCpu q hp =>
    by_cases hx : p = q
    · exact Or.inr (Or.inr (Or.inr (hx ▸ hp)))
    · exact Or.inl ⟨Function.update_of_ne hx .., rfl, rfl⟩
  | deactivate hp =>
    apply hone (q := s.curr (m.home a))
    · rintro rfl
      exact holds_of_place hp (by simp [Place.holds, hs.curr _ hT])
    · exact fun hne => ⟨rfl, Function.update_of_ne hne .., rfl⟩
  | pull b q hp harr =>
    apply hone (q := q)
    · rintro rfl
      have hb : b ∈ s.holds m a := holds_of_place hp (by simp [Place.holds])
      exact (hs.queued hT harr hb (by simp [hp])).symm ▸ hb
    · exact fun hne => ⟨rfl, Function.update_of_ne hne .., rfl⟩
  | fastMigrate q e rq hp | moveIdle q mask rq d hp | carry b q hp | move r c d hp =>
    apply hone (hown hp trivial rfl)
    exact fun hne => ⟨Function.update_of_ne hne .., rfl, rfl⟩
  | activate q e rq k hp | put b q hp | dequeue r c d hp | enqueue r c d hp | forkPut q hp =>
    apply hone (hown hp trivial rfl)
    exact fun hne => ⟨rfl, Function.update_of_ne hne .., rfl⟩
  | mask q mask rq hp =>
    apply hone (hown hp trivial rfl)
    exact fun hne => ⟨rfl, rfl, Function.update_of_ne hne ..⟩
  | _ => exact Or.inl ⟨rfl, rfl, rfl⟩

/-- Who runs on a CPU is changed under the lock of its runqueue only. -/
theorem Acted.owner_curr (h : Acted m a s ch s') (c : Fin n) :
    s'.curr c = s.curr c ∨ c ∈ s.holds m a := by
  cases h with
  | switch q hp =>
    by_cases hc : c = m.home a
    · exact Or.inr (holds_of_place hp (by simp [Place.holds, hc]))
    · exact Or.inl (Function.update_of_ne hc ..)
  | _ => exact Or.inl rfl

theorem Acted.owner_requests (h : Acted m a s ch s') (c : Fin n) :
    s'.migrationQueue c = s.migrationQueue c ∨ c ∈ s.holds m a := by
  cases h with
  | request x mask rq hp =>
    by_cases hc : c = rq
    · exact Or.inr (holds_of_place hp (by simp [Place.holds, hc]))
    · exact Or.inl (Function.update_of_ne hc ..)
  | takeRequest r rs hp =>
    by_cases hc : c = m.home a
    · exact Or.inr (holds_of_place hp (by simp [Place.holds, hc]))
    · exact Or.inl (Function.update_of_ne hc ..)
  | _ => exact Or.inl rfl

/-! What one statement changes. -/

/-- A task gets another CPU. It neither runs nor is queued, but for the one that a migration
thread is just moving. -/
structure Moved (m : Cpus n A) (a : A) (s s' : SmpState n A) (p : TaskId) : Prop where
  idle : ∀ c, s.curr c ≠ p
  other : ∀ c, p ≠ m.idle c
  allowed : m.Movable p ∨ s.allowed p (s'.cpu p) = true
  array : s.array p = none ∨ ∃ r d, s'.place a = .dequeue r (s.cpu p) d ∧ r.task = p

theorem Acted.moved (h : Acted m a s ch s') (hs : s.Sound m T) (hT : T p) (hch : ch.Proper m)
    (hl : LeftAlone p s (a, ch)) (hne : s'.cpu p ≠ s.cpu p) : Moved m a s s' p := by
  have hupd : ∀ {x : TaskId} {d : Fin n}, Function.update s.cpu x d p ≠ s.cpu p → p = x := by
    intro x d hx
    by_contra hpx
    exact hx (Function.update_of_ne hpx ..)
  have hrest : ∀ t : SmpState n A, m.Movable p → s.Resting p → Moved m a s t p :=
    fun t hmov hr => ⟨hr.curr, fun c => (hmov c).1, Or.inl hmov, Or.inl hr.array⟩
  cases h with
  | fork x hp =>
    obtain rfl := hupd hne
    exact hrest _ hch (hl.fork rfl).toResting
  | forkCpu x hp =>
    obtain rfl := hupd hne
    refine hrest _ (hs.proper_at hp) ((hs.born p hT).resting ?_)
    rw [(hs.born p hT).stage a (by rw [hp]; rfl), hp]
    rintro ⟨⟩
  | fastMigrate x e rq hp harr hcurr hmask =>
    obtain rfl := hupd hne
    have hx : s.cpu p = rq := hs.knows_at hp rfl hT
    have hother := (hs.proper_at hp).1
    refine ⟨hs.curr_ne hT (hx ▸ hcurr), hother, Or.inr ?_, Or.inl harr⟩
    simpa [SmpState.goto, SmpState.setCpu] using hmask
  | moveIdle x mask rq d hp harr hcurr hd =>
    obtain rfl := hupd hne
    have hx : s.cpu p = rq := (hs.knows_at hp rfl hT).1
    have hmov : m.Movable p := (hs.proper_at hp).1
    exact ⟨hs.curr_ne hT (hx ▸ hcurr.symm), fun c => (hmov c).1, Or.inl hmov, Or.inl harr⟩
  | carry b x hp =>
    obtain rfl := hupd hne
    obtain ⟨hx, harr, hcurr, hmask⟩ := hs.knows_at hp rfl hT
    refine ⟨hs.curr_ne hT (hx ▸ hcurr.symm), hs.proper_at hp, Or.inr ?_, Or.inl harr⟩
    simpa [SmpState.goto, SmpState.setCpu] using hmask
  | move r c d hp he =>
    obtain rfl := hupd hne
    have hx : s.cpu r.task = c := hs.knows_at hp rfl hT
    have hmov : m.Movable r.task := hs.proper_at hp
    -- the migration thread itself runs on the CPU
    have hcurr := (hs.migrating a (hp ▸ trivial)).2
    refine ⟨hs.curr_ne hT ?_, fun c => (hmov c).1, Or.inl hmov, Or.inr ⟨r, d, ?_, rfl⟩⟩
    · rw [hx, he, hcurr]
      exact (hmov _).2.symm
    · rw [goto_self, hx]
  | _ => exact absurd rfl hne

/-- A task is queued on its CPU. -/
theorem Acted.queues (h : Acted m a s ch s') (hs : s.Sound m T) (hT : T p)
    (hp : s'.array p = some c) :
    s.array p = some c ∨ s.cpu p = c ∧ s'.cpu = s.cpu ∧ ∀ c, p ≠ m.idle c := by
  have hset : ∀ {x : TaskId} {o : Option (Fin n)}, Function.update s.array x o p = some c →
      s.array p = some c ∨ p = x ∧ o = some c := by
    intro x o hx
    by_cases hpx : p = x
    · subst hpx
      exact Or.inr ⟨rfl, by simpa using hx⟩
    · rw [Function.update_of_ne hpx] at hx
      exact Or.inl hx
  cases h with
  | activate x e rq k hpl =>
    rcases hset hp with hp | ⟨rfl, ho⟩
    · exact Or.inl hp
    · have hx : s.cpu p = rq := hs.knows_at hpl rfl hT
      exact Or.inr ⟨hx.trans (Option.some.inj ho), rfl, (hs.proper_at hpl).1⟩
  | put b x hpl =>
    rcases hset hp with hp | ⟨rfl, ho⟩
    · exact Or.inl hp
    · have hx : s.cpu p = m.home a := (hs.knows_at hpl rfl hT).1
      exact Or.inr ⟨hx.trans (Option.some.inj ho), rfl, hs.proper_at hpl⟩
  | enqueue r d e hpl =>
    have hmov : m.Movable r.task := hs.proper_at hpl
    rcases hset hp with hp | ⟨rfl, ho⟩
    · exact Or.inl hp
    · have hx : s.cpu r.task = e := (hs.knows_at hpl rfl hT).1
      exact Or.inr ⟨hx.trans (Option.some.inj ho), rfl, fun c => (hmov c).1⟩
  | forkPut x hpl =>
    have hmov : m.Movable x := hs.proper_at hpl
    rcases hset hp with hp | ⟨rfl, ho⟩
    · exact Or.inl hp
    · have hx : s.cpu p = m.home a := hs.knows_at hpl rfl hT
      exact Or.inr ⟨hx.trans (Option.some.inj ho), rfl, fun c => (hmov c).1⟩
  | fork | deactivate | pull | dequeue =>
    rcases hset hp with hp | ⟨-, ho⟩
    · exact Or.inl hp
    · cases ho
  | _ => exact Or.inl hp

/-- What a migration thread has set out to move is off its queue then. -/
theorem Acted.dequeued {r : MigrationReq A} {d : Fin n} (h : Acted m a s ch s')
    (hp : s.place a = .dequeue r c d) : s'.array r.task = none := by
  cases h with
  | idleMoved x c' d' hp' harr =>
    cases hp.symm.trans hp'
    exact harr
  | dequeue x c' d' hp' =>
    cases hp.symm.trans hp'
    exact Function.update_self ..
  | _ => exact absurd (hp.symm.trans ‹s.place a = _›) (by rintro ⟨⟩)

/-- Another task runs on a CPU. -/
theorem Acted.switched (h : Acted m a s ch s') (hs : s.Sound m T) (hne : s'.curr c ≠ s.curr c) :
    s'.place = s.place ∧ (T (s'.curr c) → s.cpu (s'.curr c) = c) ∧
      (s.place (m.thread c)).isOut = true ∧ s'.cpu = s.cpu := by
  cases h with
  | switch q hp hq hout =>
    have hc : c = m.home a := by
      by_contra hc
      exact hne (Function.update_of_ne hc ..)
    subst hc
    refine ⟨rfl, ?_, hout, rfl⟩
    have hcurr : Function.update s.curr (m.home a) q (m.home a) = q := Function.update_self ..
    simp only [hcurr]
    intro hT
    rcases hq with rfl | hq
    · exact (hs.idles _).1
    · exact hs.queued hT hq (holds_of_place hp (by simp [Place.holds])) (by simp [hp])
  | _ => exact absurd rfl hne

/-- A new mask is for a movable task, and has a CPU. -/
theorem Acted.mask_cases (h : Acted m a s ch s') (hs : s.Sound m T) (hch : ch.Proper m) :
    s'.allowed p = s.allowed p ∨ m.Movable p ∧ ∃ c, s'.allowed p c = true := by
  cases h with
  | mask x mask rq hp =>
    by_cases hx : p = x
    · subst hx
      right
      simpa [SmpState.goto] using (hs.proper_at hp).2
    · exact Or.inl (Function.update_of_ne hx ..)
  | fork x hp =>
    by_cases hx : p = x
    · subst hx
      obtain ⟨c, hc⟩ := hs.masks (s.curr (m.home a))
      exact Or.inr ⟨hch, c, by simpa [SmpState.copyCurrent] using hc⟩
    · exact Or.inl (Function.update_of_ne hx ..)
  | _ => exact Or.inl rfl

theorem Acted.requested {r : MigrationReq A} (h : Acted m a s ch s') (hs : s.Sound m T)
    (hr : r ∈ s'.migrationQueue c) : r ∈ s.migrationQueue c ∨ m.Movable r.task := by
  rcases h.asks hr with hr | ⟨mask, rq, hp⟩
  · exact Or.inl hr
  · exact Or.inr (hs.proper_at hp).1

/-- Only the migration thread of a CPU gets into its loop, when it runs there. -/
theorem Acted.migrating (h : Acted m a s ch s') (hm : (s'.place a).Migrating) :
    (s.place a).Migrating ∨ a = m.thread (m.home a) ∧
      s.curr (m.home a) = m.migrationThread (m.home a) := by
  cases h with
  | thread hp ha hc => exact Or.inr ⟨ha, hc⟩
  | sleep | deactivate | switch | fork => exact Or.inl hm
  | noRequest hp | takeRequest r rs hp | dest r c hp | src r d hp | stale r c d hp
  | fresh r c d hp | move r c d hp | elsewhere r c d hp | idleMoved r c d hp
  | dequeue r c d hp | enqueue r c d hp | up r hp => exact Or.inl (hp ▸ trivial)
  | _ =>
    rw [goto_self] at hm
    cases hm

theorem Acted.knows_self (h : Acted m a s ch s') (hs : s.Sound m T)
    (hT : ∀ p, (s'.place a).task = some p → T p) : (s'.place a).Knows (m.home a) s' := by
  cases h with
  | sleep hp | deactivate hp | switch q hp | fork q hp =>
    have hplace : ∀ t : SmpState n A, t.place = s.place → (t.place a).Knows (m.home a) t := by
      intro t ht
      rw [ht, hp]
      trivial
    exact hplace _ rfl
  | got p e rq hp he =>
    rw [goto_self]
    exact he.symm
  | mask p mask rq hp =>
    have hx : s.cpu p = rq := hs.knows_at hp rfl (hT p (by rw [goto_self]; rfl))
    simpa [Place.Knows, SmpState.goto] using hx
  | pull b p hp harr hcurr hmask =>
    have hb : b ∈ s.holds m a := holds_of_place hp (by simp [Place.holds])
    have hx : s.cpu p = b := hs.queued (hT p (by rw [goto_self]; rfl)) harr hb (by simp [hp])
    simp only [goto_self]
    exact ⟨hx, Function.update_self .., hcurr, hmask⟩
  | carry b p hp =>
    have hk := hs.knows_at hp rfl (hT p (by rw [goto_self]; rfl))
    simp only [goto_self]
    exact ⟨Function.update_self .., hk.2.1⟩
  | fresh r c d hp he =>
    rw [goto_self]
    exact he
  | move r c d hp he =>
    have hTr : T r.task := hT r.task (by rw [goto_self]; rfl)
    have hx : s.cpu r.task = c := hs.knows_at hp rfl hTr
    have hc : c ∈ s.holds m a := holds_of_place hp (by simp [Place.holds])
    simp only [goto_self]
    refine ⟨Function.update_self .., ?_⟩
    cases harr : s.array r.task with
    | none => exact Or.inl harr
    | some b =>
      rcases hs.placed r.task b hTr harr with hb | ⟨x, r', d', hxp, hr'⟩
      · exact Or.inr (harr.trans (congrArg some (hb.symm.trans hx)))
      · -- a migration thread that has just moved the task would hold the lock of `c`
        have hk := (hs.knows_at hxp rfl (hr' ▸ hTr)).1
        rw [hr', hx] at hk
        have hxc : c ∈ s.holds m x := holds_of_place hxp (by simp [Place.holds, hk])
        obtain rfl := hs.locking.exclusive.unique c a x hc hxc
        cases hp.symm.trans hxp
  | dequeue r c d hp =>
    have hk := hs.knows_at hp rfl (hT r.task (by rw [goto_self]; rfl))
    simp only [goto_self]
    exact ⟨hk.1, Function.update_self ..⟩
  | forkCpu p hp =>
    simp only [goto_self]
    exact Function.update_self ..
  | noRequest hp hq =>
    rw [goto_self]
    exact hq
  | _ =>
    rw [goto_self]
    trivial

theorem Acted.proper_self (h : Acted m a s ch s') (hs : s.Sound m T) (hch : ch.Proper m) :
    (s'.place a).Proper m := by
  cases h with
  | sleep | deactivate | switch | fork => exact hs.proper a
  | call p e hp => simpa [Place.Proper] using hch.1
  | look p e hp | missed p e rq hp | got p e rq hp =>
    have hproper : e.Proper m p := hs.proper_at hp
    simpa [Place.Proper] using hproper
  | fastMigrate p e rq hp =>
    have hproper : e.Proper m p := hs.proper_at hp
    simpa [Place.Proper] using hproper
  | activate p e rq k hp hk | awake p e rq k hp hk =>
    rw [goto_self]
    cases e <;> cases hk <;> trivial
  | mask p mask rq hp =>
    rw [goto_self]
    exact (hs.proper_at hp).2
  | request p mask rq hp =>
    rw [goto_self]
    exact ⟨fun c => (m.idle_ne c rq).symm, rq, rfl⟩
  | pull b p hp harr =>
    rw [goto_self]
    rintro c rfl
    rw [(hs.idles c).2] at harr
    cases harr
  | carry b p hp =>
    rw [goto_self]
    exact hs.proper_at (q := .pulled b p) hp
  | takeRequest r rs hp hq =>
    rw [goto_self]
    exact hs.requests _ r (hq ▸ List.mem_cons_self)
  | dest r c hp =>
    rw [goto_self]
    exact hs.proper_at (q := .readDest r) hp
  | src r d hp =>
    rw [goto_self]
    exact hs.proper_at (q := .readSrc r d) hp
  | stale r c d hp | fresh r c d hp =>
    rw [goto_self]
    exact hs.proper_at (q := .checkSrc r c d) hp
  | move r c d hp | elsewhere r c d hp =>
    rw [goto_self]
    exact hs.proper_at (q := .moveCpu r c d) hp
  | idleMoved r c d hp | dequeue r c d hp =>
    rw [goto_self]
    exact hs.proper_at (q := .dequeue r c d) hp
  | enqueue r c d hp =>
    rw [goto_self]
    exact hs.proper_at (q := .enqueue r c d) hp
  | wakeForked p hp hb =>
    rw [goto_self]
    by_contra hmov
    rw [hs.own p hmov] at hb
    cases hb
  | forkCpu p hp =>
    rw [goto_self]
    exact hs.proper_at (q := .forkLocked p) hp
  | _ =>
    rw [goto_self]
    trivial

/-- Every statement leaves the machine sound. -/
theorem Acted.sound (h : Acted m a s ch s') (hs : s.Sound m T) (hch : ch.Proper m)
    (hleft : ∀ p, T p → LeftAlone p s (a, ch)) (hl : s'.Locking m) : s'.Sound m T := by
  have hne : ∀ b, b ≠ a → s'.place b = s.place b := fun b hb => h.place_ne hb
  have hmoved : ∀ p, T p → s'.cpu p ≠ s.cpu p → Moved m a s s' p :=
    fun p hT => h.moved hs hT hch (hleft p hT)
  refine ⟨hl, forall_place hne hs.proper (h.proper_self hs hch), hs.tracked, ?_, ?_, ?_, ?_, ?_, ?_,
    ?_, ?_, ?_, ?_⟩
  · exact fun p hp => h.own hch hp (hs.own p hp)
  · exact fun p hT => h.born (hs.born p hT) (hs.own p) (hleft p hT)
  · intro b hT
    by_cases hba : b = a
    · subst hba
      exact h.knows_self hs hT
    · rw [hne b hba] at hT ⊢
      apply (hs.knows b hT).frame
      · intro p hpb hp
        have hTp := hT p hpb
        rcases h.owner hs hTp with hsame | hown | rfl | hfork
        · exact hsame
        · exact absurd (hs.locking.exclusive.unique _ b a hp hown) hba
        · exact absurd hpb ((hleft p hTp).fork rfl |>.task b)
        · exact absurd hpb ((hs.born p hTp).waking (by rw [hfork]; rfl) (by rw [hfork]; rfl) b hba)
      · intro c hc
        rcases h.owner_curr c with hsame | hown
        · exact hsame
        · exact absurd (hs.locking.exclusive.unique _ b a hc hown) hba
      · intro c hc
        rcases h.owner_requests c with hsame | hown
        · exact hsame
        · exact absurd (hs.locking.exclusive.unique _ b a hc hown) hba
  · intro p c hT hp
    rcases h.queues hs hT hp with hold | ⟨hcpu, hsame, -⟩
    · rcases hs.placed p c hT hold with hcpu | ⟨x, r, d, hx, rfl⟩
      · by_cases hne : s'.cpu p = s.cpu p
        · exact Or.inl (hne.trans hcpu)
        · rcases (hmoved p hT hne).array with hnone | ⟨r, d, hplace, hr⟩
          · rw [hold] at hnone
            cases hnone
          · exact Or.inr ⟨a, r, d, hcpu ▸ hplace, hr⟩
      · by_cases hxa : x = a
        · rw [h.dequeued (hxa ▸ hx)] at hp
          cases hp
        · exact Or.inr ⟨x, r, d, (h.place_ne hxa).trans hx, rfl⟩
    · exact Or.inl (hsame ▸ hcpu)
  · intro c hT
    by_cases hc : s'.curr c = s.curr c
    · rw [hc] at hT ⊢
      by_contra hne
      exact (hmoved _ hT fun he => hne (he.trans (hs.curr c hT))).idle c rfl
    · obtain ⟨-, hcpu, -, hsame⟩ := h.switched hs hc
      rw [hsame, hcpu hT]
  · -- where another task gets the CPU of a migration thread, that thread is not in its loop
    have hkeep : ∀ b, (s.place b).Migrating → b = m.thread (m.home b) ∧
        s'.curr (m.home b) = m.migrationThread (m.home b) := by
      intro b hb
      obtain ⟨hthread, hcurr⟩ := hs.migrating b hb
      by_cases hc : s'.curr (m.home b) = s.curr (m.home b)
      · exact ⟨hthread, hc.trans hcurr⟩
      · obtain ⟨-, -, hout, -⟩ := h.switched hs hc
        rw [← hthread, hb.not_out] at hout
        cases hout
    intro b hb
    by_cases hba : b = a
    · subst hba
      rcases h.migrating hb with hm | ⟨hthread, hcurr⟩
      · exact hkeep b hm
      · by_cases hc : s'.curr (m.home b) = s.curr (m.home b)
        · exact ⟨hthread, hc.trans hcurr⟩
        · exact hkeep b ((h.switched hs hc).1 ▸ hb)
    · exact hkeep b (h.place_ne hba ▸ hb)
  · intro c r hr
    rcases h.requested hs hr with hr | hmov
    · exact hs.requests c r hr
    · exact hmov
  · intro c
    obtain ⟨hcpu, hmask⟩ := hs.threads c
    have hown : ¬ m.Movable (m.migrationThread c) := fun hmov => (hmov c).2 rfl
    constructor
    · by_contra hne
      rcases (hmoved _ (hs.tracked_thread c) fun he => hne (he.trans hcpu)).allowed with hmov | hmv
      · exact hown hmov
      · exact hne (hmask _ hmv)
    · rcases h.mask_cases hs hch with hsame | ⟨hmov, -⟩
      · rwa [hsame]
      · exact absurd hmov hown
  · intro c
    obtain ⟨hcpu, harr⟩ := hs.idles c
    have hT : T (m.idle c) := hs.tracked _ fun hmov => (hmov c).1 rfl
    constructor
    · by_contra hne
      exact (hmoved _ hT fun he => hne (he.trans hcpu)).other c rfl
    · cases hnew : s'.array (m.idle c) with
      | none => rfl
      | some d =>
        rcases h.queues hs hT hnew with hold | ⟨-, -, hno⟩
        · rw [harr] at hold
          cases hold
        · exact absurd rfl (hno c)
  · intro p
    rcases h.mask_cases hs hch with hsame | ⟨-, hmask⟩
    · exact hsame ▸ hs.masks p
    · exact hmask

/-- A step of one path keeps the machine sound. -/
theorem Stepped.sound (h : Stepped m a s ch s') (hs : s.Sound m T) (hch : ch.Proper m)
    (hleft : ∀ p, T p → LeftAlone p s (a, ch)) : s'.Sound m T := by
  have hl := h.locking hs.locking
  rcases h.sort with hact | ⟨l, q, rfl, hq⟩
  · exact hact.sound hs hch hleft hl
  · have hne : ∀ b, b ≠ a → ({ s with locked := l }.goto a q).place b = s.place b :=
      fun b hb => goto_of_ne hb
    have hplace : ({ s with locked := l }.goto a q).place a = q := goto_self
    refine ⟨hl, forall_place hne hs.proper (by rw [hplace]; exact hq.proper (hs.proper a)),
      hs.tracked, hs.own, fun p hT => hq.born (hs.born p hT), ?_, ?_, hs.curr, ?_, hs.requests,
      hs.threads, hs.idles, hs.masks⟩
    · intro b hT
      by_cases hba : b = a
      · subst hba
        rw [hplace]
        exact hq.knows _
      · rw [hne b hba] at hT ⊢
        exact hs.knows b hT
    · intro p c hT hp
      rcases hs.placed p c hT hp with hcpu | ⟨x, r, d, hx, hr⟩
      · exact Or.inl hcpu
      · have hxa : x ≠ a := by
          rintro rfl
          rw [hx] at hq
          cases hq
        exact Or.inr ⟨x, r, d, (hne x hxa).trans hx, hr⟩
    · apply forall_place (P := fun b q => q.Migrating → _) hne hs.migrating
      rw [hplace]
      exact fun h => hs.migrating a (hq.migrating h)

end
end ShortSched
