import ShortSched.Lib.Tokens
import ShortSched.SmpRuns

/-! Every migration request is served once, and the migration thread is awake for it. -/
namespace ShortSched
open Locks PartialRun Tokens

variable {n : ℕ} {A : Type}

/-- The request that a migration thread has taken off its queue. -/
def Place.inHand : Place n A → Option (MigrationReq A)
  | unlockOwn o => o
  | readDest r | readSrc r _ | lockFirst r _ _ | lockSecond r _ _ | checkSrc r _ _
  | moveCpu r _ _ | dequeue r _ _ | enqueue r _ _ | unlockSrc r _ _ _ | unlockDest r _ _
  | up r => some r
  | _ => none

def Errand.awaits : Errand n → Option TaskId
  | kick p => some p
  | _ => none

def Onward.awaits : Onward n → Option TaskId
  | out => none
  | again _ e => e.awaits
  | down p => some p

/-- The task whose migration a path has asked for, until its `down` comes through. -/
def Place.awaits : Place n A → Option TaskId
  | repeatLockTask _ e | lockTask _ e _ | recheck _ e _ | holding _ e _ => e.awaits
  | unlockTask _ k => k.awaits
  | down p => some p
  | _ => none

/-- The requests on a CPU, if `hand` tells which of them the migration thread has in hand. -/
def SmpState.requests (m : Cpus n A) (hand : Place n A → Option (MigrationReq A))
    (s : SmpState n A) (c : Fin n) : List (MigrationReq A) :=
  (hand (s.place (m.thread c))).toList ++ s.migrationQueue c

/-- The requests that a migration thread has in hand and before it. -/
def SmpState.pending (m : Cpus n A) (s : SmpState n A) : Fin n → List (MigrationReq A) :=
  s.requests m Place.inHand

/-- What a statement does to the requests and the semaphores. -/
inductive Handled [DecidableEq A] (m : Cpus n A) (a : A) (s s' : SmpState n A) : Prop
  | same (hp : s'.pending m = s.pending m) (hs : s'.sem = s.sem)
      (ha : (s'.place a).awaits = (s.place a).awaits)
  | request (p : TaskId) (c : Fin n) (hc : (s'.pending m c).Perm (⟨p, a⟩ :: s.pending m c))
      (hne : ∀ d, d ≠ c → s'.pending m d = s.pending m d)
      (hs : s'.sem = Function.update s.sem a 0) (ha : (s.place a).awaits = none)
      (ha' : (s'.place a).awaits = some p)
  | up (r : MigrationReq A) (c : Fin n) (hc : s.pending m c = r :: s'.pending m c)
      (hne : ∀ d, d ≠ c → s.pending m d = s'.pending m d)
      (hs : s'.sem = Function.update s.sem r.caller (s.sem r.caller + 1))
      (ha : (s'.place a).awaits = (s.place a).awaits)
  | down (hp : s'.pending m = s.pending m) (h : s.sem a ≠ 0)
      (hs : s'.sem = Function.update s.sem a (s.sem a - 1)) (ha : (s.place a).awaits.isSome = true)
      (ha' : (s'.place a).awaits = none)

/-- Whoever waits for a migration has one request under way, or has been told of its end. -/
structure SmpState.Accounts [DecidableEq A] (m : Cpus n A) (s : SmpState n A) : Prop where
  counted : ∀ a, total (s.pending m) (fun r => decide (r.caller = a)) + s.sem a =
    if (s.place a).awaits.isSome then 1 else 0
  tasks : ∀ c, ∀ r ∈ s.pending m c, (s.place r.caller).awaits = some r.task

def Errand.Kicks (p q : TaskId) : Errand n → Prop
  | kick _ => p = q
  | _ => False

/-- A path is about to wake up the migration thread `q`. -/
def Place.Kicks (q : TaskId) : Place n A → Prop
  | repeatLockTask p e | lockTask p e _ | recheck p e _ | holding p e _ => e.Kicks p q
  | unlockTask _ (.again p e) => e.Kicks p q
  | _ => False

/-- The migration thread of a CPU is in its loop, or will get there: it is runnable and queued, or
is about to be woken up. -/
def SmpState.Woken (m : Cpus n A) (s : SmpState n A) (c : Fin n) : Prop :=
  (s.place (m.thread c)).Migrating ∨
  s.state (m.migrationThread c) = .running ∧ s.array (m.migrationThread c) = some c ∨
  ∃ b, (s.place b).Kicks (m.migrationThread c)

section
variable {m : Cpus n A} {T : TaskId → Prop} {a b : A} {s s' : SmpState n A} {p : TaskId} {c : Fin n}

theorem onward_awaits {e : Errand n} {k : Onward n} (h : e.onward = some k) :
    k.awaits = e.awaits := by
  cases e <;> cases h <;> rfl

theorem onward_place_awaits (k : Onward n) : (k.place : Place n A).awaits = k.awaits := by
  cases k <;> rfl

theorem onward_place_inHand (k : Onward n) : (k.place : Place n A).inHand = none := by
  cases k <;> rfl

theorem LockStep.awaits {q q' : Place n A} (h : LockStep q q') : q'.awaits = q.awaits := by
  cases h with
  | unlockTask rq k => exact onward_place_awaits k
  | unlockOne r c d again | unlockDest r d again => cases again <;> rfl
  | _ => rfl

theorem LockStep.inHand {q q' : Place n A} (h : LockStep q q') : q'.inHand = q.inHand := by
  cases h with
  | unlockTask rq k => exact onward_place_inHand k
  | unlockOne r c d again | unlockDest r d again => cases again <;> rfl
  | _ => rfl

theorem Place.migrating_of_inHand {q : Place n A} {r : MigrationReq A} (h : q.inHand = some r) :
    q.Migrating := by
  cases q with
  | unlockOwn | readDest | readSrc | lockFirst | lockSecond | checkSrc | moveCpu | dequeue
  | enqueue | unlockSrc | unlockDest | up => trivial
  | _ => cases h

/-- A statement that leaves the hands alone. -/
theorem requests_queue {f : Place n A → Option (MigrationReq A)}
    (hh : f (s'.place a) = f (s.place a)) (hne : ∀ b, b ≠ a → s'.place b = s.place b)
    (c : Fin n) :
    s'.requests m f c = (f (s.place (m.thread c))).toList ++ s'.migrationQueue c := by
  unfold SmpState.requests
  by_cases hc : m.thread c = a
  · rw [hc, hh]
  · rw [hne _ hc]

theorem requests_congr {f : Place n A → Option (MigrationReq A)}
    (hq : s'.migrationQueue = s.migrationQueue) (hh : f (s'.place a) = f (s.place a))
    (hne : ∀ b, b ≠ a → s'.place b = s.place b) : s'.requests m f = s.requests m f := by
  funext c
  rw [requests_queue hh hne, hq, SmpState.requests]

variable [DecidableEq A] {ch : PathChoice n}

theorem Acted.handled (h : Acted m a s ch s') (hs : s.Sound m T) (hch : ch.Proper m) :
    Handled m a s s' := by
  have hne : ∀ b, b ≠ a → s'.place b = s.place b := fun b hb => h.place_ne hb
  have hthread : (s.place a).Migrating → ∀ d, d ≠ m.home a → m.thread d ≠ a := by
    rintro - d hd rfl
    exact hd (m.home_thread d).symm
  cases h with
  | call p e hp =>
    refine .same (requests_congr rfl (by simp [hp, Place.inHand]) hne) rfl ?_
    cases e with
    | kick q => exact absurd rfl (hch.2 q)
    | _ => simp [hp, Place.awaits, Errand.awaits]
  | activate p e rq k hp hk | awake p e rq k hp hk =>
    refine .same (requests_congr rfl (by simp [hp, Place.inHand]) hne) rfl ?_
    simp [hp, Place.awaits, onward_awaits hk]
  | request p mask rq hp =>
    have hhand := requests_queue (m := m) (f := Place.inHand) (by simp [hp, Place.inHand]) hne
    refine .request p rq ?_ ?_ rfl (by simp [hp, Place.awaits])
      (by simp [Place.awaits, Onward.awaits, Errand.awaits])
    · rw [SmpState.pending, hhand]
      simp [SmpState.pending, SmpState.requests, SmpState.goto, List.perm_middle]
    · intro d hd
      rw [SmpState.pending, hhand]
      simp [SmpState.pending, SmpState.requests, SmpState.goto, hd]
  | down p hp hsem =>
    exact .down (requests_congr rfl (by simp [hp, Place.inHand]) hne) hsem rfl
      (by simp [hp, Place.awaits]) (by simp [Place.awaits])
  | takeRequest r rs hp hq =>
    have hmig : (s.place a).Migrating := hp ▸ trivial
    have ha := (hs.migrating a hmig).1
    refine .same ?_ rfl (by simp [hp, Place.awaits])
    funext d
    by_cases hd : d = m.home a
    · subst hd
      simp [SmpState.pending, SmpState.requests, ← ha, hp, hq, Place.inHand, SmpState.goto]
    · have hda := hthread hmig d hd
      simp [SmpState.pending, SmpState.requests, SmpState.goto, SmpState.setState, hd, hda]
  | up r hp =>
    have hmig : (s.place a).Migrating := hp ▸ trivial
    have ha := (hs.migrating a hmig).1
    refine .up r (m.home a) ?_ ?_ rfl (by simp [hp, Place.awaits])
    · simp [SmpState.pending, SmpState.requests, ← ha, hp, Place.inHand, SmpState.goto]
    · intro d hd
      have hda := hthread hmig d hd
      simp [SmpState.pending, SmpState.requests, SmpState.goto, hda]
  | sleep | deactivate | switch | fork => exact .same rfl rfl rfl
  | _ =>
    refine .same (requests_congr rfl ?_ hne) rfl ?_
    · simp [‹s.place a = _›, Place.inHand]
    · simp [‹s.place a = _›, Place.awaits, Onward.awaits, Errand.awaits]

theorem Stepped.handled (h : Stepped m a s ch s') (hs : s.Sound m T) (hch : ch.Proper m) :
    Handled m a s s' := by
  rcases h.sort with hact | ⟨l, q, rfl, hq⟩
  · exact hact.handled hs hch
  · refine .same (requests_congr rfl ?_ fun b hb => goto_of_ne hb) rfl ?_
    · rw [goto_self, hq.inHand]
    · rw [goto_self, hq.awaits]

theorem Stepped.accounts (h : Stepped m a s ch s') (hs : s.Sound m T) (hch : ch.Proper m)
    (hl : s.Accounts m) : s'.Accounts m := by
  have hne : ∀ b, b ≠ a → (s'.place b).awaits = (s.place b).awaits :=
    fun b hb => congrArg Place.awaits (h.place_ne hb)
  have hall : (s'.place a).awaits = (s.place a).awaits →
      ∀ b, (s'.place b).awaits = (s.place b).awaits := by
    intro ha b
    by_cases hb : b = a
    · exact hb ▸ ha
    · exact hne b hb
  cases h.handled hs hch with
  | same hp hsem ha =>
    constructor
    · intro b
      rw [hp, hsem, hall ha b]
      exact hl.counted b
    · intro c r hr
      rw [hall ha]
      exact hl.tasks c r (hp ▸ hr)
  | request p c hc hpne hsem ha ha' =>
    have hzero := hl.counted a
    simp only [ha, Option.isSome_none, Bool.false_eq_true, if_false, Nat.add_eq_zero_iff] at hzero
    constructor
    · intro b
      rw [total_put hc hpne, hsem]
      by_cases hb : b = a
      · subst hb
        simp [hzero.1, ha']
      · have hab : a ≠ b := Ne.symm hb
        simpa [hab, hb, hne b hb] using hl.counted b
    · intro d r hr
      have hmem : r = ⟨p, a⟩ ∨ ∃ d, r ∈ s.pending m d := by
        by_cases hd : d = c
        · rcases List.mem_cons.mp (hc.mem_iff.mp (hd ▸ hr)) with he | hr
          · exact Or.inl he
          · exact Or.inr ⟨c, hr⟩
        · exact Or.inr ⟨d, hpne d hd ▸ hr⟩
      rcases hmem with rfl | ⟨d, hr⟩
      · exact ha'
      · have hr := hl.tasks d r hr
        have hra : r.caller ≠ a := by
          intro he
          rw [he, ha] at hr
          cases hr
        rw [hne _ hra, hr]
  | up r c hc hpne hsem ha =>
    constructor
    · intro b
      have hb := hl.counted b
      rw [total_put (List.Perm.of_eq hc) hpne] at hb
      rw [hsem, hall ha b, ← hb]
      by_cases hrb : r.caller = b
      · subst hrb
        simp only [Function.update_self, decide_true, if_true]
        omega
      · simp [hrb, Function.update_of_ne (Ne.symm hrb)]
    · intro d x hx
      rw [hall ha]
      by_cases hd : d = c
      · apply hl.tasks c x
        rw [hc]
        exact List.mem_cons_of_mem _ (hd ▸ hx)
      · exact hl.tasks d x (hpne d hd ▸ hx)
  | down hp hsem0 hsem ha ha' =>
    have hone := hl.counted a
    simp only [ha, if_true] at hone
    have hno : total (s.pending m) (fun r => decide (r.caller = a)) = 0 := by omega
    constructor
    · intro b
      rw [hp, hsem]
      by_cases hb : b = a
      · subst hb
        simp only [Function.update_self, ha', hno]
        simp only [Option.isSome_none, Bool.false_eq_true, if_false]
        omega
      · rw [Function.update_of_ne hb, hne b hb]
        exact hl.counted b
    · intro c r hr
      have hra := total_eq_zero.mp hno c r (hp ▸ hr)
      rw [hne _ (by simpa using hra)]
      exact hl.tasks c r (hp ▸ hr)

/-! The wake-up of the migration thread -/

omit [DecidableEq A] in
theorem LockStep.kicks {q q' : Place n A} (h : LockStep q q') (hq : q.Kicks p) : q'.Kicks p := by
  cases h with
  | unlockTask rq k => cases k <;> exact hq
  | lockTask => exact hq
  | _ => cases hq

omit [DecidableEq A] in
theorem LockStep.stays {q q' : Place n A} (h : LockStep q q') (hq : q.Migrating) :
    q'.Migrating ∨ q = .unlockOwn none := by
  cases h with
  | unlockEmpty => exact Or.inr rfl
  | unlockOne r c d again | unlockDest r d again => cases again <;> exact Or.inl trivial
  | lockOwn | lockOne | lockFirst | lockSecond | unlockOwn | unlockSrc => exact Or.inl trivial
  | _ => cases hq

theorem Acted.stays (h : Acted m a s ch s') (hm : (s.place a).Migrating) :
    (s'.place a).Migrating := by
  cases h with
  | sleep | deactivate | switch => exact hm
  | noRequest | takeRequest | dest | src | stale | fresh | move | elsewhere | idleMoved | dequeue
  | enqueue | up =>
    rw [goto_self]
    trivial
  | _ =>
    rw [‹s.place a = _›] at hm
    cases hm

/-- A migration thread that is runnable stays so until it looks at its requests. -/
theorem Acted.runnable (h : Acted m a s ch s') (hs : s.Sound m T) (hch : ch.Proper m)
    (hrun : s.state (m.migrationThread c) = .running)
    (harr : s.array (m.migrationThread c) = some c) :
    (s'.place (m.thread c)).Migrating ∨
      s'.state (m.migrationThread c) = .running ∧ s'.array (m.migrationThread c) = some c := by
  have hmov : ∀ {p : TaskId}, m.Movable p → m.migrationThread c ≠ p :=
    fun hp he => (hp c).2 he.symm
  cases h with
  | sleep hp hc =>
    refine Or.inr ⟨(Function.update_of_ne ?_ ..).trans hrun, harr⟩
    intro he
    have hcpu := hs.curr (m.home a)
    rw [← he, (hs.threads c).1] at hcpu
    exact hc (hcpu (hs.tracked_thread c) ▸ he.symm)
  | activate p e rq k hp hk hnone =>
    have hne : m.migrationThread c ≠ p := by
      rintro rfl
      rw [harr] at hnone
      cases hnone
    exact Or.inr ⟨(Function.update_of_ne hne ..).trans hrun,
      (Function.update_of_ne hne ..).trans harr⟩
  | awake p e rq k hp hk =>
    refine Or.inr ⟨?_, harr⟩
    by_cases hne : m.migrationThread c = p
    · exact hne ▸ Function.update_self ..
    · exact (Function.update_of_ne hne ..).trans hrun
  | deactivate hp hstate =>
    refine Or.inr ⟨hrun, (Function.update_of_ne ?_ ..).trans harr⟩
    intro he
    rw [he] at hrun
    exact hstate hrun
  | pull b p hp hqueue hcurr hmask =>
    refine Or.inr ⟨hrun, (Function.update_of_ne ?_ ..).trans harr⟩
    rintro rfl
    -- a migration thread may run on its own CPU only
    have hme := (hs.threads c).2 _ hmask
    have hb : b ≠ m.home a := by
      have hfits := hs.locking.fits a
      rwa [hp] at hfits
    rw [harr] at hqueue
    exact hb (by rw [hme, Option.some.inj hqueue])
  | put b p hp =>
    refine Or.inr ⟨hrun, (Function.update_of_ne ?_ ..).trans harr⟩
    rintro rfl
    have hnone := (hs.knows_at hp rfl (hs.tracked_thread c)).2
    rw [harr] at hnone
    cases hnone
  | noRequest hp | takeRequest r rs hp =>
    have hmig : (s.place a).Migrating := hp ▸ trivial
    have ha := (hs.migrating a hmig).1
    by_cases hc : c = m.home a
    · left
      rw [hc, ← ha, goto_self]
      trivial
    · exact Or.inr ⟨(Function.update_of_ne (fun he => hc (m.thread_inj he)) ..).trans hrun, harr⟩
  | dequeue r b d hp | enqueue r b d hp =>
    have hne := hmov (hs.proper_at hp)
    exact Or.inr ⟨hrun, (Function.update_of_ne hne ..).trans harr⟩
  | fork p hp =>
    have hne := hmov hch
    exact Or.inr ⟨(Function.update_of_ne hne ..).trans hrun,
      (Function.update_of_ne hne ..).trans harr⟩
  | forkCpu p hp =>
    have hne := hmov (hs.proper_at hp)
    exact Or.inr ⟨(Function.update_of_ne hne ..).trans hrun, harr⟩
  | forkPut p hp =>
    have hne := hmov (hs.proper_at hp)
    exact Or.inr ⟨hrun, (Function.update_of_ne hne ..).trans harr⟩
  | _ => exact Or.inr ⟨hrun, harr⟩

/-- Who is to wake up a migration thread does so. -/
theorem Acted.kicks (h : Acted m a s ch s') (hs : s.Sound m T)
    (hk : (s.place a).Kicks (m.migrationThread c)) :
    (s'.place a).Kicks (m.migrationThread c) ∨
      s'.state (m.migrationThread c) = .running ∧ s'.array (m.migrationThread c) = some c := by
  have hcpu := (hs.threads c).1
  cases h with
  | sleep | deactivate | switch | fork => exact Or.inl hk
  | look p e hp | missed p e rq hp | got p e rq hp =>
    rw [hp] at hk
    rw [goto_self]
    exact Or.inl hk
  | fastMigrate p e rq hp =>
    rw [hp] at hk
    rw [goto_self]
    exact Or.inl hk
  | activate p e rq k hp hok =>
    rw [hp] at hk
    cases e with
    | kick q =>
      obtain rfl : p = m.migrationThread c := hk
      have hrq : s.cpu (m.migrationThread c) = rq := hs.knows_at hp rfl (hs.tracked_thread c)
      refine Or.inr ⟨Function.update_self .., ?_⟩
      rw [← hcpu, hrq]
      exact Function.update_self ..
    | _ => cases hk
  | awake p e rq k hp hok harr =>
    rw [hp] at hk
    cases e with
    | kick q =>
      obtain rfl : p = m.migrationThread c := hk
      refine Or.inr ⟨Function.update_self .., ?_⟩
      obtain ⟨d, hd⟩ := Option.ne_none_iff_exists'.mp harr
      rcases hs.placed _ d (hs.tracked_thread c) hd with hpl | ⟨x, r, d', hx, hr⟩
      · exact hd.trans (congrArg some (hpl.symm.trans hcpu))
      · have hmov : m.Movable r.task := hs.proper_at hx
        exact absurd hr (hmov c).2
    | _ => cases hk
  | mask p mask rq hp =>
    rw [hp] at hk
    cases hk
  | other p rq hp =>
    rw [hp] at hk
    cases hk
  | _ =>
    rw [‹s.place a = _›] at hk
    cases hk

theorem Acted.requests_kick (h : Acted m a s ch s') (hq : s'.migrationQueue c ≠ []) :
    s.migrationQueue c ≠ [] ∨ (s'.place a).Kicks (m.migrationThread c) := by
  cases h with
  | request p mask rq hp =>
    by_cases hc : c = rq
    · subst hc
      right
      rw [goto_self]
      rfl
    · left
      simpa [SmpState.goto, hc] using hq
  | takeRequest r rs hp hqueue =>
    left
    by_cases hc : c = m.home a
    · simp [hc, hqueue]
    · simpa [SmpState.goto, SmpState.setState, hc] using hq
  | _ => exact Or.inl hq

theorem Acted.woken (h : Acted m a s ch s') (hs : s.Sound m T) (hch : ch.Proper m)
    (hw : s.Woken m c) : s'.Woken m c := by
  rcases hw with hmig | ⟨hrun, harr⟩ | ⟨b, hb⟩
  · left
    by_cases hc : m.thread c = a
    · exact hc ▸ h.stays (hc ▸ hmig)
    · rwa [h.place_ne hc]
  · rcases h.runnable hs hch hrun harr with hmig | hrun
    · exact Or.inl hmig
    · exact Or.inr (Or.inl hrun)
  · by_cases hba : b = a
    · rcases h.kicks hs (hba ▸ hb) with hk | hrun
      · exact Or.inr (Or.inr ⟨a, hk⟩)
      · exact Or.inr (Or.inl hrun)
    · exact Or.inr (Or.inr ⟨b, (h.place_ne hba).symm ▸ hb⟩)

omit [DecidableEq A] in
theorem SmpState.Sound.empty (hs : s.Sound m T) (h : s.place a = .unlockOwn none) :
    s.migrationQueue (m.home a) = [] := by
  have hk := hs.knows a (by rw [h]; rintro p ⟨⟩)
  rwa [h] at hk

/-- As long as there are requests on a CPU, its migration thread does not go to sleep. -/
theorem Stepped.woken (h : Stepped m a s ch s') (hs : s.Sound m T) (hch : ch.Proper m)
    (hw : ∀ c, s.migrationQueue c ≠ [] → s.Woken m c) (c : Fin n)
    (hq : s'.migrationQueue c ≠ []) : s'.Woken m c := by
  rcases h.sort with hact | ⟨l, q, rfl, hstep⟩
  · rcases hact.requests_kick hq with hq | hk
    · exact hact.woken hs hch (hw c hq)
    · exact Or.inr (Or.inr ⟨a, hk⟩)
  · rcases hw c hq with hmig | hrun | ⟨b, hb⟩
    · by_cases hc : m.thread c = a
      · rcases hstep.stays (hc ▸ hmig) with hmig | hempty
        · left
          rwa [hc, goto_self]
        · -- it has just found the queue empty, and still holds the lock
          have hnil : s.migrationQueue (m.home a) = [] := hs.empty hempty
          rw [← hc, m.home_thread] at hnil
          exact absurd hnil hq
      · left
        rwa [goto_of_ne hc]
    · exact Or.inr (Or.inl hrun)
    · by_cases hba : b = a
      · refine Or.inr (Or.inr ⟨a, ?_⟩)
        rw [goto_self]
        exact hstep.kicks (hba ▸ hb)
      · refine Or.inr (Or.inr ⟨b, ?_⟩)
        rwa [goto_of_ne hba]

/-! Whole runs -/

omit [DecidableEq A] in
theorem SmpState.Booted.pending (h : s.Booted m) (c : Fin n) : s.pending m c = [] := by
  simp [SmpState.pending, SmpState.requests, h.out, h.requests, Place.inHand]

theorem SmpState.Booted.accounts (h : s.Booted m) : s.Accounts m := by
  constructor
  · intro a
    simp [total, h.pending, h.sems, h.out, Place.awaits]
  · simp [h.pending]

variable {u : SmpState n A} {os : List (A × PathChoice n)}

theorem SmpRun.accounts (h : SmpRun m os s u) : u.Accounts m ∧
    ∀ c, u.migrationQueue c ≠ [] → u.Woken m c := by
  have hall : u.Sound m (fun q => ¬ m.Movable q) ∧ u.Accounts m ∧
      ∀ c, u.migrationQueue c ≠ [] → u.Woken m c := by
    refine smpRun_invariant (I := fun t => t.Sound m (fun q => ¬ m.Movable q) ∧ t.Accounts m ∧
      ∀ c, t.migrationQueue c ≠ [] → t.Woken m c) ?_
      ⟨h.booted.sound fun _ hq => hq, h.booted.accounts, ?_⟩ h.run
    · rintro t b ch t' ⟨hs, hacc, hw⟩ ho ht
      have hch := h.proper _ ho
      have hst := step_stepped ht
      exact ⟨smpStep_sound hs hch (fun _ hq hm => absurd hm hq) ht, hst.accounts hs hch hacc,
        hst.woken hs hch hw⟩
    · intro c hc
      exact absurd (h.booted.requests c) hc
  exact hall.2

theorem SmpState.Accounts.waiting (h : s.Accounts m)
    (hp : (s.place a).awaits = some p) :
    s.sem a = 1 ∧ (∀ c, ∀ r ∈ s.pending m c, r.caller ≠ a) ∨
      s.sem a = 0 ∧ ∃ c l l', s.pending m c = l ++ ⟨p, a⟩ :: l' ∧
        (∀ r ∈ l ++ l', r.caller ≠ a) ∧ ∀ d, d ≠ c → ∀ r ∈ s.pending m d, r.caller ≠ a := by
  have hcount := h.counted a
  simp only [hp, Option.isSome_some, if_true] at hcount
  by_cases hsem : s.sem a = 0
  · right
    rw [hsem, Nat.add_zero] at hcount
    obtain ⟨c, r, l, l', hc, hr, hrest, hothers⟩ := exists_of_total_eq_one hcount
    obtain ⟨t, x⟩ := r
    obtain rfl : x = a := by simpa using hr
    have htask := h.tasks c ⟨t, x⟩ (by simp [hc])
    obtain rfl : t = p := by simpa [hp, eq_comm] using htask
    refine ⟨hsem, c, l, l', hc, fun y hy => ?_, fun d hd y hy => ?_⟩
    · simpa using hrest y hy
    · simpa using hothers d hd y hy
  · left
    have hzero : total (s.pending m) (fun r => decide (r.caller = a)) = 0 := by omega
    refine ⟨by omega, fun c r hr => ?_⟩
    simpa using total_eq_zero.mp hzero c r hr

/-- No request is lost or served twice. A path that waits for the migration of a task has the one
request for it at one CPU, in the queue or in the hand of the migration thread, or else its
semaphore is up, and no other path has either. -/
theorem request_once (h : SmpRun m os s u) (a : A) :
    ((u.place a).awaits = none → u.sem a = 0 ∧ ∀ c, ∀ r ∈ u.pending m c, r.caller ≠ a) ∧
    ∀ p, (u.place a).awaits = some p →
      u.sem a = 1 ∧ (∀ c, ∀ r ∈ u.pending m c, r.caller ≠ a) ∨
      u.sem a = 0 ∧ ∃ c l l', u.pending m c = l ++ ⟨p, a⟩ :: l' ∧
        (∀ r ∈ l ++ l', r.caller ≠ a) ∧ ∀ d, d ≠ c → ∀ r ∈ u.pending m d, r.caller ≠ a := by
  obtain ⟨hacc, -⟩ := h.accounts
  refine ⟨fun hno => ?_, fun p hp => hacc.waiting hp⟩
  have hcount := hacc.counted a
  simp only [hno, Option.isSome_none, Bool.false_eq_true, if_false,
    Nat.add_eq_zero_iff] at hcount
  refine ⟨hcount.2, fun c r hr => ?_⟩
  simpa using total_eq_zero.mp hcount.1 c r hr

theorem migration_awaits : ∃ u, SmpRun twoCpus migration twoBooted u ∧
    (u.place 2).awaits = some 4 ∧ u.sem 2 = 0 := by
  have hview : (run (smpExec twoCpus) migration twoBooted).map (fun u =>
      ((u.place 2).awaits, u.sem 2)) = some (some 4, 0) := by
    decide +kernel
  obtain ⟨u, hu, hall⟩ := Option.map_eq_some_iff.mp hview
  simp only [Prod.mk.injEq] at hall
  exact ⟨u, ⟨twoBooted_booted, migration_proper, hu⟩, hall⟩

theorem request_once_migration : ∃ u, SmpRun twoCpus migration twoBooted u ∧
    (((u.place 2).awaits = none → u.sem 2 = 0 ∧
      ∀ c, ∀ r ∈ u.pending twoCpus c, r.caller ≠ 2) ∧
    ∀ p, (u.place 2).awaits = some p →
      u.sem 2 = 1 ∧ (∀ c, ∀ r ∈ u.pending twoCpus c, r.caller ≠ 2) ∨
      u.sem 2 = 0 ∧ ∃ c l l', u.pending twoCpus c = l ++ ⟨p, 2⟩ :: l' ∧
        (∀ r ∈ l ++ l', r.caller ≠ 2) ∧
        ∀ d, d ≠ c → ∀ r ∈ u.pending twoCpus d, r.caller ≠ 2) := by
  obtain ⟨u, hrun, -⟩ := migration_awaits
  exact ⟨u, hrun, request_once hrun 2⟩

/-- No wake-up of a migration thread is lost: where a path waits for a migration and its semaphore
is not up, a migration thread has its request in hand, or it has it in its queue and is in its
loop, runnable and queued, or about to be woken up. -/
theorem migration_woken (h : SmpRun m os s u) (hp : (u.place a).awaits = some p)
    (hsem : u.sem a = 0) : ∃ c, ⟨p, a⟩ ∈ u.pending m c ∧ u.Woken m c := by
  obtain ⟨hacc, hwoken⟩ := h.accounts
  rcases hacc.waiting hp with ⟨hone, -⟩ | ⟨-, c, l, l', hc, -⟩
  · rw [hsem] at hone
    cases hone
  · have hmem : (⟨p, a⟩ : MigrationReq A) ∈ u.pending m c := by simp [hc]
    refine ⟨c, hmem, ?_⟩
    rcases List.mem_append.mp hmem with hhand | hqueue
    · left
      exact Place.migrating_of_inHand (Option.mem_toList.mp hhand)
    · exact hwoken c (List.ne_nil_of_mem hqueue)

theorem migration_woken_migration : ∃ u, SmpRun twoCpus migration twoBooted u ∧
    (u.place 2).awaits = some 4 ∧ u.sem 2 = 0 ∧
    ∃ c, ⟨4, 2⟩ ∈ u.pending twoCpus c ∧ u.Woken twoCpus c := by
  obtain ⟨u, hrun, hawaits, hsem⟩ := migration_awaits
  exact ⟨u, hrun, hawaits, hsem, migration_woken hrun hawaits hsem⟩

end
end ShortSched
