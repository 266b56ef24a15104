import ShortSched.Lib.PartialRun
import ShortSched.TaskPlacement

/-! Runs of a machine with several CPUs: any path may do its next statement at any time. -/
namespace ShortSched
open Locks PartialRun

variable {n : ℕ} {A : Type}

/-- A machine at the end of `migration_init`. -/
structure SmpState.Booted (m : Cpus n A) (s : SmpState n A) : Prop where
  unlocked : ∀ c, s.locked c = false
  out : ∀ a, s.place a = .out
  requests : ∀ c, s.migrationQueue c = []
  sems : ∀ a, s.sem a = 0
  births : ∀ p, s.birth p = .woken
  queued : ∀ p c, s.array p = some c → s.cpu p = c
  curr : ∀ c, s.cpu (s.curr c) = c
  threads : ∀ c, s.cpu (m.migrationThread c) = c ∧
    ∀ d, s.allowed (m.migrationThread c) d = true → d = c
  idles : ∀ c, s.cpu (m.idle c) = c ∧ s.array (m.idle c) = none
  allowed : ∀ p, s.allowed p (s.cpu p) = true

theorem SmpState.Booted.sound {m : Cpus n A} {T : TaskId → Prop} {s : SmpState n A}
    (h : s.Booted m) (hT : ∀ p, ¬ m.Movable p → T p) : s.Sound m T := by
  have hholds : ∀ a, s.holds m a = ∅ := by
    intro a
    simp [SmpState.holds, h.out, Place.holds]
  have hout : ∀ {P : A → Place n A → Prop}, (∀ a, P a .out) → ∀ a, P a (s.place a) := by
    intro P hP a
    rw [h.out]
    exact hP a
  have hborn : ∀ p, s.Born p := by
    intro p
    constructor
    · exact hout (P := fun _ q => q.task = some p → s.birth p = q.stage) fun _ hp => by cases hp
    · intro hw
      rw [h.births] at hw
      cases hw
    · exact fun hn => absurd (h.births p) hn
  refine ⟨⟨⟨?_, ?_⟩, ?_⟩, ?_, hT, fun p _ => h.births p, fun p _ => hborn p, ?_, ?_,
    fun c _ => h.curr c, ?_, ?_, h.threads, h.idles, ?_⟩
  · simp [h.unlocked, hholds]
  · simp [hholds]
  · exact hout (P := fun a q => q.Fits (m.home a)) fun _ => trivial
  · exact hout (P := fun _ q => q.Proper m) fun _ => trivial
  · exact hout (P := fun a q => (∀ p, q.task = some p → T p) → q.Knows (m.home a) s)
      fun _ _ => trivial
  · exact fun p c _ hp => Or.inl (h.queued p c hp)
  · exact hout (P := fun _ q => q.Migrating → _) fun _ => False.elim
  · simp [h.requests]
  · exact fun p => ⟨s.cpu p, h.allowed p⟩

variable [DecidableEq A]

/-- Paths do their statements, in any order. -/
def smpExec (m : Cpus n A) (o : A × PathChoice n) (s : SmpState n A) : Option (SmpState n A) :=
  s.step m o.1 o.2

/-- A run from the booted machine in which nothing but proper calls comes. -/
structure SmpRun (m : Cpus n A) (os : List (A × PathChoice n)) (s u : SmpState n A) : Prop where
  booted : s.Booted m
  proper : ∀ o ∈ os, o.2.Proper m
  run : run (smpExec m) os s = some u

/-- In the run `p` is left alone as long as it is being forked. -/
def ForkAlone (m : Cpus n A) (p : TaskId) (os : List (A × PathChoice n)) (s : SmpState n A) :
    Prop :=
  Along (smpExec m) (LeftAlone p) os s

/-- The tasks that are a CPU's own, and `p`. -/
def Cpus.OwnAnd (m : Cpus n A) (p q : TaskId) : Prop := q = p ∨ ¬ m.Movable q

section
variable {m : Cpus n A} {T : TaskId → Prop} {s t u v : SmpState n A} {a : A} {ch : PathChoice n}
  {p : TaskId} {c : Fin n} {os os' : List (A × PathChoice n)}

theorem smpStep_sound (hs : s.Sound m T) (hch : ch.Proper m)
    (hl : ∀ p, T p → m.Movable p → LeftAlone p s (a, ch)) (h : s.step m a ch = some t) :
    t.Sound m T := by
  apply (step_stepped h).sound hs hch
  intro p hT
  by_cases hp : m.Movable p
  · exact hl p hT hp
  · exact leftAlone_own (hs.own p) hch hp

/-- What proper steps preserve holds at the end of a run of such steps. -/
theorem smpRun_invariant {I : SmpState n A → Prop} {os : List (A × PathChoice n)}
    (hstep : ∀ s a ch t, I s → (a, ch) ∈ os → s.step m a ch = some t → I t) (hs : I s)
    (hr : PartialRun.run (smpExec m) os s = some u) : I u := by
  have hos : Along (smpExec m) (fun _ o => o ∈ os) os s := Along.of_forall fun o ho _ => ho
  exact run_invariant (fun s o t hI ho h => hstep s o.1 o.2 t hI ho h) hs hos hr

theorem SmpRun.sound (h : SmpRun m os s u) : u.Sound m fun q => ¬ m.Movable q :=
  smpRun_invariant (fun _ _ _ _ hs ho ht =>
      smpStep_sound hs (h.proper _ ho) (fun _ hT hp => absurd hp hT) ht)
    (h.booted.sound fun _ hp => hp) h.run

/-- What is known of a task that is left alone in its fork. -/
theorem smpStep_soundOf (hs : s.Sound m (m.OwnAnd p)) (hch : ch.Proper m)
    (hl : LeftAlone p s (a, ch)) (h : s.step m a ch = some t) : t.Sound m (m.OwnAnd p) := by
  refine smpStep_sound hs hch ?_ h
  rintro q (rfl | hq) hm
  · exact hl
  · exact absurd hm hq

theorem SmpRun.soundOf (h : SmpRun m os s u) (hp : ForkAlone m p os s) :
    u.Sound m (m.OwnAnd p) := by
  have hproper : Along (smpExec m) (fun _ o => o.2.Proper m) os s :=
    Along.of_forall fun o ho _ => h.proper o ho
  exact run_invariant (fun _ _ _ ht ⟨hch, hl⟩ hstep => smpStep_soundOf ht hch hl hstep)
    (h.booted.sound fun _ hq => Or.inr hq) (hproper.and hp) h.run

/-- A task that is not forked in the run is left alone. -/
theorem forkAlone_of_woken (hb : s.birth p = .woken) (hos : ∀ o ∈ os, o.2 ≠ .fork p) :
    ForkAlone m p os s := by
  induction os generalizing s with
  | nil => trivial
  | cons o os ih =>
    have ho : o.2 ≠ .fork p := hos o List.mem_cons_self
    refine ⟨⟨fun _ _ => hb, fun he => absurd he ho⟩, fun t ht => ih ?_ ?_⟩
    · rcases (step_stepped ht).sort with hact | ⟨l, q, rfl, -⟩
      · rcases hact.birth p with hsame | ⟨he, -⟩ | ⟨hold, -⟩ | ⟨-, hnew, -⟩
        · exact hsame.trans hb
        · exact absurd he ho
        · rw [hb] at hold
          cases hold
        · exact hnew
      · exact hb
    · exact fun o' ho' => hos o' (List.mem_cons_of_mem o ho')

/-! Deadlocks -/

/-- Path `a` waits for the lock of a runqueue that path `b` holds. -/
def SmpState.WaitsFor (m : Cpus n A) (s : SmpState n A) : A → A → Prop :=
  Locks.WaitsFor (s.holds m) fun a => ((s.place a).wants (m.home a)).map Prod.fst

omit [DecidableEq A] in
theorem SmpState.Locking.ascending (h : s.Locking m) :
    Ascending (s.holds m) fun a => ((s.place a).wants (m.home a)).map Prod.fst := by
  intro a l hl
  obtain ⟨⟨x, q⟩, hw, rfl⟩ := Option.map_eq_some_iff.mp hl
  exact wants_above (h.fits a) hw

omit [DecidableEq A] in
theorem SmpState.Sound.exists_ffs (hs : s.Sound m T) (p : TaskId) :
    ∃ c, ffs (s.allowed p) = some c := by
  obtain ⟨c, hc⟩ := hs.masks p
  cases hfind : ffs (s.allowed p) with
  | some d => exact ⟨d, rfl⟩
  | none => exact absurd hc (List.find?_eq_none.mp hfind c (List.mem_finRange c))

/-- The statement that a path can do next in any case. -/
def Place.go : Place n A → PathChoice n
  | out => .enter
  | holdThis => .leave
  | pulling _ => .stop
  | _ => .run

theorem SmpState.Sound.act_go (hs : s.Sound m T) (hw : (s.place a).wants (m.home a) = none)
    (hd : (s.place a).drops (m.home a) = none) (htry : ∀ b, s.place a ≠ .tryBusiest b)
    (hdown : ∀ p, s.place a ≠ .down p) : ∃ t, s.act m a (s.place a).go = some t := by
  cases hp : s.place a with
  | tryBusiest b => exact absurd hp (htry b)
  | down p => exact absurd hp (hdown p)
  | recheck p e rq =>
    by_cases hrq : rq = s.cpu p <;> simp [SmpState.act, hp, Place.go, hrq]
  | holding p e rq => cases e <;> simp [SmpState.act, hp, Place.go]
  | masked p mask rq =>
    obtain ⟨c, hc⟩ := hs.exists_ffs p
    simp only [SmpState.act, hp, Place.go, SmpState.applyMask]
    split_ifs <;> simp [hc]
  | ownQueue =>
    cases hq : s.migrationQueue (m.home a) <;>
      simp [SmpState.act, hp, Place.go, SmpState.setState, hq]
  | readDest r =>
    obtain ⟨c, hc⟩ := hs.exists_ffs r.task
    simp [SmpState.act, hp, Place.go, hc]
  | checkSrc r src dest =>
    by_cases hsrc : s.cpu r.task = src <;> simp [SmpState.act, hp, Place.go, hsrc]
  | moveCpu r src dest =>
    by_cases hsrc : src = m.home a <;> simp [SmpState.act, hp, Place.go, hsrc]
  | dequeue r src dest =>
    by_cases harr : s.array r.task = none <;> simp [SmpState.act, hp, Place.go, harr]
  | out | repeatLockTask | holdThis | pulling | pulled | carried | readSrc | enqueue | up
  | forkLocked | forkPlaced =>
    simp [SmpState.act, hp, Place.go]
  | lockTask | lockThis | lockBusiest | relockThis | waitBusiest | lockOwn | lockFirst
  | lockSecond | lockForked =>
    rw [hp] at hw
    cases hw
  | unlockTask | unlockThis | dropThis | unlockBusiest | unlockOwn | unlockSrc | unlockDest =>
    rw [hp] at hd
    cases hd

/-- A path can do its next statement, unless it waits for a lock or a migration. -/
theorem SmpState.Sound.step_go (hs : s.Sound m T)
    (hw : ∀ l q, (s.place a).wants (m.home a) = some (l, q) → s.locked l = false)
    (hdown : ∀ p, s.place a ≠ .down p) : ∃ t, s.step m a (s.place a).go = some t := by
  unfold SmpState.step
  cases hwants : (s.place a).wants (m.home a) with
  | some x => simp [hw x.1 x.2 hwants]
  | none =>
    cases hdrops : (s.place a).drops (m.home a) with
    | some x => simp
    | none =>
      dsimp only
      split
      · split_ifs <;> simp
      · exact hs.act_go hwants hdrops ‹_› hdown

omit [DecidableEq A] in
theorem Place.go_proper (q : Place n A) : q.go.Proper m := by
  cases q <;> trivial

/-- No run comes to a deadlock: from a path that waits for the lock of a runqueue, going on to
the holder of the lock leads to a path that can do its next statement. -/
theorem lockChain_ends (h : SmpRun m os s u) (ha : ∀ p, u.place a ≠ .down p) :
    ∃ b, Relation.ReflTransGen (u.WaitsFor m) a b ∧ ∃ ch, ch.Proper m ∧
      ∃ v, u.step m b ch = some v := by
  have hu := h.sound
  obtain ⟨b, hab, hfree⟩ := exists_unblocked hu.locking.exclusive hu.locking.ascending a
  refine ⟨b, hab, _, Place.go_proper _, hu.step_go ?_ ?_⟩
  · intro l q hw
    exact hfree l (by simp [hw])
  · rcases Relation.ReflTransGen.cases_tail hab with rfl | ⟨x, -, l, -, hl⟩
    · exact ha
    · -- who waits for a migration holds no lock
      intro p hp
      rw [SmpState.holds, hp] at hl
      cases hl

/-- Two CPUs, with three paths each. -/
def twoCpus : Cpus 2 (Fin 6) where
  home := ![0, 1, 0, 1, 0, 1]
  migrationThread c := 2 + c
  idle c := c
  thread := ![0, 1]
  home_thread := by decide
  thread_inj := by decide
  idle_inj := by decide
  idle_ne := by decide

/-- Task 4 runs on CPU 0. -/
def twoBooted : SmpState 2 (Fin 6) where
  locked _ := false
  cpu p := if p % 2 = 0 then 0 else 1
  allowed p c := p ≠ 2 ∧ p ≠ 3 ∨ (c : ℕ) = p % 2
  array p := if p = 4 then some 0 else none
  state p := if p = 4 then .running else .interruptible
  birth _ := .woken
  curr := ![4, 1]
  migrationQueue _ := []
  sem _ := 0
  place _ := .out

theorem twoBooted_booted : twoBooted.Booted twoCpus where
  unlocked _ := rfl
  out _ := rfl
  requests _ := rfl
  sems _ := rfl
  births _ := rfl
  queued p c hp := by
    by_cases h : p = 4
    · subst h
      exact Option.some.inj hp
    · simp [twoBooted, h] at hp
  curr := by decide
  threads := by decide
  idles := by decide
  allowed p := by
    have hcpu : (twoBooted.cpu p : ℕ) = p % 2 := by
      by_cases h : p % 2 = 0
      · simp [twoBooted, h]
      · simp [twoBooted, Nat.mod_two_ne_zero.mp h]
    exact decide_eq_true (Or.inr hcpu)

/-- Either CPU wants to pull tasks from the other. -/
def pullers : List (Fin 6 × PathChoice 2) :=
  [(2, .enter), (2, .run), (3, .enter), (3, .run), (2, .balance 1), (2, .run), (3, .balance 0),
    (3, .run)]

theorem lockChain_ends_pullers : ∃ u, SmpRun twoCpus pullers twoBooted u ∧
    u.place 2 = .waitBusiest 1 ∧ ∃ b, Relation.ReflTransGen (u.WaitsFor twoCpus) 2 b ∧
      ∃ ch, ch.Proper twoCpus ∧ ∃ v, u.step twoCpus b ch = some v := by
  have hrun : SmpRun twoCpus pullers twoBooted _ :=
    ⟨twoBooted_booted, by simp [pullers, PathChoice.Proper], rfl⟩
  exact ⟨_, hrun, rfl, lockChain_ends hrun (by rintro p ⟨⟩)⟩

/-- Task 4 is to go to CPU 1. The migration thread of CPU 0 is about to take it off its queue. -/
def migration : List (Fin 6 × PathChoice 2) :=
  (2, .call 4 (.setAllowed ![false, true])) :: List.replicate 11 (2, .run) ++
    [(4, .enter), (4, .run), (4, .switch 2), (4, .leave), (4, .run), (0, .thread)] ++
    List.replicate 9 (0, .run)

/-- The migration goes on to its end. -/
def migrated : List (Fin 6 × PathChoice 2) := migration ++ List.replicate 5 (0, .run) ++ [(2, .run)]

theorem migration_proper : ∀ o ∈ migration, o.2.Proper twoCpus := by
  simp [migration, PathChoice.Proper, Errand.Proper, Cpus.Movable, twoCpus]

theorem migration_alone : ForkAlone twoCpus 4 migration twoBooted :=
  forkAlone_of_woken rfl (by simp [migration])

theorem migration_run : ∃ u, SmpRun twoCpus migration twoBooted u ∧ u.array 4 = some 0 ∧
    (u.place 0).stage = .woken ∧ ∃ v, u.step twoCpus 0 .run = some v ∧ v.array 4 = none := by
  have hview : (run (smpExec twoCpus) migration twoBooted).map (fun u =>
      (u.array 4, (u.place 0).stage, (u.step twoCpus 0 .run).map fun v => v.array 4)) =
        some (some 0, .woken, some none) := by
    decide +kernel
  obtain ⟨u, hu, hall⟩ := Option.map_eq_some_iff.mp hview
  simp only [Prod.mk.injEq] at hall
  obtain ⟨harr, hstage, hstep⟩ := hall
  obtain ⟨v, hv, hnone⟩ := Option.map_eq_some_iff.mp hstep
  exact ⟨u, ⟨twoBooted_booted, migration_proper, hu⟩, harr, hstage, v, hv, hnone⟩

/-- Task 4 forks task 6. -/
def forking : List (Fin 6 × PathChoice 2) :=
  [(2, .fork 6), (2, .wakeForked 6), (2, .run), (2, .run), (2, .run), (2, .run)]

theorem forking_alone : ForkAlone twoCpus 6 forking twoBooted := by
  have hunused : twoBooted.Unused 6 := by
    refine ⟨⟨rfl, by decide, ?_⟩, ?_⟩
    · simp [twoBooted]
    · simp [twoBooted, Place.task]
  refine ⟨⟨fun _ _ => rfl, fun _ => hunused⟩, fun t _ => Along.of_forall fun o ho u => ?_⟩
  simp only [List.mem_cons, List.not_mem_nil, or_false, or_self] at ho
  rcases ho with rfl | rfl
  · exact .of_ne (by rintro e ⟨⟩) (by rintro ⟨⟩)
  · exact .of_ne (by rintro e ⟨⟩) (by rintro ⟨⟩)

theorem forking_run : ∃ u, SmpRun twoCpus forking twoBooted u ∧ u.array 6 = some 0 := by
  have hview : (run (smpExec twoCpus) forking twoBooted).map (fun u => u.array 6) =
      some (some 0) := by
    decide +kernel
  obtain ⟨u, hu, harr⟩ := Option.map_eq_some_iff.mp hview
  refine ⟨u, ⟨twoBooted_booted, ?_, hu⟩, harr⟩
  simp [forking, PathChoice.Proper, Cpus.Movable, twoCpus]

/-! Who writes what -/

theorem Stepped.owner (h : Stepped m a s ch t) (hs : s.Sound m T) (hT : T p) :
    t.cpu p = s.cpu p ∧ t.array p = s.array p ∧ t.allowed p = s.allowed p ∨
      s.cpu p ∈ s.holds m a ∨ ch = .fork p ∨ s.place a = .forkLocked p := by
  rcases h.sort with hact | ⟨l, q, rfl, -⟩
  · exact hact.owner hs hT
  · exact Or.inl ⟨rfl, rfl, rfl⟩

theorem Stepped.owner_rq (h : Stepped m a s ch t) (c : Fin n) :
    t.curr c = s.curr c ∧ t.migrationQueue c = s.migrationQueue c ∨ c ∈ s.holds m a := by
  rcases h.sort with hact | ⟨l, q, rfl, -⟩
  · rcases hact.owner_curr c with hcurr | hc
    · rcases hact.owner_requests c with hreq | hc
      · exact Or.inl ⟨hcurr, hreq⟩
      · exact Or.inr hc
    · exact Or.inr hc
  · exact Or.inl ⟨rfl, rfl⟩

omit [DecidableEq A] in
/-- Whoever forks a task has it for himself: it is at rest, and no other path works on it. -/
theorem SmpState.Sound.forks (hs : s.Sound m T) (hT : T p) (hl : LeftAlone p s (a, ch))
    (h : ch = .fork p ∨ s.place a = .forkLocked p) :
    s.Resting p ∧ ∀ b, b ≠ a → (s.place b).task ≠ some p := by
  rcases h with rfl | hp
  · have hun := hl.fork rfl
    exact ⟨hun.toResting, fun b _ => hun.task b⟩
  · have htask : (s.place a).task = some p := by rw [hp]; rfl
    have hstage : (s.place a).stage = .waking := by rw [hp]; rfl
    refine ⟨(hs.born p hT).resting ?_, (hs.born p hT).waking htask hstage⟩
    rw [(hs.born p hT).stage a htask, hstage]
    rintro ⟨⟩

/-- There are no races: the lock of a runqueue is set just when one path holds it, and the current
task and the migration requests of a runqueue are written by the holder of its lock. So are the
CPU, the queue and the mask of a task that is left alone while it is forked; the copy of its fork
and `wake_up_forked_process`, which holds another lock, have the task for themselves. -/
theorem shared_underLock (h : SmpRun m os s u) (ht : u.step m a ch = some v) :
    (∀ c, u.locked c = true ↔ ∃! b, c ∈ u.holds m b) ∧
    (∀ c, v.curr c ≠ u.curr c ∨ v.migrationQueue c ≠ u.migrationQueue c → c ∈ u.holds m a) ∧
    ∀ p, ForkAlone m p os s → LeftAlone p u (a, ch) →
      v.cpu p ≠ u.cpu p ∨ v.array p ≠ u.array p ∨ v.allowed p ≠ u.allowed p →
      u.cpu p ∈ u.holds m a ∨ (ch = .fork p ∨ u.place a = .forkLocked p) ∧ u.Resting p ∧
        ∀ b, b ≠ a → (u.place b).task ≠ some p := by
  have hl := h.sound.locking
  have hstep := step_stepped ht
  refine ⟨fun c => ⟨fun hc => ?_, fun hc => ?_⟩, fun c hc => ?_, fun p hp hleft hne => ?_⟩
  · obtain ⟨b, hb⟩ := (hl.exclusive.locked c).mp hc
    exact ⟨b, hb, fun d hd => hl.exclusive.unique c d b hd hb⟩
  · exact (hl.exclusive.locked c).mpr hc.exists
  · rcases hstep.owner_rq c with ⟨h1, h2⟩ | hown
    · simp [h1, h2] at hc
    · exact hown
  · have hu := h.soundOf hp
    rcases hstep.owner hu (Or.inl rfl) with ⟨h1, h2, h3⟩ | hown | hfork
    · simp [h1, h2, h3] at hne
    · exact Or.inl hown
    · exact Or.inr ⟨hfork, hu.forks (Or.inl rfl) hleft hfork⟩

theorem shared_underLock_migration : ∃ u v, SmpRun twoCpus migration twoBooted u ∧
    u.step twoCpus 0 .run = some v ∧ u.array 4 = some 0 ∧ v.array 4 = none ∧
    u.cpu 4 ∈ u.holds twoCpus 0 := by
  obtain ⟨u, hrun, harr, hstage, v, hv, hnone⟩ := migration_run
  have hleft : LeftAlone 4 u (0, .run) := .of_ne (by rintro e ⟨⟩) (by rintro ⟨⟩)
  have hne : v.array 4 ≠ u.array 4 := by
    rw [harr, hnone]
    rintro ⟨⟩
  refine ⟨u, v, hrun, hv, harr, hnone, ?_⟩
  rcases (shared_underLock hrun hv).2.2 4 migration_alone hleft (Or.inr (Or.inl hne)) with
    hown | ⟨he | he, -⟩
  · exact hown
  · cases he
  · rw [he] at hstage
    cases hstage

/-- What `task_rq_lock` returns is the runqueue of the task, if the task is left alone while it is
forked. Whatever the other paths do before the lock is let go, the task stays on the runqueue, and
this keeps its current task and requests. -/
theorem taskRqLock_stays {e : Errand n} (h : SmpRun m os s u) (halone : ForkAlone m p os s)
    (hp : u.place a = .holding p e c) (hos : ∀ o ∈ os', o.1 ≠ a ∧ o.2.Proper m)
    (halone' : ForkAlone m p os' u) (hr : run (smpExec m) os' u = some v) :
    v.place a = .holding p e c ∧ v.locked c = true ∧ v.cpu p = c ∧ v.array p = u.array p ∧
      v.allowed p = u.allowed p ∧ v.curr c = u.curr c ∧
      v.migrationQueue c = u.migrationQueue c := by
  have hT : m.OwnAnd p p := Or.inl rfl
  have hholds : ∀ t : SmpState n A, t.place a = .holding p e c → c ∈ t.holds m a :=
    fun t ht => holds_of_place ht (by simp [Place.holds])
  have hops := Along.and
    (Along.of_forall (C := fun _ o => o.1 ≠ a ∧ o.2.Proper m) fun o ho _ => hos o ho) halone'
  have hrun : v.Sound m (m.OwnAnd p) ∧ v.place a = .holding p e c ∧ v.array p = u.array p ∧
      v.allowed p = u.allowed p ∧ v.curr c = u.curr c ∧
      v.migrationQueue c = u.migrationQueue c := by
    refine run_invariant (I := fun t => t.Sound m (m.OwnAnd p) ∧ t.place a = .holding p e c ∧
      t.array p = u.array p ∧ t.allowed p = u.allowed p ∧ t.curr c = u.curr c ∧
      t.migrationQueue c = u.migrationQueue c) ?_
      ⟨h.soundOf halone, hp, rfl, rfl, rfl, rfl⟩ hops hr
    rintro t ⟨b, ch⟩ t' ⟨ht, hplace, h1, h2, h3, h4⟩ ⟨⟨hba, hch⟩, hleft⟩ hstep
    have hst : Stepped m b t ch t' := step_stepped hstep
    have hcpu : t.cpu p = c := ht.knows_at hplace rfl hT
    -- the lock is held, so it is not `b` that holds it, and the fork of the task is over
    have hno : c ∉ t.holds m b :=
      fun hb => hba (ht.locking.exclusive.unique c b a hb (hholds t hplace))
    have hfork : ¬ (ch = .fork p ∨ t.place b = .forkLocked p) := fun hf =>
      (ht.forks hT hleft hf).2 a hba.symm (by rw [hplace]; rfl)
    obtain ⟨-, harr, hmask⟩ := (hst.owner ht hT).resolve_right
      (not_or.mpr ⟨hcpu.symm ▸ hno, hfork⟩)
    obtain ⟨hcurr, hreq⟩ := (hst.owner_rq c).resolve_right hno
    exact ⟨smpStep_soundOf ht hch hleft hstep, (hst.place_ne hba.symm).trans hplace,
      harr.trans h1, hmask.trans h2, hcurr.trans h3, hreq.trans h4⟩
  obtain ⟨hv, hplace, hrest⟩ := hrun
  have hcpu : v.cpu p = c := hv.knows_at hplace rfl hT
  exact ⟨hplace, (hv.locking.exclusive.locked c).mpr ⟨a, hholds v hplace⟩, hcpu, hrest⟩

theorem taskRqLock_stays_waker : ∃ u v,
    SmpRun twoCpus ((2, .call 5 (.wakeUp false)) :: List.replicate 3 (2, .run)) twoBooted u ∧
    u.place 2 = .holding 5 (.wakeUp false) 1 ∧
    run (smpExec twoCpus) [(3, .call 5 .other), (3, .run)] u = some v ∧
    v.place 3 = .lockTask 5 .other 1 ∧ v.place 2 = .holding 5 (.wakeUp false) 1 ∧
    v.locked 1 = true ∧ v.cpu 5 = 1 ∧ v.array 5 = u.array 5 ∧ v.allowed 5 = u.allowed 5 ∧
    v.curr 1 = u.curr 1 ∧ v.migrationQueue 1 = u.migrationQueue 1 := by
  have hrun : SmpRun twoCpus ((2, .call 5 (.wakeUp false)) :: List.replicate 3 (2, .run))
      twoBooted _ :=
    ⟨twoBooted_booted, by simp [PathChoice.Proper, Errand.Proper, twoCpus], rfl⟩
  have hothers : ∀ o ∈ ([(3, .call 5 .other), (3, .run)] : List (Fin 6 × PathChoice 2)),
      o.1 ≠ 2 ∧ o.2.Proper twoCpus := by
    simp [PathChoice.Proper, Errand.Proper, twoCpus]
  exact ⟨_, _, hrun, rfl, rfl, rfl, taskRqLock_stays hrun
    (forkAlone_of_woken rfl (by simp)) rfl hothers (forkAlone_of_woken rfl (by simp)) rfl⟩

/-- No task that is left alone while it is forked is current on two CPUs or on one that it does not
belong to. It is queued on the CPU that it belongs to, unless a migration thread that holds both
locks is just about to take it off the queue. -/
theorem task_onOneCpu (h : SmpRun m os s u) (halone : ForkAlone m p os s) :
    (∀ c, u.curr c = p → u.cpu p = c) ∧ (∀ c d, u.curr c = p → u.curr d = p → c = d) ∧
    ∀ c, u.array p = some c → u.cpu p = c ∨
      ∃ a r, u.place a = .dequeue r c (u.cpu p) ∧ r.task = p ∧ c ∈ u.holds m a ∧
        u.cpu p ∈ u.holds m a := by
  have hu := h.soundOf halone
  have hcurr : ∀ c, u.curr c = p → u.cpu p = c := by
    rintro c rfl
    exact hu.curr c (Or.inl rfl)
  refine ⟨hcurr, ?_, ?_⟩
  · exact fun c d hc hd => (hcurr c hc).symm.trans (hcurr d hd)
  · intro c hp
    rcases hu.placed p c (Or.inl rfl) hp with hcpu | ⟨a, r, d, ha, rfl⟩
    · exact Or.inl hcpu
    · have hd : u.cpu r.task = d := (hu.knows_at ha rfl (Or.inl rfl)).1
      refine Or.inr ⟨a, r, hd.symm ▸ ha, rfl, ?_, ?_⟩
      · exact holds_of_place ha (by simp [Place.holds])
      · exact holds_of_place ha (by simp [Place.holds, hd])

/-- A task that has just been forked. -/
theorem task_onOneCpu_forking : ∃ u, SmpRun twoCpus forking twoBooted u ∧ u.array 6 = some 0 ∧
    (∀ c, u.curr c = 6 → u.cpu 6 = c) ∧ (∀ c d, u.curr c = 6 → u.curr d = 6 → c = d) ∧
    ∀ c, u.array 6 = some c → u.cpu 6 = c ∨
      ∃ a r, u.place a = .dequeue r c (u.cpu 6) ∧ r.task = 6 ∧ c ∈ u.holds twoCpus a ∧
        u.cpu 6 ∈ u.holds twoCpus a := by
  obtain ⟨u, hrun, harr⟩ := forking_run
  exact ⟨u, hrun, harr, task_onOneCpu hrun forking_alone⟩

/-- A mask that is set before the first wake-up races with it: the caller holds the lock of CPU 0,
`wake_up_forked_process` that of CPU 1, and the task is queued there while it belongs to CPU 0. -/
example : ((run (smpExec twoCpus) ([(2, .fork 6), (4, .call 6 (.setAllowed ![true, false]))] ++
    List.replicate 4 (4, .run) ++
    [(3, .wakeForked 6), (3, .run), (3, .run), (4, .run), (3, .run)]) twoBooted).map fun u =>
      (u.birth 6, u.cpu 6, u.array 6)) = some (.woken, 0, some 1) := by
  decide +kernel

end
end ShortSched
