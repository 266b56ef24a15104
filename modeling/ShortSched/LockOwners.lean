import ShortSched.RunqueueLocks

/-! Who holds the locks of the runqueues, and in which order they are taken. -/
namespace ShortSched
open Locks

variable {n : ℕ} {A : Type}

/-- The locks that are held at a place. -/
def Place.holds (me : Fin n) : Place n A → Finset (Fin n)
  | recheck _ _ rq | holding _ _ rq | masked _ _ rq | unlockTask rq _ => {rq}
  | holdThis | unlockThis | tryBusiest _ | dropThis _ | waitBusiest _ | ownQueue | unlockOwn _
  | forkLocked _ | forkPlaced _ => {me}
  | relockThis b => {b}
  | pulling b | pulled b _ | carried b _ | unlockBusiest b => {me, b}
  | lockSecond _ src dest => {min src dest}
  | checkSrc _ src dest | moveCpu _ src dest | dequeue _ src dest | enqueue _ src dest
  | unlockSrc _ src dest _ => {src, dest}
  | unlockDest _ dest _ => {dest}
  | _ => ∅

/-- What is known of the runqueues at a place. -/
def Place.Fits (me : Fin n) : Place n A → Prop
  | dropThis b | lockBusiest b | relockThis b => b < me
  | waitBusiest b => me < b
  | tryBusiest b | pulling b | pulled b _ | carried b _ | unlockBusiest b => b ≠ me
  | lockSecond _ src dest => src ≠ dest
  | dequeue _ src _ | enqueue _ src _ => src = me
  | _ => True

section
variable {me l : Fin n} {q q' : Place n A}

theorem onward_holds (k : Onward n) : (k.place : Place n A).holds me = ∅ := by
  cases k <;> rfl

theorem onward_fits (k : Onward n) : (k.place : Place n A).Fits me := by
  cases k <;> trivial

theorem finished_holds (r : MigrationReq A) (d : Fin n) (again : Bool) :
    (Place.finished r d again).holds me = ∅ := by
  cases again <;> rfl

theorem finished_fits (r : MigrationReq A) (d : Fin n) (again : Bool) :
    (Place.finished r d again).Fits me := by
  cases again <;> trivial

/-- Taking a lock. -/
theorem wants_holds (h : q.wants me = some (l, q')) : q'.holds me = insert l (q.holds me) := by
  cases q with
  | lockFirst r src dest =>
    simp only [Place.wants, Option.some.injEq, Prod.mk.injEq] at h
    obtain ⟨rfl, rfl⟩ := h
    split_ifs with he <;> simp [Place.holds, he]
  | lockSecond r src dest =>
    simp only [Place.wants, Option.some.injEq, Prod.mk.injEq] at h
    obtain ⟨rfl, rfl⟩ := h
    rcases le_total src dest with hle | hle
    · simp [Place.holds, hle, Finset.pair_comm]
    · simp [Place.holds, hle]
  | waitBusiest b =>
    simp only [Place.wants, Option.some.injEq, Prod.mk.injEq] at h
    obtain ⟨rfl, rfl⟩ := h
    exact Finset.pair_comm _ _
  | lockTask | lockThis | lockBusiest | relockThis | lockOwn | lockForked =>
    simp only [Place.wants, Option.some.injEq, Prod.mk.injEq] at h
    obtain ⟨rfl, rfl⟩ := h
    simp [Place.holds]
  | _ => cases h

theorem wants_fits (hq : q.Fits me) (h : q.wants me = some (l, q')) : q'.Fits me := by
  cases q with
  | lockFirst r src dest =>
    simp only [Place.wants, Option.some.injEq, Prod.mk.injEq] at h
    obtain ⟨-, rfl⟩ := h
    split_ifs with he
    · trivial
    · exact he
  | lockTask | lockThis | lockOwn | lockSecond | lockForked =>
    simp only [Place.wants, Option.some.injEq, Prod.mk.injEq] at h
    obtain ⟨-, rfl⟩ := h
    trivial
  | lockBusiest b =>
    simp only [Place.wants, Option.some.injEq, Prod.mk.injEq] at h
    obtain ⟨-, rfl⟩ := h
    exact hq
  | relockThis b =>
    simp only [Place.wants, Option.some.injEq, Prod.mk.injEq] at h
    obtain ⟨-, rfl⟩ := h
    exact ne_of_lt hq
  | waitBusiest b =>
    simp only [Place.wants, Option.some.injEq, Prod.mk.injEq] at h
    obtain ⟨-, rfl⟩ := h
    exact ne_of_gt hq
  | _ => cases h

/-- The locking rule: a lock that is waited for lies above those that are held. -/
theorem wants_above (hq : q.Fits me) (h : q.wants me = some (l, q')) :
    ∀ x ∈ q.holds me, x < l := by
  cases q with
  | lockSecond r src dest =>
    simp only [Place.wants, Option.some.injEq, Prod.mk.injEq] at h
    obtain ⟨rfl, -⟩ := h
    have hne : dest ≠ src := Ne.symm hq
    simpa [Place.holds] using hne
  | relockThis b =>
    simp only [Place.wants, Option.some.injEq, Prod.mk.injEq] at h
    obtain ⟨rfl, -⟩ := h
    have hlt : b < me := hq
    simpa [Place.holds] using hlt
  | waitBusiest b =>
    simp only [Place.wants, Option.some.injEq, Prod.mk.injEq] at h
    obtain ⟨rfl, -⟩ := h
    have hlt : me < b := hq
    simpa [Place.holds] using hlt
  | lockTask | lockThis | lockBusiest | lockOwn | lockFirst | lockForked => simp [Place.holds]
  | _ => cases h

/-- Letting a lock go. -/
theorem drops_holds (hq : q.Fits me) (h : q.drops me = some (l, q')) :
    l ∈ q.holds me ∧ q'.holds me = (q.holds me).erase l ∧ q'.Fits me := by
  cases q with
  | unlockTask rq k =>
    simp only [Place.drops, Option.some.injEq, Prod.mk.injEq] at h
    obtain ⟨rfl, rfl⟩ := h
    rw [onward_holds]
    exact ⟨by simp [Place.holds], by simp [Place.holds], onward_fits k⟩
  | unlockThis =>
    simp only [Place.drops, Option.some.injEq, Prod.mk.injEq] at h
    obtain ⟨rfl, rfl⟩ := h
    exact ⟨by simp [Place.holds], by simp [Place.holds], trivial⟩
  | dropThis b =>
    simp only [Place.drops, Option.some.injEq, Prod.mk.injEq] at h
    obtain ⟨rfl, rfl⟩ := h
    exact ⟨by simp [Place.holds], by simp [Place.holds], hq⟩
  | unlockBusiest b =>
    simp only [Place.drops, Option.some.injEq, Prod.mk.injEq] at h
    obtain ⟨rfl, rfl⟩ := h
    have hne : b ≠ me := hq
    exact ⟨by simp [Place.holds], by simp [Place.holds, Finset.pair_comm me, hne], trivial⟩
  | unlockOwn o =>
    simp only [Place.drops, Option.some.injEq, Prod.mk.injEq] at h
    obtain ⟨rfl, rfl⟩ := h
    cases o <;> exact ⟨by simp [Place.holds], by simp [Place.holds], trivial⟩
  | unlockSrc r src dest again =>
    simp only [Place.drops, Option.some.injEq, Prod.mk.injEq] at h
    obtain ⟨rfl, rfl⟩ := h
    split_ifs with he
    · rw [finished_holds]
      exact ⟨by simp [Place.holds], by simp [Place.holds, he], finished_fits r dest again⟩
    · exact ⟨by simp [Place.holds], by simp [Place.holds, he], trivial⟩
  | unlockDest r dest again =>
    simp only [Place.drops, Option.some.injEq, Prod.mk.injEq] at h
    obtain ⟨rfl, rfl⟩ := h
    rw [finished_holds]
    exact ⟨by simp [Place.holds], by simp [Place.holds], finished_fits r dest again⟩
  | _ => cases h

end

/-- How a step that takes or lets go a lock leads from place to place. -/
inductive LockStep : Place n A → Place n A → Prop
  | lockTask (p e rq) : LockStep (.lockTask p e rq) (.recheck p e rq)
  | lockThis : LockStep .lockThis .holdThis
  | lockBusiest (b) : LockStep (.lockBusiest b) (.relockThis b)
  | relockThis (b) : LockStep (.relockThis b) (.pulling b)
  | waitBusiest (b) : LockStep (.waitBusiest b) (.pulling b)
  | lockOwn : LockStep .lockOwn .ownQueue
  | lockOne (r c d) : LockStep (.lockFirst r c d) (.checkSrc r c d)
  | lockFirst (r c d) : LockStep (.lockFirst r c d) (.lockSecond r c d)
  | lockSecond (r c d) : LockStep (.lockSecond r c d) (.checkSrc r c d)
  | unlockTask (rq k) : LockStep (.unlockTask rq k) (Onward.place k)
  | unlockThis : LockStep .unlockThis .out
  | dropThis (b) : LockStep (.dropThis b) (.lockBusiest b)
  | unlockBusiest (b) : LockStep (.unlockBusiest b) .holdThis
  | unlockEmpty : LockStep (.unlockOwn none) .out
  | unlockOwn (r) : LockStep (.unlockOwn (some r)) (.readDest r)
  | unlockOne (r c d again) : LockStep (.unlockSrc r c d again) (.finished r d again)
  | unlockSrc (r c d again) : LockStep (.unlockSrc r c d again) (.unlockDest r d again)
  | unlockDest (r d again) : LockStep (.unlockDest r d again) (.finished r d again)
  | lockForked (p) : LockStep (.lockForked p) (.forkLocked p)
  | tryDrops (b) : LockStep (.tryBusiest b) (.dropThis b)
  | tryWaits (b) : LockStep (.tryBusiest b) (.waitBusiest b)
  | tryTakes (b) : LockStep (.tryBusiest b) (.pulling b)

theorem wants_lockStep {me l : Fin n} {q q' : Place n A} (h : q.wants me = some (l, q')) :
    LockStep q q' := by
  cases q with
  | lockFirst r c d =>
    simp only [Place.wants, Option.some.injEq, Prod.mk.injEq] at h
    obtain ⟨-, rfl⟩ := h
    split_ifs
    · exact .lockOne r c d
    · exact .lockFirst r c d
  | lockTask | lockThis | lockBusiest | relockThis | waitBusiest | lockOwn | lockSecond
  | lockForked =>
    simp only [Place.wants, Option.some.injEq, Prod.mk.injEq] at h
    obtain ⟨-, rfl⟩ := h
    constructor
  | _ => cases h

theorem drops_lockStep {me l : Fin n} {q q' : Place n A} (h : q.drops me = some (l, q')) :
    LockStep q q' := by
  cases q with
  | unlockOwn o =>
    simp only [Place.drops, Option.some.injEq, Prod.mk.injEq] at h
    obtain ⟨-, rfl⟩ := h
    cases o <;> constructor
  | unlockSrc r c d again =>
    simp only [Place.drops, Option.some.injEq, Prod.mk.injEq] at h
    obtain ⟨-, rfl⟩ := h
    split_ifs
    · exact .unlockOne r c d again
    · exact .unlockSrc r c d again
  | unlockTask | unlockThis | dropThis | unlockBusiest | unlockDest =>
    simp only [Place.drops, Option.some.injEq, Prod.mk.injEq] at h
    obtain ⟨-, rfl⟩ := h
    constructor
  | _ => cases h

/-! One statement, case by case. -/

/-- Where `try_to_wake_up` returns to. -/
def Errand.onward : Errand n → Option (Onward n)
  | .wakeUp _ => some .out
  | .kick q => some (.down q)
  | _ => none

variable [DecidableEq A]

/-- What `SmpState.act` does. -/
inductive Acted (m : Cpus n A) (a : A) (s : SmpState n A) : PathChoice n → SmpState n A → Prop
  | call (p e) (hp : s.place a = .out) : Acted m a s (.call p e) (s.goto a (.repeatLockTask p e))
  | fork (p) (hp : s.place a = .out) : Acted m a s (.fork p) (s.copyCurrent p (m.home a))
  | wakeForked (p) (hp : s.place a = .out) (hb : s.birth p = .copied) :
      Acted m a s (.wakeForked p) ((s.setBirth p .waking).goto a (.lockForked p))
  | enter (hp : s.place a = .out) : Acted m a s .enter (s.goto a .lockThis)
  | thread (hp : s.place a = .out) (ha : a = m.thread (m.home a))
      (hc : s.curr (m.home a) = m.migrationThread (m.home a)) :
      Acted m a s .thread (s.goto a .lockOwn)
  | sleep (hp : s.place a = .out) (hc : s.curr (m.home a) ≠ m.migrationThread (m.home a)) :
      Acted m a s .sleep (s.setState (s.curr (m.home a)) .interruptible)
  | look (p e) (hp : s.place a = .repeatLockTask p e) :
      Acted m a s .run (s.goto a (.lockTask p e (s.cpu p)))
  | missed (p e rq) (hp : s.place a = .recheck p e rq) (hne : rq ≠ s.cpu p) :
      Acted m a s .run (s.goto a (.unlockTask rq (.again p e)))
  | got (p e rq) (hp : s.place a = .recheck p e rq) (he : rq = s.cpu p) :
      Acted m a s .run (s.goto a (.holding p e rq))
  | fastMigrate (p e rq) (hp : s.place a = .holding p e rq) (harr : s.array p = none)
      (hcurr : s.curr rq ≠ p) (hmask : s.allowed p (m.home a) = true)
      (he : ∀ q, e ≠ .kick q) (hset : ∀ mask, e ≠ .setAllowed mask) :
      Acted m a s .run ((s.setCpu p (m.home a)).goto a (.unlockTask rq (.again p e)))
  | activate (p e rq k) (hp : s.place a = .holding p e rq) (hk : e.onward = some k)
      (harr : s.array p = none) :
      Acted m a s .run (((s.setArray p (some rq)).setState p .running).goto a (.unlockTask rq k))
  | awake (p e rq k) (hp : s.place a = .holding p e rq) (hk : e.onward = some k)
      (harr : s.array p ≠ none) :
      Acted m a s .run ((s.setState p .running).goto a (.unlockTask rq k))
  | mask (p mask rq) (hp : s.place a = .holding p (.setAllowed mask) rq) :
      Acted m a s .run ({ s with allowed := Function.update s.allowed p mask }.goto a
        (.masked p mask rq))
  | other (p rq) (hp : s.place a = .holding p .other rq) :
      Acted m a s .run (s.goto a (.unlockTask rq .out))
  | fits (p mask rq) (hp : s.place a = .masked p mask rq) (hmask : mask (s.cpu p) = true) :
      Acted m a s .run (s.goto a (.unlockTask rq .out))
  | moveIdle (p mask rq c) (hp : s.place a = .masked p mask rq) (harr : s.array p = none)
      (hcurr : p ≠ s.curr rq) (hc : ffs (s.allowed p) = some c) :
      Acted m a s .run ((s.setCpu p c).goto a (.unlockTask rq .out))
  | request (p mask rq) (hp : s.place a = .masked p mask rq) (hmask : mask (s.cpu p) = false) :
      Acted m a s .run ({ s with
        sem := Function.update s.sem a 0
        migrationQueue := Function.update s.migrationQueue rq (⟨p, a⟩ :: s.migrationQueue rq)
        }.goto a (.unlockTask rq (.again (m.migrationThread rq) (.kick p))))
  | down (p) (hp : s.place a = .down p) (hs : s.sem a ≠ 0) :
      Acted m a s .run ({ s with sem := Function.update s.sem a (s.sem a - 1) }.goto a .out)
  | deactivate (hp : s.place a = .holdThis) (hs : s.state (s.curr (m.home a)) ≠ .running) :
      Acted m a s .deactivate (s.setArray (s.curr (m.home a)) none)
  | switch (q) (hp : s.place a = .holdThis)
      (hq : q = m.idle (m.home a) ∨ s.array q = some (m.home a))
      (hout : (s.place (m.thread (m.home a))).isOut = true) :
      Acted m a s (.switch q) { s with curr := Function.update s.curr (m.home a) q }
  | balance (b) (hp : s.place a = .holdThis) (hb : b ≠ m.home a) :
      Acted m a s (.balance b) (s.goto a (.tryBusiest b))
  | leave (hp : s.place a = .holdThis) : Acted m a s .leave (s.goto a .unlockThis)
  | pull (b p) (hp : s.place a = .pulling b) (harr : s.array p = some b) (hcurr : p ≠ s.curr b)
      (hmask : s.allowed p (m.home a) = true) :
      Acted m a s (.pull p) ((s.setArray p none).goto a (.pulled b p))
  | stop (b) (hp : s.place a = .pulling b) : Acted m a s .stop (s.goto a (.unlockBusiest b))
  | carry (b p) (hp : s.place a = .pulled b p) :
      Acted m a s .run ((s.setCpu p (m.home a)).goto a (.carried b p))
  | put (b p) (hp : s.place a = .carried b p) :
      Acted m a s .run ((s.setArray p (some (m.home a))).goto a (.pulling b))
  | noRequest (hp : s.place a = .ownQueue) (hq : s.migrationQueue (m.home a) = []) :
      Acted m a s .run ((s.setState (m.migrationThread (m.home a)) .interruptible).goto a
        (.unlockOwn none))
  | takeRequest (r rs) (hp : s.place a = .ownQueue) (hq : s.migrationQueue (m.home a) = r :: rs) :
      Acted m a s .run ({ s.setState (m.migrationThread (m.home a)) .interruptible with
        migrationQueue := Function.update s.migrationQueue (m.home a) rs }.goto a
        (.unlockOwn (some r)))
  | dest (r c) (hp : s.place a = .readDest r) (hc : ffs (s.allowed r.task) = some c) :
      Acted m a s .run (s.goto a (.readSrc r c))
  | src (r d) (hp : s.place a = .readSrc r d) :
      Acted m a s .run (s.goto a (.lockFirst r (s.cpu r.task) d))
  | stale (r c d) (hp : s.place a = .checkSrc r c d) (hne : s.cpu r.task ≠ c) :
      Acted m a s .run (s.goto a (.unlockSrc r c d true))
  | fresh (r c d) (hp : s.place a = .checkSrc r c d) (he : s.cpu r.task = c) :
      Acted m a s .run (s.goto a (.moveCpu r c d))
  | move (r c d) (hp : s.place a = .moveCpu r c d) (he : c = m.home a) :
      Acted m a s .run ((s.setCpu r.task d).goto a (.dequeue r c d))
  | elsewhere (r c d) (hp : s.place a = .moveCpu r c d) (hne : c ≠ m.home a) :
      Acted m a s .run (s.goto a (.unlockSrc r c d false))
  | idleMoved (r c d) (hp : s.place a = .dequeue r c d) (harr : s.array r.task = none) :
      Acted m a s .run (s.goto a (.unlockSrc r c d false))
  | dequeue (r c d) (hp : s.place a = .dequeue r c d) (harr : s.array r.task ≠ none) :
      Acted m a s .run ((s.setArray r.task none).goto a (.enqueue r c d))
  | enqueue (r c d) (hp : s.place a = .enqueue r c d) :
      Acted m a s .run ((s.setArray r.task (some d)).goto a (.unlockSrc r c d false))
  | up (r) (hp : s.place a = .up r) :
      Acted m a s .run ({ s with sem := Function.update s.sem r.caller (s.sem r.caller + 1) }.goto a
        .lockOwn)

  | forkCpu (p) (hp : s.place a = .forkLocked p) :
      Acted m a s .run (((s.setState p .running).setCpu p (m.home a)).goto a (.forkPlaced p))
  | forkPut (p) (hp : s.place a = .forkPlaced p) :
      Acted m a s .run (((s.setArray p (some (m.home a))).setBirth p .woken).goto a .unlockThis)

/-- What `SmpState.step` does. -/
inductive Stepped (m : Cpus n A) (a : A) (s : SmpState n A) (ch : PathChoice n) :
    SmpState n A → Prop
  | take (l q) (hw : (s.place a).wants (m.home a) = some (l, q)) (hl : s.locked l = false) :
      Stepped m a s ch ({ s with locked := Function.update s.locked l true }.goto a q)
  | drop (l q) (hd : (s.place a).drops (m.home a) = some (l, q)) :
      Stepped m a s ch ({ s with locked := Function.update s.locked l false }.goto a q)
  | tryFails (b) (hp : s.place a = .tryBusiest b) :
      Stepped m a s ch (s.goto a (if b < m.home a then .dropThis b else .waitBusiest b))
  | tryTakes (b) (hp : s.place a = .tryBusiest b) (hl : s.locked b = false) :
      Stepped m a s ch ({ s with locked := Function.update s.locked b true }.goto a (.pulling b))
  | act (t) (h : Acted m a s ch t) : Stepped m a s ch t

section
variable {m : Cpus n A} {a b : A} {s s' : SmpState n A} {ch : PathChoice n}

theorem wakeUp_acted {p : TaskId} {e : Errand n} {rq : Fin n} {sync : Bool} {k : Onward n}
    (hp : s.place a = .holding p e rq) (hk : e.onward = some k)
    (he : sync = true → ∀ q, e ≠ .kick q) :
    Acted m a s .run (s.wakeUp a p e rq (m.home a) sync k) := by
  unfold SmpState.wakeUp
  split_ifs with harr hfast
  · refine .fastMigrate p e rq hp harr hfast.2.1 hfast.2.2.2 (he hfast.1) ?_
    rintro mask rfl
    cases hk
  · exact .activate p e rq k hp hk harr
  · exact .awake p e rq k hp hk harr

theorem applyMask_acted {p : TaskId} {mask : Fin n → Bool} {rq : Fin n}
    (hp : s.place a = .masked p mask rq) (h : s.applyMask m a p mask rq = some s') :
    Acted m a s .run s' := by
  unfold SmpState.applyMask at h
  split_ifs at h with hmask harr
  · exact Option.some.inj h ▸ .fits p mask rq hp hmask
  · obtain ⟨c, hc, rfl⟩ := Option.map_eq_some_iff.mp h
    exact .moveIdle p mask rq c hp harr.1 harr.2 hc
  · exact Option.some.inj h ▸ .request p mask rq hp (Bool.eq_false_iff.mpr hmask)

theorem act_acted (h : s.act m a ch = some s') : Acted m a s ch s' := by
  unfold SmpState.act at h
  generalize hp : s.place a = q at h
  dsimp only at h
  split at h
  case h_1 p e => exact Option.some.inj h ▸ .call p e hp
  case h_2 p => exact Option.some.inj h ▸ .fork p hp
  case h_3 p =>
    split_ifs at h with hb
    exact Option.some.inj h ▸ .wakeForked p hp hb
  case h_4 => exact Option.some.inj h ▸ .enter hp
  case h_5 =>
    split_ifs at h with hc
    exact Option.some.inj h ▸ .thread hp hc.1 hc.2
  case h_6 =>
    split_ifs at h with hc
    exact Option.some.inj h ▸ .sleep hp hc
  case h_7 p e => exact Option.some.inj h ▸ .look p e hp
  case h_8 p e rq =>
    split_ifs at h with hc
    · exact Option.some.inj h ▸ .missed p e rq hp hc
    · exact Option.some.inj h ▸ .got p e rq hp (not_not.mp hc)
  case h_9 p e rq =>
    cases e with
    | wakeUp sync => exact Option.some.inj h ▸ wakeUp_acted hp rfl fun _ q hq => by cases hq
    | kick q => exact Option.some.inj h ▸ wakeUp_acted hp rfl (by simp)
    | setAllowed mask => exact Option.some.inj h ▸ .mask p mask rq hp
    | other => exact Option.some.inj h ▸ .other p rq hp
  case h_10 p mask rq => exact applyMask_acted hp h
  case h_11 p =>
    split_ifs at h with hs
    exact Option.some.inj h ▸ .down p hp hs
  case h_12 =>
    split_ifs at h with hs
    exact Option.some.inj h ▸ .deactivate hp hs
  case h_13 q =>
    split_ifs at h with hq
    exact Option.some.inj h ▸ .switch q hp hq.1 hq.2
  case h_14 b =>
    split_ifs at h with hb
    exact Option.some.inj h ▸ .balance b hp hb
  case h_15 => exact Option.some.inj h ▸ .leave hp
  case h_16 b p =>
    split_ifs at h with hc
    exact Option.some.inj h ▸ .pull b p hp hc.1 hc.2.1 hc.2.2
  case h_17 b => exact Option.some.inj h ▸ .stop b hp
  case h_18 b p => exact Option.some.inj h ▸ .carry b p hp
  case h_19 b p => exact Option.some.inj h ▸ .put b p hp
  case h_20 =>
    have hqueue : (s.setState (m.migrationThread (m.home a)) .interruptible).migrationQueue =
      s.migrationQueue := rfl
    rw [hqueue] at h
    cases hq : s.migrationQueue (m.home a) with
    | nil =>
      rw [hq] at h
      exact Option.some.inj h ▸ .noRequest hp hq
    | cons r rs =>
      rw [hq] at h
      exact Option.some.inj h ▸ .takeRequest r rs hp hq
  case h_21 r =>
    obtain ⟨c, hc, rfl⟩ := Option.map_eq_some_iff.mp h
    exact .dest r c hp hc
  case h_22 r d => exact Option.some.inj h ▸ .src r d hp
  case h_23 r c d =>
    split_ifs at h with hc
    · exact Option.some.inj h ▸ .stale r c d hp hc
    · exact Option.some.inj h ▸ .fresh r c d hp (not_not.mp hc)
  case h_24 r c d =>
    split_ifs at h with hc
    · exact Option.some.inj h ▸ .move r c d hp hc
    · exact Option.some.inj h ▸ .elsewhere r c d hp hc
  case h_25 r c d =>
    split_ifs at h with harr
    · exact Option.some.inj h ▸ .idleMoved r c d hp harr
    · exact Option.some.inj h ▸ .dequeue r c d hp harr
  case h_26 r c d => exact Option.some.inj h ▸ .enqueue r c d hp
  case h_27 r => exact Option.some.inj h ▸ .up r hp
  case h_28 p => exact Option.some.inj h ▸ .forkCpu p hp
  case h_29 p => exact Option.some.inj h ▸ .forkPut p hp
  case h_30 => cases h

theorem step_stepped (h : s.step m a ch = some s') : Stepped m a s ch s' := by
  unfold SmpState.step at h
  split at h
  case h_1 l q hw =>
    split_ifs at h with hl
    exact Option.some.inj h ▸ .take l q hw (by simpa using hl)
  case h_2 =>
    split at h
    case h_1 l q hd => exact Option.some.inj h ▸ .drop l q hd
    case h_2 =>
      split at h
      case h_1 b hp =>
        by_cases hl : s.locked b = true
        · rw [if_pos hl] at h
          exact Option.some.inj h ▸ .tryFails b hp
        · rw [if_neg hl] at h
          exact Option.some.inj h ▸ .tryTakes b hp (by simpa using hl)
      case h_2 => exact .act s' (act_acted h)

/-- A step is about locks and nothing else, or not about locks. -/
theorem Stepped.sort (h : Stepped m a s ch s') : Acted m a s ch s' ∨
    ∃ l q, s' = { s with locked := l }.goto a q ∧ LockStep (s.place a) q := by
  cases h with
  | take l q hw => exact Or.inr ⟨_, q, rfl, wants_lockStep hw⟩
  | drop l q hd => exact Or.inr ⟨_, q, rfl, drops_lockStep hd⟩
  | tryFails b hp =>
    refine Or.inr ⟨s.locked, _, rfl, ?_⟩
    rw [hp]
    split_ifs <;> constructor
  | tryTakes b hp => exact Or.inr ⟨_, _, rfl, hp ▸ .tryTakes b⟩
  | act _ h => exact Or.inl h

/-- The locks that a path holds. -/
def SmpState.holds (m : Cpus n A) (s : SmpState n A) (a : A) : Finset (Fin n) :=
  (s.place a).holds (m.home a)

@[simp] theorem goto_self {q : Place n A} : (s.goto a q).place a = q := Function.update_self ..

theorem goto_of_ne {q : Place n A} (h : b ≠ a) : (s.goto a q).place b = s.place b :=
  Function.update_of_ne h ..

omit [DecidableEq A] in
/-- What the path that does a step keeps for itself holds for all. -/
theorem forall_place {P : A → Place n A → Prop} (hne : ∀ b, b ≠ a → s'.place b = s.place b)
    (h : ∀ b, P b (s.place b)) (ha : P a (s'.place a)) : ∀ b, P b (s'.place b) := by
  intro b
  by_cases hb : b = a
  · exact hb ▸ ha
  · rw [hne b hb]
    exact h b

/-! A statement that is not about locks leaves them and the other paths alone. -/

theorem Acted.locked (h : Acted m a s ch s') : s'.locked = s.locked := by
  cases h <;> rfl

theorem Acted.place_ne (h : Acted m a s ch s') (hb : b ≠ a) : s'.place b = s.place b := by
  cases h <;> first | rfl | exact Function.update_of_ne hb ..

theorem Acted.holds (h : Acted m a s ch s') : s'.holds m a = s.holds m a := by
  unfold SmpState.holds
  cases h with
  | sleep | deactivate | switch | fork => rfl
  | thread hp => simp [Place.holds, hp]
  | _ => simp_all [Place.holds]

theorem Acted.place_fits (h : Acted m a s ch s') (hf : (s.place a).Fits (m.home a)) :
    (s'.place a).Fits (m.home a) := by
  cases h with
  | sleep | deactivate | switch | fork => exact hf
  | balance b hp hb => rw [goto_self]; exact hb
  | move r c d hp he => rw [goto_self]; exact he
  | dequeue r c d hp => rw [hp] at hf; rw [goto_self]; exact hf
  | pull b p hp => rw [hp] at hf; rw [goto_self]; exact hf
  | stop b hp => rw [hp] at hf; rw [goto_self]; exact hf
  | carry b p hp => rw [hp] at hf; rw [goto_self]; exact hf
  | put b p hp => rw [hp] at hf; rw [goto_self]; exact hf
  | _ => rw [goto_self]; trivial

/-- The locks are what the places of the paths say. -/
structure SmpState.Locking (m : Cpus n A) (s : SmpState n A) : Prop where
  exclusive : Exclusive (s.holds m) s.locked
  fits : ∀ a, (s.place a).Fits (m.home a)

theorem Stepped.place_ne (h : Stepped m a s ch s') (hb : b ≠ a) : s'.place b = s.place b := by
  cases h with
  | act _ h => exact h.place_ne hb
  | _ => exact goto_of_ne hb

theorem Stepped.locking (h : Stepped m a s ch s') (hs : s.Locking m) : s'.Locking m := by
  have hne : ∀ b, b ≠ a → s'.holds m b = s.holds m b :=
    fun b hb => congrArg (Place.holds (m.home b)) (h.place_ne hb)
  have hfits : (s'.place a).Fits (m.home a) → ∀ b, (s'.place b).Fits (m.home b) :=
    forall_place (P := fun b q => q.Fits (m.home b)) (fun b hb => h.place_ne hb) hs.fits
  have hself := hs.fits a
  cases h with
  | take l q hw hl =>
    refine ⟨hs.exclusive.take hl ?_ hne, hfits ?_⟩
    · simp only [SmpState.holds, goto_self]
      exact wants_holds hw
    · rw [goto_self]
      exact wants_fits hself hw
  | drop l q hd =>
    obtain ⟨hl, hq, hqf⟩ := drops_holds hself hd
    refine ⟨hs.exclusive.drop hl ?_ hne, hfits ?_⟩
    · simp only [SmpState.holds, goto_self]
      exact hq
    · rwa [goto_self]
  | tryFails b hp =>
    rw [hp] at hself
    have hb : b ≠ m.home a := hself
    refine ⟨hs.exclusive.congr fun x => ?_, hfits ?_⟩
    · by_cases hx : x = a
      · simp only [SmpState.holds, hx, goto_self, hp]
        split_ifs <;> rfl
      · exact hne x hx
    · rw [goto_self]
      split_ifs with hlt
      · exact hlt
      · exact lt_of_le_of_ne (not_lt.mp hlt) hb.symm
  | tryTakes b hp hl =>
    rw [hp] at hself
    refine ⟨hs.exclusive.take hl ?_ hne, hfits ?_⟩
    · simp only [SmpState.holds, goto_self, hp, Place.holds]
      exact Finset.pair_comm _ _
    · rw [goto_self]
      exact hself
  | act _ h =>
    refine ⟨?_, hfits (h.place_fits hself)⟩
    rw [h.locked]
    refine hs.exclusive.congr fun x => ?_
    by_cases hx : x = a
    · exact hx ▸ h.holds
    · exact hne x hx

end
end ShortSched
