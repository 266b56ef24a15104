import ShortSched.Absorbing
import ShortSched.Lib.Monitor
import ShortSched.Recording

/-! What a run does to the log of switches: how many switches a creation or an end of a task
announces, and where the reason of a record comes from. -/
namespace ShortSched
open PartialRun

/-- What makes a path of the kernel call `record_switch` last. -/
inductive Cause where
  | forks | ends | waits | yields | preempts | renices | becomesShort | lastTrialEnds | sliceEnds
  deriving DecidableEq, Repr

/-- The reason that is recorded; `wait_for_completion` records that of the end of a trial. -/
def Cause.reason : Cause → SwitchReason
  | .forks => .taskCreated
  | .ends => .taskEnded
  | .waits => .shortOver
  | .yields => .taskYields
  | .preempts | .renices | .becomesShort => .highierTaskActive
  | .lastTrialEnds => .shortOver
  | .sliceEnds => .timeSliceOver

/-- What a run does to the log, with what the log is about. -/
inductive LogEvent where
  /-- A task was created or ended; `armed` when the number of switches to record was set. -/
  | announced (armed : Bool)
  | recorded (reason : SwitchReason)
  | caused (c : Cause)
  | becameOverdue
  /-- A context switch, and the record that it appended to the log. -/
  | switched (info : SwitchInfo) (record : Option SwitchInfo)
  deriving DecidableEq, Repr

/-- Creations and ends of tasks: every fork, and the `do_exit` that records an end. A vfork
does not call `record_switch`. -/
def Op.announces : Op → Option Bool
  | .doFork _ _ vfork _ => some (!vfork)
  | .schedule (some .taskEnded) => some true
  | _ => none

/-- The calls of `record_switch` in front of a call of `schedule` are those of `do_exit` and of
`wait_for_completion`. -/
def Op.KnownReason : Op → Prop
  | .schedule (some reason) => reason = .taskEnded ∨ reason = .shortOver
  | _ => True

instance : (op : Op) → Decidable op.KnownReason
  | .schedule (some _) => inferInstanceAs (Decidable (_ ∨ _))
  | .schedule none | .advance _ | .setSigpending .. | .setCredentials .. | .setCurrentState _
  | .schedulerTick | .tryToWakeUp _ | .wakeUpForkedProcess _ | .doFork .. | .setUserNice ..
  | .sysNice _ | .sysSchedYield | .sysSchedSetscheduler .. | .sysSchedSetparam ..
  | .exitNotify .. | .releaseTask _ | .initIdle => isTrue trivial

section
variable (HZ : ℕ)

/-- What a tick records, if anything. -/
def tickCause (k : Kernel) : Option Cause :=
  if SliceEnds k then
    some (if LastTrial HZ (k.tasks k.current) then .lastTrialEnds else .sliceEnds)
  else none

/-- What the last call of `record_switch` in an operation comes from. -/
def Op.cause (k : Kernel) : Op → Option Cause
  | .schedule none => none
  | .schedule (some reason) => some (if reason = .taskEnded then .ends else .waits)
  | .schedulerTick => tickCause HZ k
  | .tryToWakeUp p => if Preempts HZ k p then some .preempts else none
  | .doFork child pid vfork _ =>
      if vfork then
        if (k.tasks k.current).timeSlice / 2 = 0 then tickCause HZ (forkCharged child pid k)
        else none
      else some .forks
  | .setUserNice p nice => if Renices k p nice then some .renices else none
  | .sysNice increment =>
      if ¬ (increment < 0 ∧ capable k = false) ∧
          Renices k k.current (newNice (k.tasks k.current) increment) then
        some .renices
      else none
  | .sysSchedYield => some .yields
  | .sysSchedSetscheduler pid policy param =>
      if BecomesShort k (.sysSchedSetscheduler pid policy param) then some .becomesShort else none
  | .sysSchedSetparam pid param =>
      if BecomesShort k (.sysSchedSetparam pid param) then some .becomesShort else none
  | _ => none

/-- Some SHORT task is overdue now. -/
def BecameOverdue (k k' : Kernel) : Prop :=
  ∃ p ∈ k.current :: k.pidhash, Short (k.tasks p) ∧ Overdue (k'.tasks p)

instance (k k' : Kernel) : Decidable (BecameOverdue k k') :=
  inferInstanceAs (Decidable (∃ p ∈ k.current :: k.pidhash, _))

/-- The record that a switch appended: the slot under the old end of the log. -/
def appended (k k' : Kernel) : Option SwitchInfo :=
  if k'.rq.infoEnd = k.rq.infoEnd then none else some (k'.rq.switchInfoArr k.rq.infoEnd)

/-- The events of one operation before it switches to another task. -/
def callEvents (op : Op) (k k' : Kernel) : List LogEvent :=
  op.announces.toList.map .announced ++ (recordCalls HZ op k).map .recorded ++
    (op.cause HZ k).toList.map .caused ++ if BecameOverdue k k' then [.becameOverdue] else []

/-- The events of one operation. -/
def logEvents (op : Op) (k k' : Kernel) : List LogEvent :=
  callEvents HZ op k k' ++ if k'.current = k.current then []
    else [.switched (k'.switchInfo k.current k'.current) (appended k k')]

def logTrace (ops : List Op) : List LogEvent :=
  (schedInit HZ).elim [] (trace (exec HZ) (logEvents HZ) ops)

end

/-! How many switches are recorded. -/

/-- The numbers of switches since a task was last created or ended, and since
`rec_switching_remaining` was last set. -/
structure Tally where
  sinceAnnounced : ℕ
  sinceArmed : ℕ

/-- At boot there is nothing to record. -/
def Tally.boot : Tally := ⟨30, 30⟩

def Tally.next (t : Tally) : LogEvent → Tally
  | .announced armed => ⟨0, if armed then 0 else t.sinceArmed⟩
  | .switched _ _ => ⟨t.sinceAnnounced + 1, t.sinceArmed + 1⟩
  | _ => t

/-- The first 30 switches after a creation or an end are appended to the log, and no others. -/
def Tally.Announced (t : Tally) : LogEvent → Prop
  | .switched info record =>
      if t.sinceAnnounced < 30 then ∃ r ∈ record, { r with reason := none } = info
      else record = none
  | _ => True

/-- The counter of the code agrees: it reaches zero with the 30th switch after it was set, and
is positive again when it has wrapped around. -/
def Tally.CountsRight (t : Tally) : LogEvent → Prop
  | .switched _ _ =>
      t.sinceArmed % 4294967296 < 29 ∨ 2147483678 ≤ t.sinceArmed % 4294967296 ↔
        t.sinceAnnounced < 30
  | _ => True

instance (t : Tally) : (e : LogEvent) → Decidable (t.Announced e)
  | .switched info record => inferInstanceAs (Decidable
      (if t.sinceAnnounced < 30 then ∃ r ∈ record, { r with reason := none } = info
        else record = none))
  | .announced _ | .recorded _ | .caused _ | .becameOverdue => isTrue trivial

instance (t : Tally) : (e : LogEvent) → Decidable (t.CountsRight e)
  | .switched _ _ => inferInstanceAs (Decidable (_ ↔ _))
  | .announced _ | .recorded _ | .caused _ | .becameOverdue => isTrue trivial

section
variable {HZ : ℕ} {k k' : Kernel} {op : Op} {rs : List SwitchReason} {l : SwitchLog}

theorem remaining_pos_iff (n : ℕ) : i32 (i32 (30 - n) - 1) > 0 ↔
    n % 4294967296 < 29 ∨ 2147483678 ≤ n % 4294967296 := by
  unfold i32
  rw [Int.bmod_def, Int.bmod_def]
  split_ifs <;> omega

theorem i32_pred (n : ℕ) : i32 (i32 (30 - n) - 1) = i32 (30 - (n + 1 : ℕ)) := by
  unfold i32
  rw [Int.bmod_def, Int.bmod_def, Int.bmod_def]
  split_ifs <;> omega

theorem record_remaining (rs : List SwitchReason) (l : SwitchLog) :
    (rs.foldl SwitchLog.record l).remaining =
      if .taskCreated ∈ rs ∨ .taskEnded ∈ rs then 30 else l.remaining := by
  induction rs generalizing l with
  | nil => simp
  | cons r rs ih =>
    rw [List.foldl_cons, ih]
    cases r <;> simp [SwitchLog.record]

theorem record_tail (rs : List SwitchReason) (l : SwitchLog) :
    (rs.foldl SwitchLog.record l).ring.tail = l.ring.tail := by
  induction rs generalizing l with
  | nil => rfl
  | cons r rs ih => rw [List.foldl_cons, ih]; rfl

theorem mem_tickCalls {r : SwitchReason} (h : r ∈ tickCalls HZ k) :
    r = .shortOver ∨ r = .timeSliceOver := by
  unfold tickCalls at h
  split_ifs at h <;> simp_all

/-- The counter is set by the calls of forks other than vforks and of `do_exit`. -/
theorem recordCalls_arms (h : op.KnownReason) :
    .taskCreated ∈ recordCalls HZ op k ∨ .taskEnded ∈ recordCalls HZ op k ↔
      op.announces = some true := by
  have htick : ∀ m, ¬ (.taskCreated ∈ tickCalls HZ m ∨ .taskEnded ∈ tickCalls HZ m) := by
    rintro m (hm | hm) <;> rcases mem_tickCalls hm with hm | hm <;> cases hm
  cases op with
  | schedule reason =>
    rcases reason with _ | r
    · simp [recordCalls, Op.announces]
    · rcases h with rfl | rfl <;> simp [recordCalls, Op.announces]
  | schedulerTick => simp only [recordCalls, Op.announces, htick, reduceCtorEq]
  | doFork child pid vfork cloneParent =>
    have := not_or.mp (htick (forkCharged child pid k))
    cases vfork <;> simp only [recordCalls, Op.announces] <;> split_ifs <;> simp_all
  | _ => simp [recordCalls, Op.announces]

/-- A monitor that only judges switches judges one operation by its switch. -/
theorem accepts_logEvents {γ : Type*} {next : γ → LogEvent → γ} {P : γ → LogEvent → Prop}
    (hP : ∀ e, (∀ info record, e ≠ .switched info record) → ∀ g, P g e) (g : γ) :
    Accepts next P (logEvents HZ op k k') g ↔ (k'.current ≠ k.current →
      P ((callEvents HZ op k k').foldl next g)
        (.switched (k'.switchInfo k.current k'.current) (appended k k'))) := by
  have hcalls : Accepts next P (callEvents HZ op k k') g := by
    apply accepts_of_forall
    intro e he g
    apply hP
    rintro info record rfl
    simp only [callEvents, List.mem_append, List.mem_map] at he
    split_ifs at he <;> simp at he
  rw [logEvents, accepts_append]
  split_ifs with hc
  · simp [hcalls, hc, Accepts]
  · simp [hcalls, hc, Accepts]

theorem Tally.foldl_callEvents (t : Tally) : (callEvents HZ op k k').foldl Tally.next t =
    op.announces.elim t fun armed => t.next (.announced armed) := by
  have hmap : ∀ {α : Type} (f : α → LogEvent) (es : List α) (t : Tally),
      (∀ a t, Tally.next t (f a) = t) → (es.map f).foldl Tally.next t = t := by
    intro α f es t hf
    rw [List.foldl_map]
    simp only [hf, List.foldl_fixed]
  rw [callEvents, List.foldl_append, List.foldl_append, List.foldl_append,
    hmap .caused _ _ fun _ _ => rfl, hmap .recorded _ _ fun _ _ => rfl]
  split_ifs <;> cases op.announces <;> rfl

theorem SwitchLog.create_tail (l : SwitchLog) (x : SwitchInfo) : (l.create x).ring.tail =
    if i32 (l.remaining - 1) > 0 then incInfo l.ring.tail else l.ring.tail := by
  unfold SwitchLog.create
  split_ifs <;> rfl

theorem SwitchLog.create_slot (l : SwitchLog) (x : SwitchInfo) :
    (l.create x).ring.slot l.ring.tail = { x with reason := l.slot.reason } := by
  have hslot : ∀ y, (l.ring.write y).slot l.ring.tail = y := fun y => Function.update_self _ _ _
  unfold SwitchLog.create
  split_ifs
  · exact hslot _
  · exact hslot _

theorem incInfo_ne (i : ℕ) : incInfo i ≠ i := by
  unfold incInfo switchInfoArraySize
  omega

/-- A switch fills in the slot under the end of the log, and the record counts while switches
remain to be recorded. -/
theorem Switched.appended (h : Switched rs k k') : appended k k' =
    if i32 ((rs.foldl SwitchLog.record k.rq.switchLog).remaining - 1) > 0 then
      some { k'.switchInfo k.current k'.current with
        reason := (rs.foldl SwitchLog.record k.rq.switchLog).slot.reason }
    else none := by
  set l := rs.foldl SwitchLog.record k.rq.switchLog
  have htail : k.rq.infoEnd = l.ring.tail := (record_tail rs k.rq.switchLog).symm
  have hring : k'.rq.ring = (l.create (k'.switchInfo k.current k'.current)).ring :=
    congrArg SwitchLog.ring h.log
  have hend : k'.rq.infoEnd = _ := (congrArg Ring.Buffer.tail hring).trans (l.create_tail _)
  have hslot : k'.rq.switchInfoArr k.rq.infoEnd = _ :=
    (congrFun (congrArg Ring.Buffer.slot hring) _).trans (htail ▸ l.create_slot _)
  rw [ShortSched.appended, hslot, hend, htail]
  by_cases h0 : i32 (l.remaining - 1) > 0
  · rw [if_pos h0, if_neg (incInfo_ne _), if_pos h0]
  · rw [if_neg h0, if_pos rfl, if_neg h0]

/-- The counter after one operation, in terms of the switches since it was set. -/
def Tally.Tracks (k : Kernel) (t : Tally) : Prop :=
  k.rq.recSwitchingRemaining = i32 (30 - t.sinceArmed)

theorem Tally.Tracks.record {t : Tally} (h : t.Tracks k) (hop : op.KnownReason) :
    ((recordCalls HZ op k).foldl SwitchLog.record k.rq.switchLog).remaining =
      i32 (30 - ((callEvents HZ op k k').foldl Tally.next t).sinceArmed) := by
  rw [record_remaining, Tally.foldl_callEvents]
  simp only [recordCalls_arms hop]
  split_ifs with ha
  · rw [ha]
    rfl
  · rw [show k.rq.switchLog.remaining = _ from h]
    cases hn : op.announces with
    | none => rfl
    | some armed =>
      cases armed with
      | false => rfl
      | true => exact absurd hn ha

/-- One operation keeps count, and appends the record of a switch as long as the counter
is right. -/
theorem Tally.Tracks.step {t : Tally} (h : t.Tracks k) (hop : op.KnownReason)
    (he : Enabled k op) (hs : exec HZ op k = some k') :
    ((logEvents HZ op k k').foldl Tally.next t).Tracks k' ∧
      (Accepts Tally.next Tally.Announced (logEvents HZ op k k') t ↔
        Accepts Tally.next Tally.CountsRight (logEvents HZ op k k') t) := by
  have hrem : ((recordCalls HZ op k).foldl SwitchLog.record k.rq.switchLog).remaining =
      i32 (30 - ((callEvents HZ op k k').foldl Tally.next t).sinceArmed) := h.record hop
  rw [accepts_logEvents (by intro e he g; cases e <;> first | trivial | exact absurd rfl (he _ _)),
    accepts_logEvents (by intro e he g; cases e <;> first | trivial | exact absurd rfl (he _ _)),
    logEvents, List.foldl_append]
  generalize (callEvents HZ op k k').foldl Tally.next t = u at hrem ⊢
  rcases exec_logs hs he with hr | hr
  · rw [if_pos hr.curr]
    constructor
    · change k'.rq.switchLog.remaining = i32 (30 - u.sinceArmed)
      rw [hr.log, hrem]
    · simp [hr.curr]
  · rw [if_neg hr.moved]
    constructor
    · change k'.rq.switchLog.remaining = i32 (30 - (u.sinceArmed + 1 : ℕ))
      rw [hr.log, SwitchLog.create, hrem, i32_pred]
    · have hinfo : { k'.switchInfo k.current k'.current with reason := none } =
          k'.switchInfo k.current k'.current := rfl
      simp only [ne_eq, hr.moved, not_false_eq_true, true_imp_iff, Tally.Announced,
        Tally.CountsRight, hr.appended, hrem, remaining_pos_iff]
      split_ifs with ha hc hc
      · simp [ha, hc, hinfo]
      · simp [ha, hc]
      · simp [ha, hc]
      · simp [ha, hc]

end

/-- In every run from boot: the first 30 switches after a creation or an end of a task are
appended to the log and no others are, if and only if at each of its switches the counter of
the code is right about that. -/
theorem announced_switches_recorded_iff (HZ : ℕ) (ops : List Op)
    (hC : AlongBoot HZ (fun _ op => op.KnownReason) ops) :
    Accepts Tally.next Tally.Announced (logTrace HZ ops) Tally.boot ↔
      Accepts Tally.next Tally.CountsRight (logTrace HZ ops) Tally.boot := by
  cases h : schedInit HZ with
  | none => simp [logTrace, h, Accepts]
  | some k =>
    have hboot : Tally.boot.Tracks k := by
      have hlog := (tryToWakeUp_records h).log
      rw [if_neg fun hp => hp.2.1 rfl] at hlog
      exact congrArg SwitchLog.remaining hlog
    rw [logTrace, h]
    exact trace_accepts_iff (R := fun k t => Tally.Tracks k t)
      (fun s o t g hR hc ht => hR.step hc.2 hc.1 ht) hboot (hC k h)

/-- Task 1 forks, and then parent and child yield to each other. -/
def yieldingPair (yields : ℕ) : List Op :=
  startTask ++ .doFork 2 2 false false :: List.replicate yields .sysSchedYield

theorem announced_switches_recorded_yieldingPair :
    Accepts Tally.next Tally.Announced (logTrace 512 (yieldingPair 29)) Tally.boot := by
  have hC : AlongBoot 512 (fun _ op => op.KnownReason) (yieldingPair 29) := by decide +kernel
  rw [announced_switches_recorded_iff 512 (yieldingPair 29) hC]
  decide +kernel

/-- The 30th switch after a fork is not appended. -/
theorem thirtieth_switch_not_recorded :
    AlongBoot 512 (fun _ op => op.KnownReason) (yieldingPair 30) ∧
      ¬ Accepts Tally.next Tally.Announced (logTrace 512 (yieldingPair 30)) Tally.boot := by
  decide +kernel

end ShortSched
