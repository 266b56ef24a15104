import ShortSched.SwitchTrace

/-! Where the reason of a record comes from: `record_switch` leaves it under the end of the
log, and `create_record` takes what it finds there. -/
namespace ShortSched
open PartialRun

/-- What has happened since the last switch: the last reason recorded, what it came from, and
whether a SHORT task has become overdue. -/
structure SinceSwitch where
  reason : Option SwitchReason
  cause : Option Cause
  overdue : Bool

def SinceSwitch.none : SinceSwitch := ⟨.none, .none, false⟩

def SinceSwitch.next (s : SinceSwitch) : LogEvent → SinceSwitch
  | .recorded reason => { s with reason := some reason }
  | .caused c => { s with cause := some c }
  | .becameOverdue => { s with overdue := true }
  | .switched _ _ => .none
  | .announced _ => s

/-- A record carries a reason recorded since the last switch, and `SR_SHORT_OVER` only if a
SHORT task has become overdue since. -/
def SinceSwitch.Fresh (s : SinceSwitch) : LogEvent → Prop
  | .switched _ (some record) => (∃ r ∈ s.reason, record.reason = some r) ∧
      (record.reason = some .shortOver → s.overdue = true)
  | _ => True

/-- Something made a path call `record_switch` since the last switch; if it was a wait for a
completion, a SHORT task has become overdue since. -/
def SinceSwitch.Explained (s : SinceSwitch) : LogEvent → Prop
  | .switched _ (some _) => s.cause ≠ .none ∧ (s.cause = some .waits → s.overdue = true)
  | _ => True

instance (s : SinceSwitch) : (e : LogEvent) → Decidable (s.Fresh e)
  | .switched _ (some record) => inferInstanceAs (Decidable
      ((∃ r ∈ s.reason, record.reason = some r) ∧ (_ → _)))
  | .switched _ .none | .announced _ | .recorded _ | .caused _ | .becameOverdue => isTrue trivial

instance (s : SinceSwitch) : (e : LogEvent) → Decidable (s.Explained e)
  | .switched _ (some _) => inferInstanceAs (Decidable (s.cause ≠ .none ∧ (_ → _)))
  | .switched _ .none | .announced _ | .recorded _ | .caused _ | .becameOverdue => isTrue trivial

section
variable {HZ : ℕ} {k k' m : Kernel} {op : Op} {rs : List SwitchReason} {c : Core}

theorem tickCalls_getLast (HZ : ℕ) (k : Kernel) :
    (tickCalls HZ k).getLast? = (tickCause HZ k).map Cause.reason := by
  unfold tickCalls tickCause
  split_ifs <;> rfl

/-- The last call of `record_switch` has the reason that its cause gives it. -/
theorem recordCalls_getLast (h : op.KnownReason) :
    (recordCalls HZ op k).getLast? = (op.cause HZ k).map Cause.reason := by
  cases op with
  | schedule reason =>
    rcases reason with _ | r
    · rfl
    · rcases h with rfl | rfl <;> rfl
  | schedulerTick => exact tickCalls_getLast HZ k
  | doFork child pid vfork cloneParent =>
    cases vfork <;> simp only [recordCalls, Op.cause, if_true, Bool.false_eq_true, if_false]
    · rw [List.getLast?_append]
      rfl
    · rw [List.append_nil]
      split_ifs
      · exact tickCalls_getLast HZ _
      · rfl
  | tryToWakeUp p => simp only [recordCalls, Op.cause]; split_ifs <;> rfl
  | setUserNice p nice => simp only [recordCalls, Op.cause]; split_ifs <;> rfl
  | sysNice increment => simp only [recordCalls, Op.cause]; split_ifs <;> rfl
  | sysSchedSetscheduler pid policy param =>
    simp only [recordCalls, Op.cause]; split_ifs <;> rfl
  | sysSchedSetparam pid param => simp only [recordCalls, Op.cause]; split_ifs <;> rfl
  | _ => rfl

theorem record_reason (rs : List SwitchReason) (l : SwitchLog) :
    (rs.foldl SwitchLog.record l).slot.reason = (rs.getLast?.map some).getD l.slot.reason := by
  induction rs generalizing l with
  | nil => rfl
  | cons r rs ih =>
    have hslot : (l.record r).slot.reason = some r := by
      simp [SwitchLog.record, SwitchLog.slot, Ring.Buffer.write]
    rw [List.foldl_cons, ih, hslot]
    cases rs with
    | nil => rfl
    | cons r' rs =>
      rw [List.getLast?_cons_cons, List.getLast?_eq_some_getLast (List.cons_ne_nil r' rs)]
      rfl

/-! A tick that records the end of the last trial makes the running task overdue. -/

theorem TickStep.lastTrial {ps : Ptrs} {c d : Core} (h : TickStep HZ ps c d) (hs : c.IsShort)
    (ht : u32 (c.timeSlice - 1) = 0) (hl : c.currentTrial + 1 ≥ c.numberOfTrials ∨
      shortTimeslice HZ c.requestedTime (c.currentTrial + 1) = 0) : d.IsOverdue ∧ d.prio = 0 := by
  cases h with
  | skip hn => exact absurd hs hn
  | down _ h0 => exact absurd ht h0
  | trial _ _ _ hn hz =>
    rcases hl with hl | hl
    · omega
    · exact absurd hl hz
  | overdue => exact ⟨⟨hs.1, rfl⟩, rfl⟩
  | rrSlice hp => cases hs.1.symm.trans hp
  | otherSlice a i hp => exact absurd hs.1 hp

theorem schedulerTick_lastTrial (h : schedulerTick HZ k = some k')
    (hidle : (k.core k.rq.idle).policy ≠ .short) (hs : SliceEnds k)
    (hl : LastTrial HZ (k.tasks k.current)) :
    (k'.core k.current).IsOverdue ∧ (k'.core k.current).prio = 0 := by
  obtain ⟨c, hstep, ho⟩ := schedulerTick_step h fun hc => hidle hc.1
  rw [ho.self]
  exact hstep.lastTrial hs.2.1 hs.2.2 hl

theorem Moves.overdue {p : TaskId} (h : Moves HZ Guard.free p k k') (q : TaskId)
    (ho : (k.core q).IsOverdue ∧ (k.core q).prio = 0) :
    (k'.core q).IsOverdue ∧ (k'.core q).prio = 0 := by
  by_cases hq : q = p
  · subst hq
    exact steps_invariant (I := fun c => c.IsOverdue ∧ c.prio = 0)
      (fun _ _ hs hc => hs.absorbing hc.1 hc.2) h.steps ho
  · rwa [h.rest q hq]

theorem tickCause_eq_lastTrialEnds :
    tickCause HZ k = some .lastTrialEnds ↔ SliceEnds k ∧ LastTrial HZ (k.tasks k.current) := by
  unfold tickCause
  split_ifs <;> simp_all

theorem doFork_lastTrial {child : TaskId} {pid : ℤ} {vfork cloneParent : Bool} (hi : IdleOk k)
    (he : Enabled k (.doFork child pid vfork cloneParent))
    (h : doFork HZ child pid vfork cloneParent k = some k')
    (h0 : (k.tasks k.current).timeSlice / 2 = 0) (hs : SliceEnds (forkCharged child pid k))
    (hl : LastTrial HZ ((forkCharged child pid k).tasks k.current)) : BecameOverdue k k' := by
  obtain ⟨-, hidle, hcur, -⟩ := he
  have hb := forkSplit_both (k := k) pid hcur.symm
  have hcurr : (forkSplit child (forkCopy child pid k)).current = k.current := hb.curr
  have hslice : ((forkSplit child (forkCopy child pid k)).tasks k.current).timeSlice =
      (k.tasks k.current).timeSlice / 2 := congrArg Core.timeSlice hb.left
  have hcharged : (forkCharged child pid k).current = k.current := hcurr
  have hidleEq : (forkCharged child pid k).rq.idle = k.rq.idle := hb.idle
  have hne : k.rq.idle ≠ k.current := by
    have := hs.1
    rw [hcharged, hidleEq] at this
    exact this.symm
  have hshort : Short (k.tasks k.current) := by
    have h1 : ((forkCharged child pid k).core k.current).IsShort := hcharged ▸ hs.2.1
    have h2 : (forkCharged child pid k).core k.current =
        ((k.core k.current).forking.withSlice ((k.core k.current).timeSlice / 2)).withSlice 1 := by
      rw [← hb.left]
      simp [forkCharged, Kernel.core, Core.withSlice, TaskStruct.core]
    rw [h2] at h1
    exact Core.forking_isShort.mp h1
  obtain ⟨-, m, n, hm, hn, rfl⟩ := doFork_eq_some.mp h
  have htick : schedulerTick HZ (forkCharged child pid k) = some m := by
    have hcases := forkTick_cases hm
    rw [hcurr, hslice] at hcases
    obtain ⟨-, htick⟩ | ⟨hne, -⟩ := hcases
    · exact htick
    · exact absurd h0 hne
  have hpol :
      ((forkCharged child pid k).core (forkCharged child pid k).rq.idle).policy ≠ .short := by
    rw [hidleEq]
    have h2 : (forkCharged child pid k).core k.rq.idle = k.core k.rq.idle := by
      rw [← hb.rest _ hne hidle.symm]
      simp [forkCharged, Kernel.core, Kernel.mod_tasks_ne hne]
    rw [h2]
    exact hi.not_short
  have ho := schedulerTick_lastTrial htick hpol hs (hcharged.symm ▸ hl)
  rw [hcharged] at ho
  rw [← linkChild_core child cloneParent m] at ho
  obtain ⟨l, l', h1, h2, h3, -⟩ := wakeUpForkedProcess_moves (π := Guard.free) hn
  have ho' := h3.overdue _ (h2.overdue _ (h1.overdue _ ho))
  refine ⟨k.current, List.mem_cons_self, hshort, ?_⟩
  split_ifs
  · exact ho'.1
  · have hq : Quiet n (reschedTask n.current (recordSwitch .taskCreated n)) :=
      (recordSwitch_quiet _).trans (reschedTask_quiet _)
    have ho'' :
        ((reschedTask n.current (recordSwitch .taskCreated n)).core k.current).IsOverdue := by
      rw [hq.core]
      exact ho'.1
    exact ho''

theorem becameOverdue_of_cause (h : exec HZ op k = some k') (he : Enabled k op) (hi : IdleOk k)
    (hc : op.cause HZ k = some .lastTrialEnds) : BecameOverdue k k' := by
  cases op with
  | schedule reason =>
    rcases reason with _ | r
    · cases hc
    · simp only [Op.cause] at hc
      split_ifs at hc <;> cases hc
  | schedulerTick =>
    obtain ⟨hs, hl⟩ := tickCause_eq_lastTrialEnds.mp hc
    refine ⟨k.current, List.mem_cons_self, hs.2.1, ?_⟩
    exact (schedulerTick_lastTrial h (by rw [hi.policy]; decide) hs hl).1
  | doFork child pid vfork cloneParent =>
    simp only [Op.cause] at hc
    split_ifs at hc with hv h0
    · obtain ⟨hs, hl⟩ := tickCause_eq_lastTrialEnds.mp hc
      have hcur : (forkCharged child pid k).current = k.current :=
        (forkSplit_both (k := k) pid he.2.2.1.symm).curr
      exact doFork_lastTrial hi he h h0 hs (hcur ▸ hl)
    · cases hc
  | _ => simp [Op.cause] at hc

theorem SinceSwitch.foldl_callEvents (s : SinceSwitch) :
    (callEvents HZ op k k').foldl SinceSwitch.next s =
      ⟨(recordCalls HZ op k).getLast?.or s.reason, (op.cause HZ k).or s.cause,
        decide (BecameOverdue k k') || s.overdue⟩ := by
  have hrec : ∀ (rs : List SwitchReason) (s : SinceSwitch),
      (rs.map LogEvent.recorded).foldl SinceSwitch.next s =
        { s with reason := rs.getLast?.or s.reason } := by
    intro rs
    induction rs with
    | nil => intro s; rfl
    | cons r rs ih =>
      intro s
      rw [List.map_cons, List.foldl_cons, ih]
      cases rs with
      | nil => rfl
      | cons r' rs =>
        rw [List.getLast?_cons_cons, List.getLast?_eq_some_getLast (List.cons_ne_nil r' rs)]
        rfl
  have hann : ∀ o : Option Bool, (o.toList.map LogEvent.announced).foldl SinceSwitch.next s = s := by
    rintro (_ | b) <;> rfl
  rw [callEvents, List.foldl_append, List.foldl_append, List.foldl_append, hann, hrec]
  cases op.cause HZ k <;> split_ifs with hb <;> simp [SinceSwitch.next, hb]

/-- What a monitor knows of the reason in the slot that the next record goes to. -/
structure SinceSwitch.Tracks (k : Kernel) (s : SinceSwitch) : Prop where
  idle : IdleOk k
  slot : ∀ r ∈ s.reason, k.rq.switchLog.slot.reason = some r
  cause : s.reason = s.cause.map Cause.reason
  overdue : s.cause = some .lastTrialEnds → s.overdue = true

theorem SinceSwitch.Tracks.none (hi : IdleOk k) : SinceSwitch.none.Tracks k := by
  constructor
  · exact hi
  · intro r hr
    cases hr
  · rfl
  · intro hc
    cases hc

/-- A fresh reason is one that something explains. -/
theorem SinceSwitch.fresh_iff {s : SinceSwitch} {info : SwitchInfo} {reason : Option SwitchReason}
    (hslot : ∀ r ∈ s.reason, reason = some r) (hc : s.reason = s.cause.map Cause.reason)
    (ho : s.cause = some .lastTrialEnds → s.overdue = true) :
    s.Fresh (.switched info (some { info with reason })) ↔
      s.Explained (.switched info (some { info with reason })) := by
  obtain ⟨r, c, o⟩ := s
  cases c with
  | none =>
    obtain rfl : r = .none := hc
    simp [SinceSwitch.Fresh, SinceSwitch.Explained]
  | some c =>
    obtain rfl : r = some c.reason := hc
    obtain rfl : reason = some c.reason := hslot _ rfl
    cases c <;> simp_all [SinceSwitch.Fresh, SinceSwitch.Explained, Cause.reason]

theorem SinceSwitch.Tracks.step {s : SinceSwitch} (h : s.Tracks k) (hop : op.KnownReason)
    (he : Enabled k op) (hs : exec HZ op k = some k') :
    ((logEvents HZ op k k').foldl SinceSwitch.next s).Tracks k' ∧
      (Accepts SinceSwitch.next SinceSwitch.Fresh (logEvents HZ op k k') s ↔
        Accepts SinceSwitch.next SinceSwitch.Explained (logEvents HZ op k k') s) := by
  have hidle : IdleOk k' := (exec_effect hs he h.idle (Permits.free k op)).idleOk he h.idle
  have hlast : (recordCalls HZ op k).getLast? = (op.cause HZ k).map Cause.reason :=
    recordCalls_getLast hop
  rw [accepts_logEvents (by intro e he g; cases e <;> first | trivial | exact absurd rfl (he _ _)),
    accepts_logEvents (by intro e he g; cases e <;> first | trivial | exact absurd rfl (he _ _)),
    logEvents, List.foldl_append, SinceSwitch.foldl_callEvents]
  set l := (recordCalls HZ op k).foldl SwitchLog.record k.rq.switchLog
  have hreason : ∀ r ∈ (recordCalls HZ op k).getLast?.or s.reason, l.slot.reason = some r := by
    intro r hr
    rw [record_reason]
    cases hg : (recordCalls HZ op k).getLast? with
    | none => exact h.slot r (by simpa [hg] using hr)
    | some r' =>
      rw [hg] at hr
      exact congrArg some (Option.some.inj hr)
  have hcause : (recordCalls HZ op k).getLast?.or s.reason =
      ((op.cause HZ k).or s.cause).map Cause.reason := by
    rw [hlast, h.cause]
    cases op.cause HZ k <;> rfl
  have hover : (op.cause HZ k).or s.cause = some .lastTrialEnds →
      (decide (BecameOverdue k k') || s.overdue) = true := by
    intro hc
    cases hg : op.cause HZ k with
    | none =>
      rw [hg] at hc
      rw [h.overdue hc, Bool.or_true]
    | some c =>
      rw [hg] at hc
      cases hc
      simp [becameOverdue_of_cause hs he h.idle hg]
  rcases exec_logs hs he with hr | hr
  · rw [if_pos hr.curr]
    constructor
    · exact ⟨hidle, fun r hr' => by rw [hr.log]; exact hreason r hr', hcause, hover⟩
    · simp [hr.curr]
  · rw [if_neg hr.moved]
    constructor
    · exact .none hidle
    · simp only [ne_eq, hr.moved, not_false_eq_true, true_imp_iff, hr.appended]
      split_ifs
      · exact SinceSwitch.fresh_iff hreason hcause hover
      · exact Iff.rfl

end

/-- In every run from boot: each record of the log carries a reason recorded since the
previous switch, which is `SR_SHORT_OVER` only if a SHORT task has become overdue since, if and
only if at each switch that is recorded something since the previous one calls for it. -/
theorem recorded_reasons_fresh_iff (HZ : ℕ) (ops : List Op)
    (hC : AlongBoot HZ (fun _ op => op.KnownReason) ops) :
    Accepts SinceSwitch.next SinceSwitch.Fresh (logTrace HZ ops) .none ↔
      Accepts SinceSwitch.next SinceSwitch.Explained (logTrace HZ ops) .none := by
  cases h : schedInit HZ with
  | none => simp [logTrace, h, Accepts]
  | some k =>
    rw [logTrace, h]
    exact trace_accepts_iff (R := fun k s => SinceSwitch.Tracks k s)
      (fun s o t g hR hc ht => hR.step hc.2 hc.1 ht)
      (.none (schedInit_idleOk h)) (hC k h)

theorem recorded_reasons_fresh_yieldingPair :
    Accepts SinceSwitch.next SinceSwitch.Fresh (logTrace 512 (yieldingPair 29)) .none := by
  have hC : AlongBoot 512 (fun _ op => op.KnownReason) (yieldingPair 29) := by decide +kernel
  rw [recorded_reasons_fresh_iff 512 (yieldingPair 29) hC]
  decide +kernel

/-- A task that goes to sleep leaves a record with the initial reason -1. -/
theorem sleep_records_no_reason :
    AlongBoot 512 (fun _ op => op.KnownReason) sleeper ∧
      ¬ Accepts SinceSwitch.next SinceSwitch.Fresh (logTrace 512 sleeper) .none := by
  decide +kernel

end ShortSched
