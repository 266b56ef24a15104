import ShortSched.Fork
import ShortSched.Lib.Ring
import ShortSched.Setscheduler

/-! The log of context switches: a ring of records, and what `get_scheduling_statistic`
delivers of it. -/
namespace ShortSched
open Ring

/-- The slots of the log with `info_start` and `info_end`. -/
def Runqueue.ring (rq : Runqueue) : Buffer SwitchInfo := ⟨rq.switchInfoArr, rq.infoStart, rq.infoEnd⟩

/-- The calls that write to the log; `jiffies` is the time of a switch. -/
inductive LogCall where
  | recordSwitch (reason : SwitchReason)
  | createRecord (previousPid nextPid previousPolicy nextPolicy : ℤ) (jiffies : ℕ)

def LogCall.run : LogCall → Kernel → Kernel
  | .recordSwitch reason, k => ShortSched.recordSwitch reason k
  | .createRecord previousPid nextPid previousPolicy nextPolicy jiffies, k =>
      ShortSched.createRecord previousPid nextPid previousPolicy nextPolicy { k with jiffies }

/-- The record that a call commits, if it commits one. -/
def LogCall.committed : LogCall → Kernel → List SwitchInfo
  | .recordSwitch _, _ => []
  | .createRecord previousPid nextPid previousPolicy nextPolicy jiffies, k =>
      if i32 (k.rq.recSwitchingRemaining - 1) > 0 then
        [{ previousPid, nextPid, previousPolicy, nextPolicy, time := jiffies
           reason := (k.rq.switchInfoArr k.rq.infoEnd).reason }]
      else []

/-- The state after some calls. -/
def Kernel.afterCalls (k : Kernel) (calls : List LogCall) : Kernel :=
  calls.foldl (fun k c => c.run k) k

/-- All records committed by some calls, in the order of the switches. -/
def Kernel.committed (k : Kernel) : List LogCall → List SwitchInfo
  | [] => []
  | c :: cs => c.committed k ++ (c.run k).committed cs

section
variable {k : Kernel} {log : List SwitchInfo}

theorem recordSwitch_ring (reason : SwitchReason) (k : Kernel) :
    (recordSwitch reason k).rq.ring =
      k.rq.ring.write { k.rq.switchInfoArr k.rq.infoEnd with reason := some reason } := rfl

/-- A record is complete under the tail and is committed while switches remain to be
recorded. -/
theorem createRecord_ring (previousPid nextPid previousPolicy nextPolicy : ℤ) (k : Kernel) :
    (createRecord previousPid nextPid previousPolicy nextPolicy k).rq.ring =
      if i32 (k.rq.recSwitchingRemaining - 1) > 0 then
        (k.rq.ring.write { previousPid, nextPid, previousPolicy, nextPolicy, time := k.jiffies
                           reason := (k.rq.switchInfoArr k.rq.infoEnd).reason }).commit
          switchInfoArraySize
      else k.rq.ring.write { previousPid, nextPid, previousPolicy, nextPolicy, time := k.jiffies
                             reason := (k.rq.switchInfoArr k.rq.infoEnd).reason } := by
  unfold createRecord Runqueue.ring Buffer.write Buffer.commit incInfo next
  simp only [Kernel.modRq_rq]
  split_ifs <;> simp_all

theorem LogCall.run_holds (c : LogCall) (h : k.rq.ring.Holds switchInfoArraySize log) :
    (c.run k).rq.ring.Holds switchInfoArraySize (log ++ c.committed k) := by
  cases c with
  | recordSwitch reason =>
    rw [LogCall.run, recordSwitch_ring, LogCall.committed, List.append_nil]
    exact h.write _
  | createRecord previousPid nextPid previousPolicy nextPolicy jiffies =>
    rw [LogCall.run, createRecord_ring, LogCall.committed]
    dsimp only
    split_ifs
    · have hw := (h.write { previousPid, nextPid, previousPolicy, nextPolicy, time := jiffies
                            reason := (k.rq.switchInfoArr k.rq.infoEnd).reason }).commit
      have hs : ∀ x, (k.rq.ring.write x).slot (k.rq.ring.write x).tail = x :=
        fun x => Function.update_self _ _ _
      rwa [hs] at hw
    · rw [List.append_nil]
      exact h.write _

/-- After any calls the ring holds the newest of all records that were committed. -/
theorem afterCalls_holds (calls : List LogCall) (h : k.rq.ring.Holds switchInfoArraySize log) :
    (k.afterCalls calls).rq.ring.Holds switchInfoArraySize (log ++ k.committed calls) := by
  induction calls generalizing k log with
  | nil =>
    rw [Kernel.committed, List.append_nil]
    exact h
  | cons c cs ih =>
    rw [Kernel.committed, ← List.append_assoc]
    exact ih (c.run_holds h)

theorem bootKernel_holds (HZ : ℕ) : (bootKernel HZ).rq.ring.Holds switchInfoArraySize [] :=
  .of_empty rfl rfl (by decide)

end

/-! `get_scheduling_statistic`. -/

/-- The user's array: NULL, memory that cannot be written, or memory that can. -/
inductive UserArray where
  | null | faulting | writable
  deriving DecidableEq, Repr

/-- The number that `copy_switch_info_to_user` takes for that of the records. -/
def numberOfRecords (rq : Runqueue) : ℤ :=
  if rq.infoEnd > rq.infoStart then (rq.infoEnd : ℤ) - rq.infoStart
  else switchInfoArraySize - ((rq.infoStart : ℤ) - rq.infoEnd)

/-- The return value, and the slots that were copied. -/
def copySwitchInfoToUser (usr : UserArray) (k : Kernel) : ℤ × Option (Fin 150 → SwitchInfo) :=
  match usr with
  | .null => (-EFAULT, none)
  | .faulting => (-EFAULT, none)
  | .writable => (numberOfRecords k.rq, some fun i => k.rq.switchInfoArr i)

def sysGetSchedulingStatistic (info : UserArray) (k : Kernel) :
    ℤ × Option (Fin 150 → SwitchInfo) :=
  if info = .null then (-EINVAL, none) else copySwitchInfoToUser info k

/-- The records that the ring still holds after some calls. -/
def Kernel.retained (k : Kernel) (calls : List LogCall) : List SwitchInfo :=
  (k.committed calls).drop ((k.committed calls).length - (switchInfoArraySize - 1))

/-- The statistic is the number of the retained records, and they come first in the array. -/
def Reported (retained : List SwitchInfo) (n : ℤ) (usr : Fin 150 → SwitchInfo) : Prop :=
  n = retained.length ∧ ∀ (i : Fin 150) (x : SwitchInfo), retained[i.val]? = some x → usr i = x

/-- Something was committed, and the array can be read from index 0: the window starts there,
or its slots repeat in such a way that it makes no difference. -/
def ReadFromZero (rq : Runqueue) : Prop :=
  rq.infoStart = 0 ∧ rq.infoEnd ≠ 0 ∨ rq.infoStart ≠ 0 ∧ ∀ i < switchInfoArraySize,
    rq.switchInfoArr i = rq.switchInfoArr (i % rq.infoStart.gcd switchInfoArraySize)

section
variable {k : Kernel} {log : List SwitchInfo}

theorem reported_window_iff (k : Kernel) (n : ℤ) :
    Reported (k.rq.ring.window switchInfoArraySize) n (fun i => k.rq.switchInfoArr i) ↔
      n = k.rq.ring.length switchInfoArraySize ∧ ∀ i < k.rq.ring.length switchInfoArraySize,
        i < switchInfoArraySize →
          k.rq.switchInfoArr i = k.rq.switchInfoArr ((k.rq.infoStart + i) % switchInfoArraySize) := by
  simp only [Reported, Buffer.window, List.length_map, List.length_range,
    List.getElem?_eq_some_iff, List.getElem_map, List.getElem_range]
  constructor
  · rintro ⟨hn, h⟩
    exact ⟨hn, fun i hi hs => h ⟨i, hs⟩ _ ⟨hi, rfl⟩⟩
  · rintro ⟨hn, h⟩
    refine ⟨hn, ?_⟩
    rintro i x ⟨hi, rfl⟩
    exact h i hi i.isLt

/-- The copy reports the window exactly when the array can be read from index 0. -/
theorem reported_iff (h : k.rq.ring.Holds switchInfoArraySize log) :
    Reported (k.rq.ring.window switchInfoArraySize) (numberOfRecords k.rq)
      (fun i => k.rq.switchInfoArr i) ↔ ReadFromZero k.rq := by
  have htail : k.rq.infoEnd = log.length % 150 := h.tail
  have hhead : k.rq.infoStart = if log.length < 150 then 0 else (log.length + 1) % 150 := h.head
  have hlen : k.rq.ring.length 150 = min log.length 149 := h.length_eq (by decide)
  rw [reported_window_iff, hlen, ReadFromZero, numberOfRecords]
  rcases Nat.eq_zero_or_pos k.rq.infoStart with h0 | h0
  · have hend : k.rq.infoEnd = min log.length 149 := by
      split_ifs at hhead <;> omega
    rw [h0, ← hend]
    simp only [Nat.zero_add, Nat.cast_zero, sub_zero, true_and, ne_eq, not_true, false_and, or_false]
    constructor
    · rintro ⟨hn, -⟩ he
      rw [he] at hn
      norm_num at hn
    · intro he
      refine ⟨by rw [if_pos (Nat.pos_of_ne_zero he)], fun i _ hi => ?_⟩
      rw [Nat.mod_eq_of_lt hi]
  · have hne : k.rq.infoStart ≠ 0 := h0.ne'
    have hend : k.rq.infoStart = k.rq.infoEnd + 1 ∧ min log.length 149 = 149 := by
      split_ifs at hhead
      · omega
      · omega
    have hlt : k.rq.infoStart < 150 := by
      split_ifs at hhead <;> omega
    have hn : ¬ k.rq.infoEnd > k.rq.infoStart := by omega
    rw [if_neg hn, hend.2]
    simp only [hne, false_and, ne_eq, not_false_eq_true, true_and, false_or]
    rw [← rotation_fixed_iff h0 hlt]
    constructor
    · rintro ⟨-, hr⟩ i hi
      exact hr i hi (Nat.lt_of_lt_of_le hi (by decide))
    · intro hr
      refine ⟨?_, fun i hi _ => hr i hi⟩
      have := hend.1
      push_cast
      omega

end

/-- After any calls the ring's window is the newest of the records that were committed, and
`get_scheduling_statistic` reports it if and only if something was committed and the array can
be read from index 0. -/
theorem statistic_reported_iff (HZ : ℕ) (calls : List LogCall) :
    ((bootKernel HZ).afterCalls calls).rq.ring.window switchInfoArraySize =
        (bootKernel HZ).retained calls ∧
      ∃ n usr, sysGetSchedulingStatistic .writable ((bootKernel HZ).afterCalls calls) =
          (n, some usr) ∧
        (Reported ((bootKernel HZ).retained calls) n usr ↔
          ReadFromZero ((bootKernel HZ).afterCalls calls).rq) := by
  have h := afterCalls_holds calls (bootKernel_holds HZ)
  rw [List.nil_append] at h
  have hw := h.window_eq (by decide)
  refine ⟨hw, _, _, rfl, ?_⟩
  rw [Kernel.retained, ← hw]
  exact reported_iff h

/-- Before any record is committed, 150 are announced. -/
theorem statistic_of_empty_log : (bootKernel 512).retained [] = [] ∧
    (sysGetSchedulingStatistic .writable ((bootKernel 512).afterCalls [])).1 = 150 := by
  decide +kernel

end ShortSched
