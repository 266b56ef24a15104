import ShortSched.Recording
import ShortSched.Survival

/-! The log of switches as a ring: the window from `info_start` to `info_end` is the newest part
of what was committed, and only a commit changes it. -/
namespace ShortSched
open Ring

/-- Slot `i` is in the window from `info_start` up to `info_end`. -/
def Runqueue.InWindow (rq : Runqueue) (i : ℕ) : Prop :=
  ∃ j < rq.ring.length switchInfoArraySize, i = (rq.infoStart + j) % switchInfoArraySize

section
variable {HZ : ℕ} {k : Kernel} {log : List SwitchInfo} {c : LogCall} {i : ℕ}

/-- What is committed is what the slot under the old end of the log contains from then on. -/
theorem LogCall.committed_slot :
    ∀ x ∈ c.committed k, (c.run k).rq.switchInfoArr k.rq.infoEnd = x := by
  intro x hx
  cases c with
  | recordSwitch reason => cases hx
  | createRecord previousPid nextPid previousPolicy nextPolicy jiffies =>
    rw [LogCall.committed] at hx
    split_ifs at hx
    · obtain rfl := List.mem_singleton.mp hx
      exact Function.update_self _ _ _
    · cases hx

/-- A call that commits nothing writes at most the slot under the end of the log. -/
theorem LogCall.run_uncommitted (h : c.committed k = []) :
    ∃ x, (c.run k).rq.ring = k.rq.ring.write x := by
  cases c with
  | recordSwitch reason => exact ⟨_, recordSwitch_ring reason k⟩
  | createRecord previousPid nextPid previousPolicy nextPolicy jiffies =>
    rw [LogCall.committed] at h
    split_ifs at h with hr
    rw [LogCall.run, createRecord_ring, if_neg hr]
    exact ⟨_, rfl⟩

/-- Such a call leaves the window alone. -/
theorem LogCall.run_window (hk : k.rq.ring.Holds switchInfoArraySize log)
    (h : c.committed k = []) : (c.run k).rq.infoStart = k.rq.infoStart ∧
      (c.run k).rq.infoEnd = k.rq.infoEnd ∧
        ∀ i, k.rq.InWindow i → (c.run k).rq.switchInfoArr i = k.rq.switchInfoArr i := by
  obtain ⟨x, hx⟩ := LogCall.run_uncommitted h
  refine ⟨congrArg Buffer.head hx, congrArg Buffer.tail hx, ?_⟩
  rintro i ⟨j, hj, rfl⟩
  have hne : (k.rq.infoStart + j) % switchInfoArraySize ≠ k.rq.infoEnd :=
    hk.tail_ne (by decide) hj
  have hslot : (c.run k).rq.switchInfoArr = Function.update k.rq.switchInfoArr k.rq.infoEnd x :=
    congrArg Buffer.slot hx
  rw [hslot, Function.update_of_ne hne]

theorem SwitchLog.foldl_holds (rs : List SwitchReason) {l : SwitchLog}
    (h : l.ring.Holds switchInfoArraySize log) :
    (rs.foldl SwitchLog.record l).ring.Holds switchInfoArraySize log := by
  induction rs generalizing l with
  | nil => exact h
  | cons r rs ih => exact ih (h.write _)

/-- `sched_init` leaves an empty log. -/
theorem schedInit_holds (h : schedInit HZ = some k) :
    k.rq.ring.Holds switchInfoArraySize [] := by
  have hr := (tryToWakeUp_records h).log
  have hring : k.rq.ring = k.rq.switchLog.ring := rfl
  rw [hring, hr]
  exact SwitchLog.foldl_holds _ (bootKernel_holds HZ)

end

/-- After any calls since `sched_init` the ends of the window are slots of the array, the window
is the newest part of what was committed, with the contents at commit time, and a call that
commits nothing leaves it alone. -/
theorem switch_ring_keeps_newest (HZ : ℕ) (calls : List LogCall) : ∃ k, schedInit HZ = some k ∧
    (k.afterCalls calls).rq.infoStart < switchInfoArraySize ∧
    (k.afterCalls calls).rq.infoEnd < switchInfoArraySize ∧
    ((k.afterCalls calls).rq.ring.window switchInfoArraySize).length =
      min (k.committed calls).length (switchInfoArraySize - 1) ∧
    (k.afterCalls calls).rq.ring.window switchInfoArraySize = k.retained calls ∧
    (∀ c : LogCall, ∀ x ∈ c.committed (k.afterCalls calls),
      (c.run (k.afterCalls calls)).rq.switchInfoArr (k.afterCalls calls).rq.infoEnd = x) ∧
    ∀ c : LogCall, c.committed (k.afterCalls calls) = [] →
      (c.run (k.afterCalls calls)).rq.infoStart = (k.afterCalls calls).rq.infoStart ∧
      (c.run (k.afterCalls calls)).rq.infoEnd = (k.afterCalls calls).rq.infoEnd ∧
      ∀ i, (k.afterCalls calls).rq.InWindow i →
        (c.run (k.afterCalls calls)).rq.switchInfoArr i =
          (k.afterCalls calls).rq.switchInfoArr i := by
  obtain ⟨k, hk⟩ := schedInit_total HZ
  have h := afterCalls_holds calls (schedInit_holds hk)
  rw [List.nil_append] at h
  have hlen : ((k.afterCalls calls).rq.ring.window switchInfoArraySize).length =
      min (k.committed calls).length (switchInfoArraySize - 1) := by
    rw [Buffer.window, List.length_map, List.length_range]
    exact h.length_eq (by decide)
  exact ⟨k, hk, h.head_lt (by decide), h.tail_lt (by decide), hlen, h.window_eq (by decide),
    fun c => c.committed_slot, fun c hc => c.run_window h hc⟩

end ShortSched
