import ShortSched.TableRuns

/-! The pids that forks get in a run, and what happens when there are none left. -/
namespace ShortSched
open Cells Rotation PartialRun

section
variable {t : Table} {ps : List TaskId} {n : ℕ} {m : ℤ} {ops : List TableOp}

/-- In every table that a run from boot reaches, `get_pid` gives the first pid in turn after
`last_pid` that is in no use, although it looks at the tasks only where `next_safe` makes it.
With none left it gives 0, or never returns if `last_pid` is below 300. -/
theorem pid_inTurn (hm : 0 ≤ m) (hn : m < n) (hn' : 32768 ≤ n) (h : TableRun n m ops t) :
    (∀ v, Next firstPid pidMax t.lastPid (t.InUse n) v →
      ∃ s, t.getPid n false = some (v, { t with lastPid := v, nextSafe := s })) ∧
    ((∀ v, Candidate firstPid pidMax t.lastPid v → t.InUse n v) →
      if firstPid ≤ t.lastPid then ∃ s, t.getPid n false = some (0, { t with nextSafe := s })
      else ∀ k, n ≤ k → t.getPid k false = none) := by
  obtain ⟨c, hs⟩ := h.sound hm hn hn'
  have hps := hs.lists.forEachTask (hs.length_lt hn)
  have huse : t.InUse n = t.Held c.tasks := funext fun v => propext (inUse_iff hs hn)
  rw [huse]
  constructor
  · intro v hv
    obtain ⟨w, s, hw, hget, -⟩ := getPid_next hps hs.cache hn' ⟨v, hv.1.1, hv.2⟩
    obtain rfl := hw.unique hv
    exact ⟨s, hget⟩
  · intro hall
    split_ifs with hfirst
    · obtain ⟨s, -, -, hget⟩ := getPid_zero hps hs.cache hn' hall hfirst
      exact ⟨s, hget⟩
    · exact fun k hk => getPid_endless hps hs.cache hall (not_le.mp hfirst) k hk

theorem pid_inTurn_household : ∃ t, TableRun 32768 100 household t ∧
    ∀ v, Next firstPid pidMax t.lastPid (t.InUse 32768) v →
      ∃ s, t.getPid 32768 false = some (v, { t with lastPid := v, nextSafe := s }) := by
  obtain ⟨t, ht⟩ := household_run
  exact ⟨t, ht, (pid_inTurn (by decide) (by decide) le_rfl ht).1⟩

/-- When `get_pid` has run out of pids with `last_pid` at 300, it leaves `next_safe` at `PID_MAX`,
and the next call gives out 301 without looking, a pid that a task holds. -/
theorem getPid_reuses (hps : t.forEachTask n = some ps) (hc : PidCache t ps) (hm : 32768 ≤ n)
    (hall : ∀ v, Candidate firstPid pidMax t.lastPid v → t.Held ps v)
    (hlast : t.lastPid = firstPid) : ∃ t', t.getPid n false = some (0, t') ∧
      t'.nextSafe = pidMax ∧ t'.lastPid = t.lastPid ∧
      t'.getPid n false = some (301, { t' with lastPid := 301 }) ∧ t'.Held ps 301 := by
  obtain ⟨s, -, hs, hget⟩ := getPid_zero hps hc hm hall hlast.ge
  refine ⟨_, hget, hs hlast, rfl, ?_, hall 301 (Or.inl ?_)⟩
  · rw [hs hlast]
    have hno : pidOverflow 301 = false := by decide
    have hle : ¬ pidMax ≤ 301 := by decide
    have hnext : firstPid + 1 = 301 := by decide
    simp [Table.getPid, hlast, hno, hle, hnext]
  · rw [hlast]
    decide

/-- A table in which the tasks 1 to `k` have the pids from 301 on. -/
def crowded (k : ℕ) : Table :=
  { Table.boot with
    tasks := fun x => { Table.boot.tasks x with
      nextTask := if x < k then x + 1 else initTaskAddr
      pid := x + 300 }
    lastPid := firstPid
    nextSafe := 301 }

theorem crowded_walk (k d x : ℕ) (hx : x + d = k) :
    walk id (crowded k).pointers.ring.get (some initTaskAddr) (d + 1) x =
      some (List.range' (x + 1) d) := by
  induction d generalizing x with
  | zero =>
    have hend : (crowded k).pointers.ring.get x = some initTaskAddr := by
      simp [Pointers.ring, Table.pointers, crowded, ← hx]
    simp [walk, hend]
  | succ d ih =>
    have hnext : (crowded k).pointers.ring.get x = some (x + 1) := by
      simp [Pointers.ring, Table.pointers, crowded, ← hx]
    rw [walk, hnext]
    simp [ih (x + 1) (by omega), List.range'_succ]

theorem crowded_held (k : ℕ) (v : ℤ) (hv : 300 < v) (hk : v ≤ k + 300) :
    (crowded k).Held (List.range' 1 k) v := by
  refine ⟨(v - 300).toNat, ?_, ?_⟩
  · rw [List.mem_range'_1]
    omega
  · rw [Entry.holds_iff]
    left
    change (((v - 300).toNat : ℕ) : ℤ) + 300 = v
    omega

theorem getPid_reuses_crowded : ∃ t', (crowded 32467).getPid 32768 false = some (0, t') ∧
    t'.nextSafe = 32768 ∧ t'.lastPid = 300 ∧
    t'.getPid 32768 false = some (301, { t' with lastPid := 301 }) ∧
      t'.Held (List.range' 1 32467) 301 := by
  apply getPid_reuses
  · apply forEachTask_mono (by decide : 32467 + 1 ≤ 32768)
    exact crowded_walk 32467 32467 0 rfl
  · exact ⟨⟨by decide, by decide⟩, by decide, fun v _ hlt => hlt⟩
  · decide
  · rintro v (⟨h1, h2⟩ | ⟨h1, h2⟩)
    · exact crowded_held 32467 v h1 (by simp only [pidMax] at h2; omega)
    · exact absurd h1 (not_le.mpr h2)
  · rfl

end
end ShortSched
