import ShortSched.Queries
import ShortSched.TableRuns

/-! What the loops over the process table find, in every table that a run reaches. -/
namespace ShortSched
open Cells Rotation PartialRun

section
variable {t : Table} {c : Census} {p : TaskId} {n : ℕ} {m pid : ℤ} {ops : List TableOp}

/-- The bucket of a pid has the tasks whose pid has its hash value. -/
theorem findTaskByPid_eq (h : t.Sound m c) (hn : m < n) (pid : ℤ) :
    t.findTaskByPid n pid =
      some ((c.hashed (pidHashfn pid)).find? fun p => (t.tasks p).pid = pid) := by
  have hlen := ((h.lists.hashed.nodup (pidHashfn pid)).subperm
    fun x hx => ((h.lists.bucket x _).mp hx).1).length_le
  have hwalk := (h.lists.hashed.chain (pidHashfn pid)).walk (n := n)
    (by have hlt := h.length_lt hn; omega)
  unfold Table.findTaskByPid
  rw [hwalk]
  rfl

theorem findTaskByPid_sound (h : t.Sound m c) (hn : m < n) (pid : ℤ) :
    ∃ r, t.findTaskByPid n pid = some r ∧
      ∀ p, r = some p ↔ p ∈ c.tasks ∧ (t.tasks p).pid = pid := by
  refine ⟨_, findTaskByPid_eq h hn pid, fun p => ?_⟩
  have hmem : ∀ x, x ∈ c.hashed (pidHashfn pid) ∧ (t.tasks x).pid = pid ↔
      x ∈ c.tasks ∧ (t.tasks x).pid = pid := by
    intro x
    rw [h.lists.bucket]
    constructor
    · exact fun hx => ⟨hx.1.1, hx.2⟩
    · rintro ⟨hx, rfl⟩
      exact ⟨⟨hx, rfl⟩, rfl⟩
  rw [← hmem]
  constructor
  · intro hf
    exact ⟨List.mem_of_find?_eq_some hf, by simpa using List.find?_some hf⟩
  · intro hp
    have hp' := (hmem p).mp hp
    cases hf : (c.hashed (pidHashfn pid)).find? fun x => (t.tasks x).pid = pid with
    | none => exact absurd hp.2 (by simpa using List.find?_eq_none.mp hf p hp.1)
    | some q =>
      have hq := (hmem q).mp ⟨List.mem_of_find?_eq_some hf, by simpa using List.find?_some hf⟩
      rw [h.unique q hq.1 p hp'.1 (hq.2.trans hp'.2.symm)]

/-- `find_task_by_pid` follows one bucket of the hash table and finds what a search of all tasks
would: the task with this pid, which is the only one, or none if there is none. -/
theorem findTaskByPid_exact (hm : 0 ≤ m) (hn : m < n) (hn' : 32768 ≤ n) (h : TableRun n m ops t)
    (pid : ℤ) : ∃ r, t.findTaskByPid n pid = some r ∧
      ∀ p, r = some p ↔ t.Linked n p ∧ (t.tasks p).pid = pid := by
  obtain ⟨c, hs⟩ := h.sound hm hn hn'
  simp only [linked_iff hs hn]
  exact findTaskByPid_sound hs hn pid

theorem findTaskByPid_exact_household : ∃ t, TableRun 32768 100 household t ∧
    ∃ r, t.findTaskByPid 32768 2 = some r ∧
      ∀ p, r = some p ↔ t.Linked 32768 p ∧ (t.tasks p).pid = 2 := by
  obtain ⟨t, ht⟩ := household_run
  exact ⟨t, ht, findTaskByPid_exact (by decide) (by decide) le_rfl ht 2⟩

/-- The scheduler's calls look tasks up in a list of all tasks. The hash table refines that list,
in whatever order it has the tasks. -/
theorem findTaskByPid_refines (hm : 0 ≤ m) (hn : m < n) (hn' : 32768 ≤ n)
    (h : TableRun n m ops t) (k : Kernel) (hk : ∀ p, p ∈ k.pidhash ↔ t.Linked n p)
    (hpid : ∀ p, t.Linked n p → (k.tasks p).pid = (t.tasks p).pid) (pid : ℤ) :
    t.findTaskByPid n pid = some (findTaskByPid k pid) := by
  obtain ⟨c, hs⟩ := h.sound hm hn hn'
  obtain ⟨r, hr, hiff⟩ := findTaskByPid_sound hs hn pid
  simp only [← linked_iff hs hn] at hiff
  rw [hr, Option.some.injEq]
  cases hf : findTaskByPid k pid with
  | none =>
    cases r with
    | none => rfl
    | some p =>
      obtain ⟨hp, he⟩ := (hiff p).mp rfl
      have hno := List.find?_eq_none.mp hf p ((hk p).mpr hp)
      simp [hpid p hp, he] at hno
  | some p =>
    have hp := (hk p).mp (List.mem_of_find?_eq_some hf)
    have he : (k.tasks p).pid = pid := by simpa using List.find?_some hf
    exact (hiff p).mpr ⟨hp, (hpid p hp).symm.trans he⟩

theorem findTaskByPid_refines_household : ∃ t k, TableRun 32768 100 household t ∧
    (∀ p, p ∈ k.pidhash ↔ t.Linked 32768 p) ∧ ∀ pid,
      t.findTaskByPid 32768 pid = some (findTaskByPid k pid) := by
  obtain ⟨t, ht⟩ := household_run
  obtain ⟨c, hs⟩ := ht.sound (by decide) (by decide) le_rfl
  have hk : ∀ p, p ∈ c.tasks ↔ t.Linked 32768 p := fun p => (linked_iff hs (by decide)).symm
  let k : Kernel := { bootKernel 512 with
    pidhash := c.tasks
    tasks := fun p => { (bootKernel 512).tasks p with pid := (t.tasks p).pid } }
  exact ⟨t, k, ht, hk, findTaskByPid_refines (by decide) (by decide) le_rfl ht k hk fun _ _ => rfl⟩

end
end ShortSched
