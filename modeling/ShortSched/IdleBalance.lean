import ShortSched.Migration

/-! What an idle CPU takes from the busiest one: the first task in the order of the search that
may be moved. SHORT tasks are not searched. -/
namespace ShortSched
open Buckets

/-- The CPUs in the order of `cpu_logical_map`. -/
def Smp.cpus (m : Smp) : List ℕ := (List.range m.smpNumCpus).map m.cpuLogicalMap

/-- The longest of the other runqueues, the first one of several. -/
def Smp.Busiest (m : Smp) (thisCpu busiest : ℕ) : Prop :=
  busiest ≠ thisCpu ∧ ∃ l₁ l₂, m.cpus = l₁ ++ busiest :: l₂ ∧
    (∀ c ∈ l₁, c ≠ thisCpu → (m.rqs c).nrRunning < (m.rqs busiest).nrRunning) ∧
    ∀ c ∈ l₂, c ≠ thisCpu → (m.rqs c).nrRunning ≤ (m.rqs busiest).nrRunning

/-- The tasks of one array in the order of the search: by ascending priority, and each queue
from its tail on. -/
def Smp.arrayOrder (m : Smp) (c : ℕ) (a : ArrayIdx) : List TaskId :=
  (List.range 140).flatMap fun i : ℕ => ((m.view c).queue a i).reverse

/-- The tasks that the search considers, the expired ones first. -/
def Smp.searchOrder (m : Smp) (c : ℕ) : List TaskId :=
  m.arrayOrder c (m.rqs c).expired ++ m.arrayOrder c (m.rqs c).active

/-- CPU `c` has a runnable task, and it is on the array of its class. -/
def Smp.HasPlaced (m : Smp) (c : ℕ) : Prop :=
  ∃ p a i, p ∈ (m.view c).queue a i ∧ (m.tasks p).core.Belongs (m.rqs c).ptrs a

section
variable {m m' : Smp} {c busiest thisCpu : ℕ} {dropped : Bool} {p : TaskId} {a : ArrayIdx}
  {ps : List TaskId} {imbalance nrRunning : ℤ}

/-- The search of an idle CPU goes by the present lengths. -/
theorem searchCpu_keeps (s : Search) (l : List ℕ)
    (h : ∀ c ∈ l, c ≠ thisCpu → (m.rqs c).nrRunning ≤ s.maxLoad) :
    (l.foldl (searchCpu m thisCpu true) s).busiest = s.busiest ∧
      (l.foldl (searchCpu m thisCpu true) s).maxLoad = s.maxLoad := by
  induction l generalizing s with
  | nil => exact ⟨rfl, rfl⟩
  | cons c l ih =>
    obtain ⟨load, hlt, -, hload, hne, -⟩ | ⟨-, hb, hl⟩ := searchCpu_busiest m thisCpu true s c
    · have hle := h c List.mem_cons_self hne
      rw [← hload rfl] at hle
      exact absurd hle (not_le.mpr hlt)
    · have hrest := ih (searchCpu m thisCpu true s c) fun d hd hne => by
        rw [hl]
        exact h d (List.mem_cons_of_mem c hd) hne
      exact ⟨hrest.1.trans hb, hrest.2.trans hl⟩

theorem searchCpu_below {n : ℤ} (s : Search) (l : List ℕ) (hs : s.maxLoad < n)
    (h : ∀ c ∈ l, c ≠ thisCpu → (m.rqs c).nrRunning < n) :
    (l.foldl (searchCpu m thisCpu true) s).maxLoad < n := by
  induction l generalizing s with
  | nil => exact hs
  | cons c l ih =>
    refine ih _ ?_ fun d hd => h d (List.mem_cons_of_mem c hd)
    obtain ⟨load, -, -, hload, hne, -, hl⟩ | ⟨-, -, hl⟩ := searchCpu_busiest m thisCpu true s c
    · rw [hl, hload rfl]
      exact h c List.mem_cons_self hne
    · rwa [hl]

/-- An idle CPU finds the busiest one. -/
theorem findBusiest_busiest (h : m.Busiest thisCpu busiest)
    (h2 : 2 ≤ (m.rqs busiest).nrRunning) :
    (findBusiest m thisCpu true).busiest = some busiest := by
  obtain ⟨hne, l₁, l₂, hl, h1, h3⟩ := h
  have hbelow := searchCpu_below ⟨none, 1, (m.rqs thisCpu).prevNrRunning⟩ l₁
    (show 1 < (m.rqs busiest).nrRunning by omega) h1
  change (m.cpus.foldl (searchCpu m thisCpu true) _).busiest = some busiest
  rw [hl, List.foldl_append, List.foldl_cons]
  generalize l₁.foldl (searchCpu m thisCpu true) _ = s at hbelow ⊢
  obtain ⟨load, -, -, hload, -, hb, hmax⟩ | ⟨hle, -, -⟩ :=
    searchCpu_busiest m thisCpu true s busiest
  · rw [(searchCpu_keeps _ l₂ _).1, hb]
    rw [hmax, hload rfl]
    exact h3
  · exact absurd (hle rfl hne) (not_le.mpr hbelow)

/-! The search of an idle CPU ends with the first task that may be moved. -/

theorem pullQueue_idle (busiest thisCpu : ℕ) (a : ArrayIdx) (ps : List TaskId) (imbalance : ℤ)
    (m : Smp) : pullQueue true busiest thisCpu a ps imbalance m =
      match ps.find? fun p => decide (canMigrate m busiest thisCpu p) with
      | none => some ⟨false, imbalance, m⟩
      | some p => (pullTask busiest thisCpu a p m).map (Pull.mk true imbalance) := by
  induction ps with
  | nil => rfl
  | cons p ps ih =>
    by_cases hc : canMigrate m busiest thisCpu p
    · rw [List.find?_cons_of_pos (by simpa using hc)]
      simp only [pullQueue, if_pos hc, Option.bind_eq_bind, Option.pure_def, Option.map_eq_bind,
        Bool.true_eq_false, false_and, if_false]
      rfl
    · rw [List.find?_cons_of_neg (by simpa using hc)]
      simp only [pullQueue, if_neg hc]
      exact ih

theorem pullArray_idle (hm : m.Consistent) {n : ℕ} (hn : n ≤ 140) :
    pullArray true busiest thisCpu a n imbalance m =
      match ((List.range' (140 - n) n).flatMap fun i : ℕ =>
          ((m.view busiest).queue a i).reverse).find? fun p =>
            decide (canMigrate m busiest thisCpu p) with
      | none => some ⟨false, imbalance, m⟩
      | some p => (pullTask busiest thisCpu a p m).map (Pull.mk true imbalance) := by
  induction n with
  | zero => rfl
  | succ n ih =>
    have hnext : 140 - (n + 1) + 1 = 140 - n := by omega
    have hcast : ((140 - (n + 1) : ℕ) : ℤ) = 139 - n := by omega
    have hb := ((hm.shape busiest).arrays a).marked (139 - n) (by simp; omega)
    rw [List.range'_succ, List.flatMap_cons, List.find?_append, hnext, hcast]
    by_cases he : (m.view busiest).queue a (139 - n) = []
    · have hclear : ¬ ((m.rqs busiest).arrays a).bitmap (139 - n) = true := fun h => hb.mp h he
      simp only [pullArray, if_neg hclear, he, List.reverse_nil, List.find?_nil, Option.none_or]
      exact ih (by omega)
    · have hset : ((m.rqs busiest).arrays a).bitmap (139 - n) = true := hb.mpr he
      simp only [pullArray, if_pos hset, if_neg he, pullQueue_idle]
      cases hf : ((m.view busiest).queue a (139 - n)).reverse.find? fun p =>
          decide (canMigrate m busiest thisCpu p) with
      | none => exact ih (by omega)
      | some p =>
        rw [Option.some_or]
        dsimp only
        cases pullTask busiest thisCpu a p m <;> rfl

theorem mem_arrayOrder (hm : m.Consistent) :
    p ∈ m.arrayOrder c a ↔ ∃ i, p ∈ (m.view c).queue a i := by
  simp only [Smp.arrayOrder, List.mem_flatMap, List.mem_range, List.mem_reverse]
  constructor
  · rintro ⟨i, -, hp⟩
    exact ⟨i, hp⟩
  · rintro ⟨i, hp⟩
    have hi := (hm.shape c).prio_range hp
    refine ⟨i.toNat, by omega, ?_⟩
    rwa [Int.toNat_of_nonneg hi.1]

/-- From one array an idle CPU takes the first task that may be moved. -/
theorem pullArray_first {r : Pull} (hm : m.Consistent)
    (ha : a = (m.rqs busiest).active ∨ a = (m.rqs busiest).expired)
    (h : pullArray true busiest thisCpu a 140 imbalance m = some r) :
    match (m.arrayOrder busiest a).find? fun p => decide (canMigrate m busiest thisCpu p) with
    | none => r = ⟨false, imbalance, m⟩
    | some p => r.finished = true ∧ Pulled busiest thisCpu [p] m r.smp := by
  rw [pullArray_idle hm le_rfl, Nat.sub_self, ← List.range_eq_range'] at h
  unfold Smp.arrayOrder
  cases hf : ((List.range 140).flatMap fun i : ℕ => ((m.view busiest).queue a i).reverse).find?
      fun p => decide (canMigrate m busiest thisCpu p) with
  | none =>
    rw [hf] at h
    exact (Option.some.inj h).symm
  | some p =>
    rw [hf] at h
    obtain ⟨i, hp⟩ := (mem_arrayOrder hm).mp (List.mem_of_find?_eq_some hf)
    have hc : canMigrate m busiest thisCpu p := by simpa using List.find?_some hf
    obtain ⟨m1, h1, hp1, -⟩ := pullTask_pulled hm hp ha hc
    simp only [h1, Option.map_some, Option.some.injEq] at h
    subst h
    exact ⟨rfl, hp1⟩

/-- An idle CPU takes the first task of the search that may be moved, if there is one. -/
theorem pullTasks_first (hm : m.Consistent) (hnr : ¬ (m.rqs busiest).nrRunning ≤ nrRunning + 1)
    (h : pullTasks true busiest thisCpu nrRunning imbalance m = some m') :
    match (m.searchOrder busiest).find? fun p => decide (canMigrate m busiest thisCpu p) with
    | none => m' = m
    | some p => Pulled busiest thisCpu [p] m m' := by
  rw [pullTasks, if_neg hnr] at h
  have hactive : ∀ r : Pull,
      pullArray true busiest thisCpu (m.rqs busiest).active 140 imbalance m = some r →
      match (m.arrayOrder busiest (m.rqs busiest).active).find? fun p =>
          decide (canMigrate m busiest thisCpu p) with
      | none => r.smp = m
      | some p => Pulled busiest thisCpu [p] m r.smp := by
    intro r hr
    have hfirst := pullArray_first hm (Or.inl rfl) hr
    cases hf : (m.arrayOrder busiest (m.rqs busiest).active).find? fun p =>
        decide (canMigrate m busiest thisCpu p) with
    | none =>
      rw [hf] at hfirst
      exact congrArg Pull.smp hfirst
    | some p =>
      rw [hf] at hfirst
      exact hfirst.2
  rw [Smp.searchOrder, List.find?_append]
  by_cases hexp : ((m.rqs busiest).arrays (m.rqs busiest).expired).nrActive ≠ 0
  · simp only [if_pos hexp, Option.bind_eq_bind, Option.pure_def] at h
    obtain ⟨r, hr, h⟩ := Option.bind_eq_some_iff.mp h
    have hfirst := pullArray_first hm (Or.inr rfl) hr
    cases hf : (m.arrayOrder busiest (m.rqs busiest).expired).find? fun p =>
        decide (canMigrate m busiest thisCpu p) with
    | none =>
      rw [hf] at hfirst
      subst hfirst
      obtain ⟨r', hr', h⟩ := Option.bind_eq_some_iff.mp ((if_neg Bool.false_ne_true).symm.trans h)
      rw [← Option.some.inj h]
      exact hactive r' hr'
    | some p =>
      rw [hf] at hfirst
      rw [if_pos hfirst.1] at h
      rw [← Option.some.inj h]
      exact hfirst.2
  · simp only [if_neg hexp, Option.bind_eq_bind, Option.pure_def] at h
    obtain ⟨r, hr, h⟩ := Option.bind_eq_some_iff.mp h
    -- an array that counts no task has none
    have hnone : m.arrayOrder busiest (m.rqs busiest).expired = [] := by
      refine List.eq_nil_iff_forall_not_mem.mpr fun p hp => hexp ?_
      obtain ⟨i, hp⟩ := (mem_arrayOrder hm).mp hp
      exact (((hm.shape busiest).arrays _).nrActive_pos_iff.mpr ⟨p, i, hp⟩).ne'
    rw [hnone, List.find?_nil, Option.none_or, ← Option.some.inj h]
    exact hactive r hr

/-! Which tasks the search leaves out. -/

theorem notMem_of_empty (hm : m.Consistent) (h : (m.rqs c).nrRunning = 0) (p : TaskId)
    (a : ArrayIdx) (i : ℤ) : p ∉ (m.view c).queue a i := by
  intro hp
  have hsum := (hm.shape c).running
  have hpos := ((hm.shape c).arrays a).nrActive_pos_iff.mpr ⟨p, i, hp⟩
  have hle := Finset.single_le_sum (fun b _ => ((hm.shape c).arrays b).nrActive_nonneg)
    (Finset.mem_univ a)
  rw [add_zero, show (m.view c).rq.nrRunning = 0 from h] at hsum
  omega

/-- Only SHORT tasks are out of place on an active array. -/
theorem Core.belongs_active_iff {ps : Ptrs} {t : Core} (hd : ps.Distinct) :
    t.Belongs ps ps.active ↔ t.policy ≠ .short := by
  obtain ⟨-, h1, h2, -⟩ := hd.ne
  unfold Core.Belongs
  cases hp : t.policy
  case short =>
    split_ifs
    · simp [h2]
    · simp [h1]
  all_goals simp

/-- SHORT tasks are on neither of the arrays that are searched, and all others are. -/
theorem Core.Belongs.searched_iff {ps : Ptrs} {t : Core} (h : t.Belongs ps a) (hd : ps.Distinct) :
    (a = ps.active ∨ a = ps.expired) ↔ t.policy ≠ .short := by
  obtain ⟨-, h1, h2, h3, h4, -⟩ := hd.ne
  unfold Core.Belongs at h
  cases hp : t.policy <;> simp only [hp] at h
  case short =>
    split_ifs at h
    · simp [h, h2.symm, h4.symm]
    · simp [h, h1.symm, h3.symm]
  case other => simpa using h
  all_goals simp [h]

theorem mem_searchOrder (hm : m.Consistent) : p ∈ m.searchOrder c ↔
    ∃ a i, p ∈ (m.view c).queue a i ∧ (a = (m.rqs c).active ∨ a = (m.rqs c).expired) := by
  rw [Smp.searchOrder, List.mem_append, mem_arrayOrder hm, mem_arrayOrder hm]
  constructor
  · rintro (⟨i, hp⟩ | ⟨i, hp⟩)
    · exact ⟨_, i, hp, Or.inr rfl⟩
    · exact ⟨_, i, hp, Or.inl rfl⟩
  · rintro ⟨a, i, hp, rfl | rfl⟩
    · exact Or.inr ⟨i, hp⟩
    · exact Or.inl ⟨i, hp⟩

/-- With the classes separated, the search considers the tasks that are not SHORT. -/
theorem Smp.Separated.mem_searchOrder (hm : m.Separated) :
    p ∈ m.searchOrder c ↔ (m.view c).Linked p ∧ (m.tasks p).policy ≠ .short := by
  rw [ShortSched.mem_searchOrder hm.consistent]
  constructor
  · rintro ⟨a, i, hp, ha⟩
    exact ⟨⟨a, i, hp⟩, ((hm.home c p a i hp).1.searched_iff (hm.distinct c)).mp ha⟩
  · rintro ⟨⟨a, i, hp⟩, hpol⟩
    exact ⟨a, i, hp, ((hm.home c p a i hp).1.searched_iff (hm.distinct c)).mpr hpol⟩

/-- What an empty runqueue has after one task was moved to it. -/
theorem Pulled.hasPlaced_iff (h : Pulled busiest thisCpu [p] m m') (hm : m.Consistent)
    (hempty : (m.rqs thisCpu).nrRunning = 0) :
    m'.HasPlaced thisCpu ↔ (m.tasks p).policy ≠ .short := by
  have hp := h.mem_moved hm List.mem_cons_self
  have hpol : (m'.tasks p).core.policy = (m.tasks p).core.policy := by
    rw [h.core, if_pos List.mem_cons_self]
    rfl
  have hact := Core.belongs_active_iff (t := (m'.tasks p).core) (h.consistent.distinct thisCpu)
  rw [hpol, show (m'.rqs thisCpu).ptrs.active = (m.rqs thisCpu).active from
    h.active_eq thisCpu] at hact
  refine Iff.trans ⟨?_, fun hb => ?_⟩ hact
  · rintro ⟨q, a, i, hq, hb⟩
    have hqp : q ∈ [p] := by
      by_contra hqp
      exact notMem_of_empty hm hempty q a i ((h.mem_rest hm hqp).mp hq)
    rw [List.mem_singleton.mp hqp] at hq hb
    rw [h.consistent.mem_iff, hp] at hq
    obtain ⟨-, rfl, -⟩ := ListHead.mk.inj (Option.some.inj hq)
    exact hb
  · exact ⟨p, _, _, h.consistent.mem_iff.mpr hp, hb⟩

/-- `nr_running` of an idle CPU is the present length, whether it is recalculated or not. -/
theorem doubleLockBalance_idle : doubleLockBalance thisCpu true dropped (m.remember thisCpu true)
    (m.ownLoad thisCpu true) = (m.rqs thisCpu).nrRunning := by
  have h1 : m.ownLoad thisCpu true = (m.rqs thisCpu).nrRunning := if_pos (Or.inl rfl)
  have h2 : (m.remember thisCpu true).ownLoad thisCpu true = (m.rqs thisCpu).nrRunning :=
    (if_pos (Or.inl rfl)).trans (store_field Runqueue.nrRunning rfl thisCpu)
  unfold doubleLockBalance
  rw [h1, h2]
  exact ite_self _

theorem searchOrder_remember (hne : busiest ≠ thisCpu) :
    (m.remember thisCpu true).searchOrder busiest = m.searchOrder busiest := by
  have hrq : (m.remember thisCpu true).rqs busiest = m.rqs busiest := Function.update_of_ne hne _ _
  have hview : (m.remember thisCpu true).view busiest = m.view busiest := store_view_ne hne
  unfold Smp.searchOrder Smp.arrayOrder
  rw [hrq, hview]

/-- What an idle CPU does when another one is busy. -/
theorem balances_idle (dropped : Bool) (hm : m.Consistent)
    (hempty : (m.rqs thisCpu).nrRunning = 0) (hb : m.Busiest thisCpu busiest)
    (h2 : 2 ≤ (m.rqs busiest).nrRunning) :
    ∃ m', (∀ n, Balances thisCpu true dropped m n ↔ n = m') ∧
      match (m.searchOrder busiest).find? fun p => decide (canMigrate m busiest thisCpu p) with
      | none => m' = m.remember thisCpu true
      | some p => Pulled busiest thisCpu [p] m m' := by
  have hr := Pulled.remember busiest thisCpu true hm
  obtain ⟨m', moved, hm', -⟩ := pullTasks_pulled true busiest thisCpu (m.rqs thisCpu).nrRunning
    (m.imbalance thisCpu true) hr.consistent
  refine ⟨m', fun n => ?_, ?_⟩
  · rw [balances_iff hm, findBusiest_busiest hb h2, doubleLockBalance_idle]
    dsimp only
    rw [if_neg (by simp), hm']
    exact ⟨fun h => (Option.some.inj h).symm, fun h => congrArg some h.symm⟩
  · have hnr : ¬ ((m.remember thisCpu true).rqs busiest).nrRunning ≤
        (m.rqs thisCpu).nrRunning + 1 := by
      rw [show ((m.remember thisCpu true).rqs busiest).nrRunning = (m.rqs busiest).nrRunning from
        store_field Runqueue.nrRunning rfl busiest]
      omega
    have hfirst := pullTasks_first hr.consistent hnr hm'
    rw [searchOrder_remember hb.1] at hfirst
    simp only [hr.canMigrate_iff] at hfirst
    cases hf : (m.searchOrder busiest).find? fun p => decide (canMigrate m busiest thisCpu p) with
    | none =>
      rw [hf] at hfirst
      exact hfirst
    | some p =>
      rw [hf] at hfirst
      exact hr.trans hfirst hm

end

/-- With nothing to run, a CPU gets a task from the busiest one, on the array of its class,
exactly when the first task in the order of the search that may be moved is not SHORT. With the
classes separated, that is when some task may be moved that is not SHORT. -/
theorem idle_takes_iff (m : Smp) (thisCpu busiest : ℕ) (dropped : Bool) (hm : m.Consistent)
    (hempty : (m.rqs thisCpu).nrRunning = 0) (hb : m.Busiest thisCpu busiest)
    (h2 : 2 ≤ (m.rqs busiest).nrRunning) :
    ∃ m', (∀ n, Balances thisCpu true dropped m n ↔ n = m') ∧
      (m'.HasPlaced thisCpu ↔ ∃ l₁ p l₂, m.searchOrder busiest = l₁ ++ p :: l₂ ∧
        (∀ q ∈ l₁, ¬ canMigrate m busiest thisCpu q) ∧ canMigrate m busiest thisCpu p ∧
          (m.tasks p).policy ≠ .short) ∧
      (m.Separated → (m'.HasPlaced thisCpu ↔ ∃ p, (m.view busiest).Linked p ∧
        canMigrate m busiest thisCpu p ∧ (m.tasks p).policy ≠ .short)) := by
  obtain ⟨m', hm', hfirst⟩ := balances_idle dropped hm hempty hb h2
  refine ⟨m', hm', ?_⟩
  cases hf : (m.searchOrder busiest).find? fun p => decide (canMigrate m busiest thisCpu p) with
  | none =>
    rw [hf] at hfirst
    have hno : ∀ p ∈ m.searchOrder busiest, ¬ canMigrate m busiest thisCpu p := by
      simpa using List.find?_eq_none.mp hf
    have hnone : ¬ m'.HasPlaced thisCpu := by
      rw [hfirst]
      rintro ⟨p, a, i, hp, -⟩
      refine notMem_of_empty (Pulled.remember busiest thisCpu true hm).consistent ?_ p a i hp
      exact (store_field Runqueue.nrRunning rfl thisCpu).trans hempty
    refine ⟨iff_of_false hnone ?_, fun hs => iff_of_false hnone ?_⟩
    · rintro ⟨l₁, p, l₂, hl, -, hc, -⟩
      exact hno p (hl ▸ by simp) hc
    · rintro ⟨p, hl, hc, hpol⟩
      exact hno p (hs.mem_searchOrder.mpr ⟨hl, hpol⟩) hc
  | some p =>
    rw [hf] at hfirst
    obtain ⟨hc, l₁, l₂, hl, hbefore⟩ := List.find?_eq_some_iff_append.mp hf
    rw [hfirst.hasPlaced_iff hm hempty]
    refine ⟨⟨fun hpol => ?_, ?_⟩, fun hs => ?_⟩
    · exact ⟨l₁, p, l₂, hl, by simpa using hbefore, by simpa using hc, hpol⟩
    · rintro ⟨l₁', q, l₂', hl', hbefore', hc', hpol⟩
      have hq : (m.searchOrder busiest).find? (fun p => decide (canMigrate m busiest thisCpu p)) =
          some q := List.find?_eq_some_iff_append.mpr
        ⟨by simpa using hc', l₁', l₂', hl', by simpa using hbefore'⟩
      cases hf.symm.trans hq
      exact hpol
    · obtain ⟨hlinked, hpol⟩ := hs.mem_searchOrder.mp (List.mem_of_find?_eq_some hf)
      exact iff_of_true hpol ⟨p, hlinked, by simpa using hc, hpol⟩

/-- Of two CPUs the other one is the busiest. -/
theorem busiest_of_two (k : Kernel) : (k.smp 2).Busiest 1 0 := by
  refine ⟨by decide, [], [1], rfl, by simp, ?_⟩
  rintro c hmem hne
  exact absurd (List.mem_singleton.mp hmem) hne

/-- The idle CPU takes the OTHER child over a tick later. -/
theorem idle_takes_iff_busyCpu : ∃ k ∈ runFromBoot 512 busyCpu,
    ∃ m', Balances 1 true false (k.smp 2) m' ∧ m'.HasPlaced 1 := by
  obtain ⟨k, hk, hempty, h2, hp, hc, hpol⟩ : ∃ k ∈ runFromBoot 512 busyCpu,
      ((k.smp 2).rqs 1).nrRunning = 0 ∧ 2 ≤ ((k.smp 2).rqs 0).nrRunning ∧
        2 ∈ ((k.smp 2).view 0).queue 0 125 ∧ canMigrate (k.smp 2) 0 1 2 ∧
          ((k.smp 2).tasks 2).policy ≠ .short := by
    decide +kernel
  have hsep := (runFromBoot_sound (C := fun _ _ => True) (by decide +kernel) hk).smp 2
  obtain ⟨m', hm', -, hiff⟩ := idle_takes_iff (k.smp 2) 1 0 false hsep.consistent hempty
    (busiest_of_two k) h2
  exact ⟨k, hk, m', (hm' m').mpr rfl, (hiff hsep).mpr ⟨2, ⟨0, 125, hp⟩, hc, hpol⟩⟩

/-- Task 1 becomes SHORT and forks. -/
def busyShortCpu : List Op := shortTicks 100 5 0 ++ [.doFork 2 2 false false, .advance 1]

/-- The idle CPU gets nothing, though it may take the SHORT child. -/
theorem idle_leaves_short : ∃ k ∈ runFromBoot 512 busyShortCpu, (k.smp 2).Separated ∧
    ((k.smp 2).rqs 1).nrRunning = 0 ∧ (k.smp 2).Busiest 1 0 ∧
      2 ≤ ((k.smp 2).rqs 0).nrRunning ∧
      (∃ p, ((k.smp 2).view 0).Linked p ∧ canMigrate (k.smp 2) 0 1 p) ∧
      ∃ m', Balances 1 true false (k.smp 2) m' ∧ ¬ m'.HasPlaced 1 := by
  obtain ⟨k, hk, hempty, h2, hp, hc, m', hm', hempty'⟩ : ∃ k ∈ runFromBoot 512 busyShortCpu,
      ((k.smp 2).rqs 1).nrRunning = 0 ∧ 2 ≤ ((k.smp 2).rqs 0).nrRunning ∧
        2 ∈ ((k.smp 2).view 0).queue 2 120 ∧ canMigrate (k.smp 2) 0 1 2 ∧
          ∃ m' ∈ loadBalance 1 true (k.smp 2), (m'.rqs 1).nrRunning = 0 := by
    decide +kernel
  have hsep := (runFromBoot_sound (C := fun _ _ => True) (by decide +kernel) hk).smp 2
  obtain ⟨n, hn, hs⟩ := loadBalance_total true hsep
  cases Option.some.inj (hm'.symm.trans hn)
  refine ⟨k, hk, hsep, hempty, busiest_of_two k, h2, ⟨2, ⟨2, 120, hp⟩, hc⟩, m',
    (balances_iff_loadBalance hsep.consistent).mpr hm', ?_⟩
  rintro ⟨p, a, i, hmem, -⟩
  exact notMem_of_empty hs.consistent hempty' p a i hmem

end ShortSched
