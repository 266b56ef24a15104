import ShortSched.BalanceLoop

/-! What load balancing does to the tasks that are queued on each CPU: it moves some of them
from the busiest runqueue to this one, and neither loses one nor moves too many. -/
namespace ShortSched
open Buckets

/-- The tasks that are queued on CPU `c`. -/
noncomputable def Smp.queued (m : Smp) (c : ℕ) : Multiset TaskId :=
  ∑ a, ∑ i ∈ prios, ((m.view c).queue a i : Multiset TaskId)

section
variable {m m' : Smp} {c busiest thisCpu : ℕ} {idle dropped : Bool} {p : TaskId}
  {ps : List TaskId}

/-- A task is queued once, where its list entry says. -/
theorem count_queued (hm : m.Consistent) (c : ℕ) (p : TaskId) :
    (m.queued c).count p = if ((m.tasks p).runList.map ListHead.cpu) = some c then 1 else 0 := by
  have hcount : ∀ a i, (((m.view c).queue a i : Multiset TaskId)).count p =
      if (m.tasks p).runList = some ⟨c, a, i⟩ then 1 else 0 := by
    intro a i
    have hn : ((m.view c).queue a i).Nodup :=
      (hm.shape c).located.nodup ⟨((m.view c)).rq.cpu, a, i⟩ rfl
    rw [Multiset.coe_count, hn.count]
    simp only [hm.mem_iff]
  simp only [Smp.queued, Multiset.count_sum', hcount]
  cases hr : (m.tasks p).runList with
  | none => simp
  | some l =>
    obtain ⟨c', a, i⟩ := l
    by_cases hc : c' = c
    · subst hc
      have hi : i ∈ prios := by simpa using (hm.shape c').prio_range (hm.mem_iff.mpr hr)
      simp [ite_and, hi]
    · simp [hc]

/-- `nr_running` counts the queued tasks. -/
theorem card_queued (hm : m.Consistent) (c : ℕ) :
    (m.rqs c).nrRunning = Multiset.card (m.queued c) := by
  have hrun := (hm.shape c).running
  rw [add_zero] at hrun
  simp only [Smp.queued, Multiset.card_sum, Multiset.coe_card]
  push_cast
  refine hrun.trans (Finset.sum_congr rfl fun a _ => ?_)
  rw [((hm.shape c).arrays a).counted]
  push_cast [total]
  rfl

/-- A task that was moved was queued on the busiest CPU and is queued on this one. -/
theorem Pulled.moved_cpu (h : Pulled busiest thisCpu ps m m') (hm : m.Consistent) (hp : p ∈ ps) :
    (m.tasks p).runList.map ListHead.cpu = some busiest ∧
      (m'.tasks p).runList.map ListHead.cpu = some thisCpu := by
  obtain ⟨-, a, i, hmem, -⟩ := h.source p hp
  rw [hm.mem_iff.mp hmem, h.mem_moved hm hp]
  exact ⟨rfl, rfl⟩

theorem Pulled.rest_cpu (h : Pulled busiest thisCpu ps m m') (hp : p ∉ ps) :
    (m'.tasks p).runList.map ListHead.cpu = (m.tasks p).runList.map ListHead.cpu :=
  congrArg (fun t => (Core.runList t).map ListHead.cpu) (h.rest hp)

theorem Pulled.queued_busiest (h : Pulled busiest thisCpu ps m m') (hm : m.Consistent)
    (hne : busiest ≠ thisCpu) : m'.queued busiest + (ps : Multiset TaskId) = m.queued busiest := by
  ext p
  rw [Multiset.count_add, count_queued h.consistent, count_queued hm, Multiset.coe_count,
    (h.nodup hne).count]
  by_cases hp : p ∈ ps
  · obtain ⟨h1, h2⟩ := h.moved_cpu hm hp
    rw [h1, h2, if_pos hp, if_neg fun he => hne (Option.some.inj he).symm, if_pos rfl]
  · rw [h.rest_cpu hp, if_neg hp, add_zero]

theorem Pulled.queued_thisCpu (h : Pulled busiest thisCpu ps m m') (hm : m.Consistent)
    (hne : busiest ≠ thisCpu) : m'.queued thisCpu = m.queued thisCpu + (ps : Multiset TaskId) := by
  ext p
  rw [Multiset.count_add, count_queued h.consistent, count_queued hm, Multiset.coe_count,
    (h.nodup hne).count]
  by_cases hp : p ∈ ps
  · obtain ⟨h1, h2⟩ := h.moved_cpu hm hp
    rw [h1, h2, if_pos hp, if_neg fun he => hne (Option.some.inj he), if_pos rfl]
  · rw [h.rest_cpu hp, if_neg hp, add_zero]

theorem Pulled.queued_rest (h : Pulled busiest thisCpu ps m m') (hm : m.Consistent)
    (hb : c ≠ busiest) (hc : c ≠ thisCpu) : m'.queued c = m.queued c := by
  ext p
  rw [count_queued h.consistent, count_queued hm]
  by_cases hp : p ∈ ps
  · obtain ⟨h1, h2⟩ := h.moved_cpu hm hp
    rw [h1, h2, if_neg fun he => hc (Option.some.inj he).symm,
      if_neg fun he => hb (Option.some.inj he).symm]
  · rw [h.rest_cpu hp]

/-- Both CPUs together have the tasks that they had. -/
theorem Pulled.queued_sum (h : Pulled busiest thisCpu ps m m') (hm : m.Consistent)
    (hne : busiest ≠ thisCpu) {cpus : Finset ℕ} (hb : busiest ∈ cpus) (hc : thisCpu ∈ cpus) :
    ∑ c ∈ cpus, m'.queued c = ∑ c ∈ cpus, m.queued c := by
  have hc' : thisCpu ∈ cpus.erase busiest := Finset.mem_erase.mpr ⟨hne.symm, hc⟩
  rw [← Finset.add_sum_erase _ _ hb, ← Finset.add_sum_erase _ m.queued hb,
    ← Finset.add_sum_erase _ _ hc', ← Finset.add_sum_erase _ m.queued hc',
    ← h.queued_busiest hm hne, h.queued_thisCpu hm hne]
  rw [Finset.sum_congr rfl fun c hmem => h.queued_rest hm
    (Finset.mem_erase.mp (Finset.mem_erase.mp hmem).2).1 (Finset.mem_erase.mp hmem).1]
  abel

/-- `load_balance` of `thisCpu` moves `moved`; these are none when there is nothing to even out. -/
structure Evens (thisCpu : ℕ) (idle : Bool) (busiest : ℕ) (moved : List TaskId) (m m' : Smp) :
    Prop where
  found : moved ≠ [] → (findBusiest m thisCpu idle).busiest = some busiest
  ne : busiest ≠ thisCpu
  pulled : Pulled busiest thisCpu moved m m'
  whenIdle : idle = true → moved.length ≤ 1
  whenBusy : idle = false → moved ≠ [] →
    2 * (moved.length : ℤ) ≤ (m.rqs busiest).nrRunning - (m.rqs thisCpu).nrRunning

theorem Evens.nothing (idle : Bool) (hm : m.Consistent) (hne : busiest ≠ thisCpu) :
    Evens thisCpu idle busiest [] m (m.remember thisCpu idle) where
  found h := absurd rfl h
  ne := hne
  pulled := .remember busiest thisCpu idle hm
  whenIdle _ := Nat.zero_le 1
  whenBusy _ h := absurd rfl h

theorem balances_evens (thisCpu : ℕ) (idle dropped : Bool) (hm : m.Consistent) :
    ∃ m' busiest moved, (∀ n, Balances thisCpu idle dropped m n ↔ n = m') ∧
      Evens thisCpu idle busiest moved m m' := by
  cases hb : (findBusiest m thisCpu idle).busiest with
  | none =>
    refine ⟨_, thisCpu + 1, [], fun n => ?_, .nothing idle hm (by omega)⟩
    rw [balances_iff hm, hb]
  | some busiest =>
    obtain ⟨hne, hone, hload⟩ := findBusiest_found hb
    by_cases himb : idle = false ∧
        m.imbalance thisCpu idle < ((findBusiest m thisCpu idle).maxLoad + 3).tdiv 4
    · refine ⟨_, busiest, [], fun n => ?_, .nothing idle hm hne⟩
      rw [balances_iff hm, hb]
      exact Iff.of_eq (if_pos himb)
    obtain ⟨m', moved, hm', hp, -, hidle, hbusy⟩ := pullTasks_pulled idle busiest
      thisCpu (doubleLockBalance thisCpu idle dropped (m.remember thisCpu idle)
        (m.ownLoad thisCpu idle)) (m.imbalance thisCpu idle)
      (Pulled.remember busiest thisCpu idle hm).consistent
    refine ⟨m', busiest, moved, fun n => ?_, fun _ => hb, hne,
      (Pulled.remember busiest thisCpu idle hm).trans hp hm, hidle, fun hi _ => ?_⟩
    · rw [balances_iff hm, hb]
      dsimp only
      rw [if_neg himb, hm']
      exact ⟨fun h => (Option.some.inj h).symm, fun h => congrArg some h.symm⟩
    · -- half of the difference at most is moved
      have hown : (m.rqs thisCpu).nrRunning ≤ m.ownLoad thisCpu idle := by
        unfold Smp.ownLoad
        split_ifs <;> simp_all
      have hle : ¬ m.imbalance thisCpu idle <
          ((findBusiest m thisCpu idle).maxLoad + 3).tdiv 4 := fun h => himb ⟨hi, h⟩
      have hlen := hbusy hi
      rw [Int.tdiv_eq_ediv_of_nonneg (by omega)] at hle
      have hpos : 0 ≤ (findBusiest m thisCpu idle).maxLoad - m.ownLoad thisCpu idle := by
        by_contra hneg
        have hi0 := Int.tdiv_nonneg (b := 2) (Int.neg_nonneg_of_nonpos (not_le.mp hneg).le)
          (by omega)
        rw [Int.neg_tdiv] at hi0
        unfold Smp.imbalance at hle
        omega
      unfold Smp.imbalance at hle hlen
      rw [Int.tdiv_eq_ediv_of_nonneg hpos] at hle hlen
      omega

end

/-- Load balancing ends, loses and duplicates no task, and moves only tasks that may be moved,
one at most when the CPU is idle and else not more than evens out the two runqueues. -/
theorem load_balance_conserves (m : Smp) (thisCpu : ℕ) (idle dropped : Bool)
    (hm : m.Separated) :
    ∃ m' busiest moved, (∀ n, Balances thisCpu idle dropped m n ↔ n = m') ∧ m'.Separated ∧
      (moved ≠ [] → (findBusiest m thisCpu idle).busiest = some busiest) ∧ busiest ≠ thisCpu ∧
      (∀ p ∈ moved, canMigrate m busiest thisCpu p ∧ ∃ a i, p ∈ (m.view busiest).queue a i ∧
        (a = (m.rqs busiest).active ∨ a = (m.rqs busiest).expired)) ∧
      m'.queued busiest + (moved : Multiset TaskId) = m.queued busiest ∧
      m'.queued thisCpu = m.queued thisCpu + (moved : Multiset TaskId) ∧
      (∀ c, c ≠ busiest → c ≠ thisCpu → m'.queued c = m.queued c) ∧
      (∀ cpus : Finset ℕ, busiest ∈ cpus → thisCpu ∈ cpus →
        ∑ c ∈ cpus, m'.queued c = ∑ c ∈ cpus, m.queued c) ∧
      (m'.rqs busiest).nrRunning = (m.rqs busiest).nrRunning - moved.length ∧
      (m'.rqs thisCpu).nrRunning = (m.rqs thisCpu).nrRunning + moved.length ∧
      (∀ c, c ≠ busiest → c ≠ thisCpu → (m'.rqs c).nrRunning = (m.rqs c).nrRunning) ∧
      (idle = true → moved.length ≤ 1) ∧
      (idle = false → moved ≠ [] → (m'.rqs thisCpu).nrRunning ≤ (m'.rqs busiest).nrRunning) := by
  obtain ⟨m', busiest, moved, hm', hfound, hne, hp, hidle, hbusy⟩ :=
    balances_evens thisCpu idle dropped hm.consistent
  have hb := hp.queued_busiest hm.consistent hne
  have ht := hp.queued_thisCpu hm.consistent hne
  have hr := fun c => hp.queued_rest (c := c) hm.consistent
  have hnb : (m'.rqs busiest).nrRunning = (m.rqs busiest).nrRunning - moved.length := by
    rw [card_queued hp.consistent, card_queued hm.consistent, ← hb, Multiset.card_add,
      Multiset.coe_card]
    push_cast
    ring
  have hnt : (m'.rqs thisCpu).nrRunning = (m.rqs thisCpu).nrRunning + moved.length := by
    rw [card_queued hp.consistent, card_queued hm.consistent, ht, Multiset.card_add,
      Multiset.coe_card]
    push_cast
    ring
  refine ⟨m', busiest, moved, hm', hp.separated hm, hfound, hne, hp.source, hb, ht, hr,
    fun cpus => hp.queued_sum hm.consistent hne, hnb, hnt, fun c hcb hct => ?_, hidle,
    fun hi hmoved => ?_⟩
  · rw [card_queued hp.consistent, card_queued hm.consistent, hr c hcb hct]
  · have hlen := hbusy hi hmoved
    omega

theorem load_balance_conserves_busyCpu : ∃ k ∈ runFromBoot 512 busyCpu,
    ∃ (m' : Smp) (busiest : ℕ) (moved : List TaskId), Balances 1 true false (k.smp 2) m' ∧
      (m'.tasks 2).cpu = 1 ∧ m'.Separated ∧
      m'.queued busiest + (moved : Multiset TaskId) = (k.smp 2).queued busiest ∧
      m'.queued 1 = (k.smp 2).queued 1 + (moved : Multiset TaskId) ∧ moved.length ≤ 1 := by
  obtain ⟨k, hk, n, hn, hcpu⟩ : ∃ k ∈ runFromBoot 512 busyCpu,
      ∃ n ∈ loadBalance 1 true (k.smp 2), (n.tasks 2).cpu = 1 := by
    decide +kernel
  have hsep := (runFromBoot_sound (C := fun _ _ => True) (by decide +kernel) hk).smp 2
  obtain ⟨m', busiest, moved, hm', hs, -, -, -, hb, ht, -, -, -, -, -, hidle, -⟩ :=
    load_balance_conserves (k.smp 2) 1 true false hsep
  obtain rfl : n = m' := (hm' n).mp ((balances_iff_loadBalance hsep.consistent).mpr hn)
  exact ⟨k, hk, n, busiest, moved, (hm' n).mpr rfl, hcpu, hs, hb, ht, hidle rfl⟩

end ShortSched
