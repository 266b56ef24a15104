import Mathlib.Computability.StateTransition
import ShortSched.Lib.Fifo
import ShortSched.Balance

/-! The loop of `load_balance` as the source has it, goto by goto, and what it computes. -/
namespace ShortSched
open Buckets Fifo StateTransition

/-- The labels of `load_balance`. -/
inductive BalanceLabel
  | newArray | skipBitmap | skipQueue | outUnlock
deriving DecidableEq

/-- Where the loop is, and the variables that it changes. `curr` is `none` at the list head. -/
structure BalanceLoop where
  label : BalanceLabel
  array : ArrayIdx
  idx : ℤ
  curr : Option TaskId
  imbalance : ℤ
  smp : Smp

/-- `find_next_bit` up to `MAX_PRIO`. -/
def findNextBit (bitmap : ℤ → Bool) (offset : ℤ) : ℤ :=
  nextMark bitmap offset (maxPrio - offset).toNat

/-- The queue that `skip_bitmap` finds. -/
def BalanceLoop.nextIdx (busiest : ℕ) (s : BalanceLoop) : ℤ :=
  let bitmap := ((s.smp.rqs busiest).arrays s.array).bitmap
  if s.idx = 0 then schedFindFirstBit bitmap else findNextBit bitmap s.idx

/-- `curr != head` or not: the next entry of the queue, or the next queue. -/
def BalanceLoop.nextEntry (curr : Option TaskId) (s : BalanceLoop) : BalanceLoop :=
  if curr = none then { s with label := .skipBitmap, idx := s.idx + 1, curr }
  else { s with label := .skipQueue, curr }

/-- From one label to the next; `none` at the end, and where `list_entry` yields no task. -/
def BalanceLoop.step (idle : Bool) (busiest thisCpu : ℕ) (s : BalanceLoop) : Option BalanceLoop :=
  match s.label with
  | .newArray => some { s with label := .skipBitmap, idx := 0 }
  | .skipBitmap =>
      let idx := s.nextIdx busiest
      if idx = maxPrio then
        if s.array = (s.smp.rqs busiest).expired then
          some { s with label := .newArray, array := (s.smp.rqs busiest).active, idx }
        else some { s with label := .outUnlock, idx }
      else
        let curr := ((s.smp.view busiest).queue s.array idx).getLast?
        some { s with label := .skipQueue, idx, curr }
  | .skipQueue => do
      let tmp ← s.curr
      let curr := inFront tmp ((s.smp.view busiest).queue s.array s.idx)
      if canMigrate s.smp busiest thisCpu tmp then
        let smp ← pullTask busiest thisCpu s.array tmp s.smp
        if idle = true then return { s with label := .outUnlock, curr, smp }
        else
          let s : BalanceLoop := { s with imbalance := s.imbalance - 1, smp }
          if s.imbalance ≠ 0 then return s.nextEntry curr
          else return { s with label := .outUnlock, curr }
      else return s.nextEntry curr
  | .outUnlock => none

/-- The expired tasks are considered first. -/
def BalanceLoop.start (busiest : ℕ) (imbalance : ℤ) (m : Smp) : BalanceLoop where
  label := .newArray
  array := if ((m.rqs busiest).arrays (m.rqs busiest).expired).nrActive ≠ 0 then
    (m.rqs busiest).expired else (m.rqs busiest).active
  idx := 0
  curr := none
  imbalance
  smp := m

/-- `double_lock_balance`: `nr_running` is recalculated when the lock of this runqueue had to be
dropped. -/
def doubleLockBalance (thisCpu : ℕ) (idle dropped : Bool) (m : Smp) (nrRunning : ℤ) : ℤ :=
  if dropped then m.ownLoad thisCpu idle else nrRunning

/-- `load_balance`, run on `m`, comes to its end and leaves `m'`. -/
def Balances (thisCpu : ℕ) (idle dropped : Bool) (m m' : Smp) : Prop :=
  match (findBusiest m thisCpu idle).busiest with
  | none => m' = m.remember thisCpu idle
  | some busiest =>
      if idle = false ∧
          m.imbalance thisCpu idle < ((findBusiest m thisCpu idle).maxLoad + 3).tdiv 4 then
        m' = m.remember thisCpu idle
      else if ((m.remember thisCpu idle).rqs busiest).nrRunning ≤ doubleLockBalance thisCpu idle
          dropped (m.remember thisCpu idle) (m.ownLoad thisCpu idle) + 1 then
        m' = m.remember thisCpu idle
      else ∃ s ∈ eval (BalanceLoop.step idle busiest thisCpu)
          (.start busiest (m.imbalance thisCpu idle) (m.remember thisCpu idle)),
        s.label = .outUnlock ∧ s.smp = m'

section
variable {m m' : Smp} {busiest thisCpu : ℕ} {idle dropped : Bool} {imbalance : ℤ} {r : Pull}

/-! The search for the busiest runqueue. -/

theorem searchCpu_busiest (m : Smp) (thisCpu : ℕ) (idle : Bool) (s : Search) (logical : ℕ) :
    (∃ load : ℤ, s.maxLoad < load ∧ load ≤ (m.rqs logical).nrRunning ∧
      (idle = true → load = (m.rqs logical).nrRunning) ∧ logical ≠ thisCpu ∧
      (searchCpu m thisCpu idle s logical).busiest = some logical ∧
      (searchCpu m thisCpu idle s logical).maxLoad = load) ∨
    ((idle = true → logical ≠ thisCpu → (m.rqs logical).nrRunning ≤ s.maxLoad) ∧
      (searchCpu m thisCpu idle s logical).busiest = s.busiest ∧
      (searchCpu m thisCpu idle s logical).maxLoad = s.maxLoad) := by
  simp only [searchCpu]
  generalize hload : (if idle = true ∨ (m.rqs logical).nrRunning < s.prevNrRunning logical then
    (m.rqs logical).nrRunning else s.prevNrRunning logical) = load
  have hle : load ≤ (m.rqs logical).nrRunning := by
    rw [← hload]
    split_ifs with h
    · exact le_rfl
    · omega
  have hidle : idle = true → load = (m.rqs logical).nrRunning := by
    intro hi
    rw [← hload, if_pos (Or.inl hi)]
  by_cases h : load > s.maxLoad ∧ logical ≠ thisCpu
  · refine Or.inl ⟨load, h.1, hle, hidle, h.2, ?_, ?_⟩ <;> rw [if_pos h]
  · refine Or.inr ⟨fun hi hne => ?_, ?_, ?_⟩
    · rw [← hidle hi]
      exact not_lt.mp fun hlt => h ⟨hlt, hne⟩
    all_goals rw [if_neg h]

/-- What is known of the runqueue that the search settles on. -/
structure Found (m : Smp) (thisCpu : ℕ) (s : Search) (busiest : ℕ) : Prop where
  ne : busiest ≠ thisCpu
  one_lt : 1 < s.maxLoad
  maxLoad_le : s.maxLoad ≤ (m.rqs busiest).nrRunning

theorem found_foldl (s : Search) (h : ∀ b, s.busiest = some b → Found m thisCpu s b)
    (h1 : 1 ≤ s.maxLoad) (l : List ℕ) :
    ∀ b, (l.foldl (searchCpu m thisCpu idle) s).busiest = some b →
      Found m thisCpu (l.foldl (searchCpu m thisCpu idle) s) b := by
  induction l generalizing s with
  | nil => exact h
  | cons c l ih =>
    have hc := searchCpu_busiest m thisCpu idle s c
    refine ih _ (fun b hb => ?_) ?_
    all_goals obtain ⟨load, hlt, hle, -, hne, hs, hm⟩ | ⟨-, hs, hm⟩ := hc
    · cases hs.symm.trans hb
      exact ⟨hne, by omega, by omega⟩
    · have hf := h b (hs.symm.trans hb)
      exact ⟨hf.ne, hm ▸ hf.one_lt, hm ▸ hf.maxLoad_le⟩
    · omega
    · omega

theorem findBusiest_found (h : (findBusiest m thisCpu idle).busiest = some busiest) :
    Found m thisCpu (findBusiest m thisCpu idle) busiest :=
  found_foldl _ (fun _ hb => absurd hb (by simp)) le_rfl _ _ h

/-! What the loop does to one queue, to one array, and as a whole. -/

/-- The loop is through with the queues before `idx`, with the outcome `r`. -/
def BalanceLoop.Through (a : ArrayIdx) (idx : ℤ) (r : Pull) (s : BalanceLoop) : Prop :=
  s.smp = r.smp ∧ if r.finished then s.label = .outUnlock
    else s.label = .skipBitmap ∧ s.array = a ∧ s.idx = idx ∧ s.imbalance = r.imbalance

/-- The step at `skip_queue`, the entry before `p` being `before`. -/
theorem step_nextEntry {s : BalanceLoop} {p : TaskId} {before : Option TaskId} (idle : Bool)
    (thisCpu : ℕ) (hfront : inFront p ((s.smp.view busiest).queue s.array s.idx) = before) :
    BalanceLoop.step idle busiest thisCpu (s.nextEntry (some p)) =
      if canMigrate s.smp busiest thisCpu p then
        (pullTask busiest thisCpu s.array p s.smp).bind fun smp =>
          if idle = true then some { s with label := .outUnlock, curr := before, smp }
          else if s.imbalance - 1 ≠ 0 then
            some (BalanceLoop.nextEntry before { s with imbalance := s.imbalance - 1, smp })
          else some { s with
            label := .outUnlock, imbalance := s.imbalance - 1, curr := before, smp }
      else some (s.nextEntry before) := by
  simp only [BalanceLoop.nextEntry, BalanceLoop.step, reduceCtorEq, if_false, hfront,
    Option.bind_eq_bind, Option.bind_some, Option.pure_def]

/-- The step at `skip_bitmap` that finds a queue at `i`. -/
theorem step_skipBitmap {s : BalanceLoop} {i : ℤ} (idle : Bool) (thisCpu : ℕ)
    (hlabel : s.label = .skipBitmap) (hidx : s.nextIdx busiest = i) (hi : i ≠ maxPrio)
    (he : (s.smp.view busiest).queue s.array i ≠ []) :
    BalanceLoop.step idle busiest thisCpu s = some (BalanceLoop.nextEntry
      ((s.smp.view busiest).queue s.array i).reverse.head? { s with idx := i }) := by
  have hlast : ((s.smp.view busiest).queue s.array i).getLast? ≠ none := by
    simpa using he
  simp only [BalanceLoop.step, hlabel, hidx, if_neg hi, List.head?_reverse,
    BalanceLoop.nextEntry, if_neg hlast]

/-- Where the search for the next queue starts, `n` queues being left. -/
theorem nextIdx_left {s : BalanceLoop} {n : ℕ} (busiest : ℕ) (hn : n < 140)
    (hidx : s.idx = 140 - n) :
    s.nextIdx busiest =
      nextMark ((s.smp.rqs busiest).arrays s.array).bitmap (140 - n) n := by
  have h0 : s.idx ≠ 0 := by omega
  have hlen : (maxPrio - s.idx).toNat = n := by
    change (140 - s.idx).toNat = n
    omega
  simp only [BalanceLoop.nextIdx, if_neg h0, findNextBit, hlen]
  rw [hidx]

/-- From an entry of a queue on: `ps` is what is left of the queue. -/
theorem nextEntry_reaches (hne : busiest ≠ thisCpu) (ps : List TaskId) :
    ∀ (s : BalanceLoop) (back : List TaskId), s.smp.Consistent →
      s.array = (s.smp.rqs busiest).active ∨ s.array = (s.smp.rqs busiest).expired →
      (s.smp.view busiest).queue s.array s.idx = ps.reverse ++ back →
      pullQueue idle busiest thisCpu s.array ps s.imbalance s.smp = some r →
      ∃ s', Reaches (BalanceLoop.step idle busiest thisCpu) (s.nextEntry ps.head?) s' ∧
        s'.Through s.array (s.idx + 1) r := by
  induction ps with
  | nil =>
    intro s back _ _ _ hr
    cases Option.some.inj hr
    exact ⟨_, .refl, rfl, rfl, rfl, rfl, rfl⟩
  | cons p ps ih =>
    intro s back hm ha hq hr
    rw [List.reverse_cons, List.append_assoc, List.singleton_append] at hq
    have hmem : p ∈ (s.smp.view busiest).queue s.array s.idx := by
      rw [hq]
      simp
    have hnodup := (hm.shape busiest).located.nodup ⟨(s.smp.rqs busiest).cpu, s.array, s.idx⟩ rfl
    have hp : p ∉ ps.reverse := by
      intro hp
      rw [show (s.smp.view busiest).queue _ _ = _ from hq, List.nodup_append] at hnodup
      exact hnodup.2.2 p hp p List.mem_cons_self rfl
    have hfront : inFront p ((s.smp.view busiest).queue s.array s.idx) = ps.head? := by
      rw [hq, inFront_append hp, List.getLast?_reverse]
    have hstep := step_nextEntry idle thisCpu hfront
    rw [List.head?_cons]
    simp only [pullQueue] at hr
    by_cases hc : canMigrate s.smp busiest thisCpu p
    · obtain ⟨m1, h1, hp1, herase⟩ := pullTask_pulled hm hmem ha hc
      have hq1 : (m1.view busiest).queue s.array s.idx = ps.reverse ++ back := by
        rw [herase hne, hq, List.erase_append_right _ hp, List.erase_cons_head]
      simp only [if_pos hc, h1, Option.bind_eq_bind, Option.bind_some, Option.pure_def] at hstep hr
      have ha1 : s.array = (m1.rqs busiest).active ∨ s.array = (m1.rqs busiest).expired := by
        rwa [hp1.active_eq, hp1.expired_eq]
      split_ifs at hr with hgo
      · rw [if_neg (by simp [hgo.1]), if_pos hgo.2] at hstep
        obtain ⟨s', hs', ht⟩ := ih { s with imbalance := s.imbalance - 1, smp := m1 } back
          hp1.consistent ha1 hq1 hr
        exact ⟨s', hs'.head hstep, ht⟩
      · cases Option.some.inj hr
        refine ⟨_, .single (b := { s with
          label := .outUnlock, curr := ps.head?, smp := m1,
          imbalance := if idle = true then s.imbalance else s.imbalance - 1 }) ?_, rfl, ?_⟩
        · rw [Option.mem_def, hstep]
          split_ifs with hi hne'
          · rfl
          · exact absurd ⟨Bool.not_eq_true _ ▸ hi, hne'⟩ hgo
          · rfl
        · rw [if_pos rfl]
    · rw [if_neg hc] at hstep hr
      obtain ⟨s', hs', ht⟩ := ih s (p :: back) hm ha hq hr
      exact ⟨s', hs'.head hstep, ht⟩

/-- The last `n` queues of an array, from where the loop looks for the next one. -/
theorem skipBitmap_reaches (hne : busiest ≠ thisCpu) {n : ℕ} (hn : n ≤ 140) :
    ∀ s : BalanceLoop, s.smp.Consistent →
      s.array = (s.smp.rqs busiest).active ∨ s.array = (s.smp.rqs busiest).expired →
      s.label = .skipBitmap →
      s.nextIdx busiest = nextMark ((s.smp.rqs busiest).arrays s.array).bitmap (140 - n) n →
      pullArray idle busiest thisCpu s.array n s.imbalance s.smp = some r →
      ∃ s', Reaches (BalanceLoop.step idle busiest thisCpu) s s' ∧ s'.smp = r.smp ∧
        if r.finished then s'.label = .outUnlock
        else s'.label = .skipBitmap ∧ s'.array = s.array ∧ s'.nextIdx busiest = 140 ∧
          s'.imbalance = r.imbalance := by
  induction n with
  | zero =>
    intro s _ _ hlabel hidx hr
    cases Option.some.inj hr
    exact ⟨s, .refl, rfl, hlabel, rfl, hidx, rfl⟩
  | succ n ih =>
    intro s hm ha hlabel hidx hr
    have hcast : (140 - (n + 1 : ℕ) : ℤ) = 139 - n := by push_cast; ring
    have hnext : (139 - n + 1 : ℤ) = 140 - n := by ring
    rw [hcast] at hidx
    simp only [nextMark, hnext] at hidx
    by_cases hb : ((s.smp.rqs busiest).arrays s.array).bitmap (139 - n) = true
    · have he : (s.smp.view busiest).queue s.array (139 - n) ≠ [] :=
        (((hm.shape busiest).arrays s.array).marked _ (by simp; omega)).mp hb
      have hnodup := (hm.shape busiest).located.nodup
        ⟨(s.smp.rqs busiest).cpu, s.array, 139 - n⟩ rfl
      obtain ⟨r1, moved, hr1, hp, -⟩ := pullQueue_pulled idle thisCpu
        (List.nodup_reverse.mpr hnodup) s.imbalance hm
        (fun p hp => hm.mem_iff.mp (List.mem_reverse.mp hp)) ha
      replace hr1 : pullQueue idle busiest thisCpu s.array
        ((s.smp.view busiest).queue s.array (139 - n)).reverse s.imbalance s.smp = some r1 := hr1
      simp only [pullArray, if_pos hb, if_neg he, hr1, Option.bind_eq_bind, Option.bind_some,
        Option.pure_def] at hr
      rw [if_pos hb] at hidx
      have hlt : (139 - n : ℤ) ≠ maxPrio := by
        change (139 - n : ℤ) ≠ 140
        omega
      have hstep := step_skipBitmap idle thisCpu hlabel hidx hlt he
      obtain ⟨s1, hs1, hsmp, hthrough⟩ := nextEntry_reaches hne _ { s with idx := 139 - n } [] hm ha
        (by simp) hr1
      by_cases hf : r1.finished = true
      · rw [if_pos hf] at hr hthrough
        cases Option.some.inj hr
        exact ⟨s1, .head hstep hs1, hsmp, by rwa [if_pos hf]⟩
      · rw [if_neg hf] at hr hthrough
        obtain ⟨hlabel1, harray1, hidx1, himb1⟩ := hthrough
        change s1.array = s.array at harray1
        change s1.idx = 139 - n + 1 at hidx1
        rw [← hsmp, ← himb1, ← harray1] at hr
        have hidx' := nextIdx_left busiest (by omega) (hidx1.trans hnext)
        rw [← hsmp] at hp
        have ha1 : s1.array = (s1.smp.rqs busiest).active ∨
            s1.array = (s1.smp.rqs busiest).expired := by
          rwa [harray1, hp.active_eq, hp.expired_eq]
        obtain ⟨s', hs', h'⟩ := ih (by omega) s1 hp.consistent ha1 hlabel1 hidx' hr
        rw [harray1] at h'
        exact ⟨s', .head hstep (hs1.trans hs'), h'⟩
    · simp only [pullArray, if_neg hb] at hr
      rw [if_neg hb] at hidx
      exact ih (by omega) s hm ha hlabel hidx hr

/-- A whole array, from `new_array` on. -/
theorem newArray_reaches (hne : busiest ≠ thisCpu) (s : BalanceLoop) (hm : s.smp.Consistent)
    (ha : s.array = (s.smp.rqs busiest).active ∨ s.array = (s.smp.rqs busiest).expired)
    (hlabel : s.label = .newArray)
    (hr : pullArray idle busiest thisCpu s.array 140 s.imbalance s.smp = some r) :
    ∃ s', Reaches (BalanceLoop.step idle busiest thisCpu) s s' ∧ s'.smp = r.smp ∧
      if r.finished ∨ s.array ≠ (r.smp.rqs busiest).expired then s'.label = .outUnlock
      else s'.label = .newArray ∧ s'.array = (r.smp.rqs busiest).active ∧
        s'.imbalance = r.imbalance := by
  have hstep : BalanceLoop.step idle busiest thisCpu s =
      some { s with label := .skipBitmap, idx := 0 } := by
    simp only [BalanceLoop.step, hlabel]
  obtain ⟨s1, hs1, hsmp, h1⟩ := skipBitmap_reaches hne le_rfl
    { s with label := .skipBitmap, idx := 0 } hm ha rfl rfl hr
  replace hs1 : Reaches (BalanceLoop.step idle busiest thisCpu) s s1 := .head hstep hs1
  by_cases hf : r.finished = true
  · rw [if_pos hf] at h1
    exact ⟨s1, hs1, hsmp, by rwa [if_pos (Or.inl hf)]⟩
  · rw [if_neg hf] at h1
    obtain ⟨hlabel1, harray1, hidx1, himb1⟩ := h1
    change s1.array = s.array at harray1
    -- no queue is left in this array
    by_cases hexp : s.array = (r.smp.rqs busiest).expired
    · refine ⟨{ s1 with label := .newArray, array := (s1.smp.rqs busiest).active, idx := 140 },
        hs1.tail ?_, hsmp, ?_⟩
      · rw [← hsmp, ← harray1] at hexp
        simp only [Option.mem_def, BalanceLoop.step, hlabel1, hidx1]
        rw [if_pos (show (140 : ℤ) = maxPrio from rfl), if_pos hexp]
      · rw [if_neg (by simp [hf, hexp]), ← hsmp]
        exact ⟨rfl, rfl, himb1⟩
    · refine ⟨{ s1 with label := .outUnlock, idx := 140 }, hs1.tail ?_, hsmp, ?_⟩
      · rw [← hsmp, ← harray1] at hexp
        simp only [Option.mem_def, BalanceLoop.step, hlabel1, hidx1]
        rw [if_pos (show (140 : ℤ) = maxPrio from rfl), if_neg hexp]
      · rw [if_pos (Or.inr hexp)]

/-- The loop ends, and in the state that the search by arrays and queues computes. -/
theorem start_reaches (hne : busiest ≠ thisCpu) (hm : m.Consistent) {nrRunning : ℤ}
    (hnr : ¬ (m.rqs busiest).nrRunning ≤ nrRunning + 1)
    (h : pullTasks idle busiest thisCpu nrRunning imbalance m = some m') :
    ∃ s', Reaches (BalanceLoop.step idle busiest thisCpu) (.start busiest imbalance m) s' ∧
      s'.label = .outUnlock ∧ s'.smp = m' := by
  rw [pullTasks, if_neg hnr] at h
  -- the active array is the last one
  have hactive : ∀ (s : BalanceLoop) (r : Pull), s.smp.Consistent → s.label = .newArray →
      s.array = (s.smp.rqs busiest).active →
      pullArray idle busiest thisCpu s.array 140 s.imbalance s.smp = some r →
      ∃ s', Reaches (BalanceLoop.step idle busiest thisCpu) s s' ∧
        s'.label = .outUnlock ∧ s'.smp = r.smp := by
    intro s r hs hlabel harr hr
    obtain ⟨r', moved, hr', hp, -⟩ := pullArray_pulled (a := s.array) idle busiest thisCpu le_rfl
      s.imbalance hs (Or.inl harr)
    cases Option.some.inj (hr.symm.trans hr')
    obtain ⟨s', hs', hsmp, h'⟩ := newArray_reaches hne s hs (Or.inl harr) hlabel hr
    have hd : s.array ≠ (r.smp.rqs busiest).expired := by
      rw [harr, hp.expired_eq]
      exact (Ptrs.Distinct.ne (hs.distinct busiest)).1
    rw [if_pos (Or.inr hd)] at h'
    exact ⟨s', hs', h', hsmp⟩
  by_cases hexp : ((m.rqs busiest).arrays (m.rqs busiest).expired).nrActive ≠ 0
  · simp only [if_pos hexp, Option.bind_eq_bind, Option.pure_def] at h
    obtain ⟨r, moved, hr, hp, -⟩ :=
      pullArray_pulled (a := (m.rqs busiest).expired) idle busiest thisCpu
      le_rfl imbalance hm (Or.inr rfl)
    rw [hr, Option.bind_some] at h
    have hstart : (BalanceLoop.start busiest imbalance m).array = (m.rqs busiest).expired :=
      if_pos hexp
    obtain ⟨s1, hs1, hsmp, h1⟩ := newArray_reaches hne (.start busiest imbalance m) hm
      (Or.inr hstart) rfl (by rw [hstart]; exact hr)
    by_cases hf : r.finished = true
    · rw [if_pos hf] at h
      rw [if_pos (Or.inl hf)] at h1
      exact ⟨s1, hs1, h1, hsmp.trans (Option.some.inj h)⟩
    · have hlast : ¬ (r.finished = true ∨ (BalanceLoop.start busiest imbalance m).array ≠
          (r.smp.rqs busiest).expired) := by
        rw [hstart, hp.expired_eq]
        simpa using hf
      rw [if_neg hf] at h
      rw [if_neg hlast] at h1
      obtain ⟨hlabel1, harray1, himb1⟩ := h1
      rw [← hsmp] at hp harray1
      obtain ⟨r', hr', hm'⟩ := Option.bind_eq_some_iff.mp h
      rw [← hsmp, ← himb1, ← harray1] at hr'
      obtain ⟨s', hs', hlabel', hsmp'⟩ := hactive s1 r' hp.consistent hlabel1 harray1 hr'
      exact ⟨s', hs1.trans hs', hlabel', hsmp'.trans (Option.some.inj hm')⟩
  · simp only [if_neg hexp, Option.bind_eq_bind, Option.pure_def] at h
    obtain ⟨r, hr, hm'⟩ := Option.bind_eq_some_iff.mp h
    have hstart : (BalanceLoop.start busiest imbalance m).array = (m.rqs busiest).active :=
      if_neg hexp
    obtain ⟨s', hs', hlabel', hsmp'⟩ := hactive (.start busiest imbalance m) r hm rfl hstart
      (by rw [hstart]; exact hr)
    exact ⟨s', hs', hlabel', hsmp'.trans (Option.some.inj hm')⟩

/-- Either nothing happens, or the gotos do what the search by arrays and queues does. -/
theorem balances_iff (hm : m.Consistent) : Balances thisCpu idle dropped m m' ↔
    match (findBusiest m thisCpu idle).busiest with
    | none => m' = m.remember thisCpu idle
    | some busiest =>
        if idle = false ∧
            m.imbalance thisCpu idle < ((findBusiest m thisCpu idle).maxLoad + 3).tdiv 4 then
          m' = m.remember thisCpu idle
        else pullTasks idle busiest thisCpu (doubleLockBalance thisCpu idle dropped
          (m.remember thisCpu idle) (m.ownLoad thisCpu idle)) (m.imbalance thisCpu idle)
          (m.remember thisCpu idle) = some m' := by
  have hrem : (m.remember thisCpu idle).Consistent := (Pulled.remember 0 thisCpu idle hm).consistent
  unfold Balances
  cases hb : (findBusiest m thisCpu idle).busiest with
  | none => rfl
  | some busiest =>
    have hne := (findBusiest_found hb).ne
    dsimp only
    split_ifs with himb hnr
    · rfl
    · rw [pullTasks, if_pos hnr]
      exact ⟨fun h => congrArg some h.symm, fun h => (Option.some.inj h).symm⟩
    · obtain ⟨m1, moved, h1, -⟩ := pullTasks_pulled idle busiest thisCpu
        (doubleLockBalance thisCpu idle dropped (m.remember thisCpu idle) (m.ownLoad thisCpu idle))
        (m.imbalance thisCpu idle) hrem
      obtain ⟨s1, hs1, hlabel1, hsmp1⟩ := start_reaches hne hrem hnr h1
      have heval : s1 ∈ eval (BalanceLoop.step idle busiest thisCpu)
          (.start busiest (m.imbalance thisCpu idle) (m.remember thisCpu idle)) :=
        mem_eval.mpr ⟨hs1, by simp only [BalanceLoop.step, hlabel1]⟩
      constructor
      · rintro ⟨s, hs, -, rfl⟩
        rw [Part.mem_unique hs heval, hsmp1]
        exact h1
      · intro h
        rw [h1] at h
        exact ⟨s1, heval, hlabel1, hsmp1.trans (Option.some.inj h)⟩

/-- With the lock of the busiest runqueue free, this is `loadBalance`. -/
theorem balances_iff_loadBalance (hm : m.Consistent) :
    Balances thisCpu idle false m m' ↔ loadBalance thisCpu idle m = some m' := by
  rw [balances_iff hm, loadBalance_eq]
  cases (findBusiest m thisCpu idle).busiest with
  | none => exact ⟨fun h => congrArg some h.symm, fun h => (Option.some.inj h).symm⟩
  | some busiest =>
    dsimp only
    split_ifs
    · exact ⟨fun h => congrArg some h.symm, fun h => (Option.some.inj h).symm⟩
    · rfl

end

end ShortSched
