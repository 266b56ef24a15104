import ShortSched.Census
import ShortSched.Lib.Rotation

/-! `get_pid`: the search for a free pid, and `next_safe`, which spares most of the searches. -/
namespace ShortSched
open Cells Rotation

/-- `PID_MAX`. -/
abbrev pidMax : ℤ := 32768

/-- The first pid after a wrap-around: "Skip daemons etc." -/
abbrev firstPid : ℤ := 300

/-- `last_pid & 0xffff8000`. -/
def pidOverflow (lastPid : ℤ) : Bool := u32 lastPid &&& 0xffff8000 ≠ 0

/-- A pid that a task holds cannot be given away, whatever it uses it for. -/
def Entry.holds (e : Entry) (v : ℤ) : Bool :=
  e.pid = v || e.pgrp = v || e.tgid = v || e.session = v

/-- `if(v > last_pid && next_safe > v) next_safe = v`. -/
def lowerSafe (lastPid v nextSafe : ℤ) : ℤ :=
  if v > lastPid ∧ nextSafe > v then v else nextSafe

/-- The four comparisons for one task. -/
def Entry.lowerSafe (e : Entry) (lastPid nextSafe : ℤ) : ℤ :=
  let nextSafe := ShortSched.lowerSafe lastPid e.pid nextSafe
  let nextSafe := ShortSched.lowerSafe lastPid e.pgrp nextSafe
  let nextSafe := ShortSched.lowerSafe lastPid e.tgid nextSafe
  ShortSched.lowerSafe lastPid e.session nextSafe

/-- The `for_each_task` loop of `get_pid`; it is left with `false` at a task that holds
`last_pid`. -/
def scanTasks (lastPid : ℤ) : ℤ → List Entry → Bool × ℤ
  | nextSafe, [] => (true, nextSafe)
  | nextSafe, e :: es =>
    if e.holds lastPid then (false, nextSafe)
    else scanTasks lastPid (e.lowerSafe lastPid nextSafe) es

/-- From `repeat` on: the pid, `last_pid` and `next_safe`. -/
def pidSearch (es : List Entry) (beginpid : ℤ) : ℕ → ℤ → ℤ → Option (ℤ × ℤ × ℤ)
  | 0, _, _ => none
  | n + 1, lastPid, nextSafe =>
    match scanTasks lastPid nextSafe es with
    | (true, nextSafe) => some (lastPid, lastPid, nextSafe)
    | (false, nextSafe) =>
      let lastPid := lastPid + 1
      let next := if lastPid ≥ nextSafe
        then (if pidOverflow lastPid then firstPid else lastPid, pidMax)
        else (lastPid, nextSafe)
      if next.1 = beginpid then some (0, next)
      else pidSearch es beginpid n next.1 next.2

/-- `get_pid`; `n` bounds its loops. -/
def Table.getPid (n : ℕ) (clonePid : Bool) (t : Table) : Option (ℤ × Table) :=
  if clonePid then some ((t.tasks t.current).pid, t)
  else
    let beginpid := t.lastPid
    let inside (lastPid : ℤ) : Option (ℤ × Table) := do
      let ps ← t.forEachTask n
      let (pid, lastPid, nextSafe) ← pidSearch (ps.map t.tasks) beginpid n lastPid pidMax
      some (pid, { t with lastPid, nextSafe })
    if pidOverflow (beginpid + 1) then inside firstPid
    else if beginpid + 1 ≥ t.nextSafe then inside (beginpid + 1)
    else some (beginpid + 1, { t with lastPid := beginpid + 1 })

/-- A number that one of the tasks holds. -/
def Table.Held (t : Table) (ps : List TaskId) (v : ℤ) : Prop := ∃ p ∈ ps, (t.tasks p).holds v

/-- What `next_safe` promises: nobody holds a pid between `last_pid` and it. -/
structure PidCache (t : Table) (ps : List TaskId) : Prop where
  lastPid : 0 ≤ t.lastPid ∧ t.lastPid < pidMax
  nextSafe : t.nextSafe ≤ pidMax
  safe : ∀ v, t.Held ps v → t.lastPid < v → t.nextSafe ≤ v

section
variable {t : Table} {c : Census} {es : List Entry} {ps : List TaskId} {n : ℕ} {a b v s : ℤ}
  {taken : ℤ → Prop}

theorem pidOverflow_iff (h : 0 ≤ v) (h' : v ≤ 32768) : pidOverflow v = true ↔ pidMax ≤ v := by
  have hu : u32 v = v.toNat := by
    unfold u32
    rw [Int.emod_eq_of_lt h (by omega)]
  have hmask : v.toNat < 32768 → v.toNat &&& 0xffff8000 = 0 := by
    intro hlt
    apply Nat.eq_of_testBit_eq
    intro i
    rw [Nat.testBit_and, Nat.zero_testBit, Bool.and_eq_false_iff]
    rcases Nat.lt_or_ge i 15 with hi | hi
    · right
      interval_cases i <;> rfl
    · left
      apply Nat.testBit_lt_two_pow
      exact lt_of_lt_of_le hlt (Nat.pow_le_pow_right (n := 2) (by omega) hi)
  simp only [pidOverflow, hu, ne_eq, decide_eq_true_eq]
  constructor
  · intro hne
    by_contra hlt
    exact hne (hmask (by simp only [pidMax] at hlt; omega))
  · intro hle
    rw [show v.toNat = 32768 by simp only [pidMax] at hle; omega]
    decide

/-- `last_pid` goes to the next pid, from the end back to `firstPid`. -/
theorem advance_lastPid (h : 0 ≤ v) (h' : v < pidMax) :
    (if pidOverflow (v + 1) then firstPid else v + 1) = advance firstPid pidMax v := by
  have hiff := pidOverflow_iff (v := v + 1) (by omega) (by simp only [pidMax] at h'; omega)
  unfold advance
  by_cases ho : pidMax ≤ v + 1
  · rw [if_pos (hiff.mpr ho), if_neg (by omega)]
  · rw [if_neg (fun h => ho (hiff.mp h)), if_pos (by omega)]

theorem lowerSafe_le : lowerSafe a v s ≤ s ∧ (a < v → lowerSafe a v s ≤ v) ∧
    (a < s → a < lowerSafe a v s) := by
  unfold lowerSafe
  split_ifs <;> omega

theorem Entry.holds_iff {e : Entry} :
    e.holds v = true ↔ e.pid = v ∨ e.pgrp = v ∨ e.tgid = v ∨ e.session = v := by
  simp [Entry.holds, or_assoc]

theorem Entry.lowerSafe_le {e : Entry} : e.lowerSafe a s ≤ s ∧
    (e.holds v = true → a < v → e.lowerSafe a s ≤ v) ∧ (a < s → a < e.lowerSafe a s) := by
  simp only [Entry.lowerSafe]
  obtain ⟨h1, h1v, h1a⟩ := ShortSched.lowerSafe_le (a := a) (v := e.pid) (s := s)
  generalize ShortSched.lowerSafe a e.pid s = s1 at *
  obtain ⟨h2, h2v, h2a⟩ := ShortSched.lowerSafe_le (a := a) (v := e.pgrp) (s := s1)
  generalize ShortSched.lowerSafe a e.pgrp s1 = s2 at *
  obtain ⟨h3, h3v, h3a⟩ := ShortSched.lowerSafe_le (a := a) (v := e.tgid) (s := s2)
  generalize ShortSched.lowerSafe a e.tgid s2 = s3 at *
  obtain ⟨h4, h4v, h4a⟩ := ShortSched.lowerSafe_le (a := a) (v := e.session) (s := s3)
  refine ⟨by omega, fun hv ha => ?_, fun hs => by omega⟩
  rcases Entry.holds_iff.mp hv with rfl | rfl | rfl | rfl <;> omega

/-- A scan never raises `next_safe`, nor takes it below `last_pid`. -/
theorem scanTasks_le (es : List Entry) :
    (scanTasks a s es).2 ≤ s ∧ (a < s → a < (scanTasks a s es).2) := by
  induction es generalizing s with
  | nil => simp [scanTasks]
  | cons e es ih =>
    unfold scanTasks
    split_ifs
    · simp
    · obtain ⟨hle, -, hlt⟩ := e.lowerSafe_le (a := a) (v := a) (s := s)
      have hrest := ih (s := e.lowerSafe a s)
      exact ⟨hrest.1.trans hle, fun hs => hrest.2 (hlt hs)⟩

theorem scanTasks_fst : (scanTasks a s es).1 = true ↔ ∀ e ∈ es, e.holds a = false := by
  induction es generalizing s with
  | nil => simp [scanTasks]
  | cons e es ih =>
    unfold scanTasks
    split_ifs with he
    · simp [he]
    · simp [he, ih]

/-- After a whole scan `next_safe` is at most the least pid held above `last_pid`. -/
theorem scanTasks_safe (h : (scanTasks a s es).1 = true) {e : Entry} (he : e ∈ es)
    (hv : e.holds v = true) (hav : a < v) : (scanTasks a s es).2 ≤ v := by
  induction es generalizing s with
  | nil => cases he
  | cons x es ih =>
    unfold scanTasks at h ⊢
    split_ifs at h ⊢ with hx
    rcases List.mem_cons.mp he with rfl | he
    · exact (scanTasks_le es).1.trans (Entry.lowerSafe_le.2.1 hv hav)
    · exact ih h he

theorem pidSearch_free (h : ∀ e ∈ es, e.holds a = false) :
    pidSearch es b (n + 1) a s = some (a, a, (scanTasks a s es).2) := by
  have hscan := scanTasks_fst (s := s).mpr h
  unfold pidSearch
  split
  · next nextSafe he => simp [he]
  · next nextSafe he => simp [he] at hscan

/-- Where the pid is taken, the search goes on with the next one. -/
theorem pidSearch_taken (h : 0 ≤ a) (hs : a < s) (hm : s ≤ pidMax) {e : Entry} (he : e ∈ es)
    (hv : e.holds a = true) : ∃ s', advance firstPid pidMax a < s' ∧ s' ≤ pidMax ∧
      (a + 1 = pidMax → s' = pidMax) ∧ ∀ n b, pidSearch es b (n + 1) a s =
        if advance firstPid pidMax a = b then some (0, b, s')
        else pidSearch es b n (advance firstPid pidMax a) s' := by
  have hfst : (scanTasks a s es).1 = false := by
    rw [Bool.eq_false_iff, ne_eq, scanTasks_fst]
    intro hall
    rw [hall e he] at hv
    cases hv
  obtain ⟨hle, hlt⟩ := scanTasks_le (a := a) (s := s) es
  have hadv := advance_lastPid h (hs.trans_le hm)
  have hsearch : ∀ n b, pidSearch es b (n + 1) a s =
      let next := if a + 1 ≥ (scanTasks a s es).2
        then (if pidOverflow (a + 1) then firstPid else a + 1, pidMax)
        else (a + 1, (scanTasks a s es).2)
      if next.1 = b then some (0, next) else pidSearch es b n next.1 next.2 := by
    intro n b
    rw [pidSearch]
    generalize scanTasks a s es = r at hfst
    obtain ⟨r, nextSafe⟩ := r
    cases hfst
    rfl
  by_cases hge : a + 1 ≥ (scanTasks a s es).2
  · refine ⟨pidMax, ?_, le_rfl, fun _ => rfl, fun n b => ?_⟩
    · unfold advance
      split_ifs
      · assumption
      · decide
    · rw [hsearch, if_pos hge, hadv]
      dsimp only
      split_ifs with hb
      · rw [hb]
      · rfl
  · have hnext : advance firstPid pidMax a = a + 1 := if_pos (by omega)
    refine ⟨(scanTasks a s es).2, by omega, hle.trans hm, fun ha => by omega, fun n b => ?_⟩
    rw [hsearch, if_neg hge, hnext]
    dsimp only
    split_ifs with hb
    · rw [hb]
    · rfl

/-- Someone of them holds the number. -/
def Taken (es : List Entry) (v : ℤ) : Prop := ∃ e ∈ es, e.holds v

/-- The search finds the next free pid, or all are taken. -/
theorem pidSearch_next (hb : 0 ≤ b ∧ b < pidMax) (hs : a < s) (hm : s ≤ pidMax)
    (hr : Reached firstPid pidMax b (Taken es) a)
    (hn : pidMax ≤ n + turn firstPid pidMax b a) :
    (∃ v s', pidSearch es b n a s = some (v, v, s') ∧ Next firstPid pidMax b (Taken es) v ∧
      s' ≤ pidMax ∧ ∀ w, Taken es w → v < w → s' ≤ w) ∨
    (∀ w, Candidate firstPid pidMax b w → Taken es w) ∧
      (firstPid ≤ b → ∃ s', s' ≤ pidMax ∧ (b = firstPid → s' = pidMax) ∧
        pidSearch es b n a s = some (0, b, s')) := by
  have hturn := turn_lt (by decide) hb.1 hr.1
  induction n generalizing a s with
  | zero => omega
  | succ n ih =>
    by_cases ht : Taken es a
    · obtain ⟨e, he, hv⟩ := id ht
      have ha : 0 ≤ a := by
        have hc := hr.1
        unfold Candidate firstPid at hc
        omega
      obtain ⟨s', has', hs', hwrap, hsearch⟩ := pidSearch_taken ha hs hm he hv
      rw [hsearch]
      rcases hr.step hb.2 ht with ⟨hlast, hall⟩ | ⟨hr', hne, hturn'⟩
      · right
        refine ⟨hall, fun hfirst => ⟨s', hs', fun hbf => hwrap ?_, if_pos ?_⟩⟩
        · have hc := hr.1
          unfold advance Candidate at *
          split_ifs at hlast <;> omega
        · rcases hlast with hlast | ⟨hlt, -⟩
          · exact hlast
          · exact absurd hfirst (not_le.mpr hlt)
      · rw [if_neg hne]
        exact ih has' hs' hr' (by omega) (turn_lt (by decide) hb.1 hr'.1)
    · left
      have hfree : ∀ e ∈ es, e.holds a = false := by
        intro e he
        rw [Bool.eq_false_iff]
        exact fun hv => ht ⟨e, he, hv⟩
      refine ⟨a, _, pidSearch_free hfree, ⟨hr, ht⟩, (scanTasks_le es).1.trans hm, ?_⟩
      rintro w ⟨e, he, hv⟩ hw
      exact scanTasks_safe (scanTasks_fst.mpr hfree) he hv hw

/-- All pids taken and the search begun below `firstPid`: it does not end. -/
theorem pidSearch_endless (hb : b < firstPid) (hs : a < s) (hm : s ≤ pidMax) (hb0 : 0 ≤ b)
    (hc : Candidate firstPid pidMax b a)
    (hall : ∀ w, Candidate firstPid pidMax b w → Taken es w) : pidSearch es b n a s = none := by
  induction n generalizing a s with
  | zero => rfl
  | succ n ih =>
    obtain ⟨e, he, hv⟩ := hall a hc
    have ha : 0 ≤ a := by
      unfold Candidate at hc
      omega
    obtain ⟨s', has', hs', -, hsearch⟩ := pidSearch_taken ha hs hm he hv
    obtain ⟨hc', hne⟩ := hc.round hb (by decide)
    rw [hsearch, if_neg hne]
    exact ih has' hs' hc'

theorem taken_map : Taken (ps.map t.tasks) v ↔ t.Held ps v := by
  simp [Taken, Table.Held]

theorem Table.Lists.forEachTask (h : t.Lists c) (hn : c.tasks.length < n) :
    t.forEachTask n = some c.tasks :=
  h.ring.walk (List.nodup_cons.mp h.nodup).1 hn

theorem forEachTask_mono {k : ℕ} (hk : n ≤ k) (hps : t.forEachTask n = some ps) :
    t.forEachTask k = some ps := walk_mono hk hps

/-- `get_pid` is its search, wherever `next_safe` does not spare it. -/
theorem getPid_search (hps : t.forEachTask n = some ps) (hc : PidCache t ps)
    (hs : t.nextSafe ≤ t.lastPid + 1) : t.getPid n false =
      (pidSearch (ps.map t.tasks) t.lastPid n (advance firstPid pidMax t.lastPid) pidMax).map
        fun r => (r.1, { t with lastPid := r.2.1, nextSafe := r.2.2 }) := by
  have hadv := advance_lastPid hc.lastPid.1 hc.lastPid.2
  simp only [Table.getPid, Bool.false_eq_true, if_false, hps, ge_iff_le, if_pos hs, ← hadv]
  split_ifs <;> simp only [Option.bind_eq_bind, Option.bind_some, Option.map_eq_bind] <;> rfl

/-- Where it does, nobody holds the next pid. -/
theorem getPid_spared (hc : PidCache t ps) (hs : ¬ t.nextSafe ≤ t.lastPid + 1) :
    t.getPid n false = some (t.lastPid + 1, { t with lastPid := t.lastPid + 1 }) ∧
      Next firstPid pidMax t.lastPid (t.Held ps) (t.lastPid + 1) := by
  have hle := hc.nextSafe
  have hno : ¬ pidOverflow (t.lastPid + 1) = true := by
    rw [pidOverflow_iff (by linarith [hc.lastPid.1]) (by linarith [hc.lastPid.2])]
    linarith
  have hadv : advance firstPid pidMax t.lastPid = t.lastPid + 1 := if_pos (by linarith)
  have hreach : Reached firstPid pidMax t.lastPid (t.Held ps)
      (advance firstPid pidMax t.lastPid) :=
    reached_advance (by decide) hc.lastPid.2 (by omega)
  rw [hadv] at hreach
  refine ⟨by simp [Table.getPid, hno, hs], hreach, fun hv => hs ?_⟩
  exact hc.safe _ hv (by omega)

/-- `get_pid` gives the first pid in turn that no task holds, as a plain search from the last
one on would, and what `next_safe` says remains true. -/
theorem getPid_next (hps : t.forEachTask n = some ps) (hc : PidCache t ps)
    (hm : 32768 ≤ n)
    (hleft : ∃ v, Candidate firstPid pidMax t.lastPid v ∧ ¬ t.Held ps v) :
    ∃ v s, Next firstPid pidMax t.lastPid (t.Held ps) v ∧
      t.getPid n false = some (v, { t with lastPid := v, nextSafe := s }) ∧
      PidCache { t with lastPid := v, nextSafe := s } ps := by
  have hrange : ∀ v, Candidate firstPid pidMax t.lastPid v → 0 ≤ v ∧ v < pidMax := by
    intro v hv
    have hl := hc.lastPid
    unfold Candidate at hv
    simp only [firstPid] at hv
    omega
  by_cases hs : t.nextSafe ≤ t.lastPid + 1
  · have hne : advance firstPid pidMax t.lastPid ≠ t.lastPid := by
      have hl := hc.lastPid
      unfold advance
      simp only [firstPid, pidMax] at *
      split_ifs <;> omega
    have hreach : Reached firstPid pidMax t.lastPid (Taken (ps.map t.tasks)) _ :=
      reached_advance (by decide) hc.lastPid.2 hne
    rcases pidSearch_next hc.lastPid (hrange _ hreach.1).2 le_rfl hreach (n := n)
      (by linarith [turn_pos hc.lastPid.2 hreach.1, show (32768 : ℤ) ≤ n by exact_mod_cast hm])
      with ⟨v, s, hsearch, hnext, hle, hsafe⟩ | ⟨hall, -⟩
    · refine ⟨v, s, ?_, by rw [getPid_search hps hc hs, hsearch]; rfl, hrange v hnext.1.1, hle, ?_⟩
      · simpa only [Next, Reached, taken_map] using hnext
      · exact fun w hw => hsafe w (taken_map.mpr hw)
    · obtain ⟨v, hv, hfree⟩ := hleft
      exact absurd (taken_map.mp (hall v hv)) hfree
  · obtain ⟨hget, hnext⟩ := getPid_spared (n := n) hc hs
    refine ⟨_, t.nextSafe, hnext, hget, hrange _ hnext.1.1, hc.nextSafe, fun w hw hlt => ?_⟩
    exact hc.safe w hw (lt_trans (by simp) hlt)

/-- When all pids in turn are taken, there is nothing to be spared. -/
theorem PidCache.exhausted (hc : PidCache t ps)
    (hall : ∀ v, Candidate firstPid pidMax t.lastPid v → t.Held ps v) :
    t.nextSafe ≤ t.lastPid + 1 ∧ advance firstPid pidMax t.lastPid < pidMax ∧
      Reached firstPid pidMax t.lastPid (Taken (ps.map t.tasks))
        (advance firstPid pidMax t.lastPid) := by
  have hl := hc.lastPid
  have hne : advance firstPid pidMax t.lastPid ≠ t.lastPid := by
    unfold advance
    simp only [firstPid, pidMax] at *
    split_ifs <;> omega
  refine ⟨?_, ?_, reached_advance (by decide) hl.2 hne⟩
  · by_contra hs
    obtain ⟨-, hnext⟩ := getPid_spared (n := 0) hc hs
    exact absurd (hall _ hnext.1.1) hnext.2
  · unfold advance
    split_ifs
    · assumption
    · decide

/-- Then `get_pid` gives 0 if the last pid was `firstPid` or above. -/
theorem getPid_zero (hps : t.forEachTask n = some ps) (hc : PidCache t ps) (hm : 32768 ≤ n)
    (hall : ∀ v, Candidate firstPid pidMax t.lastPid v → t.Held ps v)
    (hfirst : firstPid ≤ t.lastPid) : ∃ s, s ≤ pidMax ∧ (t.lastPid = firstPid → s = pidMax) ∧
      t.getPid n false = some (0, { t with nextSafe := s }) := by
  obtain ⟨hs, hlt, hreach⟩ := hc.exhausted hall
  rw [getPid_search hps hc hs]
  rcases pidSearch_next hc.lastPid hlt le_rfl hreach (n := n)
    (by linarith [turn_pos hc.lastPid.2 hreach.1, show (32768 : ℤ) ≤ n by exact_mod_cast hm])
    with ⟨v, s, -, hnext, -⟩ | ⟨-, hzero⟩
  · exact absurd (taken_map.mpr (hall v hnext.1.1)) hnext.2
  · obtain ⟨s, hle, hwrap, hsearch⟩ := hzero hfirst
    exact ⟨s, hle, hwrap, by rw [hsearch]; rfl⟩

/-- Below, it never returns. -/
theorem getPid_endless (hps : t.forEachTask n = some ps) (hc : PidCache t ps)
    (hall : ∀ v, Candidate firstPid pidMax t.lastPid v → t.Held ps v)
    (hfirst : t.lastPid < firstPid) (k : ℕ) (hk : n ≤ k) : t.getPid k false = none := by
  obtain ⟨hs, hlt, hreach⟩ := hc.exhausted hall
  rw [getPid_search (forEachTask_mono hk hps) hc hs, pidSearch_endless hfirst hlt le_rfl
    hc.lastPid.1 hreach.1 fun w hw => taken_map.mpr (hall w hw)]
  rfl

end
end ShortSched
