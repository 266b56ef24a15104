import ShortSched.Survival

/-! `load_balance` of an SMP build, and class separation on every CPU. -/
namespace ShortSched
open Buckets

/-- All CPUs: the tasks, one runqueue per CPU, and the constants of the build. -/
structure Smp where
  tasks : TaskId → TaskStruct
  rqs : ℕ → Runqueue
  jiffies : ℕ
  pidhash : List TaskId
  smpNumCpus : ℕ
  cpuLogicalMap : ℕ → ℕ
  cacheDecayTicks : ℕ

/-- What CPU `c` sees. -/
def Smp.view (m : Smp) (c : ℕ) : Kernel where
  tasks := m.tasks
  rq := m.rqs c
  jiffies := m.jiffies
  pidhash := m.pidhash

/-- The state when `k` is what CPU `c` sees of it. -/
def Smp.store (m : Smp) (c : ℕ) (k : Kernel) : Smp :=
  { m with tasks := k.tasks, rqs := Function.update m.rqs c k.rq }

/-- One CPU's search for the busiest of the other runqueues. -/
structure Search where
  busiest : Option ℕ
  maxLoad : ℤ
  prevNrRunning : ℕ → ℤ

def searchCpu (m : Smp) (thisCpu : ℕ) (idle : Bool) (s : Search) (logical : ℕ) : Search :=
  let nr := (m.rqs logical).nrRunning
  let load := if idle ∨ nr < s.prevNrRunning logical then nr else s.prevNrRunning logical
  let s := { s with prevNrRunning := Function.update s.prevNrRunning logical nr }
  if load > s.maxLoad ∧ logical ≠ thisCpu then { s with busiest := some logical, maxLoad := load }
  else s

def findBusiest (m : Smp) (thisCpu : ℕ) (idle : Bool) : Search :=
  ((List.range m.smpNumCpus).map m.cpuLogicalMap).foldl (searchCpu m thisCpu idle)
    ⟨none, 1, (m.rqs thisCpu).prevNrRunning⟩

/-- `CAN_MIGRATE_TASK`. -/
def canMigrate (m : Smp) (busiest thisCpu : ℕ) (p : TaskId) : Prop :=
  u32 (m.jiffies - (m.tasks p).sleepTimestamp) > m.cacheDecayTicks ∧
    p ≠ (m.rqs busiest).curr ∧ (m.tasks p).cpusAllowed thisCpu = true

instance (m : Smp) (busiest thisCpu : ℕ) (p : TaskId) :
    Decidable (canMigrate m busiest thisCpu p) :=
  inferInstanceAs (Decidable (_ ∧ _ ∧ _))

/-- One task leaves `array` of the busiest runqueue for this one. -/
def pullTask (busiest thisCpu : ℕ) (array : ArrayIdx) (p : TaskId) (m : Smp) : Option Smp := do
  let k ← dequeueTask p array (m.view busiest)
  let m := m.store busiest (k.modRq fun rq => { rq with nrRunning := rq.nrRunning - 1 })
  let k := (m.view thisCpu).mod p fun t => { t with cpu := thisCpu }
  let k := k.modRq fun rq => { rq with nrRunning := rq.nrRunning + 1 }
  let k ← enqueueTask p k.rq.active k
  let k := if (k.tasks p).prio < (k.tasks k.current).prio then reschedTask k.current k else k
  return m.store thisCpu k

/-- How far the search for tasks to pull has come. -/
structure Pull where
  finished : Bool
  imbalance : ℤ
  smp : Smp

/-- The rest of one queue, from its tail on. -/
def pullQueue (idle : Bool) (busiest thisCpu : ℕ) (array : ArrayIdx) :
    List TaskId → ℤ → Smp → Option Pull
  | [], imbalance, m => some ⟨false, imbalance, m⟩
  | p :: ps, imbalance, m =>
      if canMigrate m busiest thisCpu p then do
        let m ← pullTask busiest thisCpu array p m
        if idle = false ∧ imbalance - 1 ≠ 0 then
          pullQueue idle busiest thisCpu array ps (imbalance - 1) m
        else
          return ⟨true, imbalance, m⟩
      else pullQueue idle busiest thisCpu array ps imbalance m

/-- The last `n` queues of an array whose bits are set, by ascending priority. -/
def pullArray (idle : Bool) (busiest thisCpu : ℕ) (array : ArrayIdx) :
    ℕ → ℤ → Smp → Option Pull
  | 0, imbalance, m => some ⟨false, imbalance, m⟩
  | n + 1, imbalance, m =>
      let idx : ℤ := 139 - n
      if ((m.rqs busiest).arrays array).bitmap idx then
        -- `list_entry` of an empty queue is no task
        if (m.view busiest).queue array idx = [] then none
        else do
          let r ← pullQueue idle busiest thisCpu array ((m.view busiest).queue array idx).reverse
            imbalance m
          if r.finished then return r
          else pullArray idle busiest thisCpu array n r.imbalance r.smp
      else pullArray idle busiest thisCpu array n imbalance m

/-- From `busiest->nr_running <= nr_running + 1` to `out_unlock`, both runqueues locked:
expired tasks go first. -/
def pullTasks (idle : Bool) (busiest thisCpu : ℕ) (nrRunning imbalance : ℤ) (m : Smp) :
    Option Smp :=
  if (m.rqs busiest).nrRunning ≤ nrRunning + 1 then some m
  else if ((m.rqs busiest).arrays (m.rqs busiest).expired).nrActive ≠ 0 then do
    let r ← pullArray idle busiest thisCpu (m.rqs busiest).expired 140 imbalance m
    if r.finished then return r.smp
    else
      let r ← pullArray idle busiest thisCpu (r.smp.rqs busiest).active 140 r.imbalance r.smp
      return r.smp
  else do
    let r ← pullArray idle busiest thisCpu (m.rqs busiest).active 140 imbalance m
    return r.smp

/-- `load_balance` when the lock of the busiest runqueue is free. -/
def loadBalance (thisCpu : ℕ) (idle : Bool) (m : Smp) : Option Smp :=
  let rq := m.rqs thisCpu
  let nrRunning := if idle ∨ rq.nrRunning > rq.prevNrRunning thisCpu then rq.nrRunning
    else rq.prevNrRunning thisCpu
  let s := findBusiest m thisCpu idle
  let m := m.store thisCpu ((m.view thisCpu).modRq fun rq =>
    { rq with prevNrRunning := s.prevNrRunning })
  match s.busiest with
  | none => some m
  | some busiest =>
      let imbalance := (s.maxLoad - nrRunning).tdiv 2
      if idle = false ∧ imbalance < (s.maxLoad + 3).tdiv 4 then some m
      else pullTasks idle busiest thisCpu nrRunning imbalance m

/-- Every runqueue is consistent, and linked tasks are where their class belongs. -/
structure Smp.Separated (m : Smp) : Prop where
  cpu : ∀ c, (m.rqs c).cpu = c
  distinct : ∀ c, (m.rqs c).ptrs.Distinct
  shape : ∀ c, Shape (m.view c) 0
  home : ∀ c p a i, p ∈ (m.view c).queue a i →
    (m.tasks p).core.Belongs (m.rqs c).ptrs a ∧ (m.tasks p).core.PrioOk

/-- Every runqueue is consistent, and its four arrays are different ones. -/
structure Smp.Consistent (m : Smp) : Prop where
  cpu : ∀ c, (m.rqs c).cpu = c
  distinct : ∀ c, (m.rqs c).ptrs.Distinct
  shape : ∀ c, Shape (m.view c) 0

/-- `nr_running` of `load_balance`: the longer one of the present and the remembered length of
this runqueue. -/
def Smp.ownLoad (m : Smp) (thisCpu : ℕ) (idle : Bool) : ℤ :=
  if idle ∨ (m.rqs thisCpu).nrRunning > (m.rqs thisCpu).prevNrRunning thisCpu then
    (m.rqs thisCpu).nrRunning
  else (m.rqs thisCpu).prevNrRunning thisCpu

/-- The imbalance that is to be evened out. -/
def Smp.imbalance (m : Smp) (thisCpu : ℕ) (idle : Bool) : ℤ :=
  ((findBusiest m thisCpu idle).maxLoad - m.ownLoad thisCpu idle).tdiv 2

/-- The search for the busiest runqueue remembers the lengths that it saw. -/
def Smp.remember (m : Smp) (thisCpu : ℕ) (idle : Bool) : Smp :=
  m.store thisCpu ((m.view thisCpu).modRq fun rq =>
    { rq with prevNrRunning := (findBusiest m thisCpu idle).prevNrRunning })

/-- The tasks `ps` went from the active and expired arrays of `busiest` to the active array of
`thisCpu`, and nothing else that scheduling depends on changed. -/
structure Pulled (busiest thisCpu : ℕ) (ps : List TaskId) (m m' : Smp) : Prop where
  consistent : m'.Consistent
  ptrs : ∀ c, (m'.rqs c).ptrs = (m.rqs c).ptrs
  curr : ∀ c, (m'.rqs c).curr = (m.rqs c).curr
  cacheDecayTicks : m'.cacheDecayTicks = m.cacheDecayTicks
  jiffies : m'.jiffies = m.jiffies
  field : ∀ q, ((m'.tasks q).sleepTimestamp, (m'.tasks q).cpusAllowed) =
    ((m.tasks q).sleepTimestamp, (m.tasks q).cpusAllowed)
  core : ∀ q, (m'.tasks q).core = if q ∈ ps then
    (m.tasks q).core.on (m.rqs thisCpu).ptrs (m.rqs thisCpu).active (m.tasks q).core.prio
    else (m.tasks q).core
  source : ∀ p ∈ ps, canMigrate m busiest thisCpu p ∧ ∃ a i, p ∈ (m.view busiest).queue a i ∧
    (a = (m.rqs busiest).active ∨ a = (m.rqs busiest).expired)
  nodup : busiest ≠ thisCpu → ps.Nodup

section
variable {m m' m'' : Smp} {c b thisCpu busiest : ℕ} {p q : TaskId} {a : ArrayIdx} {i d : ℤ}
  {k k' : Kernel} {ps qs : List TaskId} {idle : Bool} {imbalance : ℤ}

@[simp] theorem store_view_self : (m.store c k).view c =
    { tasks := k.tasks, rq := k.rq, jiffies := m.jiffies, pidhash := m.pidhash } := by
  simp [Smp.view, Smp.store]

theorem store_view_ne (h : b ≠ c) : (m.store c k).view b =
    { tasks := k.tasks, rq := m.rqs b, jiffies := m.jiffies, pidhash := m.pidhash } := by
  simp [Smp.view, Smp.store, h]

/-- What a CPU does not change of its runqueue is the same on all. -/
theorem store_field {β : Type*} (g : Runqueue → β) (hk : g k.rq = g (m.rqs c)) (b : ℕ) :
    g ((m.store c k).rqs b) = g (m.rqs b) := by
  by_cases hb : b = c
  · subst hb
    simp only [Smp.store, Function.update_self]
    exact hk
  · simp [Smp.store, hb]

/-- A change to a task that hangs on other runqueues, before and after. -/
theorem Shape.foreign (h : Shape k d) (hrq : k'.rq = k.rq)
    (hrest : ∀ q ≠ p, (k'.core q) = k.core q)
    (hl : ∀ l ∈ (k.tasks p).runList, l.cpu ≠ k.rq.cpu)
    (hl' : ∀ l ∈ (k'.tasks p).runList, l.cpu ≠ k.rq.cpu ∧
      (k'.tasks p).array = some l.array ∧ (k'.tasks p).prio = l.prio) : Shape k' d where
  located := by
    rw [hrq]
    refine ⟨fun q l hc => ?_, fun l hc => ?_⟩
    · have hm := h.located.mem_iff q l hc
      simp only [Kernel.queue, hrq] at hm ⊢
      rw [hm]
      by_cases hq : q = p
      · subst hq
        constructor
        · exact fun hr => absurd hc (hl l hr)
        · exact fun hr => absurd hc (hl' l hr).1
      · rw [show (k'.tasks q).runList = (k.tasks q).runList from
          congrArg Core.runList (hrest q hq)]
    · simpa only [Kernel.queue, hrq] using h.located.nodup l hc
  home q l hr := by
    by_cases hq : q = p
    · subst hq
      exact (hl' l hr).2
    · have hc := hrest q hq
      have h1 : (k'.tasks q).runList = (k.tasks q).runList := congrArg Core.runList hc
      have h2 : (k'.tasks q).array = (k.tasks q).array := congrArg Core.array hc
      have h3 : (k'.tasks q).prio = (k.tasks q).prio := congrArg Core.prio hc
      rw [h1] at hr
      rw [h2, h3]
      exact h.home q l hr
  arrays a := by rw [hrq]; exact h.arrays a
  running := by rw [hrq]; exact h.running

theorem Smp.Separated.consistent (h : m.Separated) : m.Consistent := ⟨h.cpu, h.distinct, h.shape⟩

theorem Smp.Consistent.mem_iff (h : m.Consistent) :
    p ∈ (m.view c).queue a i ↔ (m.tasks p).runList = some ⟨c, a, i⟩ := by
  rw [(h.shape c).mem_iff]
  simp only [Smp.view, h.cpu c]

/-- A task on an active or expired array belongs on any active array. -/
theorem Core.Belongs.active {ps : Ptrs} {t : Core} (h : t.Belongs ps a) (hd : ps.Distinct)
    (ha : a = ps.active ∨ a = ps.expired) (qs : Ptrs) : t.Belongs qs qs.active := by
  unfold Core.Belongs at h ⊢
  cases hp : t.policy <;> simp only [hp] at h ⊢
  case other => simp
  case short =>
    simp only [Ptrs.Distinct, List.nodup_cons, List.mem_cons, List.not_mem_nil] at hd
    split_ifs at h <;> rcases ha with ha | ha <;> subst ha <;> simp_all

/-- What is left to show when one CPU writes its runqueue back. -/
theorem Smp.Consistent.of_store (h : m.Consistent) (hk : k.ptrs = (m.view c).ptrs)
    (hshape : ∀ c', Shape ((m.store c k).view c') 0) : (m.store c k).Consistent := by
  have hptrs := store_field (m := m) Runqueue.ptrs hk
  refine ⟨fun c' => ?_, fun c' => ?_, hshape⟩
  · exact (congrArg Ptrs.cpu (hptrs c')).trans (h.cpu c')
  · rw [hptrs]
    exact h.distinct c'

theorem Smp.Consistent.store_quiet (h : m.Consistent) (hq : Quiet (m.view c) k)
    (hk : Shape k 0) : (m.store c k).Consistent := by
  apply h.of_store hq.ptrs
  intro c'
  by_cases hc : c' = c
  · subst hc
    rw [store_view_self]
    exact hk.of_core rfl rfl rfl rfl
  · rw [store_view_ne hc]
    exact (h.shape c').of_core hq.core rfl rfl rfl

/-- What CPU `c` does to one task, which hangs on no other runqueue. -/
theorem Smp.Consistent.store {x : Core} (h : m.Consistent) (ho : Only p x (m.view c) k)
    (hk : Shape k 0) (hl : ∀ l ∈ (m.tasks p).runList, l.cpu = c)
    (hl' : ∀ l ∈ x.runList, l.cpu = c) : (m.store c k).Consistent := by
  have hx : (k.tasks p).core = x := ho.self
  apply h.of_store ho.ptrs
  intro c'
  by_cases hc : c' = c
  · subst hc
    rw [store_view_self]
    exact hk.of_core rfl rfl rfl rfl
  · refine (h.shape c').foreign (p := p) ?_ (fun q hq => ?_) (fun l hr => ?_) fun l hr => ?_
    · rw [store_view_ne hc]
      rfl
    · rw [store_view_ne hc]
      exact ho.rest hq
    · rw [hl l hr]
      simpa only [Smp.view, h.cpu c'] using Ne.symm hc
    · rw [store_view_ne hc] at hr ⊢
      have hxl : l ∈ x.runList := by
        rw [← hx]
        exact hr
      refine ⟨?_, hk.home p l hr⟩
      rw [hl' l hxl]
      simpa only [Smp.view, h.cpu c'] using Ne.symm hc

/-! What is moved, in one step and in several. -/

theorem canMigrate_congr (hj : m'.jiffies = m.jiffies)
    (hd : m'.cacheDecayTicks = m.cacheDecayTicks)
    (hc : (m'.rqs busiest).curr = (m.rqs busiest).curr)
    (hf : ((m'.tasks p).sleepTimestamp, (m'.tasks p).cpusAllowed) =
      ((m.tasks p).sleepTimestamp, (m.tasks p).cpusAllowed)) :
    canMigrate m' busiest thisCpu p ↔ canMigrate m busiest thisCpu p := by
  obtain ⟨h1, h2⟩ := Prod.mk.inj hf
  unfold canMigrate
  rw [hj, hd, hc, h1, h2]

theorem Pulled.canMigrate_iff (h : Pulled busiest thisCpu ps m m') (q : TaskId) :
    canMigrate m' busiest thisCpu q ↔ canMigrate m busiest thisCpu q :=
  canMigrate_congr h.jiffies h.cacheDecayTicks (h.curr busiest) (h.field q)

theorem Pulled.refl (busiest thisCpu : ℕ) (hm : m.Consistent) : Pulled busiest thisCpu [] m m where
  consistent := hm
  ptrs _ := rfl
  curr _ := rfl
  cacheDecayTicks := rfl
  jiffies := rfl
  field _ := rfl
  core _ := (if_neg List.not_mem_nil).symm
  source _ hp := absurd hp List.not_mem_nil
  nodup _ := List.nodup_nil

theorem Pulled.rest (h : Pulled busiest thisCpu ps m m') (hq : q ∉ ps) :
    (m'.tasks q).core = (m.tasks q).core := by
  rw [h.core, if_neg hq]

theorem Pulled.active_eq (h : Pulled busiest thisCpu ps m m') (c : ℕ) :
    (m'.rqs c).active = (m.rqs c).active := congrArg Ptrs.active (h.ptrs c)

theorem Pulled.expired_eq (h : Pulled busiest thisCpu ps m m') (c : ℕ) :
    (m'.rqs c).expired = (m.rqs c).expired := congrArg Ptrs.expired (h.ptrs c)

/-- A task that was not moved hangs where it hung. -/
theorem Pulled.mem_rest (h : Pulled busiest thisCpu ps m m') (hm : m.Consistent) (hq : q ∉ ps) :
    q ∈ (m'.view c).queue a i ↔ q ∈ (m.view c).queue a i := by
  rw [h.consistent.mem_iff, hm.mem_iff]
  exact Eq.congr_left (congrArg Core.runList (h.rest hq))

/-- A task that was moved hangs on the active array of this CPU. -/
theorem Pulled.mem_moved (h : Pulled busiest thisCpu ps m m') (hm : m.Consistent) (hq : q ∈ ps) :
    (m'.tasks q).runList = some ⟨thisCpu, (m.rqs thisCpu).active, (m.tasks q).prio⟩ := by
  change (m'.tasks q).core.runList = _
  rw [h.core, if_pos hq]
  change some (⟨(m.rqs thisCpu).cpu, _, _⟩ : ListHead) = _
  rw [hm.cpu]
  rfl

theorem Pulled.trans (h : Pulled busiest thisCpu ps m m') (h' : Pulled busiest thisCpu qs m' m'')
    (hm : m.Consistent) : Pulled busiest thisCpu (ps ++ qs) m m'' where
  consistent := h'.consistent
  ptrs c := (h'.ptrs c).trans (h.ptrs c)
  curr c := (h'.curr c).trans (h.curr c)
  cacheDecayTicks := h'.cacheDecayTicks.trans h.cacheDecayTicks
  jiffies := h'.jiffies.trans h.jiffies
  field q := (h'.field q).trans (h.field q)
  core q := by
    have hact := h.active_eq thisCpu
    rw [h'.core, h.core, h.ptrs, hact]
    by_cases hps : q ∈ ps <;> by_cases hqs : q ∈ qs
    · rw [if_pos hps, if_pos hqs, if_pos (List.mem_append_left _ hps)]
      rfl
    · rw [if_pos hps, if_neg hqs, if_pos (List.mem_append_left _ hps)]
    · rw [if_neg hps, if_pos hqs, if_pos (List.mem_append_right _ hqs)]
    · rw [if_neg hps, if_neg hqs, if_neg fun hmem => (List.mem_append.mp hmem).elim hps hqs]
  source p hp := by
    by_cases hps : p ∈ ps
    · exact h.source p hps
    · obtain ⟨hmig, a, i, hmem, ha⟩ := h'.source p ((List.mem_append.mp hp).resolve_left hps)
      refine ⟨(h.canMigrate_iff p).mp hmig, a, i, (h.mem_rest hm hps).mp hmem, ?_⟩
      rwa [h.active_eq, h.expired_eq] at ha
  nodup hne := by
    refine List.nodup_append.mpr ⟨h.nodup hne, h'.nodup hne, ?_⟩
    rintro p hps q hqs rfl
    obtain ⟨-, a, i, hmem, -⟩ := h'.source p hqs
    have hr := h.consistent.mem_iff.mp hmem
    rw [h.mem_moved hm hps] at hr
    exact hne (congrArg ListHead.cpu (Option.some.inj hr)).symm

/-- The classes stay separated. -/
theorem Pulled.separated (h : Pulled busiest thisCpu ps m m') (hm : m.Separated) :
    m'.Separated where
  cpu := h.consistent.cpu
  distinct := h.consistent.distinct
  shape := h.consistent.shape
  home c q a i hq := by
    by_cases hps : q ∈ ps
    · obtain ⟨-, b, j, hmem, hb⟩ := h.source q hps
      obtain ⟨hbel, hprio⟩ := hm.home busiest q b j hmem
      have hr := h.consistent.mem_iff.mp hq
      rw [h.mem_moved hm.consistent hps] at hr
      obtain ⟨rfl, rfl, -⟩ := ListHead.mk.inj (Option.some.inj hr)
      rw [h.ptrs, h.core, if_pos hps]
      exact ⟨hbel.active (hm.distinct busiest) hb (m.rqs thisCpu).ptrs, hprio⟩
    · rw [h.ptrs, h.rest hps]
      exact hm.home c q a i ((h.mem_rest hm.consistent hps).mp hq)

/-- `sleep_timestamp` and `cpus_allowed`, which decide whether a task may be moved. -/
theorem migration_offQueue :
    OffQueue (fun t : TaskStruct => (t.sleepTimestamp, t.cpusAllowed)) :=
  ⟨fun _ _ => rfl, fun _ _ => rfl, fun _ _ _ _ => rfl, fun _ _ _ => rfl⟩

/-- In `m'` the task `p` is off queue `i` of array `a` of CPU `c`, and else all is as in `m`. -/
structure Unqueued (c : ℕ) (p : TaskId) (a : ArrayIdx) (i : ℤ) (m m' : Smp) : Prop where
  consistent : m'.Consistent
  ptrs : ∀ b, (m'.rqs b).ptrs = (m.rqs b).ptrs
  curr : ∀ b, (m'.rqs b).curr = (m.rqs b).curr
  cacheDecayTicks : m'.cacheDecayTicks = m.cacheDecayTicks
  jiffies : m'.jiffies = m.jiffies
  field : ∀ q, ((m'.tasks q).sleepTimestamp, (m'.tasks q).cpusAllowed) =
    ((m.tasks q).sleepTimestamp, (m.tasks q).cpusAllowed)
  self : (m'.tasks p).core = (m.tasks p).core.free
  rest : ∀ q ≠ p, (m'.tasks q).core = (m.tasks q).core
  queue : (m'.view c).queue a i = ((m.view c).queue a i).erase p

/-- A task leaves a list of the runqueue of CPU `c`. -/
theorem Smp.Consistent.leave (h : m.Consistent) (hp : p ∈ (m.view c).queue a i) :
    ∃ k, dequeueTask p a (m.view c) = some k ∧ Unqueued c p a i m
      (m.store c (k.modRq fun rq => { rq with nrRunning := rq.nrRunning - 1 })) := by
  have hd := (h.shape c).dequeueTask_eq hp
  have hs := ((h.shape c).unlink hp).modRq_nrRunning
    (g := fun rq => { rq with nrRunning := rq.nrRunning - 1 }) (-1) rfl rfl rfl
  rw [add_assoc, add_neg_cancel, add_zero] at hs
  have ho := (dequeueTask_only hd).2
  have hsame := (Same.refl (fun t : TaskStruct => (t.sleepTimestamp, t.cpusAllowed))
    (m.view c)).dequeue migration_offQueue.lists hd
  have hr := h.mem_iff.mp hp
  refine ⟨_, hd, ?_, ?_, ?_, rfl, rfl, hsame.field, ho.self, fun q hq => ho.rest hq, ?_⟩
  · exact h.store (ho.quiet (modRq_quiet rfl rfl rfl)) hs (by simp [hr]) (by simp [Core.free])
  · exact store_field Runqueue.ptrs ho.ptrs
  · exact store_field Runqueue.curr ho.curr
  · rw [store_view_self]
    change (Kernel.unlink _ p a i).queue a i = _
    rw [unlink_queue, if_pos rfl, Function.update_self]

/-- A task that is on no list joins the active array of CPU `c`. -/
theorem Smp.Consistent.join (h : m.Consistent) (hl : (m.tasks p).runList = none)
    (hp : 0 ≤ (m.tasks p).prio ∧ (m.tasks p).prio < 140) :
    ∃ k, enqueueTask p (m.rqs c).active
      (((m.view c).mod p fun t => { t with cpu := c }).modRq fun rq =>
        { rq with nrRunning := rq.nrRunning + 1 }) = some k ∧ Shape k 0 ∧
      Only p ((m.tasks p).core.on (m.rqs c).ptrs (m.rqs c).active (m.tasks p).core.prio)
        (m.view c) k := by
  have hs : Shape ((m.view c).mod p fun t => { t with cpu := c }) 0 :=
    (h.shape c).mod_same _ fun _ => ⟨rfl, rfl, rfl⟩
  have hs1 := hs.modRq_nrRunning (g := fun rq => { rq with nrRunning := rq.nrRunning + 1 }) 1
    rfl rfl rfl
  have hq : Quiet (m.view c) (((m.view c).mod p fun t => { t with cpu := c }).modRq fun rq =>
      { rq with nrRunning := rq.nrRunning + 1 }) :=
    (mod_quiet (f := fun t => { t with cpu := c }) fun _ => rfl).trans (modRq_quiet rfl rfl rfl)
  generalize (((m.view c).mod p fun t => { t with cpu := c }).modRq fun rq =>
    { rq with nrRunning := rq.nrRunning + 1 }) = k at hs1 hq ⊢
  have hcore : k.core p = (m.tasks p).core := congrFun hq.core p
  have he : enqueueTask p (m.rqs c).active k = some (k.link p (m.rqs c).active) :=
    enqueueTask_eq_some.mpr ⟨(congrArg Core.runList hcore).trans hl, rfl⟩
  have hprio : (k.tasks p).prio = (m.tasks p).prio := congrArg Core.prio hcore
  have hs2 := hs1.enqueueTask (by rwa [hprio]) he
  rw [zero_add, sub_self] at hs2
  have ho := hq.only (enqueueTask_only he).2
  rw [hcore, hq.ptrs] at ho
  exact ⟨_, he, hs2, ho⟩

/-- When a task that may be moved has left its runqueue and joined this one, it is pulled; whether
the running task is asked to reschedule makes no difference. -/
theorem Unqueued.pulled {n : Kernel} (h : Unqueued busiest p a i m m') (hm : m.Consistent)
    (hp : p ∈ (m.view busiest).queue a i)
    (ha : a = (m.rqs busiest).active ∨ a = (m.rqs busiest).expired)
    (hmig : canMigrate m busiest thisCpu p) (hs : Shape n 0)
    (ho : Only p ((m'.tasks p).core.on (m'.rqs thisCpu).ptrs (m'.rqs thisCpu).active
      (m'.tasks p).core.prio) (m'.view thisCpu) n)
    (hsame : Same (fun t : TaskStruct => (t.sleepTimestamp, t.cpusAllowed))
      (m'.view thisCpu) n) : Pulled busiest thisCpu [p] m (m'.store thisCpu n) ∧
        (busiest ≠ thisCpu → ((m'.store thisCpu n).view busiest).queue a i =
          ((m.view busiest).queue a i).erase p) := by
  have hfree : (m'.tasks p).runList = none := congrArg Core.runList h.self
  have hcore : (m'.tasks p).core.on (m'.rqs thisCpu).ptrs (m'.rqs thisCpu).active
      (m'.tasks p).core.prio = (m.tasks p).core.on (m.rqs thisCpu).ptrs (m.rqs thisCpu).active
        (m.tasks p).core.prio := by
    rw [h.self, h.ptrs, show (m'.rqs thisCpu).active = (m.rqs thisCpu).active from
      congrArg Ptrs.active (h.ptrs thisCpu)]
    rfl
  rw [hcore] at ho
  refine ⟨⟨?_, fun c => ?_, fun c => ?_, h.cacheDecayTicks, h.jiffies, fun q => ?_, fun q => ?_,
    ?_, ?_⟩, ?_⟩
  · refine h.consistent.store ho hs (fun l hr => ?_) fun l hr => ?_
    · rw [hfree] at hr
      cases hr
    · cases hr
      exact hm.cpu thisCpu
  · rw [store_field Runqueue.ptrs ho.ptrs, h.ptrs]
  · rw [store_field Runqueue.curr ho.curr, h.curr]
  · exact (hsame.field q).trans (h.field q)
  · by_cases hq : q = p
    · subst hq
      rw [if_pos List.mem_cons_self]
      exact ho.self
    · rw [if_neg fun hmem => hq (List.mem_singleton.mp hmem)]
      exact (ho.rest hq).trans (h.rest q hq)
  · intro q hq
    rw [List.mem_singleton.mp hq]
    exact ⟨hmig, a, i, hp, ha⟩
  · exact fun _ => List.nodup_singleton p
  · intro hne
    rw [store_view_ne hne]
    exact h.queue

/-- Pulling a task that may be moved. -/
theorem pullTask_pulled (hm : m.Consistent) (hp : p ∈ (m.view busiest).queue a i)
    (ha : a = (m.rqs busiest).active ∨ a = (m.rqs busiest).expired)
    (hmig : canMigrate m busiest thisCpu p) :
    ∃ m', pullTask busiest thisCpu a p m = some m' ∧ Pulled busiest thisCpu [p] m m' ∧
      (busiest ≠ thisCpu →
        (m'.view busiest).queue a i = ((m.view busiest).queue a i).erase p) := by
  obtain ⟨k, hd, h1⟩ := hm.leave hp
  simp only [pullTask, hd, Option.bind_eq_bind, Option.bind_some, Option.pure_def]
  generalize (m.store busiest (k.modRq fun rq => { rq with nrRunning := rq.nrRunning - 1 })) = m1
    at h1 ⊢
  have hfree : (m1.tasks p).runList = none := congrArg Core.runList h1.self
  have hprio : (m1.tasks p).prio = i :=
    (congrArg Core.prio h1.self).trans ((hm.shape busiest).of_mem hp).2
  obtain ⟨n, he, hs, ho⟩ := h1.consistent.join (c := thisCpu) hfree
    (by rw [hprio]; exact (hm.shape busiest).prio_range hp)
  have hsame := (((Same.refl (fun t : TaskStruct => (t.sleepTimestamp, t.cpusAllowed))
    (m1.view thisCpu)).mod (p := p) (f := fun t => { t with cpu := thisCpu }) fun _ => rfl).of_tasks
      (n := ((m1.view thisCpu).mod p fun t => { t with cpu := thisCpu }).modRq fun rq =>
        { rq with nrRunning := rq.nrRunning + 1 }) rfl rfl).enqueue migration_offQueue.lists he
  refine ⟨_, Option.bind_eq_some_iff.mpr ⟨n, he, rfl⟩, ?_⟩
  split_ifs
  · exact h1.pulled hm hp ha hmig (hs.reschedTask _) (ho.quiet (reschedTask_quiet _))
      (hsame.mod fun _ => by rfl)
  · exact h1.pulled hm hp ha hmig hs ho hsame

/-- How many tasks a part of the search moved: one at most when the CPU is idle, and else as
many as the imbalance went down. -/
structure Quota (idle : Bool) (imbalance : ℤ) (r : Pull) (n : ℕ) : Prop where
  whenIdle : idle = true → n = if r.finished then 1 else 0
  whenBusy : idle = false → 1 ≤ imbalance →
    if r.finished then (n : ℤ) = imbalance else n + r.imbalance = imbalance ∧ 1 ≤ r.imbalance

theorem Quota.of_nothing (idle : Bool) (imbalance : ℤ) (m : Smp) :
    Quota idle imbalance ⟨false, imbalance, m⟩ 0 :=
  ⟨fun _ => rfl, fun _ h => ⟨zero_add imbalance, h⟩⟩

/-- The search goes on after a part that did not end it. -/
theorem Quota.trans {r r' : Pull} {n n' : ℕ} (h : Quota idle imbalance r n)
    (hr : r.finished = false) (h' : Quota idle r.imbalance r' n') :
    Quota idle imbalance r' (n + n') where
  whenIdle hi := by
    have h1 := h.whenIdle hi
    rw [hr] at h1
    rw [h1, ← h'.whenIdle hi]
    exact zero_add n'
  whenBusy hi hb := by
    have h1 := h.whenBusy hi hb
    rw [hr] at h1
    have h2 := h'.whenBusy hi h1.2
    have h3 := h1.1
    split_ifs at h2 ⊢
    · push_cast
      omega
    · push_cast
      exact ⟨by omega, h2.2⟩

theorem Quota.length_le {r : Pull} {n : ℕ} (h : Quota idle imbalance r n) :
    (idle = true → n ≤ 1) ∧ (idle = false → 1 ≤ imbalance → n ≤ imbalance) := by
  constructor
  · intro hi
    rw [h.whenIdle hi]
    split_ifs <;> omega
  · intro hi hb
    have h1 := h.whenBusy hi hb
    split_ifs at h1 <;> omega

theorem Quota.congr {r : Pull} {n n' : ℕ} (h : Quota idle imbalance r n) (hn : n = n') :
    Quota idle imbalance r n' := hn ▸ h

/-- Scanning a queue pulls some of its tasks. -/
theorem pullQueue_pulled (idle : Bool) (thisCpu : ℕ) (hn : ps.Nodup) (imbalance : ℤ) :
    ∀ {m : Smp}, m.Consistent → (∀ p ∈ ps, (m.tasks p).runList = some ⟨busiest, a, i⟩) →
      a = (m.rqs busiest).active ∨ a = (m.rqs busiest).expired →
      ∃ r moved, pullQueue idle busiest thisCpu a ps imbalance m = some r ∧
        Pulled busiest thisCpu moved m r.smp ∧ Quota idle imbalance r moved.length := by
  induction ps generalizing imbalance with
  | nil => exact fun hm _ _ => ⟨_, [], rfl, .refl _ _ hm, .of_nothing idle imbalance _⟩
  | cons p ps ih =>
    intro m hm hps ha
    rw [List.nodup_cons] at hn
    by_cases hc : canMigrate m busiest thisCpu p
    · obtain ⟨m1, h1, hp1, -⟩ := pullTask_pulled hm
        (hm.mem_iff.mpr (hps p List.mem_cons_self)) ha hc
      simp only [pullQueue, if_pos hc, h1, Option.bind_eq_bind, Option.bind_some, Option.pure_def]
      split_ifs with hgo
      · have ha1 : a = (m1.rqs busiest).active ∨ a = (m1.rqs busiest).expired := by
          rwa [hp1.active_eq, hp1.expired_eq]
        have hps1 : ∀ q ∈ ps, (m1.tasks q).runList = some ⟨busiest, a, i⟩ := by
          intro q hq
          have hne : q ∉ [p] := fun hmem => hn.1 (List.mem_singleton.mp hmem ▸ hq)
          exact (congrArg Core.runList (hp1.rest hne)).trans (hps q (List.mem_cons_of_mem _ hq))
        obtain ⟨r, moved, hr, hp, hquota⟩ := ih hn.2 (imbalance - 1) hp1.consistent hps1 ha1
        refine ⟨r, [p] ++ moved, hr, hp1.trans hp hm, ?_⟩
        refine (Quota.trans (r := ⟨false, imbalance - 1, m1⟩) (n := 1) ?_ rfl hquota).congr ?_
        · refine ⟨fun hi => ?_, fun _ hb => ?_⟩
          · rw [hgo.1] at hi
            cases hi
          · have hne := hgo.2
            change ((1 : ℕ) : ℤ) + (imbalance - 1) = imbalance ∧ 1 ≤ imbalance - 1
            omega
        · rw [List.length_append, List.length_singleton]
      · refine ⟨_, [p], rfl, hp1, fun _ => rfl, fun hi hb => ?_⟩
        have h1 : imbalance - 1 = 0 := by
          by_contra hne
          exact hgo ⟨hi, hne⟩
        simp only [if_true, List.length_singleton]
        push_cast
        omega
    · simp only [pullQueue, if_neg hc]
      exact ih hn.2 imbalance hm (fun q hq => hps q (List.mem_cons_of_mem _ hq)) ha

theorem pullArray_pulled (idle : Bool) (busiest thisCpu : ℕ) {n : ℕ} (hn : n ≤ 140)
    (imbalance : ℤ) :
    ∀ {m : Smp}, m.Consistent → a = (m.rqs busiest).active ∨ a = (m.rqs busiest).expired →
      ∃ r moved, pullArray idle busiest thisCpu a n imbalance m = some r ∧
        Pulled busiest thisCpu moved m r.smp ∧ Quota idle imbalance r moved.length := by
  induction n generalizing imbalance with
  | zero => exact fun hm _ => ⟨_, [], rfl, .refl _ _ hm, .of_nothing idle imbalance _⟩
  | succ n ih =>
    intro m hm ha
    by_cases hb : ((m.rqs busiest).arrays a).bitmap (139 - n) = true
    · -- a set bit has an occupied queue
      have he : (m.view busiest).queue a (139 - n) ≠ [] :=
        (((hm.shape busiest).arrays a).marked _ (by simp; omega)).mp hb
      have hnodup := (hm.shape busiest).located.nodup ⟨(m.rqs busiest).cpu, a, 139 - n⟩ rfl
      obtain ⟨r, moved, hr, hp, hquota⟩ := pullQueue_pulled idle thisCpu
        (List.nodup_reverse.mpr hnodup) imbalance hm
        (fun p hp => hm.mem_iff.mp (List.mem_reverse.mp hp)) ha
      simp only [pullArray, if_pos hb, if_neg he, Option.bind_eq_bind, Option.pure_def]
      rw [show pullQueue _ _ _ _ _ _ _ = some r from hr, Option.bind_some]
      split_ifs with hf
      · exact ⟨r, moved, rfl, hp, hquota⟩
      · obtain ⟨r', moved', hr', hp', hquota'⟩ := ih (by omega) r.imbalance hp.consistent
          (by rwa [hp.active_eq, hp.expired_eq])
        refine ⟨r', moved ++ moved', hr', hp.trans hp' hm, ?_⟩
        exact (hquota.trans (Bool.not_eq_true _ ▸ hf) hquota').congr List.length_append.symm
    · simp only [pullArray, if_neg hb]
      exact ih (by omega) imbalance hm ha

/-- The search goes through whichever runqueue it is told to take tasks from. -/
theorem pullTasks_pulled (idle : Bool) (busiest thisCpu : ℕ) (nrRunning imbalance : ℤ)
    (hm : m.Consistent) :
    ∃ m' moved, pullTasks idle busiest thisCpu nrRunning imbalance m = some m' ∧
      Pulled busiest thisCpu moved m m' ∧
      ((m.rqs busiest).nrRunning ≤ nrRunning + 1 → moved = []) ∧
      (idle = true → moved.length ≤ 1) ∧
      (idle = false → 1 ≤ imbalance → moved.length ≤ imbalance) := by
  unfold pullTasks
  by_cases h1 : (m.rqs busiest).nrRunning ≤ nrRunning + 1
  · exact ⟨m, [], if_pos h1, .refl _ _ hm, fun _ => rfl, fun _ => Nat.zero_le _,
      fun _ hb => le_trans (by simp) hb⟩
  rw [if_neg h1]
  by_cases h2 : ((m.rqs busiest).arrays (m.rqs busiest).expired).nrActive ≠ 0
  · obtain ⟨r, moved, hr, hp, hquota⟩ := pullArray_pulled idle busiest thisCpu le_rfl
      imbalance hm (Or.inr rfl)
    simp only [if_pos h2, Option.bind_eq_bind, hr, Option.bind_some, Option.pure_def]
    split_ifs with hf
    · exact ⟨_, moved, rfl, hp, fun h => absurd h h1, hquota.length_le⟩
    · obtain ⟨r', moved', hr', hp', hquota'⟩ := pullArray_pulled idle busiest thisCpu
        le_rfl r.imbalance hp.consistent (Or.inl rfl)
      rw [hr', Option.bind_some]
      have hall := (hquota.trans (Bool.not_eq_true _ ▸ hf) hquota').congr
        (List.length_append : (moved ++ moved').length = _).symm
      exact ⟨_, _, rfl, hp.trans hp' hm, fun h => absurd h h1, hall.length_le⟩
  · obtain ⟨r, moved, hr, hp, hquota⟩ := pullArray_pulled idle busiest thisCpu le_rfl
      imbalance hm (Or.inl rfl)
    simp only [if_neg h2, Option.bind_eq_bind, hr, Option.bind_some, Option.pure_def]
    exact ⟨_, moved, rfl, hp, fun h => absurd h h1, hquota.length_le⟩

theorem pullTasks_separated (idle : Bool) (nrRunning imbalance : ℤ) (hm : m.Separated) :
    ∃ m', pullTasks idle busiest thisCpu nrRunning imbalance m = some m' ∧ m'.Separated := by
  obtain ⟨m', moved, h, hp, -⟩ := pullTasks_pulled idle busiest thisCpu nrRunning imbalance
    hm.consistent
  exact ⟨m', h, hp.separated hm⟩

/-- The lengths that `load_balance` remembers are no concern of the queues. -/
theorem Pulled.remember (busiest thisCpu : ℕ) (idle : Bool) (hm : m.Consistent) :
    Pulled busiest thisCpu [] m (m.remember thisCpu idle) :=
  { Pulled.refl busiest thisCpu hm with
    consistent := hm.store_quiet (modRq_quiet rfl rfl rfl)
      ((hm.shape thisCpu).of_core rfl rfl rfl rfl)
    ptrs := store_field Runqueue.ptrs rfl
    curr := store_field Runqueue.curr rfl }

theorem loadBalance_eq (thisCpu : ℕ) (idle : Bool) (m : Smp) : loadBalance thisCpu idle m =
    match (findBusiest m thisCpu idle).busiest with
    | none => some (m.remember thisCpu idle)
    | some busiest =>
        if idle = false ∧ m.imbalance thisCpu idle <
            ((findBusiest m thisCpu idle).maxLoad + 3).tdiv 4 then
          some (m.remember thisCpu idle)
        else pullTasks idle busiest thisCpu (m.ownLoad thisCpu idle) (m.imbalance thisCpu idle)
          (m.remember thisCpu idle) := rfl

/-- `load_balance` always goes through and keeps every CPU's runqueue separated. -/
theorem loadBalance_total (idle : Bool) (hm : m.Separated) :
    ∃ m', loadBalance thisCpu idle m = some m' ∧ m'.Separated := by
  have h1 : (m.remember thisCpu idle).Separated :=
    (Pulled.remember 0 thisCpu idle hm.consistent).separated hm
  rw [loadBalance_eq]
  split
  · exact ⟨_, rfl, h1⟩
  · split_ifs
    · exact ⟨_, rfl, h1⟩
    · exact pullTasks_separated idle _ _ h1

/-- One CPU runs `k`, the others have nothing to do. -/
def Kernel.smp (k : Kernel) (smpNumCpus : ℕ) : Smp where
  tasks := k.tasks
  rqs c := if c = k.rq.cpu then k.rq else initRunqueue c k.rq.idle
  jiffies := k.jiffies
  pidhash := k.pidhash
  smpNumCpus := smpNumCpus
  cpuLogicalMap c := c
  cacheDecayTicks := 0

/-- A CPU with nothing to do. -/
theorem Shape.nothing (h : Shape k d) (hl : ∀ p, ∀ l ∈ (k.tasks p).runList, l.cpu = k.rq.cpu)
    (hc : c ≠ k.rq.cpu) : Shape { k with rq := initRunqueue c p } 0 where
  located := by
    refine ⟨fun q l hlc => ⟨fun hm => absurd hm List.not_mem_nil, fun hr => ?_⟩,
      fun _ _ => List.nodup_nil⟩
    exact absurd (hlc.symm.trans (hl q l hr)) hc
  home := h.home
  arrays _ := emptyArray_ok
  running := by simp [initRunqueue, emptyArray]

theorem Sound.smp (h : Sound k) (n : ℕ) : (k.smp n).Separated := by
  have hrq : (k.smp n).rqs k.rq.cpu = k.rq := if_pos rfl
  have hview : (k.smp n).view k.rq.cpu = k := by simp only [Smp.view, hrq]; rfl
  have hempty : ∀ c, c ≠ k.rq.cpu → (k.smp n).rqs c = initRunqueue c k.rq.idle := fun c hc =>
    if_neg hc
  have hvempty : ∀ c, c ≠ k.rq.cpu →
      (k.smp n).view c = { k with rq := initRunqueue c k.rq.idle } := fun c hc => by
    simp only [Smp.view, hempty c hc]
    rfl
  refine ⟨fun c => ?_, fun c => ?_, fun c => ?_, fun c p a i hm => ?_⟩
  all_goals by_cases hc : c = k.rq.cpu
  · subst hc
    rw [hrq]
  · rw [hempty c hc]
    rfl
  · subst hc
    rw [hrq]
    exact h.distinct
  · rw [hempty c hc]
    exact show ([0, 1, 2, 3] : List ArrayIdx).Nodup by decide
  · subst hc
    rw [hview]
    exact h.shape
  · rw [hvempty c hc]
    exact h.shape.nothing h.here hc
  · subst hc
    rw [hview] at hm
    rw [hrq]
    exact h.belongs hm
  · rw [hvempty c hc] at hm
    exact absurd hm List.not_mem_nil

end

/-- From any consistent state in which the classes are separated, every operation leads to
such a state, and so does balancing the load between CPUs, also when the search for the
busiest one is out of date. The operations reach a state when besides the array pointers are
NULL off the queues and the running task is queued, and nothing stops at `BUG()` or at a bad
user pointer; balancing always does. -/
theorem classes_stay_separated (HZ : ℕ) :
    (∀ k op k', Sound k → Enabled k op → exec HZ op k = some k' →
      Sound k' ∧ ClassesSeparated k') ∧
    (∀ k op, Alive k → Enabled k op → Survives k op →
      ∃ k', exec HZ op k = some k' ∧ Sound k' ∧ ClassesSeparated k') ∧
    (∀ (m : Smp) thisCpu idle, m.Separated →
      ∃ m', loadBalance thisCpu idle m = some m' ∧ m'.Separated) ∧
    ∀ (m : Smp) idle busiest thisCpu nrRunning imbalance, m.Separated →
      ∃ m', pullTasks idle busiest thisCpu nrRunning imbalance m = some m' ∧ m'.Separated := by
  refine ⟨?_, ?_, ?_, ?_⟩
  · intro k op k' hk he h
    exact ⟨hk.exec he h, (hk.exec he h).separated⟩
  · intro k op hk he hs
    obtain ⟨k', h⟩ := hk.exec_total he hs
    have hsound : Sound k' := hk.toSound.exec he h
    exact ⟨k', h, hsound, hsound.separated⟩
  · intro m thisCpu idle hm
    exact loadBalance_total idle hm
  · intro m idle busiest thisCpu nrRunning imbalance hm
    exact pullTasks_separated idle nrRunning imbalance hm

/-- Task 1 forks a child, which an idle CPU can take over a tick later. -/
def busyCpu : List Op := startTask ++ [.doFork 2 2 false false, .advance 1]

theorem classes_stay_separated_busyCpu : ∃ k ∈ runFromBoot 512 busyCpu,
    (∃ k' ∈ exec 512 .sysSchedYield k, ClassesSeparated k') ∧
      ∃ m' ∈ loadBalance 1 true (k.smp 2), (m'.tasks 2).cpu = 1 ∧ m'.Separated := by
  obtain ⟨k, hk, he, hs, hb⟩ : ∃ k ∈ runFromBoot 512 busyCpu,
      Enabled k .sysSchedYield ∧ Survives k .sysSchedYield ∧
        ∃ m' ∈ loadBalance 1 true (k.smp 2), (m'.tasks 2).cpu = 1 := by
    decide +kernel
  obtain ⟨m', hm', hcpu⟩ := hb
  have halive := runFromBoot_alive (by decide +kernel) hk
  have h := classes_stay_separated 512
  obtain ⟨k', hk', -, hsep⟩ := h.2.1 k .sysSchedYield halive he hs
  obtain ⟨n, hn, hs⟩ := h.2.2.1 (k.smp 2) 1 true (halive.toSound.smp 2)
  obtain rfl : m' = n := Option.some.inj (hm'.symm.trans hn)
  exact ⟨k, hk, ⟨k', hk', hsep⟩, m', hm', hcpu, hs⟩

end ShortSched
