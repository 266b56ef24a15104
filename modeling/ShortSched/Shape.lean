import ShortSched.Queue

/-! The consistency of lists, bitmaps and counters, and what `enqueue_task`,
`dequeue_task`, `activate_task` and `deactivate_task` do to it. -/
namespace ShortSched
open Buckets

/-- The priorities that have a queue. -/
noncomputable abbrev prios : Finset ℤ := Finset.Ico 0 140

/-- Bitmap, queues and counter of one array agree. -/
structure ArrayOk (q : PrioArray) : Prop where
  marked : Marked prios q.bitmap q.queue
  delimiter : q.bitmap 140 = true
  counted : q.nrActive = total prios q.queue
  outside : ∀ i ∉ prios, q.queue i = []

/-- One more task on queue `i`, placed there by `f`. -/
def PrioArray.put (i : ℤ) (f : List TaskId → List TaskId) (q : PrioArray) : PrioArray where
  nrActive := q.nrActive + 1
  bitmap := Function.update q.bitmap i true
  queue := Function.update q.queue i (f (q.queue i))

/-- One task less on queue `i`. -/
def PrioArray.pull (x : TaskId) (i : ℤ) (q : PrioArray) : PrioArray where
  nrActive := q.nrActive - 1
  bitmap := if (q.queue i).erase x = [] then Function.update q.bitmap i false else q.bitmap
  queue := Function.update q.queue i ((q.queue i).erase x)

section arrays
variable {q : PrioArray} {x : TaskId} {i : ℤ}

theorem ArrayOk.put (h : ArrayOk q) (hi : i ∈ prios) {f : List TaskId → List TaskId}
    (hf : (f (q.queue i)).Perm (x :: q.queue i)) : ArrayOk (q.put i f) where
  marked := h.marked.set fun he => by simpa [he] using hf.length_eq
  delimiter := by
    have hne : (140 : ℤ) ≠ i := by simp at hi; omega
    simpa [PrioArray.put, hne] using h.delimiter
  counted := by
    have ht := total_update (q := q.queue) hi (f (q.queue i))
    have hl := hf.length_eq
    have hc := h.counted
    simp only [List.length_cons] at hl
    simp only [PrioArray.put]
    omega
  outside j hj := by
    have hne : j ≠ i := fun he => hj (he ▸ hi)
    simpa [PrioArray.put, hne] using h.outside j hj

theorem ArrayOk.pull (h : ArrayOk q) (hx : x ∈ q.queue i) : ArrayOk (q.pull x i) where
  marked := h.marked.shrink fun _ => List.ne_nil_of_mem hx
  delimiter := by
    have hi : i ∈ prios := by
      by_contra hi
      simp [h.outside i hi] at hx
    have hne : (140 : ℤ) ≠ i := by simp at hi; omega
    simp only [PrioArray.pull]
    split
    · simpa [hne] using h.delimiter
    · exact h.delimiter
  counted := by
    have hi : i ∈ prios := by
      by_contra hi
      simp [h.outside i hi] at hx
    have ht := total_update (q := q.queue) hi ((q.queue i).erase x)
    have hl := List.length_erase_of_mem hx
    have hp := List.length_pos_of_mem hx
    have hc := h.counted
    simp only [PrioArray.pull]
    omega
  outside j hj := by
    simp only [PrioArray.pull]
    by_cases hji : j = i
    · subst hji; simp [h.outside j hj]
    · simpa [hji] using h.outside j hj

theorem ArrayOk.mem_range (h : ArrayOk q) (hx : x ∈ q.queue i) : 0 ≤ i ∧ i < 140 := by
  by_contra hi
  rw [h.outside i (by simpa using hi)] at hx
  exact List.not_mem_nil hx

theorem ArrayOk.nrActive_nonneg (h : ArrayOk q) : 0 ≤ q.nrActive := by
  rw [h.counted]; exact Int.natCast_nonneg _

theorem ArrayOk.nrActive_pos_iff (h : ArrayOk q) : 0 < q.nrActive ↔ ∃ x i, x ∈ q.queue i := by
  rw [h.counted, Int.natCast_pos, total_pos_iff]
  constructor
  · rintro ⟨i, -, hi⟩
    obtain ⟨x, hx⟩ := List.exists_mem_of_ne_nil _ hi
    exact ⟨x, i, hx⟩
  · rintro ⟨x, i, hx⟩
    exact ⟨i, by simpa using h.mem_range hx, List.ne_nil_of_mem hx⟩

/-- In a consistent array the first set bit is the least occupied queue. -/
theorem ArrayOk.first_le (h : ArrayOk q) (hx : x ∈ q.queue i) :
    schedFindFirstBit q.bitmap ≤ i := by
  have hi := h.mem_range hx
  exact nextMark_le hi.1
    ((h.marked i (by simpa using hi)).mpr (List.ne_nil_of_mem hx))

theorem ArrayOk.first_occupied (h : ArrayOk q) (ha : 0 < q.nrActive) :
    0 ≤ schedFindFirstBit q.bitmap ∧ schedFindFirstBit q.bitmap < 140 ∧
      q.queue (schedFindFirstBit q.bitmap) ≠ [] := by
  obtain ⟨x, i, hx⟩ := h.nrActive_pos_iff.mp ha
  have hle := h.first_le hx
  have hi := h.mem_range hx
  have hb := (nextMark_bounds (b := q.bitmap) (i := 0) (n := 140)).1
  have hm : q.bitmap (schedFindFirstBit q.bitmap) = true :=
    nextMark_marked (by unfold schedFindFirstBit at hle; push_cast; omega)
  have hlt : schedFindFirstBit q.bitmap < 140 := by omega
  exact ⟨hb, hlt, (h.marked _ (by simpa using ⟨hb, hlt⟩)).mp hm⟩

end arrays

/-- Lists, bitmaps and counters of the runqueue agree; `d` is what `nr_running` counts
beyond the linked tasks while a task is between two queues. -/
structure Shape (k : Kernel) (d : ℤ) : Prop where
  located : Located {h : ListHead | h.cpu = k.rq.cpu} (fun p => (k.tasks p).runList)
    (fun h => k.queue h.array h.prio)
  home : ∀ p h, (k.tasks p).runList = some h →
    (k.tasks p).array = some h.array ∧ (k.tasks p).prio = h.prio
  arrays : ∀ a, ArrayOk (k.rq.arrays a)
  running : k.rq.nrRunning = (∑ a, (k.rq.arrays a).nrActive) + d

section shape
variable {k k' : Kernel} {p q : TaskId} {a : ArrayIdx} {i d : ℤ}

theorem Shape.mem_iff (h : Shape k d) :
    p ∈ k.queue a i ↔ (k.tasks p).runList = some ⟨k.rq.cpu, a, i⟩ :=
  h.located.mem_iff p ⟨k.rq.cpu, a, i⟩ rfl

/-- A linked task is on the queue of its priority in the array it points to. -/
theorem Shape.of_mem (h : Shape k d) (hp : p ∈ k.queue a i) :
    (k.tasks p).array = some a ∧ (k.tasks p).prio = i :=
  h.home p _ (h.mem_iff.mp hp)

theorem Shape.linked_iff (h : Shape k d) :
    k.Linked p ↔ ∃ a i, (k.tasks p).runList = some ⟨k.rq.cpu, a, i⟩ := by
  simp only [Kernel.Linked, h.mem_iff]

theorem Shape.free_of_array_none (h : Shape k d) (hp : (k.tasks p).array = none) :
    (k.tasks p).runList = none := by
  cases hr : (k.tasks p).runList with
  | none => rfl
  | some l => simp [(h.home p l hr).1] at hp

theorem Shape.prio_range (h : Shape k d) (hp : p ∈ k.queue a i) : 0 ≤ i ∧ i < 140 :=
  (h.arrays a).mem_range hp

/-- States that differ in nothing that concerns the queues. -/
theorem Shape.congr (h : Shape k d) (hcpu : k'.rq.cpu = k.rq.cpu)
    (hrq : k'.rq.arrays = k.rq.arrays) (hrun : k'.rq.nrRunning = k.rq.nrRunning)
    (hlist : ∀ p, (k'.tasks p).runList = (k.tasks p).runList)
    (harr : ∀ p, (k.tasks p).runList ≠ none → (k'.tasks p).array = (k.tasks p).array)
    (hprio : ∀ p, (k.tasks p).runList ≠ none → (k'.tasks p).prio = (k.tasks p).prio) :
    Shape k' d where
  located := by
    rw [hcpu]
    exact h.located.congr hlist fun l _ => by simp only [Kernel.queue, hrq]
  home q l hl := by
    rw [hlist] at hl
    have hne : (k.tasks q).runList ≠ none := by simp [hl]
    rw [harr q hne, hprio q hne]
    exact h.home q l hl
  arrays a := by rw [hrq]; exact h.arrays a
  running := by rw [hrun, hrq]; exact h.running

end shape

/-! Each primitive as a function of the state before it. -/

/-- `dequeue_task` of a task that is linked on queue `i` of array `a`. -/
def Kernel.unlink (k : Kernel) (p : TaskId) (a : ArrayIdx) (i : ℤ) : Kernel :=
  (k.modArray a (PrioArray.pull p i)).mod p fun t => { t with runList := none }

/-- A task that is on no list goes to queue `i` of array `a`; `f` places it there. -/
def Kernel.place (k : Kernel) (p : TaskId) (a : ArrayIdx) (i : ℤ)
    (f : List TaskId → List TaskId) : Kernel :=
  (k.modArray a (PrioArray.put i f)).mod p fun t =>
    { t with runList := some ⟨k.rq.cpu, a, i⟩, array := some a, prio := i }

/-- `enqueue_task` of a task that is on no list. -/
def Kernel.link (k : Kernel) (p : TaskId) (a : ArrayIdx) : Kernel :=
  k.place p a (k.tasks p).prio (· ++ [p])

section primitives
variable {k k' : Kernel} {p q : TaskId} {a b : ArrayIdx} {i d : ℤ} {HZ : ℕ}

theorem listDel_eq_some : listDel p k = some k' ↔
    ∃ h, (k.tasks p).runList = some h ∧ h.cpu = k.rq.cpu ∧
      k' = (k.modQueue h.array h.prio (·.erase p)).mod p fun t => { t with runList := none } := by
  unfold listDel
  cases hr : (k.tasks p).runList with
  | none => simp
  | some h =>
    simp only [Option.some.injEq, exists_eq_left']
    split_ifs with hc <;> simp [hc, eq_comm]

theorem listAdd_eq_some {f : List TaskId → List TaskId} : listAdd p a i f k = some k' ↔
    (k.tasks p).runList = none ∧
      k' = (k.modQueue a i f).mod p fun t => { t with runList := some ⟨k.rq.cpu, a, i⟩ } := by
  unfold listAdd
  split_ifs with h <;> simp [h, eq_comm]

theorem enqueueTask_eq_some :
    enqueueTask p a k = some k' ↔ (k.tasks p).runList = none ∧ k' = k.link p a := by
  simp only [enqueueTask, listAddTail, Option.bind_eq_bind, Option.bind_eq_some_iff,
    listAdd_eq_some, Option.pure_def, Option.some.injEq]
  constructor
  · rintro ⟨m, ⟨hfree, rfl⟩, rfl⟩
    refine ⟨hfree, ?_⟩
    simp [Kernel.link, Kernel.place, Kernel.mod, Kernel.modQueue, Kernel.modArray, Kernel.modRq,
      setBit, PrioArray.put]
  · rintro ⟨hfree, rfl⟩
    refine ⟨_, ⟨hfree, rfl⟩, ?_⟩
    simp [Kernel.link, Kernel.place, Kernel.mod, Kernel.modQueue, Kernel.modArray, Kernel.modRq,
      setBit, PrioArray.put]

theorem Shape.dequeueTask_eq (h : Shape k d) (hp : p ∈ k.queue a i) :
    dequeueTask p a k = some (k.unlink p a i) := by
  have hr := h.mem_iff.mp hp
  have hi := (h.of_mem hp).2
  have hd : listDel p (k.modArray a fun q => { q with nrActive := q.nrActive - 1 }) =
      some (((k.modArray a fun q => { q with nrActive := q.nrActive - 1 }).modQueue a i
        (·.erase p)).mod p fun t => { t with runList := none }) :=
    listDel_eq_some.mpr ⟨_, hr, rfl, rfl⟩
  simp only [dequeueTask, Option.bind_eq_bind, hd, Option.bind_some, Option.pure_def,
    Kernel.mod_tasks_self, Kernel.mod_queue, Kernel.modArray_tasks, hi,
    Kernel.modQueue, Kernel.modArray_mod, Kernel.modArray_modArray, Kernel.modArray_queue_self,
    Kernel.unlink]
  by_cases he : ((k.rq.arrays a).queue i).erase p = []
  · rw [if_pos (by simpa using he)]
    congr 2
    apply Kernel.modArray_congr
    simp [PrioArray.pull, clearBit, he]
  · rw [if_neg (by simpa using he)]
    congr 2
    apply Kernel.modArray_congr
    simp [PrioArray.pull, he]

/-- Dequeuing goes through only for a task that is linked on this runqueue. -/
theorem linked_of_dequeueTask (h : dequeueTask p a k = some k') :
    ∃ l, (k.tasks p).runList = some l ∧ l.cpu = k.rq.cpu := by
  simp only [dequeueTask, Option.bind_eq_bind, Option.bind_eq_some_iff, listDel_eq_some] at h
  obtain ⟨m, ⟨l, hl, hc, -⟩, -⟩ := h
  exact ⟨l, hl, hc⟩

/-- A task that can only hang on `a` leaves it when it is dequeued. -/
theorem Shape.of_dequeueTask (h : Shape k d) (ha : (k.tasks p).array = some a)
    (hd : dequeueTask p a k = some k') :
    p ∈ k.queue a (k.tasks p).prio ∧ k' = k.unlink p a (k.tasks p).prio := by
  obtain ⟨l, hl, hc⟩ := linked_of_dequeueTask hd
  have hh := h.home p l hl
  rw [ha] at hh
  have hp : p ∈ k.queue a (k.tasks p).prio := by
    rw [h.mem_iff, hl, hh.2, Option.some.inj hh.1, ← hc]
  rw [h.dequeueTask_eq hp] at hd
  exact ⟨hp, (Option.some.inj hd).symm⟩

@[simp] theorem unlink_tasks_self :
    (k.unlink p a i).tasks p = { k.tasks p with runList := none } := by simp [Kernel.unlink]
theorem unlink_tasks_ne (h : q ≠ p) : (k.unlink p a i).tasks q = k.tasks q :=
  Kernel.mod_tasks_ne h
@[simp] theorem place_tasks_self {f : List TaskId → List TaskId} : (k.place p a i f).tasks p =
    { k.tasks p with runList := some ⟨k.rq.cpu, a, i⟩, array := some a, prio := i } := by
  simp [Kernel.place]
theorem place_tasks_ne {f : List TaskId → List TaskId} (h : q ≠ p) :
    (k.place p a i f).tasks q = k.tasks q :=
  Kernel.mod_tasks_ne h

theorem unlink_arrays : (k.unlink p a i).rq.arrays =
    Function.update k.rq.arrays a ((k.rq.arrays a).pull p i) := rfl
theorem place_arrays {f : List TaskId → List TaskId} : (k.place p a i f).rq.arrays =
    Function.update k.rq.arrays a ((k.rq.arrays a).put i f) := rfl

theorem unlink_queue : (k.unlink p a i).queue b =
    if b = a then Function.update (k.queue a) i ((k.queue a i).erase p) else k.queue b := by
  unfold Kernel.queue
  by_cases hb : b = a
  · subst hb; simp [unlink_arrays, PrioArray.pull]
  · simp [unlink_arrays, hb]

theorem place_queue {f : List TaskId → List TaskId} : (k.place p a i f).queue b =
    if b = a then Function.update (k.queue a) i (f (k.queue a i)) else k.queue b := by
  unfold Kernel.queue
  by_cases hb : b = a
  · subst hb; simp [place_arrays, PrioArray.put]
  · simp [place_arrays, hb]

/-- The sum of the counters moves with the array that is replaced. -/
theorem sum_nrActive_update (arrays : ArrayIdx → PrioArray) (a : ArrayIdx) (q : PrioArray) :
    ∑ b, (Function.update arrays a q b).nrActive =
      (∑ b, (arrays b).nrActive) + (q.nrActive - (arrays a).nrActive) := by
  have h : ∀ b, (Function.update arrays a q b).nrActive =
      Function.update (fun b => (arrays b).nrActive) a q.nrActive b := by
    intro b
    by_cases hb : b = a
    · subst hb; simp
    · simp [hb]
  simp only [h]
  rw [Finset.sum_update_of_mem (Finset.mem_univ a),
    ← Finset.add_sum_erase _ (fun b => (arrays b).nrActive) (Finset.mem_univ a),
    Finset.sdiff_singleton_eq_erase]
  ring

theorem Shape.unlink (h : Shape k d) (hp : p ∈ k.queue a i) :
    Shape (k.unlink p a i) (d + 1) where
  located := by
    refine h.located.erase (h.mem_iff.mp hp) (fun _ => ?_) (fun l hl hne => ?_) (by simp)
      fun q hq => by rw [unlink_tasks_ne hq]
    · simp [unlink_queue]
    · simp only [unlink_queue]
      by_cases hla : l.array = a
      · have hlp : l.prio ≠ i := fun hlp => hne (by
          obtain ⟨c, b, j⟩ := l
          simp only [Set.mem_ofPred_eq] at hl
          subst hl hla hlp
          rfl)
        simp [hla, hlp]
      · simp [hla]
  home q l hl := by
    by_cases hq : q = p
    · subst hq; simp at hl
    · rw [unlink_tasks_ne hq] at hl ⊢
      exact h.home q l hl
  arrays b := by
    rw [unlink_arrays]
    by_cases hb : b = a
    · subst hb
      rw [Function.update_self]
      exact (h.arrays b).pull hp
    · simpa [hb] using h.arrays b
  running := by
    rw [unlink_arrays, sum_nrActive_update]
    have := h.running
    simp only [Kernel.unlink, Kernel.mod_rq, Kernel.modArray, Kernel.modRq_rq, PrioArray.pull]
    omega

theorem Shape.place (h : Shape k d) (hp : (k.tasks p).runList = none) (hi : 0 ≤ i ∧ i < 140)
    (a : ArrayIdx) {f : List TaskId → List TaskId}
    (hf : (f (k.queue a i)).Perm (p :: k.queue a i)) : Shape (k.place p a i f) (d - 1) where
  located := by
    refine h.located.insert hp (i := ⟨k.rq.cpu, a, i⟩) rfl ?_ (fun l hl hne => ?_)
      (by simp) fun q hq => by rw [place_tasks_ne hq]
    · simpa [place_queue] using hf
    · simp only [place_queue]
      by_cases hla : l.array = a
      · have hlp : l.prio ≠ i := fun hlp => hne (by
          obtain ⟨c, b, j⟩ := l
          simp only [Set.mem_ofPred_eq] at hl hla hlp
          subst hl hla hlp
          rfl)
        simp [hla, hlp]
      · simp [hla]
  home q l hl := by
    by_cases hq : q = p
    · subst hq
      simp only [place_tasks_self, Option.some.injEq] at hl ⊢
      exact ⟨by rw [← hl], by rw [← hl]⟩
    · rw [place_tasks_ne hq] at hl ⊢
      exact h.home q l hl
  arrays b := by
    rw [place_arrays]
    by_cases hb : b = a
    · subst hb
      rw [Function.update_self]
      exact (h.arrays b).put (x := p) (by simpa using hi) hf
    · simpa [hb] using h.arrays b
  running := by
    rw [place_arrays, sum_nrActive_update]
    have := h.running
    simp only [Kernel.place, Kernel.mod_rq, Kernel.modArray, Kernel.modRq_rq, PrioArray.put]
    omega

theorem Shape.link (h : Shape k d) (hp : (k.tasks p).runList = none)
    (hr : 0 ≤ (k.tasks p).prio ∧ (k.tasks p).prio < 140) (a : ArrayIdx) :
    Shape (k.link p a) (d - 1) :=
  h.place hp hr a (List.perm_append_singleton p _)

/-- `p` is no longer counted as running. -/
def Kernel.uncounted (k : Kernel) (p : TaskId) : Kernel :=
  k.modRq fun rq =>
    { rq with
      nrRunning := rq.nrRunning - 1
      nrUninterruptible := rq.nrUninterruptible +
        if (k.tasks p).state = .uninterruptible then 1 else 0 }

/-- `deactivate_task` of a task that is linked on queue `i` of array `a`. -/
def Kernel.deactivated (k : Kernel) (p : TaskId) (a : ArrayIdx) (i : ℤ) : Kernel :=
  ((k.uncounted p).unlink p a i).mod p fun t => { t with array := none }

/-- The task that `activate_task` enqueues: credited for its sleep unless real-time. -/
def credited (HZ : ℕ) (k : Kernel) (t : TaskStruct) : TaskStruct :=
  if ¬ rtTask t ∧ sleepTime k t ≠ 0 then creditSleep HZ (sleepTime k t) t else t

/-- `activate_task` of a task that is on no list. -/
def Kernel.activated (HZ : ℕ) (k : Kernel) (p : TaskId) : Kernel :=
  ((k.mod p (credited HZ k)).link p (activationArray k.rq (k.tasks p))).modRq fun rq =>
    { rq with nrRunning := rq.nrRunning + 1 }

theorem Shape.modRq_nrRunning (h : Shape k d) (e : ℤ) {g : Runqueue → Runqueue}
    (hc : (g k.rq).cpu = k.rq.cpu) (ha : (g k.rq).arrays = k.rq.arrays)
    (hg : (g k.rq).nrRunning = k.rq.nrRunning + e) : Shape (k.modRq g) (d + e) where
  located := by
    rw [Kernel.modRq_rq, hc]
    exact h.located.congr (fun _ => rfl) fun l _ => by simp only [Kernel.queue, Kernel.modRq_rq, ha]
  home := h.home
  arrays b := by rw [Kernel.modRq_rq, ha]; exact h.arrays b
  running := by
    rw [Kernel.modRq_rq, hg, ha, h.running]
    ring

theorem deactivateTask_eq : deactivateTask p k =
    ((k.tasks p).array.bind fun a => dequeueTask p a (k.uncounted p)).map fun m =>
      m.mod p fun t => { t with array := none } := by
  have hm : ∀ o : Option Kernel, (o.bind fun m => some (m.mod p fun t => { t with array := none })) =
      o.map fun m => m.mod p fun t => { t with array := none } := fun o => by cases o <;> rfl
  unfold deactivateTask Kernel.uncounted
  by_cases hst : (k.tasks p).state = .uninterruptible
  · cases ha : (k.tasks p).array with
    | none => simp [hst, ha]
    | some a =>
      simp only [Kernel.modRq_tasks, hst, if_true, ha, Option.bind_eq_bind, Option.bind_some,
        Option.pure_def, hm]
      rfl
  · cases ha : (k.tasks p).array with
    | none => simp [hst, ha]
    | some a =>
      simp only [Kernel.modRq_tasks, hst, if_false, ha, Option.bind_eq_bind, Option.bind_some,
        Option.pure_def, hm, add_zero]

theorem Shape.deactivateTask_eq (h : Shape k d) (hp : p ∈ k.queue a i) :
    deactivateTask p k = some (k.deactivated p a i) := by
  have hs : Shape (k.uncounted p) (d + -1) := h.modRq_nrRunning (-1) rfl rfl rfl
  rw [ShortSched.deactivateTask_eq, (h.of_mem hp).1, Option.bind_some,
    hs.dequeueTask_eq (show p ∈ (k.uncounted p).queue a i from hp)]
  rfl

theorem linked_of_deactivateTask (h : deactivateTask p k = some k') :
    ∃ l, (k.tasks p).runList = some l ∧ l.cpu = k.rq.cpu := by
  rw [deactivateTask_eq, Option.map_eq_some_iff] at h
  obtain ⟨m, hm, -⟩ := h
  obtain ⟨a, -, hm⟩ := Option.bind_eq_some_iff.mp hm
  obtain ⟨l, hl, hc⟩ := linked_of_dequeueTask hm
  exact ⟨l, hl, hc⟩

theorem Shape.of_deactivateTask (h : Shape k d) (hd : deactivateTask p k = some k') :
    ∃ a, p ∈ k.queue a (k.tasks p).prio ∧ k' = k.deactivated p a (k.tasks p).prio := by
  obtain ⟨l, hl, hc⟩ := linked_of_deactivateTask hd
  have hp : p ∈ k.queue l.array (k.tasks p).prio := by
    rw [h.mem_iff, hl, (h.home p l hl).2, ← hc]
  rw [h.deactivateTask_eq hp] at hd
  exact ⟨l.array, hp, (Option.some.inj hd).symm⟩

theorem Shape.deactivated (h : Shape k d) (hp : p ∈ k.queue a i) :
    Shape (k.deactivated p a i) d := by
  have h1 : Shape (k.uncounted p) (d + -1) := h.modRq_nrRunning (-1) rfl rfl rfl
  have h2 := h1.unlink (show p ∈ (k.uncounted p).queue a i from hp)
  rw [neg_add_cancel_right] at h2
  refine h2.congr rfl rfl rfl ?_ ?_ ?_
  · exact Kernel.mod_field (f := fun t => { t with array := none }) TaskStruct.runList fun _ => rfl
  · intro q hq
    by_cases hqp : q = p
    · subst hqp; simp at hq
    · exact congrArg _ (Kernel.mod_tasks_ne hqp)
  · intro q hq
    by_cases hqp : q = p
    · subst hqp; simp at hq
    · exact congrArg _ (Kernel.mod_tasks_ne hqp)

theorem credited_runList (t : TaskStruct) : (credited HZ k t).runList = t.runList := by
  unfold credited; split_ifs <;> rfl

theorem activateTask_eq_some : activateTask HZ p k = some k' ↔
    (k.tasks p).runList = none ∧ k' = k.activated HZ p := by
  have hif : (if ¬ rtTask (k.tasks p) ∧ sleepTime k (k.tasks p) ≠ 0 then
      k.mod p (creditSleep HZ (sleepTime k (k.tasks p))) else k) =
      k.mod p (credited HZ k) := by
    unfold credited
    split_ifs with h <;> simp [Kernel.mod, h]
  simp only [activateTask, hif, Option.bind_eq_bind, Option.bind_eq_some_iff,
    enqueueTask_eq_some, Kernel.mod_tasks_self, credited_runList, Option.pure_def,
    Option.some.injEq]
  constructor
  · rintro ⟨m, ⟨hr, rfl⟩, rfl⟩
    exact ⟨hr, rfl⟩
  · rintro ⟨hr, rfl⟩
    exact ⟨_, ⟨hr, rfl⟩, rfl⟩

theorem effectivePrio_range (HZ : ℕ) (t : TaskStruct) :
    100 ≤ effectivePrio HZ t ∧ effectivePrio HZ t < 140 := by
  simp only [effectivePrio, maxPrio, maxRtPrio, maxUserRtPrio]
  split_ifs <;> omega

/-- A real-time priority stays; any other ends up in the range of `SCHED_OTHER`. -/
theorem credited_prio (HZ : ℕ) (k : Kernel) (t : TaskStruct) : (credited HZ k t).prio = t.prio ∨
    100 ≤ t.prio ∧ 100 ≤ (credited HZ k t).prio ∧ (credited HZ k t).prio < 140 := by
  unfold credited
  split_ifs with h
  · right
    have := h.1
    simp only [rtTask, maxRtPrio, maxUserRtPrio] at this
    exact ⟨by omega, effectivePrio_range _ _⟩
  · exact Or.inl rfl

theorem Shape.activated (h : Shape k d) (hp : (k.tasks p).runList = none)
    (hr : 0 ≤ (k.tasks p).prio ∧ (k.tasks p).prio < 140) : Shape (k.activated HZ p) d := by
  have h1 : Shape (k.mod p (credited HZ k)) d := by
    have hne : ∀ q, (k.tasks q).runList ≠ none → q ≠ p := by
      rintro q hq rfl
      exact hq hp
    refine h.congr rfl rfl rfl (Kernel.mod_field TaskStruct.runList credited_runList) ?_ ?_
    · exact fun q hq => by rw [Kernel.mod_tasks_ne (hne q hq)]
    · exact fun q hq => by rw [Kernel.mod_tasks_ne (hne q hq)]
  have h2 := h1.link (p := p) (by simpa [credited_runList] using hp)
    (by
      have := credited_prio HZ k (k.tasks p)
      simp only [Kernel.mod_tasks_self]
      omega)
    (activationArray k.rq (k.tasks p))
  have h3 := h2.modRq_nrRunning (g := fun rq => { rq with nrRunning := rq.nrRunning + 1 })
    1 rfl rfl rfl
  rwa [sub_add_cancel] at h3

end primitives
end ShortSched
