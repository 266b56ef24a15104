import ShortSched.ProcessTable

/-! What the macros and inline functions of `sched.h` do to the lists of the process table. -/
namespace ShortSched
open Cells

/-- What is left of a task_struct without its links. -/
def Entry.unlinked (e : Entry) : Entry :=
  { e with
    nextTask := 0, prevTask := 0, pCptr := none, pYsptr := none, pOsptr := none
    threadNext := 0, threadPrev := 0, pidhashNext := none, pidhashPprev := .bucket 0 }

/-- Only links differ. -/
structure Relinked (t t' : Table) : Prop where
  tasks : ∀ p, (t'.tasks p).unlinked = (t.tasks p).unlinked
  nrThreads : t'.nrThreads = t.nrThreads
  lastPid : t'.lastPid = t.lastPid
  nextSafe : t'.nextSafe = t.nextSafe
  current : t'.current = t.current
  childReaper : t'.childReaper = t.childReaper
  sent : t'.sent = t.sent

/-- The lists of a process table. -/
structure Census where
  tasks : List TaskId
  kids : TaskId → List TaskId
  hashed : ℕ → List TaskId

/-- The links of the table are those of the lists: the ring has the tasks, behind `p_cptr` are
the tasks with this parent, in the buckets are the tasks with this hash value, and the thread
groups are the tasks of one `tgid`. -/
structure Table.Lists (t : Table) (c : Census) : Prop where
  ring : Ring id t.pointers.ring initTaskAddr c.tasks
  nodup : (initTaskAddr :: c.tasks).Nodup
  kids : Chains .elder .youngest t.pointers.family c.kids
  parent : ∀ p q, p ∈ c.kids q ↔ p ∈ c.tasks ∧ (t.tasks p).pPptr = q
  hashed : Chains .next .bucket t.pointers.hash c.hashed
  bucket : ∀ p i, p ∈ c.hashed i ↔ p ∈ c.tasks ∧ pidHashfn (t.tasks p).pid = i
  threads : Rings id t.pointers.threads (· ∈ initTaskAddr :: c.tasks) fun p => (t.tasks p).tgid
  nrThreads : t.nrThreads = c.tasks.length

section
variable {t t' t'' : Table} {c : Census} {p q : TaskId} {f : Entry → Entry} {β : Type*}
  {o : Option TaskId}
  {r : HashRef} {i : ℕ}

theorem Table.mod_tasks (q : TaskId) :
    (t.mod p f).tasks q = if q = p then f (t.tasks p) else t.tasks q := by
  simp [Table.mod, Function.update_apply]

@[simp] theorem Table.mod_nrThreads : (t.mod p f).nrThreads = t.nrThreads := rfl
@[simp] theorem Table.mod_lastPid : (t.mod p f).lastPid = t.lastPid := rfl
@[simp] theorem Table.mod_nextSafe : (t.mod p f).nextSafe = t.nextSafe := rfl
@[simp] theorem Table.mod_current : (t.mod p f).current = t.current := rfl
@[simp] theorem Table.mod_childReaper : (t.mod p f).childReaper = t.childReaper := rfl
@[simp] theorem Table.mod_sent : (t.mod p f).sent = t.sent := rfl

@[simp] theorem Table.send_tasks (s : Sent) : (t.send s).tasks = t.tasks := rfl
@[simp] theorem Table.send_current (s : Sent) : (t.send s).current = t.current := rfl

/-- A field that the assignment leaves alone is the same for every task. -/
theorem Table.mod_field (g : Entry → β) (h : ∀ e, g (f e) = g e) (q : TaskId) :
    g ((t.mod p f).tasks q) = g (t.tasks q) := by
  rw [Table.mod_tasks]
  split_ifs with hq
  · rw [h, hq]
  · rfl

/-! Every assignment changes one field of one task. -/

/-- The fields of an assignment that sets the pointers of a task by `f`. -/
theorem Table.mod_pointers : (t.mod p f).pointers =
    { next := Function.update t.pointers.next p (f (t.tasks p)).nextTask
      prev := Function.update t.pointers.prev p (f (t.tasks p)).prevTask
      pptr := Function.update t.pointers.pptr p (f (t.tasks p)).pPptr
      cptr := Function.update t.pointers.cptr p (f (t.tasks p)).pCptr
      ysptr := Function.update t.pointers.ysptr p (f (t.tasks p)).pYsptr
      osptr := Function.update t.pointers.osptr p (f (t.tasks p)).pOsptr
      threadNext := Function.update t.pointers.threadNext p (f (t.tasks p)).threadNext
      threadPrev := Function.update t.pointers.threadPrev p (f (t.tasks p)).threadPrev
      hashNext := Function.update t.pointers.hashNext p (f (t.tasks p)).pidhashNext
      hashPprev := Function.update t.pointers.hashPprev p (f (t.tasks p)).pidhashPprev
      pidhash := t.pidhash } := by
  ext q <;> simp only [Table.pointers, Table.mod_tasks, Function.update_apply] <;>
    first | split_ifs <;> rfl | rfl

@[simp] theorem setNextTask_pointers : (t.setNextTask p q).pointers =
    { t.pointers with next := Function.update t.pointers.next p q } := by
  simp only [Table.setNextTask, Table.mod_pointers, Pointers.ext_iff, Function.update_eq_self_iff]
  simp [Table.pointers]

@[simp] theorem setPrevTask_pointers : (t.setPrevTask p q).pointers =
    { t.pointers with prev := Function.update t.pointers.prev p q } := by
  simp only [Table.setPrevTask, Table.mod_pointers, Pointers.ext_iff, Function.update_eq_self_iff]
  simp [Table.pointers]

@[simp] theorem setCptr_pointers : (t.setCptr p o).pointers =
    { t.pointers with cptr := Function.update t.pointers.cptr p o } := by
  simp only [Table.setCptr, Table.mod_pointers, Pointers.ext_iff, Function.update_eq_self_iff]
  simp [Table.pointers]

@[simp] theorem setYsptr_pointers : (t.setYsptr p o).pointers =
    { t.pointers with ysptr := Function.update t.pointers.ysptr p o } := by
  simp only [Table.setYsptr, Table.mod_pointers, Pointers.ext_iff, Function.update_eq_self_iff]
  simp [Table.pointers]

@[simp] theorem setOsptr_pointers : (t.setOsptr p o).pointers =
    { t.pointers with osptr := Function.update t.pointers.osptr p o } := by
  simp only [Table.setOsptr, Table.mod_pointers, Pointers.ext_iff, Function.update_eq_self_iff]
  simp [Table.pointers]

@[simp] theorem setThreadNext_pointers : (t.setThreadNext p q).pointers =
    { t.pointers with threadNext := Function.update t.pointers.threadNext p q } := by
  simp only [Table.setThreadNext, Table.mod_pointers, Pointers.ext_iff, Function.update_eq_self_iff]
  simp [Table.pointers]

@[simp] theorem setThreadPrev_pointers : (t.setThreadPrev p q).pointers =
    { t.pointers with threadPrev := Function.update t.pointers.threadPrev p q } := by
  simp only [Table.setThreadPrev, Table.mod_pointers, Pointers.ext_iff, Function.update_eq_self_iff]
  simp [Table.pointers]

@[simp] theorem setPidhashPprev_pointers : (t.setPidhashPprev p r).pointers =
    { t.pointers with hashPprev := Function.update t.pointers.hashPprev p r } := by
  simp only [Table.setPidhashPprev, Table.mod_pointers, Pointers.ext_iff,
    Function.update_eq_self_iff]
  simp [Table.pointers]

@[simp] theorem setHashRef_bucket_pointers : (t.setHashRef (.bucket i) o).pointers =
    { t.pointers with pidhash := Function.update t.pointers.pidhash i o } := rfl

@[simp] theorem setHashRef_next_pointers : (t.setHashRef (.next p) o).pointers =
    { t.pointers with hashNext := Function.update t.pointers.hashNext p o } := by
  simp only [Table.setHashRef, Table.mod_pointers, Pointers.ext_iff, Function.update_eq_self_iff]
  simp [Table.pointers]

/-- What is read while the links change. -/
theorem read_pointers : (t.tasks p).nextTask = t.pointers.next p ∧
    (t.tasks p).prevTask = t.pointers.prev p ∧ (t.tasks p).pPptr = t.pointers.pptr p ∧
    (t.tasks p).pCptr = t.pointers.cptr p ∧ (t.tasks p).pYsptr = t.pointers.ysptr p ∧
    (t.tasks p).pOsptr = t.pointers.osptr p ∧ (t.tasks p).threadNext = t.pointers.threadNext p ∧
    (t.tasks p).threadPrev = t.pointers.threadPrev p ∧
    (t.tasks p).pidhashNext = t.pointers.hashNext p ∧
    (t.tasks p).pidhashPprev = t.pointers.hashPprev p := by
  simp [Table.pointers]

theorem read_pidhash : t.pidhash = t.pointers.pidhash := rfl

/-! The macros as insertions and removals. -/

theorem setLinks_pointers (hp : p ≠ initTaskAddr) : (setLinks p t).pointers = { t.pointers with
      next := Function.update (Function.update t.pointers.next p initTaskAddr)
        (t.pointers.prev initTaskAddr) p
      prev := Function.update (Function.update t.pointers.prev p (t.pointers.prev initTaskAddr))
        initTaskAddr p
      cptr := Function.update t.pointers.cptr (t.pointers.pptr p) (some p)
      ysptr := match t.pointers.cptr (t.pointers.pptr p) with
        | none => Function.update t.pointers.ysptr p none
        | some q => Function.update (Function.update t.pointers.ysptr p none) q (some p)
      osptr := Function.update t.pointers.osptr p (t.pointers.cptr (t.pointers.pptr p)) } := by
  simp only [setLinks, read_pointers, setNextTask_pointers, setPrevTask_pointers,
    setYsptr_pointers, setOsptr_pointers, Function.update_self, Function.update_of_ne hp.symm]
  cases t.pointers.cptr (t.pointers.pptr p) <;> simp

/-- `SET_LINKS` puts the task at the end of the ring. -/
theorem setLinks_ring (hp : p ≠ initTaskAddr)
    (hlast : t.pointers.next (t.pointers.prev initTaskAddr) = initTaskAddr) :
    (setLinks p t).pointers.ring =
      t.pointers.ring.insert id (t.pointers.prev initTaskAddr) p := by
  rw [setLinks_pointers hp]
  simp only [Pointers.ring, Links.insert, hlast, Links.mk.injEq]
  constructor
  · ext x
    simp only [Function.update_apply]
    split_ifs <;> simp_all
  · exact Function.update_comm hp _ _ _

/-- `SET_LINKS` makes the task the youngest child of its parent. -/
theorem setLinks_family (hp : p ≠ initTaskAddr)
    (hq : t.pointers.cptr (t.pointers.pptr p) ≠ some p) :
    (setLinks p t).pointers.family =
      t.pointers.family.insert .elder (.youngest (t.pointers.pptr p)) p := by
  rw [setLinks_pointers hp]
  simp only [Pointers.family, Links.insert, Links.mk.injEq]
  constructor
  · ext c x
    cases c <;> simp [Function.update_apply]
  · ext x
    cases hc : t.pointers.cptr (t.pointers.pptr p) with
    | none => by_cases hx : x = p <;> simp [hx]
    | some q =>
      have hqp : q ≠ p := by
        rintro rfl
        exact hq hc
      by_cases hx : x = p
      · simp [hx, hqp.symm]
      · by_cases hxq : x = q <;> simp [hx, hxq, hqp]

theorem setLinks_rest (hp : p ≠ initTaskAddr) :
    (setLinks p t).pointers.threads = t.pointers.threads ∧
      (setLinks p t).pointers.hash = t.pointers.hash ∧
      (setLinks p t).pointers.pptr = t.pointers.pptr := by
  rw [setLinks_pointers hp]
  exact ⟨rfl, rfl, rfl⟩

theorem removeLinks_pointers : (removeLinks p t).pointers = { t.pointers with
      next := Function.update t.pointers.next (t.pointers.prev p) (t.pointers.next p)
      prev := Function.update t.pointers.prev (t.pointers.next p) (t.pointers.prev p)
      cptr := match t.pointers.ysptr p with
        | none => Function.update t.pointers.cptr (t.pointers.pptr p) (t.pointers.osptr p)
        | some _ => t.pointers.cptr
      ysptr := match t.pointers.osptr p with
        | none => t.pointers.ysptr
        | some o => Function.update t.pointers.ysptr o (t.pointers.ysptr p)
      osptr := match t.pointers.ysptr p with
        | none => t.pointers.osptr
        | some y => Function.update t.pointers.osptr y (t.pointers.osptr p) } := by
  have hprev : Function.update t.pointers.prev (t.pointers.next p) (t.pointers.prev p) p =
      t.pointers.prev p := by
    rw [Function.update_apply]
    split_ifs <;> rfl
  have hys : ∀ o, Function.update t.pointers.ysptr o (t.pointers.ysptr p) p =
      t.pointers.ysptr p := by
    intro o
    rw [Function.update_apply]
    split_ifs <;> rfl
  simp only [removeLinks, read_pointers, setNextTask_pointers, setPrevTask_pointers, hprev]
  cases ho : t.pointers.osptr p <;>
    simp only [setYsptr_pointers, setNextTask_pointers, setPrevTask_pointers, hys] <;>
    cases t.pointers.ysptr p <;> simp [ho]

theorem removeLinks_ring : (removeLinks p t).pointers.ring = t.pointers.ring.remove id p := by
  rw [removeLinks_pointers]
  simp only [Pointers.ring, Links.remove, id, Links.mk.injEq, and_true]
  ext x
  simp only [Function.update_apply]
  split_ifs <;> simp

/-- `REMOVE_LINKS` takes the task from its siblings, who have the same parent. -/
theorem removeLinks_family (hq : ∀ o, t.pointers.osptr p = some o →
      t.pointers.pptr o = t.pointers.pptr p) :
    (removeLinks p t).pointers.family = t.pointers.family.remove .elder p := by
  rw [removeLinks_pointers]
  simp only [Pointers.family, Links.remove, Links.mk.injEq]
  constructor
  · ext c x
    cases t.pointers.ysptr p <;> cases c <;> simp [Function.update_apply]
  · ext x
    cases hc : t.pointers.osptr p with
    | none => simp
    | some o =>
      by_cases hx : x = o
      · subst hx
        simp [hq x hc]
      · simp [hx]

theorem removeLinks_rest : (removeLinks p t).pointers.threads = t.pointers.threads ∧
    (removeLinks p t).pointers.hash = t.pointers.hash ∧
    (removeLinks p t).pointers.pptr = t.pointers.pptr := by
  rw [removeLinks_pointers]
  exact ⟨rfl, rfl, rfl⟩

theorem hashPid_hash : (hashPid p t).pointers.hash =
    t.pointers.hash.insert .next (.bucket (pidHashfn (t.tasks p).pid)) p := by
  generalize hi : pidHashfn (t.tasks p).pid = i
  simp only [hashPid, hi, read_pointers, read_pidhash, setHashRef_next_pointers,
    Function.update_self]
  cases hc : t.pointers.pidhash i with
  | none =>
    simp only [setHashRef_bucket_pointers, setPidhashPprev_pointers, setHashRef_next_pointers,
      Pointers.hash, Links.insert, hc, Links.mk.injEq, and_true]
    ext c x
    cases c <;> simp [Function.update_apply]
  | some q =>
    simp only [setHashRef_bucket_pointers, setPidhashPprev_pointers, setHashRef_next_pointers,
      Pointers.hash, Links.insert, hc, Links.mk.injEq, and_true]
    ext c x
    cases c <;> simp [Function.update_apply]

theorem unhashPid_hash : (unhashPid p t).pointers.hash = t.pointers.hash.remove .next p := by
  have hback : ∀ q, Function.update t.pointers.hashPprev q (t.pointers.hashPprev p) p =
      t.pointers.hashPprev p := by
    intro q
    rw [Function.update_apply]
    split_ifs <;> rfl
  simp only [unhashPid, read_pointers]
  cases hc : t.pointers.hashNext p with
  | none =>
    cases hr : t.pointers.hashPprev p <;> simp only [setHashRef_bucket_pointers,
      setHashRef_next_pointers, Pointers.hash, Links.remove, hc, hr, Links.mk.injEq, and_true] <;>
      ext c x <;> cases c <;> simp [Function.update_apply]
  | some q =>
    simp only [setPidhashPprev_pointers, hback]
    cases hr : t.pointers.hashPprev p <;> simp only [setHashRef_bucket_pointers,
      setHashRef_next_pointers, setPidhashPprev_pointers, Pointers.hash, Links.remove, hc, hr,
      Links.mk.injEq, and_true] <;> ext c x <;> cases c <;> simp [Function.update_apply]

theorem addThread_threads : (addThread p q t).pointers.threads =
    t.pointers.threads.insert id q p := by
  simp only [addThread, read_pointers, setThreadNext_pointers, setThreadPrev_pointers,
    Pointers.threads, Links.insert, Links.mk.injEq, id, and_true]
  ext x
  simp only [Function.update_apply]
  split_ifs <;> simp

theorem delThread_threads : (delThread p t).pointers.threads = t.pointers.threads.remove id p := by
  simp only [delThread, read_pointers, setThreadNext_pointers, setThreadPrev_pointers,
    Pointers.threads, Links.remove, Links.mk.injEq, id, and_true]
  ext x
  simp only [Function.update_apply]
  split_ifs <;> simp

/-- Hashing leaves the other links alone. -/
theorem hashPid_pointers : ∃ hashNext hashPprev pidhash, (hashPid p t).pointers =
    { t.pointers with hashNext, hashPprev, pidhash } := by
  simp only [hashPid, read_pointers, setHashRef_next_pointers, Function.update_self]
  cases t.pidhash (pidHashfn (t.tasks p).pid) <;>
    simp only [setHashRef_bucket_pointers, setPidhashPprev_pointers, setHashRef_next_pointers] <;>
    exact ⟨_, _, _, rfl⟩

theorem unhashPid_pointers : ∃ hashNext hashPprev pidhash, (unhashPid p t).pointers =
    { t.pointers with hashNext, hashPprev, pidhash } := by
  have h : ∀ r o (t' : Table), ∃ hashNext pidhash, (t'.setHashRef r o).pointers =
      { t'.pointers with hashNext, pidhash } := by
    intro r o t'
    cases r with
    | bucket i => exact ⟨_, _, setHashRef_bucket_pointers⟩
    | next q => exact ⟨_, _, setHashRef_next_pointers⟩
  simp only [unhashPid]
  cases (t.tasks p).pidhashNext with
  | none =>
    obtain ⟨hashNext, pidhash, h⟩ := h (t.tasks p).pidhashPprev (t.tasks p).pidhashNext t
    exact ⟨hashNext, _, pidhash, h⟩
  | some q =>
    obtain ⟨hashNext, pidhash, h⟩ := h
      ((t.setPidhashPprev q (t.tasks p).pidhashPprev).tasks p).pidhashPprev
      ((t.setPidhashPprev q (t.tasks p).pidhashPprev).tasks p).pidhashNext
      (t.setPidhashPprev q (t.tasks p).pidhashPprev)
    rw [setPidhashPprev_pointers] at h
    exact ⟨hashNext, _, pidhash, h⟩

theorem addThread_pointers : ∃ threadNext threadPrev, (addThread p q t).pointers =
    { t.pointers with threadNext, threadPrev } := by
  simp only [addThread, setThreadNext_pointers, setThreadPrev_pointers]
  exact ⟨_, _, rfl⟩

theorem delThread_pointers : ∃ threadNext threadPrev, (delThread p t).pointers =
    { t.pointers with threadNext, threadPrev } := by
  simp only [delThread, setThreadNext_pointers, setThreadPrev_pointers]
  exact ⟨_, _, rfl⟩

/-! Nothing but links changes. -/

theorem Relinked.refl (t : Table) : Relinked t t := ⟨fun _ => rfl, rfl, rfl, rfl, rfl, rfl, rfl⟩

theorem Relinked.trans (h : Relinked t t') (h' : Relinked t' t'') : Relinked t t'' where
  tasks p := (h'.tasks p).trans (h.tasks p)
  nrThreads := h'.nrThreads.trans h.nrThreads
  lastPid := h'.lastPid.trans h.lastPid
  nextSafe := h'.nextSafe.trans h.nextSafe
  current := h'.current.trans h.current
  childReaper := h'.childReaper.trans h.childReaper
  sent := h'.sent.trans h.sent

theorem Relinked.symm (h : Relinked t t') : Relinked t' t where
  tasks p := (h.tasks p).symm
  nrThreads := h.nrThreads.symm
  lastPid := h.lastPid.symm
  nextSafe := h.nextSafe.symm
  current := h.current.symm
  childReaper := h.childReaper.symm
  sent := h.sent.symm

theorem Relinked.field (h : Relinked t t') (g : Entry → β) (hg : ∀ e, g e = g e.unlinked)
    (p : TaskId) : g (t'.tasks p) = g (t.tasks p) := by
  rw [hg, h.tasks, ← hg]

theorem Relinked.mod (h : Relinked t t') (hf : ∀ e, (f e).unlinked = e.unlinked := by intro; rfl) :
    Relinked t (t'.mod p f) :=
  h.trans ⟨fun q => Table.mod_field Entry.unlinked hf q, rfl, rfl, rfl, rfl, rfl, rfl⟩

theorem Relinked.hashRef (h : Relinked t t') (r : HashRef) (o : Option TaskId) :
    Relinked t (t'.setHashRef r o) := by
  cases r with
  | bucket i => exact h.trans ⟨fun _ => rfl, rfl, rfl, rfl, rfl, rfl, rfl⟩
  | next p =>
    unfold Table.setHashRef
    exact h.mod

theorem setLinks_relinked (p : TaskId) (t : Table) : Relinked t (setLinks p t) := by
  simp only [setLinks, Table.setNextTask, Table.setPrevTask, Table.setYsptr, Table.setOsptr,
    Table.setCptr]
  split
  · exact (Relinked.refl t).mod.mod.mod.mod.mod.mod.mod
  · exact (Relinked.refl t).mod.mod.mod.mod.mod.mod.mod.mod

theorem removeLinks_relinked (p : TaskId) (t : Table) : Relinked t (removeLinks p t) := by
  simp only [removeLinks, Table.setNextTask, Table.setPrevTask, Table.setYsptr, Table.setOsptr,
    Table.setCptr]
  split <;> split
  · exact (Relinked.refl t).mod.mod.mod
  · exact (Relinked.refl t).mod.mod.mod.mod
  · exact (Relinked.refl t).mod.mod.mod
  · exact (Relinked.refl t).mod.mod.mod.mod

theorem hashPid_relinked (p : TaskId) (t : Table) : Relinked t (hashPid p t) := by
  have h1 := (Relinked.refl t).hashRef (.next p) (t.pidhash (pidHashfn (t.tasks p).pid))
  simp only [hashPid, Table.setPidhashPprev]
  split
  · exact (h1.hashRef _ _).mod
  · exact (h1.mod.hashRef _ _).mod

theorem unhashPid_relinked (p : TaskId) (t : Table) : Relinked t (unhashPid p t) := by
  simp only [unhashPid, Table.setPidhashPprev]
  split
  · exact (Relinked.refl t).hashRef _ _
  · exact (Relinked.refl t).mod.hashRef _ _

theorem addThread_relinked (p q : TaskId) (t : Table) : Relinked t (addThread p q t) := by
  simp only [addThread, Table.setThreadNext, Table.setThreadPrev]
  exact (Relinked.refl t).mod.mod.mod.mod

theorem delThread_relinked (p : TaskId) (t : Table) : Relinked t (delThread p t) := by
  simp only [delThread, Table.setThreadNext, Table.setThreadPrev]
  exact (Relinked.refl t).mod.mod

theorem unhashProcess_relinked (p : TaskId) (t : Table) :
    Relinked { t with nrThreads := t.nrThreads - 1 } (unhashProcess p t) :=
  ((unhashPid_relinked p _).trans (removeLinks_relinked p _)).trans (delThread_relinked p _)

/-- The same assignment to both. -/
theorem Relinked.mod_both (h : Relinked t t')
    (hf : ∀ e, (f e).unlinked = (f e.unlinked).unlinked := by intro; rfl) :
    Relinked (t.mod p f) (t'.mod p f) where
  tasks q := by
    rw [Table.mod_tasks, Table.mod_tasks]
    split_ifs
    · rw [hf, h.tasks, ← hf]
    · exact h.tasks q
  nrThreads := h.nrThreads
  lastPid := h.lastPid
  nextSafe := h.nextSafe
  current := h.current
  childReaper := h.childReaper
  sent := h.sent

theorem reparent_relinked (p r : TaskId) (t : Table) :
    Relinked (t.mod p fun e => { e with pPptr := r }) (reparent p r t) :=
  ((removeLinks_relinked p t).mod_both).trans (setLinks_relinked p _)

theorem reparent_pid {r x : TaskId} : ((reparent p r t).tasks x).pid = (t.tasks x).pid := by
  rw [(reparent_relinked p r t).field Entry.pid fun _ => rfl, Table.mod_tasks]
  split_ifs with hx <;> simp [hx]

end
end ShortSched
