import ShortSched.TableLinks

/-! What a birth, a death and a change of parents do to the lists of the process table. -/
namespace ShortSched
open Cells

/-- A new task, youngest child of `q`. -/
def Census.add (p q : TaskId) (i : ℕ) (c : Census) : Census where
  tasks := c.tasks ++ [p]
  kids := Function.update c.kids q (p :: c.kids q)
  hashed := Function.update c.hashed i (p :: c.hashed i)

def Census.remove (p q : TaskId) (i : ℕ) (c : Census) : Census where
  tasks := c.tasks.erase p
  kids := Function.update c.kids q ((c.kids q).erase p)
  hashed := Function.update c.hashed i ((c.hashed i).erase p)

/-- A child of `q` becomes the youngest child of `r`. -/
def Census.move (p q r : TaskId) (c : Census) : Census :=
  let kids := Function.update c.kids q ((c.kids q).erase p)
  { c with kids := Function.update kids r (p :: kids r) }

section
variable {t t' : Table} {c : Census} {p q r : TaskId} {f : Entry → Entry} {i : ℕ}

theorem family_layout : Layout FamilyCell.elder FamilyCell.youngest :=
  ⟨fun _ _ => FamilyCell.elder.inj, fun _ _ => FamilyCell.youngest.inj, by simp⟩

theorem hash_layout : Layout HashRef.next HashRef.bucket :=
  ⟨fun _ _ => HashRef.next.inj, fun _ _ => HashRef.bucket.inj, by simp⟩

theorem mem_update_cons {ι : Type*} [DecidableEq ι] {k : ι → List TaskId} {i j : ι} {x : TaskId} :
    x ∈ Function.update k i (p :: k i) j ↔ x = p ∧ j = i ∨ x ∈ k j := by
  by_cases hij : j = i
  · subst hij
    simp
  · simp [hij]

theorem mem_update_erase {ι : Type*} [DecidableEq ι] {k : ι → List TaskId} {i j : ι} {x : TaskId}
    (hn : (k i).Nodup) (hd : ∀ j, p ∈ k j → j = i) :
    x ∈ Function.update k i ((k i).erase p) j ↔ x ≠ p ∧ x ∈ k j := by
  by_cases hij : j = i
  · subst hij
    rw [Function.update_self, hn.mem_erase_iff]
  · rw [Function.update_of_ne hij]
    constructor
    · refine fun hx => ⟨?_, hx⟩
      rintro rfl
      exact hij (hd j hx)
    · exact And.right

theorem Table.Lists.ne_init (h : t.Lists c) (hp : p ∈ c.tasks) : p ≠ initTaskAddr :=
  fun he => (List.nodup_cons.mp h.nodup).1 (he ▸ hp)

theorem Table.Lists.mem_kids (h : t.Lists c) (hp : p ∈ c.tasks) : p ∈ c.kids (t.tasks p).pPptr :=
  (h.parent p _).mpr ⟨hp, rfl⟩

/-- The siblings that a task is linked with have its parent. -/
theorem Table.Lists.elder_parent (h : t.Lists c) (hp : p ∈ c.tasks) {o : TaskId}
    (ho : t.pointers.osptr p = some o) : t.pointers.pptr o = t.pointers.pptr p := by
  have hmem := (h.kids.chain (t.tasks p).pPptr).get_mem (Or.inr ⟨p, h.mem_kids hp, rfl⟩) ho
  exact ((h.parent o _).mp hmem).2

/-- Changes to other fields than links. -/
theorem Table.Lists.of_pointers (h : t.Lists c) (hv : t'.pointers = t.pointers)
    (hf : ∀ p ∈ initTaskAddr :: c.tasks,
      (t'.tasks p).pid = (t.tasks p).pid ∧ (t'.tasks p).tgid = (t.tasks p).tgid)
    (hn : t'.nrThreads = t.nrThreads) : t'.Lists c where
  ring := by rw [hv]; exact h.ring
  nodup := h.nodup
  kids := by rw [hv]; exact h.kids
  parent p q := by
    have hp : (t'.tasks p).pPptr = (t.tasks p).pPptr := congrFun (congrArg Pointers.pptr hv) p
    rw [hp]
    exact h.parent p q
  hashed := by rw [hv]; exact h.hashed
  bucket p i := by
    rw [h.bucket]
    exact and_congr_right fun hp => by rw [(hf p (List.mem_cons_of_mem _ hp)).1]
  threads := by
    rw [hv]
    exact h.threads.congr (fun _ => Iff.rfl) (fun p hp => (hf p hp).2) fun _ _ => ⟨rfl, rfl⟩
  nrThreads := hn.trans h.nrThreads

/-- The fields that the lists depend on. -/
def Entry.bones (e : Entry) : Entry :=
  { e with
    state := .running, exiting := false, ptraced := false, firstTimeSlice := false, exitCode := 0
    exitSignal := 0, pdeathSignal := 0, pgrp := 0, session := 0, pOpptr := 0, parentExecId := 0
    selfExecId := 0, capKill := false, sigpending := false }

theorem Table.Lists.of_bones (h : t.Lists c)
    (hb : ∀ x, (t'.tasks x).bones = (t.tasks x).bones) (hh : t'.pidhash = t.pidhash)
    (hn : t'.nrThreads = t.nrThreads) : t'.Lists c := by
  have hf : ∀ {β : Type} (g : Entry → β), (∀ e, g e = g e.bones) →
      ∀ x, g (t'.tasks x) = g (t.tasks x) := by
    intro β g hg x
    rw [hg, hb, ← hg]
  refine h.of_pointers ?_ (fun x _ => ⟨hf Entry.pid (fun _ => rfl) x,
    hf Entry.tgid (fun _ => rfl) x⟩) hn
  simp only [Table.pointers, hh, hf Entry.nextTask (fun _ => rfl),
    hf Entry.prevTask (fun _ => rfl), hf Entry.pPptr (fun _ => rfl), hf Entry.pCptr (fun _ => rfl),
    hf Entry.pYsptr (fun _ => rfl), hf Entry.pOsptr (fun _ => rfl),
    hf Entry.threadNext (fun _ => rfl), hf Entry.threadPrev (fun _ => rfl),
    hf Entry.pidhashNext (fun _ => rfl), hf Entry.pidhashPprev (fun _ => rfl)]

theorem Table.Lists.mod (h : t.Lists c) (hf : ∀ e, (f e).bones = e.bones := by intro; rfl) :
    (t.mod p f).Lists c :=
  h.of_bones (fun x => Table.mod_field Entry.bones hf x) rfl rfl

/-- Assignments to a task_struct that is on no list. -/
theorem Table.Lists.outside (h : t.Lists c) (hp : p ∉ initTaskAddr :: c.tasks)
    (hf : (f (t.tasks p)).pCptr = none) (hc : (t.tasks p).pCptr = none) :
    (t.mod p f).Lists c := by
  have hne : ∀ x ∈ initTaskAddr :: c.tasks, (t.mod p f).tasks x = t.tasks x := by
    intro x hx
    rw [Table.mod_tasks, if_neg fun he : x = p => hp (he ▸ hx)]
  have htasks : ∀ x ∈ c.tasks, (t.mod p f).tasks x = t.tasks x :=
    fun x hx => hne x (List.mem_cons_of_mem _ hx)
  have hcptr : ∀ q, ((t.mod p f).tasks q).pCptr = (t.tasks q).pCptr := by
    intro q
    rw [Table.mod_tasks]
    split_ifs with hq
    · rw [hf, hq, hc]
    · rfl
  refine ⟨?_, h.nodup, ?_, fun x q => ?_, ?_, fun x i => ?_, ?_, h.nrThreads⟩
  · refine h.ring.congr_cells fun x hx => ?_
    simp only [Pointers.ring, Table.pointers, id, hne x hx, and_self]
  · refine h.kids.congr (fun q => hcptr q) fun q x hx => ?_
    simp only [Pointers.family, Table.pointers, htasks x ((h.parent x q).mp hx).1, and_self]
  · rw [h.parent]
    exact and_congr_right fun hx => by rw [htasks x hx]
  · refine h.hashed.congr (fun i => rfl) fun i x hx => ?_
    simp only [Pointers.hash, Table.pointers, htasks x ((h.bucket x i).mp hx).1, and_self]
  · rw [h.bucket]
    exact and_congr_right fun hx => by rw [htasks x hx]
  · refine h.threads.congr (fun _ => Iff.rfl) (fun x hx => by rw [hne x hx]) fun x hx => ?_
    simp only [Pointers.threads, Table.pointers, id, hne x hx, and_self]

/-- `unhash_process` removes a task from each of the lists. -/
theorem Table.Lists.unhash_pointers (h : t.Lists c) (hp : p ∈ c.tasks) :
    (unhashProcess p t).pointers.ring = t.pointers.ring.remove id p ∧
      (unhashProcess p t).pointers.family = t.pointers.family.remove .elder p ∧
      (unhashProcess p t).pointers.hash = t.pointers.hash.remove .next p ∧
      (unhashProcess p t).pointers.threads = t.pointers.threads.remove id p := by
  have hv1 : { t with nrThreads := t.nrThreads - 1 }.pointers = t.pointers := rfl
  unfold unhashProcess
  dsimp only
  generalize { t with nrThreads := t.nrThreads - 1 } = t1 at hv1 ⊢
  obtain ⟨_, _, _, h2⟩ := unhashPid_pointers (t := t1) (p := p)
  have hh2 : (unhashPid p t1).pointers.hash = _ := unhashPid_hash
  rw [hv1] at h2 hh2
  generalize unhashPid p t1 = t2 at h2 hh2 ⊢
  have hr3 : (removeLinks p t2).pointers.ring = _ := removeLinks_ring
  have hf3 : (removeLinks p t2).pointers.family = _ := removeLinks_family fun o ho => by
    rw [h2] at ho ⊢
    exact h.elder_parent hp ho
  obtain ⟨ht3, hh3, -⟩ := removeLinks_rest (t := t2) (p := p)
  rw [h2] at hr3 hf3 ht3
  rw [hh2] at hh3
  generalize removeLinks p t2 = t3 at hr3 hf3 ht3 hh3 ⊢
  have ht4 : (delThread p t3).pointers.threads = _ := delThread_threads
  obtain ⟨_, _, h4⟩ := delThread_pointers (t := t3) (p := p)
  rw [ht3] at ht4
  rw [h4] at ht4 ⊢
  exact ⟨hr3, hf3, hh3, ht4⟩

theorem Table.Lists.ring_remove (h : t.Lists c) (hp : p ∈ c.tasks) :
    Ring id (t.pointers.ring.remove id p) initTaskAddr (c.tasks.erase p) := by
  obtain ⟨l₁, l₂, he⟩ := List.append_of_mem hp
  have hr := h.ring
  have hn := h.nodup
  rw [he] at hr hn
  have hl₁ : p ∉ l₁ := fun hx =>
    (List.nodup_append.mp (List.nodup_cons.mp hn).2).2.2 p hx p (by simp) rfl
  rw [he, List.erase_append_right _ hl₁, List.erase_cons_head]
  exact hr.remove hn

theorem Table.Lists.family_remove (h : t.Lists c) (hp : p ∈ c.tasks) :
    Chains .elder .youngest (t.pointers.family.remove .elder p)
      (c.remove p (t.tasks p).pPptr i).kids :=
  h.kids.remove family_layout (h.mem_kids hp)

theorem Table.Lists.nodup_remove (h : t.Lists c) (p : TaskId) :
    (initTaskAddr :: c.tasks.erase p).Nodup := by
  have hn := List.nodup_cons.mp h.nodup
  exact List.nodup_cons.mpr ⟨fun hx => hn.1 (List.mem_of_mem_erase hx), hn.2.erase p⟩

theorem Table.Lists.mem_erase (h : t.Lists c) {x : TaskId} :
    x ∈ c.tasks.erase p ↔ x ≠ p ∧ x ∈ c.tasks := (List.nodup_cons.mp h.nodup).2.mem_erase_iff

/-- `reparent` moves a task to the end of the ring. -/
theorem Table.Lists.mem_requeue (h : t.Lists c) (hp : p ∈ c.tasks) {x : TaskId} :
    x ∈ c.tasks.erase p ++ [p] ↔ x ∈ c.tasks := by
  rw [List.mem_append, List.mem_singleton, h.mem_erase]
  by_cases hx : x = p <;> simp [hx, hp]

theorem Table.Lists.mem_kids_remove (h : t.Lists c) {x : TaskId} :
    x ∈ (c.remove p (t.tasks p).pPptr i).kids q ↔
      x ∈ c.tasks.erase p ∧ (t.tasks x).pPptr = q := by
  have hd : ∀ q, p ∈ c.kids q → q = (t.tasks p).pPptr :=
    fun q hq => ((h.parent p q).mp hq).2.symm
  simp only [Census.remove]
  rw [mem_update_erase (h.kids.nodup _) hd, h.parent, h.mem_erase]
  exact and_assoc.symm

/-- `unhash_process` takes a task out of every list. -/
theorem Table.Lists.unhash (h : t.Lists c) (hp : p ∈ c.tasks) :
    (unhashProcess p t).Lists
      (c.remove p (t.tasks p).pPptr (pidHashfn (t.tasks p).pid)) := by
  have hrel := unhashProcess_relinked p t
  obtain ⟨hring, hfamily, hhash, hthreads⟩ := h.unhash_pointers hp
  refine ⟨?_, h.nodup_remove p, ?_, fun x q => ?_, ?_, fun x i => ?_, ?_, ?_⟩
  · rw [hring]
    exact h.ring_remove hp
  · rw [hfamily]
    exact h.family_remove hp
  · rw [h.mem_kids_remove, hrel.field Entry.pPptr fun _ => rfl]
    rfl
  · rw [hhash]
    exact h.hashed.remove hash_layout ((h.bucket p _).mpr ⟨hp, rfl⟩)
  · have hd : ∀ i, p ∈ c.hashed i → i = pidHashfn (t.tasks p).pid :=
      fun i hi => ((h.bucket p i).mp hi).2.symm
    simp only [Census.remove]
    rw [mem_update_erase (h.hashed.nodup _) hd, h.bucket, h.mem_erase,
      hrel.field Entry.pid fun _ => rfl]
    exact and_assoc.symm
  · rw [hthreads]
    have hlive : ∀ x, x ∈ initTaskAddr :: c.tasks.erase p ↔
        x ∈ initTaskAddr :: c.tasks ∧ x ≠ p := by
      intro x
      rw [List.mem_cons, List.mem_cons, h.mem_erase]
      constructor
      · rintro (rfl | ⟨hx, hmem⟩)
        · exact ⟨Or.inl rfl, (h.ne_init hp).symm⟩
        · exact ⟨Or.inr hmem, hx⟩
      · rintro ⟨rfl | hmem, hx⟩
        · exact Or.inl rfl
        · exact Or.inr ⟨hx, hmem⟩
    exact (h.threads.remove Function.injective_id (List.mem_cons_of_mem _ hp) hlive).congr
      (fun _ => Iff.rfl) (fun x _ => hrel.field Entry.tgid (fun _ => rfl) x) fun _ _ => ⟨rfl, rfl⟩
  · have hpos := List.length_pos_of_mem hp
    rw [hrel.nrThreads, h.nrThreads]
    simp only [Census.remove, List.length_erase_of_mem hp]
    omega

/-- `SET_LINKS` of a task that is in neither the ring nor a family. -/
theorem setLinks_lists {l : List TaskId} {k : TaskId → List TaskId}
    (hr : Ring id t.pointers.ring initTaskAddr l) (hn : (initTaskAddr :: l).Nodup)
    (hk : Chains .elder .youngest t.pointers.family k) (hp : p ∉ initTaskAddr :: l)
    (hpk : ∀ q, p ∉ k q) :
    Ring id (setLinks p t).pointers.ring initTaskAddr (l ++ [p]) ∧
      Chains .elder .youngest (setLinks p t).pointers.family
        (Function.update k (t.pointers.pptr p) (p :: k (t.pointers.pptr p))) := by
  have hp0 : p ≠ initTaskAddr := fun he => hp (he ▸ List.mem_cons_self)
  constructor
  · rw [setLinks_ring hp0 (Option.some.inj (hr.get_back List.mem_cons_self))]
    exact hr.append hn hp Function.injective_id
  · rw [setLinks_family hp0 fun he => hpk _ ((hk.chain _).get_mem (Or.inl rfl) he)]
    exact hk.push family_layout hpk _

/-- `REMOVE_LINKS` before the parent changes. -/
theorem Table.Lists.unlink (h : t.Lists c) (hp : p ∈ c.tasks) (r : TaskId) :
    Ring id ((removeLinks p t).mod p fun e => { e with pPptr := r }).pointers.ring initTaskAddr
        (c.tasks.erase p) ∧
      Chains .elder .youngest
        ((removeLinks p t).mod p fun e => { e with pPptr := r }).pointers.family
        (c.remove p (t.tasks p).pPptr 0).kids := by
  have hring : (removeLinks p t).pointers.ring = _ := removeLinks_ring
  have hfamily : (removeLinks p t).pointers.family = _ :=
    removeLinks_family fun o => h.elder_parent hp
  have hv : ((removeLinks p t).mod p fun e => { e with pPptr := r }).pointers =
      { (removeLinks p t).pointers with
        pptr := Function.update (removeLinks p t).pointers.pptr p r } := by
    simp only [Table.mod_pointers, Pointers.ext_iff, Function.update_eq_self_iff]
    simp [Table.pointers]
  rw [hv]
  constructor
  · exact hring ▸ h.ring_remove hp
  · refine (hfamily ▸ h.family_remove hp (i := 0)).congr (fun q => rfl) fun q x hx => ⟨rfl, ?_⟩
    have hxp : x ≠ p := (h.mem_erase.mp (h.mem_kids_remove.mp hx).1).1
    simp only [Pointers.family, Function.update_of_ne hxp]

/-- A task that moves to another parent becomes its youngest child and the last of all tasks. -/
theorem Table.Lists.reparent (h : t.Lists c) (hp : p ∈ c.tasks) (r : TaskId) :
    (reparent p r t).Lists
      { c.move p (t.tasks p).pPptr r with tasks := c.tasks.erase p ++ [p] } := by
  have hp0 := h.ne_init hp
  have hrel := reparent_relinked p r t
  have hoff : p ∉ initTaskAddr :: c.tasks.erase p := by
    rw [List.mem_cons, not_or]
    exact ⟨hp0, fun hx => (h.mem_erase.mp hx).1 rfl⟩
  obtain ⟨hr, hk⟩ := h.unlink hp r
  obtain ⟨hring, hkids⟩ := setLinks_lists hr (h.nodup_remove p) hk hoff fun q hq =>
    (h.mem_erase.mp (h.mem_kids_remove.mp hq).1).1 rfl
  obtain ⟨hthreads, hhash, -⟩ :=
    setLinks_rest (t := (removeLinks p t).mod p fun e => { e with pPptr := r }) hp0
  obtain ⟨hthreads1, hhash1, -⟩ := removeLinks_rest (t := t) (p := p)
  have hpp : ((removeLinks p t).mod p fun e => { e with pPptr := r }).pointers.pptr p = r := by
    simp [Table.pointers, Table.mod]
  rw [hpp] at hkids
  have hv : ((removeLinks p t).mod p fun e => { e with pPptr := r }).pointers =
      { (removeLinks p t).pointers with
        pptr := Function.update (removeLinks p t).pointers.pptr p r } := by
    simp only [Table.mod_pointers, Pointers.ext_iff, Function.update_eq_self_iff]
    simp [Table.pointers]
  rw [hv] at hthreads hhash
  have hmem : ∀ x, x ∈ c.tasks.erase p ++ [p] ↔ x ∈ c.tasks := by
    intro x
    rw [List.mem_append, List.mem_singleton, h.mem_erase]
    by_cases hx : x = p
    · simp [hx, hp]
    · simp [hx]
  have hfield : ∀ {β : Type} (g : Entry → β), (∀ e, g e = g e.unlinked) →
      (∀ e, g { e with pPptr := r } = g e) →
      ∀ x, g ((ShortSched.reparent p r t).tasks x) = g (t.tasks x) :=
    fun g hg hg' x => (hrel.field g hg x).trans (Table.mod_field g hg' x)
  refine ⟨hring, ?_, hkids, fun x q => ?_, ?_, fun x i => ?_, ?_, ?_⟩
  · have hperm : (initTaskAddr :: (c.tasks.erase p ++ [p])).Perm
        (p :: initTaskAddr :: c.tasks.erase p) := by
      rw [← List.cons_append]
      exact List.perm_append_singleton _ _
    rw [hperm.nodup_iff, List.nodup_cons]
    exact ⟨hoff, h.nodup_remove p⟩
  · change x ∈ Function.update (c.remove p (t.tasks p).pPptr 0).kids r
      (p :: (c.remove p (t.tasks p).pPptr 0).kids r) q ↔ _
    rw [mem_update_cons, h.mem_kids_remove, hmem, hrel.field Entry.pPptr (fun _ => rfl),
      Table.mod_tasks, h.mem_erase]
    split_ifs with hxp
    · subst hxp
      simp [hp, eq_comm]
    · simp [hxp]
  · exact (hhash.trans hhash1) ▸ h.hashed
  · rw [hmem, hfield Entry.pid (fun _ => rfl) fun _ => rfl]
    exact h.bucket x i
  · refine h.threads.congr (fun x => ?_) (fun x _ => ?_) fun x _ => ?_
    · rw [List.mem_cons, List.mem_cons, hmem]
    · exact hfield Entry.tgid (fun _ => rfl) (fun _ => rfl) x
    · rw [show (ShortSched.reparent p r t).pointers.threads = _ from hthreads.trans hthreads1]
      exact ⟨rfl, rfl⟩
  · have hpos := List.length_pos_of_mem hp
    rw [hrel.nrThreads, show (t.mod p _).nrThreads = t.nrThreads from rfl, h.nrThreads]
    simp only [List.length_append, List.length_singleton, List.length_erase_of_mem hp]
    omega

/-- The end of `do_fork`, once the thread group is settled. -/
theorem Table.Lists.enter (h : t.Lists c) (hp : p ∉ initTaskAddr :: c.tasks)
    (hrel : Relinked t t') (hv : ∃ threadNext threadPrev, t'.pointers =
      { t.pointers with threadNext, threadPrev })
    (hthreads : Rings id t'.pointers.threads (fun x => x ∈ initTaskAddr :: c.tasks ∨ x = p)
      fun x => (t.tasks x).tgid) :
    { hashPid p (setLinks p t') with nrThreads := t'.nrThreads + 1 }.Lists
      (c.add p (t.tasks p).pPptr (pidHashfn (t.tasks p).pid)) := by
  have hp0 : p ≠ initTaskAddr := fun he => hp (he ▸ List.mem_cons_self)
  have hpt : p ∉ c.tasks := fun hx => hp (List.mem_cons_of_mem _ hx)
  obtain ⟨_, _, hv⟩ := hv
  have hfields := (hrel.trans (setLinks_relinked p t')).trans (hashPid_relinked p _)
  have hpid : ((setLinks p t').tasks p).pid = (t.tasks p).pid :=
    (hrel.trans (setLinks_relinked p t')).field Entry.pid (fun _ => rfl) p
  obtain ⟨hr, hk⟩ := setLinks_lists (t := t') (hv ▸ h.ring) h.nodup (hv ▸ h.kids) hp
    fun q hq => hpt ((h.parent p q).mp hq).1
  obtain ⟨ht1, hh1, -⟩ := setLinks_rest (t := t') hp0
  have hh2 := hashPid_hash (t := setLinks p t') (p := p)
  obtain ⟨_, _, _, h2⟩ := hashPid_pointers (t := setLinks p t') (p := p)
  rw [hpid, hh1] at hh2
  have hpp : t'.pointers.pptr p = (t.tasks p).pPptr := by
    rw [hv]
    rfl
  rw [hpp] at hk
  have hlast : ∀ x, x ∈ initTaskAddr :: (c.tasks ++ [p]) ↔ x ∈ initTaskAddr :: c.tasks ∨ x = p := by
    simp [or_assoc]
  have hfin : { hashPid p (setLinks p t') with nrThreads := t'.nrThreads + 1 }.pointers =
      (hashPid p (setLinks p t')).pointers := rfl
  refine ⟨?_, ?_, ?_, fun x q => ?_, ?_, fun x i => ?_, ?_, ?_⟩
  · rw [hfin, h2]
    exact hr
  · have hperm := List.perm_append_singleton p (initTaskAddr :: c.tasks)
    exact hperm.nodup_iff.mpr (List.nodup_cons.mpr ⟨hp, h.nodup⟩)
  · rw [hfin, h2]
    exact hk
  · simp only [Census.add]
    rw [mem_update_cons, h.parent, List.mem_append, List.mem_singleton,
      hfields.field Entry.pPptr fun _ => rfl]
    by_cases hx : x = p
    · simp [hx, hpt, eq_comm]
    · simp [hx]
  · rw [hfin, hh2, hv]
    exact h.hashed.push hash_layout (fun i hi => hpt ((h.bucket p i).mp hi).1) _
  · simp only [Census.add]
    rw [mem_update_cons, h.bucket, List.mem_append, List.mem_singleton,
      hfields.field Entry.pid fun _ => rfl]
    by_cases hx : x = p
    · simp [hx, hpt, eq_comm]
    · simp [hx]
  · rw [hfin, show (hashPid p (setLinks p t')).pointers.threads = t'.pointers.threads by
      rw [← ht1, h2]
      rfl]
    exact hthreads.congr hlast (fun x _ => hfields.field Entry.tgid (fun _ => rfl) x)
      fun _ _ => ⟨rfl, rfl⟩
  · simp [Census.add, hrel.nrThreads, h.nrThreads]

theorem Table.mod_mod (g : Entry → Entry) : (t.mod p f).mod p g = t.mod p fun e => g (f e) := by
  simp [Table.mod]

theorem Table.mod_self : (t.mod p f).tasks p = f (t.tasks p) := by
  simp [Table.mod]

/-- What `do_fork` settles for a new task before it is linked. -/
def Entry.settled (p : TaskId) (cloneParent cloneThread : Bool) (cur : TaskId) (ec e : Entry) :
    Entry :=
  { e with
    tgid := if cloneThread then ec.tgid else e.pid
    threadNext := p
    threadPrev := p
    pOpptr := if cloneParent then ec.pOpptr else cur
    pPptr := if cloneParent || e.ptraced then ec.pPptr else cur }

theorem linkTask_eq {cloneParent cloneThread : Bool} (hcur : t.current ≠ p) :
    linkTask p cloneParent cloneThread t =
      let t' := t.mod p (Entry.settled p cloneParent cloneThread t.current (t.tasks t.current))
      let t' := if cloneThread then addThread p t.current t' else t'
      { hashPid p (setLinks p t') with nrThreads := t'.nrThreads + 1 } := by
  have hread : ∀ f, (t.mod p f).tasks t.current = t.tasks t.current :=
    fun f => (Table.mod_tasks t.current).trans (if_neg hcur)
  have hrel : ∀ t', (hashPid p (setLinks p t')).nrThreads = t'.nrThreads :=
    fun t' => ((setLinks_relinked p t').trans (hashPid_relinked p _)).nrThreads
  unfold linkTask
  simp only [initThreadGroup, Table.setThreadNext, Table.setThreadPrev, Table.mod_mod, hread, hrel]
  cases cloneParent <;> cases cloneThread <;> cases hpt : (t.tasks p).ptraced <;>
    simp only [Table.mod_mod, hread, Table.mod_self, hpt, if_true, if_false,
      Bool.false_eq_true] <;>
    simp only [Table.mod, Entry.settled, hpt, Bool.or_self, Bool.or_true, Bool.true_or,
      if_true, if_false,
      Bool.false_eq_true]

theorem linkTask_relinked (cloneParent cloneThread : Bool) (hcur : t.current ≠ p) :
    Relinked ({ t with nrThreads := t.nrThreads + 1 }.mod p
        (Entry.settled p cloneParent cloneThread t.current (t.tasks t.current)))
      (linkTask p cloneParent cloneThread t) := by
  rw [linkTask_eq hcur]
  have hadd : ∀ t' : Table, Relinked t' (if cloneThread then addThread p t.current t' else t') := by
    intro t'
    split_ifs
    · exact addThread_relinked p t.current t'
    · exact Relinked.refl t'
  have h := fun f => ((hadd (t.mod p f)).trans (setLinks_relinked p _)).trans (hashPid_relinked p _)
  refine ⟨(h _).tasks, ?_, (h _).lastPid, (h _).nextSafe, (h _).current, (h _).childReaper,
    (h _).sent⟩
  simp only [(hadd _).nrThreads]
  rfl

/-- A fork adds the new task to every list. -/
theorem Table.Lists.linkTask (cloneParent cloneThread : Bool) (h : t.Lists c)
    (hp : p ∉ initTaskAddr :: c.tasks) (hc : (t.tasks p).pCptr = none)
    (hcur : t.current ∈ initTaskAddr :: c.tasks)
    (hfresh : cloneThread = false → ∀ x ∈ initTaskAddr :: c.tasks,
      (t.tasks x).tgid ≠ (t.tasks p).pid) :
    (linkTask p cloneParent cloneThread t).Lists (c.add p
      (Entry.settled p cloneParent cloneThread t.current (t.tasks t.current) (t.tasks p)).pPptr
      (pidHashfn (t.tasks p).pid)) := by
  have hne : ∀ x ∈ initTaskAddr :: c.tasks, x ≠ p := fun x hx he => hp (he ▸ hx)
  rw [linkTask_eq (hne _ hcur)]
  generalize hf : Entry.settled p cloneParent cloneThread t.current (t.tasks t.current) = f
  have hset := congrFun hf (t.tasks p)
  have hx : (t.mod p f).Lists c := h.outside hp (by rw [← hset]; exact hc) hc
  have hself : (t.mod p f).tasks p = f (t.tasks p) := Table.mod_self
  have hother : ∀ x ∈ initTaskAddr :: c.tasks, (t.mod p f).tasks x = t.tasks x :=
    fun x hx => (Table.mod_tasks x).trans (if_neg (hne x hx))
  have hpid : ((t.mod p f).tasks p).pid = (t.tasks p).pid := by
    rw [hself, ← hset]
    rfl
  rw [← hself, ← hpid]
  cases cloneThread with
  | false =>
    refine hx.enter hp (Relinked.refl _) ⟨_, _, rfl⟩ ?_
    have hlink : (t.mod p f).pointers.threadNext p = p ∧ (t.mod p f).pointers.threadPrev p = p := by
      constructor <;> simp only [Table.pointers, hself, ← hset] <;> rfl
    refine hx.threads.single hp (fun x => Iff.rfl) (fun x _ => rfl) (fun x hx => ?_) ?_ hlink.2
      fun x _ => ⟨rfl, rfl⟩
    · rw [hother x hx, hself, ← hset]
      exact hfresh rfl x hx
    · exact congrArg some hlink.1
  | true =>
    refine hx.enter hp (addThread_relinked p _ _) addThread_pointers ?_
    rw [if_pos rfl, addThread_threads]
    refine hx.threads.insert Function.injective_id hcur hp (fun x => Iff.rfl) (fun x _ => rfl) ?_
    rw [hother _ hcur, hself, ← hset]
    rfl

end
end ShortSched
