import Mathlib.Data.List.Nodup
import Mathlib.Logic.Function.Basic
import Mathlib.Tactic

/-! Linked lists in memory. A cell holds a pointer to a node. Every node has a cell of its own,
for its successor, and points back to the cell through which it is reached; a list head is the
cell of no node. A chain ends in a null pointer, a ring comes back to the node it started from. -/
namespace Cells

variable {κ α ι γ : Type*}

/-- What the cells hold, and where the nodes point back to. -/
structure Links (κ α : Type*) where
  get : κ → Option α
  back : α → κ

/-- From cell `u` on the nodes `l` are reached; `v` is the cell behind the last of them. -/
def Seg (cell : α → κ) (m : Links κ α) : κ → List α → κ → Prop
  | u, [], v => u = v
  | u, a :: l, v => m.get u = some a ∧ m.back a = u ∧ Seg cell m (cell a) l v

def Chain (cell : α → κ) (m : Links κ α) (u : κ) (l : List α) : Prop :=
  ∃ v, Seg cell m u l v ∧ m.get v = none

/-- Behind node `s` come the nodes `l`, and then `s` again. -/
def Ring (cell : α → κ) (m : Links κ α) (s : α) (l : List α) : Prop :=
  Seg cell m (cell s) (l ++ [s]) (cell s)

/-- The nodes from cell `u` on up to the pointer `stop`; `none` where the list ends early or is
longer than the fuel. -/
def walk [DecidableEq α] (cell : α → κ) (get : κ → Option α) (stop : Option α) :
    ℕ → κ → Option (List α)
  | 0, _ => none
  | n + 1, u =>
    if get u = stop then some []
    else match get u with
      | none => none
      | some a => (walk cell get stop n (cell a)).map (a :: ·)

section
variable {cell : α → κ} {m m' : Links κ α} {u v w : κ} {l l₁ l₂ : List α} {a x s : α}

theorem seg_append :
    Seg cell m u (l₁ ++ l₂) w ↔ ∃ v, Seg cell m u l₁ v ∧ Seg cell m v l₂ w := by
  induction l₁ generalizing u with
  | nil => simp [Seg]
  | cons a l₁ ih => simp [Seg, ih, and_assoc]

/-- A node is reached from the cell that it points back to. -/
theorem Seg.get_back (h : Seg cell m u l v) (ha : a ∈ l) : m.get (m.back a) = some a := by
  induction l generalizing u with
  | nil => cases ha
  | cons b l ih =>
    rcases List.mem_cons.mp ha with rfl | ha
    · rw [h.2.1]
      exact h.1
    · exact ih h.2.2 ha

/-- A node points back to where the list starts or to the cell of another node. -/
theorem Seg.back_eq (h : Seg cell m u l v) (ha : a ∈ l) :
    m.back a = u ∨ ∃ x ∈ l, m.back a = cell x := by
  induction l generalizing u with
  | nil => cases ha
  | cons b l ih =>
    rcases List.mem_cons.mp ha with rfl | ha
    · exact Or.inl h.2.1
    · right
      rcases ih h.2.2 ha with hb | ⟨x, hx, hb⟩
      · exact ⟨b, List.mem_cons_self, hb⟩
      · exact ⟨x, List.mem_cons_of_mem _ hx, hb⟩

/-- The first cell and the cells of the nodes hold nodes of the list or what comes after it. -/
theorem Seg.get_mem (h : Seg cell m u l v) (hw : w = u ∨ ∃ x ∈ l, w = cell x) :
    w = v ∨ ∃ a ∈ l, m.get w = some a := by
  induction l generalizing u with
  | nil =>
    rcases hw with rfl | ⟨x, hx, -⟩
    · exact Or.inl h
    · cases hx
  | cons b l ih =>
    have hrest : w = cell b ∨ (∃ x ∈ l, w = cell x) → w = v ∨ ∃ a ∈ b :: l, m.get w = some a := by
      intro hw
      refine (ih h.2.2 hw).imp_right ?_
      rintro ⟨a, ha, hg⟩
      exact ⟨a, List.mem_cons_of_mem _ ha, hg⟩
    rcases hw with rfl | ⟨x, hx, rfl⟩
    · exact Or.inr ⟨b, List.mem_cons_self, h.1⟩
    · rcases List.mem_cons.mp hx with rfl | hx
      · exact hrest (Or.inl rfl)
      · exact hrest (Or.inr ⟨x, hx, rfl⟩)

theorem Seg.back_ne (h : Seg cell m u l v) (ha : a ∈ l) (hx : x ∈ l) (hne : a ≠ x) :
    m.back a ≠ m.back x := by
  intro he
  apply hne
  apply Option.some.inj
  rw [← h.get_back ha, he, h.get_back hx]

/-- The last cell is that of the last node, if there is one. -/
theorem Seg.last (h : Seg cell m u l v) : v = u ∧ l = [] ∨ ∃ a ∈ l, v = cell a := by
  induction l generalizing u with
  | nil => exact Or.inl ⟨Eq.symm h, rfl⟩
  | cons b l ih =>
    right
    rcases ih h.2.2 with ⟨rfl, -⟩ | ⟨a, ha, rfl⟩
    · exact ⟨b, List.mem_cons_self, rfl⟩
    · exact ⟨a, List.mem_cons_of_mem _ ha, rfl⟩

/-- Only the nodes' back pointers matter and the cells that these lead to. -/
theorem Seg.congr (h : Seg cell m u l v) (hg : ∀ a ∈ l, m'.get (m.back a) = m.get (m.back a))
    (hb : ∀ a ∈ l, m'.back a = m.back a) : Seg cell m' u l v := by
  induction l generalizing u with
  | nil => exact h
  | cons a l ih =>
    obtain ⟨hget, hback, hl⟩ := h
    refine ⟨?_, ?_, ih hl ?_ ?_⟩
    · rw [← hback, hg a List.mem_cons_self, hback]
      exact hget
    · rw [hb a List.mem_cons_self]
      exact hback
    · exact fun b hmem => hg b (List.mem_cons_of_mem _ hmem)
    · exact fun b hmem => hb b (List.mem_cons_of_mem _ hmem)

theorem Chain.congr (h : Chain cell m u l) (hu : m'.get u = m.get u)
    (hg : ∀ a ∈ l, m'.get (m.back a) = m.get (m.back a) ∧ m'.get (cell a) = m.get (cell a))
    (hb : ∀ a ∈ l, m'.back a = m.back a) : Chain cell m' u l := by
  obtain ⟨v, hs, hv⟩ := h
  refine ⟨v, hs.congr (fun a ha => (hg a ha).1) hb, ?_⟩
  rcases hs.last with ⟨rfl, -⟩ | ⟨a, ha, rfl⟩
  · rwa [hu]
  · rwa [(hg a ha).2]

theorem Ring.congr (h : Ring cell m s l)
    (hg : ∀ a ∈ s :: l, m'.get (m.back a) = m.get (m.back a))
    (hb : ∀ a ∈ s :: l, m'.back a = m.back a) : Ring cell m' s l := by
  have hmem : ∀ a ∈ l ++ [s], a ∈ s :: l := by simp [or_comm]
  exact Seg.congr h (fun a ha => hg a (hmem a ha)) fun a ha => hb a (hmem a ha)

theorem Chain.get_mem (h : Chain cell m u l) (hw : w = u ∨ ∃ x ∈ l, w = cell x)
    (ha : m.get w = some a) : a ∈ l := by
  obtain ⟨v, hs, hv⟩ := h
  rcases hs.get_mem hw with rfl | ⟨b, hb, hg⟩
  · cases hv.symm.trans ha
  · rw [hg] at ha
    exact Option.some.inj ha ▸ hb

theorem Chain.head (h : Chain cell m u (a :: l)) : m.get u = some a := by
  obtain ⟨v, hs, -⟩ := h
  exact hs.1

theorem Chain.back_eq (h : Chain cell m u l) (ha : a ∈ l) :
    m.back a = u ∨ ∃ x ∈ l, m.back a = cell x := by
  obtain ⟨v, hs, -⟩ := h
  exact hs.back_eq ha

/-- In a ring every node points back to the cell of one. -/
theorem Ring.back_eq (h : Ring cell m s l) (ha : a ∈ s :: l) :
    ∃ x ∈ s :: l, m.back a = cell x := by
  rcases Seg.back_eq h (a := a) (by simpa [or_comm] using ha) with hb | ⟨x, hx, hb⟩
  · exact ⟨s, List.mem_cons_self, hb⟩
  · exact ⟨x, by simpa [or_comm] using hx, hb⟩

/-- Only the cells of the nodes matter and their back pointers. -/
theorem Ring.congr_cells (h : Ring cell m s l)
    (hm : ∀ a ∈ s :: l, m'.get (cell a) = m.get (cell a) ∧ m'.back a = m.back a) :
    Ring cell m' s l := by
  refine h.congr (fun a ha => ?_) fun a ha => (hm a ha).2
  obtain ⟨x, hx, hb⟩ := h.back_eq ha
  rw [hb]
  exact (hm x hx).1

/-- A ring can be entered at any of its nodes. -/
theorem Ring.rotate (h : Ring cell m s (l₁ ++ a :: l₂)) : Ring cell m a (l₂ ++ s :: l₁) := by
  unfold Ring at h ⊢
  rw [List.append_assoc, seg_append] at h
  obtain ⟨v, h1, hget, hback, h2⟩ := h
  have h3 : Seg cell m (cell s) (l₁ ++ [a]) (cell a) := seg_append.mpr ⟨v, h1, hget, hback, rfl⟩
  have := seg_append.mpr ⟨cell s, h2, h3⟩
  simpa using this

/-- Every node has a successor in the ring, which points back to it. -/
theorem Ring.next (h : Ring cell m s l) (ha : a ∈ s :: l) :
    ∃ x ∈ s :: l, m.get (cell a) = some x ∧ m.back x = cell a := by
  rcases List.mem_cons.mp ha with rfl | ha
  · cases l with
    | nil => exact ⟨a, List.mem_cons_self, h.1, h.2.1⟩
    | cons x l => exact ⟨x, by simp, h.1, h.2.1⟩
  · obtain ⟨l₁, l₂, rfl⟩ := List.append_of_mem ha
    have hr := h.rotate
    cases l₂ with
    | nil => exact ⟨s, List.mem_cons_self, hr.1, hr.2.1⟩
    | cons x l₂ => exact ⟨x, by simp, hr.1, hr.2.1⟩

theorem Ring.get_back (h : Ring cell m s l) (ha : a ∈ s :: l) : m.get (m.back a) = some a :=
  Seg.get_back h (by simpa [or_comm] using ha)

section walk
variable [DecidableEq α] {stop : Option α} {n : ℕ}

theorem Seg.walk (h : Seg cell m u l v) (hv : m.get v = stop) (hl : ∀ a ∈ l, some a ≠ stop)
    (hn : l.length < n) : Cells.walk cell m.get stop n u = some l := by
  induction l generalizing u n with
  | nil =>
    obtain ⟨n, rfl⟩ := Nat.exists_eq_succ_of_ne_zero (Nat.ne_of_gt hn)
    cases h
    simp [Cells.walk, hv]
  | cons a l ih =>
    obtain ⟨n, rfl⟩ := Nat.exists_eq_succ_of_ne_zero (Nat.ne_of_gt (Nat.zero_lt_of_lt hn))
    obtain ⟨hget, -, hs⟩ := h
    have hrest := ih hs (fun b hb => hl b (List.mem_cons_of_mem _ hb)) (Nat.lt_of_succ_lt_succ hn)
    simp [Cells.walk, hget, hl a List.mem_cons_self, hrest]

theorem Chain.walk (h : Chain cell m u l) (hn : l.length < n) :
    Cells.walk cell m.get none n u = some l := by
  obtain ⟨v, hs, hv⟩ := h
  exact hs.walk hv (by simp) hn

/-- More fuel does not change the walk. -/
theorem walk_mono {get : κ → Option α} {k : ℕ} (hk : n ≤ k)
    (h : Cells.walk cell get stop n u = some l) : Cells.walk cell get stop k u = some l := by
  induction n generalizing u k l with
  | zero => cases h
  | succ n ih =>
    obtain ⟨k, rfl⟩ := Nat.exists_eq_succ_of_ne_zero (by omega : k ≠ 0)
    rw [Cells.walk] at h ⊢
    split_ifs at h ⊢ with hs
    · exact h
    · cases hg : get u with
      | none => simp [hg] at h
      | some a =>
        simp only [hg, Option.map_eq_some_iff] at h ⊢
        obtain ⟨l', hl', rfl⟩ := h
        exact ⟨l', ih (by omega) hl', rfl⟩

/-- A chain lists its nodes in one order only. -/
theorem Chain.unique (h : Chain cell m u l) (h' : Chain cell m u l₁) : l = l₁ := by
  have hl := h.walk (n := l.length + l₁.length + 1) (by omega)
  rw [h'.walk (by omega)] at hl
  exact (Option.some.inj hl).symm

theorem Ring.walk (h : Ring cell m s l) (hs : s ∉ l) (hn : l.length < n) :
    Cells.walk cell m.get (some s) n (cell s) = some l := by
  obtain ⟨v, hl, hv, -, -⟩ := seg_append.mp h
  refine hl.walk hv (fun a ha he => ?_) hn
  exact hs (Option.some.inj he ▸ ha)

end walk

/-! Insertion and removal. -/

variable [DecidableEq κ] [DecidableEq α]

/-- `a` comes behind cell `v`. -/
def Links.insert (cell : α → κ) (v : κ) (a : α) (m : Links κ α) : Links κ α where
  get := Function.update (Function.update m.get (cell a) (m.get v)) v (some a)
  back := Function.update (match m.get v with
    | none => m.back
    | some x => Function.update m.back x (cell a)) a v

/-- The cell before `a` takes over its successor. -/
def Links.remove (cell : α → κ) (a : α) (m : Links κ α) : Links κ α where
  get := Function.update m.get (m.back a) (m.get (cell a))
  back := match m.get (cell a) with
    | none => m.back
    | some x => Function.update m.back x (m.back a)

@[simp] theorem Links.insert_get_self : (m.insert cell v a).get v = some a := by
  simp [Links.insert]

theorem Links.insert_get_cell (h : cell a ≠ v) : (m.insert cell v a).get (cell a) = m.get v := by
  simp [Links.insert, h]

theorem Links.insert_get_ne (hv : w ≠ v) (ha : w ≠ cell a) :
    (m.insert cell v a).get w = m.get w := by
  simp [Links.insert, hv, ha]

@[simp] theorem Links.insert_back_self : (m.insert cell v a).back a = v := by
  simp [Links.insert]

theorem Links.insert_back_next (h : m.get v = some x) (hx : x ≠ a) :
    (m.insert cell v a).back x = cell a := by
  simp [Links.insert, h, hx]

theorem Links.insert_back_ne (h : m.get v ≠ some x) (hx : x ≠ a) :
    (m.insert cell v a).back x = m.back x := by
  unfold Links.insert
  cases hv : m.get v with
  | none => simp [hx]
  | some y =>
    have hy : x ≠ y := by
      rintro rfl
      exact h hv
    simp [hx, hy]

@[simp] theorem Links.remove_get_self :
    (m.remove cell a).get (m.back a) = m.get (cell a) := by
  simp [Links.remove]

theorem Links.remove_get_ne (h : w ≠ m.back a) : (m.remove cell a).get w = m.get w := by
  simp [Links.remove, h]

theorem Links.remove_back_next (h : m.get (cell a) = some x) :
    (m.remove cell a).back x = m.back a := by
  simp [Links.remove, h]

theorem Links.remove_back_ne (h : m.get (cell a) ≠ some x) :
    (m.remove cell a).back x = m.back x := by
  unfold Links.remove
  cases ha : m.get (cell a) with
  | none => rfl
  | some y =>
    have hy : x ≠ y := by
      rintro rfl
      exact h ha
    simp [hy]

/-- A new node comes before the node `x`. -/
theorem Seg.insert_before (h : Seg cell m u (l₁ ++ x :: l₂) w) (hn : (l₁ ++ x :: l₂).Nodup)
    (ha : a ∉ l₁ ++ x :: l₂) (hc : ∀ y ∈ l₁ ++ x :: l₂, m.back y ≠ cell a) :
    Seg cell (m.insert cell (m.back x) a) u (l₁ ++ a :: x :: l₂) w := by
  have hx : x ∈ l₁ ++ x :: l₂ := by simp
  have hget := h.get_back hx
  have hxa : x ≠ a := fun he => ha (he ▸ hx)
  have hframe : ∀ y ∈ l₁ ++ x :: l₂, y ≠ x →
      (m.insert cell (m.back x) a).get (m.back y) = m.get (m.back y) ∧
        (m.insert cell (m.back x) a).back y = m.back y := by
    intro y hy hyx
    refine ⟨Links.insert_get_ne (h.back_ne hy hx hyx) (hc y hy), Links.insert_back_ne ?_ ?_⟩
    · rw [hget]
      exact fun he => hyx (Option.some.inj he).symm
    · exact fun he => ha (he ▸ hy)
  obtain ⟨hn1, hn2, hdis⟩ := List.nodup_append.mp hn
  obtain ⟨v, h1, hv, rfl, h2⟩ := seg_append.mp h
  refine seg_append.mpr ⟨_, h1.congr (fun y hy => ?_) fun y hy => ?_, Links.insert_get_self,
    Links.insert_back_self, ?_, Links.insert_back_next hget hxa,
    h2.congr (fun y hy => ?_) fun y hy => ?_⟩
  · exact (hframe y (by simp [hy]) (hdis y hy x (by simp))).1
  · exact (hframe y (by simp [hy]) (hdis y hy x (by simp))).2
  · rw [Links.insert_get_cell (hc x hx).symm, hget]
  · exact (hframe y (by simp [hy]) fun he => (List.nodup_cons.mp hn2).1 (he ▸ hy)).1
  · exact (hframe y (by simp [hy]) fun he => (List.nodup_cons.mp hn2).1 (he ▸ hy)).2

/-- A node between two others goes. -/
theorem Seg.remove (h : Seg cell m u (l₁ ++ a :: x :: l₂) w) (hn : (l₁ ++ a :: x :: l₂).Nodup) :
    Seg cell (m.remove cell a) u (l₁ ++ x :: l₂) w := by
  have ha : a ∈ l₁ ++ a :: x :: l₂ := by simp
  obtain ⟨hn1, hn2, hdis⟩ := List.nodup_append.mp hn
  obtain ⟨v, h1, hv, rfl, hnext, hback, h2⟩ := seg_append.mp h
  have hframe : ∀ y ∈ l₁ ++ a :: x :: l₂, y ≠ a → y ≠ x →
      (m.remove cell a).get (m.back y) = m.get (m.back y) ∧
        (m.remove cell a).back y = m.back y := by
    intro y hy hya hyx
    refine ⟨Links.remove_get_ne (h.back_ne hy ha hya), Links.remove_back_ne ?_⟩
    rw [hnext]
    exact fun he => hyx (Option.some.inj he).symm
  refine seg_append.mpr ⟨_, h1.congr (fun y hy => ?_) fun y hy => ?_, ?_,
    Links.remove_back_next hnext, h2.congr (fun y hy => ?_) fun y hy => ?_⟩
  · exact (hframe y (by simp [hy]) (hdis y hy a (by simp)) (hdis y hy x (by simp))).1
  · exact (hframe y (by simp [hy]) (hdis y hy a (by simp)) (hdis y hy x (by simp))).2
  · rw [Links.remove_get_self, hnext]
  · refine (hframe y (by simp [hy]) ?_ ?_).1
    · rintro rfl
      exact (List.nodup_cons.mp hn2).1 (List.mem_cons_of_mem _ hy)
    · rintro rfl
      exact (List.nodup_cons.mp (List.nodup_cons.mp hn2).2).1 hy
  · refine (hframe y (by simp [hy]) ?_ ?_).2
    · rintro rfl
      exact (List.nodup_cons.mp hn2).1 (List.mem_cons_of_mem _ hy)
    · rintro rfl
      exact (List.nodup_cons.mp (List.nodup_cons.mp hn2).2).1 hy

/-- A new node becomes the first of a chain. -/
theorem Chain.push (h : Chain cell m u l) (hn : l.Nodup) (ha : a ∉ l)
    (hc : ∀ y ∈ l, m.back y ≠ cell a) (hu : ∀ y, cell y ≠ u)
    (hcell : Function.Injective cell) : Chain cell (m.insert cell u a) u (a :: l) := by
  obtain ⟨v, hs, hv⟩ := h
  cases l with
  | nil =>
    cases hs
    refine ⟨cell a, ⟨Links.insert_get_self, Links.insert_back_self, rfl⟩, ?_⟩
    rwa [Links.insert_get_cell (hu a)]
  | cons x l =>
    have hb : m.back x = u := hs.2.1
    have hs' : Seg cell (m.insert cell (m.back x) a) u ([] ++ a :: x :: l) v :=
      Seg.insert_before hs hn ha hc
    rw [hb] at hs'
    refine ⟨v, hs', ?_⟩
    rcases hs.last with ⟨-, hl⟩ | ⟨y, hy, rfl⟩
    · cases hl
    · rwa [Links.insert_get_ne (hu y) fun he => ha ((hcell he : y = a) ▸ hy)]

/-- A node of a chain goes. -/
theorem Chain.remove (h : Chain cell m u (l₁ ++ a :: l₂)) (hn : (l₁ ++ a :: l₂).Nodup) :
    Chain cell (m.remove cell a) u (l₁ ++ l₂) := by
  obtain ⟨w, hs, hw⟩ := h
  cases l₂ with
  | nil =>
    obtain ⟨v, h1, hv, rfl, rfl⟩ := seg_append.mp hs
    have hne : ∀ y ∈ l₁, y ≠ a := fun y hy => (List.nodup_append.mp hn).2.2 y hy a (by simp)
    refine ⟨m.back a, ?_, by rwa [Links.remove_get_self]⟩
    rw [List.append_nil]
    refine h1.congr (fun y hy => ?_) fun y hy => Links.remove_back_ne (by simp [hw])
    exact Links.remove_get_ne (hs.back_ne (by simp [hy]) (by simp) (hne y hy))
  | cons x l₂ =>
    refine ⟨w, hs.remove hn, ?_⟩
    have hget := hs.get_back (a := a) (by simp)
    rw [Links.remove_get_ne, hw]
    rintro rfl
    cases hw.symm.trans hget

/-- A new node comes before the node `x` of a ring. -/
theorem Ring.insert_before (h : Ring cell m s l) (hn : (s :: l).Nodup) (hx : x ∈ s :: l)
    (ha : a ∉ s :: l) (hc : ∀ y ∈ s :: l, m.back y ≠ cell a) :
    ∃ l₁ l₂, l = l₁ ++ l₂ ∧ Ring cell (m.insert cell (m.back x) a) s (l₁ ++ a :: l₂) ∧
      (x = s → l₂ = []) := by
  have hperm : (l ++ [s]).Perm (s :: l) := List.perm_append_singleton s l
  have hins : ∀ l₁ l₂, l ++ [s] = l₁ ++ x :: l₂ →
      Seg cell (m.insert cell (m.back x) a) (cell s) (l₁ ++ a :: x :: l₂) (cell s) := by
    intro l₁ l₂ he
    rw [← hperm.nodup_iff, he] at hn
    rw [← hperm.mem_iff, he] at ha
    unfold Ring at h
    rw [he] at h
    exact h.insert_before hn ha fun y hy => hc y (hperm.mem_iff.mp (he ▸ hy))
  by_cases hxs : x = s
  · subst hxs
    refine ⟨l, [], by simp, ?_, fun _ => rfl⟩
    simpa [Ring] using hins l [] rfl
  · obtain ⟨l₁, l₂, rfl⟩ := List.append_of_mem ((List.mem_cons.mp hx).resolve_left hxs)
    refine ⟨l₁, x :: l₂, rfl, ?_, fun he => absurd he hxs⟩
    simpa [Ring] using hins l₁ (l₂ ++ [s]) (by simp)

/-- A new node comes last in a ring. -/
theorem Ring.append (h : Ring cell m s l) (hn : (s :: l).Nodup) (ha : a ∉ s :: l)
    (hcell : Function.Injective cell) :
    Ring cell (m.insert cell (m.back s) a) s (l ++ [a]) := by
  obtain ⟨l₁, l₂, rfl, hr, hl₂⟩ := h.insert_before hn List.mem_cons_self ha fun y hy he => by
    obtain ⟨x, hx, hb⟩ := h.back_eq hy
    exact ha ((hcell (hb.symm.trans he) : x = a) ▸ hx)
  rw [hl₂ rfl] at hr ⊢
  simpa using hr

/-- A node of a ring goes. -/
theorem Ring.remove (h : Ring cell m s (l₁ ++ a :: l₂)) (hn : (s :: (l₁ ++ a :: l₂)).Nodup) :
    Ring cell (m.remove cell a) s (l₁ ++ l₂) := by
  have hn' : (l₁ ++ a :: (l₂ ++ [s])).Nodup := by
    rw [← (List.perm_append_singleton s (l₁ ++ a :: l₂)).nodup_iff] at hn
    simpa using hn
  unfold Ring at h ⊢
  rw [List.append_assoc, List.cons_append] at h
  rw [List.append_assoc]
  cases l₂ with
  | nil => exact h.remove hn'
  | cons x l₂ => exact h.remove hn'

/-! Several lists in the same memory. -/

/-- The cells of the nodes and the list heads are different ones. -/
structure Layout (cell : α → κ) (head : ι → κ) : Prop where
  cellInj : Function.Injective cell
  headInj : Function.Injective head
  apart : ∀ a i, cell a ≠ head i

/-- Disjoint chains, one behind each list head. -/
structure Chains (cell : α → κ) (head : ι → κ) (m : Links κ α) (q : ι → List α) : Prop where
  chain : ∀ i, Chain cell m (head i) (q i)
  nodup : ∀ i, (q i).Nodup
  disjoint : ∀ i j a, a ∈ q i → a ∈ q j → i = j

/-- The nodes of each group form a ring; `g` says to which group a node belongs. -/
def Rings (cell : α → κ) (m : Links κ α) (live : α → Prop) (g : α → γ) : Prop :=
  ∀ a, live a → ∃ l, Ring cell m a l ∧ (a :: l).Nodup ∧ ∀ x, x ∈ a :: l ↔ live x ∧ g x = g a

section chains
variable {head : ι → κ} {q : ι → List α} {i j : ι}

omit [DecidableEq κ] [DecidableEq α] in
/-- Only the list heads, the cells of the nodes and their back pointers matter. -/
theorem Chains.congr (h : Chains cell head m q) (hh : ∀ i, m'.get (head i) = m.get (head i))
    (hm : ∀ i, ∀ a ∈ q i, m'.get (cell a) = m.get (cell a) ∧ m'.back a = m.back a) :
    Chains cell head m' q where
  chain i := by
    refine (h.chain i).congr (hh i) (fun a ha => ⟨?_, (hm i a ha).1⟩) fun a ha => (hm i a ha).2
    rcases (h.chain i).back_eq ha with hb | ⟨x, hx, hb⟩
    · rw [hb, hh]
    · rw [hb, (hm i x hx).1]
  nodup := h.nodup
  disjoint := h.disjoint

omit [DecidableEq κ] [DecidableEq α] in
/-- The cells of one chain are those of no other. -/
theorem Chains.apart (h : Chains cell head m q) (hl : Layout cell head) (hij : j ≠ i)
    (hv : v = head i ∨ ∃ x ∈ q i, v = cell x) (hw : w = head j ∨ ∃ y ∈ q j, w = cell y) :
    w ≠ v := by
  rintro rfl
  rcases hv with rfl | ⟨x, hx, rfl⟩ <;> rcases hw with hw | ⟨y, hy, hw⟩
  · exact hij (hl.headInj hw).symm
  · exact hl.apart y i hw.symm
  · exact hl.apart x j hw
  · exact hij (h.disjoint j i x (hl.cellInj hw ▸ hy) hx)

/-- A new node becomes the first of its chain. -/
theorem Chains.push [DecidableEq ι] (h : Chains cell head m q) (hl : Layout cell head)
    (ha : ∀ j, a ∉ q j) (i : ι) :
    Chains cell head (m.insert cell (head i) a) (Function.update q i (a :: q i)) where
  chain j := by
    have hfresh : ∀ j, ∀ y ∈ q j, m.back y ≠ cell a := by
      intro j y hy he
      rcases (h.chain j).back_eq hy with hb | ⟨z, hz, hb⟩
      · exact hl.apart a j (he.symm.trans hb)
      · exact ha j (hl.cellInj (he.symm.trans hb) ▸ hz)
    by_cases hij : j = i
    · subst hij
      rw [Function.update_self]
      exact (h.chain j).push (h.nodup j) (ha j) (hfresh j) (fun y => hl.apart y j) hl.cellInj
    · rw [Function.update_of_ne hij]
      have hget : ∀ w, (w = head j ∨ ∃ y ∈ q j, w = cell y) →
          (m.insert cell (head i) a).get w = m.get w := by
        intro w hw
        refine Links.insert_get_ne (h.apart hl hij (Or.inl rfl) hw) ?_
        rcases hw with rfl | ⟨y, hy, rfl⟩
        · exact (hl.apart a j).symm
        · exact fun he => ha j (hl.cellInj he ▸ hy)
      refine (h.chain j).congr (hget _ (Or.inl rfl)) (fun y hy => ⟨hget _ ?_, hget _ ?_⟩)
        fun y hy => Links.insert_back_ne (fun hg => ?_) fun he => ha j (he ▸ hy)
      · exact (h.chain j).back_eq hy
      · exact Or.inr ⟨y, hy, rfl⟩
      · exact hij (h.disjoint j i y hy ((h.chain i).get_mem (Or.inl rfl) hg))
  nodup j := by
    by_cases hij : j = i
    · subst hij
      rw [Function.update_self]
      exact List.nodup_cons.mpr ⟨ha j, h.nodup j⟩
    · rw [Function.update_of_ne hij]
      exact h.nodup j
  disjoint j k x hj hk := by
    have hx : ∀ j, x ∈ Function.update q i (a :: q i) j ↔ x = a ∧ j = i ∨ x ∈ q j := by
      intro j
      by_cases hij : j = i
      · subst hij
        simp
      · simp [hij]
    rcases (hx j).mp hj with ⟨hxj, hji⟩ | hxj <;> rcases (hx k).mp hk with ⟨hxk, hki⟩ | hxk
    · rw [hji, hki]
    · exact absurd (hxj ▸ hxk) (ha k)
    · exact absurd (hxk ▸ hxj) (ha j)
    · exact h.disjoint j k x hxj hxk

/-- A node leaves its chain. -/
theorem Chains.remove [DecidableEq ι] (h : Chains cell head m q) (hl : Layout cell head)
    (ha : a ∈ q i) : Chains cell head (m.remove cell a) (Function.update q i ((q i).erase a)) where
  chain j := by
    by_cases hij : j = i
    · subst hij
      obtain ⟨l₁, l₂, he⟩ := List.append_of_mem ha
      have hn := h.nodup j
      have hc := h.chain j
      rw [he] at hn hc
      have hl₁ : a ∉ l₁ := fun hmem => (List.nodup_append.mp hn).2.2 a hmem a (by simp) rfl
      rw [Function.update_self, he, List.erase_append_right _ hl₁, List.erase_cons_head]
      exact hc.remove hn
    · rw [Function.update_of_ne hij]
      have hget : ∀ w, (w = head j ∨ ∃ y ∈ q j, w = cell y) →
          (m.remove cell a).get w = m.get w := fun w hw =>
        Links.remove_get_ne (h.apart hl hij ((h.chain i).back_eq ha) hw)
      refine (h.chain j).congr (hget _ (Or.inl rfl)) (fun y hy => ⟨hget _ ?_, hget _ ?_⟩)
        fun y hy => Links.remove_back_ne fun hg => ?_
      · exact (h.chain j).back_eq hy
      · exact Or.inr ⟨y, hy, rfl⟩
      · exact hij (h.disjoint j i y hy ((h.chain i).get_mem (Or.inr ⟨a, ha, rfl⟩) hg))
  nodup j := by
    by_cases hij : j = i
    · subst hij
      rw [Function.update_self]
      exact (h.nodup j).erase a
    · rw [Function.update_of_ne hij]
      exact h.nodup j
  disjoint j k x hj hk := by
    have hx : ∀ j, x ∈ Function.update q i ((q i).erase a) j → x ∈ q j := by
      intro j hmem
      by_cases hij : j = i
      · subst hij
        rw [Function.update_self] at hmem
        exact List.mem_of_mem_erase hmem
      · rwa [Function.update_of_ne hij] at hmem
    exact h.disjoint j k x (hx j hj) (hx k hk)

end chains

section rings
variable {live live' : α → Prop} {g g' : α → γ} {c : α}

omit [DecidableEq κ] [DecidableEq α] in
theorem Rings.back_eq (h : Rings cell m live g) (ha : live a) :
    ∃ x, live x ∧ g x = g a ∧ m.back a = cell x := by
  obtain ⟨l, hr, -, hl⟩ := h a ha
  obtain ⟨x, hx, hb⟩ := hr.back_eq List.mem_cons_self
  exact ⟨x, ((hl x).mp hx).1, ((hl x).mp hx).2, hb⟩

omit [DecidableEq κ] [DecidableEq α] in
theorem Rings.get_eq (h : Rings cell m live g) (ha : live a) :
    ∃ x, live x ∧ g x = g a ∧ m.get (cell a) = some x ∧ m.back x = cell a := by
  obtain ⟨l, hr, -, hl⟩ := h a ha
  obtain ⟨x, hx, hg, hb⟩ := hr.next List.mem_cons_self
  exact ⟨x, ((hl x).mp hx).1, ((hl x).mp hx).2, hg, hb⟩

omit [DecidableEq κ] [DecidableEq α] in
theorem Rings.get_back (h : Rings cell m live g) (ha : live a) : m.get (m.back a) = some a := by
  obtain ⟨l, hr, -, -⟩ := h a ha
  exact hr.get_back List.mem_cons_self

omit [DecidableEq κ] [DecidableEq α] in
theorem Rings.congr (h : Rings cell m live g) (hlive : ∀ x, live' x ↔ live x)
    (hg : ∀ x, live x → g' x = g x)
    (hm : ∀ x, live x → m'.get (cell x) = m.get (cell x) ∧ m'.back x = m.back x) :
    Rings cell m' live' g' := by
  intro a ha
  rw [hlive] at ha
  obtain ⟨l, hr, hn, hl⟩ := h a ha
  refine ⟨l, hr.congr_cells fun x hx => hm x ((hl x).mp hx).1, hn, fun x => ?_⟩
  rw [hl, hlive, hg a ha]
  exact and_congr_right fun hx => by rw [hg x hx]

omit [DecidableEq κ] [DecidableEq α] in
/-- A node that starts a group of its own. -/
theorem Rings.single (h : Rings cell m live g) (hc : ¬ live c)
    (hlive : ∀ x, live' x ↔ live x ∨ x = c) (hg : ∀ x, live x → g' x = g x)
    (hgc : ∀ x, live x → g x ≠ g' c) (hget : m'.get (cell c) = some c) (hback : m'.back c = cell c)
    (hm : ∀ x, x ≠ c → m'.get (cell x) = m.get (cell x) ∧ m'.back x = m.back x) :
    Rings cell m' live' g' := by
  intro a ha
  have hne : ∀ x, live x → x ≠ c := fun x hx he => hc (he ▸ hx)
  rcases (hlive a).mp ha with ha | rfl
  · obtain ⟨l, hr, hn, hl⟩ := h a ha
    refine ⟨l, hr.congr (fun x hx => ?_) (fun x hx => ?_), hn, fun x => ?_⟩
    · obtain ⟨y, hy, hb⟩ := hr.back_eq hx
      rw [hb]
      exact (hm y (hne y ((hl y).mp hy).1)).1
    · exact (hm x (hne x ((hl x).mp hx).1)).2
    · rw [hl, hlive, hg a ha]
      constructor
      · exact fun hx => ⟨Or.inl hx.1, (hg x hx.1).trans hx.2⟩
      · rintro ⟨hx | rfl, hxg⟩
        · exact ⟨hx, (hg x hx).symm.trans hxg⟩
        · exact absurd hxg.symm (hgc a ha)
  · refine ⟨[], ⟨hget, hback, rfl⟩, by simp, fun x => ?_⟩
    rw [List.mem_singleton]
    constructor
    · rintro rfl
      exact ⟨ha, rfl⟩
    · rintro ⟨hx, hxg⟩
      rcases (hlive x).mp hx with hx | rfl
      · exact absurd ((hg x hx).symm.trans hxg) (hgc x hx)
      · rfl

/-- A new node joins the group of `a`, behind it. -/
theorem Rings.insert (h : Rings cell m live g) (hcell : Function.Injective cell) (ha : live a)
    (hc : ¬ live c) (hlive : ∀ x, live' x ↔ live x ∨ x = c) (hg : ∀ x, live x → g' x = g x)
    (hgc : g' c = g a) : Rings cell (m.insert cell (cell a) c) live' g' := by
  have hne : ∀ x, live x → x ≠ c := fun x hx he => hc (he ▸ hx)
  have hfresh : ∀ x, live x → m.back x ≠ cell c := by
    intro x hx he
    obtain ⟨y, hy, -, hb⟩ := h.back_eq hx
    exact hne y hy (hcell (hb.symm.trans he))
  obtain ⟨n, hn, hng, hget, hback⟩ := h.get_eq ha
  -- the group of `a`, from any of its nodes
  have hjoin : ∀ b, live b → g b = g a → ∃ l, Ring cell (m.insert cell (cell a) c) b l ∧
      (b :: l).Nodup ∧ ∀ x, x ∈ b :: l ↔ x = c ∨ live x ∧ g x = g a := by
    intro b hb hbg
    obtain ⟨l, hr, hnd, hl⟩ := h b hb
    rw [hbg] at hl
    have hcl : c ∉ b :: l := fun hmem => hc ((hl c).mp hmem).1
    obtain ⟨l₁, l₂, rfl, hins, -⟩ := hr.insert_before hnd ((hl n).mpr ⟨hn, hng⟩) hcl
      fun y hy => hfresh y ((hl y).mp hy).1
    rw [hback] at hins
    have hperm : (b :: (l₁ ++ c :: l₂)).Perm (c :: b :: (l₁ ++ l₂)) :=
      (List.perm_middle.cons b).trans (List.Perm.swap c b _)
    refine ⟨l₁ ++ c :: l₂, hins, hperm.nodup_iff.mpr (List.nodup_cons.mpr ⟨hcl, hnd⟩), fun x => ?_⟩
    rw [hperm.mem_iff, List.mem_cons, hl]
  intro b hb
  rcases (hlive b).mp hb with hb | rfl
  · by_cases hbg : g b = g a
    · obtain ⟨l, hr, hnd, hl⟩ := hjoin b hb hbg
      refine ⟨l, hr, hnd, fun x => ?_⟩
      rw [hl, hlive, hg b hb, hbg]
      constructor
      · rintro (rfl | ⟨hx, hxg⟩)
        · exact ⟨Or.inr rfl, hgc⟩
        · exact ⟨Or.inl hx, (hg x hx).trans hxg⟩
      · rintro ⟨hx | rfl, hxg⟩
        · exact Or.inr ⟨hx, (hg x hx).symm.trans hxg⟩
        · exact Or.inl rfl
    · obtain ⟨l, hr, hnd, hl⟩ := h b hb
      have hother : ∀ x ∈ b :: l, ∀ y, live y → g y = g a → x ≠ y := by
        rintro x hx y - hyg rfl
        exact hbg (((hl x).mp hx).2.symm.trans hyg)
      refine ⟨l, hr.congr (fun x hx => ?_) (fun x hx => ?_), hnd, fun x => ?_⟩
      · obtain ⟨y, hy, hb⟩ := hr.back_eq hx
        rw [hb]
        exact Links.insert_get_ne (fun he => hother y hy a ha rfl (hcell he))
          fun he => hne y ((hl y).mp hy).1 (hcell he)
      · refine Links.insert_back_ne (fun he => ?_) (hne x ((hl x).mp hx).1)
        exact hother x hx n hn hng (Option.some.inj (hget.symm.trans he)).symm
      · rw [hl, hlive, hg b hb]
        constructor
        · exact fun hx => ⟨Or.inl hx.1, (hg x hx.1).trans hx.2⟩
        · rintro ⟨hx | rfl, hxg⟩
          · exact ⟨hx, (hg x hx).symm.trans hxg⟩
          · exact absurd (hxg.symm.trans hgc) hbg
  · obtain ⟨l, hr, hnd, hl⟩ := hjoin a ha rfl
    have hmem : b ∈ l := by
      refine List.mem_of_ne_of_mem ?_ ((hl b).mpr (Or.inl rfl))
      exact (hne a ha).symm
    obtain ⟨l₁, l₂, rfl⟩ := List.append_of_mem hmem
    have hperm : (b :: (l₂ ++ a :: l₁)).Perm (a :: (l₁ ++ b :: l₂)) := by
      have h1 : ((b :: l₂) ++ (a :: l₁)).Perm ((a :: l₁) ++ (b :: l₂)) := List.perm_append_comm
      exact h1
    refine ⟨l₂ ++ a :: l₁, hr.rotate, hperm.nodup_iff.mpr hnd, fun x => ?_⟩
    rw [hperm.mem_iff, hl, hlive, hgc]
    constructor
    · rintro (rfl | ⟨hx, hxg⟩)
      · exact ⟨Or.inr rfl, hgc⟩
      · exact ⟨Or.inl hx, (hg x hx).trans hxg⟩
    · rintro ⟨hx | rfl, hxg⟩
      · exact Or.inr ⟨hx, (hg x hx).symm.trans hxg⟩
      · exact Or.inl rfl

/-- A node leaves its group. -/
theorem Rings.remove (h : Rings cell m live g) (hcell : Function.Injective cell) (ha : live a)
    (hlive : ∀ x, live' x ↔ live x ∧ x ≠ a) : Rings cell (m.remove cell a) live' g := by
  obtain ⟨n, hn, hng, hget, -⟩ := h.get_eq ha
  obtain ⟨p, hp, hpg, hback⟩ := h.back_eq ha
  intro b hb
  obtain ⟨hb, hba⟩ := (hlive b).mp hb
  obtain ⟨l, hr, hnd, hl⟩ := h b hb
  by_cases hbg : g a = g b
  · have hmem : a ∈ l := List.mem_of_ne_of_mem (Ne.symm hba) ((hl a).mpr ⟨ha, hbg⟩)
    obtain ⟨l₁, l₂, rfl⟩ := List.append_of_mem hmem
    have hperm : (b :: (l₁ ++ a :: l₂)).Perm (a :: b :: (l₁ ++ l₂)) :=
      (List.perm_middle.cons b).trans (List.Perm.swap a b _)
    have hnd' := List.nodup_cons.mp (hperm.nodup_iff.mp hnd)
    refine ⟨l₁ ++ l₂, hr.remove hnd, hnd'.2, fun x => ?_⟩
    have hx := hl x
    rw [hperm.mem_iff, List.mem_cons] at hx
    rw [hlive]
    constructor
    · intro hmem
      obtain ⟨h1, h2⟩ := hx.mp (Or.inr hmem)
      exact ⟨⟨h1, fun he => hnd'.1 (he ▸ hmem)⟩, h2⟩
    · rintro ⟨⟨h1, h2⟩, h3⟩
      exact (hx.mpr ⟨h1, h3⟩).resolve_left h2
  · have hother : ∀ x ∈ b :: l, ∀ y, g y = g a → x ≠ y := by
      rintro x hx y hyg rfl
      exact hbg (hyg.symm.trans ((hl x).mp hx).2)
    refine ⟨l, hr.congr (fun x hx => ?_) (fun x hx => ?_), hnd, fun x => ?_⟩
    · obtain ⟨y, hy, hb⟩ := hr.back_eq hx
      rw [hb]
      refine Links.remove_get_ne fun he => hother y hy p hpg (hcell (he.trans hback))
    · refine Links.remove_back_ne fun he => ?_
      exact hother x hx n hng (Option.some.inj (hget.symm.trans he)).symm
    · rw [hl, hlive]
      constructor
      · exact fun hx => ⟨⟨hx.1, fun he => hbg (he ▸ hx.2)⟩, hx.2⟩
      · exact fun hx => ⟨hx.1.1, hx.2⟩

end rings

end
end Cells
