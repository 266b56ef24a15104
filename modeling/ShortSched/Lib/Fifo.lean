import Mathlib.Data.List.Basic

/-! The order of two elements in a queue that elements leave anywhere and join at the tail,
and the walk through a queue from its tail on. -/
namespace Fifo

variable {α : Type*} {a b x : α} {l : List α}

/-- `a` is in the queue, and before every `b`. -/
def Ahead (a b : α) : List α → Prop
  | [] => False
  | x :: l => x = a ∨ x ≠ b ∧ Ahead a b l

/-- Whoever joins goes to the tail. -/
theorem Ahead.append (h : Ahead a b l) (l' : List α) : Ahead a b (l ++ l') := by
  induction l with
  | nil => exact h.elim
  | cons x l ih => exact h.imp_right fun h => ⟨h.1, ih h.2⟩

/-- Only `a` itself may leave. -/
theorem Ahead.erase [DecidableEq α] (h : Ahead a b l) (hx : x ≠ a) : Ahead a b (l.erase x) := by
  induction l with
  | nil => exact h
  | cons y l ih =>
    by_cases hy : y = x
    · rw [hy, List.erase_cons_head]
      exact (h.resolve_left fun he => hx (hy ▸ he)).2
    · rw [List.erase_cons_tail (by simpa using hy)]
      exact h.imp_right fun h => ⟨h.1, ih h.2⟩

theorem Ahead.of_notMem (ha : a ∈ l) (hb : b ∉ l) : Ahead a b l := by
  induction l with
  | nil => cases ha
  | cons x l ih =>
    rw [List.mem_cons, not_or] at hb
    rcases List.mem_cons.mp ha with rfl | ha
    · exact Or.inl rfl
    · exact Or.inr ⟨Ne.symm hb.1, ih ha hb.2⟩

theorem Ahead.asymm (h : Ahead a b l) (hab : a ≠ b) : ¬ Ahead b a l := by
  induction l with
  | nil => exact id
  | cons x l ih =>
    rintro (rfl | ⟨hx, h'⟩)
    · exact h.elim (fun he => hab he.symm) fun hc => hc.1 rfl
    · exact h.elim hx fun hc => ih hc.2 h'

/-- `b` is not served while `a` is ahead of it. -/
theorem Ahead.head_ne (h : Ahead a b l) (hab : a ≠ b) : l.head? ≠ some b := by
  cases l with
  | nil => exact h.elim
  | cons x l =>
    rintro ⟨⟩
    rcases h with h | h
    · exact hab h.symm
    · exact h.1 rfl

/-- The element in front of `x`. -/
def inFront [DecidableEq α] (x : α) (l : List α) : Option α := (l.takeWhile (· ≠ x)).getLast?

theorem inFront_append [DecidableEq α] {l₁ : List α} (h : x ∉ l₁) (l₂ : List α) :
    inFront x (l₁ ++ x :: l₂) = l₁.getLast? := by
  have hall : ∀ y ∈ l₁, decide (y ≠ x) = true := by
    intro y hy
    simpa using fun he : y = x => h (he ▸ hy)
  unfold inFront
  rw [List.takeWhile_append_of_pos hall]
  simp

end Fifo
