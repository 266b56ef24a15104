import Mathlib.Data.Finset.Insert
import Mathlib.Data.Fintype.Basic
import Mathlib.Logic.Relation
import Mathlib.Order.Preorder.Finite
import Mathlib.Order.WellFounded

/-! Spin locks: words that agents set and clear, and which lock each agent may wait for. -/
namespace Locks

variable {A L : Type*}

/-- A lock is set as long as an agent holds it, and only one does. -/
structure Exclusive (holds : A → Finset L) (locked : L → Bool) : Prop where
  locked : ∀ l, locked l = true ↔ ∃ a, l ∈ holds a
  unique : ∀ l a b, l ∈ holds a → l ∈ holds b → a = b

/-- Every agent waits for a lock above all those that it holds. -/
def Ascending [LT L] (holds : A → Finset L) (wants : A → Option L) : Prop :=
  ∀ a l, wants a = some l → ∀ l' ∈ holds a, l' < l

section
variable {holds holds' : A → Finset L} {locked : L → Bool} {a : A} {l : L}

theorem Exclusive.congr (h : Exclusive holds locked) (hh : ∀ b, holds' b = holds b) :
    Exclusive holds' locked := by
  obtain rfl : holds' = holds := funext hh
  exact h

theorem Exclusive.free (h : Exclusive holds locked) (hl : locked l = false) (b : A) :
    l ∉ holds b := by
  intro hb
  have hset := (h.locked l).mpr ⟨b, hb⟩
  rw [hl] at hset
  cases hset

variable [DecidableEq L]

/-- An agent takes a lock that was free. -/
theorem Exclusive.take (h : Exclusive holds locked) (hl : locked l = false)
    (ha : holds' a = insert l (holds a)) (hb : ∀ b, b ≠ a → holds' b = holds b) :
    Exclusive holds' (Function.update locked l true) := by
  have hmem : ∀ b x, x ∈ holds' b ↔ x ∈ holds b ∨ b = a ∧ x = l := by
    intro b x
    by_cases hba : b = a
    · subst hba
      simp [ha, or_comm]
    · simp [hb b hba, hba]
  have hno := h.free hl
  constructor
  · intro x
    by_cases hx : x = l
    · subst hx
      simp only [Function.update_self, true_iff]
      exact ⟨a, (hmem a x).mpr (Or.inr ⟨rfl, rfl⟩)⟩
    · simp [hmem, hx, h.locked]
  · intro x b d hxb hxd
    rw [hmem] at hxb hxd
    rcases hxb with hxb | ⟨hba, hx⟩ <;> rcases hxd with hxd | ⟨hda, hx'⟩
    · exact h.unique x b d hxb hxd
    · exact absurd (hx' ▸ hxb) (hno b)
    · exact absurd (hx ▸ hxd) (hno d)
    · rw [hba, hda]

/-- An agent lets a lock go. -/
theorem Exclusive.drop (h : Exclusive holds locked) (hl : l ∈ holds a)
    (ha : holds' a = (holds a).erase l) (hb : ∀ b, b ≠ a → holds' b = holds b) :
    Exclusive holds' (Function.update locked l false) := by
  have hmem : ∀ b x, x ∈ holds' b ↔ x ∈ holds b ∧ x ≠ l := by
    intro b x
    by_cases hba : b = a
    · subst hba
      rw [ha, Finset.mem_erase, and_comm]
    · rw [hb b hba]
      refine ⟨fun hx => ⟨hx, ?_⟩, And.left⟩
      rintro rfl
      exact hba (h.unique x b a hx hl)
  constructor
  · intro x
    by_cases hx : x = l
    · simp [hmem, hx]
    · simp [hmem, hx, h.locked]
  · intro x b d hxb hxd
    exact h.unique x b d ((hmem b x).mp hxb).1 ((hmem d x).mp hxd).1

end

/-- `a` waits for a lock that `b` holds. -/
def WaitsFor (holds : A → Finset L) (wants : A → Option L) (a b : A) : Prop :=
  ∃ l, wants a = some l ∧ l ∈ holds b

/-- Agents that take locks in ascending order do not wait for each other in a circle: from any
agent, going on to the holder of the lock that is waited for leads to one who need not wait. -/
theorem exists_unblocked [LinearOrder L] [Finite L] {holds : A → Finset L} {locked : L → Bool}
    {wants : A → Option L} (h : Exclusive holds locked) (hasc : Ascending holds wants) (a : A) :
    ∃ b, Relation.ReflTransGen (WaitsFor holds wants) a b ∧
      ∀ l, wants b = some l → locked l = false := by
  cases ha : wants a with
  | none => exact ⟨a, .refl, by simp [ha]⟩
  | some l =>
    -- on the lock that is waited for, downwards from the highest
    induction l using WellFoundedGT.induction generalizing a with
    | ind l ih =>
      cases hl : locked l with
      | false => exact ⟨a, .refl, by simp [ha, hl]⟩
      | true =>
        obtain ⟨d, hd⟩ := (h.locked l).mp hl
        have had : WaitsFor holds wants a d := ⟨l, ha, hd⟩
        cases hwd : wants d with
        | none => exact ⟨d, .single had, by simp [hwd]⟩
        | some x =>
          obtain ⟨b, hb, hfree⟩ := ih x (hasc d x hwd l hd) d hwd
          exact ⟨b, .head had hb, hfree⟩

end Locks
