import Mathlib.Algebra.Order.Ring.Int
import Mathlib.Tactic.ByContra
import Mathlib.Tactic.SplitIfs

/-! Handing out numbers in turn: from the last one given upwards, and from `lo` again behind the
end, up to the number before it. -/
namespace Rotation

section
variable {lo hi b v w : ℤ} {taken : ℤ → Prop}

def advance (lo hi v : ℤ) : ℤ := if v + 1 < hi then v + 1 else lo

/-- The numbers that come up after `b`, which does not come up itself. -/
def Candidate (lo hi b v : ℤ) : Prop := b < v ∧ v < hi ∨ lo ≤ v ∧ v < b

/-- When a candidate comes up. -/
def turn (lo hi b v : ℤ) : ℤ := if b < v then v - b else hi - b + (v - lo)

/-- The turn of `v` comes: those before it are taken. -/
def Reached (lo hi b : ℤ) (taken : ℤ → Prop) (v : ℤ) : Prop :=
  Candidate lo hi b v ∧ ∀ w, Candidate lo hi b w → turn lo hi b w < turn lo hi b v → taken w

/-- The number to hand out. -/
def Next (lo hi b : ℤ) (taken : ℤ → Prop) (v : ℤ) : Prop :=
  Reached lo hi b taken v ∧ ¬ taken v

theorem turn_pos (hb : b < hi) (h : Candidate lo hi b v) : 0 < turn lo hi b v := by
  unfold Candidate at h
  unfold turn
  split_ifs <;> omega

theorem turn_inj (h : Candidate lo hi b v) (h' : Candidate lo hi b w)
    (he : turn lo hi b v = turn lo hi b w) : v = w := by
  unfold Candidate at h h'
  unfold turn at he
  split_ifs at he <;> omega

theorem turn_lt (hlo : 0 ≤ lo) (hb : 0 ≤ b) (h : Candidate lo hi b v) : turn lo hi b v < hi := by
  unfold Candidate at h
  unfold turn
  split_ifs <;> omega

/-- There is only one number to hand out. -/
theorem Next.unique (h : Next lo hi b taken v) (h' : Next lo hi b taken w) : v = w := by
  obtain ⟨⟨hv, hbefore⟩, hfree⟩ := h
  obtain ⟨⟨hw, hbefore'⟩, hfree'⟩ := h'
  apply turn_inj hv hw
  by_contra hne
  rcases lt_or_gt_of_ne hne with hlt | hgt
  · exact hfree (hbefore' v hv hlt)
  · exact hfree' (hbefore w hw hgt)

/-- The first turn. -/
theorem reached_advance (hlo : lo < hi) (hb : b < hi) (hne : advance lo hi b ≠ b) :
    Reached lo hi b taken (advance lo hi b) := by
  unfold advance at hne ⊢
  have hc : Candidate lo hi b (if b + 1 < hi then b + 1 else lo) := by
    unfold Candidate
    split_ifs at hne ⊢ <;> omega
  have hone : turn lo hi b (if b + 1 < hi then b + 1 else lo) = 1 := by
    unfold turn
    split_ifs at hne ⊢ <;> omega
  refine ⟨hc, fun w hw hlt => ?_⟩
  have hpos := turn_pos hb hw
  omega

/-- The turn after that of a candidate: that of the next one, unless it was the last. -/
theorem Candidate.advance (hb : b < hi) (h : Candidate lo hi b v) :
    advance lo hi v = b ∨ b < lo ∧ v = hi - 1 ∨
      Candidate lo hi b (advance lo hi v) ∧
        turn lo hi b (advance lo hi v) = turn lo hi b v + 1 := by
  unfold Candidate at h ⊢
  unfold Rotation.advance turn
  split_ifs <;> omega

/-- The last turn. -/
theorem turn_le_of_last (hb : b < hi) (h : Candidate lo hi b v)
    (hlast : Rotation.advance lo hi v = b ∨ b < lo ∧ v = hi - 1) (hw : Candidate lo hi b w) :
    turn lo hi b w ≤ turn lo hi b v := by
  unfold Candidate at h hw
  unfold Rotation.advance at hlast
  unfold turn
  split_ifs at * <;> omega

/-- A taken candidate passes the turn on; behind the last one all are taken. -/
theorem Reached.step (hb : b < hi) (h : Reached lo hi b taken v) (ht : taken v) :
    (advance lo hi v = b ∨ b < lo ∧ v = hi - 1) ∧ (∀ w, Candidate lo hi b w → taken w) ∨
      Reached lo hi b taken (advance lo hi v) ∧ advance lo hi v ≠ b ∧
        turn lo hi b (advance lo hi v) = turn lo hi b v + 1 := by
  obtain ⟨hc, hbefore⟩ := h
  have hupto : ∀ w, Candidate lo hi b w → turn lo hi b w ≤ turn lo hi b v → taken w := by
    intro w hw hle
    rcases hle.lt_or_eq with hlt | he
    · exact hbefore w hw hlt
    · exact turn_inj hw hc he ▸ ht
  by_cases hlast : advance lo hi v = b ∨ b < lo ∧ v = hi - 1
  · exact Or.inl ⟨hlast, fun w hw => hupto w hw (turn_le_of_last hb hc hlast hw)⟩
  · right
    rcases hc.advance hb with he | hend | ⟨hc', hturn⟩
    · exact absurd (Or.inl he) hlast
    · exact absurd (Or.inr hend) hlast
    · exact ⟨⟨hc', fun w hw hlt => hupto w hw (by omega)⟩, fun he => hlast (Or.inl he), hturn⟩

/-- When the start lies below `lo` and all are taken, the turn goes round for ever. -/
theorem Candidate.round (hbl : b < lo) (hlo : lo < hi) (h : Candidate lo hi b v) :
    Candidate lo hi b (Rotation.advance lo hi v) ∧ Rotation.advance lo hi v ≠ b := by
  unfold Candidate at h ⊢
  unfold Rotation.advance
  split_ifs <;> omega

end
end Rotation
