import Mathlib.Algebra.BigOperators.Group.Finset.Basic
import Mathlib.Algebra.BigOperators.Group.Finset.Piecewise
import Mathlib.Algebra.Order.BigOperators.Group.Finset
import Mathlib.Data.Fintype.BigOperators

/-! Tokens in bags, and how many there are of a kind. -/
namespace Tokens

variable {ι τ : Type*} [Fintype ι] [DecidableEq ι] {bag bag' : ι → List τ} {f : τ → Bool}
  {i j : ι} {t : τ}

/-- The tokens of a kind in all bags. -/
def total (bag : ι → List τ) (f : τ → Bool) : ℕ := ∑ i, (bag i).countP f

/-- A token is put into a bag, or taken out when read backwards. -/
theorem total_put (hi : (bag' i).Perm (t :: bag i)) (hne : ∀ j, j ≠ i → bag' j = bag j)
    (f : τ → Bool) : total bag' f = total bag f + if f t then 1 else 0 := by
  have hrest : ∑ j ∈ Finset.univ.erase i, (bag' j).countP f =
      ∑ j ∈ Finset.univ.erase i, (bag j).countP f := by
    apply Finset.sum_congr rfl
    intro j hj
    rw [hne j (Finset.ne_of_mem_erase hj)]
  unfold total
  rw [← Finset.add_sum_erase _ _ (Finset.mem_univ i), hrest, hi.countP_eq, List.countP_cons,
    ← Finset.add_sum_erase Finset.univ (fun j => (bag j).countP f) (Finset.mem_univ i)]
  omega

omit [DecidableEq ι] in
theorem countP_le_total (bag : ι → List τ) (f : τ → Bool) (i : ι) :
    (bag i).countP f ≤ total bag f :=
  Finset.single_le_sum (f := fun i => (bag i).countP f) (fun _ _ => Nat.zero_le _)
    (Finset.mem_univ i)

omit [DecidableEq ι] in
theorem total_eq_zero : total bag f = 0 ↔ ∀ i, ∀ t ∈ bag i, f t = false := by
  simp [total, Finset.sum_eq_zero_iff, List.countP_eq_zero]

/-- Tokens of a kind of which there is one at most lie in one bag. -/
theorem bag_unique (h : total bag f ≤ 1) {t' : τ} (hi : t ∈ bag i) (ht : f t = true)
    (hj : t' ∈ bag j) (ht' : f t' = true) : i = j := by
  by_contra hij
  have hone : 0 < (bag i).countP f := List.countP_pos_iff.mpr ⟨t, hi, ht⟩
  have htwo : 0 < (bag j).countP f := List.countP_pos_iff.mpr ⟨t', hj, ht'⟩
  have hpair : ∑ k ∈ {i, j}, (bag k).countP f ≤ total bag f :=
    Finset.sum_le_sum_of_subset (Finset.subset_univ _)
  rw [Finset.sum_pair hij] at hpair
  omega

/-- Where the only token of a kind lies. -/
theorem exists_of_total_eq_one (h : total bag f = 1) :
    ∃ i t l l', bag i = l ++ t :: l' ∧ f t = true ∧ (∀ x ∈ l ++ l', f x = false) ∧
      ∀ j, j ≠ i → ∀ x ∈ bag j, f x = false := by
  have hno : ¬ ∀ i, ∀ t ∈ bag i, f t = false := by
    intro hall
    rw [total_eq_zero.mpr hall] at h
    cases h
  push Not at hno
  obtain ⟨i, t, hi, ht⟩ := hno
  have ht : f t = true := by simpa using ht
  obtain ⟨l, l', hl⟩ := List.append_of_mem hi
  refine ⟨i, t, l, l', hl, ht, ?_, ?_⟩
  · have hcount := countP_le_total bag f i
    rw [h, hl, List.countP_append, List.countP_cons_of_pos ht] at hcount
    have hzero : (l ++ l').countP f = 0 := by
      rw [List.countP_append]
      omega
    simpa using List.countP_eq_zero.mp hzero
  · intro j hj x hx
    by_contra hfx
    exact hj (bag_unique h.le hx (by simpa using hfx) hi ht)

end Tokens
