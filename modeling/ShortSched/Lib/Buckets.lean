import Mathlib.Algebra.BigOperators.Group.Finset.Piecewise
import Mathlib.Data.Int.Interval
import Mathlib.Data.List.Basic
import Mathlib.Tactic

/-! Families of queues indexed by a key: where each element hangs, how many elements
there are, and a mark per key that says whether its queue is occupied. -/
namespace Buckets

section located
variable {ι α : Type*}

/-- On the keys of `S`, `w` says where each element hangs, and no queue holds an
element twice. -/
structure Located (S : Set ι) (w : α → Option ι) (q : ι → List α) : Prop where
  mem_iff : ∀ x, ∀ i ∈ S, x ∈ q i ↔ w x = some i
  nodup : ∀ i ∈ S, (q i).Nodup

variable {S : Set ι} {w w' : α → Option ι} {q q' : ι → List α} {x y : α} {i j : ι}

theorem Located.congr (h : Located S w q) (hw : ∀ x, w' x = w x)
    (hq : ∀ i ∈ S, q' i = q i) : Located S w' q' where
  mem_iff x i hi := by rw [hq i hi, hw]; exact h.mem_iff x i hi
  nodup i hi := by rw [hq i hi]; exact h.nodup i hi

/-- Hang a free element somewhere in the queue of key `i`. -/
theorem Located.insert (h : Located S w q) (hx : w x = none) (hi : i ∈ S)
    (hq : (q' i).Perm (x :: q i)) (hq' : ∀ j ∈ S, j ≠ i → q' j = q j)
    (hw : w' x = some i) (hw' : ∀ y, y ≠ x → w' y = w y) : Located S w' q' where
  mem_iff y j hj := by
    have hy := h.mem_iff y j hj
    by_cases hji : j = i
    · subst hji
      rw [hq.mem_iff, List.mem_cons, hy]
      by_cases hyx : y = x
      · simp [hyx, hw]
      · simp [hyx, hw' y hyx]
    · rw [hq' j hj hji, hy]
      by_cases hyx : y = x
      · simp [hyx, hw, hx, Ne.symm hji]
      · rw [hw' y hyx]
  nodup j hj := by
    by_cases hji : j = i
    · subst hji
      rw [hq.nodup_iff, List.nodup_cons]
      refine ⟨fun hmem => ?_, h.nodup j hj⟩
      have := (h.mem_iff x j hj).mp hmem
      simp [hx] at this
    · rw [hq' j hj hji]
      exact h.nodup j hj

/-- Take an element off its queue. -/
theorem Located.erase [DecidableEq α] (h : Located S w q) (hx : w x = some i)
    (hq : i ∈ S → q' i = (q i).erase x) (hq' : ∀ j ∈ S, j ≠ i → q' j = q j)
    (hw : w' x = none) (hw' : ∀ y, y ≠ x → w' y = w y) : Located S w' q' where
  mem_iff y j hj := by
    have hy := h.mem_iff y j hj
    by_cases hji : j = i
    · subst hji
      rw [hq hj, (h.nodup j hj).mem_erase_iff, hy]
      by_cases hyx : y = x
      · simp [hyx, hw]
      · simp [hyx, hw' y hyx]
    · rw [hq' j hj hji, hy]
      by_cases hyx : y = x
      · subst hyx
        simp [hw, hx, Ne.symm hji]
      · rw [hw' y hyx]
  nodup j hj := by
    by_cases hji : j = i
    · subst hji
      rw [hq hj]
      exact (h.nodup j hj).erase x
    · rw [hq' j hj hji]
      exact h.nodup j hj

end located

section counted
variable {ι α : Type*} [DecidableEq ι] {s : Finset ι} {q : ι → List α} {i : ι}

/-- Number of elements hanging on the keys of `s`. -/
def total (s : Finset ι) (q : ι → List α) : ℕ := ∑ i ∈ s, (q i).length

/-- Replacing one queue changes the total by the difference of the two lengths. -/
theorem total_update (hi : i ∈ s) (l : List α) :
    total s (Function.update q i l) + (q i).length = total s q + l.length := by
  unfold total
  have h : ∀ j, (Function.update q i l j).length =
      Function.update (fun j => (q j).length) i l.length j := by
    intro j
    by_cases hj : j = i
    · subst hj; simp
    · simp [hj]
  simp only [h]
  rw [Finset.sum_update_of_mem hi, ← Finset.add_sum_erase s (fun j => (q j).length) hi,
    Finset.sdiff_singleton_eq_erase]
  ring

omit [DecidableEq ι] in
theorem total_pos_iff : 0 < total s q ↔ ∃ i ∈ s, q i ≠ [] := by
  unfold total
  rw [Finset.sum_pos_iff]
  simp only [List.length_pos_iff]

/-- A mark is set on a key of `s` exactly when its queue is occupied. -/
def Marked (s : Finset ι) (b : ι → Bool) (q : ι → List α) : Prop :=
  ∀ i ∈ s, b i = true ↔ q i ≠ []

variable {b : ι → Bool}

theorem Marked.set (h : Marked s b q) {l : List α} (hl : l ≠ []) :
    Marked s (Function.update b i true) (Function.update q i l) := by
  intro j hj
  by_cases hji : j = i
  · subst hji; simp [hl]
  · simpa [hji] using h j hj

/-- Shrinking a queue keeps the marks right when an emptied queue loses its mark. -/
theorem Marked.shrink (h : Marked s b q) {l : List α} (hq : l ≠ [] → q i ≠ []) :
    Marked s (if l = [] then Function.update b i false else b) (Function.update q i l) := by
  intro j hj
  by_cases hji : j = i
  · subst hji
    by_cases hl : l = []
    · simp [hl]
    · simpa [hl] using (h j hj).mpr (hq hl)
  · by_cases hl : l = []
    · simpa [hl, hji] using h j hj
    · simpa [hl, hji] using h j hj

end counted

section search

/-- Search the keys `i, i+1, .., i+n-1` for a mark; `i+n` when there is none. -/
def nextMark (b : ℤ → Bool) (i : ℤ) : ℕ → ℤ
  | 0 => i
  | n + 1 => if b i then i else nextMark b (i + 1) n

variable {b : ℤ → Bool} {i j : ℤ} {n : ℕ}

theorem nextMark_bounds : i ≤ nextMark b i n ∧ nextMark b i n ≤ i + n := by
  induction n generalizing i with
  | zero => simp [nextMark]
  | succ n ih =>
    simp only [nextMark]
    split
    · push_cast; omega
    · have := ih (i := i + 1)
      push_cast
      omega

theorem nextMark_marked (h : nextMark b i n < i + n) : b (nextMark b i n) = true := by
  induction n generalizing i with
  | zero => simp [nextMark] at h
  | succ n ih =>
    simp only [nextMark] at h ⊢
    split at h
    next hb => rw [if_pos hb]; exact hb
    next hb =>
      rw [if_neg hb]
      apply ih
      push_cast at h
      omega

/-- The search returns the least mark from `i` on. -/
theorem nextMark_le (hi : i ≤ j) (hb : b j = true) : nextMark b i n ≤ j := by
  induction n generalizing i with
  | zero => simpa [nextMark] using hi
  | succ n ih =>
    simp only [nextMark]
    split
    · exact hi
    next hbi =>
      apply ih
      have : i ≠ j := fun he => hbi (he ▸ hb)
      omega

end search

/-- Put an element right behind the head of a queue. -/
def insertSecond {α : Type*} (x : α) : List α → List α
  | [] => [x]
  | y :: l => y :: x :: l

theorem insertSecond_perm {α : Type*} (x : α) (l : List α) :
    (insertSecond x l).Perm (x :: l) := by
  cases l with
  | nil => rfl
  | cons y l => exact List.Perm.swap x y l

/-- The head of an occupied queue stays in front. -/
theorem head_insertSecond {α : Type*} (x : α) {l : List α} (hl : l ≠ []) :
    (insertSecond x l).head? = l.head? := by
  cases l with
  | nil => exact absurd rfl hl
  | cons y l => rfl

theorem insertSecond_erase {α : Type*} [DecidableEq α] {x : α} {l : List α} (hx : x ∉ l) :
    (insertSecond x l).erase x = l := by
  cases l with
  | nil => simp [insertSecond]
  | cons y l =>
    have hy : y ≠ x := fun he => hx (he ▸ List.mem_cons_self)
    simp [insertSecond, hy]

end Buckets
