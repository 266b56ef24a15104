import Mathlib.Algebra.Order.Group.Nat
import Mathlib.Data.Nat.Periodic
import Mathlib.Data.Int.GCD
import Mathlib.Data.List.GetD
import Mathlib.Tactic.Ring

/-! Ring buffers of `n` slots: entries are written under the tail and then committed; when
the tail meets the head, the oldest entry is dropped. -/
namespace Ring

variable {α : Type*} {n s : ℕ}

/-- Slots with the two ends of the window. -/
structure Buffer (α : Type*) where
  slot : ℕ → α
  head : ℕ
  tail : ℕ

/-- The next slot. -/
def next (n i : ℕ) : ℕ := (i + 1) % n

/-- Write the slot under the tail, which is outside the window. -/
def Buffer.write (b : Buffer α) (x : α) : Buffer α :=
  { b with slot := Function.update b.slot b.tail x }

/-- Take the slot under the tail into the window. -/
def Buffer.commit (n : ℕ) (b : Buffer α) : Buffer α :=
  { b with
    tail := next n b.tail
    head := if next n b.tail = b.head then next n b.head else b.head }

/-- The number of entries from the head up to the tail. -/
def Buffer.length (n : ℕ) (b : Buffer α) : ℕ := (b.tail + n - b.head) % n

/-- The entries from the head up to the tail. -/
def Buffer.window (n : ℕ) (b : Buffer α) : List α :=
  (List.range (b.length n)).map fun i => b.slot ((b.head + i) % n)

/-- The buffer holds the newest entries of `log`, which lists all that were committed. -/
structure Buffer.Holds (n : ℕ) (b : Buffer α) (log : List α) : Prop where
  tail : b.tail = log.length % n
  head : b.head = if log.length < n then 0 else (log.length + 1) % n
  slot : ∀ j (hj : j < log.length), log.length < j + n → b.slot (j % n) = log[j]

section
variable {b b' : Buffer α} {log : List α} {x : α}

theorem Buffer.Holds.of_empty (h : b.head = 0) (h' : b.tail = 0) (hn : 0 < n) : b.Holds n [] where
  tail := by simpa using h'
  head := by simpa [hn] using h
  slot j hj := absurd hj (Nat.not_lt_zero j)

/-- What is written under the tail does not touch the window. -/
theorem Buffer.Holds.write (h : b.Holds n log) (x : α) : (b.write x).Holds n log where
  tail := h.tail
  head := h.head
  slot j hj hn := by
    have hne : j % n ≠ b.tail := by
      rw [h.tail]
      intro he
      have hd : n ∣ log.length - j := (Nat.modEq_iff_dvd' hj.le).mp he
      have := Nat.le_of_dvd (by omega) hd
      omega
    exact (Function.update_of_ne hne _ _).trans (h.slot j hj hn)

/-- A commit appends the entry under the tail. -/
theorem Buffer.Holds.commit (h : b.Holds n log) :
    (b.commit n).Holds n (log ++ [b.slot b.tail]) where
  tail := by
    rw [Buffer.commit, next, h.tail, List.length_append, List.length_singleton, Nat.mod_add_mod]
  head := by
    have ht : next n b.tail = (log.length + 1) % n := by
      rw [next, h.tail, Nat.mod_add_mod]
    rw [Buffer.commit, List.length_append, List.length_singleton, ht, h.head]
    dsimp only
    rcases Nat.lt_trichotomy (log.length + 1) n with hl | hl | hl
    · rw [if_pos (show log.length < n by omega), if_pos hl, Nat.mod_eq_of_lt hl]
      exact if_neg (Nat.succ_ne_zero _)
    · rw [if_pos (show log.length < n by omega), if_neg hl.not_lt, hl, Nat.mod_self, if_pos rfl,
        next, Nat.zero_add, Nat.add_mod_left]
    · rw [if_neg (show ¬ log.length < n by omega), if_neg (show ¬ log.length + 1 < n by omega),
        if_pos rfl, next, Nat.mod_add_mod]
  slot j hj hjn := by
    rw [List.length_append, List.length_singleton] at hj hjn
    rcases Nat.lt_or_ge j log.length with hlt | hge
    · rw [List.getElem_append_left hlt]
      exact h.slot j hlt (by omega)
    · obtain rfl : j = log.length := by omega
      rw [List.getElem_append_right le_rfl, ← h.tail]
      simp [Buffer.commit]

theorem Buffer.Holds.length_eq (h : b.Holds n log) (hn : 2 ≤ n) :
    b.length n = min log.length (n - 1) := by
  rw [Buffer.length, h.tail, h.head]
  split_ifs with hl
  · rw [Nat.mod_eq_of_lt hl, Nat.sub_zero, Nat.add_mod_right, Nat.mod_eq_of_lt hl]
    omega
  · have h0 : log.length % n < n := Nat.mod_lt _ (by omega)
    have hm : (log.length + 1) % n = if log.length % n + 1 = n then 0 else log.length % n + 1 := by
      rw [Nat.add_mod_eq_ite, Nat.mod_eq_of_lt (show 1 < n by omega)]
      split_ifs <;> omega
    rw [hm]
    split_ifs with he
    · rw [show log.length % n + n - 0 = log.length % n + n by omega, Nat.add_mod_right, Nat.mod_mod]
      omega
    · rw [show log.length % n + n - (log.length % n + 1) = n - 1 by omega,
        Nat.mod_eq_of_lt (by omega)]
      omega

theorem Buffer.Holds.tail_lt (h : b.Holds n log) (hn : 0 < n) : b.tail < n := by
  rw [h.tail]
  exact Nat.mod_lt _ hn

theorem Buffer.Holds.head_lt (h : b.Holds n log) (hn : 0 < n) : b.head < n := by
  rw [h.head]
  split_ifs
  · exact hn
  · exact Nat.mod_lt _ hn

/-- The slots of the window are those of the newest entries. -/
theorem Buffer.Holds.slot_index (h : b.Holds n log) {i : ℕ} (hi : i < min log.length (n - 1)) :
    (b.head + i) % n = (log.length - (n - 1) + i) % n := by
  rw [h.head]
  split_ifs with hl
  · rw [show log.length - (n - 1) = 0 by omega]
  · rw [Nat.mod_add_mod, show log.length + 1 + i = log.length - (n - 1) + i + n by omega,
      Nat.add_mod_right]

/-- The slot under the tail is outside the window. -/
theorem Buffer.Holds.tail_ne (h : b.Holds n log) (hn : 2 ≤ n) {i : ℕ} (hi : i < b.length n) :
    (b.head + i) % n ≠ b.tail := by
  rw [h.length_eq hn] at hi
  rw [h.slot_index hi, h.tail]
  intro he
  have hd : n ∣ log.length - (log.length - (n - 1) + i) :=
    (Nat.modEq_iff_dvd' (by omega)).mp he
  have := Nat.le_of_dvd (by omega) hd
  omega

/-- The window holds the newest entries, oldest first. -/
theorem Buffer.Holds.window_eq (h : b.Holds n log) (hn : 2 ≤ n) :
    b.window n = log.drop (log.length - (n - 1)) := by
  have hlen := h.length_eq hn
  apply List.ext_getElem
  · rw [Buffer.window, List.length_map, List.length_range, hlen, List.length_drop]
    omega
  · intro i hi hi'
    rw [List.length_drop] at hi'
    have hj : log.length - (n - 1) + i < log.length := by omega
    have hslot : (b.head + i) % n = (log.length - (n - 1) + i) % n := h.slot_index (by omega)
    rw [List.getElem_drop, ← h.slot _ hj (by omega), ← hslot]
    simp only [Buffer.window, List.getElem_map, List.getElem_range]

end

/-! Reading the slots from index 0 instead of from the head. -/

/-- A function that looks the same after a rotation, but perhaps for the last index, looks
the same there too. -/
theorem rotation_last {f : ℕ → α} (hs : 0 < s) (hn : s < n)
    (h : ∀ i < n - 1, f i = f ((s + i) % n)) : f (n - 1) = f (s - 1) := by
  have hstep : ∀ k, f (s - 1) = f (((k + 1) * s + (n - 1)) % n) ∨ f (s - 1) = f (n - 1) := by
    intro k
    induction k with
    | zero =>
      left
      rw [Nat.zero_add, Nat.one_mul, show s + (n - 1) = s - 1 + n by omega, Nat.add_mod_right,
        Nat.mod_eq_of_lt (by omega)]
    | succ k ih =>
      rcases ih with ih | ih
      · set a := ((k + 1) * s + (n - 1)) % n
        have ha : a < n := Nat.mod_lt _ (by omega)
        rcases Nat.lt_or_ge a (n - 1) with hlt | hge
        · left
          rw [ih, h a hlt, Nat.add_mod_mod]
          congr 2
          ring
        · right
          rw [ih, show a = n - 1 by omega]
      · exact Or.inr ih
  rcases hstep (n - 1) with hk | hk
  · rw [hk, show n - 1 + 1 = n by omega, Nat.mul_add_mod, Nat.mod_eq_of_lt (by omega)]
  · exact hk.symm

/-- Reading from slot 0 gives the window, which starts at slot `s`, only when the slots repeat
with a period that divides both the shift and the size. -/
theorem rotation_fixed_iff {f : ℕ → α} (hs : 0 < s) (hn : s < n) :
    (∀ i < n - 1, f i = f ((s + i) % n)) ↔ ∀ i < n, f i = f (i % s.gcd n) := by
  constructor
  · intro h
    have hall : ∀ i < n, f i = f ((s + i) % n) := by
      intro i hi
      rcases Nat.lt_or_ge i (n - 1) with hlt | hge
      · exact h i hlt
      · obtain rfl : i = n - 1 := by omega
        rw [rotation_last hs hn h, show s + (n - 1) = s - 1 + n by omega, Nat.add_mod_right,
          Nat.mod_eq_of_lt (by omega)]
    have hper : Function.Periodic (fun i => f (i % n)) s := by
      intro i
      change f ((i + s) % n) = f (i % n)
      rw [hall (i % n) (Nat.mod_lt i (by omega)), Nat.add_mod_mod, Nat.add_comm]
    have hg : s.gcd n < n := (Nat.gcd_le_left n hs).trans_lt hn
    obtain ⟨m, -, hm⟩ := Nat.exists_mul_mod_eq_gcd hg
    have hperg : Function.Periodic (fun i => f (i % n)) (s.gcd n) := by
      intro i
      have := hper.nat_mul m i
      change f ((i + m * s) % n) = f (i % n) at this
      change f ((i + s.gcd n) % n) = f (i % n)
      rw [← this, ← hm, Nat.add_mod_mod, Nat.mul_comm]
    intro i hi
    have hi' : f (i % s.gcd n % n) = f (i % n) := hperg.map_mod_nat i
    rwa [Nat.mod_eq_of_lt hi, Nat.mod_eq_of_lt ((Nat.mod_le i _).trans_lt hi), eq_comm] at hi'
  · intro h i hi
    have h1 : s.gcd n ∣ s := Nat.gcd_dvd_left s n
    have h2 : s.gcd n ∣ n := Nat.gcd_dvd_right s n
    have h3 : (s + i) % n < n := Nat.mod_lt _ (by omega)
    rw [h i (by omega), h _ h3, Nat.mod_mod_of_dvd _ h2, Nat.add_mod, Nat.mod_eq_zero_of_dvd h1,
      Nat.zero_add, Nat.mod_mod]

end Ring
