import Mathlib.Algebra.BigOperators.Group.List.Basic
import Mathlib.Algebra.Order.BigOperators.Group.List
import Mathlib.Tactic.Linarith

/-! Accounts that open with a gift. While an account is open, its owner may spend, give part of
its balance to a new account, and take back what is left on an account that it has opened. A
ledger lists the gifts, and no owner ever has more than its gift. -/
namespace Ledger

variable {α : Type*} [DecidableEq α]

structure Gift (α : Type*) where
  donor : α
  child : α
  amount : ℕ
  deriving DecidableEq, Repr

/-- What `p` has given away to accounts that are still open. -/
def outstanding (opened : α → Bool) (l : List (Gift α)) (p : α) : ℕ :=
  ((l.filter fun g => g.donor = p ∧ opened g.child).map Gift.amount).sum

/-- What an owner has and has given away is covered by the gift to it. -/
def Solvent (opened : α → Bool) (balance : α → ℕ) (l : List (Gift α)) : Prop :=
  ∀ g ∈ l, opened g.child = true → balance g.child + outstanding opened l g.child ≤ g.amount

/-- The gifts that do not involve `p`. -/
def forget (p : α) (l : List (Gift α)) : List (Gift α) :=
  l.filter fun g => g.donor ≠ p ∧ g.child ≠ p

/-- The gifts but those to `p`. -/
def close (p : α) (l : List (Gift α)) : List (Gift α) := l.filter fun g => g.child ≠ p

section
variable {opened opened' : α → Bool} {balance balance' : α → ℕ} {l : List (Gift α)}
  {g d : Gift α} {p q r : α}

theorem mem_forget : g ∈ forget p l ↔ g ∈ l ∧ g.donor ≠ p ∧ g.child ≠ p := by simp [forget]

theorem mem_close : g ∈ close p l ↔ g ∈ l ∧ g.child ≠ p := by simp [close]

theorem outstanding_cons (opened : α → Bool) (g : Gift α) (l : List (Gift α)) (p : α) :
    outstanding opened (g :: l) p =
      (if g.donor = p ∧ opened g.child = true then g.amount else 0) + outstanding opened l p := by
  unfold outstanding
  rw [List.filter_cons]
  split_ifs <;> simp_all

theorem outstanding_mono (h : ∀ g ∈ l, opened' g.child = true → opened g.child = true) (p : α) :
    outstanding opened' l p ≤ outstanding opened l p := by
  induction l with
  | nil => exact le_rfl
  | cons g l ih =>
    have ih := ih fun d hd => h d (List.mem_cons_of_mem _ hd)
    have hg := h g List.mem_cons_self
    rw [outstanding_cons, outstanding_cons]
    apply Nat.add_le_add _ ih
    split_ifs with h1 h2
    · exact le_rfl
    · exact absurd ⟨h1.1, hg h1.2⟩ h2
    · exact Nat.zero_le _
    · exact le_rfl

theorem outstanding_filter_le (f : Gift α → Bool) (p : α) :
    outstanding opened (l.filter f) p ≤ outstanding opened l p := by
  induction l with
  | nil => exact le_rfl
  | cons g l ih =>
    rw [List.filter_cons]
    split_ifs
    · rw [outstanding_cons, outstanding_cons]
      exact Nat.add_le_add_left ih _
    · rw [outstanding_cons]
      exact ih.trans (Nat.le_add_left _ _)

/-- Dropping an open gift of `p` lowers what it has given away by at least that much. -/
theorem outstanding_filter_add_le {f : Gift α → Bool} (hd : d ∈ l) (ho : opened d.child = true)
    (hf : f d = false) :
    outstanding opened (l.filter f) d.donor + d.amount ≤ outstanding opened l d.donor := by
  induction l with
  | nil => cases hd
  | cons g l ih =>
    rcases List.mem_cons.mp hd with rfl | hd
    · have h : outstanding opened (l.filter f) d.donor ≤ outstanding opened l d.donor :=
        outstanding_filter_le f d.donor
      rw [List.filter_cons_of_neg (by simp [hf]), outstanding_cons, if_pos ⟨rfl, ho⟩]
      omega
    · have ih := ih hd
      by_cases hg : f g = true
      · rw [List.filter_cons_of_pos hg, outstanding_cons, outstanding_cons]
        omega
      · rw [List.filter_cons_of_neg hg, outstanding_cons]
        omega

theorem le_outstanding (hd : d ∈ l) (ho : opened d.child = true) :
    d.amount ≤ outstanding opened l d.donor := by
  have h := outstanding_filter_add_le (f := fun _ => false) hd ho rfl
  omega

theorem Solvent.balance_le (h : Solvent opened balance l) (hg : g ∈ l)
    (ho : opened g.child = true) : balance g.child ≤ g.amount := by
  have := h g hg ho
  omega

/-- An owner's balance and that of an account it has opened are covered by one gift. -/
theorem Solvent.pair_le (h : Solvent opened balance l) (hg : g ∈ l) (hd : d ∈ l)
    (hdonor : d.donor = g.child) (hog : opened g.child = true) (hod : opened d.child = true) :
    balance g.child + balance d.child ≤ g.amount := by
  have h1 := h g hg hog
  have h2 := h.balance_le hd hod
  have h3 : d.amount ≤ outstanding opened l d.donor := le_outstanding hd hod
  rw [hdonor] at h3
  omega

/-- Owners spend, and accounts are closed. -/
theorem Solvent.spend (h : Solvent opened balance l)
    (hs : ∀ g ∈ l, opened' g.child = true →
      opened g.child = true ∧ balance' g.child ≤ balance g.child) :
    Solvent opened' balance' l := by
  intro g hg ho
  obtain ⟨h1, h2⟩ := hs g hg ho
  have h3 := h g hg h1
  have h4 := outstanding_mono (fun d hd ho => (hs d hd ho).1) g.child
  omega

/-- `p` opens an account for `q` with part of its balance. -/
theorem Solvent.give (h : Solvent opened balance l) (hpq : p ≠ q)
    (hq : balance' q ≤ g.amount) (hg : g.donor = p ∧ g.child = q)
    (hp : opened' p = true → opened p = true ∧ balance' p + g.amount ≤ balance p)
    (hs : ∀ r, r ≠ p → r ≠ q → opened' r = true → opened r = true ∧ balance' r ≤ balance r) :
    Solvent opened' balance' (g :: forget q l) := by
  have hmem : ∀ d ∈ forget q l, d ∈ l ∧ d.donor ≠ q ∧ d.child ≠ q := fun d => mem_forget.mp
  have hopen : ∀ r, r ≠ q → opened' r = true → opened r = true := by
    intro r hr ho
    by_cases hrp : r = p
    · exact hrp ▸ (hp (hrp ▸ ho)).1
    · exact (hs r hrp hr ho).1
  have hout : ∀ r, outstanding opened' (forget q l) r ≤ outstanding opened l r := fun r =>
    (outstanding_mono (fun d hd => hopen _ (hmem d hd).2.2) r).trans (outstanding_filter_le _ r)
  have hcons : ∀ r, outstanding opened' (g :: forget q l) r ≤
      (if r = p then g.amount else 0) + outstanding opened' (forget q l) r := by
    intro r
    rw [outstanding_cons, hg.1]
    apply Nat.add_le_add_right
    split_ifs with h1 h2
    · exact le_rfl
    · exact absurd h1.1.symm h2
    · exact Nat.zero_le _
    · exact le_rfl
  intro d hd ho
  rcases List.mem_cons.mp hd with rfl | hd
  · -- the new account has given nothing away
    have h0 : outstanding opened' (forget q l) q = 0 := by
      unfold outstanding
      rw [List.filter_eq_nil_iff.mpr]
      · rfl
      · intro e he
        simp [(hmem e he).2.1]
    have h1 := hcons q
    rw [if_neg hpq.symm, h0] at h1
    rw [hg.2]
    omega
  · obtain ⟨hd, -, hc⟩ := hmem d hd
    have h1 := h d hd (hopen _ hc ho)
    have h2 := hcons d.child
    have h3 := hout d.child
    by_cases hdp : d.child = p
    · have h4 := (hp (hdp ▸ ho)).2
      rw [hdp] at h1 h2 h3 ⊢
      rw [if_pos rfl] at h2
      omega
    · have h4 := (hs _ hdp hc ho).2
      rw [if_neg hdp] at h2
      omega

/-- `r` takes back what is left on the account of `q`, which it has opened unless one of the two
accounts is closed. -/
theorem Solvent.repay (h : Solvent opened balance l)
    (hown : opened r = true → opened q = true → ∃ d ∈ l, d.child = q ∧ d.donor = r)
    (hr : opened' r = true →
      opened r = true ∧ balance' r ≤ balance r + if opened q then balance q else 0)
    (hs : ∀ p, p ≠ r → opened' p = true → opened p = true ∧ balance' p ≤ balance p) :
    Solvent opened' balance' (close q l) := by
  have hopen : ∀ p, opened' p = true → opened p = true := by
    intro p ho
    by_cases hp : p = r
    · exact hp ▸ (hr (hp ▸ ho)).1
    · exact (hs p hp ho).1
  intro g hg ho
  obtain ⟨hg, -⟩ := mem_close.mp hg
  have h1 := h g hg (hopen _ ho)
  have h2 : outstanding opened' (close q l) g.child ≤ outstanding opened (close q l) g.child :=
    outstanding_mono (fun d _ => hopen _) _
  have h3 : outstanding opened (close q l) g.child ≤ outstanding opened l g.child :=
    outstanding_filter_le _ _
  by_cases hgr : g.child = r
  · obtain ⟨h4, h5⟩ := hr (hgr ▸ ho)
    rw [hgr] at h1 h2 h3 ⊢
    split_ifs at h5 with hoq
    · obtain ⟨d, hd, rfl, rfl⟩ := hown h4 hoq
      have h6 := h.balance_le hd hoq
      have h7 : outstanding opened (close d.child l) d.donor + d.amount ≤
          outstanding opened l d.donor :=
        outstanding_filter_add_le hd hoq (by simp)
      omega
    · omega
  · have h4 := (hs _ hgr ho).2
    omega

end
end Ledger
