import Mathlib.Data.Nat.Notation
import Mathlib.Data.Option.Basic

/-! Runs of a partial machine: an operation applied to a state gives the next state,
or nothing when the machine stops there. -/
namespace PartialRun

variable {σ ο : Type*}

/-- Apply the operations in order; a stop anywhere stops the run. -/
def run (exec : ο → σ → Option σ) : List ο → σ → Option σ
  | [], s => some s
  | o :: os, s => (exec o s).bind (run exec os)

/-- Every operation of the run meets `C` in the state where it is applied. -/
def Along (exec : ο → σ → Option σ) (C : σ → ο → Prop) : List ο → σ → Prop
  | [], _ => True
  | o :: os, s => C s o ∧ ∀ t, exec o s = some t → Along exec C os t

/-- A run can be checked against a decidable condition. -/
instance Along.decidable {exec : ο → σ → Option σ} {C : σ → ο → Prop}
    [∀ s o, Decidable (C s o)] : (os : List ο) → (s : σ) → Decidable (Along exec C os s)
  | [], _ => isTrue trivial
  | o :: os, s =>
    match h : exec o s with
    | none => decidable_of_iff (C s o) (by simp [Along, h])
    | some t =>
      have : Decidable (Along exec C os t) := Along.decidable os t
      decidable_of_iff (C s o ∧ Along exec C os t) (by simp [Along, h])

/-- How many operations of the run meet `D` in the state where they are applied. -/
def tally (exec : ο → σ → Option σ) (D : σ → ο → Prop) [∀ s o, Decidable (D s o)] :
    List ο → σ → ℕ
  | [], _ => 0
  | o :: os, s => (if D s o then 1 else 0) + (exec o s).elim 0 (tally exec D os)

/-- A computation goes through when its first step does and the rest does after it. -/
theorem bind_defined {α β : Type*} {o : Option α} {f : α → Option β} {a : α} (h : o = some a)
    (h' : ∃ b, f a = some b) : ∃ b, o.bind f = some b := by
  rw [h]
  exact h'

section
variable {exec : ο → σ → Option σ} {C D : σ → ο → Prop} {I : σ → Prop}
  {o : ο} {os : List ο} {s t u : σ}

theorem run_cons_eq_some :
    run exec (o :: os) s = some u ↔ ∃ t, exec o s = some t ∧ run exec os t = some u := by
  simp [run, Option.bind_eq_some_iff]

theorem Along.and (h : Along exec C os s) (h' : Along exec D os s) :
    Along exec (fun s o => C s o ∧ D s o) os s := by
  induction os generalizing s with
  | nil => trivial
  | cons o os ih => exact ⟨⟨h.1, h'.1⟩, fun t ht => ih (h.2 t ht) (h'.2 t ht)⟩

theorem Along.of_forall (h : ∀ o ∈ os, ∀ s, C s o) : Along exec C os s := by
  induction os generalizing s with
  | nil => trivial
  | cons o os ih =>
    exact ⟨h o List.mem_cons_self s, fun t _ => ih fun o' ho => h o' (List.mem_cons_of_mem o ho)⟩

/-- What every step meeting `C` preserves holds at the end of every run along `C`. -/
theorem run_invariant (step : ∀ s o t, I s → C s o → exec o s = some t → I t)
    (hs : I s) (hC : Along exec C os s) (hr : run exec os s = some u) : I u := by
  induction os generalizing s with
  | nil => exact Option.some.inj hr ▸ hs
  | cons o os ih =>
    obtain ⟨t, ht, hu⟩ := run_cons_eq_some.mp hr
    exact ih (step s o t hs hC.1 ht) (hC.2 t ht) hu

/-- An invariant of a run together with the number of operations that meet `D`. -/
theorem run_tally [∀ s o, Decidable (D s o)] {J : ℕ → σ → Prop} {n : ℕ}
    (step : ∀ n s o t, J n s → C s o → exec o s = some t → J (n + if D s o then 1 else 0) t)
    (hs : J n s) (hC : Along exec C os s) (hr : run exec os s = some u) :
    J (n + tally exec D os s) u := by
  induction os generalizing n s with
  | nil => exact Option.some.inj hr ▸ hs
  | cons o os ih =>
    obtain ⟨t, ht, hu⟩ := run_cons_eq_some.mp hr
    rw [tally, ht, ← Nat.add_assoc]
    exact ih (step n s o t hs hC.1 ht) (hC.2 t ht) hu

/-- When a step keeps `P` just where it meets `D`, a run that goes through keeps `P` in every
state it reaches just when it meets `D` along its way. -/
theorem run_always_iff {P : σ → Prop} (step : ∀ s o t, I s → C s o → exec o s = some t →
      I t ∧ (P s → (P t ↔ D s o))) (hs : I s) (hp : P s) (hC : Along exec C os s)
    (hr : run exec os s = some u) :
    (∀ pre, pre <+: os → ∀ t ∈ run exec pre s, P t) ↔ Along exec D os s := by
  induction os generalizing s with
  | nil =>
    apply iff_of_true _ trivial
    rintro pre hpre t ht
    rw [List.prefix_nil.mp hpre] at ht
    exact Option.some.inj ht ▸ hp
  | cons o os ih =>
    obtain ⟨t, ht, hu⟩ := run_cons_eq_some.mp hr
    obtain ⟨hI, hD⟩ := step s o t hs hC.1 ht
    constructor
    · intro h
      have hpt : P t := h [o] ⟨os, rfl⟩ t (run_cons_eq_some.mpr ⟨t, ht, rfl⟩)
      refine ⟨(hD hp).mp hpt, fun t' ht' => ?_⟩
      cases ht.symm.trans ht'
      apply (ih hI hpt (hC.2 t ht) hu).mp
      intro pre hpre v hv
      exact h (o :: pre) (List.cons_prefix_cons.mpr ⟨rfl, hpre⟩) v
        (run_cons_eq_some.mpr ⟨t, ht, hv⟩)
    · rintro ⟨hDo, hDr⟩ pre hpre v hv
      have hpt : P t := (hD hp).mpr hDo
      cases pre with
      | nil => exact Option.some.inj hv ▸ hp
      | cons o' pre =>
        obtain ⟨rfl, hpre'⟩ := List.cons_prefix_cons.mp hpre
        obtain ⟨t', ht', hv'⟩ := run_cons_eq_some.mp hv
        cases ht.symm.trans ht'
        exact (ih hI hpt (hC.2 t ht) hu).mpr (hDr t ht) pre hpre' v hv'

/-- If in addition no step meeting `C` stops the machine, the whole run goes through. -/
theorem run_total (step : ∀ s o, I s → C s o → ∃ t, exec o s = some t ∧ I t)
    (hs : I s) (hC : Along exec C os s) : ∃ u, run exec os s = some u ∧ I u := by
  induction os generalizing s with
  | nil => exact ⟨s, rfl, hs⟩
  | cons o os ih =>
    obtain ⟨t, ht, hI⟩ := step s o hs hC.1
    obtain ⟨u, hu, hIu⟩ := ih hI (hC.2 t ht)
    exact ⟨u, run_cons_eq_some.mpr ⟨t, ht, hu⟩, hIu⟩

end
end PartialRun
