import ShortSched.Lib.PartialRun

/-! What is observed along a run of a partial machine, and monitors that read it: automata
that say, from what they have read before, which events are allowed. -/
namespace PartialRun

variable {σ ο ε γ : Type*}

/-- The events of a run, in order; each step emits those that `obs` finds in it. -/
def trace (exec : ο → σ → Option σ) (obs : ο → σ → σ → List ε) : List ο → σ → List ε
  | [], _ => []
  | o :: os, s =>
    match exec o s with
    | none => []
    | some t => obs o s t ++ trace exec obs os t

/-- Every event is allowed by `P` in the state that the monitor has reached before it. -/
def Accepts (next : γ → ε → γ) (P : γ → ε → Prop) : List ε → γ → Prop
  | [], _ => True
  | e :: es, g => P g e ∧ Accepts next P es (next g e)

instance Accepts.decidable {next : γ → ε → γ} {P : γ → ε → Prop} [∀ g e, Decidable (P g e)] :
    (es : List ε) → (g : γ) → Decidable (Accepts next P es g)
  | [], _ => isTrue trivial
  | e :: es, g =>
    have : Decidable (Accepts next P es (next g e)) := Accepts.decidable es (next g e)
    inferInstanceAs (Decidable (P g e ∧ Accepts next P es (next g e)))

section
variable {exec : ο → σ → Option σ} {obs : ο → σ → σ → List ε} {next : γ → ε → γ}
  {P Q : γ → ε → Prop} {C : σ → ο → Prop} {R : σ → γ → Prop} {os : List ο} {s : σ} {g : γ}
  {es es' : List ε}

theorem accepts_append : Accepts next P (es ++ es') g ↔
    Accepts next P es g ∧ Accepts next P es' (es.foldl next g) := by
  induction es generalizing g with
  | nil => simp [Accepts]
  | cons e es ih => simp [Accepts, ih, and_assoc]

theorem accepts_of_forall (h : ∀ e ∈ es, ∀ g, P g e) : Accepts next P es g := by
  induction es generalizing g with
  | nil => trivial
  | cons e es ih =>
    constructor
    · exact h e List.mem_cons_self g
    · exact ih fun e' he' => h e' (List.mem_cons_of_mem _ he')

theorem Accepts.imp (h : ∀ g e, P g e → Q g e) (ha : Accepts next P es g) :
    Accepts next Q es g := by
  induction es generalizing g with
  | nil => trivial
  | cons e es ih =>
    constructor
    · exact h g e ha.1
    · exact ih ha.2

/-- Two conditions on the events of a run agree when they do at every step, in the monitor
states that `R` relates to the state of the machine. -/
theorem trace_accepts_iff
    (step : ∀ s o t g, R s g → C s o → exec o s = some t →
      R t ((obs o s t).foldl next g) ∧
        (Accepts next P (obs o s t) g ↔ Accepts next Q (obs o s t) g))
    (hs : R s g) (hC : Along exec C os s) :
    Accepts next P (trace exec obs os s) g ↔ Accepts next Q (trace exec obs os s) g := by
  induction os generalizing s g with
  | nil => exact Iff.rfl
  | cons o os ih =>
    unfold trace
    split
    · exact Iff.rfl
    next t ht =>
      obtain ⟨hR, hPQ⟩ := step s o t g hs hC.1 ht
      rw [accepts_append, accepts_append, hPQ, ih hR (hC.2 t ht)]

/-- Every event of a run that meets `Q` is allowed when each step of it sees to that. -/
theorem trace_accepts
    (step : ∀ s o t g, R s g → C s o → exec o s = some t → Accepts next Q (obs o s t) g →
      R t ((obs o s t).foldl next g) ∧ Accepts next P (obs o s t) g)
    (hs : R s g) (hC : Along exec C os s) (hQ : Accepts next Q (trace exec obs os s) g) :
    Accepts next P (trace exec obs os s) g := by
  induction os generalizing s g with
  | nil => trivial
  | cons o os ih =>
    unfold trace at hQ ⊢
    split at hQ
    · trivial
    next t ht =>
      rw [accepts_append] at hQ
      obtain ⟨hR, hP⟩ := step s o t g hs hC.1 ht hQ.1
      rw [accepts_append]
      exact ⟨hP, ih hR (hC.2 t ht) hQ.2⟩

end
end PartialRun
