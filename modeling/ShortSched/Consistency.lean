import ShortSched.Links
import ShortSched.Separation

/-! The representation invariant of the runqueue along every run from boot: lists, bitmaps,
counters and array pointers agree, as long as no task becomes SHORT while it is off the
runqueue. -/
namespace ShortSched
open Relation PartialRun

/-- Lists, bitmaps, counters and array pointers of the runqueue agree. -/
structure WellFormed (k : Kernel) : Prop where
  bitmap : ∀ a i, 0 ≤ i → i < maxPrio → ((k.rq.arrays a).bitmap i = true ↔ k.queue a i ≠ [])
  nrActive : ∀ a, (k.rq.arrays a).nrActive = ∑ i ∈ Finset.Ico 0 maxPrio, (k.queue a i).length
  once : ∀ a i, (k.queue a i).Nodup
  home : ∀ p a i, p ∈ k.queue a i →
    (k.tasks p).array = some a ∧ (k.tasks p).prio = i ∧ 0 ≤ i ∧ i < maxPrio
  null : ∀ p, ¬ k.Linked p → (k.tasks p).array = none
  nrRunning : k.rq.nrRunning = ∑ a, (k.rq.arrays a).nrActive

/-- A sound state in which tasks that are not linked point to no array. -/
structure Backed (k : Kernel) : Prop extends Sound k where
  attached : ∀ q, (k.core q).Attached

/-- An accepted call that makes a task SHORT finds it on the runqueue. -/
def EntersQueued (k : Kernel) (op : Op) : Prop :=
  ∀ acc ∈ op.accepted k, (k.tasks acc.target).policy = .other → acc.policy = .short →
    (k.tasks acc.target).array ≠ none

instance (k : Kernel) (op : Op) : Decidable (EntersQueued k op) :=
  inferInstanceAs (Decidable (∀ acc ∈ op.accepted k, _))

section
variable {HZ : ℕ} {ps : Ptrs} {c d : Core} {k k' m : Kernel} {op : Op} {p q : TaskId}

theorem Backed.linked_iff (h : Backed k) : k.Linked p ↔ (k.core p).runList ≠ none := by
  rw [h.shape.linked_iff]
  constructor
  · rintro ⟨a, i, hl⟩ hn
    exact absurd (hl.symm.trans hn) (by simp)
  · intro hn
    obtain ⟨⟨c, a, i⟩, hl⟩ := Option.ne_none_iff_exists'.mp hn
    have hc : c = k.rq.cpu := h.here p _ hl
    exact ⟨a, i, hc ▸ hl⟩

theorem Backed.wellFormed (h : Backed k) : WellFormed k where
  bitmap a i h0 h1 := (h.shape.arrays a).marked i (by simpa using ⟨h0, h1⟩)
  nrActive a := by
    rw [(h.shape.arrays a).counted, Buckets.total]
    push_cast
    rfl
  once a i := h.shape.located.nodup ⟨k.rq.cpu, a, i⟩ rfl
  home p a i hp := ⟨(h.shape.of_mem hp).1, (h.shape.of_mem hp).2, h.shape.prio_range hp⟩
  null p hp := by
    by_contra ha
    exact hp (h.linked_iff.mpr (h.attached p ha))
  nrRunning := by rw [h.shape.running, add_zero]

theorem Effect.attached (h : Effect HZ quietGuard op k k') (hk : ∀ q, (k.core q).Attached) :
    ∀ q, (k'.core q).Attached :=
  h.tasks_invariant (fun _ _ _ => TaskStep.attached) (fun _ _ _ => IdleStep.attached)
    (fun _ i _ _ _ => Core.Attached.forked i) hk

theorem Only.attached (h : Only p c k k') (hk : ∀ q, (k.core q).Attached) (hc : c.Attached) :
    ∀ q, (k'.core q).Attached := by
  intro q
  by_cases hq : q = p
  · rw [hq, h.self]
    exact hc
  · rw [h.rest hq]
    exact hk q

theorem Core.Requeued.attached {queued : Bool} (h : c.Requeued ps queued d)
    (hc : queued = false → c.Attached) : d.Attached := by
  unfold Core.Requeued at h
  cases queued with
  | true =>
    obtain ⟨-, i, -, rfl⟩ := h
    exact fun _ => Option.some_ne_none _
  | false =>
    obtain rfl : d = c := h
    exact hc rfl

theorem Core.attached_of_array (h : c.array = none) : c.Attached := fun ha => absurd h ha

/-- A policy change leaves no stale array pointer when it finds a task that becomes SHORT
on the runqueue. -/
theorem setscheduler_attached {pid policy r : ℤ} {param : Option UserParam}
    (hk : ∀ q, (k.core q).Attached)
    (h : setscheduler HZ pid policy param k = some (r, k'))
    (hen : ∀ acc, setschedulerCheck k pid policy param = .ok acc →
      (k.tasks acc.target).policy = .other → acc.policy = .short →
        (k.tasks acc.target).array ≠ none) : ∀ q, (k'.core q).Attached := by
  obtain ⟨e, -, -, rfl⟩ | ⟨acc, hacc, -, hm⟩ := setscheduler_cases h
  · exact hk
  · cases setschedulerApply_applied hm (setschedulerCheck_ok hacc) with
    | becomes d n ho hs hd hn hsch =>
      have hq := hen acc hacc ho hs
      have hsome : (k.core acc.target).array.isSome = true := Option.isSome_iff_ne_none.mpr hq
      have hn' := hn.attached hk (hd.attached fun hf => absurd (hsome.symm.trans hf) (by simp))
      have heff : Effect HZ quietGuard (.schedule none) n k' := schedule_effect hsch rfl
      exact heff.attached hn'
    | stays ho hs hn =>
      exact hn.attached hk (Core.attached_of_array (k.core acc.target).left_array)
    | changes d hs hd hn =>
      exact hn.attached hk (hd.attached fun _ =>
        Core.attached_of_array (k.core acc.target).left_array)

theorem Permits.quiet (h : op.accepted k = none) : Permits quietGuard k op :=
  { Permits.free k op with
    enter := fun acc ha => by simp [h] at ha }

/-- Every operation leaves a backed state backed, if it makes no task SHORT that is off the
runqueue. -/
theorem Backed.exec (h : Backed k) (he : Enabled k op) (hq : EntersQueued k op)
    (hs : exec HZ op k = some k') : Backed k' := by
  refine ⟨h.toSound.exec he hs, ?_⟩
  have hplain : op.accepted k = none → ∀ q, (k'.core q).Attached := fun hn =>
    (exec_effect hs he h.idle (Permits.quiet hn)).attached h.attached
  cases op with
  | sysSchedSetscheduler pid policy param =>
    obtain ⟨⟨r, m⟩, hm, rfl⟩ := Option.map_eq_some_iff.mp hs
    exact setscheduler_attached h.attached (sysSchedSetscheduler_eq hm)
      fun acc ha => hq acc (toOption_eq_some.mpr ha)
  | sysSchedSetparam pid param =>
    obtain ⟨⟨r, m⟩, hm, rfl⟩ := Option.map_eq_some_iff.mp hs
    exact setscheduler_attached h.attached hm fun acc ha => hq acc (toOption_eq_some.mpr ha)
  | _ => exact hplain rfl

theorem schedInit_backed (h : schedInit HZ = some k) : Backed k := by
  refine ⟨schedInit_sound h, ?_⟩
  have hboot : ∀ q, ((bootKernel HZ).core q).Attached := fun q ha => absurd rfl ha
  rcases tryToWakeUp_only h with ⟨hn, -⟩ | ⟨-, -, i, -, h1⟩
  · exact absurd rfl hn
  · exact h1.attached hboot fun _ => Option.some_ne_none _

theorem runFromBoot_backed {ops : List Op} (hC : AlongBoot HZ EntersQueued ops)
    (hr : runFromBoot HZ ops = some k) : Backed k :=
  (runFromBoot_invariant (J := Backed) (fun _ => schedInit_backed)
    (fun _ _ _ _ hs he hq h => hs.exec he hq h) hC hr).2

end
end ShortSched
