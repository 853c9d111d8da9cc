import Mathlib.Data.Option.Basic

/-!
# Async.Runs

Runs of a system given by a partial step function: `step l s` is the state after a step with label
`l`, or `none` when that step is not possible in `s`. A schedule is a list of labels.

* `run_append`: runs split at any point.
* `run_induction_along`: an invariant of the steps that meet a condition is one of the runs whose
  steps all meet it.
* `along_append`: the condition splits with the run.
-/

namespace Async.Runs

variable {L S : Type} (step : L → S → Option S)

/-- Executes a schedule; `none` when some step of it is not possible. -/
def run : List L → S → Option S
  | [], s => some s
  | l :: ls, s => (step l s).bind (run ls)

def Along (P : S → L → Prop) : List L → S → Prop
  | [], _ => True
  | l :: ls, s => P s l ∧ ∀ s', step l s = some s' → Along P ls s'

variable {step} {P Q : S → L → Prop} {l : L} {ls ls' : List L} {s s' s₁ : S}

instance decidableAlong [∀ s l, Decidable (P s l)] :
    ∀ (ls : List L) (s : S), Decidable (Along step P ls s)
  | [], _ => .isTrue trivial
  | l :: ls, s =>
    match hs : step l s with
    | none => decidable_of_iff (P s l) ⟨fun h => ⟨h, fun s' h' => by rw [hs] at h'; cases h'⟩,
        fun h => h.1⟩
    | some s₁ =>
      haveI : Decidable (Along step P ls s₁) := decidableAlong ls s₁
      decidable_of_iff (P s l ∧ Along step P ls s₁)
        ⟨fun h => ⟨h.1, fun s' h' => by rw [hs] at h'; cases h'; exact h.2⟩,
          fun h => ⟨h.1, h.2 s₁ hs⟩⟩

@[simp] theorem run_nil (s : S) : run step [] s = some s := rfl

theorem run_cons : run step (l :: ls) s = some s' ↔
    ∃ s₁, step l s = some s₁ ∧ run step ls s₁ = some s' :=
  Option.bind_eq_some_iff

theorem run_append : run step (ls ++ ls') s = some s' ↔
    ∃ s₁, run step ls s = some s₁ ∧ run step ls' s₁ = some s' := by
  induction ls generalizing s with
  | nil => simp
  | cons l ls ih =>
    simp only [List.cons_append, run_cons, ih]
    constructor
    · rintro ⟨s₁, h₁, s₂, h₂, h₃⟩
      exact ⟨s₂, ⟨s₁, h₁, h₂⟩, h₃⟩
    · rintro ⟨s₂, ⟨s₁, h₁, h₂⟩, h₃⟩
      exact ⟨s₁, h₁, s₂, h₂, h₃⟩

theorem along_append (h : Along step P (ls ++ ls') s) (hrun : run step ls s = some s₁) :
    Along step P ls s ∧ Along step P ls' s₁ := by
  induction ls generalizing s with
  | nil =>
    cases hrun
    exact ⟨trivial, h⟩
  | cons l ls ih =>
    obtain ⟨s₂, hs, hr⟩ := run_cons.mp hrun
    obtain ⟨hP, hall⟩ := h
    refine ⟨⟨hP, fun s₃ h₃ => ?_⟩, (ih (hall _ hs) hr).2⟩
    rw [hs] at h₃
    cases h₃
    exact (ih (hall _ hs) hr).1

theorem along_mono (h : Along step P ls s) (hPQ : ∀ s l, P s l → Q s l) :
    Along step Q ls s := by
  induction ls generalizing s with
  | nil => trivial
  | cons l ls ih => exact ⟨hPQ s l h.1, fun s' hs => ih (h.2 s' hs)⟩

theorem along_and (hP : Along step P ls s) (hQ : Along step Q ls s) :
    Along step (fun s l => P s l ∧ Q s l) ls s := by
  induction ls generalizing s with
  | nil => trivial
  | cons l ls ih => exact ⟨⟨hP.1, hQ.1⟩, fun s' hs => ih (hP.2 s' hs) (hQ.2 s' hs)⟩

/-- An invariant of the steps that meet `P` is an invariant of the runs that meet `P`. -/
theorem run_induction_along (Inv : S → Prop)
    (hstep : ∀ {s l s'}, Inv s → P s l → step l s = some s' → Inv s') (h₀ : Inv s)
    (hP : Along step P ls s) (hrun : run step ls s = some s') : Inv s' := by
  induction ls generalizing s with
  | nil =>
    cases hrun
    exact h₀
  | cons l ls ih =>
    obtain ⟨s₁, hs, hr⟩ := run_cons.mp hrun
    exact ih (hstep h₀ hP.1 hs) (hP.2 _ hs) hr

/-- Where an invariant makes `Q` of `P`, the runs that meet `P` meet `Q`. -/
theorem along_of_invariant (Inv : S → Prop)
    (hstep : ∀ {s l s'}, Inv s → P s l → step l s = some s' → Inv s')
    (hPQ : ∀ {s l}, Inv s → P s l → Q s l) (h₀ : Inv s) (hP : Along step P ls s) :
    Along step Q ls s := by
  induction ls generalizing s with
  | nil => trivial
  | cons l ls ih =>
    exact ⟨hPQ h₀ hP.1, fun s' hs => ih (hstep h₀ hP.1 hs) (hP.2 s' hs)⟩

theorem along_of_forall (h : ∀ s, ∀ l ∈ ls, P s l) (s : S) : Along step P ls s := by
  induction ls generalizing s with
  | nil => trivial
  | cons l ls ih =>
    exact ⟨h s l List.mem_cons_self, fun s' _ =>
      ih (fun s x hx => h s x (List.mem_cons_of_mem _ hx)) s'⟩

theorem run_induction (Inv : S → Prop)
    (hstep : ∀ {s l s'}, Inv s → step l s = some s' → Inv s') (h₀ : Inv s)
    (hrun : run step ls s = some s') : Inv s' :=
  run_induction_along (P := fun _ _ => True) Inv (fun h _ hs => hstep h hs) h₀
    (along_of_forall (fun _ _ _ => trivial) s) hrun

end Async.Runs
