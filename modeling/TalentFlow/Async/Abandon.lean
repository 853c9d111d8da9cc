import TalentFlow.Async.Monitor

/-!
# Async.Abandon

Threads that are given up. Between two steps of a machine a thread may be abandoned: its process is
stopped, or nobody waits for it any longer. It makes no further call; what it has done stays.

* `happen_cases`: everything that can happen.
* `attended_invariant_along`: the invariants of `run_invariant_along`, which may also speak of who
  has been given up.
-/

namespace Async

inductive Incident (ι Choice Move : Type) where
  | step (l : Label ι Choice Move)
  | abandon (i : ι)

structure Attended (I : Interface) (ι World α : Type) where
  cfg : Config I ι World α
  abandoned : List ι := []

variable {I : Interface} {ι World Choice Move α : Type} [DecidableEq ι]

def Machine.happen (M : Machine I ι World Choice Move) :
    Incident ι Choice Move → Attended I ι World α → Option (Attended I ι World α)
  | .step (.run i ch), s =>
    if i ∈ s.abandoned then none else (M.step (.run i ch) s.cfg).map fun cfg => { s with cfg }
  | .step (.move m), s => (M.step (.move m) s.cfg).map fun cfg => { s with cfg }
  | .abandon i, s => some { s with abandoned := i :: s.abandoned }

variable {M : Machine I ι World Choice Move} {h : Incident ι Choice Move}
  {s s' : Attended I ι World α}

theorem happen_cases (hs : M.happen h s = some s') :
    (∃ i ch c k r w, h = .step (.run i ch) ∧ i ∉ s.abandoned ∧ s.cfg.pool i = .call c k ∧
      M.exec i c ch s.cfg.world = some (r, w) ∧ s' = { s with cfg := s.cfg.answered i r k w }) ∨
    (∃ m w, h = .step (.move m) ∧ M.move m s.cfg.world = some w ∧
      s' = { s with cfg := { s.cfg with world := w } }) ∨
    ∃ i, h = .abandon i ∧ s' = { s with abandoned := i :: s.abandoned } := by
  cases h with
  | abandon i => exact .inr (.inr ⟨i, rfl, (Option.some.inj hs).symm⟩)
  | step l =>
    cases l with
    | run i ch =>
      simp only [Machine.happen] at hs
      split at hs
      · cases hs
      rename_i hattended
      obtain ⟨cfg, hstep, rfl⟩ := Option.map_eq_some_iff.mp hs
      obtain ⟨j, ch, c, k, r, w, hl, hp, hx, rfl⟩ | ⟨m, w, hl, -, -⟩ := Machine.step_cases hstep
      · cases hl
        exact .inl ⟨i, ch, c, k, r, w, rfl, hattended, hp, hx, rfl⟩
      · cases hl
    | move m =>
      obtain ⟨cfg, hstep, rfl⟩ := Option.map_eq_some_iff.mp hs
      obtain ⟨i, ch, c, k, r, w, hl, -⟩ | ⟨m, w, hl, hm, rfl⟩ := Machine.step_cases hstep
      · cases hl
      · cases hl
        exact .inr (.inl ⟨m, w, rfl, hm, rfl⟩)

variable {σ : Type} {m : ι → Monitor I σ} {s₀ : ι → σ} {post : ι → Except I.Error α → σ → Prop}

/-- An invariant of the world, the monitors' states and the threads given up that each allowed call,
each move and each giving up keeps holds along every run, as does obedience. What happens may be
assumed to meet `P`. -/
theorem attended_invariant_along {P : Attended I ι World α → Incident ι Choice Move → Prop}
    (Inv : World → (ι → σ) → List ι → Prop)
    (hcall : ∀ {s : Attended I ι World α} {i ch c k r w}, AllObey m s₀ post s.cfg →
      Inv s.cfg.world (stage m s₀ s.cfg) s.abandoned → P s (.step (.run i ch)) →
      i ∉ s.abandoned → s.cfg.pool i = .call c k → (m i).call (stage m s₀ s.cfg i) c →
      M.exec i c ch s.cfg.world = some (r, w) → (m i).answer (stage m s₀ s.cfg i) c r ∧
        Inv w (Function.update (stage m s₀ s.cfg) i ((m i).next (stage m s₀ s.cfg i) ⟨c, r⟩))
          s.abandoned)
    (hmove : ∀ {mv w w' st gone}, Inv w st gone → M.move mv w = some w' → Inv w' st gone)
    (habandon : ∀ {s : Attended I ι World α} {i}, AllObey m s₀ post s.cfg →
      Inv s.cfg.world (stage m s₀ s.cfg) s.abandoned → P s (.abandon i) →
      Inv s.cfg.world (stage m s₀ s.cfg) (i :: s.abandoned))
    {hs : List (Incident ι Choice Move)} (hobey : AllObey m s₀ post s.cfg)
    (hinv : Inv s.cfg.world (stage m s₀ s.cfg) s.abandoned) (hP : Runs.Along M.happen P hs s)
    (hrun : Runs.run M.happen hs s = some s') :
    AllObey m s₀ post s'.cfg ∧ Inv s'.cfg.world (stage m s₀ s'.cfg) s'.abandoned := by
  refine Runs.run_induction_along
    (fun s : Attended I ι World α =>
      AllObey m s₀ post s.cfg ∧ Inv s.cfg.world (stage m s₀ s.cfg) s.abandoned)
    (fun {s h s'} hI hl hstep => ?_) ⟨hobey, hinv⟩ hP hrun
  obtain ⟨i, ch, c, k, r, w, rfl, hi, hp, hx, rfl⟩ | ⟨mv, w, rfl, hm, rfl⟩ | ⟨i, rfl, rfl⟩ :=
    happen_cases hstep
  · obtain ⟨hr, hI'⟩ := hcall hI.1 hI.2 hl hi hp (hI.1.call hp) hx
    refine ⟨hI.1.answered hp w hr, ?_⟩
    dsimp only
    rw [stage_answered]
    exact hI'
  · exact ⟨hI.1, hmove hI.2 hm⟩
  · exact ⟨hI.1, habandon hI.1 hI.2 hl⟩

end Async
