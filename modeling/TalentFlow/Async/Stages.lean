import TalentFlow.Async.EventLoop

/-!
# Async.Stages

The tasks of an event loop as places in the text of their programs. A `Staging` names the places
where tasks can be suspended, with the program that is left at each, and says from which to which
one segment goes and what it does to the world. Its two equations say that this is what the loop
does, so a run of the loop is a run of the staging, and an invariant can speak of the stages of tasks
instead of their programs.

* `run_staged`: every run of the loop is one of the staging.
* `staged_cases`: everything one step can do.
-/

namespace Async

variable {I : Interface} {ι World Trigger Choice α : Type}

abbrev Answered (I : Interface) : Type := (c : I.Call) × I.Answer c

/-- Answers the call of a suspended program and runs it up to its next await. -/
def EventLoop.resume (L : EventLoop I World Trigger Choice α) (ch : Choice) (w : World) :
    Prog I α → Option (Answered I × Prog I α × World)
  | .call c k => (L.answer c ch w).map fun rw => (⟨c, rw.1⟩, L.settle (k rw.1) rw.2)
  | _ => none

structure Staging (L : EventLoop I World Trigger Choice α) (Stage : Type) where
  /-- what is left to run -/
  prog : Stage → Prog I α
  /-- where a started task is first suspended, or over -/
  begin : Trigger → World → Option (Stage × World)
  /-- where a task is suspended next -/
  next : Stage → Choice → World → Option (Answered I × Stage × World)
  begin_eq : ∀ t w, (L.trigger t w).map (fun wp => L.settle wp.2 wp.1) =
    (begin t w).map fun x => (prog x.1, x.2)
  next_eq : ∀ st ch w, L.resume ch w (prog st) =
    (next st ch w).map fun x => (x.1, prog x.2.1, x.2.2)

structure Staged (I : Interface) (ι World Trigger Stage : Type) where
  world : World
  stages : ι → Option (Trigger × Stage) := fun _ => none
  log : List (ι × Answered I) := []

section Tasks

variable {Stage : Type} {stages : ι → Option (Trigger × Stage)} {R R' : Trigger → Stage → Prop}

def HasStage (stages : ι → Option (Trigger × Stage)) (R : Trigger → Stage → Prop) : Prop :=
  ∃ i t st, stages i = some (t, st) ∧ R t st

def EachStage (stages : ι → Option (Trigger × Stage)) (R : Trigger → Stage → Prop) : Prop :=
  ∀ i t st, stages i = some (t, st) → R t st

theorem EachStage.mono (h : EachStage stages R) (hR : ∀ t st, R t st → R' t st) :
    EachStage stages R' :=
  fun i t st hi => hR t st (h i t st hi)

theorem HasStage.mono (h : HasStage stages R) (hR : ∀ t st, R t st → R' t st) :
    HasStage stages R' := by
  obtain ⟨i, t, st, hi, hst⟩ := h
  exact ⟨i, t, st, hi, hR t st hst⟩

variable [DecidableEq ι] {i : ι} {t : Trigger} {st : Stage}

theorem hasStage_update (h : R t st) : HasStage (Function.update stages i (some (t, st))) R :=
  ⟨i, t, st, Function.update_self .., h⟩

theorem HasStage.update (h : HasStage stages R) (hi : ∀ t st, stages i = some (t, st) → ¬ R t st)
    (x : Option (Trigger × Stage)) : HasStage (Function.update stages i x) R := by
  obtain ⟨j, t, st, hj, hst⟩ := h
  have hne : j ≠ i := by
    rintro rfl
    exact hi t st hj hst
  exact ⟨j, t, st, by rwa [Function.update_of_ne hne], hst⟩

theorem EachStage.update (h : EachStage stages R) (hst : R t st) :
    EachStage (Function.update stages i (some (t, st))) R := by
  intro j t' st' hj
  by_cases hji : j = i
  · subst hji
    rw [Function.update_self] at hj
    cases hj
    exact hst
  · rw [Function.update_of_ne hji] at hj
    exact h j t' st' hj

/-- What is true or else owed by some task stays so: after a segment it is true, or the task that
went on owes it, or nothing has changed and the task did not owe it. -/
theorem owed_update {P P' : Prop} (h : P ∨ HasStage stages R)
    (hseg : P' ∨ R' t st ∨ (P → P') ∧ (∀ t st, R t st → R' t st) ∧
      ∀ t st, stages i = some (t, st) → ¬ R t st) :
    P' ∨ HasStage (Function.update stages i (some (t, st))) R' := by
  obtain hP | hst | ⟨hkeep, hmono, hnot⟩ := hseg
  · exact .inl hP
  · exact .inr (hasStage_update hst)
  · obtain hP | hR := h
    · exact .inl (hkeep hP)
    · exact .inr ((hR.update hnot _).mono hmono)

end Tasks

namespace Staging

variable {L : EventLoop I World Trigger Choice α} {Stage : Type} (S : Staging L Stage)

/-- The state that is meant. -/
def state (σ : Staged I ι World Trigger Stage) : EventLoop.State I ι World Trigger α where
  world := σ.world
  tasks i := (σ.stages i).map fun x => ⟨x.1, S.prog x.2⟩
  log := σ.log

section Semantics

variable [DecidableEq ι]

def step : EventLoop.Label ι Trigger Choice → Staged I ι World Trigger Stage →
    Option (Staged I ι World Trigger Stage)
  | .start i t, σ =>
    match σ.stages i with
    | some _ => none
    | none => (S.begin t σ.world).map fun x =>
        { σ with world := x.2, stages := Function.update σ.stages i (some (t, x.1)) }
  | .resume i ch, σ =>
    match σ.stages i with
    | some (t, st) => (S.next st ch σ.world).map fun x =>
        { world := x.2.2
          stages := Function.update σ.stages i (some (t, x.2.1))
          log := σ.log ++ [(i, x.1)] }
    | none => none

abbrev run : List (EventLoop.Label ι Trigger Choice) → Staged I ι World Trigger Stage →
    Option (Staged I ι World Trigger Stage) :=
  Runs.run S.step

end Semantics

variable {S} {σ σ' : Staged I ι World Trigger Stage}

theorem state_awaits (i : ι) :
    (S.state σ).awaits i = (σ.stages i).bind fun x => (S.prog x.2).next? := by
  unfold EventLoop.State.awaits
  cases h : σ.stages i <;> simp [state, h]

variable [DecidableEq ι]

theorem state_update (i : ι) (t : Trigger) (st : Stage) (w : World) (log : List (ι × Answered I)) :
    S.state { world := w, stages := Function.update σ.stages i (some (t, st)), log := log } =
      { world := w, tasks := Function.update (S.state σ).tasks i (some ⟨t, S.prog st⟩),
        log := log } := by
  simp only [state, EventLoop.State.mk.injEq, true_and, and_true]
  funext j
  by_cases hj : j = i
  · subst hj
    simp
  · simp [Function.update_of_ne hj]

theorem step_staged (l : EventLoop.Label ι Trigger Choice) :
    L.step l (S.state σ) = (S.step l σ).map S.state := by
  cases l with
  | start i t =>
    cases hi : σ.stages i with
    | some x => simp [EventLoop.step, step, state, hi]
    | none =>
      have hb := S.begin_eq t σ.world
      cases ht : L.trigger t σ.world with
      | none =>
        rw [ht, Option.map_none, eq_comm, Option.map_eq_none_iff] at hb
        simp [EventLoop.step, step, state, hi, ht, hb]
      | some wp =>
        rw [ht, Option.map_some, eq_comm, Option.map_eq_some_iff] at hb
        obtain ⟨⟨st, w⟩, hx, heq⟩ := hb
        have hstep : S.step (.start i t) σ =
            some { σ with world := w, stages := Function.update σ.stages i (some (t, st)) } := by
          simp only [step, hi, hx, Option.map_some]
        rw [hstep, Option.map_some, state_update]
        simp only [EventLoop.step, state, hi, Option.map_none, ht, Option.map_some, ← heq]
  | resume i ch =>
    cases hi : σ.stages i with
    | none => simp [EventLoop.step, step, state, hi]
    | some x =>
      obtain ⟨t, st⟩ := x
      have hn := S.next_eq st ch σ.world
      have hstep : S.step (.resume i ch) σ = (S.next st ch σ.world).map fun x =>
          { world := x.2.2, stages := Function.update σ.stages i (some (t, x.2.1)),
            log := σ.log ++ [(i, x.1)] } := by
        simp only [step, hi]
      have hloop : L.step (.resume i ch) (S.state σ) =
          (L.resume ch σ.world (S.prog st)).map fun x =>
            { world := x.2.2, tasks := Function.update (S.state σ).tasks i (some ⟨t, x.2.1⟩),
              log := σ.log ++ [(i, x.1)] } := by
        have htask : (S.state σ).tasks i = some ⟨t, S.prog st⟩ := by simp [state, hi]
        simp only [EventLoop.step, htask]
        cases hp : S.prog st <;> simp [EventLoop.resume, state, Function.comp_def]
      rw [hloop, hn, hstep]
      simp only [Option.map_map]
      congr 1
      funext x
      exact (state_update i t x.2.1 x.2.2 _).symm

theorem run_staged {ls : List (EventLoop.Label ι Trigger Choice)}
    {s' : EventLoop.State I ι World Trigger α} (h : L.run ls (S.state σ) = some s') :
    ∃ σ', S.run ls σ = some σ' ∧ S.state σ' = s' := by
  induction ls generalizing σ with
  | nil =>
    cases h
    exact ⟨σ, rfl, rfl⟩
  | cons l ls ih =>
    obtain ⟨s₁, hs, hr⟩ := Runs.run_cons.mp h
    rw [step_staged, Option.map_eq_some_iff] at hs
    obtain ⟨σ₁, hs, rfl⟩ := hs
    obtain ⟨σ', hrun, hs'⟩ := ih hr
    exact ⟨σ', Runs.run_cons.mpr ⟨σ₁, hs, hrun⟩, hs'⟩

theorem along_staged {P : EventLoop.State I ι World Trigger α →
      EventLoop.Label ι Trigger Choice → Prop} {ls : List (EventLoop.Label ι Trigger Choice)}
    (h : L.Along P ls (S.state σ)) : Runs.Along S.step (fun σ l => P (S.state σ) l) ls σ := by
  induction ls generalizing σ with
  | nil => trivial
  | cons l ls ih =>
    refine ⟨h.1, fun σ' hσ => ih (h.2 _ ?_)⟩
    rw [step_staged, hσ, Option.map_some]

theorem staged_cases {l : EventLoop.Label ι Trigger Choice} (h : S.step l σ = some σ') :
    (∃ i t st w, l = .start i t ∧ σ.stages i = none ∧ S.begin t σ.world = some (st, w) ∧
      σ' = { σ with world := w, stages := Function.update σ.stages i (some (t, st)) }) ∨
    ∃ i ch t st a st' w, l = .resume i ch ∧ σ.stages i = some (t, st) ∧
      S.next st ch σ.world = some (a, st', w) ∧
      σ' = { world := w, stages := Function.update σ.stages i (some (t, st')),
             log := σ.log ++ [(i, a)] } := by
  cases l with
  | start i t =>
    left
    simp only [step] at h
    cases hi : σ.stages i with
    | some x => rw [hi] at h; cases h
    | none =>
      rw [hi] at h
      obtain ⟨⟨st, w⟩, hb, rfl⟩ := Option.map_eq_some_iff.mp h
      exact ⟨i, t, st, w, rfl, hi, hb, rfl⟩
  | resume i ch =>
    right
    simp only [step] at h
    cases hi : σ.stages i with
    | none => rw [hi] at h; cases h
    | some x =>
      obtain ⟨t, st⟩ := x
      rw [hi] at h
      obtain ⟨⟨a, st', w⟩, hn, rfl⟩ := Option.map_eq_some_iff.mp h
      exact ⟨i, ch, t, st, a, st', w, rfl, hi, hn, rfl⟩

end Staging

end Async
