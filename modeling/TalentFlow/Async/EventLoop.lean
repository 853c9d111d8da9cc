import TalentFlow.Async.Prog
import TalentFlow.Async.Runs
import Mathlib.Logic.Function.Basic

/-!
# Async.EventLoop

Programs that share one thread. A task runs without interruption until it awaits something; then
other tasks run, and the task is resumed when what it awaits has been answered. So a call is of one
of two kinds: one that `sync` answers is part of the running segment, any other suspends the task.
What making an awaited call does at once is `issue`; what happens when it is answered is `answer`.

Tasks are started from the outside (`trigger`): by a timer, an event, a request. Any number of them
can be in flight.

* `settle`: runs a program up to its next await.
* `step_cases`: everything one step can do.
-/

namespace Async

structure EventLoop (I : Interface) (World Trigger Choice α : Type) where
  /-- how a call is answered without waiting; `none` for a call that is awaited -/
  sync : (c : I.Call) → World → Option (I.Answer c × World)
  issue : I.Call → World → World
  answer : (c : I.Call) → Choice → World → Option (I.Answer c × World)
  trigger : Trigger → World → Option (World × Prog I α)

/-- A program in flight, or over, and what started it. -/
structure Task (I : Interface) (Trigger α : Type) where
  origin : Trigger
  prog : Prog I α

namespace EventLoop

inductive Label (ι Trigger Choice : Type) where
  | start (i : ι) (t : Trigger)
  | resume (i : ι) (ch : Choice)

variable {I : Interface} {ι World Trigger Choice α : Type}

def Label.task : Label ι Trigger Choice → ι
  | start i _ => i
  | resume i _ => i

/-- `log` has the awaited calls that have been answered, each with its task. -/
structure State (I : Interface) (ι World Trigger α : Type) where
  world : World
  tasks : ι → Option (Task I Trigger α) := fun _ => none
  log : List (ι × (c : I.Call) × I.Answer c) := []

def State.awaits (s : State I ι World Trigger α) (i : ι) : Option I.Call :=
  (s.tasks i).bind fun t => t.prog.next?

def State.InFlight (s : State I ι World Trigger α) (i : ι) : Prop := s.awaits i ≠ none

section Semantics

variable [DecidableEq ι] (L : EventLoop I World Trigger Choice α)

def settle : Prog I α → World → Prog I α × World
  | .ret a, w => (.ret a, w)
  | .throw e, w => (.throw e, w)
  | .call c k, w =>
    match L.sync c w with
    | some (r, w') => settle (k r) w'
    | none => (.call c k, L.issue c w)

def step : Label ι Trigger Choice → State I ι World Trigger α → Option (State I ι World Trigger α)
  | .start i t, s =>
    match s.tasks i with
    | some _ => none
    | none => (L.trigger t s.world).map fun wp =>
        { s with
          world := (L.settle wp.2 wp.1).2
          tasks := Function.update s.tasks i (some ⟨t, (L.settle wp.2 wp.1).1⟩) }
  | .resume i ch, s =>
    match s.tasks i with
    | some ⟨t, .call c k⟩ => (L.answer c ch s.world).map fun rw =>
        { world := (L.settle (k rw.1) rw.2).2
          tasks := Function.update s.tasks i (some ⟨t, (L.settle (k rw.1) rw.2).1⟩)
          log := s.log ++ [(i, ⟨c, rw.1⟩)] }
    | _ => none

/-- Executes a schedule. -/
abbrev run : List (Label ι Trigger Choice) → State I ι World Trigger α →
    Option (State I ι World Trigger α) :=
  Runs.run L.step

abbrev Along (P : State I ι World Trigger α → Label ι Trigger Choice → Prop) :
    List (Label ι Trigger Choice) → State I ι World Trigger α → Prop :=
  Runs.Along L.step P

end Semantics

variable {L : EventLoop I World Trigger Choice α}

@[simp] theorem settle_ret (a : α) (w : World) : L.settle (.ret a) w = (.ret a, w) := rfl

@[simp] theorem settle_throw (e : I.Error) (w : World) : L.settle (.throw e) w = (.throw e, w) := rfl

theorem settle_sync {c : I.Call} {k : I.Answer c → Prog I α} {w w' : World} {r : I.Answer c}
    (h : L.sync c w = some (r, w')) : L.settle (.call c k) w = L.settle (k r) w' := by
  simp only [settle, h]

variable [DecidableEq ι]

theorem step_cases {l : Label ι Trigger Choice} {s s' : State I ι World Trigger α}
    (h : L.step l s = some s') :
    (∃ i t w p, l = .start i t ∧ s.tasks i = none ∧ L.trigger t s.world = some (w, p) ∧
      s' = { s with world := (L.settle p w).2,
                    tasks := Function.update s.tasks i (some ⟨t, (L.settle p w).1⟩) }) ∨
    ∃ i ch t c k r w, l = .resume i ch ∧ s.tasks i = some ⟨t, .call c k⟩ ∧
      L.answer c ch s.world = some (r, w) ∧
      s' = { world := (L.settle (k r) w).2,
             tasks := Function.update s.tasks i (some ⟨t, (L.settle (k r) w).1⟩),
             log := s.log ++ [(i, ⟨c, r⟩)] } := by
  cases l with
  | start i t =>
    left
    simp only [step] at h
    cases hi : s.tasks i with
    | some task => rw [hi] at h; cases h
    | none =>
      rw [hi] at h
      obtain ⟨⟨w, p⟩, ht, rfl⟩ := Option.map_eq_some_iff.mp h
      exact ⟨i, t, w, p, rfl, hi, ht, rfl⟩
  | resume i ch =>
    right
    simp only [step] at h
    rcases hi : s.tasks i with _ | ⟨t, a | e | ⟨c, k⟩⟩
    · rw [hi] at h; cases h
    · rw [hi] at h; cases h
    · rw [hi] at h; cases h
    · rw [hi] at h
      obtain ⟨⟨r, w⟩, ha, rfl⟩ := Option.map_eq_some_iff.mp h
      exact ⟨i, ch, t, c, k, r, w, rfl, hi, ha, rfl⟩

theorem step_tasks_of_ne {l : Label ι Trigger Choice} {s s' : State I ι World Trigger α}
    (h : L.step l s = some s') {i : ι} (hi : l.task ≠ i) : s'.tasks i = s.tasks i := by
  obtain ⟨j, t, w, p, rfl, -, -, rfl⟩ | ⟨j, ch, t, c, k, r, w, rfl, -, -, rfl⟩ := step_cases h
  · exact Function.update_of_ne (Ne.symm hi) _ _
  · exact Function.update_of_ne (Ne.symm hi) _ _

theorem run_tasks_of_ne {ls : List (Label ι Trigger Choice)} {s s' : State I ι World Trigger α}
    (h : L.run ls s = some s') {i : ι} (hi : ∀ l ∈ ls, l.task ≠ i) : s'.tasks i = s.tasks i := by
  induction ls generalizing s with
  | nil =>
    cases h
    rfl
  | cons l ls ih =>
    obtain ⟨s₁, hs, hr⟩ := Runs.run_cons.mp h
    rw [ih hr fun l hl => hi l (List.mem_cons_of_mem _ hl),
      step_tasks_of_ne hs (hi l List.mem_cons_self)]

end EventLoop

end Async
