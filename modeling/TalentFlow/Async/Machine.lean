import TalentFlow.Async.Prog
import TalentFlow.Async.Runs
import Mathlib.Logic.Function.Basic

/-!
# Async.Machine

Programs running concurrently against a shared world. A `Machine` says how the world answers a
call: `exec i c ch w` is the answer and the new world when thread `i` makes call `c` in world `w`
and the environment chooses `ch` (a failure, a random value, an order of rows); `none` means the
choice is not possible there. `move` is a change of the world that no thread makes.

A configuration is the world, the rest of every thread's program, and the log of answered calls.
A schedule is a list of labels; `run` executes it, so a statement about every interleaving is a
statement about every schedule.

* `step_cases`: everything one step can do.
* `run_append`, `run_induction`: runs split at any point, and an invariant of steps is one of runs.
* `trace`: the calls of one thread, in order, with their answers.
* `facts_run`, `exec_of_mem_log`: what the answered calls of a run tell, and where they come from.
* `Along`: a condition met at every step of a run.
-/

namespace Async

structure Machine (I : Interface) (ι World Choice Move : Type) where
  exec : ι → (c : I.Call) → Choice → World → Option (I.Answer c × World)
  move : Move → World → Option World

structure Event (I : Interface) where
  call : I.Call
  answer : I.Answer call

/-- One scheduled step: a thread makes its next call, or the world moves by itself. -/
inductive Label (ι Choice Move : Type) where
  | run (i : ι) (ch : Choice)
  | move (m : Move)

structure Config (I : Interface) (ι World α : Type) where
  world : World
  pool : ι → Prog I α
  log : List (ι × Event I)

namespace Config

variable {I : Interface} {ι World α : Type}

def start (w : World) (pool : ι → Prog I α) : Config I ι World α := ⟨w, pool, []⟩

@[simp] theorem start_world (w : World) (pool : ι → Prog I α) : (start w pool).world = w := rfl
@[simp] theorem start_pool (w : World) (pool : ι → Prog I α) : (start w pool).pool = pool := rfl
@[simp] theorem start_log (w : World) (pool : ι → Prog I α) : (start w pool).log = [] := rfl

def outcome? (cfg : Config I ι World α) (i : ι) : Option (Except I.Error α) :=
  (cfg.pool i).outcome?

variable [DecidableEq ι]

/-- The answered calls of thread `i`, oldest first. -/
def trace (cfg : Config I ι World α) (i : ι) : List (Event I) :=
  (cfg.log.filter fun e => decide (e.1 = i)).map Prod.snd

/-- Thread `i` has made call `c`, was answered `r`, and the world is now `w`. -/
def answered (cfg : Config I ι World α) (i : ι) {c : I.Call} (r : I.Answer c)
    (k : I.Answer c → Prog I α) (w : World) : Config I ι World α where
  world := w
  pool := Function.update cfg.pool i (k r)
  log := cfg.log ++ [(i, ⟨c, r⟩)]

@[simp] theorem start_trace (w : World) (pool : ι → Prog I α) (i : ι) :
    (start w pool).trace i = [] := rfl

section Answered

variable (cfg : Config I ι World α) (i : ι) {c : I.Call} (r : I.Answer c)
  (k : I.Answer c → Prog I α) (w : World)

@[simp] theorem answered_world : (cfg.answered i r k w).world = w := rfl
@[simp] theorem answered_log : (cfg.answered i r k w).log = cfg.log ++ [(i, ⟨c, r⟩)] := rfl
@[simp] theorem answered_pool_self : (cfg.answered i r k w).pool i = k r := by
  simp [answered]
@[simp] theorem answered_pool_ne {j : ι} (h : j ≠ i) :
    (cfg.answered i r k w).pool j = cfg.pool j := by
  simp [answered, h]
@[simp] theorem answered_trace_self :
    (cfg.answered i r k w).trace i = cfg.trace i ++ [⟨c, r⟩] := by
  simp [trace, List.filter_append]
@[simp] theorem answered_trace_ne {j : ι} (h : j ≠ i) :
    (cfg.answered i r k w).trace j = cfg.trace j := by
  simp [trace, List.filter_append, Ne.symm h]

end Answered

theorem mem_trace {cfg : Config I ι World α} {i : ι} {e : Event I} :
    e ∈ cfg.trace i ↔ (i, e) ∈ cfg.log := by
  constructor
  · intro h
    obtain ⟨⟨j, e'⟩, hmem, rfl⟩ := List.mem_map.mp h
    obtain ⟨hlog, hj⟩ := List.mem_filter.mp hmem
    have : j = i := by simpa using hj
    subst this
    exact hlog
  · intro h
    exact List.mem_map.mpr ⟨(i, e), List.mem_filter.mpr ⟨h, by simp⟩, rfl⟩

theorem trace_eq_nil_or (cfg : Config I ι World α) (i : ι) :
    cfg.trace i = [] ∨ i ∈ cfg.log.map Prod.fst := by
  cases htrace : cfg.trace i with
  | nil => exact .inl rfl
  | cons e es =>
    have hlog : (i, e) ∈ cfg.log := mem_trace.mp (htrace ▸ List.mem_cons_self)
    exact .inr (List.mem_map_of_mem hlog)

end Config

namespace Machine

variable {I : Interface} {ι World Choice Move α : Type} [DecidableEq ι]
  (M : Machine I ι World Choice Move)

def step : Label ι Choice Move → Config I ι World α → Option (Config I ι World α)
  | .run i ch, cfg =>
    match cfg.pool i with
    | .call c k => (M.exec i c ch cfg.world).map fun rw => cfg.answered i rw.1 k rw.2
    | .ret _ => none
    | .throw _ => none
  | .move m, cfg => (M.move m cfg.world).map fun w => { cfg with world := w }

/-- Executes a schedule; `none` when some step of it is not possible. -/
def run : List (Label ι Choice Move) → Config I ι World α → Option (Config I ι World α)
  | [], cfg => some cfg
  | l :: ls, cfg => (M.step l cfg).bind (run ls)

variable {M}

theorem step_cases {l : Label ι Choice Move} {cfg cfg' : Config I ι World α}
    (h : M.step l cfg = some cfg') :
    (∃ i ch c k r w, l = .run i ch ∧ cfg.pool i = .call c k ∧
      M.exec i c ch cfg.world = some (r, w) ∧ cfg' = cfg.answered i r k w) ∨
    (∃ m w, l = .move m ∧ M.move m cfg.world = some w ∧ cfg' = { cfg with world := w }) := by
  cases l with
  | run i ch =>
    left
    simp only [step] at h
    cases hp : cfg.pool i with
    | ret a => rw [hp] at h; cases h
    | throw e => rw [hp] at h; cases h
    | call c k =>
      rw [hp] at h
      obtain ⟨⟨r, w⟩, hx, rfl⟩ := Option.map_eq_some_iff.mp h
      exact ⟨i, ch, c, k, r, w, rfl, hp, hx, rfl⟩
  | move m =>
    right
    obtain ⟨w, hm, rfl⟩ := Option.map_eq_some_iff.mp h
    exact ⟨m, w, rfl, hm, rfl⟩

theorem step_run {i : ι} {ch : Choice} {cfg : Config I ι World α} {c : I.Call}
    {k : I.Answer c → Prog I α} {r : I.Answer c} {w : World} (hp : cfg.pool i = .call c k)
    (hx : M.exec i c ch cfg.world = some (r, w)) :
    M.step (.run i ch) cfg = some (cfg.answered i r k w) := by
  simp [step, hp, hx]

@[simp] theorem run_nil (cfg : Config I ι World α) : M.run [] cfg = some cfg := rfl

theorem run_cons {l : Label ι Choice Move} {ls : List (Label ι Choice Move)}
    {cfg cfg' : Config I ι World α} :
    M.run (l :: ls) cfg = some cfg' ↔
      ∃ cfg₁, M.step l cfg = some cfg₁ ∧ M.run ls cfg₁ = some cfg' :=
  Option.bind_eq_some_iff

theorem run_eq (ls : List (Label ι Choice Move)) (cfg : Config I ι World α) :
    M.run ls cfg = Runs.run M.step ls cfg := by
  induction ls generalizing cfg with
  | nil => rfl
  | cons l ls ih => rw [run, Runs.run, funext ih]

theorem run_append {ls ls' : List (Label ι Choice Move)} {cfg cfg' : Config I ι World α} :
    M.run (ls ++ ls') cfg = some cfg' ↔
      ∃ cfg₁, M.run ls cfg = some cfg₁ ∧ M.run ls' cfg₁ = some cfg' := by
  simp only [run_eq]
  exact Runs.run_append

variable (M) in
def Along (P : Config I ι World α → Label ι Choice Move → Prop) :
    List (Label ι Choice Move) → Config I ι World α → Prop
  | [], _ => True
  | l :: ls, cfg => P cfg l ∧ ∀ cfg', M.step l cfg = some cfg' → Along P ls cfg'

instance decidableAlong {P : Config I ι World α → Label ι Choice Move → Prop}
    [∀ cfg l, Decidable (P cfg l)] :
    ∀ (ls : List (Label ι Choice Move)) (cfg : Config I ι World α), Decidable (M.Along P ls cfg)
  | [], _ => .isTrue trivial
  | l :: ls, cfg =>
    match hs : M.step l cfg with
    | none => decidable_of_iff (P cfg l) ⟨fun h => ⟨h, fun cfg' h' => by rw [hs] at h'; cases h'⟩,
        fun h => h.1⟩
    | some cfg₁ =>
      haveI := decidableAlong (P := P) ls cfg₁
      decidable_of_iff (P cfg l ∧ M.Along P ls cfg₁)
        ⟨fun h => ⟨h.1, fun cfg' h' => by rw [hs] at h'; cases h'; exact h.2⟩,
          fun h => ⟨h.1, h.2 cfg₁ hs⟩⟩

section Along

variable {P Q : Config I ι World α → Label ι Choice Move → Prop}
  {ls ls' : List (Label ι Choice Move)} {cfg cfg' cfg₁ : Config I ι World α}

theorem along_iff : M.Along P ls cfg ↔ Runs.Along M.step P ls cfg := by
  induction ls generalizing cfg with
  | nil => exact Iff.rfl
  | cons l ls ih => exact and_congr Iff.rfl (forall_congr' fun _ => imp_congr Iff.rfl ih)

theorem along_and (hP : M.Along P ls cfg) (hQ : M.Along Q ls cfg) :
    M.Along (fun cfg l => P cfg l ∧ Q cfg l) ls cfg :=
  along_iff.mpr (Runs.along_and (along_iff.mp hP) (along_iff.mp hQ))

theorem along_append (h : M.Along P (ls ++ ls') cfg) (hrun : M.run ls cfg = some cfg₁) :
    M.Along P ls cfg ∧ M.Along P ls' cfg₁ := by
  rw [run_eq] at hrun
  simp only [along_iff] at h ⊢
  exact Runs.along_append h hrun

theorem along_of_forall (h : ∀ cfg, ∀ l ∈ ls, P cfg l) (cfg : Config I ι World α) :
    M.Along P ls cfg := along_iff.mpr (Runs.along_of_forall h cfg)

theorem along_mono (h : M.Along P ls cfg) (hPQ : ∀ cfg l, P cfg l → Q cfg l) : M.Along Q ls cfg :=
  along_iff.mpr (Runs.along_mono (along_iff.mp h) hPQ)

theorem along_of_invariant (Inv : Config I ι World α → Prop)
    (hstep : ∀ {cfg l cfg'}, Inv cfg → P cfg l → M.step l cfg = some cfg' → Inv cfg')
    (hPQ : ∀ {cfg l}, Inv cfg → P cfg l → Q cfg l) (h0 : Inv cfg) (hP : M.Along P ls cfg) :
    M.Along Q ls cfg :=
  along_iff.mpr (Runs.along_of_invariant Inv hstep hPQ h0 (along_iff.mp hP))

theorem along_true (ls : List (Label ι Choice Move)) (cfg : Config I ι World α) :
    M.Along (fun _ _ => True) ls cfg := along_of_forall (fun _ _ _ => trivial) cfg

theorem run_induction_along (Inv : Config I ι World α → Prop)
    (hstep : ∀ {cfg l cfg'}, Inv cfg → P cfg l → M.step l cfg = some cfg' → Inv cfg')
    (h0 : Inv cfg) (hP : M.Along P ls cfg) (hrun : M.run ls cfg = some cfg') : Inv cfg' := by
  rw [run_eq] at hrun
  exact Runs.run_induction_along Inv hstep h0 (along_iff.mp hP) hrun

theorem run_induction (Inv : Config I ι World α → Prop)
    (hstep : ∀ {cfg l cfg'}, Inv cfg → M.step l cfg = some cfg' → Inv cfg') (h0 : Inv cfg)
    (hrun : M.run ls cfg = some cfg') : Inv cfg' :=
  run_induction_along Inv (fun h _ hs => hstep h hs) h0 (along_true ls cfg) hrun

end Along

theorem mem_log_step {l : Label ι Choice Move} {cfg cfg' : Config I ι World α}
    (h : M.step l cfg = some cfg') {e : ι × Event I} (he : e ∈ cfg.log) : e ∈ cfg'.log := by
  obtain ⟨i, ch, c, k, r, w, rfl, hp, hx, rfl⟩ | ⟨m, w, rfl, hm, rfl⟩ := step_cases h
  · exact List.mem_append_left _ he
  · exact he

theorem mem_log_run {ls : List (Label ι Choice Move)} {cfg cfg' : Config I ι World α}
    {e : ι × Event I} (he : e ∈ cfg.log) (hrun : M.run ls cfg = some cfg') : e ∈ cfg'.log :=
  run_induction (fun cfg => e ∈ cfg.log) (fun h hs => mem_log_step hs h) he hrun

/-- What an answered call tells, and every later step keeps, is so of the whole log. -/
theorem facts_run {F : World → Event I → Prop} (Inv : Config I ι World α → Prop)
    (hinv : ∀ {l cfg cfg'}, Inv cfg → M.step l cfg = some cfg' → Inv cfg')
    (hexec : ∀ {cfg i e ch w}, Inv cfg → M.exec i e.call ch cfg.world = some (e.answer, w) → F w e)
    (hkeep : ∀ {l cfg cfg' e}, Inv cfg → M.step l cfg = some cfg' → F cfg.world e → F cfg'.world e)
    {ls : List (Label ι Choice Move)} {cfg cfg' : Config I ι World α} (h0 : Inv cfg)
    (hlog : ∀ e ∈ cfg.log, F cfg.world e.2) (hrun : M.run ls cfg = some cfg') :
    ∀ e ∈ cfg'.log, F cfg'.world e.2 := by
  refine (run_induction (fun cfg => Inv cfg ∧ ∀ e ∈ cfg.log, F cfg.world e.2)
    (fun {cfg l cfg'} h hs => ⟨hinv h.1 hs, fun e he => ?_⟩) ⟨h0, hlog⟩ hrun).2
  obtain ⟨i, ch, c, k, r, w, -, hp, hx, rfl⟩ | ⟨m, w, -, hm, rfl⟩ := step_cases hs
  · obtain he | he := List.mem_append.mp he
    · exact hkeep h.1 hs (h.2 e he)
    · rw [List.mem_singleton.mp he]
      exact @hexec cfg i ⟨c, r⟩ ch w h.1 hx
  · exact hkeep h.1 hs (h.2 e he)

theorem exec_of_mem_log {ls : List (Label ι Choice Move)} {cfg cfg' : Config I ι World α}
    (hrun : M.run ls cfg = some cfg') {i : ι} {e : Event I} (he : (i, e) ∈ cfg'.log) :
    (i, e) ∈ cfg.log ∨ ∃ ls₁ ls₂ cfg₁ ch w, ls = ls₁ ++ ls₂ ∧ M.run ls₁ cfg = some cfg₁ ∧
      M.exec i e.call ch cfg₁.world = some (e.answer, w) := by
  induction ls generalizing cfg with
  | nil =>
    cases hrun
    exact .inl he
  | cons l ls ih =>
    obtain ⟨cfg₁, hs, hrest⟩ := run_cons.mp hrun
    obtain hold | ⟨ls₁, ls₂, cfg₂, ch, w, rfl, hrun₁, hx⟩ := ih hrest
    · obtain ⟨j, ch, c, k, r, w, -, -, hx, rfl⟩ | ⟨m, w, -, -, rfl⟩ := step_cases hs
      · obtain hold | hnew := List.mem_append.mp hold
        · exact .inl hold
        · cases List.mem_singleton.mp hnew
          exact .inr ⟨[], l :: ls, cfg, ch, w, rfl, rfl, hx⟩
      · exact .inl hold
    · exact .inr ⟨l :: ls₁, ls₂, cfg₂, ch, w, rfl, run_cons.mpr ⟨cfg₁, hs, hrun₁⟩, hx⟩

end Machine

end Async
