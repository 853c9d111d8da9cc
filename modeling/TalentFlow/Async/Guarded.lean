import Mathlib.Data.List.Induction
import TalentFlow.Async.Monitor

/-!
# Async.Guarded

Threads that begin with a guard: a part whose calls leave the world as it is, and whose result picks
what the thread runs. Leaving the guards out of a run of such threads gives a run of what they have
picked.

* `Prog.Plays`: a list of answered calls takes one program to another.
* `pool_plays`: the history of a thread takes its program to what is left of it.
* `obeys_plays`: what a monitor says of a program, said of what is left of it.
* `run_swap`: a thread that does not run can be replaced by any other.
* `guarded_run`, `guarded_step`: a run with guards against one without.
-/

namespace Async

variable {I : Interface} {α β γ ρ : Type}

/-! ## Histories -/

/-- Answered so, the first program comes to the last. -/
inductive Prog.Plays : Prog I α → List (Event I) → Prog I α → Prop where
  | nil (p : Prog I α) : Plays p [] p
  | cons {c : I.Call} {k : I.Answer c → Prog I α} {r : I.Answer c} {es : List (Event I)}
      {q : Prog I α} (h : Plays (k r) es q) : Plays (.call c k) (⟨c, r⟩ :: es) q

namespace Prog.Plays

theorem snoc {p : Prog I α} {es : List (Event I)} {c : I.Call} {k : I.Answer c → Prog I α}
    (h : Plays p es (.call c k)) (r : I.Answer c) : Plays p (es ++ [⟨c, r⟩]) (k r) := by
  generalize hq : Prog.call c k = q at h
  induction h with
  | nil p =>
    subst hq
    exact .cons (.nil _)
  | cons h ih => exact .cons (ih hq)

theorem nil_eq {p q : Prog I α} (h : Plays p [] q) : p = q := by
  cases h
  rfl

theorem bind_cases {p : Prog I α} {f : α → Prog I β} {es : List (Event I)} {q : Prog I β}
    (h : Plays (p >>= f) es q) :
    (∃ p', Plays p es p' ∧ q = p' >>= f) ∨
      ∃ es₁ es₂ a, es = es₁ ++ es₂ ∧ Plays p es₁ (.ret a) ∧ Plays (f a) es₂ q := by
  induction p generalizing es with
  | ret a => exact .inr ⟨[], es, a, rfl, .nil _, h⟩
  | throw e =>
    cases h with
    | nil p => exact .inl ⟨.throw e, .nil _, rfl⟩
  | call c k ih =>
    cases h with
    | nil p => exact .inl ⟨.call c k, .nil _, rfl⟩
    | cons h =>
      obtain ⟨p', hp', rfl⟩ | ⟨es₁, es₂, a, rfl, hp', hq⟩ := ih _ h
      · exact .inl ⟨p', .cons hp', rfl⟩
      · exact .inr ⟨_, es₂, a, rfl, .cons hp', hq⟩

theorem calls {P : I.Call → Prop} {p q : Prog I α} {es : List (Event I)} (h : Plays p es q)
    (hp : p.Calls P) : ∀ e ∈ es, P e.call := by
  induction h with
  | nil p => exact fun e he => absurd he List.not_mem_nil
  | cons h ih => exact List.forall_mem_cons.mpr ⟨hp.1, ih (hp.2 _)⟩

theorem calls_rest {P : I.Call → Prop} {p q : Prog I α} {es : List (Event I)} (h : Plays p es q)
    (hp : p.Calls P) : q.Calls P := by
  induction h with
  | nil p => exact hp
  | cons h ih => exact ih (hp.2 _)

end Prog.Plays

theorem obeys_plays {σ : Type} {m : Monitor I σ} (hanswer : ∀ s c r, m.answer s c r)
    {post : Except I.Error α → σ → Prop} {p q : Prog I α} {es : List (Event I)} {s : σ}
    (hp : Obeys m post p s) (h : p.Plays es q) : Obeys m post q (es.foldl m.next s) := by
  induction h generalizing s with
  | nil p => exact hp
  | cons h ih => exact ih (hp.2 _ (hanswer _ _ _))

/-- What a recorded program says of its end is said of the history that has led there. -/
theorem plays_recorded {call : List (Event I) → I.Call → Prop}
    {post : Except I.Error α → List (Event I) → Prop} {p q : Prog I α} {h es : List (Event I)}
    (hp : Obeys (recorder call) post p h) (hplays : p.Plays es q) :
    Obeys (recorder call) post q (h ++ es) := by
  have hfold : ∀ (es : List (Event I)) (s : List (Event I)),
      es.foldl (recorder call).next s = s ++ es := by
    intro es
    induction es with
    | nil => simp
    | cons e es ih =>
      intro s
      rw [List.foldl_cons, ih]
      simp [recorder]
  rw [← hfold]
  exact obeys_plays (fun _ _ _ => trivial) hp hplays

theorem obeys_grows {call : List (Event I) → I.Call → Prop}
    {post : Except I.Error α → List (Event I) → Prop} {p : Prog I α} {h : List (Event I)}
    (hp : Obeys (recorder call) post p h) :
    Obeys (recorder call) (fun o h' => post o h' ∧ ∀ e ∈ h, e ∈ h') p h := by
  induction p generalizing h with
  | ret a => exact ⟨hp, fun _ => id⟩
  | throw e => exact ⟨hp, fun _ => id⟩
  | call c k ih =>
    refine ⟨hp.1, fun r hr => obeys_mono (ih r (hp.2 r hr)) fun o h' ho => ⟨ho.1, fun e he => ?_⟩⟩
    exact ho.2 e (List.mem_append_left _ he)

theorem obeys_returns {σ : Type} {m : Monitor I σ} (hm : ∀ s c, m.call s c) {Q : α → Prop}
    {p : Prog I α} (hp : p.Returns Q) {s : σ} :
    Obeys m (fun o _ => ∀ a, o = .ok a → Q a) p s := by
  induction p generalizing s with
  | ret a =>
    intro a' heq
    cases heq
    exact hp
  | throw e =>
    intro a heq
    cases heq
  | call c k ih => exact ⟨hm s c, fun r _ => ih r (hp r)⟩

section Machine

variable {ι World Choice Move : Type} [DecidableEq ι] {M : Machine I ι World Choice Move}
  {ls : List (Label ι Choice Move)} {l : Label ι Choice Move}
  {w : World}

theorem plays_step {pool : ι → Prog I α} {cfg cfg' : Config I ι World α}
    (h : ∀ i, (pool i).Plays (cfg.trace i) (cfg.pool i)) (hs : M.step l cfg = some cfg') :
    ∀ i, (pool i).Plays (cfg'.trace i) (cfg'.pool i) := by
  obtain ⟨i, ch, c, k, r, w, rfl, hp, hx, rfl⟩ | ⟨mv, w, rfl, hm, rfl⟩ := Machine.step_cases hs
  · intro j
    by_cases hj : j = i
    · subst hj
      have hold := h j
      rw [hp] at hold
      simpa using hold.snoc r
    · simpa [hj] using h j
  · exact h

/-- The history of a thread takes its program to what is left of it. -/
theorem pool_plays {pool : ι → Prog I α} {cfg : Config I ι World α}
    (hrun : M.run ls (.start w pool) = some cfg) (i : ι) :
    (pool i).Plays (cfg.trace i) (cfg.pool i) := by
  refine Machine.run_induction (fun cfg => ∀ i, (pool i).Plays (cfg.trace i) (cfg.pool i))
    (fun h hs => plays_step h hs) (fun i => ?_) hrun i
  exact .nil (pool i)

theorem outcome_step {cfg cfg' : Config I ι World α} {i : ι} {o : Except I.Error α}
    (ho : cfg.outcome? i = some o) (hs : M.step l cfg = some cfg') : cfg'.outcome? i = some o := by
  obtain ⟨j, ch, c, k, r, w, rfl, hp, hx, rfl⟩ | ⟨mv, w, rfl, hm, rfl⟩ := Machine.step_cases hs
  · by_cases hj : i = j
    · subst hj
      simp [Config.outcome?, hp] at ho
    · rw [Config.outcome?, Config.answered_pool_ne _ _ _ _ _ hj]
      exact ho
  · exact ho

/-! ## Threads that do not run -/

def Config.swap (cfg : Config I ι World α) (i : ι) (p : Prog I α) : Config I ι World α :=
  { cfg with pool := Function.update cfg.pool i p }

theorem step_swap {cfg cfg' : Config I ι World α} {i : ι} (p : Prog I α)
    (hi : ∀ ch, l ≠ .run i ch) (hs : M.step l cfg = some cfg') :
    M.step l (cfg.swap i p) = some (cfg'.swap i p) := by
  obtain ⟨j, ch, c, k, r, w, rfl, hp, hx, rfl⟩ | ⟨mv, w, rfl, hm, rfl⟩ := Machine.step_cases hs
  · have hj : j ≠ i := by
      rintro rfl
      exact hi ch rfl
    have hp' : (cfg.swap i p).pool j = .call c k := by
      rw [Config.swap]
      exact (Function.update_of_ne hj _ _).trans hp
    rw [Machine.step_run hp' hx]
    simp only [Config.swap, Config.answered, Function.update_comm hj]
  · simp only [Machine.step, Config.swap, hm, Option.map_some]

theorem run_swap {cfg cfg' : Config I ι World α} {i : ι} (p : Prog I α)
    (hi : ∀ ch, Label.run i ch ∉ ls) (hrun : M.run ls cfg = some cfg') :
    M.run ls (cfg.swap i p) = some (cfg'.swap i p) := by
  induction ls generalizing cfg with
  | nil =>
    cases hrun
    rfl
  | cons l ls ih =>
    obtain ⟨cfg₁, hs, hr⟩ := Machine.run_cons.mp hrun
    refine Machine.run_cons.mpr ⟨cfg₁.swap i p, step_swap p (fun ch hl => ?_) hs, ih ?_ hr⟩
    · exact hi ch (hl ▸ List.mem_cons_self)
    · exact fun ch hmem => hi ch (List.mem_cons_of_mem _ hmem)

/-! ## Guards -/

/-- However the call is answered, the world stays as it is. -/
def Machine.Passive (M : Machine I ι World Choice Move) (c : I.Call) : Prop :=
  ∀ i ch w r w', M.exec i c ch w = some (r, w') → w' = w

/-- Thread `i` picks what it runs by what its guard resolves to. -/
def guarded (guard : ι → Prog I ρ) (prog : ρ → Prog I α) (i : ι) : Prog I α := guard i >>= prog

/-- How far a thread with a guard has come, in `cfg`, and the thread without, in `cfg'`: it is
before its guard has let it through, and has not run; or it runs what its guard has picked. -/
inductive GuardPhase (M : Machine I ι World Choice Move) (guard : ι → Prog I ρ)
    (prog : ρ → Prog I α) (picked : ι → ρ) (ls' : List (Label ι Choice Move))
    (cfg cfg' : Config I ι World α) (i : ι) : Prop where
  | before (g : Prog I ρ) (hplays : (guard i).Plays (cfg.trace i) g)
      (hcalls : g.Calls M.Passive) (hpool : cfg.pool i = g >>= prog)
      (hidle : ∀ ch, Label.run i ch ∉ ls') (htrace : cfg'.trace i = [])
  | after (es : List (Event I)) (hplays : (guard i).Plays es (.ret (picked i)))
      (htrace : cfg.trace i = es ++ cfg'.trace i) (hpool : cfg.pool i = cfg'.pool i)

/-- `cfg'` is `cfg` without the guards: a run from `w` of what the guards have picked. -/
structure Erased (M : Machine I ι World Choice Move) (guard : ι → Prog I ρ) (prog : ρ → Prog I α)
    (w : World) (picked : ι → ρ) (ls' : List (Label ι Choice Move))
    (cfg cfg' : Config I ι World α) : Prop where
  run : M.run ls' (.start w fun i => prog (picked i)) = some cfg'
  world : cfg'.world = cfg.world
  phases : ∀ i, GuardPhase M guard prog picked ls' cfg cfg' i

section Guarded

variable {guard : ι → Prog I ρ} {prog : ρ → Prog I α} {picked : ι → ρ}
  {ls' : List (Label ι Choice Move)} {cfg cfg' cfg₁ : Config I ι World α}

theorem GuardPhase.congr {ls₁ : List (Label ι Choice Move)} {cfg₁' : Config I ι World α}
    {picked' : ι → ρ} {i : ι} (h : GuardPhase M guard prog picked ls' cfg cfg' i)
    (hpicked : picked' i = picked i) (htrace : cfg₁.trace i = cfg.trace i)
    (hpool : cfg₁.pool i = cfg.pool i) (htrace' : cfg₁'.trace i = cfg'.trace i)
    (hpool' : cfg₁'.pool i = cfg'.pool i) (hls : ∀ ch, Label.run i ch ∈ ls₁ → .run i ch ∈ ls') :
    GuardPhase M guard prog picked' ls₁ cfg₁ cfg₁' i := by
  cases h with
  | before g hplays hcalls hp hidle ht =>
    exact .before g (htrace ▸ hplays) hcalls (hpool.trans hp)
      (fun ch hmem => hidle ch (hls ch hmem)) (htrace'.trans ht)
  | after es hplays ht hp =>
    refine .after es (hpicked ▸ hplays) ?_ (hpool.trans (hp.trans hpool'.symm))
    rw [htrace, htrace', ht]

/-- When the guard has let a thread through that has not run, what the run without guards has in its
place is replaced by what the guard has picked. -/
theorem erased_pick (h : Erased M guard prog w picked ls' cfg cfg') {i : ι} {a : ρ}
    (hplays : (guard i).Plays (cfg.trace i) (.ret a)) (hpool : cfg.pool i = prog a)
    (hidle : ∀ ch, Label.run i ch ∉ ls') (htrace : cfg'.trace i = []) :
    Erased M guard prog w (Function.update picked i a) ls' cfg (cfg'.swap i (prog a)) := by
  have hpick : (fun j => prog (Function.update picked i a j)) =
      Function.update (fun j => prog (picked j)) i (prog a) := by
    funext j
    by_cases hj : j = i
    · subst hj
      simp
    · simp [hj]
  refine ⟨?_, h.world, fun j => ?_⟩
  · rw [hpick]
    exact run_swap (prog a) hidle h.run
  · by_cases hj : j = i
    · subst hj
      refine .after (cfg.trace j) (by simpa using hplays) ?_ (by simpa [Config.swap] using hpool)
      show cfg.trace j = cfg.trace j ++ cfg'.trace j
      rw [htrace, List.append_nil]
    · exact (h.phases j).congr (Function.update_of_ne hj _ _) rfl rfl rfl
        (Function.update_of_ne hj _ _) fun _ => id

theorem erased_call (h : Erased M guard prog w picked ls' cfg cfg') {i : ι} {ch : Choice}
    {c : I.Call} {k : I.Answer c → Prog I α} {r : I.Answer c} {w₁ : World} {es : List (Event I)}
    (hp : cfg.pool i = .call c k) (hx : M.exec i c ch cfg.world = some (r, w₁))
    (hplays : (guard i).Plays es (.ret (picked i))) (htrace : cfg.trace i = es ++ cfg'.trace i)
    (hpool : cfg.pool i = cfg'.pool i) :
    M.step (.run i ch) cfg' = some (cfg'.answered i r k w₁) ∧
      Erased M guard prog w picked (ls' ++ [.run i ch]) (cfg.answered i r k w₁)
        (cfg'.answered i r k w₁) := by
  have hstep : M.step (.run i ch) cfg' = some (cfg'.answered i r k w₁) :=
    Machine.step_run (hpool.symm.trans hp) (h.world ▸ hx)
  refine ⟨hstep, ⟨?_, rfl, fun j => ?_⟩⟩
  · exact Machine.run_append.mpr ⟨cfg', h.run, Machine.run_cons.mpr ⟨_, hstep, rfl⟩⟩
  · by_cases hj : j = i
    · subst hj
      exact .after es hplays (by simp [htrace]) (by simp)
    · refine (h.phases j).congr rfl (by simp [hj]) (by simp [hj]) (by simp [hj]) (by simp [hj]) ?_
      intro ch' hmem
      obtain hmem | heq := List.mem_append.mp hmem
      · exact hmem
      · cases List.mem_singleton.mp heq
        exact absurd rfl hj

/-- A step with guards is a step of a guard, which leaves the world as it is and is left out, or
the same step without guards. -/
theorem guarded_step (h : Erased M guard prog w picked ls' cfg cfg')
    (hs : M.step l cfg = some cfg₁) :
    (cfg₁.world = cfg.world ∧ Erased M guard prog w picked ls' cfg₁ cfg') ∨
      ∃ picked' cfg'' cfg₁', Erased M guard prog w picked' ls' cfg cfg'' ∧
        M.step l cfg'' = some cfg₁' ∧ Erased M guard prog w picked' (ls' ++ [l]) cfg₁ cfg₁' ∧
        ∀ i ch, l = .run i ch → ∃ es, (guard i).Plays es (.ret (picked' i)) ∧
          cfg.trace i = es ++ cfg''.trace i := by
  obtain ⟨i, ch, c, k, r, w₁, rfl, hp, hx, rfl⟩ | ⟨mv, w₁, rfl, hm, rfl⟩ := Machine.step_cases hs
  · cases h.phases i with
    | after es hplays htrace hpool =>
      obtain ⟨hstep, herased⟩ := erased_call h hp hx hplays htrace hpool
      refine .inr ⟨picked, cfg', _, h, hstep, herased, fun j ch' hl => ?_⟩
      cases hl
      exact ⟨es, hplays, htrace⟩
    | before g hplays hcalls hpool hidle htrace =>
      cases g with
      | throw e =>
        rw [hp] at hpool
        cases hpool
      | call c' k' =>
        rw [hp] at hpool
        cases hpool
        have hworld : w₁ = cfg.world := hcalls.1 _ _ _ _ _ hx
        refine .inl ⟨hworld, h.run, h.world.trans hworld.symm, fun j => ?_⟩
        by_cases hj : j = i
        · subst hj
          refine .before (k' r) ?_ (hcalls.2 r) (Config.answered_pool_self ..) hidle htrace
          simpa using hplays.snoc r
        · exact (h.phases j).congr rfl (by simp [hj]) (by simp [hj]) rfl rfl fun _ => id
      | ret a =>
        have hpick := erased_pick h hplays hpool hidle htrace
        have hself : (Function.update picked i a) i = a := Function.update_self ..
        have htr : cfg.trace i = cfg.trace i ++ (cfg'.swap i (prog a)).trace i := by
          show cfg.trace i = cfg.trace i ++ cfg'.trace i
          rw [htrace, List.append_nil]
        have hsame : cfg.pool i = (cfg'.swap i (prog a)).pool i := by
          simpa [Config.swap] using hpool
        obtain ⟨hstep, herased⟩ := erased_call hpick hp hx (hself.symm ▸ hplays) htr hsame
        refine .inr ⟨_, _, _, hpick, hstep, herased, fun j ch' hl => ?_⟩
        cases hl
        exact ⟨cfg.trace i, hself.symm ▸ hplays, htr⟩
  · have hstep : M.step (.move mv) cfg' = some { cfg' with world := w₁ } := by
      simp only [Machine.step, h.world, hm, Option.map_some]
    refine .inr ⟨picked, cfg', _, h, hstep, ⟨?_, rfl, fun i => ?_⟩, fun i ch hl => by cases hl⟩
    · exact Machine.run_append.mpr ⟨cfg', h.run, Machine.run_cons.mpr ⟨_, hstep, rfl⟩⟩
    · refine (h.phases i).congr rfl rfl rfl rfl rfl fun ch hmem => ?_
      obtain hmem | heq := List.mem_append.mp hmem
      · exact hmem
      · cases List.mem_singleton.mp heq

/-- With the guards left out, a run of guarded threads is a run of what the guards have picked, with
the same steps in the same order. -/
theorem guarded_run (hguard : ∀ i, (guard i).Calls M.Passive) (idle : ι → ρ)
    (hrun : M.run ls (.start w (guarded guard prog)) = some cfg) :
    ∃ picked ls' cfg', ls'.Sublist ls ∧ Erased M guard prog w picked ls' cfg cfg' := by
  induction ls using List.reverseRecOn generalizing cfg with
  | nil =>
    cases hrun
    refine ⟨idle, [], _, .refl _, rfl, rfl, fun i => ?_⟩
    exact .before (guard i) (.nil _) (hguard i) rfl (fun _ => List.not_mem_nil) rfl
  | append_singleton ls l ih =>
    obtain ⟨cfg₀, hrun₀, hlast⟩ := Machine.run_append.mp hrun
    obtain ⟨cfg₁, hs, hnil⟩ := Machine.run_cons.mp hlast
    cases hnil
    obtain ⟨picked, ls', cfg', hsub, h⟩ := ih hrun₀
    obtain ⟨-, h⟩ | ⟨picked', cfg'', cfg₁', -, -, h, -⟩ := guarded_step h hs
    · exact ⟨_, _, _, hsub.trans (List.sublist_append_left _ _), h⟩
    · exact ⟨_, _, _, hsub.append (.refl _), h⟩

end Guarded

end Machine

end Async
