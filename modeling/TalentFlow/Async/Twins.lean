import TalentFlow.Async.Monitor

/-!
# Async.Twins

Two runs side by side, from worlds that the programs cannot tell apart. What passes for the same call
and for the same value of a call is a parameter; programs are alike if they make such calls, and stay
alike after such values. Then a machine that gives them such values runs both by the same schedules,
and every thread ends the same way on both sides.

* `alike_bind`, `alike_attempt`, `alike_await`: the rules for programs.
* `alike_refl`: a program none of whose values can differ is like itself.
* `twins_run`: a run on one side is a run on the other.
-/

namespace Async

variable {I : Interface} {α β γ δ : Type}

/-- What passes for the same call, and for the same value of it. -/
structure Likeness (I : Interface) where
  call : I.Call → I.Call → Prop
  value : (c c' : I.Call) → I.Value c → I.Value c' → Prop

namespace Likeness

/-- Like answers: like values, or the same error. -/
inductive Answers (L : Likeness I) (c c' : I.Call) : I.Answer c → I.Answer c' → Prop where
  | ok {v : I.Value c} {v' : I.Value c'} (h : L.value c c' v v') : Answers L c c' (.ok v) (.ok v')
  | error (e : I.Error) : Answers L c c' (.error e) (.error e)

/-- The call can be made on both sides, and then has only one value. -/
structure Determines (L : Likeness I) (c : I.Call) : Prop where
  call : L.call c c
  value : ∀ v v', L.value c c v v' → v = v'

end Likeness

/-- The programs make like calls, and after like answers end in the same error or in values that `V`
relates. -/
inductive Alike (L : Likeness I) (V : α → β → Prop) : Prog I α → Prog I β → Prop where
  | ret {a : α} {b : β} (h : V a b) : Alike L V (.ret a) (.ret b)
  | throw (e : I.Error) : Alike L V (.throw e) (.throw e)
  | call {c c' : I.Call} {k : I.Answer c → Prog I α} {k' : I.Answer c' → Prog I β}
      (hc : L.call c c') (hk : ∀ r r', L.Answers c c' r r' → Alike L V (k r) (k' r')) :
      Alike L V (.call c k) (.call c' k')

/-! ## Programs -/

section Rules

variable {L : Likeness I} {V : α → β → Prop} {W : γ → δ → Prop} {p : Prog I α} {q : Prog I β}

theorem alike_bind {f : α → Prog I γ} {g : β → Prog I δ} (h : Alike L V p q)
    (hf : ∀ a b, V a b → Alike L W (f a) (g b)) : Alike L W (p >>= f) (q >>= g) := by
  induction h with
  | ret h => exact hf _ _ h
  | throw e => exact .throw e
  | call hc hk ih => exact .call hc ih

/-- What follows an attempt gets like values or the same error. -/
theorem alike_attempt {f : Except I.Error α → Prog I γ} {g : Except I.Error β → Prog I δ}
    (h : Alike L V p q) (hok : ∀ a b, V a b → Alike L W (f (.ok a)) (g (.ok b)))
    (herr : ∀ e, Alike L W (f (.error e)) (g (.error e))) :
    Alike L W (p.attempt >>= f) (q.attempt >>= g) := by
  induction h with
  | ret h => exact hok _ _ h
  | throw e => exact herr e
  | call hc hk ih => exact .call hc ih

theorem alike_await {c c' : I.Call} (hc : L.call c c') :
    Alike L (L.value c c') (Prog.await c) (Prog.await c') := by
  refine .call hc fun r r' h => ?_
  cases h with
  | ok h => exact .ret h
  | error e => exact .throw e

theorem alike_refl {p : Prog I α} (hp : p.Calls L.Determines) : Alike L Eq p p := by
  induction p with
  | ret a => exact .ret rfl
  | throw e => exact .throw e
  | call c k ih =>
    refine .call hp.1.call fun r r' h => ?_
    cases h with
    | ok h =>
      cases hp.1.value _ _ h
      exact ih _ (hp.2 _)
    | error e => exact ih _ (hp.2 _)

theorem alike_outcome {p q : Prog I α} (h : Alike L Eq p q) : q.outcome? = p.outcome? := by
  cases h with
  | ret h => rw [h]
  | throw e => rfl
  | call hc hk => rfl

end Rules

/-! ## Runs -/

structure Twins {ι World : Type} (L : Likeness I) (R : World → World → Prop)
    (cfg cfg' : Config I ι World α) : Prop where
  world : R cfg.world cfg'.world
  pool : ∀ i, Alike L Eq (cfg.pool i) (cfg'.pool i)

theorem Twins.outcome {ι World : Type} {L : Likeness I} {R : World → World → Prop}
    {cfg cfg' : Config I ι World α} (h : Twins L R cfg cfg') (i : ι) :
    cfg'.outcome? i = cfg.outcome? i := alike_outcome (h.pool i)

section Machine

variable {ι World Choice Move : Type} [DecidableEq ι] {M : Machine I ι World Choice Move}
  {L : Likeness I} {R : World → World → Prop} {cfg cfg' cfg₁ : Config I ι World α}
  {l : Label ι Choice Move} {ls : List (Label ι Choice Move)}

/-- The machine cannot tell worlds that `R` relates from each other. -/
structure Machine.Blind (M : Machine I ι World Choice Move) (L : Likeness I)
    (R : World → World → Prop) : Prop where
  exec : ∀ {i c c' ch w w' r w₁}, R w w' → L.call c c' → M.exec i c ch w = some (r, w₁) →
    ∃ r' w₁', M.exec i c' ch w' = some (r', w₁') ∧ L.Answers c c' r r' ∧ R w₁ w₁'
  move : ∀ {m w w' w₁}, R w w' → M.move m w = some w₁ → ∃ w₁', M.move m w' = some w₁' ∧ R w₁ w₁'

theorem twins_step (hM : M.Blind L R) (h : Twins L R cfg cfg') (hs : M.step l cfg = some cfg₁) :
    ∃ cfg₁', M.step l cfg' = some cfg₁' ∧ Twins L R cfg₁ cfg₁' := by
  obtain ⟨i, ch, c, k, r, w, rfl, hp, hx, rfl⟩ | ⟨m, w, rfl, hm, rfl⟩ := Machine.step_cases hs
  · have hi := h.pool i
    rw [hp] at hi
    generalize hq : cfg'.pool i = q at hi
    cases hi with
    | call hc hk =>
      obtain ⟨r', w', hx', hr, hw⟩ := hM.exec h.world hc hx
      refine ⟨_, Machine.step_run hq hx', hw, fun j => ?_⟩
      by_cases hj : j = i
      · subst hj
        simpa using hk _ _ hr
      · simpa [hj] using h.pool j
  · obtain ⟨w', hm', hw⟩ := hM.move h.world hm
    refine ⟨{ cfg' with world := w' }, ?_, hw, h.pool⟩
    simp only [Machine.step, hm', Option.map_some]

theorem twins_run (hM : M.Blind L R) (h : Twins L R cfg cfg') (hrun : M.run ls cfg = some cfg₁) :
    ∃ cfg₁', M.run ls cfg' = some cfg₁' ∧ Twins L R cfg₁ cfg₁' := by
  induction ls generalizing cfg cfg' with
  | nil =>
    cases hrun
    exact ⟨cfg', rfl, h⟩
  | cons l ls ih =>
    obtain ⟨cfg₂, hs, hrest⟩ := Machine.run_cons.mp hrun
    obtain ⟨cfg₂', hs', h₂⟩ := twins_step hM h hs
    obtain ⟨cfg₁', hrest', h₁⟩ := ih h₂ hrest
    exact ⟨cfg₁', Machine.run_cons.mpr ⟨cfg₂', hs', hrest'⟩, h₁⟩

end Machine

end Async
