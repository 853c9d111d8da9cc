import TalentFlow.Async.Monitor

/-!
# Async.Sequential

Programs that run one after another. `Finishes R p w o w'` says that `p`, alone in world `w`, ends
with outcome `o` in world `w'`, when `R` says how a call is answered. It is a recursion on the
program, so it is taken apart along the program.

* `finishes_bind`, `finishes_tryCatch`, `finishes_attempt`, `finishes_await`: the rules for
  programs.
* `finishes_keeps`: what every call of a program keeps, the program keeps.
* `finishes_iff_run`: a program finishes so exactly if some schedule of a machine runs it so.
* `exists_finish`: a program whose calls can be answered finishes.
* `reads_bind`, `reads_cut`: programs that only read, and what follows them.
-/

namespace Async

variable {I : Interface} {World α β : Type}

/-- How calls are answered: call, world, answer, new world. -/
abbrev Answering (I : Interface) (World : Type) : Type :=
  (c : I.Call) → World → I.Answer c → World → Prop

def Finishes (R : Answering I World) : Prog I α → World → Except I.Error α → World → Prop
  | .ret a, w, o, w' => o = .ok a ∧ w' = w
  | .throw e, w, o, w' => o = .error e ∧ w' = w
  | .call c k, w, o, w' => ∃ r w₁, R c w r w₁ ∧ Finishes R (k r) w₁ o w'

section Rules

variable {R : Answering I World} {w w' : World}

theorem finishes_pure {a : α} {o : Except I.Error α} :
    Finishes R (pure a) w o w' ↔ o = .ok a ∧ w' = w := Iff.rfl

theorem finishes_ret {a : α} {o : Except I.Error α} :
    Finishes R (Prog.ret a) w o w' ↔ o = .ok a ∧ w' = w := Iff.rfl

theorem finishes_bind {p : Prog I α} {f : α → Prog I β} {o : Except I.Error β} :
    Finishes R (p >>= f) w o w' ↔
      (∃ a w₁, Finishes R p w (.ok a) w₁ ∧ Finishes R (f a) w₁ o w') ∨
        ∃ e, Finishes R p w (.error e) w' ∧ o = .error e := by
  induction p generalizing w with
  | ret a =>
    constructor
    · intro h
      exact .inl ⟨a, w, ⟨rfl, rfl⟩, h⟩
    · rintro (⟨b, w₁, ⟨hb, rfl⟩, h⟩ | ⟨e, ⟨he, -⟩, -⟩)
      · cases hb
        exact h
      · cases he
  | throw e =>
    constructor
    · rintro ⟨rfl, rfl⟩
      exact .inr ⟨e, ⟨rfl, rfl⟩, rfl⟩
    · rintro (⟨b, w₁, ⟨hb, -⟩, -⟩ | ⟨e', ⟨he, rfl⟩, rfl⟩)
      · cases hb
      · cases he
        exact ⟨rfl, rfl⟩
  | call c k ih =>
    constructor
    · rintro ⟨r, w₁, hr, h⟩
      obtain ⟨a, w₂, hp, hf⟩ | ⟨e, hp, rfl⟩ := (ih r).mp h
      · exact .inl ⟨a, w₂, ⟨r, w₁, hr, hp⟩, hf⟩
      · exact .inr ⟨e, ⟨r, w₁, hr, hp⟩, rfl⟩
    · rintro (⟨a, w₂, ⟨r, w₁, hr, hp⟩, hf⟩ | ⟨e, ⟨r, w₁, hr, hp⟩, rfl⟩)
      · exact ⟨r, w₁, hr, (ih r).mpr (.inl ⟨a, w₂, hp, hf⟩)⟩
      · exact ⟨r, w₁, hr, (ih r).mpr (.inr ⟨e, hp, rfl⟩)⟩

theorem finishes_await {c : I.Call} {r : I.Answer c} :
    Finishes R (Prog.await c) w r w' ↔ R c w r w' := by
  constructor
  · rintro ⟨r', w₁, hr, h⟩
    cases r' with
    | ok a =>
      obtain ⟨rfl, rfl⟩ := h
      exact hr
    | error e =>
      obtain ⟨rfl, rfl⟩ := h
      exact hr
  · intro hr
    refine ⟨r, w', hr, ?_⟩
    cases r with
    | ok a => exact ⟨rfl, rfl⟩
    | error e => exact ⟨rfl, rfl⟩

theorem finishes_tryCatch {p : Prog I α} {f : I.Error → Prog I α} {o : Except I.Error α} :
    Finishes R (tryCatch p f) w o w' ↔
      (∃ a, Finishes R p w (.ok a) w' ∧ o = .ok a) ∨
        ∃ e w₁, Finishes R p w (.error e) w₁ ∧ Finishes R (f e) w₁ o w' := by
  induction p generalizing w with
  | ret a =>
    constructor
    · rintro ⟨rfl, rfl⟩
      exact .inl ⟨a, ⟨rfl, rfl⟩, rfl⟩
    · rintro (⟨b, ⟨hb, rfl⟩, rfl⟩ | ⟨e, w₁, ⟨he, -⟩, -⟩)
      · cases hb
        exact ⟨rfl, rfl⟩
      · cases he
  | throw e =>
    constructor
    · intro h
      exact .inr ⟨e, w, ⟨rfl, rfl⟩, h⟩
    · rintro (⟨b, ⟨hb, -⟩, -⟩ | ⟨e', w₁, ⟨he, rfl⟩, h⟩)
      · cases hb
      · cases he
        exact h
  | call c k ih =>
    constructor
    · rintro ⟨r, w₁, hr, h⟩
      obtain ⟨a, hp, rfl⟩ | ⟨e, w₂, hp, hf⟩ := (ih r).mp h
      · exact .inl ⟨a, ⟨r, w₁, hr, hp⟩, rfl⟩
      · exact .inr ⟨e, w₂, ⟨r, w₁, hr, hp⟩, hf⟩
    · rintro (⟨a, ⟨r, w₁, hr, hp⟩, rfl⟩ | ⟨e, w₂, ⟨r, w₁, hr, hp⟩, hf⟩)
      · exact ⟨r, w₁, hr, (ih r).mpr (.inl ⟨a, hp, rfl⟩)⟩
      · exact ⟨r, w₁, hr, (ih r).mpr (.inr ⟨e, w₂, hp, hf⟩)⟩

theorem finishes_attempt {p : Prog I α} {o : Except I.Error (Except I.Error α)} :
    Finishes R p.attempt w o w' ↔ ∃ r, Finishes R p w r w' ∧ o = .ok r := by
  induction p generalizing w with
  | ret a =>
    constructor
    · rintro ⟨rfl, rfl⟩
      exact ⟨.ok a, ⟨rfl, rfl⟩, rfl⟩
    · rintro ⟨r, ⟨rfl, rfl⟩, rfl⟩
      exact ⟨rfl, rfl⟩
  | throw e =>
    constructor
    · rintro ⟨rfl, rfl⟩
      exact ⟨.error e, ⟨rfl, rfl⟩, rfl⟩
    · rintro ⟨r, ⟨rfl, rfl⟩, rfl⟩
      exact ⟨rfl, rfl⟩
  | call c k ih =>
    constructor
    · rintro ⟨r, w₁, hr, h⟩
      obtain ⟨r', hp, rfl⟩ := (ih r).mp h
      exact ⟨r', ⟨r, w₁, hr, hp⟩, rfl⟩
    · rintro ⟨r', ⟨r, w₁, hr, hp⟩, rfl⟩
      exact ⟨r, w₁, hr, (ih r).mpr ⟨r', hp, rfl⟩⟩

/-- What follows an attempt gets its outcome. -/
theorem finishes_bind_attempt {p : Prog I α} {f : Except I.Error α → Prog I β}
    {o : Except I.Error β} :
    Finishes R (p.attempt >>= f) w o w' ↔ ∃ r w₁, Finishes R p w r w₁ ∧ Finishes R (f r) w₁ o w' := by
  rw [finishes_bind]
  constructor
  · rintro (⟨r, w₁, hattempt, h⟩ | ⟨e, hattempt, -⟩)
    · obtain ⟨r, hp, hr⟩ := finishes_attempt.mp hattempt
      cases hr
      exact ⟨r, w₁, hp, h⟩
    · obtain ⟨r, -, hr⟩ := finishes_attempt.mp hattempt
      cases hr
  · rintro ⟨r, w₁, hp, h⟩
    exact .inl ⟨r, w₁, finishes_attempt.mpr ⟨r, hp, rfl⟩, h⟩

theorem finishes_bind_ok {p : Prog I α} {f : α → Prog I β} {o : Except I.Error β} {a : α}
    {w₁ : World} (hp : ∀ o w', Finishes R p w o w' ↔ o = .ok a ∧ w' = w₁) :
    Finishes R (p >>= f) w o w' ↔ Finishes R (f a) w₁ o w' := by
  rw [finishes_bind]
  constructor
  · rintro (⟨b, w₂, h, hf⟩ | ⟨e, h, -⟩)
    · obtain ⟨hb, rfl⟩ := (hp _ _).mp h
      cases hb
      exact hf
    · cases ((hp _ _).mp h).1
  · intro hf
    exact .inl ⟨a, w₁, (hp _ _).mpr ⟨rfl, rfl⟩, hf⟩

theorem finishes_bind_returns {p : Prog I α} {f : α → Prog I β} {b : β} :
    Finishes R (p >>= f) w (.ok b) w' ↔
      ∃ a w₁, Finishes R p w (.ok a) w₁ ∧ Finishes R (f a) w₁ (.ok b) w' := by
  rw [finishes_bind]
  constructor
  · rintro (h | ⟨e, -, he⟩)
    · exact h
    · cases he
  · exact .inl

/-- What every call of a program keeps, the program keeps. -/
theorem finishes_keeps {P : I.Call → Prop} (Inv : World → Prop)
    (hcall : ∀ {c w r w'}, P c → R c w r w' → Inv w → Inv w') {p : Prog I α} (hp : p.Calls P)
    {o : Except I.Error α} (h : Finishes R p w o w') (hw : Inv w) : Inv w' := by
  induction p generalizing w with
  | ret a =>
    obtain ⟨-, rfl⟩ := h
    exact hw
  | throw e =>
    obtain ⟨-, rfl⟩ := h
    exact hw
  | call c k ih =>
    obtain ⟨r, w₁, hr, hk⟩ := h
    exact ih r (hp.2 r) hk (hcall hp.1 hr hw)

theorem finishes_mono {R' : Answering I World} (hR : ∀ c w r w', R c w r w' → R' c w r w')
    {p : Prog I α} {o : Except I.Error α} (h : Finishes R p w o w') : Finishes R' p w o w' := by
  induction p generalizing w with
  | ret a => exact h
  | throw e => exact h
  | call c k ih =>
    obtain ⟨r, w₁, hr, hk⟩ := h
    exact ⟨r, w₁, hR _ _ _ _ hr, ih r hk⟩

/-- A program whose calls can always be answered comes to an end. -/
theorem exists_finish {P : I.Call → Prop} (hcall : ∀ c w, P c → ∃ r w', R c w r w')
    {p : Prog I α} (hp : p.Calls P) (w : World) : ∃ o w', Finishes R p w o w' := by
  induction p generalizing w with
  | ret a => exact ⟨.ok a, w, rfl, rfl⟩
  | throw e => exact ⟨.error e, w, rfl, rfl⟩
  | call c k ih =>
    obtain ⟨r, w₁, hr⟩ := hcall c w hp.1
    obtain ⟨o, w', h⟩ := ih r (hp.2 r) w₁
    exact ⟨o, w', r, w₁, hr, h⟩

theorem exists_finish_bind {β : Type} {p : Prog I α} {f : α → Prog I β}
    (h : ∃ o w', Finishes R (p >>= f) w o w') : ∃ o w', Finishes R p w o w' := by
  obtain ⟨o, w', h⟩ := h
  obtain ⟨a, w₁, hp, -⟩ | ⟨e, hp, -⟩ := finishes_bind.mp h
  · exact ⟨_, _, hp⟩
  · exact ⟨_, _, hp⟩

/-- However `p` ends, it leaves the world `w` as it is, and what it gives satisfies `Q`. -/
def Reads (R : Answering I World) (w : World) (p : Prog I α) (Q : α → Prop) : Prop :=
  ∀ o w', Finishes R p w o w' → w' = w ∧ ∀ a, o = .ok a → Q a

theorem reads_pure {a : α} {Q : α → Prop} (h : Q a) : Reads R w (pure a) Q := by
  rintro o w' ⟨rfl, rfl⟩
  refine ⟨rfl, fun b hb => ?_⟩
  cases hb
  exact h

theorem reads_throw {e : I.Error} {Q : α → Prop} : Reads R w (throw e) Q := by
  rintro o w' ⟨rfl, rfl⟩
  refine ⟨rfl, fun b hb => ?_⟩
  cases hb

theorem reads_mono {p : Prog I α} {Q Q' : α → Prop} (hp : Reads R w p Q)
    (h : ∀ a, Q a → Q' a) : Reads R w p Q' :=
  fun o w' hfin => ⟨(hp o w' hfin).1, fun a ha => h a ((hp o w' hfin).2 a ha)⟩

/-- After a part that only reads, an error is passed on, or the rest runs in the same world. -/
theorem reads_cut {p : Prog I α} {f : α → Prog I β} {Q : α → Prop} (hp : Reads R w p Q)
    {o : Except I.Error β} (h : Finishes R (p >>= f) w o w') :
    ((∃ e, o = .error e) ∧ w' = w) ∨ ∃ a, Q a ∧ Finishes R (f a) w o w' := by
  obtain ⟨a, w₁, ha, hf⟩ | ⟨e, he, rfl⟩ := finishes_bind.mp h
  · obtain ⟨rfl, hQ⟩ := hp _ _ ha
    exact .inr ⟨a, hQ a rfl, hf⟩
  · exact .inl ⟨⟨e, rfl⟩, (hp _ _ he).1⟩

theorem reads_bind {p : Prog I α} {f : α → Prog I β} {Q : α → Prop} {Q' : β → Prop}
    (hp : Reads R w p Q) (hf : ∀ a, Q a → Reads R w (f a) Q') : Reads R w (p >>= f) Q' := by
  intro o w' h
  obtain ⟨⟨e, rfl⟩, rfl⟩ | ⟨a, ha, hrest⟩ := reads_cut hp h
  · refine ⟨rfl, fun b hb => ?_⟩
    cases hb
  · exact hf a ha o w' hrest

end Rules

section Machine

variable {ι Choice Move : Type} [DecidableEq ι] {M : Machine I ι World Choice Move}

/-- Calls of thread `i` as the machine answers them, with choices that satisfy `Q`. -/
def Machine.answers (M : Machine I ι World Choice Move) (Q : Choice → Prop) (i : ι) :
    Answering I World :=
  fun c w r w' => ∃ ch, Q ch ∧ M.exec i c ch w = some (r, w')

variable {Q : Choice → Prop} {i : ι}

theorem finishes_of_run {chs : List Choice} {cfg cfg' : Config I ι World α} {o : Except I.Error α}
    (hQ : ∀ ch ∈ chs, Q ch) (hrun : M.run (chs.map (.run i)) cfg = some cfg')
    (ho : cfg'.outcome? i = some o) :
    Finishes (M.answers Q i) (cfg.pool i) cfg.world o cfg'.world := by
  induction chs generalizing cfg with
  | nil =>
    cases hrun
    cases o with
    | ok a =>
      rw [Prog.outcome?_eq_ok ho]
      exact ⟨rfl, rfl⟩
    | error e =>
      rw [Prog.outcome?_eq_error ho]
      exact ⟨rfl, rfl⟩
  | cons ch chs ih =>
    obtain ⟨cfg₁, hs, hrest⟩ := Machine.run_cons.mp hrun
    have h := ih (fun ch' hch' => hQ ch' (List.mem_cons_of_mem ch hch')) hrest
    obtain ⟨j, ch', c, k, r, w, hl, hp, hx, rfl⟩ | ⟨m, w, hl, -⟩ := Machine.step_cases hs
    · cases hl
      rw [hp]
      rw [Config.answered_pool_self] at h
      exact ⟨r, w, ⟨ch, hQ ch List.mem_cons_self, hx⟩, h⟩
    · cases hl

theorem run_of_finishes {p : Prog I α} {w w' : World} {o : Except I.Error α}
    (h : Finishes (M.answers Q i) p w o w') {cfg : Config I ι World α} (hp : cfg.pool i = p)
    (hw : cfg.world = w) : ∃ chs : List Choice, (∀ ch ∈ chs, Q ch) ∧
      ∃ cfg', M.run (chs.map (.run i)) cfg = some cfg' ∧ cfg'.outcome? i = some o ∧
        cfg'.world = w' := by
  induction p generalizing w cfg with
  | ret a =>
    obtain ⟨rfl, rfl⟩ := h
    exact ⟨[], by simp, cfg, rfl, by rw [Config.outcome?, hp]; rfl, hw⟩
  | throw e =>
    obtain ⟨rfl, rfl⟩ := h
    exact ⟨[], by simp, cfg, rfl, by rw [Config.outcome?, hp]; rfl, hw⟩
  | call c k ih =>
    obtain ⟨r, w₁, ⟨ch, hch, hx⟩, hk⟩ := h
    subst hw
    have hs := Machine.step_run hp hx
    obtain ⟨chs, hQ, cfg', hrun, ho, hw'⟩ := ih r hk (cfg.answered_pool_self i r k w₁) rfl
    refine ⟨ch :: chs, ?_, cfg', Machine.run_cons.mpr ⟨_, hs, hrun⟩, ho, hw'⟩
    intro x hx
    rcases List.mem_cons.mp hx with rfl | hx
    · exact hch
    · exact hQ x hx

/-- Finishing is running alone on the machine until the end. -/
theorem finishes_iff_run {p : Prog I α} {w w' : World} {o : Except I.Error α} :
    Finishes (M.answers Q i) p w o w' ↔ ∃ chs : List Choice, (∀ ch ∈ chs, Q ch) ∧
      ∃ cfg', M.run (chs.map (.run i)) (.start w fun _ => p) = some cfg' ∧
        cfg'.outcome? i = some o ∧ cfg'.world = w' := by
  constructor
  · intro h
    exact run_of_finishes h rfl rfl
  · rintro ⟨chs, hQ, cfg', hrun, ho, rfl⟩
    exact finishes_of_run hQ hrun ho

end Machine

end Async
