import TalentFlow.Async.Machine

/-!
# Async.Monitor

What a thread does, as an automaton. A monitor reads a thread's answered calls; in each of its
states it says which calls the thread may make and which answers they may get. `Obeys` is a
recursion on the program: it is proved of one program at a time, without a world and without other
threads.

* `obeys_bind`, `obeys_tryCatch`, `obeys_attempt`, `obeys_await`: the rules for programs.
* `obeys_of_calls`: a program that only makes calls the monitor does not look at.
* `run_invariant_along`: in a pool of threads that obey their monitors, an invariant of the world
  and the monitors' states holds along every run once each allowed call and each move keeps it.
* `recorder`, `recorded_step`: monitors that remember the thread's whole history.
* `Calls`: every call a program can ever make satisfies a predicate, and so does every call that a
  pool of such programs makes (`calls_run`).
-/

namespace Async

structure Monitor (I : Interface) (σ : Type) where
  next : σ → Event I → σ
  /-- the calls a thread may make -/
  call : σ → I.Call → Prop
  /-- the answers a call may get -/
  answer : σ → (c : I.Call) → I.Answer c → Prop

variable {I : Interface} {σ α β : Type}

/-- The program makes only calls its monitor allows, and ends in `post`, as long as the answers are
those the monitor expects. -/
def Obeys (m : Monitor I σ) (post : Except I.Error α → σ → Prop) : Prog I α → σ → Prop
  | .ret a, s => post (.ok a) s
  | .throw e, s => post (.error e) s
  | .call c k, s => m.call s c ∧ ∀ r, m.answer s c r → Obeys m post (k r) (m.next s ⟨c, r⟩)

section Rules

variable {m : Monitor I σ} {s : σ}

theorem obeys_mono {post post' : Except I.Error α → σ → Prop} {p : Prog I α}
    (h : Obeys m post p s) (hpost : ∀ r s, post r s → post' r s) : Obeys m post' p s := by
  induction p generalizing s with
  | ret a => exact hpost _ _ h
  | throw e => exact hpost _ _ h
  | call c k ih => exact ⟨h.1, fun r hr => ih r (h.2 r hr)⟩

theorem obeys_next? {post : Except I.Error α → σ → Prop} {p : Prog I α} {c : I.Call}
    (h : Obeys m post p s) (hc : p.next? = some c) : m.call s c := by
  obtain ⟨k, rfl⟩ := Prog.eq_call_of_next? hc
  exact h.1

theorem obeys_pure {post : Except I.Error α → σ → Prop} {a : α} :
    Obeys m post (pure a : Prog I α) s ↔ post (.ok a) s := Iff.rfl

/-- To obey with `p >>= f`, obey with `p` up to where `f` takes over. -/
theorem obeys_bind {post : Except I.Error β → σ → Prop} {p : Prog I α} {f : α → Prog I β}
    (h : Obeys m (fun r s => match r with
      | .ok a => Obeys m post (f a) s
      | .error e => post (.error e) s) p s) : Obeys m post (p >>= f) s := by
  induction p generalizing s with
  | ret a => exact h
  | throw e => exact h
  | call c k ih => exact ⟨h.1, fun r hr => ih r (h.2 r hr)⟩

theorem obeys_tryCatch {post : Except I.Error α → σ → Prop} {p : Prog I α}
    {f : I.Error → Prog I α}
    (h : Obeys m (fun r s => match r with
      | .ok a => post (.ok a) s
      | .error e => Obeys m post (f e) s) p s) : Obeys m post (tryCatch p f) s := by
  induction p generalizing s with
  | ret a => exact h
  | throw e => exact h
  | call c k ih => exact ⟨h.1, fun r hr => ih r (h.2 r hr)⟩

theorem obeys_attempt {post : Except I.Error β → σ → Prop} {p : Prog I α}
    {f : Except I.Error α → Prog I β} (h : Obeys m (fun r s => Obeys m post (f r) s) p s) :
    Obeys m post (p.attempt >>= f) s := by
  induction p generalizing s with
  | ret a => exact h
  | throw e => exact h
  | call c k ih => exact ⟨h.1, fun r hr => ih r (h.2 r hr)⟩

theorem obeys_await {post : Except I.Error α → σ → Prop} {c : I.Call} {f : I.Value c → Prog I α}
    (hc : m.call s c) (hok : ∀ a, m.answer s c (.ok a) → Obeys m post (f a) (m.next s ⟨c, .ok a⟩))
    (herr : ∀ e, m.answer s c (.error e) → post (.error e) (m.next s ⟨c, .error e⟩)) :
    Obeys m post (Prog.await c >>= f) s := by
  refine ⟨hc, fun r hr => ?_⟩
  cases r with
  | ok a => exact hok a hr
  | error e => exact herr e hr

theorem obeys_await_last {c : I.Call} {post : Except I.Error (I.Value c) → σ → Prop}
    (hc : m.call s c) (hr : ∀ r, m.answer s c r → post r (m.next s ⟨c, r⟩)) :
    Obeys m post (Prog.await c) s := by
  refine ⟨hc, fun r h => ?_⟩
  cases r with
  | ok a => exact hr _ h
  | error e => exact hr _ h

end Rules

/-! ## Calls -/

/-- Every call the program can make, whatever it is answered, satisfies `P`. -/
def Prog.Calls (P : I.Call → Prop) : Prog I α → Prop
  | .ret _ => True
  | .throw _ => True
  | .call c k => P c ∧ ∀ r, (k r).Calls P

section Calls

variable {P Q : I.Call → Prop}

@[simp] theorem calls_ret (a : α) : (Prog.ret a : Prog I α).Calls P := trivial
@[simp] theorem calls_throw (e : I.Error) : (Prog.throw e : Prog I α).Calls P := trivial

theorem calls_bind {p : Prog I α} {f : α → Prog I β} (hp : p.Calls P) (hf : ∀ a, (f a).Calls P) :
    (p >>= f).Calls P := by
  induction p with
  | ret a => exact hf a
  | throw e => trivial
  | call c k ih => exact ⟨hp.1, fun r => ih r (hp.2 r)⟩

/-- Every value the program can resolve to satisfies `Q`. -/
def Prog.Returns (Q : α → Prop) : Prog I α → Prop
  | .ret a => Q a
  | .throw _ => True
  | .call _ k => ∀ r, (k r).Returns Q

theorem calls_bind_of_returns {Q : α → Prop} {p : Prog I α} {f : α → Prog I β} (hp : p.Calls P)
    (hq : p.Returns Q) (hf : ∀ a, Q a → (f a).Calls P) : (p >>= f).Calls P := by
  induction p with
  | ret a => exact hf a hq
  | throw e => trivial
  | call c k ih => exact ⟨hp.1, fun r => ih r (hp.2 r) (hq r)⟩

theorem returns_bind {Q : β → Prop} {p : Prog I α} {f : α → Prog I β}
    (hf : ∀ a, (f a).Returns Q) : (p >>= f).Returns Q := by
  induction p with
  | ret a => exact hf a
  | throw e => trivial
  | call c k ih => exact fun r => ih r

theorem calls_tryCatch {p : Prog I α} {f : I.Error → Prog I α} (hp : p.Calls P)
    (hf : ∀ e, (f e).Calls P) : (tryCatch p f).Calls P := by
  induction p with
  | ret a => trivial
  | throw e => exact hf e
  | call c k ih => exact ⟨hp.1, fun r => ih r (hp.2 r)⟩

theorem calls_attempt {p : Prog I α} (hp : p.Calls P) : p.attempt.Calls P := by
  induction p with
  | ret a => trivial
  | throw e => trivial
  | call c k ih => exact ⟨hp.1, fun r => ih r (hp.2 r)⟩

theorem calls_await {c : I.Call} (hc : P c) : (Prog.await c).Calls P := by
  refine ⟨hc, fun r => ?_⟩
  cases r <;> trivial

theorem calls_mono {p : Prog I α} (hp : p.Calls P) (hPQ : ∀ c, P c → Q c) : p.Calls Q := by
  induction p with
  | ret a => trivial
  | throw e => trivial
  | call c k ih => exact ⟨hPQ c hp.1, fun r => ih r (hp.2 r)⟩

theorem obeys_of_allowed {m : Monitor I σ} {s : σ} {p : Prog I α} (hp : p.Calls P)
    (hP : ∀ s c, P c → m.call s c) : Obeys m (fun _ _ => True) p s := by
  induction p generalizing s with
  | ret a => trivial
  | throw e => trivial
  | call c k ih => exact ⟨hP s c hp.1, fun r _ => ih r (hp.2 r)⟩

/-- A program whose calls the monitor allows without changing its state leaves it as it was. -/
theorem obeys_of_calls {m : Monitor I σ} {s : σ} {p : Prog I α} (hp : p.Calls P)
    (hP : ∀ c, P c → m.call s c ∧ ∀ r, m.next s ⟨c, r⟩ = s) :
    Obeys m (fun _ s' => s' = s) p s := by
  induction p with
  | ret a => rfl
  | throw e => rfl
  | call c k ih =>
    refine ⟨(hP c hp.1).1, fun r _ => ?_⟩
    rw [(hP c hp.1).2 r]
    exact ih r (hp.2 r)

end Calls

/-! ## Pools -/

section Update

variable {ι : Type} [DecidableEq ι] {st : ι → σ} {i j : ι} {s s' : σ}

theorem of_update_eq (h : Function.update st i s' j = s) (hne : s' ≠ s) : st j = s := by
  by_cases hj : j = i
  · subst hj
    rw [Function.update_self] at h
    exact absurd h hne
  · rwa [Function.update_of_ne hj] at h

theorem update_eq_of (h : st j = s) (hne : st i ≠ s) : Function.update st i s' j = s := by
  have hj : j ≠ i := by
    rintro rfl
    exact hne h
  rwa [Function.update_of_ne hj]

end Update

section Run

variable {ι World Choice Move : Type} [DecidableEq ι] {M : Machine I ι World Choice Move}

def stage (m : ι → Monitor I σ) (s₀ : ι → σ) (cfg : Config I ι World α) (i : ι) : σ :=
  (cfg.trace i).foldl (m i).next (s₀ i)

variable {m : ι → Monitor I σ} {s₀ : ι → σ}

@[simp] theorem stage_start (w : World) (pool : ι → Prog I α) :
    stage m s₀ (Config.start w pool) = s₀ := rfl

@[simp] theorem stage_world (cfg : Config I ι World α) (w : World) :
    stage m s₀ { cfg with world := w } = stage m s₀ cfg := rfl

theorem stage_answered (cfg : Config I ι World α) (i : ι) {c : I.Call} (r : I.Answer c)
    (k : I.Answer c → Prog I α) (w : World) :
    stage m s₀ (cfg.answered i r k w) =
      Function.update (stage m s₀ cfg) i ((m i).next (stage m s₀ cfg i) ⟨c, r⟩) := by
  funext j
  by_cases hj : j = i
  · subst hj
    simp [stage]
  · simp [stage, hj]

/-- A monitor that has come into `T` was taken there by one of its thread's events. -/
theorem exists_event_of_stage {cfg : Config I ι World α} {i : ι} {T : σ → Prop} (h₀ : ¬ T (s₀ i))
    (h : T (stage m s₀ cfg i)) :
    ∃ e ∈ cfg.trace i, ∃ s, ¬ T s ∧ T ((m i).next s e) := by
  have hfold : ∀ (es : List (Event I)) (s : σ), ¬ T s → T (es.foldl (m i).next s) →
      ∃ e ∈ es, ∃ s, ¬ T s ∧ T ((m i).next s e) := by
    intro es
    induction es with
    | nil => intro s hs hT; exact absurd hT hs
    | cons e es ih =>
      intro s hs hT
      by_cases hnext : T ((m i).next s e)
      · exact ⟨e, List.mem_cons_self, s, hs, hnext⟩
      · obtain ⟨e', he', hmove⟩ := ih _ hnext hT
        exact ⟨e', List.mem_cons_of_mem _ he', hmove⟩
  exact hfold _ _ h₀ h

def AllObey (m : ι → Monitor I σ) (s₀ : ι → σ) (post : ι → Except I.Error α → σ → Prop)
    (cfg : Config I ι World α) : Prop :=
  ∀ i, Obeys (m i) (post i) (cfg.pool i) (stage m s₀ cfg i)

variable {post : ι → Except I.Error α → σ → Prop}

theorem AllObey.outcome {cfg : Config I ι World α} (h : AllObey m s₀ post cfg) {i : ι}
    {o : Except I.Error α} (ho : cfg.outcome? i = some o) : post i o (stage m s₀ cfg i) := by
  have hi := h i
  unfold Config.outcome? at ho
  cases o with
  | ok a =>
    rw [Prog.outcome?_eq_ok ho] at hi
    exact hi
  | error e =>
    rw [Prog.outcome?_eq_error ho] at hi
    exact hi

theorem AllObey.call {cfg : Config I ι World α} (h : AllObey m s₀ post cfg) {i : ι} {c : I.Call}
    {k : I.Answer c → Prog I α} (hp : cfg.pool i = .call c k) :
    (m i).call (stage m s₀ cfg i) c := by
  have hi := h i
  rw [hp] at hi
  exact hi.1

theorem AllObey.answered {cfg : Config I ι World α} (h : AllObey m s₀ post cfg) {i : ι} {c : I.Call}
    {k : I.Answer c → Prog I α} (hp : cfg.pool i = .call c k) {r : I.Answer c} (w : World)
    (hr : (m i).answer (stage m s₀ cfg i) c r) : AllObey m s₀ post (cfg.answered i r k w) := by
  intro j
  rw [stage_answered]
  by_cases hj : j = i
  · subst hj
    have hi := h j
    rw [hp] at hi
    simpa using hi.2 r hr
  · have hj' := h j
    simpa [hj] using hj'

/-- An invariant of the world and the monitors' states that each allowed call and each move keeps
holds along every run, as does obedience. The calls may assume `P` of the configuration. -/
theorem run_invariant_along {P : Config I ι World α → Label ι Choice Move → Prop}
    (Inv : World → (ι → σ) → Prop)
    (hcall : ∀ {cfg : Config I ι World α} {i ch c k r w}, AllObey m s₀ post cfg →
      Inv cfg.world (stage m s₀ cfg) → P cfg (.run i ch) → cfg.pool i = .call c k →
      (m i).call (stage m s₀ cfg i) c → M.exec i c ch cfg.world = some (r, w) →
      (m i).answer (stage m s₀ cfg i) c r ∧
        Inv w (Function.update (stage m s₀ cfg) i ((m i).next (stage m s₀ cfg i) ⟨c, r⟩)))
    (hmove : ∀ {mv w w' st}, Inv w st → M.move mv w = some w' → Inv w' st)
    {ls : List (Label ι Choice Move)} {cfg cfg' : Config I ι World α}
    (hobey : AllObey m s₀ post cfg) (hinv : Inv cfg.world (stage m s₀ cfg))
    (hP : M.Along P ls cfg) (hrun : M.run ls cfg = some cfg') :
    AllObey m s₀ post cfg' ∧ Inv cfg'.world (stage m s₀ cfg') := by
  refine Machine.run_induction_along
    (fun cfg => AllObey m s₀ post cfg ∧ Inv cfg.world (stage m s₀ cfg))
    (fun {cfg l cfg'} h hl hs => ?_) ⟨hobey, hinv⟩ hP hrun
  obtain ⟨i, ch, c, k, r, w, rfl, hp, hx, rfl⟩ | ⟨mv, w, rfl, hm, rfl⟩ := Machine.step_cases hs
  · obtain ⟨hr, hI⟩ := hcall h.1 h.2 hl hp (h.1.call hp) hx
    refine ⟨h.1.answered hp w hr, ?_⟩
    rw [stage_answered]
    exact hI
  · exact ⟨h.1, hmove h.2 hm⟩

/-- The monitor whose state is what `f` keeps of the thread's history. -/
def summary {β : Type} (f : Event I → Option β) (call : List β → I.Call → Prop)
    (answer : (c : I.Call) → I.Answer c → Prop) : Monitor I (List β) where
  next s e := s ++ (f e).toList
  call := call
  answer _ := answer

theorem foldl_append_toList {β γ : Type} (f : γ → Option β) (es : List γ) (s : List β) :
    es.foldl (fun s e => s ++ (f e).toList) s = s ++ es.filterMap f := by
  induction es generalizing s with
  | nil => simp
  | cons e es ih =>
    rw [List.foldl_cons, ih]
    cases hf : f e <;> simp [hf]

theorem stage_summary {β : Type} {f : Event I → Option β} {call : ι → List β → I.Call → Prop}
    {answer : (c : I.Call) → I.Answer c → Prop} (cfg : Config I ι World α) (i : ι) :
    stage (fun i => summary f (call i) answer) (fun _ => []) cfg i = (cfg.trace i).filterMap f := by
  unfold stage summary
  rw [foldl_append_toList, List.nil_append]

/-- The monitor whose state is the thread's history. -/
def recorder (call : List (Event I) → I.Call → Prop) : Monitor I (List (Event I)) where
  next h e := h ++ [e]
  call := call
  answer _ _ _ := True

/-- A program whose calls are allowed from a history on. -/
theorem obeys_recorder {call : List (Event I) → I.Call → Prop} {P : I.Call → Prop} {p : Prog I α}
    {h : List (Event I)} (hp : p.Calls P)
    (hcall : ∀ h' c, (∀ e ∈ h, e ∈ h') → P c → call h' c) :
    Obeys (recorder call) (fun _ _ => True) p h := by
  induction p generalizing h with
  | ret a => trivial
  | throw e => trivial
  | call c k ih =>
    refine ⟨hcall h c (fun _ he => he) hp.1, fun r _ => ih r (hp.2 r) fun h' c' hmem hc' => ?_⟩
    exact hcall h' c' (fun e he => hmem e (List.mem_append_left _ he)) hc'

/-- Threads that obey their recorders keep making only calls their histories allow. -/
theorem recorded_step {call : ι → List (Event I) → I.Call → Prop}
    {post : ι → Except I.Error α → List (Event I) → Prop} {l : Label ι Choice Move}
    {cfg cfg' : Config I ι World α}
    (h : ∀ i, Obeys (recorder (call i)) (post i) (cfg.pool i) (cfg.trace i))
    (hs : M.step l cfg = some cfg') :
    ∀ i, Obeys (recorder (call i)) (post i) (cfg'.pool i) (cfg'.trace i) := by
  obtain ⟨i, ch, c, k, r, w, rfl, hp, hx, rfl⟩ | ⟨mv, w, rfl, hm, rfl⟩ := Machine.step_cases hs
  · intro j
    by_cases hj : j = i
    · subst hj
      have hi := h j
      rw [hp] at hi
      simpa [recorder] using hi.2 r trivial
    · simpa [hj] using h j
  · exact h

theorem calls_step {P : ι → I.Call → Prop} {l : Label ι Choice Move}
    {cfg cfg' : Config I ι World α} (h : ∀ i, (cfg.pool i).Calls (P i))
    (hs : M.step l cfg = some cfg') : ∀ i, (cfg'.pool i).Calls (P i) := by
  obtain ⟨i, ch, c, k, r, w, rfl, hp, hx, rfl⟩ | ⟨mv, w, rfl, hm, rfl⟩ := Machine.step_cases hs
  · intro j
    by_cases hj : j = i
    · subst hj
      have hi := h j
      rw [hp] at hi
      simpa using hi.2 r
    · simpa [hj] using h j
  · exact h

theorem calls_run {P : ι → I.Call → Prop} {ls : List (Label ι Choice Move)}
    {cfg cfg' : Config I ι World α} (h : ∀ i, (cfg.pool i).Calls (P i))
    (hrun : M.run ls cfg = some cfg') : ∀ i, (cfg'.pool i).Calls (P i) :=
  Machine.run_induction (fun cfg => ∀ i, (cfg.pool i).Calls (P i)) (fun h hs => calls_step h hs) h
    hrun

theorem calls_log {P : ι → I.Call → Prop} {ls : List (Label ι Choice Move)}
    {cfg cfg' : Config I ι World α} (h : ∀ i, (cfg.pool i).Calls (P i))
    (hlog : ∀ e ∈ cfg.log, P e.1 e.2.call) (hrun : M.run ls cfg = some cfg') :
    ∀ e ∈ cfg'.log, P e.1 e.2.call := by
  have hinv := Machine.run_induction
    (fun cfg => (∀ i, (cfg.pool i).Calls (P i)) ∧ ∀ e ∈ cfg.log, P e.1 e.2.call)
    (fun {cfg l cfg'} h hs => ⟨calls_step h.1 hs, ?_⟩) ⟨h, hlog⟩ hrun
  · exact hinv.2
  intro e he
  obtain ⟨i, ch, c, k, r, w, rfl, hp, hx, rfl⟩ | ⟨mv, w, rfl, hm, rfl⟩ := Machine.step_cases hs
  · rcases List.mem_append.mp he with he | he
    · exact h.2 e he
    · have hi := h.1 i
      rw [hp] at hi
      rw [List.mem_singleton.mp he]
      exact hi.1
  · exact h.2 e he

end Run

end Async
