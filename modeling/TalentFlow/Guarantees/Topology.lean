import TalentFlow.Gateway.Topology

/-!
# Guarantees.Topology

Whether the gateway and the CV parser agree on the topology of the broker. They do on the exchange,
on the dead-letter queue and on the binding; the parser declares `cv_parser.jobs` with a message TTL
and the gateway without. So whichever side comes to that queue second is refused, and nothing else
ever is.

* `AgreementInv`: what the broker has was declared, what was accepted it has, and what was refused
  conflicts with something accepted.
* `declarations_accepted_iff`: over every run, from an empty broker.
* `declaration_refused`: the parser starts after the gateway.
-/

namespace TalentFlow.Queue

open Async

abbrev Starts : Type := Config BrokerApi ℕ Broker Unit

def NoneRefused (cfg : Starts) : Prop := ∀ e ∈ cfg.log, e.2.answer = .ok ()

def Declaration.IsJobs : Declaration → Prop
  | .queue q => q.name = CV_PROCESSING_QUEUE
  | _ => False

instance : ∀ d, Decidable (Declaration.IsJobs d)
  | .queue _ => inferInstanceAs (Decidable (_ = _))
  | .exchange _ => .isFalse id
  | .binding _ => .isFalse id

/-- A start of this side has come to its declaration of `cv_parser.jobs`. -/
def DeclaredJobs (starts : ℕ → Side) (cfg : Starts) (side : Side) : Prop :=
  ∃ e ∈ cfg.log, starts e.1 = side ∧ e.2.call.IsJobs

def refusal? (e : Event BrokerApi) : Option Refusal :=
  match e.answer with
  | .ok _ => none
  | .error r => some r

theorem refusal?_eq_none {e : Event BrokerApi} : refusal? e = none ↔ e.answer = .ok () := by
  obtain ⟨d, u | r⟩ := e <;> simp [refusal?]

/-! ## The two sides -/

/-- Two declarations conflict only if they are of `cv_parser.jobs`, by different sides; and those
do. -/
theorem conflicts_iff (side side' : Side) : ∀ d ∈ side.declarations, ∀ d' ∈ side'.declarations,
    d.Conflicts d' ↔ d.IsJobs ∧ d'.IsJobs ∧ side ≠ side' := by
  cases side <;> cases side' <;> decide

theorem gateway_binding {done ds : List Declaration} {x : Binding}
    (h : Side.gateway.declarations = done ++ .binding x :: ds) :
    (∃ q, .queue q ∈ done ∧ q.name = x.queue) ∧ ∃ e, .exchange e ∈ done ∧ e.name = x.exchange := by
  rcases done with _ | ⟨d₁, _ | ⟨d₂, _ | ⟨d₃, _ | ⟨d₄, done⟩⟩⟩⟩
  · cases h
  · cases h
  · cases h
  · cases h
    exact ⟨⟨_, List.mem_cons_of_mem _ (List.mem_cons_of_mem _ List.mem_cons_self), rfl⟩,
      _, List.mem_cons_self, rfl⟩
  · simp [Side.declarations, TopologyStep.all] at h

theorem parser_binding {done ds : List Declaration} {x : Binding}
    (h : Side.parser.declarations = done ++ .binding x :: ds) :
    (∃ q, .queue q ∈ done ∧ q.name = x.queue) ∧ ∃ e, .exchange e ∈ done ∧ e.name = x.exchange := by
  rcases done with _ | ⟨d₁, _ | ⟨d₂, _ | ⟨d₃, _ | ⟨d₄, done⟩⟩⟩⟩
  · cases h
  · cases h
  · cases h
  · cases h
    exact ⟨⟨_, List.mem_cons_of_mem _ List.mem_cons_self, rfl⟩, _, List.mem_cons_self, rfl⟩
  · simp [Side.declarations, RabbitMqConfig.declarations] at h

theorem binds_declared {side : Side} {done ds : List Declaration} {x : Binding} {b : Broker}
    (h : side.declarations = done ++ .binding x :: ds) (hdone : ∀ d ∈ done, b.Has d) :
    b.Binds x := by
  have hdeclared : (∃ q, .queue q ∈ done ∧ q.name = x.queue) ∧
      ∃ e, .exchange e ∈ done ∧ e.name = x.exchange := by
    cases side with
    | gateway => exact gateway_binding h
    | parser => exact parser_binding h
  obtain ⟨⟨q, hq, hqname⟩, e, he, hename⟩ := hdeclared
  obtain ⟨q', hq', -⟩ := hdone _ hq
  obtain ⟨e', he', -⟩ := hdone _ he
  rw [hqname] at hq'
  rw [hename] at he'
  exact ⟨by simp [hq'], by simp [he']⟩

/-! ## The invariant -/

/-- What is left of a start: the rest of its declarations, after those that the broker has; or
nothing, because one was refused. -/
def Progress (b : Broker) (side : Side) (p : Prog BrokerApi Unit) : Prop :=
  (∃ done ds, side.declarations = done ++ ds ∧ p = declareAll ds ∧ ∀ d ∈ done, b.Has d) ∨
    ∃ e, p = .throw e

structure AgreementInv (starts : ℕ → Side) (cfg : Starts) : Prop where
  progress : ∀ i, Progress cfg.world (starts i) (cfg.pool i)
  declared : ∀ e ∈ cfg.log, e.2.call ∈ (starts e.1).declarations
  accepted : ∀ e ∈ cfg.log, e.2.answer = .ok () → cfg.world.Has e.2.call
  queue : ∀ n q, cfg.world.queue n = some q →
    n = q.name ∧ ∃ e ∈ cfg.log, e.2.call = .queue q ∧ e.2.answer = .ok ()
  exchange : ∀ n x, cfg.world.exchange n = some x →
    n = x.name ∧ ∃ e ∈ cfg.log, e.2.call = .exchange x ∧ e.2.answer = .ok ()
  refused : ∀ e ∈ cfg.log, e.2.answer ≠ .ok () →
    ∃ e' ∈ cfg.log, e'.2.answer = .ok () ∧ e'.2.call.Conflicts e.2.call

theorem Progress.mono {b b' : Broker} {side : Side} {p : Prog BrokerApi Unit}
    (h : Progress b side p) (hb : ∀ d, b.Has d → b'.Has d) : Progress b' side p := by
  obtain ⟨done, ds, hside, hp, hdone⟩ | hthrow := h
  · exact .inl ⟨done, ds, hside, hp, fun d hd => hb d (hdone d hd)⟩
  · exact .inr hthrow

theorem Progress.call {b : Broker} {side : Side} {d : Declaration}
    {k : BrokerApi.Answer d → Prog BrokerApi Unit}
    (h : Progress b side (.call d k)) : ∃ done ds, side.declarations = done ++ d :: ds ∧
      (∀ d ∈ done, b.Has d) ∧ k (.ok ()) = declareAll ds ∧ ∀ e, k (.error e) = .throw e := by
  obtain ⟨done, ds, hside, hp, hdone⟩ | ⟨e, he⟩ := h
  · cases ds with
    | nil => cases hp
    | cons d' ds =>
      cases hp
      exact ⟨done, ds, hside, hdone, rfl, fun e => rfl⟩
  · cases he

theorem agreementInv_accepted {starts : ℕ → Side} {cfg : Starts} {i : ℕ} {d : Declaration}
    {k : BrokerApi.Answer d → Prog BrokerApi Unit} {b : Broker} (hσ : AgreementInv starts cfg)
    (hp : cfg.pool i = .call d k) (hb : cfg.world.Accepts d b) :
    AgreementInv starts (cfg.answered i (.ok () : BrokerApi.Answer d) k b) := by
  have hprogress := hσ.progress i
  rw [hp] at hprogress
  obtain ⟨done, ds, hside, hdone, hk, -⟩ := hprogress.call
  have hmem : ∀ e ∈ (cfg.answered i (.ok () : BrokerApi.Answer d) k b).log,
      e ∈ cfg.log ∨ e = (i, ⟨d, .ok ()⟩) := fun e he => by simpa using he
  have hold : ∀ e ∈ cfg.log, e ∈ (cfg.answered i (.ok () : BrokerApi.Answer d) k b).log :=
    fun e he => by simp [he]
  have hnew : (i, ⟨d, .ok ()⟩) ∈ (cfg.answered i (.ok () : BrokerApi.Answer d) k b).log := by simp
  refine ⟨fun j => ?_, fun e he => ?_, fun e he hok => ?_, fun n q hq => ?_, fun n x hx => ?_,
    fun e he hne => ?_⟩
  · by_cases hj : j = i
    · subst hj
      rw [Config.answered_pool_self, hk]
      refine .inl ⟨done ++ [d], ds, by simp [hside], rfl, fun d' hd' => ?_⟩
      rcases List.mem_append.mp hd' with hd' | hd'
      · exact hb.keeps d' (hdone d' hd')
      · rw [List.mem_singleton.mp hd']
        exact hb.has
    · simp only [Config.answered, Function.update_of_ne hj]
      exact (hσ.progress j).mono hb.keeps
  · obtain he | rfl := hmem e he
    · exact hσ.declared e he
    · simp [hside]
  · obtain he | rfl := hmem e he
    · exact hb.keeps _ (hσ.accepted e he hok)
    · exact hb.has
  · obtain hq | ⟨rfl, hn⟩ := hb.queue n q hq
    · obtain ⟨hn, e, he, hcall, hok⟩ := hσ.queue n q hq
      exact ⟨hn, e, hold e he, hcall, hok⟩
    · exact ⟨hn, _, hnew, rfl, rfl⟩
  · obtain hx | ⟨rfl, hn⟩ := hb.exchange n x hx
    · obtain ⟨hn, e, he, hcall, hok⟩ := hσ.exchange n x hx
      exact ⟨hn, e, hold e he, hcall, hok⟩
    · exact ⟨hn, _, hnew, rfl, rfl⟩
  · obtain he | rfl := hmem e he
    · obtain ⟨e', he', hok, hconflicts⟩ := hσ.refused e he hne
      exact ⟨e', hold e' he', hok, hconflicts⟩
    · exact absurd rfl hne

/-- Only a declaration that something accepted conflicts with is refused. -/
theorem refused_conflicts {starts : ℕ → Side} {cfg : Starts} {i : ℕ} {done ds : List Declaration}
    {d : Declaration} (hσ : AgreementInv starts cfg)
    (hside : (starts i).declarations = done ++ d :: ds) (hdone : ∀ d ∈ done, cfg.world.Has d)
    (hb : cfg.world.Refuses d) :
    ∃ e ∈ cfg.log, e.2.answer = .ok () ∧ e.2.call.Conflicts d := by
  cases hb with
  | exchange x x' h hne =>
    obtain ⟨hname, e, he, hcall, hok⟩ := hσ.exchange _ _ h
    refine ⟨e, he, hok, ?_⟩
    rw [hcall]
    exact ⟨hname.symm, hne⟩
  | queue q q' h hne =>
    obtain ⟨hname, e, he, hcall, hok⟩ := hσ.queue _ _ h
    refine ⟨e, he, hok, ?_⟩
    rw [hcall]
    exact ⟨hname.symm, hne⟩
  | binding x h => exact absurd (binds_declared hside hdone) h

theorem agreementInv_refused {starts : ℕ → Side} {cfg : Starts} {i : ℕ} {d : Declaration}
    {k : BrokerApi.Answer d → Prog BrokerApi Unit} {r : Refusal} (hσ : AgreementInv starts cfg)
    (hp : cfg.pool i = .call d k) (hb : cfg.world.Refuses d) :
    AgreementInv starts (cfg.answered i (.error r : BrokerApi.Answer d) k cfg.world) := by
  have hprogress := hσ.progress i
  rw [hp] at hprogress
  obtain ⟨done, ds, hside, hdone, -, hk⟩ := hprogress.call
  have hmem : ∀ e ∈ (cfg.answered i (.error r : BrokerApi.Answer d) k cfg.world).log,
      e ∈ cfg.log ∨ e = (i, ⟨d, .error r⟩) := fun e he => by simpa using he
  have hold : ∀ e ∈ cfg.log,
      e ∈ (cfg.answered i (.error r : BrokerApi.Answer d) k cfg.world).log :=
    fun e he => by simp [he]
  refine ⟨fun j => ?_, fun e he => ?_, fun e he hok => ?_, fun n q hq => ?_, fun n x hx => ?_,
    fun e he hne => ?_⟩
  · by_cases hj : j = i
    · subst hj
      rw [Config.answered_pool_self, hk]
      exact .inr ⟨r, rfl⟩
    · simp only [Config.answered, Function.update_of_ne hj]
      exact hσ.progress j
  · obtain he | rfl := hmem e he
    · exact hσ.declared e he
    · simp [hside]
  · obtain he | rfl := hmem e he
    · exact hσ.accepted e he hok
    · cases hok
  · obtain ⟨hn, e, he, hcall, hok⟩ := hσ.queue n q hq
    exact ⟨hn, e, hold e he, hcall, hok⟩
  · obtain ⟨hn, e, he, hcall, hok⟩ := hσ.exchange n x hx
    exact ⟨hn, e, hold e he, hcall, hok⟩
  · obtain he | rfl := hmem e he
    · obtain ⟨e', he', hok, hconflicts⟩ := hσ.refused e he hne
      exact ⟨e', hold e' he', hok, hconflicts⟩
    · obtain ⟨e', he', hok, hconflicts⟩ := refused_conflicts hσ hside hdone hb
      exact ⟨e', hold e' he', hok, hconflicts⟩

theorem agreementInv_step {starts : ℕ → Side} {cfg cfg' : Starts} {l : Async.Label ℕ Unit Empty}
    (hσ : AgreementInv starts cfg) (h : brokerMachine.step l cfg = some cfg') :
    AgreementInv starts cfg' := by
  obtain ⟨i, ch, d, k, r, b, rfl, hp, hexec, rfl⟩ | ⟨m, -⟩ := Machine.step_cases h
  · simp only [brokerMachine] at hexec
    obtain ⟨b', hd, hb⟩ | ⟨e, hd, hb⟩ := declare_cases cfg.world d
    · rw [hd] at hexec
      cases hexec
      exact agreementInv_accepted hσ hp hb
    · rw [hd] at hexec
      cases hexec
      exact agreementInv_refused hσ hp hb
  · exact m.elim

theorem agreementInv_run {starts : ℕ → Side} {ls : List (Async.Label ℕ Unit Empty)}
    {cfg cfg' : Starts} (hσ : AgreementInv starts cfg) (h : brokerMachine.run ls cfg = some cfg') :
    AgreementInv starts cfg' :=
  Machine.run_induction (AgreementInv starts) agreementInv_step hσ h

theorem agreementInv_start (starts : ℕ → Side) :
    AgreementInv starts (.start {} (startAll starts)) where
  progress i := .inl ⟨[], _, rfl, rfl, by simp⟩
  declared := by simp
  accepted := by simp
  queue := by simp [Config.start]
  exchange := by simp [Config.start]
  refused := by simp

/-! ## The result -/

/-- Starts of either side, any number and in any order of their declarations: nothing is refused
exactly as long as `cv_parser.jobs` has been declared by one side only. -/
theorem declarations_accepted_iff (starts : ℕ → Side) (ls : List (Async.Label ℕ Unit Empty))
    (cfg : Starts) (hrun : brokerMachine.run ls (.start {} (startAll starts)) = some cfg) :
    NoneRefused cfg ↔ ¬ (DeclaredJobs starts cfg .gateway ∧ DeclaredJobs starts cfg .parser) := by
  have hσ : AgreementInv starts cfg := agreementInv_run (agreementInv_start starts) hrun
  constructor
  · rintro hnone ⟨⟨e, he, hside, hjobs⟩, e', he', hside', hjobs'⟩
    have hd : e.2.call ∈ Side.gateway.declarations := hside ▸ hσ.declared e he
    have hd' : e'.2.call ∈ Side.parser.declarations := hside' ▸ hσ.declared e' he'
    refine not_conflicts_of_has (hσ.accepted e he (hnone e he))
      (hσ.accepted e' he' (hnone e' he')) ?_
    exact (conflicts_iff .gateway .parser _ hd _ hd').mpr ⟨hjobs, hjobs', by decide⟩
  · intro hboth e he
    by_contra hrefused
    obtain ⟨e', he', -, hconflicts⟩ := hσ.refused e he hrefused
    obtain ⟨hjobs', hjobs, hne⟩ := (conflicts_iff _ _ _ (hσ.declared e' he') _
      (hσ.declared e he)).mp hconflicts
    refine hboth ?_
    cases hside' : starts e'.1 with
    | gateway =>
      cases hside : starts e.1 with
      | gateway => exact absurd (hside'.trans hside.symm) hne
      | parser => exact ⟨⟨e', he', hside', hjobs'⟩, e, he, hside, hjobs⟩
    | parser =>
      cases hside : starts e.1 with
      | gateway => exact ⟨⟨e, he, hside, hjobs⟩, e', he', hside', hjobs'⟩
      | parser => exact absurd (hside'.trans hside.symm) hne

def gatewayThenParser : List (Async.Label ℕ Unit Empty) :=
  [.run 0 (), .run 0 (), .run 0 (), .run 0 (), .run 1 (), .run 1 ()]

def gatewayFirst (i : ℕ) : Side := if i = 0 then .gateway else .parser

theorem declarations_accepted_iff_gateway : ∃ cfg : Starts, NoneRefused cfg ∧
    brokerMachine.run (gatewayThenParser.take 4) (.start {} (startAll gatewayFirst)) = some cfg ∧
      (NoneRefused cfg ↔ ¬ (DeclaredJobs gatewayFirst cfg .gateway ∧
        DeclaredJobs gatewayFirst cfg .parser)) := by
  have h : (brokerMachine.run (gatewayThenParser.take 4) (.start {} (startAll gatewayFirst))).map
      (fun cfg => cfg.log.all fun e => (refusal? e.2).isNone) = some true := by
    decide +kernel
  obtain ⟨cfg, hrun, hlog⟩ := Option.map_eq_some_iff.mp h
  refine ⟨cfg, fun e he => ?_, hrun, declarations_accepted_iff _ _ _ hrun⟩
  have hnone : (refusal? e.2).isNone := List.all_eq_true.mp hlog e he
  exact refusal?_eq_none.mp (Option.isNone_iff_eq_none.mp hnone)

/-- The parser's declaration of `cv_parser.jobs` is refused, because it asks for a message TTL. -/
theorem declaration_refused : ∃ cfg : Starts, ∃ e ∈ cfg.log,
    brokerMachine.run gatewayThenParser (.start {} (startAll gatewayFirst)) = some cfg ∧
      gatewayFirst e.1 = .parser ∧ e.2.call = .queue RabbitMqConfig.cvParserQueue ∧
      refusal? e.2 = some .preconditionFailed ∧ ¬ NoneRefused cfg := by
  have h : (brokerMachine.run gatewayThenParser (.start {} (startAll gatewayFirst))).map
      (fun cfg => cfg.log.any fun e => decide (gatewayFirst e.1 = .parser ∧
        e.2.call = .queue RabbitMqConfig.cvParserQueue ∧
        refusal? e.2 = some .preconditionFailed)) = some true := by
    decide +kernel
  obtain ⟨cfg, hrun, hlog⟩ := Option.map_eq_some_iff.mp h
  obtain ⟨e, he, hmatch⟩ := List.any_eq_true.mp hlog
  obtain ⟨hside, hcall, hrefusal⟩ := of_decide_eq_true hmatch
  refine ⟨cfg, e, he, hrun, hside, hcall, hrefusal, fun hnone => ?_⟩
  rw [refusal?_eq_none.mpr (hnone e he)] at hrefusal
  cases hrefusal

end TalentFlow.Queue
