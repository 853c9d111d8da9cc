import TalentFlow.Async.Machine
import Mathlib.Data.Nat.Notation

/-!
# Gateway.Topology

The topology of the broker as its two users declare it: the gateway through `amqplib`, the CV parser
through the beans of Spring AMQP. What a client sends is a `Declaration`, with the x-arguments
that its options stand for.

A broker creates what does not exist yet. What exists may be declared again if nothing differs;
otherwise the declaration is refused, and the channel it was made on is closed.
-/

namespace TalentFlow.Queue

open Async

/-! ## Declarations -/

/-- The value of an x-argument. -/
inductive ArgumentValue where
  | text (s : String)
  | number (n : Int)
  deriving DecidableEq

abbrev Arguments : Type := List (String × ArgumentValue)

structure Exchange where
  name : String
  type : String
  durable : Bool
  deriving DecidableEq

structure QueueDeclaration where
  name : String
  durable : Bool
  arguments : Arguments := []
  deriving DecidableEq

structure Binding where
  queue : String
  exchange : String
  routingKey : String
  deriving DecidableEq

inductive Declaration where
  | exchange (e : Exchange)
  | queue (q : QueueDeclaration)
  | binding (b : Binding)
  deriving DecidableEq

/-! ## The gateway -/

def TALENTFLOW_EVENTS_EXCHANGE : String := "talentflow.events"
def CV_PROCESSING_QUEUE : String := "cv_parser.jobs"
def CV_PARSING_DLQ : String := "cv_parser.jobs.dlq"
def ROUTING_KEY_CV_UPLOADED : String := "cv.uploaded"

/-- The options the gateway passes to `assertQueue`. -/
structure AssertQueueOptions where
  durable : Bool
  deadLetterExchange : Option String := none
  deadLetterRoutingKey : Option String := none

/-- `amqplib` sends an x-argument for every option that is not undefined. -/
def AssertQueueOptions.arguments (options : AssertQueueOptions) : Arguments :=
  (options.deadLetterExchange.map fun x => ("x-dead-letter-exchange", .text x)).toList ++
    (options.deadLetterRoutingKey.map fun x => ("x-dead-letter-routing-key", .text x)).toList

def assertExchange (exchange type : String) (durable : Bool) : Declaration :=
  .exchange { name := exchange, type := type, durable := durable }

def assertQueue (queue : String) (options : AssertQueueOptions) : Declaration :=
  .queue { name := queue, durable := options.durable, arguments := options.arguments }

def bindQueue (queue source pattern : String) : Declaration :=
  .binding { queue := queue, exchange := source, routingKey := pattern }

/-- The four steps of `setupTopology`. -/
inductive TopologyStep where
  | exchange | deadLetterQueue | workQueue | binding
  deriving DecidableEq

namespace TopologyStep

def declaration : TopologyStep → Declaration
  | exchange => assertExchange TALENTFLOW_EVENTS_EXCHANGE "topic" true
  | deadLetterQueue => assertQueue CV_PARSING_DLQ { durable := true }
  | workQueue => assertQueue CV_PROCESSING_QUEUE
      { durable := true, deadLetterExchange := some "", deadLetterRoutingKey := some CV_PARSING_DLQ }
  | binding => bindQueue CV_PROCESSING_QUEUE TALENTFLOW_EVENTS_EXCHANGE ROUTING_KEY_CV_UPLOADED

def all : List TopologyStep := [exchange, deadLetterQueue, workQueue, binding]

end TopologyStep

/-! ## The CV parser -/

namespace RabbitMqConfig

def EXCHANGE_NAME : String := "talentflow.events"
def CV_PARSER_QUEUE : String := "cv_parser.jobs"
def CV_PARSER_DLQ : String := "cv_parser.jobs.dlq"
def ROUTING_KEY_CV_UPLOADED : String := "cv.uploaded"

/-- 24 hours in milliseconds -/
def MESSAGE_TTL : Int := 86400000

def talentflowEventsExchange : Exchange where
  name := EXCHANGE_NAME
  type := "topic"
  durable := true

def cvParserQueue : QueueDeclaration where
  name := CV_PARSER_QUEUE
  durable := true
  arguments :=
    [("x-dead-letter-exchange", .text ""), ("x-dead-letter-routing-key", .text CV_PARSER_DLQ),
      ("x-message-ttl", .number MESSAGE_TTL)]

def cvParserDeadLetterQueue : QueueDeclaration where
  name := CV_PARSER_DLQ
  durable := true

def cvUploadedBinding (cvParserQueue : QueueDeclaration) (talentflowEventsExchange : Exchange) :
    Binding where
  queue := cvParserQueue.name
  exchange := talentflowEventsExchange.name
  routingKey := ROUTING_KEY_CV_UPLOADED

/-- What Spring declares for the beans: exchanges, then queues, then bindings. -/
def declarations : List Declaration :=
  [.exchange talentflowEventsExchange, .queue cvParserQueue, .queue cvParserDeadLetterQueue,
    .binding (cvUploadedBinding cvParserQueue talentflowEventsExchange)]

end RabbitMqConfig

/-! ## The broker -/

inductive Refusal where
  | preconditionFailed
  | notFound
  deriving DecidableEq

/-- The same x-arguments, in whatever order. -/
def SameArguments (a b : Arguments) : Prop :=
  ∀ k ∈ a.map Prod.fst ++ b.map Prod.fst, a.lookup k = b.lookup k

instance (a b : Arguments) : Decidable (SameArguments a b) :=
  inferInstanceAs (Decidable (∀ _ ∈ _, _))

/-- An exchange may be declared again like this. -/
def Exchange.Equivalent (e e' : Exchange) : Prop := e.type = e'.type ∧ e.durable = e'.durable

/-- A queue may be declared again like this. -/
def QueueDeclaration.Equivalent (q q' : QueueDeclaration) : Prop :=
  q.durable = q'.durable ∧ SameArguments q.arguments q'.arguments

instance (e e' : Exchange) : Decidable (e.Equivalent e') := inferInstanceAs (Decidable (_ ∧ _))

instance (q q' : QueueDeclaration) : Decidable (q.Equivalent q') :=
  inferInstanceAs (Decidable (_ ∧ _))

structure Broker where
  exchange : String → Option Exchange := fun _ => none
  queue : String → Option QueueDeclaration := fun _ => none
  bindings : List Binding := []

def Broker.declare (b : Broker) : Declaration → Except Refusal Broker
  | .exchange e =>
    match b.exchange e.name with
    | none => .ok { b with exchange := Function.update b.exchange e.name (some e) }
    | some e' => if e'.Equivalent e then .ok b else .error .preconditionFailed
  | .queue q =>
    match b.queue q.name with
    | none => .ok { b with queue := Function.update b.queue q.name (some q) }
    | some q' => if q'.Equivalent q then .ok b else .error .preconditionFailed
  | .binding x =>
    if (b.queue x.queue).isSome ∧ (b.exchange x.exchange).isSome then
      .ok { b with bindings := if x ∈ b.bindings then b.bindings else b.bindings ++ [x] }
    else .error .notFound

/-- Two declarations of one object that differ in what may not differ. -/
def Declaration.Conflicts : Declaration → Declaration → Prop
  | .exchange e, .exchange e' => e.name = e'.name ∧ ¬ e.Equivalent e'
  | .queue q, .queue q' => q.name = q'.name ∧ ¬ q.Equivalent q'
  | _, _ => False

instance : ∀ d d', Decidable (Declaration.Conflicts d d')
  | .exchange _, .exchange _ => inferInstanceAs (Decidable (_ ∧ ¬ _))
  | .queue _, .queue _ => inferInstanceAs (Decidable (_ ∧ ¬ _))
  | .exchange _, .queue _ => .isFalse id
  | .exchange _, .binding _ => .isFalse id
  | .queue _, .exchange _ => .isFalse id
  | .queue _, .binding _ => .isFalse id
  | .binding _, _ => .isFalse id

/-- The broker has what is declared, like this. -/
def Broker.Has (b : Broker) : Declaration → Prop
  | .exchange e => ∃ e', b.exchange e.name = some e' ∧ e'.Equivalent e
  | .queue q => ∃ q', b.queue q.name = some q' ∧ q'.Equivalent q
  | .binding x => x ∈ b.bindings

/-- What a binding needs is there. -/
def Broker.Binds (b : Broker) (x : Binding) : Prop :=
  (b.queue x.queue).isSome ∧ (b.exchange x.exchange).isSome

theorem sameArguments_iff {a b : Arguments} :
    SameArguments a b ↔ ∀ k, a.lookup k = b.lookup k := by
  constructor
  · intro h k
    by_cases hk : k ∈ a.map Prod.fst ++ b.map Prod.fst
    · exact h k hk
    · simp only [List.mem_append, not_or] at hk
      have hnone : ∀ l : Arguments, k ∉ l.map Prod.fst → l.lookup k = none := by
        intro l hl
        rw [List.lookup_eq_none_iff]
        intro p hp
        simp only [bne_iff_ne, ne_eq]
        rintro rfl
        exact hl (List.mem_map_of_mem hp)
      rw [hnone a hk.1, hnone b hk.2]
  · intro h k _
    exact h k

theorem QueueDeclaration.Equivalent.refl (q : QueueDeclaration) : q.Equivalent q :=
  ⟨rfl, sameArguments_iff.mpr fun _ => rfl⟩

theorem QueueDeclaration.Equivalent.join {q q₁ q₂ : QueueDeclaration} (h₁ : q.Equivalent q₁)
    (h₂ : q.Equivalent q₂) : q₁.Equivalent q₂ := by
  refine ⟨h₁.1.symm.trans h₂.1, sameArguments_iff.mpr fun k => ?_⟩
  rw [← sameArguments_iff.mp h₁.2 k, sameArguments_iff.mp h₂.2 k]

theorem Exchange.Equivalent.refl (e : Exchange) : e.Equivalent e := ⟨rfl, rfl⟩

theorem Exchange.Equivalent.join {e e₁ e₂ : Exchange} (h₁ : e.Equivalent e₁)
    (h₂ : e.Equivalent e₂) : e₁.Equivalent e₂ :=
  ⟨h₁.1.symm.trans h₂.1, h₁.2.symm.trans h₂.2⟩

theorem not_conflicts_of_has {b : Broker} {d d' : Declaration} (h : b.Has d) (h' : b.Has d') :
    ¬ d.Conflicts d' := by
  intro hc
  cases d with
  | exchange e =>
    cases d' with
    | exchange e' =>
      obtain ⟨x, hx, he⟩ := h
      obtain ⟨x', hx', he'⟩ := h'
      rw [hc.1, hx'] at hx
      cases hx
      exact hc.2 (he.join he')
    | _ => exact hc
  | queue q =>
    cases d' with
    | queue q' =>
      obtain ⟨x, hx, hq⟩ := h
      obtain ⟨x', hx', hq'⟩ := h'
      rw [hc.1, hx'] at hx
      cases hx
      exact hc.2 (hq.join hq')
    | _ => exact hc
  | binding x => exact hc

/-- What becomes of the broker when it accepts a declaration. -/
structure Broker.Accepts (b : Broker) (d : Declaration) (b' : Broker) : Prop where
  has : b'.Has d
  keeps : ∀ d', b.Has d' → b'.Has d'
  queue : ∀ n q, b'.queue n = some q → b.queue n = some q ∨ d = .queue q ∧ n = q.name
  exchange : ∀ n e, b'.exchange n = some e → b.exchange n = some e ∨ d = .exchange e ∧ n = e.name

/-- Why it does not. -/
inductive Broker.Refuses (b : Broker) : Declaration → Prop where
  | exchange (e e' : Exchange) (h : b.exchange e.name = some e') (hne : ¬ e'.Equivalent e) :
      b.Refuses (.exchange e)
  | queue (q q' : QueueDeclaration) (h : b.queue q.name = some q') (hne : ¬ q'.Equivalent q) :
      b.Refuses (.queue q)
  | binding (x : Binding) (h : ¬ b.Binds x) : b.Refuses (.binding x)

theorem accepts_again {b : Broker} {d : Declaration} (h : b.Has d) : b.Accepts d b :=
  ⟨h, fun _ => id, fun _ _ => .inl, fun _ _ => .inl⟩

theorem accepts_exchange {b : Broker} {e : Exchange} (h : b.exchange e.name = none) :
    b.Accepts (.exchange e)
      { b with exchange := Function.update b.exchange e.name (some e) } := by
  refine ⟨⟨e, by simp, .refl e⟩, fun d' hd' => ?_, fun n q hq => .inl hq, fun n e' he' => ?_⟩
  · cases d' with
    | exchange e₁ =>
      obtain ⟨x, hx, heq⟩ := hd'
      have hne : e₁.name ≠ e.name := fun heq => by simp [heq, h] at hx
      exact ⟨x, by simpa [hne] using hx, heq⟩
    | queue q => exact hd'
    | binding y => exact hd'
  · by_cases hn : n = e.name
    · subst hn
      simp only [Function.update_self, Option.some.injEq] at he'
      subst he'
      exact .inr ⟨rfl, rfl⟩
    · exact .inl (by simpa [hn] using he')

theorem accepts_queue {b : Broker} {q : QueueDeclaration} (h : b.queue q.name = none) :
    b.Accepts (.queue q) { b with queue := Function.update b.queue q.name (some q) } := by
  refine ⟨⟨q, by simp, .refl q⟩, fun d' hd' => ?_, fun n q' hq' => ?_, fun n e he => .inl he⟩
  · cases d' with
    | queue q₁ =>
      obtain ⟨x, hx, heq⟩ := hd'
      have hne : q₁.name ≠ q.name := fun heq => by simp [heq, h] at hx
      exact ⟨x, by simpa [hne] using hx, heq⟩
    | exchange e => exact hd'
    | binding y => exact hd'
  · by_cases hn : n = q.name
    · subst hn
      simp only [Function.update_self, Option.some.injEq] at hq'
      subst hq'
      exact .inr ⟨rfl, rfl⟩
    · exact .inl (by simpa [hn] using hq')

theorem accepts_binding (b : Broker) (x : Binding) :
    b.Accepts (.binding x)
      { b with bindings := if x ∈ b.bindings then b.bindings else b.bindings ++ [x] } := by
  refine ⟨?_, fun d' hd' => ?_, fun _ _ => .inl, fun _ _ => .inl⟩
  · simp only [Broker.Has]
    split <;> simp_all
  · cases d' with
    | binding y =>
      have hy : y ∈ b.bindings := hd'
      simp only [Broker.Has]
      split <;> simp [hy]
    | exchange e => exact hd'
    | queue q => exact hd'

theorem declare_cases (b : Broker) (d : Declaration) :
    (∃ b', b.declare d = .ok b' ∧ b.Accepts d b') ∨
      ∃ r, b.declare d = .error r ∧ b.Refuses d := by
  cases d with
  | exchange e =>
    simp only [Broker.declare]
    cases h : b.exchange e.name with
    | none => exact .inl ⟨_, rfl, accepts_exchange h⟩
    | some e' =>
      by_cases he : e'.Equivalent e
      · simp only [he, if_true]
        exact .inl ⟨b, rfl, accepts_again ⟨e', h, he⟩⟩
      · simp only [he, if_false]
        exact .inr ⟨_, rfl, .exchange e e' h he⟩
  | queue q =>
    simp only [Broker.declare]
    cases h : b.queue q.name with
    | none => exact .inl ⟨_, rfl, accepts_queue h⟩
    | some q' =>
      by_cases hq : q'.Equivalent q
      · simp only [hq, if_true]
        exact .inl ⟨b, rfl, accepts_again ⟨q', h, hq⟩⟩
      · simp only [hq, if_false]
        exact .inr ⟨_, rfl, .queue q q' h hq⟩
  | binding x =>
    by_cases h : b.Binds x
    · have hd : b.declare (.binding x) = .ok
          { b with bindings := if x ∈ b.bindings then b.bindings else b.bindings ++ [x] } := by
        simp only [Broker.declare]
        exact if_pos h
      exact .inl ⟨_, hd, accepts_binding b x⟩
    · have hd : b.declare (.binding x) = .error .notFound := by
        simp only [Broker.declare]
        exact if_neg h
      exact .inr ⟨_, hd, .binding x h⟩

/-! ## Starts of the services -/

inductive Side where
  | gateway
  | parser
  deriving DecidableEq

def Side.declarations : Side → List Declaration
  | gateway => TopologyStep.all.map TopologyStep.declaration
  | parser => RabbitMqConfig.declarations

abbrev BrokerApi : Interface := ⟨Declaration, fun _ => Unit, Refusal⟩

def declareAll : List Declaration → Prog BrokerApi Unit
  | [] => return ()
  | d :: ds => do
    Prog.await (I := BrokerApi) d
    declareAll ds

/-- Declarations of any number of starts, in any order. -/
def brokerMachine : Machine BrokerApi ℕ Broker Unit Empty where
  exec _ d _ b :=
    match b.declare d with
    | .ok b' => some (.ok (), b')
    | .error e => some (.error e, b)
  move m := nomatch m

/-- Start `i` is one of side `starts i`. -/
def startAll (starts : ℕ → Side) (i : ℕ) : Prog BrokerApi Unit :=
  declareAll (starts i).declarations

end TalentFlow.Queue
