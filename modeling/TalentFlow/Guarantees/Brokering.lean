import TalentFlow.Guarantees.Delivery
import TalentFlow.Guarantees.Publishing

/-!
# Guarantees.Brokering

The two models of publishing. Requests publish by one call, on a channel that is there or not, is
full or not, and can come and go at any time; `QueueService` has the connections, the timers, the
topology and the shutdown behind it. Whatever `QueueService` does, who publishes sees what a request
sees on such a channel: what holds of requests in every run of the gateway holds of them over
`QueueService`.

* `Follows`: the relation between a state of `QueueService` and one of the gateway.
* `follows_step`: what the gateway does for a step of `QueueService`.
* `publishing_refines`: runs.
-/

namespace TalentFlow.Queue

open Async

/-- A request is answered as the task of `QueueService` ends. -/
inductive Sees : Except Error Result → Except Exception Unit → Prop where
  | done : Sees (.ok .done) (.ok ())
  | error (message : String) : Sees (.error (.error message)) (.error (.error message))
  | amqp : Sees (.error .amqp) (.error .amqp)

/-- The request that publishes what the task publishes; none if the task does something else. -/
def publisher : Option (Task Api Trigger Result) → Prog TalentFlow.Api Unit
  | some ⟨.publish event _, _⟩ => TalentFlow.QueueService.publishCvUploaded event
  | _ => pure ()

abbrev Requests : Type := Config TalentFlow.Api ℕ TalentFlow.World Unit

/-- The requests are where the tasks are, `w` being the world they began in. -/
structure Follows (pool : ℕ → Prog TalentFlow.Api Unit) (w : TalentFlow.World) (q : World)
    (stages : ℕ → Option (Trigger × Stage)) (cfg : Requests) : Prop where
  channel : cfg.world.channel.isSome = q.this.channel.isSome
  rest : ∃ channel, cfg.world = { w with channel := channel }
  messages : cfg.world.messages.Sublist (w.messages ++ q.published.map Prod.snd)
  waiting : ∀ i, stages i = none → cfg.pool i = pool i
  ended : ∀ i event full st, stages i = some (.publish event full, st) →
    ∃ o o', st = .ended o ∧ cfg.outcome? i = some o' ∧ Sees o o'

section Steps

variable {pool : ℕ → Prog TalentFlow.Api Unit} {w : TalentFlow.World} {q q' : World}
  {stages : ℕ → Option (Trigger × Stage)} {σ σ' : StagedState} {cfg : Requests} {l : Label} {i : ℕ}

theorem exists_channel (cfg : Requests) (b : Bool) :
    ∃ ls channel, gateway.run ls cfg = some { cfg with world := { cfg.world with channel } } ∧
      channel.isSome = b ∧
      ({ cfg.world with channel } : TalentFlow.World).messages.Sublist cfg.world.messages := by
  by_cases hb : cfg.world.channel.isSome = b
  · exact ⟨[], cfg.world.channel, rfl, hb, .refl _⟩
  · cases b with
    | true => exact ⟨[.move .channelOpened], some {}, rfl, rfl, by simp [TalentFlow.World.messages]⟩
    | false => exact ⟨[.move .channelLost], none, rfl, rfl, by simp [TalentFlow.World.messages]⟩

theorem follows_other (h : Follows pool w q stages cfg) (hpublished : q'.published = q.published)
    {t : Trigger} {st : Stage} (ht : ∀ event full, t ≠ .publish event full) :
    ∃ ls cfg', gateway.run ls cfg = some cfg' ∧
      Follows pool w q' (Function.update stages i (some (t, st))) cfg' := by
  obtain ⟨ls, channel, hrun, hsome, hmessages⟩ := exists_channel cfg q'.this.channel.isSome
  refine ⟨ls, _, hrun, hsome, ?_, ?_, fun j hj => ?_, fun j event full st' hj => ?_⟩
  · obtain ⟨channel₀, hworld⟩ := h.rest
    exact ⟨channel, by simp [hworld]⟩
  · rw [hpublished]
    exact hmessages.trans h.messages
  · refine h.waiting j ?_
    by_cases hji : j = i
    · subst hji
      simp at hj
    · rwa [Function.update_of_ne hji] at hj
  · by_cases hji : j = i
    · subst hji
      rw [Function.update_self] at hj
      cases hj
      exact absurd rfl (ht event full)
    · rw [Function.update_of_ne hji] at hj
      exact h.ended j event full st' hj

def publishOutcome (event : CvUploadedEvent) : TalentFlow.Api.Answer (.publish event) →
    Except Exception Unit
  | .ok none => .error (.error "RabbitMQ channel not initialized")
  | .ok (some true) => .ok ()
  | .ok (some false) => .error (.error "RabbitMQ outbound buffer full")
  | .error e => .error e

theorem publish_step {event : CvUploadedEvent} {ch : Choice} {w' : TalentFlow.World}
    {a : TalentFlow.Api.Answer (.publish event)}
    (hp : cfg.pool i = TalentFlow.QueueService.publishCvUploaded event)
    (hx : gateway.exec i (.publish event) ch cfg.world = some (a, w')) :
    ∃ cfg', gateway.step (.run i ch) cfg = some cfg' ∧ cfg'.world = w' ∧
      (∀ j, j ≠ i → cfg'.pool j = cfg.pool j) ∧ cfg'.outcome? i = some (publishOutcome event a) := by
  refine ⟨_, Machine.step_run hp hx, rfl, fun j hj => ?_, ?_⟩
  · exact Config.answered_pool_ne cfg i a _ w' hj
  · rw [Config.outcome?, Config.answered_pool_self]
    rcases a with e | _ | taken
    · rfl
    · rfl
    · cases taken <;> rfl

theorem follows_published (h : Follows pool w q stages cfg) {event : CvUploadedEvent} {full : Bool}
    {o : Except Error Result} {o' : Except Exception Unit} {cfg' : Requests}
    {channel : Option TalentFlow.Channel}
    (hworld : cfg'.world = { cfg.world with channel := channel })
    (hchannel : channel.isSome = q'.this.channel.isSome)
    (hmessages : cfg'.world.messages.Sublist (w.messages ++ q'.published.map Prod.snd))
    (hothers : ∀ j, j ≠ i → cfg'.pool j = cfg.pool j) (hout : cfg'.outcome? i = some o')
    (hsees : Sees o o') :
    Follows pool w q' (Function.update stages i (some (.publish event full, .ended o))) cfg' where
  channel := by rw [hworld, ← hchannel]
  rest := by
    obtain ⟨channel₀, hrest⟩ := h.rest
    exact ⟨channel, by rw [hworld, hrest]⟩
  messages := hmessages
  waiting j hj := by
    have hji : j ≠ i := by
      rintro rfl
      simp at hj
    rw [Function.update_of_ne hji] at hj
    rw [hothers j hji, h.waiting j hj]
  ended j event' full' st' hj := by
    by_cases hji : j = i
    · subst hji
      rw [Function.update_self] at hj
      cases hj
      exact ⟨o, o', rfl, hout, hsees⟩
    · rw [Function.update_of_ne hji] at hj
      obtain ⟨o₁, o₂, hst, hout₁, hsees₁⟩ := h.ended j event' full' st' hj
      refine ⟨o₁, o₂, hst, ?_, hsees₁⟩
      rw [Config.outcome?, hothers j hji]
      exact hout₁

/-- What the request does for a task that publishes. -/
theorem follows_publish (h : Follows pool w q stages cfg) {event : CvUploadedEvent} {full : Bool}
    {st : Stage} (hi : stages i = none)
    (hpool : pool i = TalentFlow.QueueService.publishCvUploaded event)
    (hb : Stage.begin (.publish event full) q = some (st, q')) :
    ∃ ls cfg', gateway.run ls cfg = some cfg' ∧
      Follows pool w q' (Function.update stages i (some (.publish event full, st))) cfg' := by
  have hp := (h.waiting i hi).trans hpool
  have hsome := h.channel
  simp only [Stage.begin] at hb
  split at hb
  · next hnone =>
    cases hb
    have hcfg : cfg.world.channel = none := by simpa [hnone] using hsome
    have hx : gateway.exec i (.publish event) {} cfg.world = some (.ok none, cfg.world) := by
      simp [gateway, Call.exec, hcfg]
    obtain ⟨cfg', hstep, hworld, hothers, hout⟩ := publish_step hp hx
    refine ⟨[.run i {}], cfg', Machine.run_cons.mpr ⟨_, hstep, rfl⟩, ?_⟩
    have hkept : cfg'.world = { cfg.world with channel := cfg.world.channel } := hworld
    refine follows_published h hkept h.channel ?_ hothers hout (.error _)
    rw [hworld]
    exact h.messages
  · next channel hchannel =>
    cases hb
    obtain ⟨chan, hcfg⟩ : ∃ chan, cfg.world.channel = some chan := by
      rw [← Option.isSome_iff_exists, hsome, hchannel]
      rfl
    -- the world decides first whether the channel is full
    let cfg₁ : Requests := { cfg with world := { cfg.world with channel := some { chan with full } } }
    have hp₁ : cfg₁.pool i = TalentFlow.QueueService.publishCvUploaded event := hp
    have hfull : gateway.step (.move (.setFull full)) cfg = some cfg₁ := by
      simp [Machine.step, gateway, TalentFlow.World.move, hcfg, cfg₁]
    have hmessages₁ : cfg₁.world.messages = cfg.world.messages := by
      simp [TalentFlow.World.messages, hcfg, cfg₁]
    have hgrown : (cfg.world.messages ++ [event]).Sublist
        (w.messages ++ (q.published ++ [(channel, event)]).map Prod.snd) := by
      rw [List.map_append, ← List.append_assoc]
      exact h.messages.append (.refl _)
    split
    · -- the channel is closed: `publish` throws
      have hx : gateway.exec i (.publish event) { fails := true } cfg₁.world =
          some (.error .amqp, cfg₁.world) := rfl
      obtain ⟨cfg', hstep, hworld, hothers, hout⟩ := publish_step hp₁ hx
      refine ⟨[.move (.setFull full), .run i { fails := true }], cfg',
        Machine.run_cons.mpr ⟨cfg₁, hfull, Machine.run_cons.mpr ⟨cfg', hstep, rfl⟩⟩, ?_⟩
      refine follows_published h hworld (by simp [hchannel]) ?_ hothers hout .amqp
      rw [hworld, hmessages₁]
      exact (List.sublist_append_left _ _).trans hgrown
    · have hx : gateway.exec i (.publish event) {} cfg₁.world = some (.ok (some (!full)),
          { cfg₁.world with channel := some ⟨full, chan.queued ++ [event]⟩ }) := by
        simp [gateway, Call.exec, cfg₁]
      obtain ⟨cfg', hstep, hworld, hothers, hout⟩ := publish_step hp₁ hx
      refine ⟨[.move (.setFull full), .run i {}], cfg',
        Machine.run_cons.mpr ⟨cfg₁, hfull, Machine.run_cons.mpr ⟨cfg', hstep, rfl⟩⟩, ?_⟩
      refine follows_published h hworld (by simp [hchannel]) ?_ hothers hout ?_
      · rw [hworld, messages_exec hx, hmessages₁]
        exact hgrown
      · cases full with
        | true => exact .error _
        | false => exact .done

/-- Each step of `QueueService` has steps of the gateway that lead to a state it is related to. -/
theorem follows_step (h : Follows pool w σ.world σ.stages cfg)
    (hs : queueStages.step l σ = some σ')
    (hl : ∀ i event full, l = .start i (.publish event full) →
      pool i = TalentFlow.QueueService.publishCvUploaded event) :
    ∃ ls cfg', gateway.run ls cfg = some cfg' ∧ Follows pool w σ'.world σ'.stages cfg' := by
  obtain ⟨i, t, st, q', rfl, hi, hb, rfl⟩ | ⟨i, ok, t, st, a, st', q', rfl, hi, hn, rfl⟩ :=
    Staging.staged_cases hs
  · by_cases ht : ∃ event full, t = .publish event full
    · obtain ⟨event, full, rfl⟩ := ht
      exact follows_publish h hi (hl i event full rfl) hb
    · refine follows_other h ?_ fun event full heq => ht ⟨event, full, heq⟩
      obtain hsame | ⟨event, full, -, heq, -⟩ := published_begin hb
      · exact hsame
      · exact absurd ⟨event, full, heq⟩ ht
  · refine follows_other h (published_next hn) ?_
    -- a task that publishes is over after its first segment
    rintro event full rfl
    obtain ⟨o, -, rfl, -⟩ := h.ended i event full st hi
    cases hn

end Steps

/-! ## Runs -/

theorem origin_run {ls : List Label} {σ σ' : StagedState} (hrun : queueStages.run ls σ = some σ')
    {i : ℕ} {t : Trigger} (h : ∃ st, σ.stages i = some (t, st)) :
    ∃ st, σ'.stages i = some (t, st) := by
  refine Runs.run_induction (fun σ => ∃ st, σ.stages i = some (t, st))
    (fun {σ l σ'} h hs => ?_) h hrun
  obtain ⟨st, hst⟩ := h
  obtain ⟨j, t', st', q, rfl, hj, -, rfl⟩ | ⟨j, ch, t', st', a, st'', q, rfl, hj, -, rfl⟩ :=
    Staging.staged_cases hs
  · have hij : i ≠ j := by
      rintro rfl
      rw [hj] at hst
      cases hst
    exact ⟨st, (Function.update_of_ne hij ..).trans hst⟩
  · by_cases hij : i = j
    · subst hij
      rw [hj] at hst
      cases hst
      exact ⟨st'', Function.update_self ..⟩
    · exact ⟨st, (Function.update_of_ne hij ..).trans hst⟩

theorem follows_run {pool : ℕ → Prog TalentFlow.Api Unit} {w : TalentFlow.World} {ls : List Label}
    {σ σ' : StagedState} {cfg : Requests} (h : Follows pool w σ.world σ.stages cfg)
    (hrun : queueStages.run ls σ = some σ')
    (hpool : ∀ i event full, (∃ st, σ'.stages i = some (.publish event full, st)) →
      pool i = TalentFlow.QueueService.publishCvUploaded event) :
    ∃ ls' cfg', gateway.run ls' cfg = some cfg' ∧ Follows pool w σ'.world σ'.stages cfg' := by
  induction ls generalizing σ cfg with
  | nil =>
    cases hrun
    exact ⟨[], cfg, rfl, h⟩
  | cons l ls ih =>
    obtain ⟨σ₁, hs, hrest⟩ := Runs.run_cons.mp hrun
    have hl : ∀ i event full, l = .start i (.publish event full) →
        pool i = TalentFlow.QueueService.publishCvUploaded event := by
      rintro i event full rfl
      refine hpool i event full (origin_run hrest ?_)
      obtain ⟨j, t, st, q, hlabel, -, -, rfl⟩ | ⟨j, ok, t, st, a, st', q, hlabel, -⟩ :=
        Staging.staged_cases hs
      · cases hlabel
        exact ⟨st, Function.update_self ..⟩
      · cases hlabel
    obtain ⟨ls₁, cfg₁, hrun₁, h₁⟩ := follows_step h hs hl
    obtain ⟨ls₂, cfg₂, hrun₂, h₂⟩ := ih h₁ hrest
    exact ⟨ls₁ ++ ls₂, cfg₂, Machine.run_append.mpr ⟨cfg₁, hrun₁, hrun₂⟩, h₂⟩

theorem task_of_stages {σ : StagedState} {i : ℕ} {task : Task Api Trigger Result}
    (h : (queueStages.state σ).tasks i = some task) :
    ∃ st, σ.stages i = some (task.origin, st) ∧ task.prog = st.prog := by
  obtain ⟨⟨t, st⟩, hst, rfl⟩ := Option.map_eq_some_iff.mp h
  exact ⟨st, hst, rfl⟩

/-- Whatever `QueueService` does, in any order of its tasks and of what the broker does, there is a
run of the gateway in which a request publishes for each task that does, and is answered as that task
ends; the channel is there when `this.channel` is, and the messages that have arrived or are queued
have been handed to `channel.publish`, in that order. -/
theorem publishing_refines {config : QueueConfig} {random : ℕ → ℚ} {ls : List Label} {s : State}
    {w : TalentFlow.World} (hw : w.channel = none)
    (hrun : queueLoop.run ls (State.initial config random) = some s) :
    ∃ ls' cfg, gateway.run ls' (.start w fun i => publisher (s.tasks i)) = some cfg ∧
      (∀ i event full prog, s.tasks i = some ⟨.publish event full, prog⟩ →
        ∃ o o', prog.outcome? = some o ∧ cfg.outcome? i = some o' ∧ Sees o o') ∧
      cfg.world.channel.isSome = s.world.this.channel.isSome ∧
      cfg.world.messages.Sublist (w.messages ++ s.world.published.map Prod.snd) ∧
      ∃ channel, cfg.world = { w with channel := channel } := by
  obtain ⟨σ, hσrun, rfl⟩ := run_stages hrun
  have hstart : Follows (fun i => publisher ((queueStages.state σ).tasks i)) w
      (StagedState.initial config random).world (StagedState.initial config random).stages
      (.start w fun i => publisher ((queueStages.state σ).tasks i)) := by
    refine ⟨?_, ⟨none, ?_⟩, List.sublist_append_left _ _, fun _ _ => rfl,
      fun i event full st hi => by cases hi⟩
    · rw [Config.start_world, hw]
      rfl
    · rw [Config.start_world, ← hw]
  have hpool : ∀ i event full, (∃ st, σ.stages i = some (.publish event full, st)) →
      publisher ((queueStages.state σ).tasks i) =
        TalentFlow.QueueService.publishCvUploaded event := by
    rintro i event full ⟨st, hi⟩
    rw [state_task hi]
    rfl
  obtain ⟨ls', cfg, hrun', h⟩ := follows_run hstart hσrun hpool
  refine ⟨ls', cfg, hrun', fun i event full prog hi => ?_, h.channel, h.messages, h.rest⟩
  obtain ⟨st, hst, hprog⟩ := task_of_stages hi
  obtain ⟨o, o', rfl, hout, hsees⟩ := h.ended i event full st hst
  refine ⟨o, o', ?_, hout, hsees⟩
  dsimp only at hprog
  rw [hprog]
  cases o <;> rfl

/-- Cleo's upload is published before there is a channel, and again when the service is set up. -/
def earlyAndLate : List Label :=
  .start 1 (.publish cleosUpload false) :: initialise 0 ++ [.start 2 (.publish cleosUpload false)]

theorem publishing_refines_cleo :
    ∃ s, queueLoop.run earlyAndLate (State.initial localBroker fun _ => 0) = some s ∧
      ∃ ls' cfg, gateway.run ls' (.start { seeded with channel := none } fun i =>
          publisher (s.tasks i)) = some cfg ∧
        cfg.outcome? 1 = some (.error (.error "RabbitMQ channel not initialized")) ∧
        cfg.outcome? 2 = some (.ok ()) := by
  have h : (queueLoop.run earlyAndLate (State.initial localBroker fun _ => 0)).map (fun s =>
      ((s.tasks 1).map fun task => (task.origin, task.prog.outcome?),
        (s.tasks 2).map fun task => (task.origin, task.prog.outcome?))) =
      some (some (.publish cleosUpload false,
          some (.error (.error "RabbitMQ channel not initialized"))),
        some (.publish cleosUpload false, some (.ok .done))) := rfl
  obtain ⟨s, hrun, hs⟩ := Option.map_eq_some_iff.mp h
  obtain ⟨h₁, h₂⟩ := Prod.mk.inj hs
  obtain ⟨⟨t₁, p₁⟩, htask₁, heq₁⟩ := Option.map_eq_some_iff.mp h₁
  obtain ⟨⟨t₂, p₂⟩, htask₂, heq₂⟩ := Option.map_eq_some_iff.mp h₂
  obtain ⟨rfl, hout₁⟩ := Prod.mk.inj heq₁
  obtain ⟨rfl, hout₂⟩ := Prod.mk.inj heq₂
  obtain ⟨ls', cfg, hrun', hover, -⟩ :=
    publishing_refines (w := { seeded with channel := none }) rfl hrun
  refine ⟨s, hrun, ls', cfg, hrun', ?_, ?_⟩
  · obtain ⟨o, o', ho, ho', hsees⟩ := hover 1 cleosUpload false p₁ htask₁
    cases hout₁.symm.trans ho
    cases hsees
    exact ho'
  · obtain ⟨o, o', ho, ho', hsees⟩ := hover 2 cleosUpload false p₂ htask₂
    cases hout₂.symm.trans ho
    cases hsees
    exact ho'

end TalentFlow.Queue
