import TalentFlow.Async.Stages
import TalentFlow.Gateway.QueueService

/-!
# Gateway.QueueStages

`QueueService` as a machine of stages: where a call of one of its methods can be suspended, and what
each segment between two `await`s does to the fields, the timers and the broker's connections.
`queueStages` proves that these are the segments of the programs in `Gateway.QueueService`.
-/

namespace TalentFlow.Queue

open Async

/-! ## Stages -/

/-- The two halves of an attempt. -/
inductive Part where
  | connect
  | setupTopology
  deriving DecidableEq

/-- Who awaits `safeCloseResources`. -/
inductive Closer where
  /-- the `catch` of `connectWithSetup` -/
  | attempt
  /-- `handleConnectionLost` -/
  | lost
  deriving DecidableEq

inductive Stage where
  | connecting (url : String) (options : ConnectionOptions)
  | opening (connection : Connection)
  /-- `connect` is over, and has created channel `own` -/
  | connected (own : Channel)
  | declaring (own : Channel) (step : TopologyStep) (on : Channel)
  /-- `setupTopology` is over -/
  | configured (own : Channel)
  /-- `connect` or `setupTopology` has rejected, and the `catch` is next -/
  | failing (part : Part) (e : Error)
  | closingChannel (closer : Closer) (channel : Option Channel) (connection : Option Connection)
  | closingConnection (closer : Closer) (connection : Option Connection)
  /-- `safeCloseResources` is over -/
  | closed (closer : Closer)
  /-- `safeCloseCurrentConnection` is over -/
  | cleaned
  | destroyingChannel (channel : Option Channel)
  | destroyingConnection (connection : Option Connection)
  | ended (outcome : Except Error Result)

def TopologyStep.next : TopologyStep → Option TopologyStep
  | exchange => some deadLetterQueue
  | deadLetterQueue => some workQueue
  | workQueue => some binding
  | binding => none

namespace QueueService

/-- What is left of `connect` when the connection is there. -/
def openOn (connection : Connection) : Prog Api Unit := do
  let channel ← call (.createChannel connection)
  setThis fun s => { s with channel := some channel }
  listen

/-- What is left of `connect` when the configuration has been checked. -/
def connectTo (url : String) (options : ConnectionOptions) : Prog Api Unit := do
  let connection ← call (.connect url options)
  setThis fun s => { s with connection := some connection }
  openOn connection

/-- What is left of `connect` when the configuration has been read. -/
def connectWith (config : QueueConfig) : Prog Api Unit :=
  match config.url with
  | .error e => throw e
  | .ok url => connectTo url config.connectionOptions

/-- `setupTopology` from one step on. -/
def declareFrom : TopologyStep → Prog Api Unit
  | .exchange => do
    declareStep .exchange
    declareStep .deadLetterQueue
    declareStep .workQueue
    declareStep .binding
  | .deadLetterQueue => do
    declareStep .deadLetterQueue
    declareStep .workQueue
    declareStep .binding
  | .workQueue => do
    declareStep .workQueue
    declareStep .binding
  | .binding => declareStep .binding

/-- What is left of `setupTopology` when one step has been sent. -/
def declared (step : TopologyStep) (on : Channel) : Prog Api Unit :=
  match step.next with
  | some step' => do
    call (.declare on step.declaration)
    declareFrom step'
  | none => call (.declare on step.declaration)

/-- What the `try` of `connectWithSetup` does after one of its halves. -/
def afterPart : Part → Prog Api Unit
  | .connect => do
    awaited setupTopology
    setThis fun s => { s with reconnectAttempt := 0 }
  | .setupTopology => setThis fun s => { s with reconnectAttempt := 0 }

/-- The `catch` of `connectWithSetup`, when this is left of `safeCloseCurrentConnection`. -/
def reconnectAfter (rest : Prog Api Unit) : Prog Api Unit := do
  awaited rest
  scheduleReconnect

/-- An attempt of whose half `part` this is left. -/
def attemptFrom (part : Part) (rest : Prog Api Unit) : Prog Api Result := do
  tryCatch
    (do
      rest
      afterPart part)
    fun _ => reconnectAfter safeCloseCurrentConnection
  return .done

/-- What is left when this is left of `safeCloseResources`. -/
def closeFrom : Closer → Prog Api Unit → Prog Api Result
  | .attempt, rest => do
    reconnectAfter (awaited rest)
    return .done
  | .lost, rest => do
    (do
      let _ ← (awaited rest).attempt
      scheduleReconnect)
    return .done

/-- The `try` of `onModuleDestroy`. -/
def destroyFrom (rest : Prog Api Unit) : Prog Api Result := do
  tryCatch rest fun _ => pure ()
  return .done

/-- What is left of `publishCvUploaded` when the channel is known. -/
def publishTo (channel : Channel) (event : CvUploadedEvent) : Prog Api Result := do
  (do
    let published ← call (.publish channel event)
    if published then return () else throw (.error "RabbitMQ outbound buffer full"))
  return .done

end QueueService

open Queue.QueueService

def Stage.prog : Stage → Prog Api Result
  | connecting url options => attemptFrom .connect (awaited (connectTo url options))
  | opening connection => attemptFrom .connect (awaited (openOn connection))
  | connected _ => attemptFrom .connect (call (.promise (.ok ())))
  | declaring _ step on => attemptFrom .setupTopology (awaited (declared step on))
  | configured _ => attemptFrom .setupTopology (call (.promise (.ok ())))
  | failing part e => attemptFrom part (call (.promise (.error e)))
  | closingChannel closer channel connection =>
    closeFrom closer (safeCloseResources channel connection)
  | closingConnection closer connection =>
    closeFrom closer (tryCatch (closeConnection connection) fun _ => pure ())
  | closed closer => closeFrom closer (pure ())
  | cleaned => do
    reconnectAfter (pure ())
    return .done
  | destroyingChannel channel => destroyFrom do
      closeChannel channel
      let self ← this
      closeConnection self.connection
      let _ ← cleanupConnectionState
  | destroyingConnection connection => destroyFrom do
      closeConnection connection
      let _ ← cleanupConnectionState
  | ended (.ok r) => .ret r
  | ended (.error e) => .throw e

/-! ## Segments -/

namespace World

def setThis (w : World) (f : Service → Service) : World := { w with this := f w.this }

/-- A `connect()` resolves. -/
def obtain (w : World) : World :=
  { w with opened := w.opened + 1, this := { w.this with connection := some w.opened } }

/-- A `createChannel()` resolves; the listeners go to what is `this.connection`. -/
def openChannel (w : World) (connection : Connection) : World :=
  { w with
    channels := w.channels + 1
    this := { w.this with channel := some ⟨w.channels, connection⟩ }
    listening := w.listening ++ w.this.connection.toList }

/-- `cleanupConnectionState` -/
def cleanUp (w : World) : World :=
  { w with this := { w.this with channel := none, connection := none } }

/-- `channel?.close()` -/
def closeChannel (w : World) (channel : Option Channel) : World :=
  { w with closedChannels := w.closedChannels ++ channel.toList }

/-- `connection?.close()` -/
def closeConnection (w : World) (connection : Option Connection) : World :=
  { w with closed := w.closed ++ connection.toList }

@[simp] theorem closeChannel_none (w : World) : w.closeChannel none = w := by
  simp [closeChannel]

@[simp] theorem closeConnection_none (w : World) : w.closeConnection none = w := by
  simp [closeConnection]

/-- `scheduleReconnect` -/
def schedule (w : World) : World :=
  if w.this.isShuttingDown || w.this.reconnectTimer.isSome then w
  else
    let timer : Timer :=
      ⟨w.timersSet, w.config.delayMs w.this.reconnectAttempt (w.random w.draws)⟩
    { w with
      draws := w.draws + 1
      timers := w.timers ++ [timer]
      timersSet := w.timersSet + 1
      this := { w.this with
        reconnectAttempt := w.this.reconnectAttempt + 1, reconnectTimer := some timer } }

def shutDown (w : World) : World :=
  { w with
    timers := w.this.reconnectTimer.elim w.timers w.timers.erase
    this := { w.this with isShuttingDown := true, reconnectTimer := none } }

end World

/-- The topology step is asserted on what is `this.channel`. -/
def World.declareNext (w : World) (own : Channel) (step : TopologyStep) : Stage :=
  match w.this.channel with
  | some on => .declaring own step on
  | none => .failing .setupTopology .typeError

/-- `safeCloseResources` begins, on what the fields have held. -/
def World.takeDown (w : World) (closer : Closer) : Stage × World :=
  (.closingChannel closer w.this.channel w.this.connection,
    w.cleanUp.closeChannel w.this.channel)

def World.attempt (w : World) : Stage :=
  match w.config.url with
  | .error e => .failing .connect e
  | .ok url => .connecting url w.config.connectionOptions

def Stage.begin : Trigger → World → Option (Stage × World)
  | .init, w => if w.initialised then none else some (w.attempt, { w with initialised := true })
  | .timer t, w =>
    if t ∈ w.timers then
      some (w.attempt, { w with
        timers := w.timers.erase t, this := { w.this with reconnectTimer := none } })
    else none
  | .lost connection, w =>
    if connection ∈ w.listening then
      if w.this.isShuttingDown then some (.ended (.ok .done), w) else some (w.takeDown .lost)
    else none
  | .publish event full, w =>
    match w.this.channel with
    | none => some (.ended (.error (.error "RabbitMQ channel not initialized")), { w with full })
    | some channel =>
      some (.ended (if channel ∈ w.closedChannels then .error .amqp
          else if full then .error (.error "RabbitMQ outbound buffer full") else .ok .done),
        { w with full, published := w.published ++ [(channel, event)] })
  | .health, w =>
    some (.ended (.ok (.healthy (w.this.connection.isSome && w.this.channel.isSome))), w)
  | .destroy, w =>
    if w.initialised ∧ w.this.isShuttingDown = false then
      some (.destroyingChannel w.this.channel, w.shutDown.closeChannel w.this.channel)
    else none

/-- How the `close()` of something, or the `await` of nothing, is answered. -/
def closeAnswer {α : Type} (x : Option α) (ok : Bool) : Except Error Unit :=
  if ok || x.isNone then .ok () else .error .amqp

def channelClosed (channel : Option Channel) (ok : Bool) : Answered Api :=
  match channel with
  | some ch => ⟨.closeChannel ch, closeAnswer channel ok⟩
  | none => ⟨.promise (.ok ()), .ok ()⟩

def connectionClosed (connection : Option Connection) (ok : Bool) : Answered Api :=
  match connection with
  | some c => ⟨.closeConnection c, closeAnswer connection ok⟩
  | none => ⟨.promise (.ok ()), .ok ()⟩

/-- A promise of an asynchronous function that is over. -/
def settled (outcome : Except Error Unit) : Answered Api := ⟨.promise outcome, outcome⟩

def Stage.next : Stage → Bool → World → Option (Answered Api × Stage × World)
  | connecting url options, true, w =>
    some (⟨.connect url options, .ok w.opened⟩, opening w.opened, w.obtain)
  | connecting url options, false, w =>
    some (⟨.connect url options, .error .amqp⟩, failing .connect .amqp, w)
  | opening c, true, w =>
    some (⟨.createChannel c, .ok ⟨w.channels, c⟩⟩,
      if w.this.connection.isSome then connected ⟨w.channels, c⟩ else failing .connect .typeError,
      w.openChannel c)
  | opening c, false, w => some (⟨.createChannel c, .error .amqp⟩, failing .connect .amqp, w)
  | connected own, _, w =>
    some (settled (.ok ()),
      if w.this.channel.isNone then failing .setupTopology (.error "Channel not initialized")
      else w.declareNext own .exchange, w)
  | declaring own step on, true, w =>
    some (⟨.declare on step.declaration, .ok ()⟩,
      match step.next with
      | some step' => w.declareNext own step'
      | none => configured own, w)
  | declaring _ step on, false, w =>
    some (⟨.declare on step.declaration, .error .amqp⟩, failing .setupTopology .amqp, w)
  | configured _, _, w =>
    some (settled (.ok ()), ended (.ok .done), w.setThis fun s => { s with reconnectAttempt := 0 })
  | failing _ e, _, w => some (settled (.error e), w.takeDown .attempt)
  | closingChannel closer channel connection, ok, w =>
    some (channelClosed channel ok, closingConnection closer connection,
      w.closeConnection connection)
  | closingConnection closer connection, ok, w =>
    some (connectionClosed connection ok, closed closer, w)
  | closed .attempt, _, w => some (settled (.ok ()), cleaned, w)
  | closed .lost, _, w => some (settled (.ok ()), ended (.ok .done), w.schedule)
  | cleaned, _, w => some (settled (.ok ()), ended (.ok .done), w.schedule)
  | destroyingChannel channel, ok, w =>
    some (if ok || channel.isNone then
      (channelClosed channel ok, destroyingConnection w.this.connection,
        w.closeConnection w.this.connection)
      else (channelClosed channel ok, ended (.ok .done), w))
  | destroyingConnection connection, ok, w =>
    some (connectionClosed connection ok, ended (.ok .done),
      if ok || connection.isNone then w.cleanUp else w)
  | ended _, _, _ => none

def closeChannelCall : Option Channel → Call
  | some channel => .closeChannel channel
  | none => .promise (.ok ())

def closeConnectionCall : Option Connection → Call
  | some connection => .closeConnection connection
  | none => .promise (.ok ())

def Stage.call? : Stage → Option Call
  | connecting url options => some (.connect url options)
  | opening connection => some (.createChannel connection)
  | connected _ => some (.promise (.ok ()))
  | declaring _ step on => some (.declare on step.declaration)
  | configured _ => some (.promise (.ok ()))
  | failing _ e => some (.promise (.error e))
  | closingChannel _ channel _ => some (closeChannelCall channel)
  | closingConnection _ connection => some (closeConnectionCall connection)
  | closed _ => some (.promise (.ok ()))
  | cleaned => some (.promise (.ok ()))
  | destroyingChannel channel => some (closeChannelCall channel)
  | destroyingConnection connection => some (closeConnectionCall connection)
  | ended _ => none

theorem prog_next? (st : Stage) : st.prog.next? = st.call? := by
  cases st with
  | declaring own step on => cases step <;> rfl
  | closingChannel closer channel connection => cases closer <;> cases channel <;> rfl
  | closingConnection closer connection => cases closer <;> cases connection <;> rfl
  | closed closer => cases closer <;> rfl
  | destroyingChannel channel => cases channel <;> rfl
  | destroyingConnection connection => cases connection <;> rfl
  | ended outcome => cases outcome <;> rfl
  | _ => rfl

/-! ## The stages are those of the programs -/

/-- An attempt runs up to `connect()`, or fails for want of a URL. -/
theorem settle_attempt (w : World) :
    queueLoop.settle (connectWithSetup >>= fun _ => return .done) w = (w.attempt.prog, w) := by
  have hconfig : queueLoop.settle (connectWithSetup >>= fun _ => return .done) w =
      queueLoop.settle (attemptFrom .connect (awaited (connectWith w.config))) w := rfl
  rw [hconfig]
  unfold connectWith World.attempt
  cases w.config.url <;> rfl

/-- A task that the trigger starts is, when it first waits or ends, at the stage `Stage.begin`. -/
def BeginsAs (t : Trigger) (w : World) : Prop :=
  (queueLoop.trigger t w).map (fun wp => queueLoop.settle wp.2 wp.1) =
    (Stage.begin t w).map fun x => (x.1.prog, x.2)

theorem begins_init (w : World) : BeginsAs .init w := by
  unfold BeginsAs
  cases hw : w.initialised with
  | true => simp [queueLoop, Trigger.begin, Stage.begin, hw]
  | false =>
    have ht : queueLoop.trigger .init w =
        some ({ w with initialised := true }, onModuleInit >>= fun _ => return .done) := by
      simp [queueLoop, Trigger.begin, hw]
    have hb : Stage.begin .init w = some (w.attempt, { w with initialised := true }) := by
      simp [Stage.begin, hw]
    rw [ht, hb]
    exact congrArg some (settle_attempt { w with initialised := true })

theorem begins_timer (t : Timer) (w : World) : BeginsAs (.timer t) w := by
  unfold BeginsAs
  by_cases ht : t ∈ w.timers
  · have h := settle_attempt { w with
      timers := w.timers.erase t, this := { w.this with reconnectTimer := none } }
    have hb : Stage.begin (.timer t) w = some (w.attempt, { w with
        timers := w.timers.erase t, this := { w.this with reconnectTimer := none } }) := by
      simp [Stage.begin, ht]
    have ht : queueLoop.trigger (.timer t) w = some ({ w with timers := w.timers.erase t },
        onReconnectTimer >>= fun _ => return .done) := by
      simp [queueLoop, Trigger.begin, ht]
    rw [ht, hb]
    exact congrArg some h
  · simp [queueLoop, Trigger.begin, Stage.begin, ht]

theorem begins_lost (c : Connection) (w : World) : BeginsAs (.lost c) w := by
  unfold BeginsAs
  by_cases hc : c ∈ w.listening
  · have ht : queueLoop.trigger (.lost c) w =
        some (w, handleConnectionLost >>= fun _ => return .done) := by
      simp [queueLoop, Trigger.begin, hc]
    rw [ht]
    simp only [Stage.begin, hc, if_true, World.takeDown]
    obtain ⟨config, ⟨connection, channel, timer, attempt, down⟩⟩ := w
    cases channel with
    | none =>
      simp only [World.closeChannel_none]
      cases down <;> rfl
    | some ch => cases down <;> rfl
  · simp [queueLoop, Trigger.begin, Stage.begin, hc]

theorem begins_publish (e : CvUploadedEvent) (full : Bool) (w : World) :
    BeginsAs (.publish e full) w := by
  unfold BeginsAs
  cases hc : w.this.channel with
  | none =>
    obtain ⟨config, ⟨connection, channel, timer, attempt, down⟩⟩ := w
    cases hc
    rfl
  | some ch =>
    have hsync : queueLoop.sync (.publish ch e) { w with full := full } =
        some (if ch ∈ w.closedChannels then .error .amqp else .ok (!full),
          { w with full := full, published := w.published ++ [(ch, e)] }) := rfl
    have hsettle : queueLoop.settle (publishCvUploaded e >>= fun _ => return .done)
          { w with full := full } =
        queueLoop.settle (publishTo ch e) { w with full := full } := by
      obtain ⟨config, ⟨connection, channel, timer, attempt, down⟩⟩ := w
      cases hc
      rfl
    have ht : queueLoop.trigger (.publish e full) w =
        some ({ w with full := full }, publishCvUploaded e >>= fun _ => return .done) := rfl
    have hb : Stage.begin (.publish e full) w =
        some (.ended (if ch ∈ w.closedChannels then .error .amqp
            else if full then .error (.error "RabbitMQ outbound buffer full") else .ok .done),
          { w with full := full, published := w.published ++ [(ch, e)] }) := by
      simp only [Stage.begin, hc]
    rw [ht, hb, Option.map_some, hsettle]
    refine congrArg some ((EventLoop.settle_sync hsync).trans ?_)
    by_cases hch : ch ∈ w.closedChannels
    · simp only [hch, if_true]
      rfl
    · simp only [hch, if_false]
      cases full <;> rfl

theorem begins_destroy (w : World) : BeginsAs .destroy w := by
  unfold BeginsAs
  by_cases hw : w.initialised ∧ w.this.isShuttingDown = false
  · have ht : queueLoop.trigger .destroy w =
        some (w, onModuleDestroy >>= fun _ => return .done) := by
      simp [queueLoop, Trigger.begin, hw]
    have hb : Stage.begin .destroy w =
        some (.destroyingChannel w.this.channel,
          w.shutDown.closeChannel w.this.channel) := by
      simp [Stage.begin, hw]
    rw [ht, hb]
    obtain ⟨config, ⟨connection, channel, timer, attempt, down⟩⟩ := w
    cases channel with
    | none =>
      simp only [World.closeChannel_none]
      cases timer <;> rfl
    | some ch => cases timer <;> rfl
  · simp only [queueLoop, Trigger.begin, Stage.begin, hw, if_false, Option.map_none]

theorem begin_eq (t : Trigger) (w : World) :
    (queueLoop.trigger t w).map (fun wp => queueLoop.settle wp.2 wp.1) =
      (Stage.begin t w).map fun x => (x.1.prog, x.2) := by
  cases t with
  | init => exact begins_init w
  | timer t => exact begins_timer t w
  | lost c => exact begins_lost c w
  | publish e full => exact begins_publish e full w
  | health => rfl
  | destroy => exact begins_destroy w

theorem next_eq (st : Stage) (ok : Bool) (w : World) :
    queueLoop.resume ok w st.prog = (st.next ok w).map fun x => (x.1, x.2.1.prog, x.2.2) := by
  obtain ⟨config, ⟨connection, channel, timer, attempt, down⟩, random, draws, timers, set, opened,
    channels, closed, closedChannels, listening, full, published, initialised⟩ := w
  cases st with
  | connecting url options => cases ok <;> rfl
  | opening c =>
    cases ok with
    | false => rfl
    | true =>
      cases connection with
      | none =>
        simp only [Stage.next, World.openChannel, Option.toList_none, List.append_nil]
        rfl
      | some c' => rfl
  | connected own => cases channel <;> rfl
  | declaring own step on => cases step <;> cases ok <;> cases channel <;> rfl
  | configured own => rfl
  | failing part e =>
    cases channel with
    | none =>
      simp only [Stage.next, World.takeDown, World.closeChannel_none]
      cases part <;> rfl
    | some ch => cases part <;> rfl
  | closingChannel closer ch c =>
    cases c with
    | none =>
      simp only [Stage.next, World.closeConnection_none]
      cases closer <;> cases ch <;> cases ok <;> rfl
    | some c => cases closer <;> cases ch <;> cases ok <;> rfl
  | closingConnection closer c => cases closer <;> cases c <;> cases ok <;> rfl
  | closed closer => cases closer <;> cases down <;> cases timer <;> rfl
  | cleaned => cases down <;> cases timer <;> rfl
  | destroyingChannel ch =>
    cases connection with
    | none =>
      simp only [Stage.next, World.closeConnection_none]
      cases ch <;> cases ok <;> rfl
    | some c => cases ch <;> cases ok <;> rfl
  | destroyingConnection c => cases c <;> cases ok <;> rfl
  | ended r => cases r <;> rfl

def queueStages : Staging queueLoop Stage where
  prog := Stage.prog
  begin := Stage.begin
  next := Stage.next
  begin_eq := begin_eq
  next_eq := next_eq

abbrev StagedState : Type := Staged Api ℕ World Trigger Stage

def StagedState.initial (config : QueueConfig) (random : ℕ → ℚ) : StagedState :=
  { world := { config, random } }

/-- A run of the service is a run of its stages. -/
theorem run_stages {config : QueueConfig} {random : ℕ → ℚ} {ls : List Label} {s : State}
    (h : queueLoop.run ls (State.initial config random) = some s) :
    ∃ σ, queueStages.run ls (StagedState.initial config random) = some σ ∧
      queueStages.state σ = s :=
  Staging.run_staged (σ := StagedState.initial config random) h

theorem state_task {σ : StagedState} {i : ℕ} {t : Trigger} {st : Stage}
    (hi : σ.stages i = some (t, st)) :
    (queueStages.state σ).tasks i = some ⟨t, st.prog⟩ := by
  simp only [Staging.state, hi, Option.map_some]
  rfl

theorem state_awaits {σ : StagedState} {i : ℕ} {t : Trigger} {st : Stage}
    (h : σ.stages i = some (t, st)) : (queueStages.state σ).awaits i = st.call? := by
  rw [Staging.state_awaits, h]
  exact prog_next? st

end TalentFlow.Queue
