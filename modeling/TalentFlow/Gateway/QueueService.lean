import TalentFlow.Async.EventLoop
import TalentFlow.Gateway.Topology
import TalentFlow.Gateway.World
import Mathlib.Data.Rat.Floor

/-!
# Gateway.QueueService

`QueueService`: the connection to the broker, how it is set up, lost, closed and opened again, and
the calls that depend on it. Everything between two `await`s runs without interruption; reads and
writes of `this`, timers, listeners and `channel.publish` are calls that do not wait.

A connection or channel is the number of its opening. `amqplib` decides whether what it is asked
for resolves or rejects; a connection can emit `error` or `close` whenever it likes, and go on doing
so after it was closed.
-/

namespace TalentFlow.Queue

open Async

/-! ## Configuration -/

def DEFAULT_RECONNECT_INITIAL_DELAY_MS : ℕ := 1000
def DEFAULT_RECONNECT_MAX_DELAY_MS : ℕ := 30000
def DEFAULT_HEARTBEAT_SEC : ℕ := 30

inductive Error where
  | error (message : String)
  /-- a property of `null` was read -/
  | typeError
  | amqp
  deriving DecidableEq

/-- What `configService.get` answers. -/
structure QueueConfig where
  RABBITMQ_URL : Option String
  NODE_ENV : String := "development"
  TIMEOUT_MS : ℕ := 15000
  RABBITMQ_HEARTBEAT_SEC : ℕ := DEFAULT_HEARTBEAT_SEC
  RABBITMQ_RECONNECT_INITIAL_DELAY_MS : ℕ := DEFAULT_RECONNECT_INITIAL_DELAY_MS
  RABBITMQ_RECONNECT_MAX_DELAY_MS : ℕ := DEFAULT_RECONNECT_MAX_DELAY_MS

structure ConnectionOptions where
  timeout : ℕ
  heartbeat : ℕ

/-- The URL `connect` goes on with. -/
def QueueConfig.url (config : QueueConfig) : Except Error String :=
  match config.RABBITMQ_URL.filter (· ≠ "") with
  | none => .error (.error "RABBITMQ_URL environment variable is not defined")
  | some url =>
    if config.NODE_ENV = "production" ∧ ¬ url.toLower.startsWith "amqps://" then
      .error (.error "RABBITMQ_URL must use amqps:// in production")
    else .ok url

def QueueConfig.connectionOptions (config : QueueConfig) : ConnectionOptions where
  timeout := config.TIMEOUT_MS
  heartbeat := config.RABBITMQ_HEARTBEAT_SEC

/-- The delay of a reconnect after this many failed ones; `random` is what `Math.random` answers. -/
def QueueConfig.delayMs (config : QueueConfig) (reconnectAttempt : ℕ) (random : ℚ) : ℕ :=
  let baseDelayMs := min config.RABBITMQ_RECONNECT_MAX_DELAY_MS
    (config.RABBITMQ_RECONNECT_INITIAL_DELAY_MS * 2 ^ reconnectAttempt)
  let jitterMs := ⌊random * max 1 (baseDelayMs * (2 / 10 : ℚ))⌋.toNat
  min config.RABBITMQ_RECONNECT_MAX_DELAY_MS (baseDelayMs + jitterMs)

/-! ## State -/

/-- The connection that was opened as the n-th. -/
abbrev Connection : Type := ℕ

structure Channel where
  id : ℕ
  /-- the connection it was created on -/
  connection : Connection
  deriving DecidableEq

/-- A handle of `setTimeout`. -/
structure Timer where
  id : ℕ
  delayMs : ℕ
  deriving DecidableEq

/-- `this` -/
structure Service where
  connection : Option Connection := none
  channel : Option Channel := none
  reconnectTimer : Option Timer := none
  reconnectAttempt : ℕ := 0
  isShuttingDown : Bool := false

structure World where
  config : QueueConfig
  this : Service := {}
  /-- what `Math.random` is going to answer -/
  random : ℕ → ℚ := fun _ => 0
  draws : ℕ := 0
  /-- the timers that have neither fired nor been cleared -/
  timers : List Timer := []
  timersSet : ℕ := 0
  /-- how many connections and channels have been opened -/
  opened : ℕ := 0
  channels : ℕ := 0
  /-- what `close()` has been called on -/
  closed : List Connection := []
  closedChannels : List Channel := []
  /-- the connections whose `error` and `close` events are listened to -/
  listening : List Connection := []
  /-- `channel.publish` signals back-pressure -/
  full : Bool := false
  /-- the messages handed to `channel.publish` -/
  published : List (Channel × CvUploadedEvent) := []
  /-- `onModuleInit` has been called -/
  initialised : Bool := false

inductive Call where
  /-- reads `this` and writes it -/
  | update (f : Service → Service)
  | config
  | random
  | setTimeout (delayMs : ℕ)
  | clearTimeout (timer : Timer)
  /-- `connection.on` of both events -/
  | on (connection : Connection)
  | publish (channel : Channel) (event : CvUploadedEvent)
  | connect (url : String) (options : ConnectionOptions)
  | createChannel (connection : Connection)
  | declare (channel : Channel) (d : Declaration)
  | closeChannel (channel : Channel)
  | closeConnection (connection : Connection)
  /-- awaits what is settled already: the promise of an asynchronous function that is over -/
  | promise (outcome : Except Error Unit)

abbrev Call.Value : Call → Type
  | update _ => Service
  | config => QueueConfig
  | random => ℚ
  | setTimeout _ => Timer
  | clearTimeout _ => Unit
  | on _ => Unit
  | publish _ _ => Bool
  | connect _ _ => Connection
  | createChannel _ => Channel
  | declare _ _ => Unit
  | closeChannel _ => Unit
  | closeConnection _ => Unit
  | promise _ => Unit

abbrev Api : Interface := ⟨Call, Call.Value, Error⟩

def call (c : Call) : Prog Api c.Value := Prog.await (I := Api) c

def this : Prog Api Service := call (.update id)

def setThis (f : Service → Service) : Prog Api Unit := do
  let _ ← call (.update f)

/-- `await p()` of an asynchronous function: who awaits it goes on in a later turn. -/
def awaited (p : Prog Api Unit) : Prog Api Unit := do
  let outcome ← p.attempt
  call (.promise outcome)

/-! ## The service -/

namespace QueueService

/-- The assertion `this.channel.assert…(…)` of one step; `this.channel` is read anew each time. -/
def declareStep (step : TopologyStep) : Prog Api Unit := do
  let self ← this
  match self.channel with
  | some channel => call (.declare channel step.declaration)
  | none => throw .typeError

def setupTopology : Prog Api Unit := do
  let self ← this
  if self.channel.isNone then throw (.error "Channel not initialized")
  declareStep .exchange
  declareStep .deadLetterQueue
  declareStep .workQueue
  declareStep .binding

/-- The end of `connect`: the listeners go to what is `this.connection` by now. -/
def listen : Prog Api Unit := do
  let self ← this
  match self.connection with
  | some connection => call (.on connection)
  | none => throw .typeError

def connect : Prog Api Unit := do
  let config ← call .config
  match config.url with
  | .error e => throw e
  | .ok url =>
    let connection ← call (.connect url config.connectionOptions)
    setThis fun s => { s with connection := some connection }
    let channel ← call (.createChannel connection)
    setThis fun s => { s with channel := some channel }
    listen

def cleanupConnectionState : Prog Api (Option Channel × Option Connection) := do
  let self ← call (.update fun s => { s with channel := none, connection := none })
  return (self.channel, self.connection)

/-- `await channel?.close()` -/
def closeChannel : Option Channel → Prog Api Unit
  | some channel => call (.closeChannel channel)
  | none => call (.promise (.ok ()))

/-- `await connection?.close()` -/
def closeConnection : Option Connection → Prog Api Unit
  | some connection => call (.closeConnection connection)
  | none => call (.promise (.ok ()))

def safeCloseResources (channel : Option Channel) (connection : Option Connection) :
    Prog Api Unit := do
  tryCatch (closeChannel channel) fun _ => pure ()
  tryCatch (closeConnection connection) fun _ => pure ()

def safeCloseCurrentConnection : Prog Api Unit := do
  let (channel, connection) ← cleanupConnectionState
  awaited (safeCloseResources channel connection)

def scheduleReconnect : Prog Api Unit := do
  let self ← this
  if self.isShuttingDown || self.reconnectTimer.isSome then return ()
  let config ← call .config
  let random ← call .random
  setThis fun s => { s with reconnectAttempt := s.reconnectAttempt + 1 }
  let timer ← call (.setTimeout (config.delayMs self.reconnectAttempt random))
  setThis fun s => { s with reconnectTimer := some timer }

def connectWithSetup : Prog Api Unit :=
  tryCatch
    (do
      awaited connect
      awaited setupTopology
      setThis fun s => { s with reconnectAttempt := 0 })
    fun _ => do
      awaited safeCloseCurrentConnection
      scheduleReconnect

/-- Nothing follows its `await`. -/
def onModuleInit : Prog Api Unit := connectWithSetup

/-- The callback of the reconnect timer. -/
def onReconnectTimer : Prog Api Unit := do
  setThis fun s => { s with reconnectTimer := none }
  connectWithSetup

/-- The listener of both events of a connection; `finally` goes on however the closes end. -/
def handleConnectionLost : Prog Api Unit := do
  let self ← this
  if self.isShuttingDown then return ()
  let (channel, connection) ← cleanupConnectionState
  let _ ← (awaited (safeCloseResources channel connection)).attempt
  scheduleReconnect

def publishCvUploaded (event : CvUploadedEvent) : Prog Api Unit := do
  let self ← this
  match self.channel with
  | none => throw (.error "RabbitMQ channel not initialized")
  | some channel =>
    let published ← call (.publish channel event)
    if published then return () else throw (.error "RabbitMQ outbound buffer full")

def isHealthy : Prog Api Bool := do
  let self ← this
  return self.connection.isSome && self.channel.isSome

/-- The two closes share a `try`: a first one that rejects skips the second and the clean-up. -/
def onModuleDestroy : Prog Api Unit := do
  setThis fun s => { s with isShuttingDown := true }
  let self ← this
  match self.reconnectTimer with
  | some timer =>
    call (.clearTimeout timer)
    setThis fun s => { s with reconnectTimer := none }
  | none => pure ()
  tryCatch
    (do
      let self ← this
      closeChannel self.channel
      let self ← this
      closeConnection self.connection
      let _ ← cleanupConnectionState)
    fun _ => pure ()

end QueueService

/-! ## The event loop -/

/-- What a task has come to. -/
inductive Result where
  | done
  | healthy (b : Bool)
  deriving DecidableEq

/-- What starts a task. -/
inductive Trigger where
  | init
  | timer (timer : Timer)
  /-- one listener of a connection is told of an `error` or a `close` -/
  | lost (connection : Connection)
  | publish (event : CvUploadedEvent) (full : Bool)
  | health
  | destroy
  deriving DecidableEq

/-- The program of a task, and the world it begins in. Nest runs each lifecycle hook once, and the
second after the first. -/
def Trigger.begin : Trigger → World → Option (World × Prog Api Result)
  | .init, w =>
    if w.initialised then none
    else some ({ w with initialised := true }, do
      QueueService.onModuleInit
      return .done)
  | .timer t, w =>
    if t ∈ w.timers then some ({ w with timers := w.timers.erase t }, do
      QueueService.onReconnectTimer
      return .done)
    else none
  | .lost connection, w =>
    if connection ∈ w.listening then some (w, do
      QueueService.handleConnectionLost
      return .done)
    else none
  | .publish event full, w => some ({ w with full := full }, do
      QueueService.publishCvUploaded event
      return .done)
  | .health, w => some (w, do
      let b ← QueueService.isHealthy
      return .healthy b)
  | .destroy, w =>
    if w.initialised ∧ w.this.isShuttingDown = false then some (w, do
      QueueService.onModuleDestroy
      return .done)
    else none

def World.sync (w : World) : (c : Call) → Option (Api.Answer c × World)
  | .update f => some (.ok w.this, { w with this := f w.this })
  | .config => some (.ok w.config, w)
  | .random => some (.ok (w.random w.draws), { w with draws := w.draws + 1 })
  | .setTimeout delayMs =>
    let timer : Timer := ⟨w.timersSet, delayMs⟩
    some (.ok timer, { w with timers := w.timers ++ [timer], timersSet := w.timersSet + 1 })
  | .clearTimeout timer => some (.ok (), { w with timers := w.timers.erase timer })
  | .on connection => some (.ok (), { w with listening := w.listening ++ [connection] })
  | .publish channel event =>
    some (if channel ∈ w.closedChannels then .error .amqp else .ok (!w.full),
      { w with published := w.published ++ [(channel, event)] })
  | _ => none

/-- What making an awaited call does before it is answered. -/
def World.issue (w : World) : Call → World
  | .closeChannel channel => { w with closedChannels := w.closedChannels ++ [channel] }
  | .closeConnection connection => { w with closed := w.closed ++ [connection] }
  | _ => w

/-- How an awaited call is answered: it resolves or, if `ok` is false, rejects. A settled promise
answers with its outcome. -/
def World.answer (w : World) (ok : Bool) : (c : Call) → Option (Api.Answer c × World)
  | .connect _ _ =>
    if ok then some (.ok w.opened, { w with opened := w.opened + 1 })
    else some (.error .amqp, w)
  | .createChannel connection =>
    if ok then some (.ok ⟨w.channels, connection⟩, { w with channels := w.channels + 1 })
    else some (.error .amqp, w)
  | .declare _ _ => some (if ok then .ok () else .error .amqp, w)
  | .closeChannel _ => some (if ok then .ok () else .error .amqp, w)
  | .closeConnection _ => some (if ok then .ok () else .error .amqp, w)
  | .promise outcome => some (outcome, w)
  | _ => none

def queueLoop : EventLoop Api World Trigger Bool Result where
  sync c w := w.sync c
  issue c w := w.issue c
  answer c ok w := w.answer ok c
  trigger := Trigger.begin

abbrev Label : Type := EventLoop.Label ℕ Trigger Bool

abbrev State : Type := EventLoop.State Api ℕ World Trigger Result

def State.initial (config : QueueConfig) (random : ℕ → ℚ) : State :=
  { world := { config, random } }

def localBroker : QueueConfig where
  RABBITMQ_URL := some "amqp://localhost:5672"

def cleosUpload : CvUploadedEvent where
  candidateId := "c-cleo"
  applicationId := "a-cleo"
  jobId := "j-backend"
  bucket := "talentflow-cvs"
  fileKey := "cvs/a-cleo/0.pdf"
  mimeType := "application/pdf"
  uploadedAt := 0

/-- `onModuleInit` as task `i`, every call of which resolves. -/
def initialise (i : ℕ) : List Label := .start i .init :: List.replicate 8 (.resume i true)

end TalentFlow.Queue
