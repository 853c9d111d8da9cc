import Mathlib.Data.Rat.Defs
import TalentFlow.Gateway.Sanitize

/-!
# Gateway.Observability

The pipeline around a handler: the interceptors that `AppModule` and `bootstrap` install, and
`HttpExceptionFilter`. Nest sets the handler's success code on the response before the interceptors
run, and hands an exception over to the filter when the interceptors' stream has failed.

`Env` has what comes from outside: the clocks, `randomUUID`, the reverse mapping of Nest's
`HttpStatus` enum, and `sanitizeUrl` and `sanitizeError`, which decide about texts only.
-/

namespace TalentFlow.Observability

open Data Sanitize

/-- What handlers return and exceptions carry; `undefined` is null. -/
abbrev Value := Json PropertyName ℚ

/-- What a handler can throw. -/
inductive Thrown where
  /-- `HttpException`, with `getStatus()` and `getResponse()` -/
  | http (status : Nat) (response : Value)
  /-- any other `Error` -/
  | error (message : String)
  /-- a value that is no `Error`, as `String` prints it -/
  | value (text : String)

/-- What the stream of `next.handle()` ends with. -/
abbrev Outcome := Except Thrown Value

inductive Header where
  | absent
  | one (value : String)
  | many (values : List String)

structure HttpRequest where
  method : Option String := none
  url : Option String := none
  originalUrl : Option String := none
  /-- `headers['x-request-id']` -/
  requestIdHeader : Header := .absent
  id : Option String := none
  /-- `request['x-request-id']`, which the logger sets -/
  requestId : Option String := none

structure HttpResponse where
  statusCode : Option Nat := none
  /-- the header `x-request-id` -/
  requestIdHeader : Option String := none
  /-- what has been sent -/
  body : Option Value := none

inductive LogLevel where
  | log | error
  deriving DecidableEq

structure LogEntry where
  level : LogLevel
  msg : String
  method : String
  url : String
  status : Nat
  duration : ℤ
  requestId : String
  error : Option Value
  timestamp : String

/-- One call of `recordRequest`: the labels and the observed duration. -/
structure Sample where
  method : String
  path : String
  status : String
  durationSeconds : ℚ

structure Env where
  /-- the `n`-th reading of `Date.now()`, in milliseconds -/
  now : Nat → Nat
  /-- the `n`-th reading of `process.hrtime.bigint()`, in nanoseconds -/
  hrtime : Nat → Nat
  randomUUID : Nat → String
  production : Bool
  HttpStatus : Nat → Option String
  toISOString : Nat → String
  sanitizeUrl : String → String
  sanitizeError : Thrown → Value

/-- A request on its way through the pipeline. -/
structure Exchange where
  request : HttpRequest
  response : HttpResponse := {}
  logs : List LogEntry := []
  metrics : List Sample := []
  /-- how often the clocks were read and `randomUUID` was called -/
  readings : Nat := 0
  draws : Nat := 0

/-- What runs during an exchange. -/
abbrev Http := StateM Exchange

variable (env : Env)

def dateNow : Http Nat := fun x => (env.now x.readings, { x with readings := x.readings + 1 })

def hrtime : Http Nat := fun x => (env.hrtime x.readings, { x with readings := x.readings + 1 })

def randomUUID : Http String := fun x =>
  (env.randomUUID x.draws, { x with draws := x.draws + 1 })

/-! ## Interceptors -/

/-- `a || b` on strings. -/
def orElse (a : Option String) (b : String) : String := (a.filter (· ≠ "")).getD b

namespace MetricsInterceptor

def observe (start : Nat) : Http Unit := do
  let stop ← hrtime env
  let durationSeconds : ℚ := (stop - start : ℤ) / 1000000000
  modify fun x =>
    let status := x.response.statusCode.getD 500
    let path := orElse x.request.originalUrl (orElse x.request.url "unknown")
    let method := orElse x.request.method "UNKNOWN"
    { x with metrics := x.metrics ++ [⟨method, path, toString status, durationSeconds⟩] }

/-- Observes in `next` and in `error` alike. -/
def intercept (handle : Http Outcome) : Http Outcome := do
  let start ← hrtime env
  let outcome ← handle
  observe env start
  return outcome

end MetricsInterceptor

namespace RequestLoggerInterceptor

def resolveRequestId : Http String := do
  let x ← get
  match x.request.requestIdHeader with
  | .one raw => return raw
  | .many (raw :: _) => return raw
  | _ =>
    match x.request.id with
    | some id => return id
    | none => randomUUID env

def logRequest (duration : ℤ) (requestId : String) : Http Unit := do
  let timestamp ← dateNow env
  modify fun x =>
    { x with logs := x.logs ++
      [{ level := .log, msg := "HTTP Request", method := x.request.method.getD "UNKNOWN"
         url := env.sanitizeUrl (x.request.url.getD ""), status := x.response.statusCode.getD 0
         duration, requestId, error := none, timestamp := env.toISOString timestamp }] }

def logError (duration : ℤ) (requestId : String) (error : Thrown) : Http Unit := do
  let timestamp ← dateNow env
  modify fun x =>
    { x with logs := x.logs ++
      [{ level := .error, msg := "HTTP Request Failed", method := x.request.method.getD "UNKNOWN"
         url := env.sanitizeUrl (x.request.url.getD ""), status := x.response.statusCode.getD 500
         duration, requestId, error := some (env.sanitizeError error)
         timestamp := env.toISOString timestamp }] }

/-- The error is thrown again after it was logged. -/
def intercept (handle : Http Outcome) : Http Outcome := do
  let started ← dateNow env
  let requestId ← resolveRequestId env
  modify fun x =>
    { x with
      response := { x.response with requestIdHeader := some requestId }
      request := { x.request with requestId := some requestId } }
  let outcome ← handle
  let stopped ← dateNow env
  match outcome with
  | .ok _ => logRequest env (stopped - started) requestId
  | .error error => logError env (stopped - started) requestId error
  return outcome

end RequestLoggerInterceptor

/-- JavaScript's truth of a value. -/
def truthy : Value → Bool
  | .null => false
  | .bool b => b
  | .number x => decide (x ≠ 0)
  | .string s => decide (s ≠ "")
  | .array _ => true
  | .object _ => true

/-- `value.key`; null stands for `undefined`. -/
def field (value : Value) (key : PropertyName) : Value := (value.child? (.key key)).getD .null

/-- The entry of an object that is written down unless it is undefined. -/
def entry (key : PropertyName) (value : Option Value) : List (PropertyName × Value) :=
  (value.map fun v => (key, v)).toList

def property (name : String) (h : name ≠ "__proto__" := by decide) : PropertyName := ⟨name, h⟩

/-- `a || b` -/
def or (a b : Value) : Value := if truthy a then a else b

namespace TransformInterceptor

/-- The message and the data of a response: a `message` in the data is taken out of it. -/
def split : Value → Value × Value
  | .object entries =>
    match entries.lookup (property "message") with
    | some msg =>
      let rest := entries.filter fun e => decide (e.1 ≠ property "message")
      (msg, if rest.isEmpty then .null else .object rest)
    | none => (.string "Success", .object entries)
  | data => (.string "Success", data)

def intercept (handle : Http Outcome) : Http Outcome := do
  match ← handle with
  | .error e => return .error e
  | .ok data =>
    let timestamp ← dateNow env
    let x ← get
    let (message, responseData) := split data
    return .ok (.object [
      (property "status", (x.response.statusCode.map fun n => .number n).getD .null),
      (property "message", message), (property "data", responseData),
      (property "timestamp", .string (env.toISOString timestamp))])

end TransformInterceptor

/-! ## Exception filter -/

namespace HttpExceptionFilter

def status : Thrown → Nat
  | .http status _ => status
  | _ => 500

def message : Thrown → Value
  | .http _ (.string s) => .string s
  | .http _ response => sanitize response
  | .error message =>
    if env.production then .string "Internal server error"
    else sanitize (.object [(property "error", .string message)])
  | .value text =>
    if env.production then .string "Internal server error"
    else sanitize (.object [(property "error", .string text)])

/-- The header of the request, which the filter takes for a string, or that of the response. -/
def requestId (x : Exchange) : Option Value :=
  match x.request.requestIdHeader with
  | .many values => some (.array (values.map .string))
  | .one "" => x.response.requestIdHeader.map .string
  | .one value => some (.string value)
  | .absent => x.response.requestIdHeader.map .string

/-- `catch` -/
def handle (exception : Thrown) : Http Unit := do
  let status := status exception
  let message := message env exception
  let errorObj : Value := match message with
    | .object entries => .object entries
    | .array items => .array items
    | message => .object [(property "message", message)]
  let extractedMessage := field errorObj (property "message")
  let error := or (field errorObj (property "error"))
    (.string ((env.HttpStatus status).getD "Error"))
  let timestamp ← dateNow env
  modify fun x =>
    let (text, details) : Value × Option Value := match extractedMessage with
      | .array items => (.string "Validation failed", some (.array items))
      | extracted => (or extracted message, none)
    let payload : Value := .object (
      [(property "status", .number status), (property "error", error), (property "message", text)]
        ++ entry (property "details") details ++
      [(property "timestamp", .string (env.toISOString timestamp))]
        ++ entry (property "requestId") (requestId x))
    { x with response := { x.response with statusCode := some status, body := some payload } }

end HttpExceptionFilter

/-! ## The pipeline -/

/-- Nest's success code of a handler: `@HttpCode`, or 201 for `POST` and 200 otherwise. -/
def successCode (method : Option String) (httpCode : Option Nat) : Nat :=
  httpCode.getD (if method = some "POST" then 201 else 200)

/-- The interceptors around the handler, from the outside in: those of `AppModule`, then those of
`bootstrap`. -/
def interceptors (handler : Http Outcome) : Http Outcome :=
  RequestLoggerInterceptor.intercept env
    (MetricsInterceptor.intercept env
      (RequestLoggerInterceptor.intercept env
        (TransformInterceptor.intercept env handler)))

/-- A request that reaches its handler, and the outcome the pipes or the handler give it. -/
def serve (httpCode : Option Nat) (outcome : Outcome) : Http Unit := do
  modify fun x =>
    { x with response :=
      { x.response with statusCode := some (successCode x.request.method httpCode) } }
  match ← interceptors env (pure outcome) with
  | .ok body => modify fun x => { x with response := { x.response with body := some body } }
  | .error exception => HttpExceptionFilter.handle env exception

/-- How a request ends: a guard rejects it before the interceptors run, or it is served. -/
inductive Ending where
  | rejected (exception : Thrown)
  | served (outcome : Outcome)

def pass (httpCode : Option Nat) : Ending → Http Unit
  | .rejected exception => HttpExceptionFilter.handle env exception
  | .served outcome => serve env httpCode outcome

end TalentFlow.Observability
