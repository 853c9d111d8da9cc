import TalentFlow.Guarantees.Observed

/-!
# Guarantees.RequestIds

The ids under which a request is known: those of its log entries, of the response header and of an
error body. Two loggers nest around each handler. Each finds the id by itself, neither looks where
the other has put it, and the filter reads the header of the request as a string.

* `Realizes`: what a part of the pipeline does to the ids, as a function on `Ids`; one lemma per
  interceptor.
* `idsCarried_served`, `idsCarried_rejected`: the ids that a request ends up with.
* `one_id_iff`: when they are all the same one.
* `two_ids`: a request without an id.
-/

namespace TalentFlow.Observability

open Data Sanitize

/-- What an exchange has of ids: what the request brings, what is to be sent, what was logged. -/
structure Ids where
  header : Header
  id : Option String
  sent : Option String
  logged : List String
  draws : ℕ

def Exchange.ids (x : Exchange) : Ids where
  header := x.request.requestIdHeader
  id := x.request.id
  sent := x.response.requestIdHeader
  logged := x.logs.map LogEntry.requestId
  draws := x.draws

/-- The id that the request brings. -/
def Ids.brought (s : Ids) : Option String :=
  match s.header with
  | .one raw => some raw
  | .many (raw :: _) => some raw
  | _ => s.id

section Pipeline

variable {env : Env} {handle : Http Outcome} {f : Ids → Ids}

/-- The id that a logger finds, and what it leaves of the draws. -/
def Ids.resolve (env : Env) (s : Ids) : String × Ids :=
  match s.brought with
  | some id => (id, s)
  | none => (env.randomUUID s.draws, { s with draws := s.draws + 1 })

/-- What a logger does to the ids, around what the rest does. -/
def stamp (env : Env) (f : Ids → Ids) (s : Ids) : Ids :=
  let found := s.resolve env
  let s' := f { found.2 with sent := some found.1 }
  { s' with logged := s'.logged ++ [found.1] }

/-- However it is entered, this part of the pipeline does to the ids what `f` does. -/
def Realizes (handle : Http Outcome) (f : Ids → Ids) : Prop :=
  ∀ x, (handle x).2.ids = f x.ids

theorem realizes_handler (o : Outcome) : Realizes (pure o) id := fun _ => rfl

theorem realizes_transform (h : Realizes handle f) :
    Realizes (TransformInterceptor.intercept env handle) f := by
  intro x
  obtain ⟨-, readings, hy⟩ := @transform_run env handle x
  rw [hy]
  exact h x

theorem realizes_metrics (h : Realizes handle f) :
    Realizes (MetricsInterceptor.intercept env handle) f :=
  fun x => h { x with readings := x.readings + 1 }

theorem resolveRequestId_ids (x : Exchange) :
    RequestLoggerInterceptor.resolveRequestId env x =
      ((x.ids.resolve env).1, { x with draws := (x.ids.resolve env).2.draws }) := by
  obtain ⟨⟨method, url, originalUrl, header, id, requestId⟩, response, logs, metrics, readings,
    draws⟩ := x
  cases header with
  | one raw => rfl
  | absent => cases id <;> rfl
  | many values =>
    cases values with
    | cons raw rest => rfl
    | nil => cases id <;> rfl

theorem resolve_snd (s : Ids) : (s.resolve env).2 = { s with draws := (s.resolve env).2.draws } := by
  unfold Ids.resolve
  cases s.brought <;> rfl

theorem realizes_logger (h : Realizes handle f) :
    Realizes (RequestLoggerInterceptor.intercept env handle) (stamp env f) := by
  intro x
  let y : Exchange := { x with
    readings := x.readings + 1, draws := (x.ids.resolve env).2.draws
    response := { x.response with requestIdHeader := some (x.ids.resolve env).1 }
    request := { x.request with requestId := some (x.ids.resolve env).1 } }
  have hy : y.ids = { (x.ids.resolve env).2 with sent := some (x.ids.resolve env).1 } := by
    rw [resolve_snd]
    rfl
  have hfound := @resolveRequestId_ids env { x with readings := x.readings + 1 }
  simp only [RequestLoggerInterceptor.intercept, bind, StateT.bind, dateNow, hfound]
  simp only [modify, modifyGet, MonadStateOf.modifyGet, StateT.modifyGet, pure]
  generalize hanswer : handle _ = answer
  have hrest : answer.2.ids =
      f { (x.ids.resolve env).2 with sent := some (x.ids.resolve env).1 } := by
    rw [← hanswer, ← hy]
    exact h y
  obtain ⟨outcome, z⟩ := answer
  rw [stamp, ← hrest]
  cases outcome with
  | ok value => exact congrArg (fun logged => { z.ids with logged }) List.map_append
  | error error => exact congrArg (fun logged => { z.ids with logged }) List.map_append

theorem realizes_interceptors (o : Outcome) :
    Realizes (interceptors env (pure o)) (stamp env (stamp env id)) :=
  realizes_logger (realizes_metrics (realizes_logger (realizes_transform (realizes_handler o))))

/-- The id that a logger finds when `k` ids have been drawn. -/
def Ids.found (env : Env) (s : Ids) (k : ℕ) : String := s.brought.getD (env.randomUUID k)

/-- The inner logger draws its own id if the request brings none, and sends and logs it first. -/
theorem stamp_twice (env : Env) (s : Ids) :
    (stamp env (stamp env id) s).header = s.header ∧
      (stamp env (stamp env id) s).sent = some (s.found env (s.draws + 1)) ∧
      (stamp env (stamp env id) s).logged =
        s.logged ++ [s.found env (s.draws + 1), s.found env s.draws] := by
  have hsame : ∀ sent draws, { s with sent := sent, draws := draws }.brought = s.brought :=
    fun _ _ => rfl
  cases hbrought : s.brought with
  | some id => simp [stamp, Ids.resolve, Ids.found, hsame, hbrought]
  | none => simp [stamp, Ids.resolve, Ids.found, hsame, hbrought]

end Pipeline

/-! ## Bodies -/

section Bodies

variable {env : Env} {handle : Http Outcome}

theorem requestId_isProperty : "requestId" ≠ "__proto__" := by decide

/-- The key under which an error body has the id. -/
abbrev requestIdKey : Json.Step PropertyName := .key (property "requestId" requestId_isProperty)

theorem transform_requestId {x : Exchange} {body : Value}
    (h : (TransformInterceptor.intercept env handle x).1 = .ok body) :
    body.child? requestIdKey = none := by
  cases hx : handle x with
  | mk outcome y =>
    simp only [TransformInterceptor.intercept, bind, StateT.bind, hx] at h
    cases outcome with
    | error e => cases h
    | ok data =>
      obtain rfl := Except.ok.inj h
      rfl

theorem interceptors_requestId {o : Outcome} {x : Exchange} {body : Value}
    (h : (interceptors env (pure o) x).1 = .ok body) : body.child? requestIdKey = none := by
  obtain ⟨y, -, -, -, houter, -⟩ := @logger_run env
    (MetricsInterceptor.intercept env
      (RequestLoggerInterceptor.intercept env (TransformInterceptor.intercept env (pure o)))) x
  obtain ⟨z, -, -, -, hinner, -⟩ := @logger_run env
    (TransformInterceptor.intercept env (pure o)) { y with readings := y.readings + 1 }
  exact transform_requestId (hinner.symm.trans (houter.symm.trans h))

theorem lookup_entry (key : PropertyName) (value : Option Value) :
    (entry key value).lookup key = value := by
  cases value <;> simp [entry]

theorem lookup_entry_ne {key key' : PropertyName} (hne : key' ≠ key) (value : Option Value) :
    (entry key value).lookup key' = none := by
  cases value <;> simp [entry, List.lookup_cons, beq_eq_false_iff_ne.mpr hne]

theorem filter_run (exception : Thrown) (x : Exchange) :
    (HttpExceptionFilter.handle env exception x).2.ids = x.ids ∧
      ∃ body, (HttpExceptionFilter.handle env exception x).2.response.body = some body ∧
        body.child? requestIdKey = HttpExceptionFilter.requestId x := by
  refine ⟨rfl, _, rfl, ?_⟩
  refine List.lookup_append.trans ?_
  rw [lookup_entry, List.lookup_append, List.lookup_append, lookup_entry_ne (by decide)]
  rfl

end Bodies

/-! ## One id -/

/-- All that carries an id for the request: its log entries, the header of the response and the
body of an error. -/
def idsCarried (x : Exchange) : List Value :=
  (x.logs.map fun entry => .string entry.requestId) ++
    (x.response.requestIdHeader.map .string).toList ++
    (x.response.body.bind (·.child? requestIdKey)).toList

def OneId (x : Exchange) : Prop := ∃ id : String, ∀ v ∈ idsCarried x, v = .string id

section Requests

variable (env : Env) (request : HttpRequest) (httpCode : Option ℕ)

/-- The id that the request brings, if it brings one that a logger takes. -/
def HttpRequest.brought : Option String := (Exchange.ids { request }).brought

def HttpRequest.found (k : ℕ) : String := request.brought.getD (env.randomUUID k)

/-- What the filter finds, when the response has an id. -/
def errorId (header : Header) (sent : String) : Value :=
  match header with
  | .many values => .array (values.map .string)
  | .one value => .string (if value = "" then sent else value)
  | .absent => .string sent

theorem requestId_eq {x : Exchange} {sent : String} (h : x.response.requestIdHeader = some sent) :
    HttpExceptionFilter.requestId x = some (errorId x.request.requestIdHeader sent) := by
  unfold HttpExceptionFilter.requestId errorId
  split
  · rename_i hheader
    rw [hheader]
  · rename_i hheader
    rw [hheader, h]
    rfl
  · rename_i value hne hheader
    rw [hheader]
    simp only [if_neg hne]
  · rename_i hheader
    rw [hheader, h]
    rfl

theorem idsCarried_eq (x : Exchange) : idsCarried x =
    x.ids.logged.map .string ++ (x.ids.sent.map .string).toList ++
      (x.response.body.bind (·.child? requestIdKey)).toList := by
  simp [idsCarried, Exchange.ids, Function.comp_def]

/-- The ids of a request that is served: those of the inner and of the outer logger, that of the
response, and that of the body if it fails. -/
theorem idsCarried_served (o : Outcome) :
    idsCarried (pass env httpCode (.served o) { request }).2 =
      [.string (request.found env 1), .string (request.found env 0),
        .string (request.found env 1)] ++
        (o.toOption.elim [errorId request.requestIdHeader (request.found env 1)] fun _ => []) := by
  have hids := @realizes_interceptors env o (.begun request httpCode)
  obtain ⟨hheader, hsent, hlogged⟩ := stamp_twice env (Exchange.ids (.begun request httpCode))
  rw [← hids] at hheader hsent hlogged
  have houtcome := (@records_interceptors env o).outcome (.begun request httpCode)
  have hbody := @interceptors_requestId env o (.begun request httpCode)
  rw [pass, idsCarried_eq]
  cases hx : interceptors env (pure o) (.begun request httpCode) with
  | mk outcome y =>
    rw [hx] at hheader hsent hlogged houtcome hbody
    cases outcome with
    | ok body =>
      cases o with
      | error e => cases (houtcome e).mpr rfl
      | ok v =>
        have hnone : body.child? requestIdKey = none := hbody rfl
        have hsame : y.ids.logged.map .string ++ (y.ids.sent.map .string).toList ++
            (body.child? requestIdKey).toList = [(.string (request.found env 1) : Value),
              .string (request.found env 0), .string (request.found env 1)] := by
          rw [hlogged, hsent, hnone]
          rfl
        rw [serve_ok hx]
        exact hsame
    | error exception =>
      obtain rfl := (houtcome exception).mp rfl
      obtain ⟨hkept, body, hsentBody, hid⟩ := @filter_run env exception y
      have hresponse : y.response.requestIdHeader = some (request.found env 1) := hsent
      have hrequest : y.request.requestIdHeader = request.requestIdHeader := hheader
      rw [serve_error hx, hkept, hsentBody, Option.bind_some, hid, requestId_eq hresponse, hrequest,
        hlogged, hsent]
      rfl

theorem idsCarried_rejected (exception : Thrown) :
    idsCarried (pass env httpCode (.rejected exception) { request }).2 =
      (HttpExceptionFilter.requestId { request }).toList := by
  obtain ⟨hkept, body, hbody, hid⟩ := @filter_run env exception { request }
  show idsCarried (HttpExceptionFilter.handle env exception { request }).2 = _
  rw [idsCarried_eq, hkept, hbody, Option.bind_some, hid]
  rfl

/-- The loggers agree if the request brings an id, and only by chance if they draw one each. -/
theorem found_eq_iff (hfresh : env.randomUUID 0 ≠ env.randomUUID 1) :
    request.found env 0 = request.found env 1 ↔ request.brought ≠ none := by
  unfold HttpRequest.found
  cases request.brought <;> simp [hfresh]

/-- The error body has the id of the response unless the header of the request is a list. -/
theorem errorId_eq_iff : errorId request.requestIdHeader (request.found env 1) =
    .string (request.found env 1) ↔ ∀ values, request.requestIdHeader ≠ .many values := by
  cases hheader : request.requestIdHeader with
  | absent => simp [errorId]
  | one value =>
    have hfound : request.found env 1 = value := by
      simp [HttpRequest.found, HttpRequest.brought, Ids.brought, Exchange.ids, hheader]
    simp [errorId, hfound]
  | many values => simp [errorId]

theorem brought_ne_none : request.brought ≠ none ↔
    (∃ raw, request.requestIdHeader = .one raw) ∨
      (∃ raw rest, request.requestIdHeader = .many (raw :: rest)) ∨ request.id ≠ none := by
  cases hheader : request.requestIdHeader with
  | absent => simp [HttpRequest.brought, Ids.brought, Exchange.ids, hheader]
  | one raw => simp [HttpRequest.brought, Ids.brought, Exchange.ids, hheader]
  | many values =>
    cases values <;> simp [HttpRequest.brought, Ids.brought, Exchange.ids, hheader]

theorem oneId_served (hfresh : env.randomUUID 0 ≠ env.randomUUID 1) (o : Outcome) :
    OneId (pass env httpCode (.served o) { request }).2 ↔ request.brought ≠ none ∧
      ((∃ v, o = .ok v) ∨ ∀ values, request.requestIdHeader ≠ .many values) := by
  rw [← found_eq_iff env request hfresh, ← errorId_eq_iff env request, OneId,
    idsCarried_served env request httpCode o]
  constructor
  · rintro ⟨id, hid⟩
    obtain rfl : request.found env 1 = id := Json.string.inj (hid _ (by simp))
    refine ⟨Json.string.inj (hid _ (by simp)), ?_⟩
    cases o with
    | ok v => exact .inl ⟨v, rfl⟩
    | error e => exact .inr (hid _ (by simp [Except.toOption]))
  · rintro ⟨hsame, herror⟩
    refine ⟨request.found env 1, fun v hv => ?_⟩
    rw [hsame] at hv
    cases o with
    | ok value => simpa [Except.toOption] using hv
    | error e =>
      obtain ⟨value, hvalue⟩ | herror := herror
      · cases hvalue
      · simpa [Except.toOption, herror] using hv

/-- When a request is known under one id: its header is a text; or it has none, and either an id of
its own or a guard that rejects it; or its header is a list, it brings an id, and it returns. -/
def HasOneId (ending : Ending) : Prop :=
  match request.requestIdHeader with
  | .one _ => True
  | .absent => request.id ≠ none ∨ ∃ e, ending = .rejected e
  | .many values => (values ≠ [] ∨ request.id ≠ none) ∧ ∃ v, ending = .served (.ok v)

/-- All that carries an id for the request carries the same one exactly then, if two drawn ids are
not the same. -/
theorem one_id_iff (hfresh : env.randomUUID 0 ≠ env.randomUUID 1) (ending : Ending) :
    OneId (pass env httpCode ending { request }).2 ↔ HasOneId request ending := by
  cases ending with
  | rejected exception =>
    rw [OneId, idsCarried_rejected]
    cases hheader : request.requestIdHeader with
    | absent => simp [HttpExceptionFilter.requestId, HasOneId, hheader]
    | one value =>
      by_cases hempty : value = "" <;>
        simp [HttpExceptionFilter.requestId, HasOneId, hheader, hempty]
    | many values => simp [HttpExceptionFilter.requestId, HasOneId, hheader]
  | served o =>
    rw [oneId_served env request httpCode hfresh, brought_ne_none]
    cases hheader : request.requestIdHeader with
    | absent => simp [HasOneId, hheader]
    | one value => simp [HasOneId, hheader]
    | many values => cases values <;> simp [HasOneId, hheader]

end Requests

def numbering : Env := { still with randomUUID := fun k => s!"id-{k}" }

theorem one_id_failed :
    OneId (pass numbering none (.served (.error (.http 404 (.string "Job not found"))))
        { request := { requestIdHeader := .one "r-1" } }).2 ↔
      HasOneId { requestIdHeader := .one "r-1" }
        (.served (.error (.http 404 (.string "Job not found")))) :=
  one_id_iff numbering { requestIdHeader := .one "r-1" } none (by decide) _

/-- A request without an id is logged under one id and answered with another; the error body of a
request with two ids in its header has both. -/
theorem two_ids :
    idsCarried (pass numbering none (.served (.ok .null)) { request := {} }).2 =
        [.string "id-1", .string "id-0", .string "id-1"] ∧
      ¬ OneId (pass numbering none (.served (.ok .null)) { request := {} }).2 ∧
    idsCarried (pass numbering none (.served (.error (.http 404 (.string "Job not found"))))
        { request := { requestIdHeader := .many ["r-1", "r-2"] } }).2 =
        [.string "r-1", .string "r-1", .string "r-1", .array [.string "r-1", .string "r-2"]] ∧
      ¬ OneId (pass numbering none (.served (.error (.http 404 (.string "Job not found"))))
        { request := { requestIdHeader := .many ["r-1", "r-2"] } }).2 := by
  have hnone := idsCarried_served numbering {} none (.ok .null)
  have hmany := idsCarried_served numbering { requestIdHeader := .many ["r-1", "r-2"] } none
    (.error (.http 404 (.string "Job not found")))
  refine ⟨hnone, ?_, hmany, ?_⟩
  · rintro ⟨id, hid⟩
    rw [hnone] at hid
    have hinner := Json.string.inj (hid _ List.mem_cons_self)
    have houter := Json.string.inj (hid _ (List.mem_cons_of_mem _ List.mem_cons_self))
    exact absurd (hinner.trans houter.symm) (by decide)
  · rintro ⟨id, hid⟩
    rw [hmany] at hid
    cases hid (.array [.string "r-1", .string "r-2"])
      (List.mem_append_right _ (List.mem_singleton.mpr rfl))

end TalentFlow.Observability
