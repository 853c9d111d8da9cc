import TalentFlow.Gateway.Routes

/-!
# Guarantees.SecurityLog

What the security log says about signing in and out. The events that one of `AuthController`'s
requests has logged are told by how far it has come and by what it was answered with: one event for a
success, the failed login and perhaps the lock for wrong credentials, the block for a locked account,
nothing for an outage. Other requests log in between, but the log of a request is never lost, made up
or logged twice.

* `HttpRequest.Logs`: the events for an outcome.
* `login_logs`, `refresh_logs`, `logout_logs`: what the requests do.
* `security_log`: in every run, of every such request; and the log is what the requests have logged.
-/

namespace TalentFlow

open Data Async

/-! ## What is to be logged -/

/-- The message of a login to a locked account. -/
def lockedMessage (minutes : Nat) : String :=
  "Account temporarily locked. Try again in " ++ toString minutes ++ " minute(s)."

/-- A failed login, and the lock that the count of failures brings about. -/
def failedEvents (email : String) (context : LoginContext) (userId : Option String)
    (attempts : Nat) : List SecurityEvent :=
  .loginFailed userId email context attempts ACCOUNT_LOCKOUT_MAX_ATTEMPTS ::
    if ACCOUNT_LOCKOUT_MAX_ATTEMPTS ≤ attempts then
      [.accountLocked userId email context.ip (ACCOUNT_LOCKOUT_DURATION_SECONDS / 60)]
    else []

/-- What a login has logged when it is rejected with this message. -/
inductive Rejected (email : String) (context : LoginContext) (message : String) :
    List SecurityEvent → Prop where
  | blocked (attempts minutes : Nat) (hattempts : ACCOUNT_LOCKOUT_MAX_ATTEMPTS ≤ attempts)
      (hmessage : message = lockedMessage minutes) :
      Rejected email context message [.loginBlocked email attempts minutes]
  | failed (userId : Option String) (attempts : Nat) (hmessage : message = "Invalid credentials") :
      Rejected email context message (failedEvents email context userId attempts)

/-- The events that a request of `AuthController` has logged, by its outcome. -/
def HttpRequest.Logs (r : HttpRequest) (o : Option (Except Exception Response))
    (es : List SecurityEvent) : Prop :=
  match r.route, o with
  | .inl (.signup _ _ _ _), some (.ok (.signedUp user)) => es = [.signup user.id user.email user.role]
  | .inl (.login _ _), some (.ok (.loggedIn _ user)) =>
    es = [.loginSuccess user.id user.email r.context]
  | .inl (.login email _), some (.error (.unauthorized message)) =>
    Rejected email r.context message es
  | .inl (.login email _), none =>
    -- it may be between the two events of a failure
    es = [] ∨ ∃ userId attempts, es = [.loginFailed userId email r.context attempts
      ACCOUNT_LOCKOUT_MAX_ATTEMPTS] ∧ ACCOUNT_LOCKOUT_MAX_ATTEMPTS ≤ attempts
  | .inl .refresh, some (.ok (.refreshed tokens)) =>
    es = [.tokenRefresh tokens.refreshToken.sub tokens.refreshToken.email r.context.ip]
  | .inl .refresh, some (.error (.unauthorized message)) =>
    if message = "User not found" then
      ∃ token ∈ r.refreshToken, es = [.tokenRefreshFailed token.sub r.context.ip
        "User not found or deleted"]
    else es = []
  | .inr .logout, some (.ok _) =>
    ∃ token ∈ r.accessToken, es = [.logout token.sub r.context.ip ""]
  | _, _ => es = []

/-- The request is one of `AuthController`. -/
def HttpRequest.signsInOrOut (r : HttpRequest) : Bool :=
  match r.route with
  | .inl _ => true
  | .inr .logout => true
  | .inr _ => false

/-- What the event has added to the security log. -/
def auditOf : Event Api → Option SecurityEvent
  | ⟨.audit event, _⟩ => some event
  | _ => none

/-- A failure of a call is none of Nest's exceptions. -/
def Exception.IsOutage : Exception → Prop
  | .prisma _ => True
  | .redis => True
  | .storage => True
  | .amqp => True
  | _ => False

/-- What calls can be answered: users are found under their ids, logging does not fail, and other calls
fail with an outage. -/
def CanAnswer : (c : Call) → Api.Answer c → Prop
  | .prisma (.userFindUnique (.id id)), .ok (some user) => user.id = id
  | .audit _, .error _ => False
  | _, .error e => e.IsOutage
  | _, .ok _ => True

/-- The monitor that keeps what a request has logged. -/
def logMonitor (r : HttpRequest) : Monitor Api (List SecurityEvent) :=
  summary auditOf (fun es _ => r.signsInOrOut = true → r.Logs none es) CanAnswer

theorem logs_nil (r : HttpRequest) : r.Logs none [] := by
  unfold HttpRequest.Logs
  split <;> first
    | rfl
    | (rename_i heq
       cases heq
       done)
    | exact .inl rfl

theorem logs_outage (r : HttpRequest) {e : Exception} (h : e.IsOutage) :
    r.Logs (some (.error e)) [] := by
  unfold HttpRequest.Logs
  split <;> first
    | rfl
    | (rename_i heq
       cases heq
       done)
    | (rename_i heq
       cases heq
       exact h.elim)

/-! ## Programs -/

section Programs

variable {r : HttpRequest} {α β : Type}

def Call.IsSilent : Call → Prop
  | .audit _ => False
  | _ => True

theorem auditOf_silent {c : Call} (hc : c.IsSilent) (a : Api.Answer c) : auditOf ⟨c, a⟩ = none := by
  cases c with
  | audit event => exact hc.elim
  | _ => rfl

theorem canAnswer_error {c : Call} (hc : c.IsSilent) {e : Exception} (h : CanAnswer c (.error e)) :
    e.IsOutage := by
  cases c with
  | audit event => exact hc.elim
  | prisma c =>
    cases c with
    | userFindUnique q => cases q <;> exact h
    | _ => exact h
  | _ => exact h

theorem silent_await {c : Call} {f : Api.Value c → Prog Api α}
    {post : Except Exception α → List SecurityEvent → Prop} (hc : c.IsSilent)
    (hok : ∀ a, CanAnswer c (.ok a) → Obeys (logMonitor r) post (f a) [])
    (herr : ∀ e, e.IsOutage → post (.error e) []) :
    Obeys (logMonitor r) post (Prog.await c >>= f) [] := by
  have hnext : ∀ a, (logMonitor r).next [] ⟨c, a⟩ = [] := fun a => by
    simp [logMonitor, summary, auditOf_silent hc]
  refine obeys_await (fun _ => logs_nil r) (fun a ha => ?_) fun e he => ?_
  · rw [hnext]
    exact hok a ha
  · rw [hnext]
    exact herr e (canAnswer_error hc he)

theorem audit_await {event : SecurityEvent} {es : List SecurityEvent} {f : Unit → Prog Api α}
    {post : Except Exception α → List SecurityEvent → Prop} (hes : r.Logs none es)
    (hf : Obeys (logMonitor r) post (f ()) (es ++ [event])) :
    Obeys (logMonitor r) post (audit event >>= f) es :=
  obeys_await (fun _ => hes) (fun _ _ => hf) fun _ he => he.elim

/-- What a part of a request has logged: the events of what it returns or, when it fails, those of a
request that fails so. -/
def HttpRequest.PartLogs (r : HttpRequest) (events : α → List SecurityEvent) (o : Except Exception α)
    (es : List SecurityEvent) : Prop :=
  (∃ a, o = .ok a ∧ es = events a) ∨ ∃ e, o = .error e ∧ r.Logs (some (.error e)) es

theorem partLogs_outage {events : α → List SecurityEvent} (e : Exception) (he : e.IsOutage) :
    r.PartLogs events (.error e) [] :=
  .inr ⟨e, rfl, logs_outage r he⟩

theorem signup_logs {email password fullName : String} {role : Role}
    (hroute : r.route = .inl (.signup email password fullName role)) :
    Obeys (logMonitor r) (fun o es => r.Logs (some o) es) r.prog [] := by
  obtain ⟨accessToken, refreshToken, context, route⟩ := r
  cases hroute
  refine obeys_bind (silent_await trivial (fun found _ => ?_) fun e _ => rfl)
  split
  · exact (rfl : ([] : List SecurityEvent) = [])
  refine silent_await trivial (fun hashed _ => ?_) fun e _ => rfl
  refine silent_await trivial (fun user _ => ?_) fun e _ => rfl
  exact audit_await rfl rfl

theorem handleFailedLogin_logs {email password : String}
    (hroute : r.route = .inl (.login email password)) (userId : Option String) :
    Obeys (logMonitor r) (fun o es =>
        (∃ attempts, o = .ok () ∧ es = failedEvents email r.context userId attempts) ∨
          ∃ e, o = .error e ∧ e.IsOutage ∧ es = [])
      (AuthService.handleFailedLogin email r.context userId) [] := by
  obtain ⟨accessToken, refreshToken, context, route⟩ := r
  cases hroute
  refine silent_await trivial (fun attempts _ => ?_) fun e he => .inr ⟨e, rfl, he, rfl⟩
  have hlast : Obeys (logMonitor ⟨accessToken, refreshToken, context, .inl (.login email password)⟩)
      (fun o es => (∃ attempts, o = .ok () ∧ es = failedEvents email context userId attempts) ∨
        ∃ e, o = .error e ∧ e.IsOutage ∧ es = []) (do
        audit (.loginFailed userId email context attempts ACCOUNT_LOCKOUT_MAX_ATTEMPTS)
        if ACCOUNT_LOCKOUT_MAX_ATTEMPTS ≤ attempts then
          audit (.accountLocked userId email context.ip
            (ACCOUNT_LOCKOUT_DURATION_SECONDS / 60)) : Prog Api Unit) [] := by
    refine audit_await (logs_nil _) ?_
    split
    · rename_i hlock
      refine obeys_await_last (fun _ => .inr ⟨userId, attempts, rfl, hlock⟩) fun o ho => ?_
      cases o with
      | ok _ => exact .inl ⟨attempts, rfl, by simp [failedEvents, hlock, logMonitor, summary, auditOf]⟩
      | error e => exact ho.elim
    · rename_i hlock
      exact .inl ⟨attempts, rfl, by simp [failedEvents, hlock]⟩
  dsimp only
  split
  · exact silent_await trivial (fun _ _ => hlast) fun e he => .inr ⟨e, rfl, he, rfl⟩
  · exact hlast

theorem checkAccountLockout_logs {email password : String}
    (hroute : r.route = .inl (.login email password)) :
    Obeys (logMonitor r) (r.PartLogs fun _ => []) (AuthService.checkAccountLockout email) [] := by
  obtain ⟨accessToken, refreshToken, context, route⟩ := r
  cases hroute
  refine obeys_bind (silent_await trivial (fun found _ => ?_) partLogs_outage)
  refine obeys_pure.mpr ?_
  dsimp only
  split
  · rename_i hlocked
    refine obeys_bind (silent_await trivial (fun ttl _ => ?_) partLogs_outage)
    refine obeys_pure.mpr (audit_await (logs_nil _) ?_)
    exact .inr ⟨_, rfl, .blocked _ _ hlocked rfl⟩
  · exact .inl ⟨(), rfl, rfl⟩

theorem failedLogin_logs {email password : String}
    (hroute : r.route = .inl (.login email password)) (userId : Option String) :
    Obeys (logMonitor r)
      (r.PartLogs fun answer => [.loginSuccess answer.2.id answer.2.email r.context]) (do
        AuthService.handleFailedLogin email r.context userId
        throw (.unauthorized "Invalid credentials") : Prog Api (Tokens × UserSummary)) [] := by
  refine obeys_bind (obeys_mono (handleFailedLogin_logs hroute userId) ?_)
  rintro o es (⟨attempts, rfl, rfl⟩ | ⟨e, rfl, he, rfl⟩)
  · refine .inr ⟨_, rfl, ?_⟩
    simp only [HttpRequest.Logs, hroute]
    exact .failed userId attempts rfl
  · exact partLogs_outage e he

theorem login_logs {email password : String} (hroute : r.route = .inl (.login email password)) :
    Obeys (logMonitor r)
      (r.PartLogs fun answer => [.loginSuccess answer.2.id answer.2.email r.context])
      (AuthService.login email password r.context) [] := by
  refine obeys_bind (obeys_mono (checkAccountLockout_logs hroute) ?_)
  rintro o es (⟨-, rfl, rfl⟩ | ⟨e, rfl, he⟩)
  swap
  · exact .inr ⟨e, rfl, he⟩
  refine silent_await trivial (fun found _ => ?_) partLogs_outage
  split
  · exact failedLogin_logs hroute none
  rename_i user _
  refine silent_await trivial (fun valid _ => ?_) partLogs_outage
  split
  · exact failedLogin_logs hroute (some user.id)
  refine obeys_bind (silent_await trivial (fun _ _ => ?_) partLogs_outage)
  refine obeys_bind (silent_await trivial (fun tokenId _ => ?_) partLogs_outage)
  refine silent_await trivial (fun now _ => ?_) partLogs_outage
  refine silent_await trivial (fun _ _ => ?_) partLogs_outage
  exact audit_await (logs_nil r) (.inl ⟨_, rfl, rfl⟩)

theorem refresh_logs (hroute : r.route = .inl .refresh) :
    Obeys (logMonitor r) (r.PartLogs fun tokens =>
        [.tokenRefresh tokens.refreshToken.sub tokens.refreshToken.email r.context.ip])
      (AuthController.refresh r.refreshToken r.context) [] := by
  -- the guard's rejections log nothing
  have hguard : ∀ message, message ≠ "User not found" →
      r.Logs (some (.error (.unauthorized message))) [] := by
    intro message hne
    simp only [HttpRequest.Logs, hroute, if_neg hne]
  cases hcookie : r.refreshToken with
  | none => exact .inr ⟨_, rfl, hguard _ (by decide)⟩
  | some token =>
    rw [AuthController.refresh, JwtRefreshGuard.canActivate, verifyJwt_some, bind_assoc, bind_assoc]
    refine silent_await trivial (fun now _ => ?_) partLogs_outage
    split
    swap
    · exact .inr ⟨_, rfl, hguard _ (by decide)⟩
    rw [pure_bind, JwtRefreshStrategy.validate, bind_assoc]
    refine silent_await trivial (fun stored _ => ?_) partLogs_outage
    split
    · exact .inr ⟨_, rfl, hguard _ (by decide)⟩
    rw [bind_assoc]
    refine silent_await trivial (fun blacklisted _ => ?_) partLogs_outage
    split
    · exact .inr ⟨_, rfl, hguard _ (by decide)⟩
    rw [pure_bind]
    refine silent_await trivial (fun found _ => ?_) partLogs_outage
    split
    · refine audit_await (logs_nil r) (.inr ⟨_, rfl, ?_⟩)
      simp only [HttpRequest.Logs, hroute, if_true]
      exact ⟨token, hcookie, rfl⟩
    · refine obeys_bind (silent_await trivial (fun tokenId _ => ?_) partLogs_outage)
      refine silent_await trivial (fun now _ => ?_) partLogs_outage
      refine silent_await trivial (fun _ _ => ?_) partLogs_outage
      exact audit_await (logs_nil r) (.inl ⟨_, rfl, rfl⟩)

theorem logout_logs (hroute : r.route = .inr .logout) :
    Obeys (logMonitor r) (fun o es => r.Logs (some o) es) r.prog [] := by
  obtain ⟨accessToken, refreshToken, context, route⟩ := r
  cases hroute
  cases accessToken with
  | none => exact (rfl : ([] : List SecurityEvent) = [])
  | some token =>
    have hprog : (HttpRequest.mk (some token) refreshToken context (.inr .logout)).prog =
        JwtAuthGuard.canActivate (some token) >>= fun user =>
          UserRoute.handle context user .logout := by
      simp only [HttpRequest.prog, UserRoute.authorize, UserRoute.requiredRoles, bind_pure]
    rw [hprog, JwtAuthGuard.canActivate, verifyJwt_some, bind_assoc, bind_assoc]
    refine silent_await trivial (fun now _ => ?_) fun e he => rfl
    split
    swap
    · exact (rfl : ([] : List SecurityEvent) = [])
    rw [pure_bind]
    refine obeys_bind (silent_await trivial (fun found hfound => ?_) fun e he => rfl)
    cases found with
    | none => exact (rfl : ([] : List SecurityEvent) = [])
    | some row =>
      have hid : row.id = token.sub := hfound
      dsimp only
      split
      · exact (rfl : ([] : List SecurityEvent) = [])
      · refine obeys_bind (silent_await trivial (fun _ _ => ?_) fun e he => rfl)
        refine silent_await trivial (fun _ _ => ?_) fun e he => rfl
        refine obeys_await_last (fun _ => logs_nil _) fun o ho => ?_
        cases o with
        | ok _ => exact ⟨token, rfl, by simp [logMonitor, summary, auditOf, hid]⟩
        | error e => exact ho.elim

/-- What a request of `AuthController` has logged when it ends. -/
theorem prog_logs (r : HttpRequest) :
    Obeys (logMonitor r) (fun o es => r.signsInOrOut = true → r.Logs (some o) es) r.prog [] := by
  cases hroute : r.route with
  | inl route =>
    have hprog : r.prog = HttpRequest.prog ⟨r.accessToken, r.refreshToken, r.context, .inl route⟩ := by
      rw [← hroute]
    cases route with
    | signup email password fullName role =>
      exact obeys_mono (signup_logs hroute) fun _ _ ho _ => ho
    | login email password =>
      rw [hprog]
      refine obeys_bind (obeys_mono (login_logs hroute) ?_)
      rintro o es (⟨answer, rfl, rfl⟩ | ⟨e, rfl, he⟩)
      · intro _
        simp only [HttpRequest.Logs, hroute]
      · exact fun _ => he
    | refresh =>
      rw [hprog]
      refine obeys_bind (obeys_mono (refresh_logs hroute) ?_)
      rintro o es (⟨tokens, rfl, rfl⟩ | ⟨e, rfl, he⟩)
      · intro _
        simp only [HttpRequest.Logs, hroute]
      · exact fun _ => he
  | inr route =>
    by_cases hlogout : route = .logout
    · exact obeys_mono (logout_logs (hlogout ▸ hroute)) fun _ _ ho _ => ho
    · have hother : r.signsInOrOut = false := by
        unfold HttpRequest.signsInOrOut
        rw [hroute]
        cases route <;> first | rfl | exact absurd rfl hlogout
      refine obeys_mono (obeys_of_allowed (@http_calls (fun _ => True) (fun _ _ _ => trivial) r) ?_) ?_
      · intro es c _ h
        exact absurd h (by simp [hother])
      · intro o es _ h
        exact absurd h (by simp [hother])

end Programs

/-! ## Runs -/

section Run

variable {incoming : ℕ → HttpRequest} {w w' : World} {ls : List (Label ℕ Choice Move)}
  {cfg cfg' : Config Api ℕ World Response} {l : Label ℕ Choice Move}

theorem outage_exec {i : ℕ} {c : Call} {ch : Choice} {e : Exception}
    (h : gateway.exec i c ch w = some (.error e, w')) : e.IsOutage := by
  obtain ⟨e', he, heq, -⟩ | ⟨-, h⟩ := exec_cases h
  · cases heq
    cases c with
    | storage c => cases c <;> cases he <;> trivial
    | _ => cases he <;> trivial
  · cases c with
    | prisma c =>
      simp only [Call.exec, PrismaCall.exec] at h
      split at h
      · split at h <;> cases h
        trivial
      · cases h
    | publish event =>
      simp only [Call.exec] at h
      split at h <;> cases h
    | randomUUID =>
      simp only [Call.exec] at h
      split at h <;> cases h
    | bcryptHash plain =>
      simp only [Call.exec] at h
      split at h <;> cases h
    | _ => cases h

theorem canAnswer_exec {i : ℕ} {c : Call} {ch : Choice} {a : Api.Answer c}
    (h : gateway.exec i c ch w = some (a, w')) : CanAnswer c a := by
  unfold CanAnswer
  split
  · obtain ⟨-, hperf⟩ := read_answer h trivial
    simp only [PrismaCall.perform, Prod.mk.injEq, Except.ok.injEq, and_true] at hperf
    exact (Table.find?_eq_some.mp hperf).2
  · obtain ⟨hok, -⟩ := audit_cases h
    cases hok
  · exact outage_exec h
  · trivial

theorem audit_exec {i : ℕ} {c : Call} {ch : Choice} {a : Api.Answer c}
    (h : gateway.exec i c ch w = some (a, w')) : w'.audit = w.audit ++ (auditOf ⟨c, a⟩).toList := by
  cases c with
  | prisma c =>
    obtain ⟨e, -, rfl⟩ | ⟨v, db, -, -, -, -, rfl⟩ := prisma_cases h <;> simp [auditOf]
  | redis c => obtain ⟨-, rfl⟩ | ⟨-, rfl⟩ := redis_cases h <;> simp [auditOf]
  | storage c => obtain ⟨-, rfl⟩ | ⟨-, rfl⟩ := storage_cases h <;> simp [auditOf]
  | publish event =>
    obtain ⟨-, rfl⟩ | ⟨-, -, rfl⟩ | ⟨chan, -, -, rfl⟩ := publish_cases h <;> simp [auditOf]
  | randomUUID =>
    obtain ⟨u, -, -, rfl⟩ := randomUUID_cases h
    simp [auditOf]
  | dateNow =>
    obtain ⟨-, rfl⟩ := dateNow_cases h
    simp [auditOf]
  | bcryptHash plain =>
    obtain ⟨hashed, -, -, rfl⟩ := bcryptHash_cases h
    simp [auditOf]
  | bcryptCompare plain hashed =>
    obtain ⟨-, rfl⟩ := bcryptCompare_cases h
    simp [auditOf]
  | audit event =>
    obtain ⟨-, rfl⟩ := audit_cases h
    rfl

theorem audit_step (hs : gateway.step l cfg = some cfg') {audit₀ : List SecurityEvent}
    (h : cfg.world.audit = audit₀ ++ cfg.log.filterMap fun e => auditOf e.2) :
    cfg'.world.audit = audit₀ ++ cfg'.log.filterMap fun e => auditOf e.2 := by
  obtain ⟨i, ch, c, k, r, w, rfl, hp, hx, rfl⟩ | ⟨mv, w, rfl, hm, rfl⟩ := Machine.step_cases hs
  · rw [Config.answered_world, Config.answered_log, audit_exec hx, h, List.filterMap_append,
      List.append_assoc]
    cases hlog : auditOf ⟨c, r⟩ <;> simp [hlog]
  · rw [← h]
    obtain ⟨elapsed, -, rfl⟩ | ⟨channel, broker, rfl⟩ := move_cases hm <;> rfl

/-- In every run, what each request of `AuthController` has logged so far is what its outcome calls
for, and the security log is what all requests have logged, in the order in which they did. -/
theorem security_log (hrun : gateway.run ls (.start w (HttpRequest.pool incoming)) = some cfg) :
    (∀ i, (incoming i).signsInOrOut = true →
      (incoming i).Logs (cfg.outcome? i) ((cfg.trace i).filterMap auditOf)) ∧
    cfg.world.audit = w.audit ++ cfg.log.filterMap fun e => auditOf e.2 := by
  constructor
  · intro i hi
    have hstart : AllObey (fun i => logMonitor (incoming i)) (fun _ => [])
        (fun i o es => (incoming i).signsInOrOut = true → (incoming i).Logs (some o) es)
        (Config.start w (HttpRequest.pool incoming)) := fun i => prog_logs (incoming i)
    obtain ⟨hobey, -⟩ := run_invariant_along (fun _ _ => True)
      (fun _ _ _ _ _ hx => ⟨canAnswer_exec hx, trivial⟩) (fun _ _ => trivial) hstart trivial
      (Machine.along_true _ _) hrun
    have hstage : stage (fun i => logMonitor (incoming i)) (fun _ => []) cfg i =
        (cfg.trace i).filterMap auditOf := stage_summary cfg i
    rw [← hstage]
    cases ho : cfg.outcome? i with
    | some o => exact hobey.outcome ho hi
    | none =>
      cases hp : cfg.pool i with
      | ret a => simp [Config.outcome?, hp] at ho
      | throw e => simp [Config.outcome?, hp] at ho
      | call c k => exact hobey.call hp hi
  · exact Machine.run_induction (fun cfg => cfg.world.audit = w.audit ++
      cfg.log.filterMap fun e => auditOf e.2) (fun h hs => audit_step hs h)
      (by simp) hrun

end Run

/-! ## Ada -/

/-- Ada signs in, while somebody else tries a password of hers. -/
def rightAndWrong : ℕ → HttpRequest
  | 0 => { route := .inl (.login ada.email "Ada-2024!") }
  | _ => { route := .inl (.login ada.email "Ada-2023!") }

theorem security_log_ada :
    ∃ cfg, gateway.run (List.replicate 3 (.run 1 {}) ++ List.replicate 8 (.run 0 { uuid := "t-0" }) ++
        List.replicate 3 (.run 1 {})) (.start seeded (HttpRequest.pool rightAndWrong)) = some cfg ∧
      (∀ i, (rightAndWrong i).signsInOrOut = true →
        (rightAndWrong i).Logs (cfg.outcome? i) ((cfg.trace i).filterMap auditOf)) ∧
      cfg.world.audit = seeded.audit ++ cfg.log.filterMap fun e => auditOf e.2 := by
  obtain ⟨cfg, hrun⟩ := Option.isSome_iff_exists.mp (show (gateway.run
    (List.replicate 3 (.run 1 {}) ++ List.replicate 8 (.run 0 { uuid := "t-0" }) ++
      List.replicate 3 (.run 1 {})) (.start seeded (HttpRequest.pool rightAndWrong))).isSome = true by
        decide +kernel)
  exact ⟨cfg, hrun, security_log hrun⟩

end TalentFlow
