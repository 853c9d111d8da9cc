import TalentFlow.Async.Guarded
import TalentFlow.Gateway.FileValidation
import TalentFlow.Gateway.WellFormed

/-!
# Gateway.Routes

The gateway as its clients see it: routes, and the guards that `AppModule` puts before every handler.
`JwtAuthGuard` lets everybody through to a `@Public()` handler and finds the user for all others;
`RolesGuard` then asks for one of the roles of `@Roles()`, if the handler has any. Pipes run after
the guards. A request that `ThrottlerGuard` turns away is one that never takes a step.

Routes that only read and that `Request` does not have are left out (`GET /auth/me`, a single user,
a single job, the lists of users, jobs and candidates, analytics, health, metrics), and so is
`POST /jobs`.

* `HttpRequest.prog_eq_guards`: what a request runs is a guard that picks a `Request`, then it.
* `guards_calls`: the guard only reads.
* `guards_picks`: what it has found out about the user when it picks.
-/

namespace TalentFlow

open Data Async

/-- The handlers marked `@Public()`. -/
inductive PublicRoute where
  | signup (email password fullName : String) (role : Role)
  | login (email password : String)
  | refresh

/-- The handlers that run for a user. -/
inductive UserRoute where
  | logout
  | updateProfile (id : String) (dto : UpdateUserDto)
  | updateRole (id : String) (role : Role)
  | softDeleteUser (id : String)
  | updateJob (id : String) (dto : UpdateJobDto)
  | removeJob (id : String)
  | createApplication (dto : CreateApplicationDto)
  | uploadCv (file : Option MulterFile) (dto : UploadCvDto)
  | findAllApplications (query : QueryApplicationsDto)
  | findOneApplication (id : String)
  | updateApplication (id : String) (dto : UpdateApplicationDto)
  | removeApplication (id : String)
  | findOneCandidate (id : String)
  | updateCandidate (id : String) (dto : UpdateCandidateDto)
  | removeCandidate (id : String)
  | createInterview (dto : CreateInterviewDto)
  | findAllInterviews (query : QueryInterviewsDto)
  | findOneInterview (id : String)
  | updateInterview (id : String) (dto : UpdateInterviewDto)
  | removeInterview (id : String)

/-- A request as it comes in, with its cookies. -/
structure HttpRequest where
  accessToken : Option AccessToken := none
  refreshToken : Option RefreshToken := none
  context : LoginContext := {}
  route : PublicRoute ⊕ UserRoute

namespace UserRoute

/-- The roles of `@Roles()`. -/
def requiredRoles : UserRoute → Option (List Role)
  | logout => none
  | updateProfile _ _ => none
  | updateRole _ _ => some [.admin]
  | softDeleteUser _ => some [.admin]
  | updateJob _ _ => some [.recruiter, .admin]
  | removeJob _ => some [.recruiter, .admin]
  | createApplication _ => none
  | uploadCv _ _ => none
  | findAllApplications _ => none
  | findOneApplication _ => none
  | updateApplication _ _ => none
  | removeApplication _ => none
  | findOneCandidate _ => some [.recruiter, .admin, .interviewer]
  | updateCandidate _ _ => some [.recruiter, .admin]
  | removeCandidate _ => some [.admin]
  | createInterview _ => some [.recruiter, .admin]
  | findAllInterviews _ => some [.recruiter, .admin, .interviewer]
  | findOneInterview _ => some [.recruiter, .admin, .interviewer]
  | updateInterview _ _ => some [.recruiter, .admin]
  | removeInterview _ => some [.recruiter, .admin]

def authorize (route : UserRoute) (cookie : Option AccessToken) : Prog Api UserPayload := do
  let user ← JwtAuthGuard.canActivate cookie
  match route.requiredRoles with
  | none => return user
  | some roles => do
    RolesGuard.canActivate roles user
    return user

/-- What the pipes make of the file. -/
def pipe (file : Option MulterFile) : Prog Api MulterFile :=
  match FileValidationPipe.transform file with
  | .ok file => return file
  | .error e => throw e

/-- The method of the controller, called for `user`. -/
def handle (context : LoginContext) (user : UserPayload) : UserRoute → Prog Api Response
  | logout => do
    AuthService.logout user.id (user.tokenId.getD "") context
    return .done
  | updateProfile id dto =>
    return .profile (← UsersService.updateProfile id user.id user.role.toString dto)
  | updateRole id role => return .profile (← UsersService.updateRole id role)
  | softDeleteUser id => do
    UsersService.softDeleteUser id
    return .done
  | updateJob id dto => return .job (← JobsService.update id user.id user.role.toString dto)
  | removeJob id => do
    JobsService.remove id user.id user.role.toString
    return .done
  | createApplication dto => return .application (← ApplicationsService.create user.id dto)
  | uploadCv file dto => do
    let file ← pipe file
    return .uploaded (← ApplicationsService.createWithCv user.id file.toUploadedFile dto)
  | findAllApplications query =>
    return .applicationPage (← ApplicationsService.findAll user.id user.role.toString query)
  | findOneApplication id =>
    return .applicationDetail (← ApplicationsService.findOne id user.id user.role.toString)
  | updateApplication id dto =>
    return .application (← ApplicationsService.update id user.id user.role.toString dto)
  | removeApplication id => do
    ApplicationsService.remove id user.id user.role.toString
    return .done
  | findOneCandidate id => return .candidateDetail (← CandidatesService.findOne id)
  | updateCandidate id dto => return .candidate (← CandidatesService.update id dto)
  | removeCandidate id => do
    CandidatesService.remove id
    return .done
  | createInterview dto => return .interview (← InterviewsService.create dto)
  | findAllInterviews query => return .interviewPage (← InterviewsService.findAll query)
  | findOneInterview id => return .interviewDetail (← InterviewsService.findOne id)
  | updateInterview id dto => return .interview (← InterviewsService.update id dto)
  | removeInterview id => do
    InterviewsService.remove id
    return .done

end UserRoute

def HttpRequest.prog (r : HttpRequest) : Prog Api Response :=
  match r.route with
  | .inl (.signup email password fullName role) => do
    return .signedUp (← AuthService.signup email password fullName role)
  | .inl (.login email password) => do
    let (tokens, user) ← AuthService.login email password r.context
    return .loggedIn tokens user
  | .inl .refresh => return .refreshed (← AuthController.refresh r.refreshToken r.context)
  | .inr route => do
    let user ← route.authorize r.accessToken
    route.handle r.context user

def HttpRequest.pool (incoming : ℕ → HttpRequest) (i : ℕ) : Prog Api Response := (incoming i).prog

/-! ## Requests behind their guards -/

namespace UserRoute

def guardsItself : UserRoute → Bool
  | logout => true
  | updateProfile _ _ => true
  | updateRole _ _ => true
  | softDeleteUser _ => true
  | findOneCandidate _ => true
  | findAllInterviews _ => true
  | findOneInterview _ => true
  | _ => false

/-- The request that stands for the handler when it is called for `user`; for those that run the
guards themselves, whatever the user is. -/
def request (cookie : Option AccessToken) (context : LoginContext) (user : UserPayload) :
    UserRoute → Prog Api Request
  | logout => return .logout cookie context
  | updateProfile id dto => return .updateProfile cookie id dto
  | updateRole id role => return .updateRole cookie id role
  | softDeleteUser id => return .softDeleteUser cookie id
  | updateJob id dto => return .updateJob id user.id user.role.toString dto
  | removeJob id => return .removeJob id user.id user.role.toString
  | createApplication dto => return .createApplication user.id dto
  | uploadCv file dto => return .createApplicationWithCv user.id (← pipe file).toUploadedFile dto
  | findAllApplications query => return .findAllApplications user.id user.role.toString query
  | findOneApplication id => return .findOneApplication id user.id user.role.toString
  | updateApplication id dto => return .updateApplication id user.id user.role.toString dto
  | removeApplication id => return .removeApplication id user.id user.role.toString
  | findOneCandidate id => return .findOneCandidate cookie id
  | updateCandidate id dto => return .updateCandidate id dto
  | removeCandidate id => return .removeCandidate id
  | createInterview dto => return .createInterview dto
  | findAllInterviews query => return .findAllInterviews cookie query
  | findOneInterview id => return .findOneInterview cookie id
  | updateInterview id dto => return .updateInterview id dto
  | removeInterview id => return .removeInterview id

end UserRoute

/-- A user in whose name nobody acts. -/
def UserPayload.nobody : UserPayload := ⟨"", "", .interviewer, "", none⟩

/-- The guards before the `Request` that an incoming request comes to. -/
def HttpRequest.guards (r : HttpRequest) : Prog Api Request :=
  match r.route with
  | .inl (.signup email password fullName role) => return .signup email password fullName role
  | .inl (.login email password) => return .login email password r.context
  | .inl .refresh => return .refresh r.refreshToken r.context
  | .inr route =>
    if route.guardsItself then route.request r.accessToken r.context .nobody
    else do
      let user ← route.authorize r.accessToken
      route.request r.accessToken r.context user

theorem pipe_cases (file : Option MulterFile) :
    (∃ accepted, FileValidationPipe.transform file = .ok accepted ∧
      UserRoute.pipe file = pure accepted) ∨ ∃ e, UserRoute.pipe file = throw e := by
  unfold UserRoute.pipe
  split
  · rename_i accepted hok
    exact .inl ⟨accepted, hok, rfl⟩
  · exact .inr ⟨_, rfl⟩

theorem handle_eq (route : UserRoute) (cookie : Option AccessToken) (context : LoginContext)
    (user : UserPayload) (hroute : route.guardsItself = false) :
    route.handle context user = route.request cookie context user >>= Request.prog := by
  cases route with
  | uploadCv file dto =>
    simp only [UserRoute.handle, UserRoute.request]
    obtain ⟨accepted, -, hpipe⟩ | ⟨e, hpipe⟩ := pipe_cases file
    · rw [hpipe]
      rfl
    · rw [hpipe]
      rfl
  | logout => cases hroute
  | updateProfile id dto => cases hroute
  | updateRole id role => cases hroute
  | softDeleteUser id => cases hroute
  | findOneCandidate id => cases hroute
  | findAllInterviews query => cases hroute
  | findOneInterview id => cases hroute
  | _ => rfl

/-- What an incoming request runs: its guards, then the request they pick. -/
theorem HttpRequest.prog_eq_guards (r : HttpRequest) : r.prog = r.guards >>= Request.prog := by
  obtain ⟨accessToken, refreshToken, context, route⟩ := r
  cases route with
  | inl route => cases route <;> rfl
  | inr route =>
    cases hroute : route.guardsItself with
    | false =>
      simp only [HttpRequest.prog, HttpRequest.guards, hroute, Bool.false_eq_true, if_false,
        bind_assoc]
      exact congrArg _ (funext fun user => handle_eq route accessToken context user hroute)
    | true =>
      simp only [HttpRequest.prog, HttpRequest.guards, hroute, if_true]
      cases route <;> first
        | (cases hroute; done)
        | simp only [UserRoute.authorize, UserRoute.requiredRoles, UserRoute.handle,
            UserRoute.request, Request.prog, AuthController.logout, UsersController.update,
            UsersController.updateRole, UsersController.remove, CandidatesController.findOne,
            InterviewsController.findAll, InterviewsController.findOne, bind_assoc, pure_bind]

/-! ## What the guards find out -/

/-- What `JwtStrategy.validate` makes of a row. -/
def User.payload (u : User) : UserPayload :=
  { id := u.id, email := u.email, role := u.role, fullName := u.fullName }

/-- The guard has found that the token has not expired and has read that its bearer is a user who is
not deleted; `user` is what it has put on the request. -/
def SignedIn (token : AccessToken) (user : UserPayload) (history : List (Event Api)) : Prop :=
  ∃ (now : Time) (row : User), (⟨.dateNow, .ok now⟩ : Event Api) ∈ history ∧
    now / 1000 < token.exp ∧
    (⟨.prisma (.userFindUnique (.id token.sub)), .ok (some row)⟩ : Event Api) ∈ history ∧
    row.deletedAt = none ∧ user = row.payload

theorem SignedIn.mono {token : AccessToken} {user : UserPayload} {history later : List (Event Api)}
    (h : SignedIn token user history) (hlater : ∀ e ∈ history, e ∈ later) :
    SignedIn token user later := by
  obtain ⟨now, row, hnow, hexp, hread, hlive, huser⟩ := h
  exact ⟨now, row, hlater _ hnow, hexp, hlater _ hread, hlive, huser⟩

section Guards

variable {P : Call → Prop}

theorem canActivate_calls (hnow : P .dateNow) (hread : ∀ q, P (.prisma (.userFindUnique q)))
    (cookie : Option AccessToken) : (JwtAuthGuard.canActivate cookie).Calls P := by
  cases cookie with
  | none => trivial
  | some token =>
    rw [JwtAuthGuard.canActivate, verifyJwt_some, bind_assoc]
    refine calls_bind (calls_await hnow) fun now => ?_
    split
    · rw [pure_bind]
      refine calls_bind (calls_await (hread _)) fun found => ?_
      cases found with
      | none => trivial
      | some user =>
        dsimp only
        split <;> trivial
    · trivial

theorem authorize_calls (hnow : P .dateNow) (hread : ∀ q, P (.prisma (.userFindUnique q)))
    (route : UserRoute) (cookie : Option AccessToken) : (route.authorize cookie).Calls P := by
  refine calls_bind (canActivate_calls hnow hread cookie) fun user => ?_
  split
  · trivial
  · exact calls_bind (rolesGuard_calls _ user) fun _ => trivial

theorem request_calls (cookie : Option AccessToken) (context : LoginContext) (user : UserPayload)
    (route : UserRoute) : (route.request cookie context user).Calls P := by
  cases route with
  | uploadCv file dto =>
    simp only [UserRoute.request]
    obtain ⟨accepted, -, hpipe⟩ | ⟨e, hpipe⟩ := pipe_cases file <;> rw [hpipe] <;> trivial
  | _ => trivial

theorem guards_calls (hnow : P .dateNow) (hread : ∀ q, P (.prisma (.userFindUnique q)))
    (r : HttpRequest) : r.guards.Calls P := by
  unfold HttpRequest.guards
  split
  · trivial
  · trivial
  · trivial
  · split
    · exact request_calls _ _ _ _
    · exact calls_bind (authorize_calls hnow hread _ _) fun user => request_calls _ _ _ _

theorem passive_dateNow : gateway.Passive .dateNow := fun _ _ _ _ _ h => (dateNow_cases h).2

theorem passive_read {c : PrismaCall} (hc : c.IsRead) : gateway.Passive (.prisma c) :=
  fun _ _ _ _ _ h => (read_cases hc h).1

theorem read_answer {i : ℕ} {ch : Choice} {w w' : World} {c : PrismaCall} {v : c.Value}
    (h : gateway.exec i (.prisma c) ch w = some (.ok v, w')) (hc : c.IsRead) :
    w' = w ∧ c.perform w.now ch.uuid ch.rows w.db = (.ok v, w.db) := by
  obtain ⟨hw, ⟨e, he⟩ | ⟨v', hv, hperf⟩⟩ := read_cases hc h
  · cases he
  · cases hv
    exact ⟨hw, hperf⟩

theorem guards_passive (r : HttpRequest) : r.guards.Calls gateway.Passive :=
  guards_calls passive_dateNow (fun q => @passive_read (.userFindUnique q) trivial) r

/-- The request is one that the handler can come to. -/
def UserRoute.Runs (route : UserRoute) (request : Request) : Prop :=
  ∃ cookie context user, route.request cookie context user = pure request

/-- The calls of a handler that are not quiet. -/
def UserRoute.footprint (route : UserRoute) (c : Call) : Prop :=
  ∃ request, route.Runs request ∧ request.footprint c

/-- What a handler writes to the database. -/
inductive UserRoute.Writes : UserRoute → PrismaCall → Prop where
  | updateProfile (id : String) (dto : UpdateUserDto) :
    Writes (.updateProfile id dto) (.userUpdate id { fullName := dto.fullName })
  | updateRole (id : String) (role : Role) :
    Writes (.updateRole id role) (.userUpdate id { role := .value role })
  | softDeleteUser (id : String) (now : Time) :
    Writes (.softDeleteUser id) (.userUpdate id { deletedAt := .value now })
  | updateJob (id : String) (dto : UpdateJobDto) (d : JobUpdate) (hd : d.deletedAt = .absent) :
    Writes (.updateJob id dto) (.jobUpdate id d)
  | removeJob (id : String) (now : Time) :
    Writes (.removeJob id) (.jobUpdate id { deletedAt := .value now })
  | createCandidate (dto : CreateApplicationDto) (d : CandidateCreate) :
    Writes (.createApplication dto) (.candidateCreate d)
  | createApplication (dto : CreateApplicationDto) (d : ApplicationCreate) :
    Writes (.createApplication dto) (.applicationCreate d)
  | uploadCandidate (file : Option MulterFile) (dto : UploadCvDto) (d : CandidateCreate) :
    Writes (.uploadCv file dto) (.candidateCreate d)
  | uploadCv (file : Option MulterFile) (dto : UploadCvDto) (d : ApplicationCreate) :
    Writes (.uploadCv file dto) (.applicationCreate d)
  | rollback (file : Option MulterFile) (dto : UploadCvDto) (id : String) :
    Writes (.uploadCv file dto) (.applicationDelete id)
  | updateApplication (id : String) (dto : UpdateApplicationDto) (d : ApplicationUpdate)
    (hd : dto.Writes d) : Writes (.updateApplication id dto) (.applicationUpdate id d)
  | removeApplication (id : String) (now : Time) :
    Writes (.removeApplication id)
      (.applicationUpdate id { deletedAt := .value now, status := .value .withdrawn })
  | updateCandidate (id : String) (dto : UpdateCandidateDto) (d : CandidateUpdate) :
    Writes (.updateCandidate id dto) (.candidateUpdate id d)
  | removeCandidate (id : String) : Writes (.removeCandidate id) (.candidateDelete id)
  | createInterview (dto : CreateInterviewDto) :
    Writes (.createInterview dto) (.interviewCreate (InterviewsService.createData dto))
  | updateInterview (id : String) (dto : UpdateInterviewDto) :
    Writes (.updateInterview id dto) (.interviewUpdate id (InterviewsService.updateData dto))
  | removeInterview (id : String) :
    Writes (.removeInterview id) (.interviewUpdate id { status := .value .cancelled })

theorem uploadCv_runs {file : Option MulterFile} {dto : UploadCvDto} {request : Request}
    (h : (UserRoute.uploadCv file dto).Runs request) :
    ∃ userId uploaded, request = .createApplicationWithCv userId uploaded dto := by
  obtain ⟨cookie, context, user, heq⟩ := h
  simp only [UserRoute.request] at heq
  obtain ⟨accepted, -, hpipe⟩ | ⟨e, hpipe⟩ := pipe_cases file
  · rw [hpipe] at heq
    cases heq
    exact ⟨_, _, rfl⟩
  · rw [hpipe] at heq
    cases heq

theorem footprint_writes {route : UserRoute} {c : PrismaCall} (h : route.footprint (.prisma c)) :
    route.Writes c := by
  obtain ⟨request, hruns, hfoot⟩ := h
  cases hroute : route with
  | uploadCv file dto =>
    obtain ⟨userId, uploaded, rfl⟩ := uploadCv_runs (hroute ▸ hruns)
    simp only [Request.footprint, Call.prisma.injEq, reduceCtorEq, false_or, or_self, exists_const,
      exists_false, or_false] at hfoot
    obtain ⟨d, rfl⟩ | ⟨candidateId, key, url, rfl⟩ | ⟨id, rfl⟩ := hfoot
    · exact .uploadCandidate file dto d
    · exact .uploadCv file dto _
    · exact .rollback file dto id
  | _ =>
    obtain ⟨cookie, context, user, heq⟩ := hroute ▸ hruns
    cases heq
    -- one of the four shapes a footprint has: a write, a write at some time, one of some data, two
    simp only [Request.footprint, Call.prisma.injEq, reduceCtorEq, exists_const, or_self] at hfoot <;>
    first
      | (subst hfoot; constructor; done)
      | (subst hfoot; constructor; rfl)
      | (obtain ⟨now, rfl⟩ := hfoot; constructor; done)
      | (obtain ⟨d, hd, rfl⟩ := hfoot; exact .updateApplication _ _ d hd)
      | (obtain ⟨d, rfl⟩ | ⟨candidateId, rfl⟩ := hfoot <;> constructor)

theorem request_runs (route : UserRoute) (cookie : Option AccessToken) (context : LoginContext)
    (user : UserPayload) : (route.request cookie context user).Returns route.Runs := by
  cases hroute : route with
  | uploadCv file dto =>
    obtain ⟨accepted, -, hpipe⟩ | ⟨e, hpipe⟩ := pipe_cases file
    · simp only [UserRoute.request, hpipe]
      exact ⟨cookie, context, user, by simp only [UserRoute.request, hpipe]; rfl⟩
    · simp only [UserRoute.request, hpipe]
      trivial
  | _ => exact ⟨cookie, context, user, rfl⟩

theorem route_calls {r : HttpRequest} {route : UserRoute} (hroute : r.route = .inr route) :
    r.prog.Calls fun c : Call => c.IsQuiet ∨ route.footprint c := by
  have hrequests : r.guards.Returns route.Runs := by
    simp only [HttpRequest.guards, hroute]
    split
    · exact request_runs route _ _ _
    · exact returns_bind fun user => request_runs route _ _ user
  rw [r.prog_eq_guards]
  refine calls_bind_of_returns (guards_calls ?_ (fun q => ?_) r) hrequests fun request hruns => ?_
  · exact .inl trivial
  · exact .inl trivial
  · exact calls_mono (prog_calls request) fun c hc => hc.imp_right fun hfoot => ⟨request, hruns, hfoot⟩

/-- The call writes nothing to the database but a new user. -/
def Call.OnlyEnrols : Call → Prop
  | .prisma c => c.IsRead ∨ ∃ d, c = .userCreate d
  | _ => True

theorem public_calls {r : HttpRequest} {route : PublicRoute} (hroute : r.route = .inl route) :
    r.prog.Calls Call.OnlyEnrols := by
  have hrequest : ∀ request : Request, request.isSession = true →
      request.prog.Calls Call.OnlyEnrols := by
    intro request hsession
    refine calls_mono (prog_calls request) fun c hc => ?_
    cases c with
    | prisma c =>
      obtain hquiet | hfoot := hc
      · exact .inl hquiet
      · cases request with
        | signup email password fullName role =>
          simp only [Request.footprint, reduceCtorEq, false_or] at hfoot
          obtain ⟨hashed, heq⟩ := hfoot
          cases heq
          exact .inr ⟨_, rfl⟩
        | login email password context => simp [Request.footprint] at hfoot
        | refresh cookie context => simp [Request.footprint] at hfoot
        | logout cookie context => simp [Request.footprint] at hfoot
        | _ => cases hsession
    | _ => trivial
  rw [r.prog_eq_guards]
  simp only [HttpRequest.guards, hroute]
  cases route with
  | signup email password fullName role => exact hrequest (.signup email password fullName role) rfl
  | login email password => exact hrequest (.login email password r.context) rfl
  | refresh => exact hrequest (.refresh r.refreshToken r.context) rfl

theorem http_calls (h : ∀ (request : Request) (c : Call), c.IsQuiet ∨ request.footprint c → P c)
    (r : HttpRequest) : r.prog.Calls P := by
  rw [r.prog_eq_guards]
  refine calls_bind (guards_calls ?_ (fun q => ?_) r) fun request => ?_
  · exact h (.removeCandidate "") _ (.inl trivial)
  · exact h (.removeCandidate "") _ (.inl trivial)
  · exact calls_mono (prog_calls request) (h request)

end Guards

/-- A monitor that only keeps the history. -/
abbrev historian : Monitor Api (List (Event Api)) := recorder fun _ _ => True

theorem canActivate_signedIn (cookie : Option AccessToken) :
    Obeys historian (fun o h => ∀ user, o = .ok user →
        ∃ token, cookie = some token ∧ SignedIn token user h)
      (JwtAuthGuard.canActivate cookie) [] := by
  cases cookie with
  | none => exact fun user h => nomatch h
  | some token =>
    rw [JwtAuthGuard.canActivate, verifyJwt_some, bind_assoc]
    refine obeys_await trivial (fun now _ => ?_) fun e _ user h => nomatch h
    split
    · rename_i hexp
      rw [pure_bind]
      refine obeys_await trivial (fun found _ => ?_) fun e _ user h => nomatch h
      cases found with
      | none => exact fun user h => nomatch h
      | some row =>
        dsimp only
        split
        · exact fun user h => nomatch h
        · rename_i hlive
          intro user h
          cases h
          exact ⟨token, rfl, now, row, by simp [recorder], hexp, by simp [recorder],
            by simpa using hlive, rfl⟩
    · exact fun user h => nomatch h

theorem authorize_signedIn (route : UserRoute) (cookie : Option AccessToken) :
    Obeys historian (fun o h => ∀ user, o = .ok user →
        ∃ token, cookie = some token ∧ SignedIn token user h ∧
          ∀ roles ∈ route.requiredRoles, user.role ∈ roles)
      (route.authorize cookie) [] := by
  refine obeys_bind (obeys_mono (canActivate_signedIn cookie) ?_)
  intro o h ho
  cases o with
  | error e => exact fun user h => nomatch h
  | ok user =>
    obtain ⟨token, hcookie, hsigned⟩ := ho user rfl
    dsimp only
    split
    · rename_i hroles
      intro user' h
      cases h
      exact ⟨token, hcookie, hsigned, by simp [hroles]⟩
    · rename_i roles hroles
      unfold RolesGuard.canActivate
      split
      · rename_i hrole
        intro user' h
        cases h
        refine ⟨token, hcookie, hsigned, fun roles' hroles' => ?_⟩
        rw [hroles] at hroles'
        cases hroles'
        simpa using hrole
      · exact fun user h => nomatch h

/-- What an incoming request has been found to be when its guards pick `request`. -/
inductive HttpRequest.Picks (r : HttpRequest) (history : List (Event Api)) (request : Request) :
    Prop where
  | «public» (route : PublicRoute) (hroute : r.route = .inl route) (hpick : r.guards = pure request)
  /-- the request runs the guards itself -/
  | itself (route : UserRoute) (hroute : r.route = .inr route) (hitself : route.guardsItself = true)
      (hpick : route.request r.accessToken r.context .nobody = pure request)
  | user (route : UserRoute) (token : AccessToken) (user : UserPayload)
      (hroute : r.route = .inr route) (hitself : route.guardsItself = false)
      (hcookie : r.accessToken = some token) (hsigned : SignedIn token user history)
      (hroles : ∀ roles ∈ route.requiredRoles, user.role ∈ roles)
      (hpick : route.request r.accessToken r.context user = pure request)

theorem request_returns (cookie : Option AccessToken) (context : LoginContext) (user : UserPayload)
    (route : UserRoute) :
    (∃ request, route.request cookie context user = pure request) ∨
      ∃ e, route.request cookie context user = throw e := by
  cases route with
  | uploadCv file dto =>
    simp only [UserRoute.request]
    obtain ⟨accepted, -, hpipe⟩ | ⟨e, hpipe⟩ := pipe_cases file
    · rw [hpipe]
      exact .inl ⟨_, rfl⟩
    · rw [hpipe]
      exact .inr ⟨e, rfl⟩
  | _ => exact .inl ⟨_, rfl⟩

theorem guards_obeys (r : HttpRequest) :
    Obeys historian (fun o h => ∀ request, o = .ok request → r.Picks h request) r.guards [] := by
  obtain ⟨accessToken, refreshToken, context, route⟩ := r
  cases route with
  | inl route =>
    cases route <;> · intro request h
                      cases h
                      exact .«public» _ rfl rfl
  | inr route =>
    have hend : ∀ user h, (∀ request, route.request accessToken context user = pure request →
        (HttpRequest.mk accessToken refreshToken context (.inr route)).Picks h request) →
        Obeys historian (fun o h => ∀ request, o = .ok request →
          (HttpRequest.mk accessToken refreshToken context (.inr route)).Picks h request)
          (route.request accessToken context user) h := by
      intro user h hpicks
      obtain ⟨request, hreq⟩ | ⟨e, hreq⟩ := request_returns accessToken context user route
      · rw [hreq]
        intro request' heq
        cases heq
        exact hpicks request hreq
      · rw [hreq]
        exact fun request h => nomatch h
    unfold HttpRequest.guards
    dsimp only
    split
    · rename_i hitself
      exact hend .nobody [] fun request hpick => .itself route rfl hitself hpick
    · rename_i hitself
      refine obeys_bind (obeys_mono (authorize_signedIn route accessToken) ?_)
      intro o h ho
      cases o with
      | error e => exact fun request h => nomatch h
      | ok user =>
        obtain ⟨token, hcookie, hsigned, hroles⟩ := ho user rfl
        exact hend user h fun request hpick =>
          .user route token user rfl (by simpa using hitself) hcookie hsigned hroles hpick

/-- What the guards have found out when they pick a request. -/
theorem guards_picks {r : HttpRequest} {history : List (Event Api)} {request : Request}
    (h : r.guards.Plays history (.ret request)) : r.Picks history request :=
  plays_recorded (guards_obeys r) h request rfl

/-! ## Requests to run -/

def adaAsks (route : UserRoute) (_ : ℕ) : HttpRequest :=
  { accessToken := some adasAccess, route := .inr route }

end TalentFlow
