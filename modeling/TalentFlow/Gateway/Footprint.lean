import TalentFlow.Gateway.Steps

/-!
# Gateway.Footprint

Which calls each request can make. `Call.IsQuiet` are the calls that only read the database or the
clock or write the audit log; `Request.footprint` lists all others, with the data they carry.

* `prog_calls`: a request makes only quiet calls and calls of its footprint.
-/

namespace TalentFlow

open Async

def Call.IsQuiet : Call → Prop
  | .prisma c => c.IsRead
  | .storage (.getSignedUrl _) => True
  | .storage .getBucketName => True
  | .dateNow => True
  | .audit _ => True
  | _ => False

/-- What a `PUT` writes: the DTO, and a review time if the status changes. -/
def UpdateApplicationDto.Writes (dto : UpdateApplicationDto) (data : ApplicationUpdate) : Prop :=
  ∃ reviewedAt, (reviewedAt = .absent ∨
      ∃ status now, dto.status = .value status ∧ reviewedAt = .value now) ∧
    data =
      { stage := dto.stage, status := dto.status, notes := dto.notes,
        coverLetter := dto.coverLetter, reviewedAt := reviewedAt }

def Request.footprint : Request → Call → Prop
  | signup email password fullName role, c =>
    c = .bcryptHash password ∨
      ∃ hashed, c = .prisma (.userCreate ⟨email, hashed, fullName, role⟩)
  | login email password _, c =>
    c = .redis (.get (.loginAttempts email)) ∨ c = .redis (.ttl (.loginAttempts email)) ∨
      c = .redis (.incr email) ∨ (∃ n, c = .redis (.expire (.loginAttempts email) n)) ∨
      c = .redis (.del (.loginAttempts email)) ∨ (∃ hashed, c = .bcryptCompare password hashed) ∨
      c = .randomUUID ∨ ∃ id token n, c = .redis (.set (.refreshToken id) token n)
  | refresh cookie _, c =>
    ∃ token ∈ cookie, c = .redis (.get (.refreshToken token.sub)) ∨
      c = .redis (.existsKey (.blacklist token.tokenId)) ∨ c = .randomUUID ∨
      ∃ id new n, c = .redis (.set (.refreshToken id) new n)
  | logout _ _, c =>
    (∃ id, c = .redis (.del (.refreshToken id))) ∨
      ∃ n, c = .redis (.set (.blacklist "") "true" n)
  | updateProfile _ id dto, c => c = .prisma (.userUpdate id { fullName := dto.fullName })
  | updateRole _ id role, c => c = .prisma (.userUpdate id { role := .value role })
  | softDeleteUser _ id, c => ∃ now, c = .prisma (.userUpdate id { deletedAt := .value now })
  | createApplication _ dto, c =>
    (∃ data, c = .prisma (.candidateCreate data)) ∨
      ∃ candidateId, c = .prisma (.applicationCreate
        { jobId := dto.jobId, candidateId, coverLetter := dto.coverLetter,
          cvFileKey := dto.cvFileKey, cvFileUrl := dto.cvFileUrl })
  | createApplicationWithCv _ file dto, c =>
    (∃ data, c = .prisma (.candidateCreate data)) ∨ c = .randomUUID ∨
      (∃ key, c = .storage (.upload file.buffer key file.mimetype) ∨ c = .storage (.delete key)) ∨
      (∃ candidateId key url, c = .prisma (.applicationCreate
        { jobId := dto.jobId, candidateId, coverLetter := dto.coverLetter,
          cvFileKey := some key, cvFileUrl := some url })) ∨
      (∃ id, c = .prisma (.applicationDelete id)) ∨ ∃ event, c = .publish event
  | findAllApplications _ _ _, _ => False
  | findOneApplication _ _ _, _ => False
  | updateApplication id _ _ dto, c =>
    ∃ data, dto.Writes data ∧ c = .prisma (.applicationUpdate id data)
  | removeApplication id _ _, c =>
    ∃ now, c = .prisma (.applicationUpdate id
      { deletedAt := .value now, status := .value .withdrawn })
  | findOneCandidate _ _, _ => False
  | updateCandidate id dto, c =>
    c = .prisma (.candidateUpdate id
      { fullName := dto.fullName, phone := dto.phone, linkedinUrl := dto.linkedinUrl })
  | removeCandidate id, c => c = .prisma (.candidateDelete id)
  | updateJob id _ _ dto, c =>
    c = .prisma (.jobUpdate id
      { title := dto.title, description := dto.description, requirements := dto.requirements,
        department := dto.department, location := dto.location,
        employmentType := dto.employmentType, salaryMin := dto.salaryMin,
        salaryMax := dto.salaryMax, status := dto.status })
  | removeJob id _ _, c => ∃ now, c = .prisma (.jobUpdate id { deletedAt := .value now })
  | findAllInterviews _ _, _ => False
  | findOneInterview _ _, _ => False
  | createInterview dto, c => c = .prisma (.interviewCreate (InterviewsService.createData dto))
  | updateInterview id dto, c =>
    c = .prisma (.interviewUpdate id (InterviewsService.updateData dto))
  | removeInterview id, c => c = .prisma (.interviewUpdate id { status := .value .cancelled })

/-- The requests of `AuthService`. -/
def Request.isSession : Request → Bool
  | signup _ _ _ _ => true
  | login _ _ _ => true
  | refresh _ _ => true
  | logout _ _ => true
  | _ => false

theorem footprint_rest {r : Request} (hr : r.isSession = false) {c : Call} (h : r.footprint c) :
    (∃ c', c = .prisma c') ∨ c = .randomUUID ∨ (∃ c', c = .storage c') ∨
      ∃ event, c = .publish event := by
  cases r with
  | signup email password fullName role => cases hr
  | login email password context => cases hr
  | refresh cookie context => cases hr
  | logout cookie context => cases hr
  | createApplicationWithCv userId file dto =>
    obtain ⟨data, rfl⟩ | rfl | ⟨key, rfl | rfl⟩ | ⟨candidateId, key, url, rfl⟩ | ⟨id, rfl⟩ |
      ⟨event, rfl⟩ := h
    · exact .inl ⟨_, rfl⟩
    · exact .inr (.inl rfl)
    · exact .inr (.inr (.inl ⟨_, rfl⟩))
    · exact .inr (.inr (.inl ⟨_, rfl⟩))
    · exact .inl ⟨_, rfl⟩
    · exact .inl ⟨_, rfl⟩
    · exact .inr (.inr (.inr ⟨event, rfl⟩))
  | createApplication userId dto =>
    obtain ⟨data, rfl⟩ | ⟨candidateId, rfl⟩ := h <;> exact .inl ⟨_, rfl⟩
  | updateApplication id userId userRole dto =>
    obtain ⟨data, -, rfl⟩ := h
    exact .inl ⟨_, rfl⟩
  | softDeleteUser cookie id =>
    obtain ⟨now, rfl⟩ := h
    exact .inl ⟨_, rfl⟩
  | removeApplication id userId userRole =>
    obtain ⟨now, rfl⟩ := h
    exact .inl ⟨_, rfl⟩
  | removeJob id userId userRole =>
    obtain ⟨now, rfl⟩ := h
    exact .inl ⟨_, rfl⟩
  | findAllApplications userId userRole query => exact h.elim
  | findOneApplication id userId userRole => exact h.elim
  | findOneCandidate cookie id => exact h.elim
  | findAllInterviews cookie query => exact h.elim
  | findOneInterview cookie id => exact h.elim
  | updateProfile cookie id dto => exact .inl ⟨_, h⟩
  | updateRole cookie id role => exact .inl ⟨_, h⟩
  | updateCandidate id dto => exact .inl ⟨_, h⟩
  | removeCandidate id => exact .inl ⟨_, h⟩
  | updateJob id userId userRole dto => exact .inl ⟨_, h⟩
  | createInterview dto => exact .inl ⟨_, h⟩
  | updateInterview id dto => exact .inl ⟨_, h⟩
  | removeInterview id => exact .inl ⟨_, h⟩

variable {P : Call → Prop}

/-! ## Users and sessions -/

theorem findLiveOrThrow_calls (h : ∀ c, c.IsQuiet → P c) (id : String) :
    (UsersService.findLiveOrThrow id).Calls P := by
  refine calls_bind (calls_await (h _ trivial)) fun existing => ?_
  cases existing <;> trivial

theorem verifyJwt_calls (h : ∀ c, c.IsQuiet → P c) {τ : Type} (exp : τ → Nat)
    (cookie : Option τ) : (verifyJwt exp cookie).Calls P := by
  cases cookie with
  | none => trivial
  | some token =>
    rw [verifyJwt_some]
    refine calls_bind (calls_await (h .dateNow trivial)) fun now => ?_
    split <;> trivial

theorem jwtAuthGuard_calls (h : ∀ c, c.IsQuiet → P c) (cookie : Option AccessToken) :
    (JwtAuthGuard.canActivate cookie).Calls P := by
  refine calls_bind (verifyJwt_calls h _ cookie) fun payload => ?_
  refine calls_bind (calls_await (h _ trivial)) fun user => ?_
  cases user with
  | none => trivial
  | some user =>
    dsimp only
    split <;> trivial

/-- The access token carries no token id, so neither does the request. -/
theorem jwtAuthGuard_tokenId (cookie : Option AccessToken) :
    (JwtAuthGuard.canActivate cookie).Returns fun user => user.tokenId = none := by
  refine returns_bind fun payload => returns_bind fun found => ?_
  cases found with
  | none => trivial
  | some user =>
    dsimp only
    split
    · trivial
    · rfl

theorem rolesGuard_calls (roles : List Role) (user : UserPayload) :
    (RolesGuard.canActivate roles user).Calls P := by
  unfold RolesGuard.canActivate
  split <;> trivial

theorem generateTokens_calls (h : ∀ c, c.IsQuiet → P c) (huuid : P .randomUUID) (user : User) :
    (AuthService.generateTokens user).Calls P := by
  refine calls_bind (calls_await huuid) fun tokenId => ?_
  exact calls_bind (calls_await (h .dateNow trivial)) fun now => trivial

theorem jwtRefreshGuard_calls {cookie : Option RefreshToken} (h : ∀ c, c.IsQuiet → P c)
    (hget : ∀ token ∈ cookie, P (.redis (.get (.refreshToken token.sub))))
    (hexists : ∀ token ∈ cookie, P (.redis (.existsKey (.blacklist token.tokenId)))) :
    (JwtRefreshGuard.canActivate cookie).Calls P := by
  cases cookie with
  | none => trivial
  | some token =>
    rw [JwtRefreshGuard.canActivate, verifyJwt_some, bind_assoc]
    refine calls_bind (calls_await (h .dateNow trivial)) fun now => ?_
    split
    · rw [pure_bind]
      refine calls_bind (calls_await (hget token rfl)) fun stored => ?_
      split
      · exact True.intro
      refine calls_bind (calls_await (hexists token rfl)) fun blacklisted => ?_
      split <;> trivial
    · exact True.intro

section Login

variable {email : String} (h : ∀ c, c.IsQuiet → P c)

include h

theorem checkAccountLockout_calls (hget : P (.redis (.get (.loginAttempts email))))
    (httl : P (.redis (.ttl (.loginAttempts email)))) :
    (AuthService.checkAccountLockout email).Calls P := by
  refine calls_bind (calls_bind (calls_await hget) fun attempts => trivial) fun attempts => ?_
  split
  · refine calls_bind (calls_bind (calls_await httl) fun ttl => trivial) fun remaining => ?_
    exact calls_bind (calls_await (h (.audit _) trivial)) fun _ => trivial
  · trivial

/-- A failed login is counted first; the rest of `handleFailedLogin` does not count. -/
theorem handleFailedLogin_eq
    (hexpire : P (.redis (.expire (.loginAttempts email) ACCOUNT_LOCKOUT_DURATION_SECONDS)))
    (context : LoginContext) (userId : Option String) :
    ∃ k : ℕ → Prog Api Unit,
      AuthService.handleFailedLogin email context userId = redis (.incr email) >>= k ∧
        ∀ attempts, (k attempts).Calls P := by
  refine ⟨_, rfl, fun attempts => ?_⟩
  have hlast : ∀ n : Nat, (do
      audit (.loginFailed userId email context n ACCOUNT_LOCKOUT_MAX_ATTEMPTS)
      if ACCOUNT_LOCKOUT_MAX_ATTEMPTS ≤ n then
        audit (.accountLocked userId email context.ip
          (ACCOUNT_LOCKOUT_DURATION_SECONDS / 60)) : Prog Api Unit).Calls P := by
    intro n
    refine calls_bind (calls_await (h (.audit _) trivial)) fun _ => ?_
    split
    · exact calls_await (h (.audit _) trivial)
    · trivial
  dsimp only
  split
  · exact calls_bind (calls_await hexpire) fun _ => hlast _
  · exact hlast _

theorem handleFailedLogin_calls (hincr : P (.redis (.incr email)))
    (hexpire : P (.redis (.expire (.loginAttempts email) ACCOUNT_LOCKOUT_DURATION_SECONDS)))
    (context : LoginContext) (userId : Option String) :
    (AuthService.handleFailedLogin email context userId).Calls P := by
  obtain ⟨k, heq, hk⟩ := handleFailedLogin_eq h hexpire context userId
  rw [heq]
  exact calls_bind (calls_await hincr) hk

end Login

/-! ## Applications -/

section Applications

variable (h : ∀ c, c.IsQuiet → P c)

include h

theorem findOpenJobOrThrow_calls (jobId : String) :
    (ApplicationsService.findOpenJobOrThrow jobId).Calls P := by
  refine calls_bind (calls_await (h _ trivial)) fun found => ?_
  split
  · trivial
  · split <;> trivial

theorem findOrCreateCandidateOrThrow_calls
    (hcreate : ∀ data, P (.prisma (.candidateCreate data))) (userId : String) :
    (ApplicationsService.findOrCreateCandidateOrThrow userId).Calls P := by
  refine calls_bind (calls_await (h _ trivial)) fun found => ?_
  split
  · trivial
  · refine calls_bind (calls_await (h _ trivial)) fun candidate => ?_
    split
    · trivial
    · exact calls_await (hcreate _)

theorem ensureNoDuplicateApplication_calls (jobId candidateId : String) :
    (ApplicationsService.ensureNoDuplicateApplication jobId candidateId).Calls P := by
  refine calls_bind (calls_await (h _ trivial)) fun existing => ?_
  split <;> trivial

theorem findCandidateOfUser_calls (userId : String) :
    (ApplicationsService.findCandidateOfUser userId).Calls P := by
  refine calls_bind (calls_await (h _ trivial)) fun user => ?_
  cases user with
  | none => trivial
  | some user => exact calls_await (h _ trivial)

theorem findOneApplication_calls (id userId userRole : String) :
    (ApplicationsService.findOne id userId userRole).Calls P := by
  refine calls_bind (calls_await (h _ trivial)) fun found => ?_
  split
  · trivial
  · refine calls_bind (findCandidateOfUser_calls h userId) fun candidate => ?_
    split <;> trivial

theorem roleFilter_calls (userId userRole : String) :
    (ApplicationsService.roleFilter userId userRole).Calls P := by
  unfold ApplicationsService.roleFilter
  split
  · trivial
  · split
    · exact calls_bind (findCandidateOfUser_calls h userId) fun _ => trivial
    · split
      · exact calls_bind (findCandidateOfUser_calls h userId) fun _ => trivial
      · trivial

theorem findAllApplications_calls (userId userRole : String) (query : QueryApplicationsDto) :
    (ApplicationsService.findAll userId userRole query).Calls P := by
  refine calls_bind (roleFilter_calls h userId userRole) fun byRole => ?_
  refine calls_bind (calls_await (h _ trivial)) fun data => ?_
  exact calls_bind (calls_await (h _ trivial)) fun total => trivial

theorem updateApplication_calls {id : String} {dto : UpdateApplicationDto}
    (hwrite : ∀ data, dto.Writes data → P (.prisma (.applicationUpdate id data)))
    (userId userRole : String) :
    (ApplicationsService.update id userId userRole dto).Calls P := by
  refine calls_bind (findOneApplication_calls h id userId userRole) fun application => ?_
  refine calls_bind (findCandidateOfUser_calls h userId) fun candidate => ?_
  dsimp only
  split
  · exact True.intro
  split
  · exact True.intro
  unfold ApplicationsService.updateData
  cases hs : dto.status with
  | absent => exact calls_await (hwrite _ ⟨.absent, .inl rfl, by rw [hs]⟩)
  | null => exact calls_await (hwrite _ ⟨.absent, .inl rfl, by rw [hs]⟩)
  | value status =>
    dsimp only
    split
    · rw [bind_assoc]
      refine calls_bind (calls_await (h .dateNow trivial)) fun now => ?_
      exact calls_await (hwrite _ ⟨.value now, .inr ⟨status, now, hs, rfl⟩, by rw [hs]⟩)
    · exact calls_await (hwrite _ ⟨.absent, .inl rfl, by rw [hs]⟩)

theorem removeApplication_calls {id : String}
    (hwrite : ∀ now, P (.prisma (.applicationUpdate id
      { deletedAt := .value now, status := .value .withdrawn }))) (userId userRole : String) :
    (ApplicationsService.remove id userId userRole).Calls P := by
  refine calls_bind (findOneApplication_calls h id userId userRole) fun application => ?_
  refine calls_bind (findCandidateOfUser_calls h userId) fun candidate => ?_
  split
  · exact True.intro
  refine calls_bind (calls_await (h .dateNow trivial)) fun now => ?_
  exact calls_bind (calls_await (hwrite now)) fun _ => trivial

end Applications

section Upload

variable (h : ∀ c, c.IsQuiet → P c)

theorem uploadCvOrThrow_calls {file : UploadedFile} (huuid : P .randomUUID)
    (hupload : ∀ key, P (.storage (.upload file.buffer key file.mimetype))) :
    (ApplicationsService.uploadCvOrThrow file).Calls P := by
  refine calls_bind (calls_bind (calls_await huuid) fun uuid => trivial) fun fileKey => ?_
  refine calls_tryCatch ?_ fun _ => trivial
  exact calls_bind (calls_await (hupload fileKey)) fun _ => trivial

theorem rollbackCreateWithCv_calls (hdelete : ∀ id, P (.prisma (.applicationDelete id)))
    (hremove : ∀ key, P (.storage (.delete key))) (applicationId : Option String)
    (fileKey : String) :
    (ApplicationsService.rollbackCreateWithCv applicationId fileKey).Calls P := by
  have hlast : (tryCatch (storage (.delete fileKey)) fun _ => pure () : Prog Api Unit).Calls P :=
    calls_tryCatch (calls_await (hremove fileKey)) fun _ => trivial
  cases applicationId with
  | none => exact hlast
  | some id =>
    exact calls_bind (calls_tryCatch (calls_await (hdelete id)) fun _ => trivial) fun _ => hlast

theorem failCreateWithCv_calls (hdelete : ∀ id, P (.prisma (.applicationDelete id)))
    (hremove : ∀ key, P (.storage (.delete key))) (applicationId : Option String)
    (fileKey : String) : (ApplicationsService.failCreateWithCv applicationId fileKey).Calls P :=
  calls_bind (rollbackCreateWithCv_calls hdelete hremove applicationId fileKey) fun _ => trivial

include h

theorem buildUploadResponse_calls (applicationId fileKey uploadUrl : String) :
    (ApplicationsService.buildUploadResponse applicationId fileKey uploadUrl).Calls P := by
  refine calls_bind (calls_tryCatch ?_ fun _ => trivial) fun _ => trivial
  exact calls_bind (calls_await (h (.storage (.getSignedUrl _)) trivial)) fun _ => trivial

theorem publishApplication_calls (hpublish : ∀ event, P (.publish event))
    (candidateId applicationId jobId fileKey mimeType : String) :
    (ApplicationsService.publishApplication candidateId applicationId jobId fileKey
      mimeType).Calls P := by
  refine calls_bind (calls_await (h (.storage .getBucketName) trivial)) fun bucket => ?_
  refine calls_bind (calls_await (h .dateNow trivial)) fun now => ?_
  refine calls_bind (calls_await (hpublish _)) fun published => ?_
  split <;> trivial

end Upload

section Interviews

variable (h : ∀ c, c.IsQuiet → P c)

include h

theorem verifyInterviewer_calls (interviewerId : Option String) :
    (InterviewsService.verifyInterviewer interviewerId).Calls P := by
  unfold InterviewsService.verifyInterviewer
  split
  · trivial
  · refine calls_bind (calls_await (h _ trivial)) fun interviewer => ?_
    cases interviewer <;> trivial

theorem verifyFuture_calls (scheduledAt : Option Time) :
    (InterviewsService.verifyFuture scheduledAt).Calls P := by
  refine calls_bind (calls_await (h .dateNow trivial)) fun now => ?_
  split <;> trivial

theorem verifyNewDate_calls (scheduledAt : Field (Option Time)) :
    (InterviewsService.verifyNewDate scheduledAt).Calls P := by
  cases scheduledAt with
  | absent => trivial
  | null => trivial
  | value scheduledAt => exact verifyFuture_calls h scheduledAt

theorem findInterviewOrThrow_calls (id : String) :
    (InterviewsService.findOrThrow id).Calls P := by
  refine calls_bind (calls_await (h _ trivial)) fun existing => ?_
  cases existing <;> trivial

end Interviews

theorem findCandidateOrThrow_calls (h : ∀ c, c.IsQuiet → P c) (id : String) :
    (CandidatesService.findOrThrow id).Calls P := by
  refine calls_bind (calls_await (h _ trivial)) fun existing => ?_
  cases existing <;> trivial

theorem findJob_calls (h : ∀ c, c.IsQuiet → P c) (id : String) :
    (JobsService.findOne id).Calls P := by
  refine calls_bind (calls_await (h _ trivial)) fun found => ?_
  split <;> trivial

def Request.KeepsTo (r : Request) : Prop := r.prog.Calls fun c : Call => c.IsQuiet ∨ r.footprint c

theorem quiet_or (r : Request) (c : Call) (h : c.IsQuiet) : c.IsQuiet ∨ r.footprint c := .inl h

theorem signup_keepsTo (email password fullName : String) (role : Role) :
    (Request.signup email password fullName role).KeepsTo := by
  have hq := quiet_or (.signup email password fullName role)
  refine calls_bind ?_ fun _ => trivial
  refine calls_bind (calls_await (hq _ trivial)) fun existing => ?_
  split
  · exact True.intro
  refine calls_bind (calls_await (.inr (.inl rfl))) fun hashed => ?_
  refine calls_bind (calls_await (.inr (.inr ⟨hashed, rfl⟩))) fun user => ?_
  exact calls_bind (calls_await (hq (.audit _) trivial)) fun _ => trivial

theorem login_keepsTo (email password : String) (context : LoginContext) :
    (Request.login email password context).KeepsTo := by
  have hq := quiet_or (.login email password context)
  refine calls_bind ?_ fun _ => trivial
  refine calls_bind (checkAccountLockout_calls hq (.inr (.inl rfl))
    (.inr (.inr (.inl rfl)))) fun _ => ?_
  refine calls_bind (calls_await (hq _ trivial)) fun found => ?_
  have hfail : ∀ userId, (AuthService.handleFailedLogin email context userId).Calls
      fun c : Call => c.IsQuiet ∨ (Request.login email password context).footprint c := by
    intro userId
    exact handleFailedLogin_calls hq (.inr (.inr (.inr (.inl rfl))))
      (.inr (.inr (.inr (.inr (.inl ⟨_, rfl⟩))))) context userId
  split
  · exact calls_bind (hfail _) fun _ => trivial
  · rename_i user _
    refine calls_bind (calls_await (.inr (by simp [Request.footprint]))) fun valid => ?_
    split
    · exact calls_bind (hfail _) fun _ => True.intro
    refine calls_bind (calls_bind (calls_await (.inr (by simp [Request.footprint])))
      fun _ => trivial) fun _ => ?_
    refine calls_bind (generateTokens_calls hq (.inr (by simp [Request.footprint])) user)
      fun tokens => ?_
    refine calls_bind (calls_await (.inr (by simp [Request.footprint]))) fun _ => ?_
    exact calls_bind (calls_await (hq (.audit _) trivial)) fun _ => trivial

theorem refresh_keepsTo (cookie : Option RefreshToken) (context : LoginContext) :
    (Request.refresh cookie context).KeepsTo := by
  have hq := quiet_or (.refresh cookie context)
  cases cookie with
  | none => trivial
  | some token =>
    refine calls_bind (calls_bind ?_ fun user => ?_) fun _ => trivial
    · exact jwtRefreshGuard_calls hq (fun token ht => .inr ⟨token, ht, .inl rfl⟩)
        fun token ht => .inr ⟨token, ht, .inr (.inl rfl)⟩
    refine calls_bind (calls_await (hq _ trivial)) fun found => ?_
    split
    · exact calls_bind (calls_await (hq (.audit _) trivial)) fun _ => trivial
    · rename_i user _
      have huuid := generateTokens_calls hq (.inr ⟨token, rfl, .inr (.inr (.inl rfl))⟩) user
      refine calls_bind huuid fun tokens => ?_
      have hset : ∀ id new n, (Request.refresh (some token) context).footprint
          (.redis (.set (.refreshToken id) new n)) := fun id new n =>
        ⟨token, rfl, .inr (.inr (.inr ⟨id, new, n, rfl⟩))⟩
      refine calls_bind (calls_await (.inr (hset _ _ _))) fun _ => ?_
      exact calls_bind (calls_await (hq (.audit _) trivial)) fun _ => trivial

theorem logout_keepsTo (cookie : Option AccessToken) (context : LoginContext) :
    (Request.logout cookie context).KeepsTo := by
  have hq := quiet_or (.logout cookie context)
  refine calls_bind (calls_bind_of_returns (jwtAuthGuard_calls hq cookie)
    (jwtAuthGuard_tokenId cookie) fun user hid => ?_) fun _ => trivial
  rw [hid]
  refine calls_bind (calls_await (.inr (.inl ⟨user.id, rfl⟩))) fun _ => ?_
  refine calls_bind (calls_await (.inr (.inr ⟨_, rfl⟩))) fun _ => ?_
  exact calls_await (hq (.audit _) trivial)

theorem createApplication_keepsTo (userId : String) (dto : CreateApplicationDto) :
    (Request.createApplication userId dto).KeepsTo := by
  have hq := quiet_or (.createApplication userId dto)
  refine calls_bind ?_ fun _ => trivial
  refine calls_bind (findOpenJobOrThrow_calls hq dto.jobId) fun _ => ?_
  refine calls_bind (findOrCreateCandidateOrThrow_calls hq
    (fun data => .inr (.inl ⟨data, rfl⟩)) userId) fun candidate => ?_
  refine calls_bind (ensureNoDuplicateApplication_calls hq dto.jobId candidate.id) fun _ => ?_
  exact calls_await (.inr (.inr ⟨candidate.id, rfl⟩))

theorem createApplicationWithCv_keepsTo (userId : String) (file : UploadedFile) (dto : UploadCvDto) :
    (Request.createApplicationWithCv userId file dto).KeepsTo := by
  have hq := quiet_or (.createApplicationWithCv userId file dto)
  have hfail := failCreateWithCv_calls
    (P := fun c => c.IsQuiet ∨ (Request.createApplicationWithCv userId file dto).footprint c)
    (fun id => .inr (by simp [Request.footprint]))
    (fun key => .inr (by simp [Request.footprint]))
  refine calls_bind ?_ fun _ => trivial
  refine calls_bind (findOpenJobOrThrow_calls hq dto.jobId) fun _ => ?_
  refine calls_bind (findOrCreateCandidateOrThrow_calls hq
    (fun data => .inr (.inl ⟨data, rfl⟩)) userId) fun candidate => ?_
  refine calls_bind (ensureNoDuplicateApplication_calls hq dto.jobId candidate.id) fun _ => ?_
  refine calls_bind (uploadCvOrThrow_calls (.inr (.inr (.inl rfl)))
    fun key => .inr (by simp [Request.footprint])) fun ⟨fileKey, uploadUrl⟩ => ?_
  refine calls_bind (calls_attempt (calls_await (.inr (by simp [Request.footprint]))))
    fun created => ?_
  cases created with
  | error e => exact hfail _ _
  | ok application =>
    refine calls_bind (calls_attempt (publishApplication_calls hq
      (fun event => .inr (by simp [Request.footprint])) _ _ _ _ _)) fun handedOver => ?_
    cases handedOver with
    | error e => exact hfail _ _
    | ok _ => exact buildUploadResponse_calls hq _ _ _

/-- A request makes only quiet calls and calls of its footprint. -/
theorem prog_calls (r : Request) : r.prog.Calls fun c : Call => c.IsQuiet ∨ r.footprint c := by
  have hq := quiet_or r
  cases r with
  | signup email password fullName role => exact signup_keepsTo email password fullName role
  | login email password context => exact login_keepsTo email password context
  | refresh cookie context => exact refresh_keepsTo cookie context
  | logout cookie context => exact logout_keepsTo cookie context
  | updateProfile cookie id dto =>
    refine calls_bind (calls_bind (jwtAuthGuard_calls hq cookie) fun user => ?_) fun _ => trivial
    unfold UsersService.updateProfile
    dsimp only
    split
    · exact True.intro
    refine calls_bind (findLiveOrThrow_calls hq id) fun _ => ?_
    exact calls_bind (calls_await (.inr rfl)) fun _ => trivial
  | updateRole cookie id role =>
    refine calls_bind (calls_bind (jwtAuthGuard_calls hq cookie) fun user => ?_) fun _ => trivial
    refine calls_bind (rolesGuard_calls _ user) fun _ => ?_
    refine calls_bind (findLiveOrThrow_calls hq id) fun _ => ?_
    exact calls_bind (calls_await (.inr rfl)) fun _ => trivial
  | softDeleteUser cookie id =>
    refine calls_bind (calls_bind (jwtAuthGuard_calls hq cookie) fun user => ?_) fun _ => trivial
    refine calls_bind (rolesGuard_calls _ user) fun _ => ?_
    refine calls_bind (findLiveOrThrow_calls hq id) fun _ => ?_
    refine calls_bind (calls_await (hq .dateNow trivial)) fun now => ?_
    exact calls_bind (calls_await (.inr ⟨now, rfl⟩)) fun _ => trivial
  | createApplication userId dto => exact createApplication_keepsTo userId dto
  | createApplicationWithCv userId file dto => exact createApplicationWithCv_keepsTo userId file dto
  | findAllApplications userId userRole query =>
    exact calls_bind (findAllApplications_calls hq userId userRole query) fun _ => trivial
  | findOneApplication id userId userRole =>
    exact calls_bind (findOneApplication_calls hq id userId userRole) fun _ => trivial
  | updateApplication id userId userRole dto =>
    refine calls_bind (updateApplication_calls hq ?_ userId userRole) fun _ => trivial
    exact fun data hd => .inr ⟨data, hd, rfl⟩
  | removeApplication id userId userRole =>
    refine calls_bind (removeApplication_calls hq ?_ userId userRole) fun _ => trivial
    exact fun now => .inr ⟨now, rfl⟩
  | findOneCandidate cookie id =>
    refine calls_bind (jwtAuthGuard_calls hq cookie) fun user => calls_bind ?_ fun _ => trivial
    refine calls_bind (rolesGuard_calls _ user) fun _ => ?_
    refine calls_bind (calls_await (hq _ trivial)) fun candidate => ?_
    cases candidate <;> trivial
  | updateCandidate id dto =>
    refine calls_bind (calls_bind (findCandidateOrThrow_calls hq id) fun _ => ?_) fun _ => trivial
    exact calls_await (.inr rfl)
  | removeCandidate id =>
    refine calls_bind (calls_bind (findCandidateOrThrow_calls hq id) fun _ => ?_) fun _ => trivial
    exact calls_await (.inr rfl)
  | updateJob id userId userRole dto =>
    refine calls_bind (calls_bind (findJob_calls hq id) fun job => ?_) fun _ => trivial
    dsimp only
    split
    · exact True.intro
    · exact calls_await (.inr rfl)
  | removeJob id userId userRole =>
    refine calls_bind (calls_bind (findJob_calls hq id) fun job => ?_) fun _ => trivial
    dsimp only
    split
    · exact True.intro
    refine calls_bind (calls_await (hq .dateNow trivial)) fun now => ?_
    exact calls_bind (calls_await (.inr ⟨now, rfl⟩)) fun _ => trivial
  | findAllInterviews cookie query =>
    refine calls_bind (jwtAuthGuard_calls hq cookie) fun user => calls_bind ?_ fun _ => trivial
    refine calls_bind (rolesGuard_calls _ user) fun _ => ?_
    refine calls_bind (calls_await (hq _ trivial)) fun data => ?_
    exact calls_bind (calls_await (hq _ trivial)) fun total => trivial
  | findOneInterview cookie id =>
    refine calls_bind (jwtAuthGuard_calls hq cookie) fun user => calls_bind ?_ fun _ => trivial
    refine calls_bind (rolesGuard_calls _ user) fun _ => ?_
    refine calls_bind (calls_await (hq _ trivial)) fun interview => ?_
    cases interview <;> trivial
  | createInterview dto =>
    refine calls_bind (calls_bind (calls_await (hq _ trivial)) fun application => ?_) fun _ => trivial
    cases application with
    | none => trivial
    | some application =>
      refine calls_bind (verifyInterviewer_calls hq dto.interviewerId) fun _ => ?_
      refine calls_bind (verifyFuture_calls hq dto.scheduledAt) fun _ => ?_
      exact calls_await (.inr rfl)
  | updateInterview id dto =>
    refine calls_bind (calls_bind (findInterviewOrThrow_calls hq id) fun _ => ?_) fun _ => trivial
    refine calls_bind (verifyNewDate_calls hq dto.scheduledAt) fun _ => ?_
    refine calls_bind (verifyInterviewer_calls hq _) fun _ => ?_
    exact calls_await (.inr rfl)
  | removeInterview id =>
    refine calls_bind (calls_bind (findInterviewOrThrow_calls hq id) fun _ => ?_) fun _ => trivial
    exact calls_bind (calls_await (.inr rfl)) fun _ => trivial

/-! ## Pools of requests -/

def KeepsFootprint (requests : ℕ → Request) (cfg : Config Api ℕ World Response) : Prop :=
  ∀ i, (cfg.pool i).Calls fun c : Call => c.IsQuiet ∨ (requests i).footprint c

section Pool

variable {requests : ℕ → Request} {cfg cfg' : Config Api ℕ World Response}

theorem footprint_start (requests : ℕ → Request) (w : World) :
    KeepsFootprint requests (.start w (Request.pool requests)) := fun i => prog_calls (requests i)

theorem footprint_run {ls : List (Label ℕ Choice Move)} (h : KeepsFootprint requests cfg)
    (hrun : gateway.run ls cfg = some cfg') : KeepsFootprint requests cfg' := calls_run h hrun

theorem footprint_step {l : Label ℕ Choice Move} (h : KeepsFootprint requests cfg)
    (hs : gateway.step l cfg = some cfg') : KeepsFootprint requests cfg' := calls_step h hs

theorem footprint_call {i : ℕ} {c : Call} {k : Api.Answer c → Prog Api Response}
    (h : KeepsFootprint requests cfg) (hp : cfg.pool i = .call c k) :
    c.IsQuiet ∨ (requests i).footprint c := by
  have hi := h i
  rw [hp] at hi
  exact hi.1

end Pool

end TalentFlow
