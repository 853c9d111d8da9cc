import TalentFlow.Async.Bounded
import TalentFlow.Gateway.Alone
import TalentFlow.Gateway.Routes

/-!
# Guarantees.Progress

No request waits for another. Each makes at most fifteen calls, whatever they are answered and
whatever runs between them; and wherever a run has led, a request that is not through can be run to
its end by its own calls alone.

* `prog_within`, `http_within`: the bounds, part by part.
* `requests_finish`: both, of every run.
-/

namespace TalentFlow

open Data Async

section Parts

/-! ## Users and sessions -/

theorem jwtAuthGuard_within (cookie : Option AccessToken) :
    (JwtAuthGuard.canActivate cookie).Within 2 := by
  cases cookie with
  | none => exact within_error _ _
  | some token =>
    rw [JwtAuthGuard.canActivate, verifyJwt_some, bind_assoc]
    refine within_bind (within_await _) fun now => ?_
    split
    swap
    · exact within_error _ _
    rw [pure_bind]
    refine within_bind (within_await _) fun found => ?_
    cases found with
    | none => exact within_error _ _
    | some user =>
      dsimp only
      split
      · exact within_error _ _
      · exact within_pure _ _

theorem jwtRefreshGuard_within (cookie : Option RefreshToken) :
    (JwtRefreshGuard.canActivate cookie).Within 3 := by
  cases cookie with
  | none => exact within_error _ _
  | some token =>
    rw [JwtRefreshGuard.canActivate, verifyJwt_some, bind_assoc]
    refine within_bind (within_await _) fun now => ?_
    split
    swap
    · exact within_error _ _
    rw [pure_bind]
    refine within_bind (within_await _) fun stored => ?_
    split
    · exact within_error _ _
    refine within_bind (within_await _) fun blacklisted => ?_
    split
    · exact within_error _ _
    · exact within_pure _ _

theorem rolesGuard_within (roles : List Role) (user : UserPayload) :
    (RolesGuard.canActivate roles user).Within 0 := by
  unfold RolesGuard.canActivate
  split
  · exact within_pure _ _
  · exact within_error _ _

theorem findLiveOrThrow_within (id : String) : (UsersService.findLiveOrThrow id).Within 1 := by
  refine within_bind (within_await _) fun existing => ?_
  cases existing with
  | none => exact within_error _ _
  | some user => exact within_pure _ _

theorem generateTokens_within (user : User) : (AuthService.generateTokens user).Within 2 := by
  refine within_bind (within_await _) fun tokenId => ?_
  exact within_bind (within_await _) fun now => within_pure _ _

theorem checkAccountLockout_within (email : String) :
    (AuthService.checkAccountLockout email).Within 3 := by
  refine within_bind (within_bind_zero (within_await _) fun attempts => within_pure _ _)
    fun attempts => ?_
  split
  · refine within_bind (within_bind_zero (within_await _) fun ttl => within_pure _ _)
      fun remaining => ?_
    exact within_bind (within_await _) fun _ => within_error _ _
  · exact within_pure _ _

theorem handleFailedLogin_within (email : String) (context : LoginContext)
    (userId : Option String) : (AuthService.handleFailedLogin email context userId).Within 4 := by
  have hlast : ∀ n : Nat, (do
      audit (.loginFailed userId email context n ACCOUNT_LOCKOUT_MAX_ATTEMPTS)
      if ACCOUNT_LOCKOUT_MAX_ATTEMPTS ≤ n then
        audit (.accountLocked userId email context.ip
          (ACCOUNT_LOCKOUT_DURATION_SECONDS / 60)) : Prog Api Unit).Within 2 := by
    intro n
    refine within_bind (within_await _) fun _ => ?_
    split
    · exact within_await _
    · exact within_pure _ _
  refine within_bind (within_await _) fun attempts => ?_
  dsimp only
  split
  · exact within_bind (within_await _) fun _ => hlast _
  · exact within_mono (hlast _) (by decide)

/-! ## Applications -/

theorem findOpenJobOrThrow_within (jobId : String) :
    (ApplicationsService.findOpenJobOrThrow jobId).Within 1 := by
  refine within_bind (within_await _) fun found => ?_
  split
  · exact within_error _ _
  · split
    · exact within_error _ _
    · exact within_pure _ _

theorem findOrCreateCandidateOrThrow_within (userId : String) :
    (ApplicationsService.findOrCreateCandidateOrThrow userId).Within 3 := by
  refine within_bind (within_await _) fun found => ?_
  split
  · exact within_error _ _
  · refine within_bind (within_await _) fun candidate => ?_
    split
    · exact within_pure _ _
    · exact within_await _

theorem ensureNoDuplicateApplication_within (jobId candidateId : String) :
    (ApplicationsService.ensureNoDuplicateApplication jobId candidateId).Within 1 := by
  refine within_bind (within_await _) fun existing => ?_
  split
  · exact within_error _ _
  · exact within_pure _ _

theorem findCandidateOfUser_within (userId : String) :
    (ApplicationsService.findCandidateOfUser userId).Within 2 := by
  refine within_bind (within_await _) fun user => ?_
  cases user with
  | none => exact within_pure _ _
  | some user => exact within_await _

theorem findOneApplication_within (id userId userRole : String) :
    (ApplicationsService.findOne id userId userRole).Within 3 := by
  refine within_bind (within_await _) fun found => ?_
  split
  · exact within_error _ _
  · refine within_bind (findCandidateOfUser_within userId) fun candidate => ?_
    split
    · exact within_error _ _
    · exact within_pure _ _

theorem roleFilter_within (userId userRole : String) :
    (ApplicationsService.roleFilter userId userRole).Within 2 := by
  unfold ApplicationsService.roleFilter
  split
  · exact within_pure _ _
  · split
    · exact within_bind (findCandidateOfUser_within userId) fun _ => within_pure _ _
    · split
      · exact within_bind (findCandidateOfUser_within userId) fun _ => within_pure _ _
      · exact within_pure _ _

theorem updateData_within (application : ApplicationWithRelations) (dto : UpdateApplicationDto) :
    (ApplicationsService.updateData application dto).Within 1 := by
  unfold ApplicationsService.updateData
  dsimp only
  split
  · split
    · exact within_bind (within_await _) fun now => within_pure _ _
    · exact within_pure _ _
  · exact within_pure _ _

theorem uploadCvOrThrow_within (file : UploadedFile) :
    (ApplicationsService.uploadCvOrThrow file).Within 2 := by
  refine within_bind (within_bind_zero (within_await _) fun uuid => within_pure _ _)
    fun fileKey => ?_
  refine within_tryCatch_zero ?_ fun _ => within_error _ _
  exact within_bind (within_await _) fun _ => within_pure _ _

theorem failCreateWithCv_within (applicationId : Option String) (fileKey : String) :
    (ApplicationsService.failCreateWithCv applicationId fileKey).Within 2 := by
  have hlast : (tryCatch (storage (.delete fileKey)) fun _ => pure () : Prog Api Unit).Within 1 :=
    within_tryCatch_zero (within_await _) fun _ => within_pure _ _
  have hfail : (ApplicationsService.rollbackCreateWithCv applicationId fileKey).Within 2 := by
    cases applicationId with
    | none => exact within_mono hlast (by decide)
    | some id =>
      exact within_bind (within_tryCatch_zero (within_await _) fun _ => within_pure _ _)
        fun _ => hlast
  exact within_bind_zero hfail fun _ => within_error _ _

theorem buildUploadResponse_within (applicationId fileKey uploadUrl : String) :
    (ApplicationsService.buildUploadResponse applicationId fileKey uploadUrl).Within 1 := by
  refine within_bind_zero (within_tryCatch_zero ?_ fun _ => within_pure _ _)
    fun _ => within_pure _ _
  exact within_bind_zero (within_await _) fun _ => within_pure _ _

theorem publishApplication_within (candidateId applicationId jobId fileKey mimeType : String) :
    (ApplicationsService.publishApplication candidateId applicationId jobId fileKey
      mimeType).Within 3 := by
  refine within_bind (within_await _) fun bucket => ?_
  refine within_bind (within_await _) fun now => ?_
  refine within_bind (within_await _) fun published => ?_
  split
  · exact within_error _ _
  · exact within_pure _ _
  · exact within_error _ _

theorem createWithCv_within (userId : String) (file : UploadedFile) (dto : UploadCvDto) :
    (ApplicationsService.createWithCv userId file dto).Within 13 := by
  refine within_bind (findOpenJobOrThrow_within dto.jobId) fun _ => ?_
  refine within_bind (findOrCreateCandidateOrThrow_within userId) fun candidate => ?_
  refine within_bind (ensureNoDuplicateApplication_within dto.jobId candidate.id) fun _ => ?_
  refine within_bind (uploadCvOrThrow_within file) fun ⟨fileKey, uploadUrl⟩ => ?_
  refine within_bind (within_attempt (within_await _)) fun created => ?_
  cases created with
  | error e => exact within_mono (failCreateWithCv_within _ _) (by decide)
  | ok application =>
    refine within_bind (within_attempt (publishApplication_within _ _ _ _ _)) fun handedOver => ?_
    cases handedOver with
    | error e => exact failCreateWithCv_within _ _
    | ok _ => exact within_mono (buildUploadResponse_within _ _ _) (by decide)

/-! ## Interviews, candidates and jobs -/

theorem verifyInterviewer_within (interviewerId : Option String) :
    (InterviewsService.verifyInterviewer interviewerId).Within 1 := by
  unfold InterviewsService.verifyInterviewer
  split
  · exact within_pure _ _
  · refine within_bind (within_await _) fun interviewer => ?_
    cases interviewer with
    | none => exact within_error _ _
    | some user => exact within_pure _ _

theorem verifyFuture_within (scheduledAt : Option Time) :
    (InterviewsService.verifyFuture scheduledAt).Within 1 := by
  refine within_bind (within_await _) fun now => ?_
  split
  · exact within_error _ _
  · exact within_pure _ _

theorem verifyNewDate_within (scheduledAt : Field (Option Time)) :
    (InterviewsService.verifyNewDate scheduledAt).Within 1 := by
  cases scheduledAt with
  | absent => exact within_pure _ _
  | null => exact within_pure _ _
  | value scheduledAt => exact verifyFuture_within scheduledAt

theorem findInterviewOrThrow_within (id : String) :
    (InterviewsService.findOrThrow id).Within 1 := by
  refine within_bind (within_await _) fun existing => ?_
  cases existing with
  | none => exact within_error _ _
  | some x => exact within_pure _ _

theorem findCandidateOrThrow_within (id : String) :
    (CandidatesService.findOrThrow id).Within 1 := by
  refine within_bind (within_await _) fun existing => ?_
  cases existing with
  | none => exact within_error _ _
  | some x => exact within_pure _ _

theorem findJob_within (id : String) : (JobsService.findOne id).Within 1 := by
  refine within_bind (within_await _) fun found => ?_
  split
  · exact within_pure _ _
  · exact within_error _ _

end Parts

/-! ## Requests -/

theorem signup_within (email password fullName : String) (role : Role) :
    (AuthService.signup email password fullName role).Within 4 := by
  refine within_bind (within_await _) fun existing => ?_
  split
  · exact within_error _ _
  refine within_bind (within_await _) fun hashed => ?_
  refine within_bind (within_await _) fun user => ?_
  exact within_bind (within_await _) fun _ => within_pure _ _

theorem login_within (email password : String) (context : LoginContext) :
    (AuthService.login email password context).Within 10 := by
  have hfail : ∀ userId n, (AuthService.handleFailedLogin email context userId >>= fun _ =>
      throw (.unauthorized "Invalid credentials") : Prog Api (Tokens × UserSummary)).Within
        (n + 4) := fun userId n =>
    within_bind (handleFailedLogin_within email context userId) fun _ => within_error _ _
  refine within_bind (checkAccountLockout_within email) fun _ => ?_
  refine within_bind (within_await _) fun found => ?_
  split
  · exact hfail _ _
  · rename_i user _
    refine within_bind (within_await _) fun valid => ?_
    split
    · exact hfail _ _
    refine within_bind (within_bind_zero (within_await _) fun _ => within_pure _ _) fun _ => ?_
    refine within_bind (generateTokens_within user) fun tokens => ?_
    refine within_bind (within_await _) fun _ => ?_
    exact within_bind (within_await _) fun _ => within_pure _ _

theorem refresh_within (cookie : Option RefreshToken) (context : LoginContext) :
    (AuthController.refresh cookie context).Within 8 := by
  refine within_bind (jwtRefreshGuard_within cookie) fun payload => ?_
  refine within_bind (within_await _) fun found => ?_
  split
  · exact within_bind (within_await _) fun _ => within_error _ _
  · rename_i user _
    refine within_bind (generateTokens_within user) fun tokens => ?_
    refine within_bind (within_await _) fun _ => ?_
    exact within_bind (within_await _) fun _ => within_pure _ _

theorem updateApplication_within (id userId userRole : String) (dto : UpdateApplicationDto) :
    (ApplicationsService.update id userId userRole dto).Within 7 := by
  refine within_bind (findOneApplication_within id userId userRole) fun application => ?_
  refine within_bind (findCandidateOfUser_within userId) fun candidate => ?_
  dsimp only
  split
  · exact within_error _ _
  split
  · exact within_error _ _
  exact within_bind (updateData_within application dto) fun data => within_await _

theorem removeApplication_within (id userId userRole : String) :
    (ApplicationsService.remove id userId userRole).Within 7 := by
  refine within_bind (findOneApplication_within id userId userRole) fun application => ?_
  refine within_bind (findCandidateOfUser_within userId) fun candidate => ?_
  split
  · exact within_error _ _
  refine within_bind (within_await _) fun now => ?_
  exact within_bind (within_await _) fun _ => within_pure _ _

/-- The costliest request is an upload that gets as far as publishing and is then rolled back. -/
theorem prog_within (r : Request) : r.prog.Within 13 := by
  have hdone : ∀ {α : Type} {p : Prog Api α} {f : α → Response} {n : ℕ}, p.Within n → n ≤ 13 →
      (p >>= fun a => pure (f a)).Within 13 := fun hp hn =>
    within_mono (within_bind_zero hp fun _ => within_pure _ _) hn
  cases r with
  | signup email password fullName role => exact hdone (signup_within _ _ _ _) (by decide)
  | login email password context => exact hdone (login_within _ _ _) (by decide)
  | refresh cookie context => exact hdone (refresh_within _ _) (by decide)
  | logout cookie context =>
    refine hdone (n := 5) (within_bind (jwtAuthGuard_within cookie) fun user => ?_) (by decide)
    refine within_bind (within_await _) fun _ => ?_
    exact within_bind (within_await _) fun _ => within_await _
  | updateProfile cookie id dto =>
    refine hdone (n := 4) (within_bind (jwtAuthGuard_within cookie) fun user => ?_) (by decide)
    unfold UsersService.updateProfile
    dsimp only
    split
    · exact within_error _ _
    refine within_bind (findLiveOrThrow_within id) fun _ => ?_
    exact within_bind (within_await _) fun _ => within_pure _ _
  | updateRole cookie id role =>
    refine hdone (n := 4) (within_bind (jwtAuthGuard_within cookie) fun user => ?_) (by decide)
    refine within_bind (rolesGuard_within _ user) fun _ => ?_
    refine within_bind (findLiveOrThrow_within id) fun _ => ?_
    exact within_bind (within_await _) fun _ => within_pure _ _
  | softDeleteUser cookie id =>
    refine hdone (n := 5) (within_bind (jwtAuthGuard_within cookie) fun user => ?_) (by decide)
    refine within_bind (rolesGuard_within _ user) fun _ => ?_
    refine within_bind (findLiveOrThrow_within id) fun _ => ?_
    refine within_bind (within_await _) fun now => ?_
    exact within_bind (within_await _) fun _ => within_pure _ _
  | createApplication userId dto =>
    refine hdone (n := 6) (within_bind (findOpenJobOrThrow_within dto.jobId) fun _ => ?_) (by decide)
    refine within_bind (findOrCreateCandidateOrThrow_within userId) fun candidate => ?_
    refine within_bind (ensureNoDuplicateApplication_within dto.jobId candidate.id) fun _ => ?_
    exact within_await _
  | createApplicationWithCv userId file dto =>
    exact hdone (createWithCv_within userId file dto) (by decide)
  | findAllApplications userId userRole query =>
    refine hdone (n := 4) (within_bind (roleFilter_within userId userRole) fun byRole => ?_)
      (by decide)
    refine within_bind (within_await _) fun data => ?_
    exact within_bind (within_await _) fun total => within_pure _ _
  | findOneApplication id userId userRole =>
    exact hdone (findOneApplication_within id userId userRole) (by decide)
  | updateApplication id userId userRole dto =>
    exact hdone (updateApplication_within id userId userRole dto) (by decide)
  | removeApplication id userId userRole =>
    exact hdone (removeApplication_within id userId userRole) (by decide)
  | findOneCandidate cookie id =>
    refine within_bind (jwtAuthGuard_within cookie) fun user =>
      within_bind_zero ?_ fun _ => within_pure _ _
    refine within_bind (rolesGuard_within _ user) fun _ => ?_
    refine within_bind (within_await _) fun candidate => ?_
    cases candidate with
    | none => exact within_error _ _
    | some x => exact within_pure _ _
  | updateCandidate id dto =>
    refine hdone (n := 2) (within_bind (findCandidateOrThrow_within id) fun _ => ?_) (by decide)
    exact within_await _
  | removeCandidate id =>
    refine hdone (n := 2) (within_bind (findCandidateOrThrow_within id) fun _ => ?_) (by decide)
    exact within_await _
  | updateJob id userId userRole dto =>
    refine hdone (n := 2) (within_bind (findJob_within id) fun job => ?_) (by decide)
    dsimp only
    split
    · exact within_error _ _
    · exact within_await _
  | removeJob id userId userRole =>
    refine hdone (n := 3) (within_bind (findJob_within id) fun job => ?_) (by decide)
    dsimp only
    split
    · exact within_error _ _
    refine within_bind (within_await _) fun now => ?_
    exact within_bind (within_await _) fun _ => within_pure _ _
  | findAllInterviews cookie query =>
    refine within_bind (jwtAuthGuard_within cookie) fun user =>
      within_bind_zero ?_ fun _ => within_pure _ _
    refine within_bind (rolesGuard_within _ user) fun _ => ?_
    refine within_bind (within_await _) fun data => ?_
    exact within_bind (within_await _) fun total => within_pure _ _
  | findOneInterview cookie id =>
    refine within_bind (jwtAuthGuard_within cookie) fun user =>
      within_bind_zero ?_ fun _ => within_pure _ _
    refine within_bind (rolesGuard_within _ user) fun _ => ?_
    refine within_bind (within_await _) fun interview => ?_
    cases interview with
    | none => exact within_error _ _
    | some x => exact within_pure _ _
  | createInterview dto =>
    refine hdone (n := 4) (within_bind (within_await _) fun application => ?_) (by decide)
    cases application with
    | none => exact within_error _ _
    | some application =>
      refine within_bind (verifyInterviewer_within dto.interviewerId) fun _ => ?_
      refine within_bind (verifyFuture_within dto.scheduledAt) fun _ => ?_
      exact within_await _
  | updateInterview id dto =>
    refine hdone (n := 4) (within_bind (findInterviewOrThrow_within id) fun _ => ?_) (by decide)
    refine within_bind (verifyNewDate_within dto.scheduledAt) fun _ => ?_
    refine within_bind (verifyInterviewer_within _) fun _ => ?_
    exact within_await _
  | removeInterview id =>
    refine hdone (n := 2) (within_bind (findInterviewOrThrow_within id) fun _ => ?_) (by decide)
    exact within_bind (within_await _) fun _ => within_pure _ _

theorem guards_within (r : HttpRequest) : r.guards.Within 2 := by
  have hrequest : ∀ (user : UserPayload) (route : UserRoute),
      (route.request r.accessToken r.context user).Within 0 := by
    intro user route
    cases route with
    | uploadCv file dto =>
      simp only [UserRoute.request]
      obtain ⟨accepted, -, hpipe⟩ | ⟨e, hpipe⟩ := pipe_cases file <;> rw [hpipe]
      · exact within_pure _ _
      · exact within_error _ _
    | _ => exact within_pure _ _
  unfold HttpRequest.guards
  split
  · exact within_pure _ _
  · exact within_pure _ _
  · exact within_pure _ _
  · split
    · exact within_mono (hrequest _ _) (by decide)
    · refine within_bind_zero (within_bind_zero (jwtAuthGuard_within _) fun user => ?_)
        fun user => hrequest user _
      split
      · exact within_pure _ _
      · exact within_bind_zero (rolesGuard_within _ user) fun _ => within_pure _ _

theorem http_within (r : HttpRequest) : r.prog.Within 15 := by
  rw [r.prog_eq_guards]
  exact within_bind (guards_within r) prog_within

/-! ## Runs -/

/-- `bcrypt` has a hash for every password. -/
def World.Hashes (w : World) : Prop := ∀ plain, ∃ hashed, w.bcrypt plain hashed = true

section Run

variable {incoming : ℕ → HttpRequest} {w w' : World} {ls : List (Label ℕ Choice Move)}
  {cfg cfg' : Config Api ℕ World Response} {l : Label ℕ Choice Move}

theorem hashes_answer (i : ℕ) (c : Call) (w : World) (hw : w.Hashes) :
    ∃ ch r w', ch.fails = false ∧ gateway.exec i c ch w = some (r, w') ∧ w'.Hashes := by
  have hx : ∃ r w', alone i c w r w' := by
    by_cases hc : ∃ plain, c = .bcryptHash plain
    · obtain ⟨plain, rfl⟩ := hc
      obtain ⟨hashed, hhash⟩ := hw plain
      exact ⟨.ok hashed, w, alone_iff.mpr ⟨{ text := hashed }, rfl, if_pos hhash⟩⟩
    · exact exists_answer i c (fun plain hplain => hc ⟨plain, hplain⟩) w
  obtain ⟨r, w', ch, hok, hx⟩ := hx
  refine ⟨ch, r, w', hok, hx, ?_⟩
  rw [World.Hashes, (exec_frame hx).bcrypt]
  exact hw

/-- Wherever a run has led, whatever has failed and whoever else is under way, a request has made at
most fifteen calls, and its own calls alone, none failing, take it to its end within them. -/
theorem requests_finish (hw : w.Hashes)
    (hrun : gateway.run ls (.start w (HttpRequest.pool incoming)) = some cfg) (i : ℕ) :
    (cfg.trace i).length ≤ 15 ∧
      ∃ chs : List Choice, (cfg.trace i).length + chs.length ≤ 15 ∧
        (∀ ch ∈ chs, ch.fails = false) ∧ ∃ cfg', gateway.run (chs.map (.run i)) cfg = some cfg' ∧
          ∃ o, cfg'.outcome? i = some o := by
  have hbound : (HttpRequest.pool incoming i).Within 15 := http_within (incoming i)
  obtain ⟨hlength, hwithin⟩ := run_within hbound hrun
  have hhashes : cfg.world.Hashes :=
    Machine.run_induction (fun cfg => cfg.world.Hashes)
      (fun h hs plain => by rw [bcrypt_step hs]; exact h plain) hw hrun
  have hcalls : (cfg.pool i).Calls fun _ => True :=
    calls_run (fun i => http_calls (fun _ _ _ => trivial) (incoming i)) hrun i
  obtain ⟨chs, hchs, hok, hend⟩ := finish_within (Q := fun ch : Choice => ch.fails = false)
    (fun c w _ hw => hashes_answer i c w hw) hwithin hcalls rfl hhashes
  exact ⟨hlength, chs, by omega, hok, hend⟩

end Run

/-! ## Eve -/

theorem seeded_hashes : seeded.Hashes := fun plain => ⟨"hash:" ++ plain, by simp [seeded]⟩

def everybodyIsEve (_ : ℕ) : HttpRequest where
  route := .inl (.signup "eve@talentflow.dev" "Eve-2024!" "Eve" .interviewer)

theorem requests_finish_eve :
    ∃ cfg, gateway.run [.run 0 {}, .run 1 {}]
        (.start seeded (HttpRequest.pool everybodyIsEve)) = some cfg ∧
      ∀ i, (cfg.trace i).length ≤ 15 ∧
        ∃ chs : List Choice, (cfg.trace i).length + chs.length ≤ 15 ∧
          (∀ ch ∈ chs, ch.fails = false) ∧ ∃ cfg', gateway.run (chs.map (.run i)) cfg = some cfg' ∧
            ∃ o, cfg'.outcome? i = some o := by
  obtain ⟨cfg, hrun⟩ := Option.isSome_iff_exists.mp (show (gateway.run [.run 0 {}, .run 1 {}]
    (.start seeded (HttpRequest.pool everybodyIsEve))).isSome = true by decide +kernel)
  exact ⟨cfg, hrun, requests_finish seeded_hashes hrun⟩

end TalentFlow
