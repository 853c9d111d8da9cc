import TalentFlow.Gateway.Routes

/-!
# Guarantees.Mediation

Who may do what. Before a handler that is not public makes any call that writes, its guards have
found a token that has not expired, of a user who is not deleted and has one of the roles the handler
asks for; and the history of the request shows what entitles this user to this write. The rule is
one predicate on the user, the history and the call, `Entitled`; every handler keeps to it.

* `handle_entitled`: a handler that runs for a user makes only calls the user is entitled to.
* `calls_mediated`: in every run, every call of a request to such a handler, and its success.
-/

namespace TalentFlow

open Data Async

/-! ## The rule -/

/-- The history has the candidate with the email of the user's account, found or created. -/
def ReadCandidate (userId : String) (candidate : Candidate) (h : List (Event Api)) : Prop :=
  ∃ u : User, (⟨.prisma (.userFindUnique (.id userId)), .ok (some u)⟩ : Event Api) ∈ h ∧
    ((⟨.prisma (.candidateFindUnique (.email u.email)), .ok (some candidate)⟩ : Event Api) ∈ h ∨
      ∃ d : CandidateCreate, d.email = u.email ∧
        (⟨.prisma (.candidateCreate d), .ok candidate⟩ : Event Api) ∈ h)

/-- The user is the applicant of the application, by what the history has read. -/
def ReadApplicant (user : UserPayload) (a : ApplicationWithRelations) (h : List (Event Api)) : Prop :=
  ∃ candidate, ReadCandidate user.id candidate h ∧ a.candidateId = candidate.id

theorem ReadCandidate.mono {userId : String} {candidate : Candidate} {h h' : List (Event Api)}
    (hread : ReadCandidate userId candidate h) (hmem : ∀ e ∈ h, e ∈ h') :
    ReadCandidate userId candidate h' := by
  obtain ⟨u, hu, hfound | ⟨d, hd, hcreated⟩⟩ := hread
  · exact ⟨u, hmem _ hu, .inl (hmem _ hfound)⟩
  · exact ⟨u, hmem _ hu, .inr ⟨d, hd, hmem _ hcreated⟩⟩

/-- What may be written to an application that has been read: a review by the owner of its job or an
administrator, a withdrawal by its applicant or an administrator, a letter by its applicant. -/
inductive MayWrite (user : UserPayload) (a : ApplicationWithRelations) (d : ApplicationUpdate)
    (h : List (Event Api)) : Prop where
  | review (hright : a.job.createdById = user.id ∨ user.role = .admin)
      (hdata : d.deletedAt = .absent)
  | withdraw (now : Time) (hright : ReadApplicant user a h ∨ user.role = .admin)
      (hdata : d = { deletedAt := .value now, status := .value .withdrawn })
  | letter (dto : UpdateApplicationDto) (hright : ReadApplicant user a h)
      (hdto : dto.givesReview = false)
      (hdata : d =
        { stage := dto.stage, status := dto.status, notes := dto.notes,
          coverLetter := dto.coverLetter })

def Uploaded (fileKey : String) (h : List (Event Api)) : Prop :=
  ∃ body mimeType answer, (⟨.storage (.upload body fileKey mimeType), answer⟩ : Event Api) ∈ h

theorem Uploaded.mono {fileKey : String} {h h' : List (Event Api)} (hup : Uploaded fileKey h)
    (hmem : ∀ e ∈ h, e ∈ h') : Uploaded fileKey h' := by
  obtain ⟨body, mimeType, answer, he⟩ := hup
  exact ⟨body, mimeType, answer, hmem _ he⟩

def Created (candidateId applicationId jobId fileKey : String) (h : List (Event Api)) : Prop :=
  ∃ d a, (⟨.prisma (.applicationCreate d), .ok a⟩ : Event Api) ∈ h ∧ a.id = applicationId ∧
    d.candidateId = candidateId ∧ d.jobId = jobId ∧ d.cvFileKey = some fileKey

theorem Created.mono {candidateId applicationId jobId fileKey : String} {h h' : List (Event Api)}
    (hcreated : Created candidateId applicationId jobId fileKey h) (hmem : ∀ e ∈ h, e ∈ h') :
    Created candidateId applicationId jobId fileKey h' := by
  obtain ⟨d, a, he, hd⟩ := hcreated
  exact ⟨d, a, hmem _ he, hd⟩

/-- What `user` has to be, or the request to have read or made, before it makes the call. -/
def Entitled (user : UserPayload) (h : List (Event Api)) : Call → Prop
  | .prisma (.userUpdate id d) =>
    user.role = .admin ∨ id = user.id ∧ d.role = .absent ∧ d.deletedAt = .absent
  | .prisma (.jobUpdate id _) =>
    ∃ job : Job, (⟨.prisma (.jobFindUnique id), .ok (some job)⟩ : Event Api) ∈ h ∧
      (job.createdById = user.id ∨ user.role = .admin)
  | .prisma (.candidateCreate d) =>
    ∃ u : User, (⟨.prisma (.userFindUnique (.id user.id)), .ok (some u)⟩ : Event Api) ∈ h ∧
      d.email = u.email
  | .prisma (.candidateUpdate _ _) => user.role ∈ [Role.recruiter, .admin]
  | .prisma (.candidateDelete _) => user.role = .admin
  | .prisma (.applicationCreate d) =>
    ∃ candidate, ReadCandidate user.id candidate h ∧ d.candidateId = candidate.id
  | .prisma (.applicationUpdate id d) =>
    ∃ a : ApplicationWithRelations,
      (⟨.prisma (.applicationFindUnique id), .ok (some a)⟩ : Event Api) ∈ h ∧
        a.deletedAt = none ∧ MayWrite user a d h
  | .prisma (.applicationDelete id) =>
    ∃ d a, (⟨.prisma (.applicationCreate d), .ok a⟩ : Event Api) ∈ h ∧ a.id = id
  | .prisma (.interviewCreate _) => user.role ∈ [Role.recruiter, .admin]
  | .prisma (.interviewUpdate _ _) => user.role ∈ [Role.recruiter, .admin]
  | .redis (.del (.refreshToken id)) => id = user.id
  | .redis (.set (.blacklist id) _ _) => id = user.tokenId.getD ""
  | .storage (.upload _ key _) =>
    ∃ uuid extension, (⟨.randomUUID, .ok uuid⟩ : Event Api) ∈ h ∧ key = cvFileKey uuid extension
  | .storage (.delete key) => Uploaded key h
  | .publish event => Created event.candidateId event.applicationId event.jobId event.fileKey h
  | .randomUUID => True
  | c => c.IsQuiet

theorem entitled_quiet (user : UserPayload) (c : Call) (hc : c.IsQuiet) (h : List (Event Api)) :
    Entitled user h c := by
  cases c with
  | prisma c => cases c <;> trivial
  | storage c => cases c <;> trivial
  | redis c => exact hc.elim
  | publish event => exact hc.elim
  | _ => trivial

/-! ## Handlers -/

section Handlers

variable {user : UserPayload} {h : List (Event Api)} {α β : Type}

/-- The monitor of a handler that runs for the user. -/
abbrev entitlement (user : UserPayload) : Monitor Api (List (Event Api)) := recorder (Entitled user)

theorem obeys_entitled {p : Prog Api α} (hp : p.Calls fun c => ∀ h, Entitled user h c) :
    Obeys (entitlement user) (fun _ _ => True) p h :=
  obeys_of_allowed hp fun h _ hc => hc h

theorem entitled_bind {post : Except Exception α → List (Event Api) → Prop} {p : Prog Api α}
    {f : α → Prog Api β} (hp : Obeys (entitlement user) post p h)
    (hf : ∀ a h', post (.ok a) h' → (∀ e ∈ h, e ∈ h') →
      Obeys (entitlement user) (fun _ _ => True) (f a) h') :
    Obeys (entitlement user) (fun _ _ => True) (p >>= f) h := by
  refine obeys_bind (obeys_mono (obeys_grows hp) fun o h' ho => ?_)
  cases o with
  | ok a => exact hf a h' ho.1 ho.2
  | error e => trivial

theorem entitled_then {p : Prog Api α} {f : α → Prog Api β}
    (hp : Obeys (entitlement user) (fun _ _ => True) p h)
    (hf : ∀ a h', (∀ e ∈ h, e ∈ h') → Obeys (entitlement user) (fun _ _ => True) (f a) h') :
    Obeys (entitlement user) (fun _ _ => True) (p >>= f) h :=
  entitled_bind hp fun a h' _ hmem => hf a h' hmem

theorem entitled_await {post : Except Exception α → List (Event Api) → Prop} {c : Call}
    {f : Api.Value c → Prog Api α} (hc : c.IsQuiet)
    (hok : ∀ a, Obeys (entitlement user) post (f a) (h ++ [⟨c, .ok a⟩]))
    (herr : ∀ e, post (.error e) (h ++ [⟨c, .error e⟩])) :
    Obeys (entitlement user) post (Prog.await c >>= f) h :=
  obeys_await (entitled_quiet user c hc h) (fun a _ => hok a) fun e _ => herr e

theorem entitled_last {c : Call} {post : Except Exception (Api.Value c) → List (Event Api) → Prop}
    (hc : c.IsQuiet) (hr : ∀ r, post r (h ++ [⟨c, r⟩])) :
    Obeys (entitlement user) post (@Prog.await Api c) h :=
  obeys_await_last (entitled_quiet user c hc h) fun r _ => hr r

theorem findJob_reads (id : String) :
    Obeys (entitlement user) (fun o h' => ∀ job, o = .ok job →
        (⟨.prisma (.jobFindUnique id), .ok (some job)⟩ : Event Api) ∈ h')
      (JobsService.findOne id) h := by
  refine entitled_await trivial (fun found => ?_) fun e job h => nomatch h
  split
  · rename_i job hfound
    intro job' heq
    cases heq
    rw [Option.filter_eq_some_iff] at hfound
    simp [hfound.1]
  · exact fun job h => nomatch h

theorem findCandidateOfUser_reads (userId : String) :
    Obeys (entitlement user) (fun o h' => ∀ candidate, o = .ok candidate →
        ∀ c ∈ candidate, ReadCandidate userId c h')
      (ApplicationsService.findCandidateOfUser userId) h := by
  refine entitled_await trivial (fun found => ?_) fun e candidate h => nomatch h
  cases found with
  | none =>
    intro candidate heq c hc
    cases heq
    cases hc
  | some u =>
    refine entitled_last trivial fun o candidate heq c hc => ?_
    cases heq
    cases hc
    exact ⟨u, by simp, .inl (by simp)⟩

theorem findOrCreateCandidateOrThrow_reads :
    Obeys (entitlement user) (fun o h' => ∀ candidate, o = .ok candidate →
        ReadCandidate user.id candidate h')
      (ApplicationsService.findOrCreateCandidateOrThrow user.id) h := by
  refine entitled_await trivial (fun found => ?_) fun e candidate h => nomatch h
  cases found with
  | none => exact fun candidate h => nomatch h
  | some u =>
    refine entitled_await trivial (fun found => ?_) fun e candidate h => nomatch h
    cases found with
    | some candidate =>
      intro candidate' heq
      cases heq
      exact ⟨u, by simp, .inl (by simp)⟩
    | none =>
      refine obeys_await_last ⟨u, by simp, rfl⟩ fun o _ => ?_
      intro candidate heq
      cases heq
      exact ⟨u, by simp [recorder], .inr ⟨⟨u.email, u.fullName⟩, rfl, by simp [recorder]⟩⟩

theorem findOneApplication_reads (id userId userRole : String) :
    Obeys (entitlement user) (fun o h' => ∀ a, o = .ok a →
        (⟨.prisma (.applicationFindUnique id), .ok (some a)⟩ : Event Api) ∈ h' ∧
          a.deletedAt = none)
      (ApplicationsService.findOne id userId userRole) h := by
  refine entitled_await trivial (fun found => ?_) fun e a h => nomatch h
  split
  · exact fun a h => nomatch h
  · rename_i a hfound
    rw [Option.filter_eq_some_iff] at hfound
    refine obeys_bind (obeys_mono (obeys_grows (findCandidateOfUser_reads userId)) ?_)
    intro o h' ho
    cases o with
    | error e => exact fun a h => nomatch h
    | ok candidate =>
      dsimp only
      split
      · exact fun a h => nomatch h
      · intro a' heq
        cases heq
        exact ⟨ho.2 _ (by simp [hfound.1]), by simpa using hfound.2⟩

theorem toString_admin {role : Role} : role.toString = "ADMIN" ↔ role = .admin := by
  cases role <;> decide

theorem job_right {createdById : String}
    (h : ¬ (createdById ≠ user.id ∧ user.role.toString ≠ "ADMIN")) :
    createdById = user.id ∨ user.role = .admin := by
  by_cases hid : createdById = user.id
  · exact .inl hid
  · exact .inr (toString_admin.mp (by simpa [hid] using h))

theorem updateJob_entitled (id : String) (dto : UpdateJobDto) :
    Obeys (entitlement user) (fun _ _ => True)
      (JobsService.update id user.id user.role.toString dto) h := by
  refine entitled_bind (findJob_reads id) fun job h' hjob _ => ?_
  split
  · trivial
  · rename_i hright
    exact obeys_await_last ⟨job, hjob job rfl, job_right hright⟩ fun _ _ => trivial

theorem removeJob_entitled (id : String) :
    Obeys (entitlement user) (fun _ _ => True)
      (JobsService.remove id user.id user.role.toString) h := by
  refine entitled_bind (findJob_reads id) fun job h' hjob _ => ?_
  split
  · trivial
  · rename_i hright
    refine entitled_await trivial (fun now => ?_) fun _ => trivial
    refine obeys_await ⟨job, ?_, job_right hright⟩ (fun _ _ => trivial) fun _ _ => trivial
    exact List.mem_append_left _ (hjob job rfl)

theorem applicant_of_isApplicant {a : ApplicationWithRelations} {candidate : Option Candidate}
    (h : ApplicationsService.isApplicant a candidate = true) :
    ∃ c ∈ candidate, a.candidateId = c.id := by
  cases candidate with
  | none => cases h
  | some c => exact ⟨c, rfl, of_decide_eq_true h⟩

theorem updateData_writes (a : ApplicationWithRelations) (dto : UpdateApplicationDto) :
    Obeys (entitlement user) (fun o _ => ∀ d, o = .ok d → d.deletedAt = .absent ∧
        (dto.givesReview = false → d =
          { stage := dto.stage, status := dto.status, notes := dto.notes,
            coverLetter := dto.coverLetter }))
      (ApplicationsService.updateData a dto) h := by
  unfold ApplicationsService.updateData
  dsimp only
  split
  · rename_i status hstatus
    have hgives : dto.givesReview = true := by simp [UpdateApplicationDto.givesReview, hstatus]
    split
    · refine entitled_await trivial (fun now d heq => ?_) fun e d h => nomatch h
      cases heq
      exact ⟨rfl, fun h => absurd hgives (by simp [h])⟩
    · intro d heq
      cases heq
      exact ⟨rfl, fun _ => rfl⟩
  · intro d heq
    cases heq
    exact ⟨rfl, fun _ => rfl⟩

theorem updateApplication_entitled (id : String) (dto : UpdateApplicationDto) :
    Obeys (entitlement user) (fun _ _ => True)
      (ApplicationsService.update id user.id user.role.toString dto) h := by
  refine entitled_bind (findOneApplication_reads id _ _) fun a h₁ ha _ => ?_
  obtain ⟨hread, hlive⟩ := ha a rfl
  refine entitled_bind (findCandidateOfUser_reads user.id) fun candidate h₂ hcandidate hmem => ?_
  dsimp only
  split
  · trivial
  rename_i hreview
  split
  · trivial
  rename_i hright
  refine entitled_bind (updateData_writes a dto) fun d h₃ hd hmem' => ?_
  obtain ⟨hdeleted, hletter⟩ := hd d rfl
  refine obeys_await_last ⟨a, hmem' _ (hmem _ hread), hlive, ?_⟩ fun _ _ => trivial
  by_cases howner : ApplicationsService.isRecruiter a user.id = true
  · exact .review (.inl (by simpa [ApplicationsService.isRecruiter] using howner)) hdeleted
  by_cases hadmin : ApplicationsService.isAdmin user.role.toString = true
  · exact .review (.inr (toString_admin.mp (by simpa [ApplicationsService.isAdmin] using hadmin)))
      hdeleted
  · have hgives : dto.givesReview = false := by simpa [howner, hadmin] using hreview
    have happlicant : ApplicationsService.isApplicant a candidate = true := by
      simpa [howner, hadmin] using hright
    obtain ⟨c, hc, hid⟩ := applicant_of_isApplicant happlicant
    refine .letter dto ⟨c, ?_, hid⟩ hgives (hletter hgives)
    exact (hcandidate candidate rfl c hc).mono hmem'

theorem removeApplication_entitled (id : String) :
    Obeys (entitlement user) (fun _ _ => True)
      (ApplicationsService.remove id user.id user.role.toString) h := by
  refine entitled_bind (findOneApplication_reads id _ _) fun a h₁ ha _ => ?_
  obtain ⟨hread, hlive⟩ := ha a rfl
  refine entitled_bind (findCandidateOfUser_reads user.id) fun candidate h₂ hcandidate hmem => ?_
  split
  · trivial
  rename_i hright
  refine entitled_await trivial (fun now => ?_) fun _ => trivial
  refine obeys_await ⟨a, List.mem_append_left _ (hmem _ hread), hlive, .withdraw now ?_ rfl⟩
    (fun _ _ => trivial) fun _ _ => trivial
  by_cases hadmin : ApplicationsService.isAdmin user.role.toString = true
  · exact .inr (toString_admin.mp (by simpa [ApplicationsService.isAdmin] using hadmin))
  · have happlicant : ApplicationsService.isApplicant a candidate = true := by
      simpa [hadmin] using hright
    obtain ⟨c, hc, hid⟩ := applicant_of_isApplicant happlicant
    exact .inl ⟨c, (hcandidate candidate rfl c hc).mono fun e he => List.mem_append_left _ he, hid⟩

/-- What `create` and `createWithCv` begin with has found the candidate of the user. -/
theorem submission_entitled {jobId : String} {f : Candidate → Prog Api α}
    (hf : ∀ candidate h', ReadCandidate user.id candidate h' →
      Obeys (entitlement user) (fun _ _ => True) (f candidate) h') :
    Obeys (entitlement user) (fun _ _ => True)
      (ApplicationsService.findOpenJobOrThrow jobId >>= fun _ =>
        ApplicationsService.findOrCreateCandidateOrThrow user.id >>= fun candidate =>
          ApplicationsService.ensureNoDuplicateApplication jobId candidate.id >>= fun _ =>
            f candidate) h := by
  refine entitled_then (obeys_entitled (findOpenJobOrThrow_calls (entitled_quiet user) _))
    fun _ _ _ => ?_
  refine entitled_bind findOrCreateCandidateOrThrow_reads fun candidate h₁ hcandidate _ => ?_
  refine entitled_then (obeys_entitled
    (ensureNoDuplicateApplication_calls (entitled_quiet user) _ _)) fun _ h₂ hmem => ?_
  exact hf candidate h₂ ((hcandidate candidate rfl).mono hmem)

theorem createApplication_entitled (dto : CreateApplicationDto) :
    Obeys (entitlement user) (fun _ _ => True) (ApplicationsService.create user.id dto) h :=
  submission_entitled fun candidate _ hread =>
    obeys_await_last ⟨candidate, hread, rfl⟩ fun _ _ => trivial

theorem uploadCvOrThrow_uploads (file : UploadedFile) :
    Obeys (entitlement user) (fun o h' => ∀ key url, o = .ok (key, url) → Uploaded key h')
      (ApplicationsService.uploadCvOrThrow file) h := by
  rw [ApplicationsService.uploadCvOrThrow, generateCvFileKey, bind_assoc]
  refine obeys_await trivial (fun uuid _ => ?_) fun e _ key url h => by cases h
  rw [pure_bind]
  refine obeys_tryCatch (obeys_await ?_ (fun uploaded _ => ?_) fun e _ => ?_)
  · exact ⟨uuid, _, by simp [recorder], rfl⟩
  · intro key url heq
    cases heq
    exact ⟨_, _, _, List.mem_append_right _ (List.mem_singleton_self _)⟩
  · intro key url h
    cases h

/-- The `catch` takes back what the request itself has stored. -/
theorem failCreateWithCv_entitled {applicationId : Option String} {fileKey : String}
    (hcreated : ∀ id ∈ applicationId,
      ∃ d a, (⟨.prisma (.applicationCreate d), .ok a⟩ : Event Api) ∈ h ∧ a.id = id)
    (huploaded : Uploaded fileKey h) :
    Obeys (entitlement user) (fun _ _ => True)
      (ApplicationsService.failCreateWithCv applicationId fileKey) h := by
  have hfile : ∀ h', (∀ e ∈ h, e ∈ h') → Obeys (entitlement user) (fun _ _ => True)
      (tryCatch (storage (.delete fileKey)) fun _ => pure ()) h' := by
    intro h' hmem
    exact obeys_tryCatch (obeys_await_last (huploaded.mono hmem) fun r _ => by cases r <;> trivial)
  refine entitled_then ?_ fun _ _ _ => trivial
  unfold ApplicationsService.rollbackCreateWithCv
  cases applicationId with
  | none => exact hfile h fun _ => id
  | some id =>
    exact entitled_then (obeys_tryCatch (obeys_await_last (hcreated id rfl)
      fun r _ => by cases r <;> trivial)) fun _ h' hmem => hfile h' hmem

theorem publishApplication_entitled {candidateId applicationId jobId fileKey : String}
    (mimeType : String) (hcreated : Created candidateId applicationId jobId fileKey h) :
    Obeys (entitlement user) (fun _ _ => True)
      (ApplicationsService.publishApplication candidateId applicationId jobId fileKey mimeType)
      h := by
  refine entitled_await trivial (fun bucket => ?_) fun _ => trivial
  refine entitled_await trivial (fun now => ?_) fun _ => trivial
  refine obeys_await (hcreated.mono (by simp +contextual)) (fun published _ => ?_) fun _ _ => trivial
  cases published with
  | none => trivial
  | some accepted => cases accepted <;> trivial

theorem createApplicationWithCv_entitled (file : UploadedFile) (dto : UploadCvDto) :
    Obeys (entitlement user) (fun _ _ => True)
      (ApplicationsService.createWithCv user.id file dto) h := by
  refine submission_entitled fun candidate h₁ hread => ?_
  refine entitled_bind (uploadCvOrThrow_uploads file) fun (fileKey, url) h₂ huploaded hmem => ?_
  have hup := huploaded fileKey url rfl
  refine obeys_attempt (obeys_await_last ⟨candidate, hread.mono hmem, rfl⟩ fun created _ => ?_)
  cases created with
  | error e =>
    exact failCreateWithCv_entitled (fun id h => nomatch h)
      (hup.mono fun e he => List.mem_append_left _ he)
  | ok a =>
    have hcreated : Created candidate.id a.id dto.jobId fileKey (h₂ ++ [⟨.prisma (.applicationCreate
        { jobId := dto.jobId, candidateId := candidate.id, coverLetter := dto.coverLetter,
          cvFileKey := some fileKey, cvFileUrl := some url }), .ok a⟩]) :=
      ⟨_, a, by simp, rfl, rfl, rfl, rfl⟩
    refine obeys_attempt (obeys_mono (obeys_grows (publishApplication_entitled file.mimetype hcreated))
      fun o h₃ ho => ?_)
    cases o with
    | error e =>
      refine failCreateWithCv_entitled (fun id hid => ?_)
        (hup.mono fun e he => ho.2 e (List.mem_append_left _ he))
      obtain ⟨d, a', he, hid', -⟩ := hcreated.mono ho.2
      cases hid
      exact ⟨d, a', he, hid'⟩
    | ok _ => exact obeys_entitled (buildUploadResponse_calls (entitled_quiet user) _ _ _)

theorem updateProfile_entitled (id : String) (dto : UpdateUserDto) :
    Obeys (entitlement user) (fun _ _ => True)
      (UsersService.updateProfile id user.id user.role.toString dto) h := by
  unfold UsersService.updateProfile
  dsimp only
  split
  · trivial
  rename_i hright
  refine obeys_entitled (calls_bind (findLiveOrThrow_calls (entitled_quiet user) id) fun _ => ?_)
  refine calls_bind (calls_await fun h => ?_) fun _ => trivial
  obtain hid | hadmin := job_right hright
  · exact .inr ⟨hid, rfl, rfl⟩
  · exact .inl hadmin

theorem logout_entitled (context : LoginContext) :
    Obeys (entitlement user) (fun _ _ => True)
      (AuthService.logout user.id (user.tokenId.getD "") context) h := by
  refine obeys_await rfl (fun _ _ => ?_) fun _ _ => trivial
  exact obeys_await rfl (fun _ _ => entitled_last trivial fun _ => trivial) fun _ _ => trivial

theorem request_entitled (r : Request) (hfoot : ∀ c, r.footprint c → ∀ h, Entitled user h c) :
    Obeys (entitlement user) (fun _ _ => True) r.prog h :=
  obeys_entitled (calls_mono (prog_calls r) fun c hc h =>
    hc.elim (fun hquiet => entitled_quiet user c hquiet h) fun hc => hfoot c hc h)

/-- A handler that runs for a user with one of its roles makes only calls the user is entitled
to. -/
theorem handle_entitled (context : LoginContext) (route : UserRoute)
    (hroles : ∀ roles ∈ route.requiredRoles, user.role ∈ roles) :
    Obeys (entitlement user) (fun _ _ => True) (route.handle context user) h := by
  have hadmin : ∀ (route' : UserRoute), route'.requiredRoles = some [.admin] → route = route' →
      user.role = .admin := by
    rintro route' hr rfl
    simpa using hroles _ hr
  cases route with
  | logout => exact entitled_then (logout_entitled context) fun _ _ _ => trivial
  | updateProfile id dto => exact entitled_then (updateProfile_entitled id dto) fun _ _ _ => trivial
  | updateRole id role =>
    refine obeys_entitled (calls_bind (calls_bind (findLiveOrThrow_calls (entitled_quiet user) id)
      fun _ => ?_) fun _ => trivial)
    exact calls_bind (calls_await fun _ => .inl (hadmin _ rfl rfl)) fun _ => trivial
  | softDeleteUser id =>
    refine obeys_entitled (calls_bind (calls_bind (findLiveOrThrow_calls (entitled_quiet user) id)
      fun _ => ?_) fun _ => trivial)
    refine calls_bind (calls_await (entitled_quiet user .dateNow trivial)) fun now => ?_
    exact calls_bind (calls_await fun _ => .inl (hadmin _ rfl rfl)) fun _ => trivial
  | updateJob id dto => exact entitled_then (updateJob_entitled id dto) fun _ _ _ => trivial
  | removeJob id => exact entitled_then (removeJob_entitled id) fun _ _ _ => trivial
  | createApplication dto => exact entitled_then (createApplication_entitled dto) fun _ _ _ => trivial
  | uploadCv file dto =>
    simp only [UserRoute.handle]
    obtain ⟨accepted, -, hpipe⟩ | ⟨e, hpipe⟩ := pipe_cases file
    · rw [hpipe, pure_bind]
      exact entitled_then (createApplicationWithCv_entitled _ dto) fun _ _ _ => trivial
    · rw [hpipe]
      trivial
  | findAllApplications query =>
    exact request_entitled (.findAllApplications _ _ query) fun c hc => hc.elim
  | findOneApplication id => exact request_entitled (.findOneApplication id _ _) fun c hc => hc.elim
  | updateApplication id dto =>
    exact entitled_then (updateApplication_entitled id dto) fun _ _ _ => trivial
  | removeApplication id => exact entitled_then (removeApplication_entitled id) fun _ _ _ => trivial
  | findOneCandidate id =>
    refine obeys_entitled (calls_bind (calls_bind
      (calls_await (entitled_quiet user (.prisma (.candidateFindUniqueWithApplications id)) trivial))
      fun candidate => ?_) fun _ => trivial)
    cases candidate <;> trivial
  | updateCandidate id dto =>
    refine request_entitled (.updateCandidate id dto) fun c hc h => ?_
    cases hc
    exact hroles _ rfl
  | removeCandidate id =>
    refine request_entitled (.removeCandidate id) fun c hc h => ?_
    cases hc
    exact hadmin _ rfl rfl
  | createInterview dto =>
    refine request_entitled (.createInterview dto) fun c hc h => ?_
    cases hc
    exact hroles _ rfl
  | findAllInterviews query =>
    refine obeys_entitled (calls_bind ?_ fun _ => trivial)
    refine calls_bind (calls_await (entitled_quiet user (.prisma _) trivial)) fun data => ?_
    exact calls_bind (calls_await (entitled_quiet user (.prisma _) trivial)) fun total => trivial
  | findOneInterview id =>
    refine obeys_entitled (calls_bind (calls_bind
      (calls_await (entitled_quiet user (.prisma (.interviewFindUnique id)) trivial))
      fun interview => ?_) fun _ => trivial)
    cases interview <;> trivial
  | updateInterview id dto =>
    refine request_entitled (.updateInterview id dto) fun c hc h => ?_
    cases hc
    exact hroles _ rfl
  | removeInterview id =>
    refine request_entitled (.removeInterview id) fun c hc h => ?_
    cases hc
    exact hroles _ rfl

end Handlers

/-! ## Runs -/

/-- What the guards of a request have found when its handler is called for `user`. -/
structure Cleared (r : HttpRequest) (route : UserRoute) (history : List (Event Api))
    (user : UserPayload) : Prop where
  signed : ∃ token, r.accessToken = some token ∧ SignedIn token user history
  roles : ∀ roles ∈ route.requiredRoles, user.role ∈ roles

/-- A request that runs for a user is in its guards, or they have cleared the user and its handler
keeps to what the user is entitled to. -/
theorem mediated_plays {r : HttpRequest} {route : UserRoute} (hroute : r.route = .inr route)
    {history : List (Event Api)} {q : Prog Api Response} (h : r.prog.Plays history q) :
    ((∀ c, q.next? = some c → gateway.Passive c) ∧ ∀ response, q.outcome? ≠ some (.ok response)) ∨
      ∃ user, Cleared r route history user ∧
        Obeys (entitlement user) (fun _ _ => True) q history := by
  have hprog : r.prog = route.authorize r.accessToken >>= route.handle r.context := by
    unfold HttpRequest.prog
    rw [hroute]
  rw [hprog] at h
  generalize hhandle : route.handle r.context = handle at h
  have hcleared : ∀ {es es' : List (Event Api)} {user : UserPayload},
      (route.authorize r.accessToken).Plays es (.ret user) → (handle user).Plays es' q →
      history = es ++ es' →
      ∃ user, Cleared r route history user ∧
        Obeys (entitlement user) (fun _ _ => True) q history := by
    rintro es es' user hguard hplays rfl
    obtain ⟨token, hcookie, hsigned, hroles⟩ :=
      plays_recorded (authorize_signedIn route r.accessToken) hguard user rfl
    refine ⟨user, ⟨⟨token, hcookie, hsigned.mono fun e he => List.mem_append_left _ he⟩, hroles⟩, ?_⟩
    rw [← hhandle] at hplays
    exact plays_recorded (handle_entitled r.context route hroles) hplays
  obtain ⟨g, hg, rfl⟩ | ⟨es, es', user, heq, hguard, hplays⟩ := h.bind_cases
  · cases g with
    | ret user => exact .inr (hcleared hg (.nil _) (List.append_nil _).symm)
    | throw e => exact .inl ⟨fun c h => (nomatch h), fun response h => (nomatch h)⟩
    | call c k =>
      refine .inl ⟨fun c' heq => ?_, fun response h => (nomatch h)⟩
      cases heq
      exact (hg.calls_rest (authorize_calls passive_dateNow
        (fun q => @passive_read (.userFindUnique q) trivial) route r.accessToken)).1
  · exact .inr (hcleared hguard hplays heq)

section Run

variable {incoming : ℕ → HttpRequest} {w : World} {ls : List (Label ℕ Choice Move)}
  {cfg : Config Api ℕ World Response} {i : ℕ} {route : UserRoute}

/-- Every call of a request to a handler that is not public either leaves the world as it is, or is
made for a user whom the guards have cleared and who is entitled to it; and such a request is
answered with success only behind its guards. -/
theorem calls_mediated
    (hrun : gateway.run ls (.start w (HttpRequest.pool incoming)) = some cfg)
    (hroute : (incoming i).route = .inr route) :
    (∀ c, (cfg.pool i).next? = some c → gateway.Passive c ∨
      ∃ user, Cleared (incoming i) route (cfg.trace i) user ∧ Entitled user (cfg.trace i) c) ∧
    ∀ response, cfg.outcome? i = some (.ok response) →
      ∃ user, Cleared (incoming i) route (cfg.trace i) user := by
  obtain ⟨hpassive, hnotOk⟩ | ⟨user, hcleared, hobeys⟩ := mediated_plays hroute (pool_plays hrun i)
  · exact ⟨fun c hc => .inl (hpassive c hc), fun response ho => absurd ho (hnotOk response)⟩
  · exact ⟨fun c hc => .inr ⟨user, hcleared, obeys_next? hobeys hc⟩,
      fun _ _ => ⟨user, hcleared⟩⟩

end Run

theorem calls_mediated_ada :
    ∃ cfg, gateway.run (List.replicate 4 (.run 0 {}))
        (.start seeded (HttpRequest.pool (adaAsks (.softDeleteUser "u-ian")))) = some cfg ∧
      (∀ c, (cfg.pool 0).next? = some c → gateway.Passive c ∨
        ∃ user, Cleared (adaAsks (.softDeleteUser "u-ian") 0) (.softDeleteUser "u-ian")
            (cfg.trace 0) user ∧ Entitled user (cfg.trace 0) c) ∧
      ∀ response, cfg.outcome? 0 = some (.ok response) →
        ∃ user, Cleared (adaAsks (.softDeleteUser "u-ian") 0) (.softDeleteUser "u-ian")
          (cfg.trace 0) user := by
  obtain ⟨cfg, hrun⟩ := Option.isSome_iff_exists.mp (show (gateway.run
    (List.replicate 4 (.run 0 {}))
    (.start seeded (HttpRequest.pool (adaAsks (.softDeleteUser "u-ian"))))).isSome = true by
      decide +kernel)
  exact ⟨cfg, hrun, calls_mediated hrun rfl⟩

end TalentFlow
