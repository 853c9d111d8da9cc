import TalentFlow.Gateway.World

/-!
# Gateway.Applications

`ApplicationsService`: submitting an application with or without a CV, listing, viewing, updating
and withdrawing it; with `generateCvFileKey` and `QueueService.publishCvUploaded`.

Roles are strings here, as in the source. A requester is the applicant of an application when the
candidate with the email of their account is the application's candidate.
-/

namespace TalentFlow

open Async

/-! ## DTOs -/

structure CreateApplicationDto where
  jobId : String
  coverLetter : Option String := none
  cvFileKey : Option String := none
  cvFileUrl : Option String := none

structure UploadCvDto where
  jobId : String
  coverLetter : Option String := none

/-- `Express.Multer.File`, as `FileValidationPipe` lets it through. -/
structure UploadedFile where
  originalname : String
  mimetype : String
  buffer : List UInt8

structure UploadCvResponseDto where
  applicationId : String
  fileKey : String
  fileUrl : String
  presignedUrl : Option String
  status : String := "processing"
  message : String := "CV uploaded successfully. Processing started."

structure UpdateApplicationDto where
  stage : Field ApplicationStage := .absent
  status : Field ApplicationStatus := .absent
  notes : Field String := .absent
  coverLetter : Field String := .absent

structure QueryApplicationsDto where
  page : Option Nat := none
  limit : Option Nat := none
  jobId : Option String := none
  candidateId : Option String := none
  stage : Option ApplicationStage := none
  status : Option ApplicationStatus := none
  sortBy : Option String := none
  sortOrder : Option String := none
  page_min : ∀ p ∈ page, 1 ≤ p := by simp
  limit_min : ∀ l ∈ limit, 1 ≤ l := by simp
  limit_max : ∀ l ∈ limit, l ≤ 100 := by simp

structure PaginationMeta where
  total : Nat
  page : Nat
  limit : Nat
  totalPages : Nat

structure ApplicationPage where
  data : List ApplicationWithRelations
  pagination : PaginationMeta

/-- A string that JavaScript takes for true. -/
def truthy (s : Option String) : Option String := s.filter (· ≠ "")

/-- `stage || status || notes` -/
def UpdateApplicationDto.givesReview (dto : UpdateApplicationDto) : Bool :=
  (match dto.stage with | .value _ => true | _ => false) ||
  (match dto.status with | .value _ => true | _ => false) ||
  (match dto.notes with | .value notes => decide (notes ≠ "") | _ => false)

/-! ## File keys and events -/

def ALLOWED_EXTENSIONS : List String := ["pdf", "docx"]

def cvFileKey (uuid extension : String) : String := "cvs/" ++ uuid ++ "." ++ extension

/-- The extension `generateCvFileKey` gives a file of this name. -/
def safeExtension (originalName : String) : String :=
  let parts := originalName.toList.splitOn '.'
  let extension :=
    if 1 < parts.length then String.ofList ((parts.getLastD []).map Char.toLower) else ""
  if ALLOWED_EXTENSIONS.contains extension then extension else "pdf"

theorem safeExtension_allowed (originalName : String) :
    safeExtension originalName ∈ ALLOWED_EXTENSIONS := by
  have hsafe : ∀ extension : String,
      (if ALLOWED_EXTENSIONS.contains extension then extension else "pdf") ∈ ALLOWED_EXTENSIONS := by
    intro extension
    split
    · rename_i hext
      exact List.contains_iff_mem.mp hext
    · decide
  exact hsafe _

def generateCvFileKey (originalName : String) : Prog Api String := do
  let uuid ← randomUUID
  return cvFileKey uuid (safeExtension originalName)

def QueueService.publishCvUploaded (event : CvUploadedEvent) : Prog Api Unit := do
  let published ← publish event
  match published with
  | none => throw (.error "RabbitMQ channel not initialized")
  | some true => return ()
  | some false => throw (.error "RabbitMQ outbound buffer full")

/-! ## ApplicationsService -/

namespace ApplicationsService

def findOpenJobOrThrow (jobId : String) : Prog Api Job := do
  let found ← prisma (.jobFindUnique jobId)
  match found.filter fun job => job.deletedAt.isNone with
  | none => throw (.notFound ("Job with ID " ++ jobId ++ " not found"))
  | some job =>
    if job.status ≠ .open then throw (.forbidden "Cannot apply to a job that is not open")
    return job

def findOrCreateCandidateOrThrow (userId : String) : Prog Api Candidate := do
  let found ← prisma (.userFindUnique (.id userId))
  match found with
  | none => throw (.notFound "User not found")
  | some user =>
    let candidate ← prisma (.candidateFindUnique (.email user.email))
    match candidate with
    | some candidate => return candidate
    | none => prisma (.candidateCreate { email := user.email, fullName := user.fullName })

def ensureNoDuplicateApplication (jobId candidateId : String) : Prog Api Unit := do
  let existingApplication ← prisma (.applicationFindFirst jobId candidateId)
  if existingApplication.isSome then throw (.conflict "You have already applied to this job")

/-- The first three steps are those of `createWithCv`, written out in the source. -/
def create (userId : String) (dto : CreateApplicationDto) : Prog Api Application := do
  let _job ← findOpenJobOrThrow dto.jobId
  let candidate ← findOrCreateCandidateOrThrow userId
  ensureNoDuplicateApplication dto.jobId candidate.id
  prisma (.applicationCreate
    { jobId := dto.jobId, candidateId := candidate.id, coverLetter := dto.coverLetter,
      cvFileKey := dto.cvFileKey, cvFileUrl := dto.cvFileUrl })

/-- `create` with these steps written out. -/
def createInline (userId : String) (dto : CreateApplicationDto) : Prog Api Application := do
  let job ← prisma (.jobFindUnique dto.jobId)
  match job.filter fun job => job.deletedAt.isNone with
  | none => throw (.notFound ("Job with ID " ++ dto.jobId ++ " not found"))
  | some job =>
    if job.status ≠ .open then throw (.forbidden "Cannot apply to a job that is not open")
    let user ← prisma (.userFindUnique (.id userId))
    match user with
    | none => throw (.notFound "User not found")
    | some user =>
      let found ← prisma (.candidateFindUnique (.email user.email))
      let candidate ← match found with
        | some candidate => pure candidate
        | none => prisma (.candidateCreate { email := user.email, fullName := user.fullName })
      let existingApplication ← prisma (.applicationFindFirst dto.jobId candidate.id)
      if existingApplication.isSome then throw (.conflict "You have already applied to this job")
      prisma (.applicationCreate
        { jobId := dto.jobId, candidateId := candidate.id, coverLetter := dto.coverLetter,
          cvFileKey := dto.cvFileKey, cvFileUrl := dto.cvFileUrl })

theorem createInline_eq (userId : String) (dto : CreateApplicationDto) :
    createInline userId dto = create userId dto := by
  unfold createInline create findOpenJobOrThrow findOrCreateCandidateOrThrow
    ensureNoDuplicateApplication
  -- the check is written as the condition of what follows
  have hcheck : ∀ {p : Prog Api Application} {e : Exception} {x : Option Application},
      (if x.isSome then (throw e : Prog Api PUnit) >>= fun _ => p else p) =
        (if x.isSome then throw e else pure ()) >>= fun _ => p := by
    intro p e x
    cases x <;> rfl
  simp only [bind_assoc, hcheck]
  refine congrArg (prisma (.jobFindUnique dto.jobId) >>= ·) (funext fun found => ?_)
  cases found.filter fun job => job.deletedAt.isNone with
  | none => rfl
  | some job =>
    by_cases hopen : job.status = .open
    · simp only [hopen, ne_eq, not_true_eq_false, if_false, pure_bind]
      refine congrArg (prisma (.userFindUnique (.id userId)) >>= ·) (funext fun user => ?_)
      cases user with
      | none => rfl
      | some user =>
        simp only [bind_assoc]
        refine congrArg (prisma (.candidateFindUnique (.email user.email)) >>= ·)
          (funext fun found => ?_)
        cases found with
        | none => rfl
        | some candidate => rfl
    · simp only [hopen, ne_eq, not_false_eq_true, if_true]
      rfl

/-- The key under which the file was stored, and its URL. -/
def uploadCvOrThrow (file : UploadedFile) : Prog Api (String × String) := do
  let fileKey ← generateCvFileKey file.originalname
  tryCatch
    (do
      let uploadResult ← storage (.upload file.buffer fileKey file.mimetype)
      return (fileKey, uploadResult.url))
    fun _ => throw (.internalServerError "Failed to upload CV file")

def buildUploadResponse (applicationId fileKey uploadUrl : String) :
    Prog Api UploadCvResponseDto := do
  let presignedUrl ← tryCatch
    (do
      let url ← storage (.getSignedUrl fileKey)
      return some url)
    fun _ => pure none
  return { applicationId, fileKey, fileUrl := uploadUrl, presignedUrl }

def rollbackCreateWithCv (applicationId : Option String) (fileKey : String) : Prog Api Unit := do
  match applicationId with
  | some id => tryCatch (prisma (.applicationDelete id)) fun _ => pure ()
  | none => pure ()
  tryCatch (storage (.delete fileKey)) fun _ => pure ()

/-- Hands the event of a stored application over to the broker. -/
def publishApplication (candidateId applicationId jobId fileKey mimeType : String) :
    Prog Api Unit := do
  let bucket ← storage .getBucketName
  let uploadedAt ← dateNow
  QueueService.publishCvUploaded
    { candidateId, applicationId, jobId, bucket, fileKey, mimeType, uploadedAt }

/-- The `catch` of `createWithCv`; `applicationId` is what the `try` had assigned to it. -/
def failCreateWithCv (applicationId : Option String) (fileKey : String) :
    Prog Api UploadCvResponseDto := do
  rollbackCreateWithCv applicationId fileKey
  throw (.internalServerError "Failed to process CV upload")

def createWithCv (userId : String) (file : UploadedFile) (dto : UploadCvDto) :
    Prog Api UploadCvResponseDto := do
  let _job ← findOpenJobOrThrow dto.jobId
  let candidate ← findOrCreateCandidateOrThrow userId
  ensureNoDuplicateApplication dto.jobId candidate.id
  let (fileKey, uploadUrl) ← uploadCvOrThrow file
  let created ← Prog.attempt (prisma (.applicationCreate
    { jobId := dto.jobId, candidateId := candidate.id, coverLetter := dto.coverLetter,
      cvFileKey := some fileKey, cvFileUrl := some uploadUrl }))
  match created with
  | .error _ => failCreateWithCv none fileKey
  | .ok application =>
    let handedOver ← Prog.attempt
      (publishApplication candidate.id application.id dto.jobId fileKey file.mimetype)
    match handedOver with
    | .error _ => failCreateWithCv (some application.id) fileKey
    -- returned without `await`: the `try` no longer covers it
    | .ok _ => buildUploadResponse application.id fileKey uploadUrl

def findCandidateOfUser (userId : String) : Prog Api (Option Candidate) := do
  let user ← prisma (.userFindUnique (.id userId))
  match user with
  | some user => prisma (.candidateFindUnique (.email user.email))
  | none => return none

def roleFilter (userId userRole : String) : Prog Api ApplicationWhere := do
  if userRole = "RECRUITER" then
    return { jobCreatedById := some userId }
  else if userRole = "INTERVIEWER" then
    let candidate ← findCandidateOfUser userId
    return { candidateId := candidate.map Candidate.id }
  else if userRole ≠ "ADMIN" then
    let candidate ← findCandidateOfUser userId
    return { candidateId := candidate.map Candidate.id }
  else
    return {}

def findAll (userId userRole : String) (query : QueryApplicationsDto) :
    Prog Api ApplicationPage := do
  let page := query.page.getD 1
  let limit := query.limit.getD 10
  let byRole ← roleFilter userId userRole
  let wh : ApplicationWhere :=
    { jobCreatedById := byRole.jobCreatedById
      jobId := truthy query.jobId
      candidateId := if userRole = "ADMIN" then truthy query.candidateId else byRole.candidateId
      stage := query.stage
      status := query.status }
  let data ← prisma (.applicationFindMany wh
    { sortBy := query.sortBy.getD "appliedAt", sortOrder := query.sortOrder.getD "desc",
      skip := (page - 1) * limit, take := limit })
  let total ← prisma (.applicationCount wh)
  return { data, pagination := { total, page, limit, totalPages := (total + limit - 1) / limit } }

def isApplicant (application : ApplicationWithRelations) (candidate : Option Candidate) : Bool :=
  candidate.any fun candidate => decide (application.candidateId = candidate.id)

def isRecruiter (application : ApplicationWithRelations) (userId : String) : Bool :=
  decide (application.job.createdById = userId)

def isAdmin (userRole : String) : Bool := decide (userRole = "ADMIN")

def findOne (id userId userRole : String) : Prog Api ApplicationWithRelations := do
  let found ← prisma (.applicationFindUnique id)
  match found.filter fun application => application.deletedAt.isNone with
  | none => throw (.notFound ("Application with ID " ++ id ++ " not found"))
  | some application =>
    let candidate ← findCandidateOfUser userId
    if !isApplicant application candidate && !isRecruiter application userId && !isAdmin userRole
    then throw (.forbidden "You do not have permission to view this application")
    return application

/-- The data `update` writes: the DTO, and `reviewedAt` when the status changes. -/
def updateData (application : ApplicationWithRelations) (dto : UpdateApplicationDto) :
    Prog Api ApplicationUpdate := do
  let data : ApplicationUpdate :=
    { stage := dto.stage, status := dto.status, notes := dto.notes, coverLetter := dto.coverLetter }
  match dto.status with
  | .value status =>
    if application.status ≠ status then
      let now ← dateNow
      return { data with reviewedAt := .value now }
    else return data
  | _ => return data

def update (id userId userRole : String) (dto : UpdateApplicationDto) : Prog Api Application := do
  let application ← findOne id userId userRole
  let candidate ← findCandidateOfUser userId
  if dto.givesReview && !isRecruiter application userId && !isAdmin userRole then
    throw (.forbidden "Only recruiters can update application stage, status and notes")
  if !isRecruiter application userId && !isAdmin userRole && !isApplicant application candidate then
    throw (.forbidden "You do not have permission to update this application")
  let data ← updateData application dto
  prisma (.applicationUpdate id data)

def remove (id userId userRole : String) : Prog Api Unit := do
  let application ← findOne id userId userRole
  let candidate ← findCandidateOfUser userId
  if !isApplicant application candidate && !isAdmin userRole then
    throw (.forbidden "Only applicants can withdraw their applications")
  let deletedAt ← dateNow
  let _ ← prisma (.applicationUpdate id
    { deletedAt := .value deletedAt, status := .value .withdrawn })

end ApplicationsService

/-! ## The where-clause of `findAll` -/

/-- The candidate with the email of the user's account. -/
def Db.candidateOf (db : Db) (userId : String) : Option Candidate :=
  (db.users.find? userId).bind fun user => db.findCandidate (.email user.email)

def Db.roleWhere (db : Db) (userId userRole : String) : ApplicationWhere :=
  if userRole = "RECRUITER" then { jobCreatedById := some userId }
  else if userRole = "ADMIN" then {}
  else { candidateId := (db.candidateOf userId).map Candidate.id }

def Db.listWhere (db : Db) (userId userRole : String) (query : QueryApplicationsDto) :
    ApplicationWhere where
  jobCreatedById := (db.roleWhere userId userRole).jobCreatedById
  jobId := truthy query.jobId
  candidateId := if userRole = "ADMIN" then truthy query.candidateId
    else (db.roleWhere userId userRole).candidateId
  stage := query.stage
  status := query.status

end TalentFlow
