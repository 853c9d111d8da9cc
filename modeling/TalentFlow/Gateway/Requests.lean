import TalentFlow.Gateway.Auth
import TalentFlow.Gateway.Interviews

/-!
# Gateway.Requests

The requests that run against the shared world, each as the program its handler runs. The
operations on accounts and sessions start with their guards, whose cookies are part of the request;
so do those that read candidates and interviews. The other operations get the user id and role that
the guards found: the guards before them only read, and only narrow down which ids and roles can
occur.
-/

namespace TalentFlow

open Async

structure UpdateCandidateDto where
  fullName : Field String := .absent
  phone : Field String := .absent
  linkedinUrl : Field String := .absent

structure UpdateJobDto where
  title : Field String := .absent
  description : Field String := .absent
  requirements : Field JsonValue := .absent
  department : Field String := .absent
  location : Field String := .absent
  employmentType : Field EmploymentType := .absent
  salaryMin : Field Int := .absent
  salaryMax : Field Int := .absent
  status : Field JobStatus := .absent

namespace CandidatesService

/-- The candidate with all their live applications, whoever asks. -/
def findOne (id : String) : Prog Api CandidateWithApplications := do
  let candidate ← prisma (.candidateFindUniqueWithApplications id)
  match candidate with
  | some candidate => return candidate
  | none => throw (.notFound ("Candidate with ID \"" ++ id ++ "\" not found"))

def findOrThrow (id : String) : Prog Api Candidate := do
  let existing ← prisma (.candidateFindUnique (.id id))
  match existing with
  | some candidate => return candidate
  | none => throw (.notFound ("Candidate with ID \"" ++ id ++ "\" not found"))

def update (id : String) (data : UpdateCandidateDto) : Prog Api Candidate := do
  let _existing ← findOrThrow id
  prisma (.candidateUpdate id
    { fullName := data.fullName, phone := data.phone, linkedinUrl := data.linkedinUrl })

/-- A hard delete: the applications of the candidate go with it. -/
def remove (id : String) : Prog Api Unit := do
  let _existing ← findOrThrow id
  prisma (.candidateDelete id)

end CandidatesService

namespace JobsService

def findOne (id : String) : Prog Api Job := do
  let found ← prisma (.jobFindUnique id)
  match found.filter fun job => job.deletedAt.isNone with
  | some job => return job
  | none => throw (.notFound ("Job with ID " ++ id ++ " not found"))

def update (id userId userRole : String) (dto : UpdateJobDto) : Prog Api Job := do
  let job ← findOne id
  if job.createdById ≠ userId ∧ userRole ≠ "ADMIN" then
    throw (.forbidden "You do not have permission to update this job")
  prisma (.jobUpdate id
    { title := dto.title, description := dto.description, requirements := dto.requirements
      department := dto.department, location := dto.location
      employmentType := dto.employmentType, salaryMin := dto.salaryMin
      salaryMax := dto.salaryMax, status := dto.status })

def remove (id userId userRole : String) : Prog Api Unit := do
  let job ← findOne id
  if job.createdById ≠ userId ∧ userRole ≠ "ADMIN" then
    throw (.forbidden "You do not have permission to delete this job")
  let deletedAt ← dateNow
  let _ ← prisma (.jobUpdate id { deletedAt := .value deletedAt })

end JobsService

namespace UsersController

def update (cookie : Option AccessToken) (id : String) (dto : UpdateUserDto) :
    Prog Api SafeUser := do
  let user ← JwtAuthGuard.canActivate cookie
  UsersService.updateProfile id user.id user.role.toString dto

def updateRole (cookie : Option AccessToken) (id : String) (role : Role) : Prog Api SafeUser := do
  let user ← JwtAuthGuard.canActivate cookie
  RolesGuard.canActivate [.admin] user
  UsersService.updateRole id role

def remove (cookie : Option AccessToken) (id : String) : Prog Api Unit := do
  let user ← JwtAuthGuard.canActivate cookie
  RolesGuard.canActivate [.admin] user
  UsersService.softDeleteUser id

end UsersController

/-! The handlers below run with the user whom `JwtAuthGuard` has put on the request. -/

namespace CandidatesController

def findOne (user : UserPayload) (id : String) : Prog Api CandidateWithApplications := do
  RolesGuard.canActivate [.recruiter, .admin, .interviewer] user
  CandidatesService.findOne id

end CandidatesController

namespace InterviewsController

def findAll (user : UserPayload) (query : QueryInterviewsDto) : Prog Api InterviewPage := do
  RolesGuard.canActivate [.recruiter, .admin, .interviewer] user
  InterviewsService.findAll query

def findOne (user : UserPayload) (id : String) : Prog Api InterviewDetail := do
  RolesGuard.canActivate [.recruiter, .admin, .interviewer] user
  InterviewsService.findOne id

end InterviewsController

inductive Request where
  | signup (email password fullName : String) (role : Role)
  | login (email password : String) (context : LoginContext)
  | refresh (cookie : Option RefreshToken) (context : LoginContext)
  | logout (cookie : Option AccessToken) (context : LoginContext)
  | updateProfile (cookie : Option AccessToken) (id : String) (dto : UpdateUserDto)
  | updateRole (cookie : Option AccessToken) (id : String) (role : Role)
  | softDeleteUser (cookie : Option AccessToken) (id : String)
  | createApplication (userId : String) (dto : CreateApplicationDto)
  | createApplicationWithCv (userId : String) (file : UploadedFile) (dto : UploadCvDto)
  | findAllApplications (userId userRole : String) (query : QueryApplicationsDto)
  | findOneApplication (id userId userRole : String)
  | updateApplication (id userId userRole : String) (dto : UpdateApplicationDto)
  | removeApplication (id userId userRole : String)
  | findOneCandidate (cookie : Option AccessToken) (id : String)
  | updateCandidate (id : String) (dto : UpdateCandidateDto)
  | removeCandidate (id : String)
  | updateJob (id userId userRole : String) (dto : UpdateJobDto)
  | removeJob (id userId userRole : String)
  | findAllInterviews (cookie : Option AccessToken) (query : QueryInterviewsDto)
  | findOneInterview (cookie : Option AccessToken) (id : String)
  | createInterview (dto : CreateInterviewDto)
  | updateInterview (id : String) (dto : UpdateInterviewDto)
  | removeInterview (id : String)

inductive Response where
  | signedUp (user : UserSummary)
  | loggedIn (tokens : Tokens) (user : UserSummary)
  | refreshed (tokens : Tokens)
  | profile (user : SafeUser)
  | application (application : Application)
  | applicationDetail (application : ApplicationWithRelations)
  | applicationPage (page : ApplicationPage)
  | uploaded (response : UploadCvResponseDto)
  | candidate (candidate : Candidate)
  | candidateDetail (candidate : CandidateWithApplications)
  | job (job : Job)
  | interviewPage (page : InterviewPage)
  | interviewDetail (interview : InterviewDetail)
  | interview (interview : Interview)
  | done

def Request.prog : Request → Prog Api Response
  | signup email password fullName role =>
    return .signedUp (← AuthService.signup email password fullName role)
  | login email password context => do
    let (tokens, user) ← AuthService.login email password context
    return .loggedIn tokens user
  | refresh cookie context => return .refreshed (← AuthController.refresh cookie context)
  | logout cookie context => do
    AuthController.logout cookie context
    return .done
  | updateProfile cookie id dto => return .profile (← UsersController.update cookie id dto)
  | updateRole cookie id role => return .profile (← UsersController.updateRole cookie id role)
  | softDeleteUser cookie id => do
    UsersController.remove cookie id
    return .done
  | createApplication userId dto => return .application (← ApplicationsService.create userId dto)
  | createApplicationWithCv userId file dto =>
    return .uploaded (← ApplicationsService.createWithCv userId file dto)
  | findAllApplications userId userRole query =>
    return .applicationPage (← ApplicationsService.findAll userId userRole query)
  | findOneApplication id userId userRole =>
    return .applicationDetail (← ApplicationsService.findOne id userId userRole)
  | updateApplication id userId userRole dto =>
    return .application (← ApplicationsService.update id userId userRole dto)
  | removeApplication id userId userRole => do
    ApplicationsService.remove id userId userRole
    return .done
  | findOneCandidate cookie id => do
    let user ← JwtAuthGuard.canActivate cookie
    return .candidateDetail (← CandidatesController.findOne user id)
  | updateCandidate id dto => return .candidate (← CandidatesService.update id dto)
  | removeCandidate id => do
    CandidatesService.remove id
    return .done
  | updateJob id userId userRole dto => return .job (← JobsService.update id userId userRole dto)
  | removeJob id userId userRole => do
    JobsService.remove id userId userRole
    return .done
  | findAllInterviews cookie query => do
    let user ← JwtAuthGuard.canActivate cookie
    return .interviewPage (← InterviewsController.findAll user query)
  | findOneInterview cookie id => do
    let user ← JwtAuthGuard.canActivate cookie
    return .interviewDetail (← InterviewsController.findOne user id)
  | createInterview dto => return .interview (← InterviewsService.create dto)
  | updateInterview id dto => return .interview (← InterviewsService.update id dto)
  | removeInterview id => do
    InterviewsService.remove id
    return .done

/-- The status a request is answered with. -/
def statusOf : Except Exception Response → Nat
  | .ok _ => 200
  | .error e => e.status

/-- Any number of requests, each a thread of its own. A request that no step of a run is about has
not arrived. -/
def Request.pool (requests : ℕ → Request) (i : ℕ) : Prog Api Response := (requests i).prog

end TalentFlow
