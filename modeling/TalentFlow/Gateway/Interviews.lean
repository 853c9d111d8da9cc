import TalentFlow.Gateway.Applications

/-!
# Gateway.Interviews

`InterviewsService`. No method is told who asks: the guards before them check the role of the user
and no more. A date in a DTO is what `new Date` makes of its text, `none` for an `Invalid Date`; a
date before 1970 stands as the epoch, and is refused like it.
-/

namespace TalentFlow

open Async

structure QueryInterviewsDto where
  page : Option Nat := none
  limit : Option Nat := none
  applicationId : Option String := none
  interviewerId : Option String := none
  type : Option InterviewType := none
  status : Option InterviewStatus := none
  sortBy : Option String := none
  sortOrder : Option String := none
  page_min : ∀ p ∈ page, 1 ≤ p := by simp
  limit_min : ∀ l ∈ limit, 1 ≤ l := by simp
  limit_max : ∀ l ∈ limit, l ≤ 100 := by simp

def QueryInterviewsDto.pageRequest (query : QueryInterviewsDto) : PageRequest where
  sortBy := query.sortBy.getD "scheduledAt"
  sortOrder := query.sortOrder.getD "asc"
  skip := (query.page.getD 1 - 1) * query.limit.getD 10
  take := query.limit.getD 10

/-- Of `@IsUUID` only that the text is not empty. -/
structure CreateInterviewDto where
  applicationId : String
  scheduledAt : Option Time
  duration : Option Nat := none
  type : Option InterviewType := none
  location : Option String := none
  notes : Option String := none
  interviewerId : Option String := none
  duration_min : ∀ d ∈ duration, 15 ≤ d := by simp
  duration_max : ∀ d ∈ duration, d ≤ 480 := by simp
  interviewerId_uuid : ∀ id ∈ interviewerId, id ≠ "" := by simp

/-- Every property can be `null`, which `@IsOptional` takes for a missing one. -/
structure UpdateInterviewDto where
  scheduledAt : Field (Option Time) := .absent
  duration : Field Nat := .absent
  type : Field InterviewType := .absent
  location : Field String := .absent
  notes : Field String := .absent
  status : Field InterviewStatus := .absent
  interviewerId : Field String := .absent
  duration_min : ∀ d, duration = .value d → 15 ≤ d := by simp
  duration_max : ∀ d, duration = .value d → d ≤ 480 := by simp
  interviewerId_uuid : ∀ id, interviewerId = .value id → id ≠ "" := by simp

structure InterviewPage where
  data : List InterviewListed
  pagination : PaginationMeta

namespace InterviewsService

/-- The interviewer of a DTO, if it names one, is live. -/
def verifyInterviewer (interviewerId : Option String) : Prog Api Unit := do
  match truthy interviewerId with
  | none => return ()
  | some id =>
    let interviewer ← prisma (.userFindUnique (.live id))
    match interviewer with
    | some _ => return ()
    | none => throw (.notFound ("Interviewer with ID \"" ++ id ++ "\" not found"))

/-- An `Invalid Date` is not in the past either. -/
def verifyFuture (scheduledAt : Option Time) : Prog Api Unit := do
  let now ← dateNow
  if scheduledAt.any fun t => decide (t ≤ now) then
    throw (.badRequest "Interview must be scheduled in the future")

def createData (dto : CreateInterviewDto) : InterviewCreate where
  applicationId := dto.applicationId
  scheduledAt := dto.scheduledAt
  duration := dto.duration.getD 60
  type := dto.type.getD .video
  location := dto.location
  notes := dto.notes
  interviewerId := dto.interviewerId

def create (dto : CreateInterviewDto) : Prog Api Interview := do
  let application ← prisma (.applicationFindLive dto.applicationId)
  match application with
  | none => throw (.notFound ("Application with ID \"" ++ dto.applicationId ++ "\" not found"))
  | some _ =>
    verifyInterviewer dto.interviewerId
    verifyFuture dto.scheduledAt
    prisma (.interviewCreate (createData dto))

def listWhere (query : QueryInterviewsDto) : InterviewWhere where
  applicationId := truthy query.applicationId
  interviewerId := truthy query.interviewerId
  type := query.type
  status := query.status

def findAll (query : QueryInterviewsDto) : Prog Api InterviewPage := do
  let page := query.page.getD 1
  let limit := query.limit.getD 10
  let wh : InterviewWhere :=
    { applicationId := truthy query.applicationId
      interviewerId := truthy query.interviewerId
      type := query.type
      status := query.status }
  let data ← prisma (.interviewFindMany wh
    { sortBy := query.sortBy.getD "scheduledAt", sortOrder := query.sortOrder.getD "asc",
      skip := (page - 1) * limit, take := limit })
  let total ← prisma (.interviewCount wh)
  return { data, pagination := { total, page, limit, totalPages := (total + limit - 1) / limit } }

def findOne (id : String) : Prog Api InterviewDetail := do
  let interview ← prisma (.interviewFindUnique id)
  match interview with
  | some interview => return interview
  | none => throw (.notFound ("Interview with ID \"" ++ id ++ "\" not found"))

def findOrThrow (id : String) : Prog Api Interview := do
  let existing ← prisma (.interviewFindById id)
  match existing with
  | some interview => return interview
  | none => throw (.notFound ("Interview with ID \"" ++ id ++ "\" not found"))

/-- `new Date(null)` is the epoch. -/
def newDate : Field (Option Time) → Field (Option Time)
  | .null => .value (some 0)
  | date => date

def updateData (dto : UpdateInterviewDto) : InterviewUpdate where
  scheduledAt := newDate dto.scheduledAt
  duration := dto.duration
  type := dto.type
  location := dto.location
  notes := dto.notes
  status := dto.status
  interviewerId := dto.interviewerId

/-- Only a date that is given has to be in the future, and `null` gives none. -/
def verifyNewDate : Field (Option Time) → Prog Api Unit
  | .value scheduledAt => verifyFuture scheduledAt
  | _ => pure ()

def update (id : String) (dto : UpdateInterviewDto) : Prog Api Interview := do
  let _existing ← findOrThrow id
  verifyNewDate dto.scheduledAt
  verifyInterviewer (dto.interviewerId.orKeep none)
  prisma (.interviewUpdate id (updateData dto))

/-- Soft cancel: the row stays. -/
def remove (id : String) : Prog Api Unit := do
  let _existing ← findOrThrow id
  let _updated ← prisma (.interviewUpdate id { status := .value .cancelled })

end InterviewsService

end TalentFlow
