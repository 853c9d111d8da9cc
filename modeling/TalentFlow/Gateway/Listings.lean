import TalentFlow.Gateway.Requests
import TalentFlow.Gateway.Analytics
import TalentFlow.Data.Paging

/-!
# Gateway.Listings

The five `findAll` operations on one snapshot of the store. All of them sort the matching rows by
one column, cut a page out of them and count them. A `Listing` is what such an operation makes of a
query, apart from the page that is asked for; `Listing.findAll` is what it answers when the
database gives the matching rows in the order `answer`.
-/

namespace TalentFlow

open Data

/-- What a column holds for `ORDER BY`. Enumerations count their members. -/
inductive SortKey where
  | number (n : Int)
  | text (s : String)
  | json (v : JsonValue)
  | null

namespace SortKey

def time (t : Time) : SortKey := .number t

def textOrNull : Option String → SortKey
  | some s => .text s
  | none => .null

def numberOrNull : Option Int → SortKey
  | some n => .number n
  | none => .null

def timeOrNull (t : Option Time) : SortKey := numberOrNull (t.map Int.ofNat)

def jsonOrNull : Option JsonValue → SortKey
  | some v => .json v
  | none => .null

end SortKey

/-- How the database compares keys and searches texts, and how JavaScript maps case. -/
structure Collation where
  le : SortKey → SortKey → Bool
  le_trans : ∀ a b c, le a b = true → le b c = true → le a c = true
  le_total : ∀ a b, le a b = true ∨ le b a = true
  le_number : ∀ m n : Int, le (.number m) (.number n) = decide (m ≤ n)
  /-- Different texts never tie. -/
  le_text_antisymm : ∀ s t : String,
    le (.text s) (.text t) = true → le (.text t) (.text s) = true → s = t
  /-- `{ contains, mode: 'insensitive' }` -/
  contains : String → String → Bool
  toLowerCase : String → String

structure PaginatedResult (δ : Type) where
  data : List δ
  pagination : PaginationMeta

/-- What `findAll` makes of a query. Every row has its key, and what is shown of it has the same. -/
structure Listing (ρ δ : Type) where
  key : ρ → String
  itemKey : δ → String
  /-- the rows that match -/
  rows : List ρ
  keys_nodup : (rows.map key).Nodup
  /-- the columns the rows can be sorted by -/
  columns : String → Option (ρ → SortKey)
  shown : ρ → Option δ
  shown_key : ∀ r ∈ rows, ∃ d, shown r = some d ∧ itemKey d = key r
  /-- The database takes the values of the where-clause. -/
  accepted : Bool := true
  sortBy : String
  sortOrder : String
  limit : Nat
  limit_pos : 0 < limit

namespace Listing

variable {ρ δ : Type}

/-- `findMany` does not throw. -/
def isValid (l : Listing ρ δ) : Bool :=
  l.accepted && (l.columns l.sortBy).isSome && ["asc", "desc"].contains l.sortOrder

/-- `orderBy: { [sortBy]: sortOrder }` lets `a` come before `b`. -/
def mayPrecede (c : Collation) (l : Listing ρ δ) (a b : ρ) : Bool :=
  match l.columns l.sortBy with
  | some column =>
    if l.sortOrder = "asc" then c.le (column a) (column b) else c.le (column b) (column a)
  | none => true

def findAll (l : Listing ρ δ) (page : Nat) (answer : List ρ) :
    Except PrismaError (PaginatedResult δ) :=
  if l.isValid then
    let skip := (page - 1) * l.limit
    let total := l.rows.length
    .ok
      { data := ((answer.drop skip).take l.limit).filterMap l.shown
        pagination :=
          { total, page, limit := l.limit, totalPages := (total + l.limit - 1) / l.limit } }
  else .error .validation

/-- Page 1 and then the pages up to `meta.totalPages`, each from an answer of its own. -/
def fetchAll (l : Listing ρ δ) (answers : Nat → List ρ) : Except PrismaError (List δ) := do
  let first ← l.findAll 1 (answers 0)
  let others ← (List.range (first.pagination.totalPages - 1)).mapM fun k =>
    l.findAll (k + 2) (answers (k + 1))
  return first.data ++ others.flatMap PaginatedResult.data

end Listing

/-! ## Jobs -/

structure QueryJobsDto where
  page : Option Nat := none
  limit : Option Nat := none
  search : Option String := none
  status : Option JobStatus := none
  employmentType : Option EmploymentType := none
  department : Option String := none
  salaryMin : Option Nat := none
  salaryMax : Option Nat := none
  skills : Option String := none
  sortBy : Option String := none
  sortOrder : Option String := none
  page_min : ∀ p ∈ page, 1 ≤ p := by simp
  limit_min : ∀ l ∈ limit, 1 ≤ l := by simp
  limit_max : ∀ l ∈ limit, l ≤ 100 := by simp

structure JobListed extends Job where
  createdBy : UserRef
  _count : RelationCount

def Db.listedJob (db : Db) (j : Job) : Option JobListed :=
  (db.users.find? j.createdById).map fun u =>
    { j with
      createdBy := { id := u.id, fullName := u.fullName, email := u.email }
      _count := db.countOfJob j.id }

/-- `limit = 10`, and the DTO's own `@Min(1)`. -/
theorem limit_pos {limit : Option Nat} (h : ∀ l ∈ limit, 1 ≤ l) : 0 < limit.getD 10 := by
  cases limit with
  | none => exact Nat.succ_pos 9
  | some l => exact h l rfl

namespace JobsService

/-- White space and line terminators, as `trim` strips them. -/
def isSpace (c : Char) : Bool :=
  [0x9, 0xA, 0xB, 0xC, 0xD, 0x20, 0xA0, 0x1680, 0x2028, 0x2029, 0x202F, 0x205F, 0x3000,
    0xFEFF].contains c.toNat || decide (0x2000 ≤ c.toNat ∧ c.toNat ≤ 0x200A)

def trim (s : String) : String :=
  String.ofList (((s.toList.dropWhile isSpace).reverse.dropWhile isSpace).reverse)

def skillList (c : Collation) (skills : String) : List String :=
  (skills.splitOn ",").map fun s => c.toLowerCase (trim s)

/-- `{ path: ['skills'], array_contains: skillList }` -/
def hasSkills (job : Job) (skillList : List String) : Bool :=
  match job.requirements.bind (·.get? [.key "skills"]) with
  | some (.array items) => skillList.all fun skill => decide (.string skill ∈ items)
  | _ => false

/-- The where-clause of `findAll`. A comparison with `NULL` does not hold. -/
def selects (c : Collation) (query : QueryJobsDto) (job : Job) : Bool :=
  job.deletedAt.isNone &&
  (truthy query.search).all (fun search =>
    c.contains job.title search || job.description.any (c.contains · search)) &&
  query.status.all (fun status => decide (job.status = status)) &&
  query.employmentType.all (fun type => decide (job.employmentType = type)) &&
  (truthy query.department).all (fun department =>
    job.department.any (c.contains · department)) &&
  query.salaryMin.all (fun salaryMin =>
    job.salaryMax.any fun max => decide ((salaryMin : Int) ≤ max)) &&
  query.salaryMax.all (fun salaryMax =>
    job.salaryMin.any fun min => decide (min ≤ (salaryMax : Int))) &&
  (truthy query.skills).all (fun skills => hasSkills job (skillList c skills))

def columns : String → Option (Job → SortKey)
  | "id" => some fun j => .text j.id
  | "title" => some fun j => .text j.title
  | "description" => some fun j => .textOrNull j.description
  | "requirements" => some fun j => .jsonOrNull j.requirements
  | "department" => some fun j => .textOrNull j.department
  | "location" => some fun j => .textOrNull j.location
  | "employmentType" => some fun j => .number j.employmentType.ctorIdx
  | "salaryMin" => some fun j => .numberOrNull j.salaryMin
  | "salaryMax" => some fun j => .numberOrNull j.salaryMax
  | "status" => some fun j => .number j.status.ctorIdx
  | "createdById" => some fun j => .text j.createdById
  | "createdAt" => some fun j => .time j.createdAt
  | "updatedAt" => some fun j => .time j.updatedAt
  | "deletedAt" => some fun j => .timeOrNull j.deletedAt
  | _ => none

theorem listedJob_key {db : Db} {j : Job} (hj : j ∈ db.jobs.rows) :
    ∃ d, db.listedJob j = some d ∧ d.id = j.id := by
  obtain ⟨u, hu, hid⟩ := db.jobs_created_by_id_fkey j hj
  have hfind : db.users.find? j.createdById = some u := Table.find?_eq_some.mpr ⟨hu, hid⟩
  unfold Db.listedJob
  rw [hfind]
  exact ⟨_, rfl, rfl⟩

/-- `findAll` -/
def listing (c : Collation) (db : Db) (query : QueryJobsDto) : Listing Job JobListed where
  key := Job.id
  itemKey d := d.id
  rows := db.jobs.rows.filter (selects c query)
  keys_nodup := (List.filter_sublist.map _).nodup db.jobs.key_nodup
  columns := columns
  shown := db.listedJob
  shown_key _ hj := listedJob_key (List.mem_of_mem_filter hj)
  accepted := storable query.search && storable query.department && storable query.skills &&
    query.salaryMin.all (fun n => decide (n ≤ INT4_MAX)) &&
    query.salaryMax.all (fun n => decide (n ≤ INT4_MAX))
  sortBy := query.sortBy.getD "createdAt"
  sortOrder := query.sortOrder.getD "desc"
  limit := query.limit.getD 10
  limit_pos := limit_pos query.limit_min

end JobsService

/-! ## Users -/

structure QueryUsersDto where
  page : Option Nat := none
  limit : Option Nat := none
  search : Option String := none
  role : Option Role := none
  sortBy : Option String := none
  sortOrder : Option String := none
  page_min : ∀ p ∈ page, 1 ≤ p := by simp
  limit_min : ∀ l ∈ limit, 1 ≤ l := by simp
  limit_max : ∀ l ∈ limit, l ≤ 100 := by simp

namespace UsersService

def selects (c : Collation) (query : QueryUsersDto) (user : User) : Bool :=
  user.deletedAt.isNone &&
  (truthy query.search).all (fun search =>
    c.contains user.fullName search || c.contains user.email search) &&
  query.role.all (fun role => decide (user.role = role))

def columns : String → Option (User → SortKey)
  | "id" => some fun u => .text u.id
  | "email" => some fun u => .text u.email
  | "password" => some fun u => .text u.password
  | "role" => some fun u => .number u.role.ctorIdx
  | "fullName" => some fun u => .text u.fullName
  | "createdAt" => some fun u => .time u.createdAt
  | "updatedAt" => some fun u => .time u.updatedAt
  | "deletedAt" => some fun u => .timeOrNull u.deletedAt
  | _ => none

/-- `findAll` -/
def listing (c : Collation) (db : Db) (query : QueryUsersDto) : Listing User SafeUser where
  key := User.id
  itemKey d := d.id
  rows := db.users.rows.filter (selects c query)
  keys_nodup := (List.filter_sublist.map _).nodup db.users.key_nodup
  columns := columns
  shown u := some u.safe
  shown_key _ _ := ⟨_, rfl, rfl⟩
  accepted := storable query.search
  sortBy := query.sortBy.getD "createdAt"
  sortOrder := query.sortOrder.getD "desc"
  limit := query.limit.getD 10
  limit_pos := limit_pos query.limit_min

end UsersService

/-! ## Candidates -/

structure QueryCandidatesDto where
  page : Option Nat := none
  limit : Option Nat := none
  search : Option String := none
  sortBy : Option String := none
  sortOrder : Option String := none
  page_min : ∀ p ∈ page, 1 ≤ p := by simp
  limit_min : ∀ l ∈ limit, 1 ≤ l := by simp
  limit_max : ∀ l ∈ limit, l ≤ 100 := by simp

structure CandidateListed extends Candidate where
  _count : RelationCount

namespace CandidatesService

def selects (c : Collation) (query : QueryCandidatesDto) (candidate : Candidate) : Bool :=
  (truthy query.search).all fun search =>
    c.contains candidate.fullName search || c.contains candidate.email search

def columns : String → Option (Candidate → SortKey)
  | "id" => some fun x => .text x.id
  | "email" => some fun x => .text x.email
  | "fullName" => some fun x => .text x.fullName
  | "phone" => some fun x => .textOrNull x.phone
  | "linkedinUrl" => some fun x => .textOrNull x.linkedinUrl
  | "resumeUrl" => some fun x => .textOrNull x.resumeUrl
  | "resumeText" => some fun x => .textOrNull x.resumeText
  | "createdAt" => some fun x => .time x.createdAt
  | "updatedAt" => some fun x => .time x.updatedAt
  | _ => none

/-- `findAll` -/
def listing (c : Collation) (db : Db) (query : QueryCandidatesDto) :
    Listing Candidate CandidateListed where
  key := Candidate.id
  itemKey d := d.id
  rows := db.candidates.rows.filter (selects c query)
  keys_nodup := (List.filter_sublist.map _).nodup db.candidates.key_nodup
  columns := columns
  shown x := some { x with _count := db.countOfCandidate x.id }
  shown_key _ _ := ⟨_, rfl, rfl⟩
  accepted := storable query.search
  sortBy := query.sortBy.getD "createdAt"
  sortOrder := query.sortOrder.getD "desc"
  limit := query.limit.getD 10
  limit_pos := limit_pos query.limit_min

end CandidatesService

/-! ## Applications and interviews -/

namespace ApplicationsService

def columns : String → Option (Application → SortKey)
  | "id" => some fun a => .text a.id
  | "jobId" => some fun a => .text a.jobId
  | "candidateId" => some fun a => .text a.candidateId
  | "stage" => some fun a => .number a.stage.ctorIdx
  | "status" => some fun a => .number a.status.ctorIdx
  | "cvFileKey" => some fun a => .textOrNull a.cvFileKey
  | "cvFileUrl" => some fun a => .textOrNull a.cvFileUrl
  | "coverLetter" => some fun a => .textOrNull a.coverLetter
  | "notes" => some fun a => .textOrNull a.notes
  | "appliedAt" => some fun a => .time a.appliedAt
  | "reviewedAt" => some fun a => .timeOrNull a.reviewedAt
  | "createdAt" => some fun a => .time a.createdAt
  | "updatedAt" => some fun a => .time a.updatedAt
  | "deletedAt" => some fun a => .timeOrNull a.deletedAt
  | _ => none

/-- `findAll` -/
def listing (db : Db) (userId userRole : String) (query : QueryApplicationsDto) :
    Listing Application ApplicationWithRelations where
  key := Application.id
  itemKey d := d.id
  rows := db.matching (db.listWhere userId userRole query)
  keys_nodup := (List.filter_sublist.map _).nodup db.applications.key_nodup
  columns := columns
  shown := db.withRelations
  shown_key a ha := by
    obtain ⟨x, hx, heq, -⟩ := withRelations_of_mem (List.mem_of_mem_filter ha)
    exact ⟨x, hx, congrArg Application.id heq⟩
  sortBy := query.sortBy.getD "appliedAt"
  sortOrder := query.sortOrder.getD "desc"
  limit := query.limit.getD 10
  limit_pos := limit_pos query.limit_min

end ApplicationsService

namespace InterviewsService

def columns : String → Option (Interview → SortKey)
  | "id" => some fun x => .text x.id
  | "applicationId" => some fun x => .text x.applicationId
  | "scheduledAt" => some fun x => .time x.scheduledAt
  | "duration" => some fun x => .number x.duration
  | "type" => some fun x => .number x.type.ctorIdx
  | "location" => some fun x => .textOrNull x.location
  | "notes" => some fun x => .textOrNull x.notes
  | "status" => some fun x => .number x.status.ctorIdx
  | "interviewerId" => some fun x => .textOrNull x.interviewerId
  | "createdAt" => some fun x => .time x.createdAt
  | "updatedAt" => some fun x => .time x.updatedAt
  | _ => none

/-- `findAll` -/
def listing (db : Db) (query : QueryInterviewsDto) : Listing Interview InterviewListed where
  key := Interview.id
  itemKey d := d.id
  rows := db.matchingInterviews (listWhere query)
  keys_nodup := (List.filter_sublist.map _).nodup db.interviews.key_nodup
  columns := columns
  shown := db.listedInterview
  shown_key x hx := by
    obtain ⟨shown, hshown, heq, -⟩ := listedInterview_of_mem (List.mem_of_mem_filter hx)
    exact ⟨shown, hshown, congrArg Interview.id heq⟩
  sortBy := query.sortBy.getD "scheduledAt"
  sortOrder := query.sortOrder.getD "asc"
  limit := query.limit.getD 10
  limit_pos := limit_pos query.limit_min

end InterviewsService

end TalentFlow
