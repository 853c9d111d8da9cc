import TalentFlow.Gateway.Schema
import Mathlib.Data.List.Sort

/-!
# Gateway.Prisma

The calls the services make through `PrismaService` and what the database does on each. A call is
one atomic step: `perform` answers it and gives the new database. A call that fails leaves the
database as it was.

`update` data follows Prisma: a property that is absent keeps the column, `null` clears a nullable
column and is a validation error for a required one. PostgreSQL refuses to store a text with U+0000
or a number beyond 32 bits. A key with U+0000 is the key of no row.
-/

namespace TalentFlow

open Data

/-- A JSON property: missing, `null` or a value. -/
inductive Field (α : Type) where
  | absent
  | null
  | value (a : α)
  deriving DecidableEq

namespace Field

variable {α : Type}

def isNull : Field α → Bool
  | .null => true
  | _ => false

def isPresent : Field α → Bool
  | .absent => false
  | _ => true

def value? : Field α → Option α
  | .value a => some a
  | _ => none

def orKeep : Field α → Option α → Option α
  | .absent, old => old
  | .null, _ => none
  | .value a, _ => some a

/-- What a required column becomes; `null` is refused before. -/
def orKeepRequired : Field α → α → α
  | .value a, _ => a
  | _, old => old

theorem orKeep_eq_none {f : Field α} (hf : ∀ a, f ≠ .value a) : f.orKeep none = none := by
  cases f with
  | absent => rfl
  | null => rfl
  | value a => exact absurd rfl (hf a)

theorem orKeep_ne_none {f : Field α} (hf : f ≠ .null) {old : Option α} (hold : old ≠ none) :
    f.orKeep old ≠ none := by
  cases f with
  | absent => exact hold
  | null => exact absurd rfl hf
  | value a => exact Option.some_ne_none a

theorem eq_none_of_orKeep {f : Field α} (hf : f ≠ .null) {old : Option α}
    (h : f.orKeep old = none) : old = none := by
  by_contra hold
  exact orKeep_ne_none hf hold h

theorem orKeepRequired_cases (f : Field α) (old : α) :
    f.orKeepRequired old = old ∨ f = .value (f.orKeepRequired old) := by
  cases f with
  | absent => exact .inl rfl
  | null => exact .inl rfl
  | value a => exact .inr rfl

end Field

inductive PrismaError where
  | uniqueConstraint
  | foreignKeyConstraint
  | recordNotFound
  | validation
  /-- a value that its column cannot hold -/
  | invalidValue
  | unavailable
  deriving DecidableEq

inductive UserWhere where
  | id (id : String)
  | email (email : String)
  /-- `{ id, deletedAt: null }` -/
  | live (id : String)

inductive CandidateWhere where
  | id (id : String)
  | email (email : String)

structure UserCreate where
  email : String
  password : String
  fullName : String
  role : Role

structure UserUpdate where
  fullName : Field String := .absent
  role : Field Role := .absent
  deletedAt : Field Time := .absent

structure JobUpdate where
  title : Field String := .absent
  description : Field String := .absent
  requirements : Field JsonValue := .absent
  department : Field String := .absent
  location : Field String := .absent
  employmentType : Field EmploymentType := .absent
  salaryMin : Field Int := .absent
  salaryMax : Field Int := .absent
  status : Field JobStatus := .absent
  deletedAt : Field Time := .absent

structure CandidateCreate where
  email : String
  fullName : String

structure CandidateUpdate where
  fullName : Field String := .absent
  phone : Field String := .absent
  linkedinUrl : Field String := .absent

structure ApplicationCreate where
  jobId : String
  candidateId : String
  coverLetter : Option String := none
  cvFileKey : Option String := none
  cvFileUrl : Option String := none

structure ApplicationUpdate where
  stage : Field ApplicationStage := .absent
  status : Field ApplicationStatus := .absent
  notes : Field String := .absent
  coverLetter : Field String := .absent
  reviewedAt : Field Time := .absent
  deletedAt : Field Time := .absent

structure InterviewCreate where
  applicationId : String
  /-- `none` is an `Invalid Date`. -/
  scheduledAt : Option Time
  duration : Nat
  type : InterviewType
  location : Option String := none
  notes : Option String := none
  interviewerId : Option String := none

structure InterviewUpdate where
  /-- A date, `none` if it is an `Invalid Date`. -/
  scheduledAt : Field (Option Time) := .absent
  duration : Field Nat := .absent
  type : Field InterviewType := .absent
  location : Field String := .absent
  notes : Field String := .absent
  status : Field InterviewStatus := .absent
  interviewerId : Field String := .absent

/-- `Prisma.ApplicationWhereInput` as `findAll` builds it, always with `deletedAt: null`.
`jobCreatedById` is the condition `job: { createdById }`. -/
structure ApplicationWhere where
  jobCreatedById : Option String := none
  jobId : Option String := none
  candidateId : Option String := none
  stage : Option ApplicationStage := none
  status : Option ApplicationStatus := none

/-- A page of a sorted query: `orderBy: { [sortBy]: sortOrder }`, `skip` and `take`. -/
structure PageRequest where
  sortBy : String
  sortOrder : String
  skip : Nat
  take : Nat

structure ApplicationWithRelations extends Application where
  job : Job
  candidate : Candidate

/-- `job: { select: { id, title, department, status } }` -/
structure JobSummary where
  id : String
  title : String
  department : Option String
  status : JobStatus

structure ApplicationWithJob extends Application where
  job : JobSummary

structure CandidateWithApplications extends Candidate where
  applications : List ApplicationWithJob

/-- `Prisma.InterviewWhereInput` as `findAll` builds it. -/
structure InterviewWhere where
  applicationId : Option String := none
  interviewerId : Option String := none
  type : Option InterviewType := none
  status : Option InterviewStatus := none

/-! The selections that `InterviewsService` includes in what it reads. -/

structure UserRef where
  id : String
  fullName : String
  email : String

structure CandidateRef where
  id : String
  fullName : String
  email : String

structure CandidateContact extends CandidateRef where
  phone : Option String

structure JobRef where
  id : String
  title : String

structure JobHeading extends JobRef where
  department : Option String

structure ApplicationRef where
  id : String
  candidate : CandidateRef
  job : JobRef

structure ApplicationBrief where
  id : String
  stage : ApplicationStage
  status : ApplicationStatus
  candidate : CandidateContact
  job : JobHeading

/-- An interview in a list. -/
structure InterviewListed extends Interview where
  application : ApplicationRef
  interviewer : Option UserRef

/-- An interview by itself. -/
structure InterviewDetail extends Interview where
  application : ApplicationBrief
  interviewer : Option UserRef

/-! ## What the writes do to a row -/

def UserCreate.isStorable (d : UserCreate) : Bool :=
  isText d.email && isText d.password && isText d.fullName

def UserUpdate.isValid (d : UserUpdate) : Bool := !d.fullName.isNull && !d.role.isNull

def UserUpdate.isStorable (d : UserUpdate) : Bool := storable d.fullName.value?

def UserUpdate.apply (d : UserUpdate) (now : Time) (u : User) : User :=
  { u with
    fullName := d.fullName.orKeepRequired u.fullName
    role := d.role.orKeepRequired u.role
    deletedAt := d.deletedAt.orKeep u.deletedAt
    updatedAt := now }

/-- A JSON column takes `DbNull` or `JsonNull`, not `null`. -/
def JobUpdate.isValid (d : JobUpdate) : Bool :=
  !d.title.isNull && !d.requirements.isNull && !d.employmentType.isNull && !d.status.isNull

def JobUpdate.isStorable (d : JobUpdate) : Bool :=
  storable d.title.value? && storable d.description.value? &&
    d.requirements.value?.all (·.allTexts isText) && storable d.department.value? &&
    storable d.location.value? && d.salaryMin.value?.all fitsInt && d.salaryMax.value?.all fitsInt

def JobUpdate.apply (d : JobUpdate) (now : Time) (j : Job) : Job :=
  { j with
    title := d.title.orKeepRequired j.title
    description := d.description.orKeep j.description
    requirements := d.requirements.orKeep j.requirements
    department := d.department.orKeep j.department
    location := d.location.orKeep j.location
    employmentType := d.employmentType.orKeepRequired j.employmentType
    salaryMin := d.salaryMin.orKeep j.salaryMin
    salaryMax := d.salaryMax.orKeep j.salaryMax
    status := d.status.orKeepRequired j.status
    deletedAt := d.deletedAt.orKeep j.deletedAt
    updatedAt := now }

def CandidateCreate.isStorable (d : CandidateCreate) : Bool := isText d.email && isText d.fullName

def CandidateUpdate.isValid (d : CandidateUpdate) : Bool := !d.fullName.isNull

def CandidateUpdate.isStorable (d : CandidateUpdate) : Bool :=
  storable d.fullName.value? && storable d.phone.value? && storable d.linkedinUrl.value?

def CandidateUpdate.apply (d : CandidateUpdate) (now : Time) (c : Candidate) : Candidate :=
  { c with
    fullName := d.fullName.orKeepRequired c.fullName
    phone := d.phone.orKeep c.phone
    linkedinUrl := d.linkedinUrl.orKeep c.linkedinUrl
    updatedAt := now }

/-- The keys of the job and the candidate are looked up. -/
def ApplicationCreate.isStorable (d : ApplicationCreate) : Bool :=
  storable d.coverLetter && storable d.cvFileKey && storable d.cvFileUrl

def ApplicationUpdate.isValid (d : ApplicationUpdate) : Bool := !d.stage.isNull && !d.status.isNull

def ApplicationUpdate.isStorable (d : ApplicationUpdate) : Bool :=
  storable d.notes.value? && storable d.coverLetter.value?

def ApplicationUpdate.apply (d : ApplicationUpdate) (now : Time) (a : Application) : Application :=
  { a with
    stage := d.stage.orKeepRequired a.stage
    status := d.status.orKeepRequired a.status
    notes := d.notes.orKeep a.notes
    coverLetter := d.coverLetter.orKeep a.coverLetter
    reviewedAt := d.reviewedAt.orKeep a.reviewedAt
    deletedAt := d.deletedAt.orKeep a.deletedAt
    updatedAt := now }

def InterviewCreate.isStorable (d : InterviewCreate) : Bool :=
  fitsInt d.duration && storable d.location && storable d.notes

def InterviewUpdate.isValid (d : InterviewUpdate) : Bool :=
  !d.scheduledAt.isNull && decide (d.scheduledAt ≠ .value none) && !d.duration.isNull &&
    !d.type.isNull && !d.status.isNull

def InterviewUpdate.isStorable (d : InterviewUpdate) : Bool :=
  d.duration.value?.all (fitsInt ·) && storable d.location.value? && storable d.notes.value?

def InterviewUpdate.apply (d : InterviewUpdate) (now : Time) (x : Interview) : Interview :=
  { x with
    scheduledAt := (d.scheduledAt.orKeepRequired (some x.scheduledAt)).getD x.scheduledAt
    duration := d.duration.orKeepRequired x.duration
    type := d.type.orKeepRequired x.type
    location := d.location.orKeep x.location
    notes := d.notes.orKeep x.notes
    status := d.status.orKeepRequired x.status
    interviewerId := d.interviewerId.orKeep x.interviewerId
    updatedAt := now }

theorem UserUpdate.apply_isStorable (d : UserUpdate) {now : Time} {u : User}
    (h : d.isStorable = true) (hu : u.isStorable = true) : (d.apply now u).isStorable = true := by
  simp only [User.isStorable, UserUpdate.apply, Bool.and_eq_true] at hu ⊢
  refine ⟨hu.1, ?_⟩
  obtain hkept | hgiven := d.fullName.orKeepRequired_cases u.fullName
  · rw [hkept]
    exact hu.2
  · rw [UserUpdate.isStorable, hgiven] at h
    exact h

def UserCreate.row (d : UserCreate) (id : String) (now : Time) : User where
  id := id
  email := d.email
  password := d.password
  role := d.role
  fullName := d.fullName
  createdAt := now
  updatedAt := now

def CandidateCreate.row (d : CandidateCreate) (id : String) (now : Time) : Candidate where
  id := id
  email := d.email
  fullName := d.fullName
  createdAt := now
  updatedAt := now

def ApplicationCreate.row (d : ApplicationCreate) (id : String) (now : Time) : Application where
  id := id
  jobId := d.jobId
  candidateId := d.candidateId
  coverLetter := d.coverLetter
  cvFileKey := d.cvFileKey
  cvFileUrl := d.cvFileUrl
  appliedAt := now
  createdAt := now
  updatedAt := now

def InterviewCreate.row (d : InterviewCreate) (scheduledAt : Time) (id : String) (now : Time) :
    Interview where
  id := id
  applicationId := d.applicationId
  scheduledAt := scheduledAt
  duration := d.duration
  type := d.type
  location := d.location
  notes := d.notes
  interviewerId := d.interviewerId
  createdAt := now
  updatedAt := now

/-! ## Queries -/

namespace Db

def findUser (db : Db) : UserWhere → Option User
  | .id id => db.users.find? id
  | .email email => db.users.findUnique? email
  | .live id => (db.users.find? id).filter fun u => decide (u.deletedAt = none)

def findCandidate (db : Db) : CandidateWhere → Option Candidate
  | .id id => db.candidates.find? id
  | .email email => db.candidates.findUnique? email

def withRelations (db : Db) (a : Application) : Option ApplicationWithRelations :=
  match db.jobs.find? a.jobId, db.candidates.find? a.candidateId with
  | some j, some c => some { a with job := j, candidate := c }
  | _, _ => none

def selects (db : Db) (w : ApplicationWhere) (a : Application) : Bool :=
  decide (a.deletedAt = none) &&
  (match w.jobCreatedById with
    | some owner => db.jobs.rows.any fun j => decide (j.id = a.jobId ∧ j.createdById = owner)
    | none => true) &&
  w.jobId.all (fun id => decide (a.jobId = id)) &&
  w.candidateId.all (fun id => decide (a.candidateId = id)) &&
  w.stage.all (fun s => decide (a.stage = s)) &&
  w.status.all (fun s => decide (a.status = s))

def matching (db : Db) (w : ApplicationWhere) : List Application :=
  db.applications.rows.filter (db.selects w)

def withJob (db : Db) (a : Application) : Option ApplicationWithJob :=
  (db.jobs.find? a.jobId).map fun j =>
    { a with
      job := { id := j.id, title := j.title, department := j.department, status := j.status } }

def interviewer (db : Db) (x : Interview) : Option UserRef :=
  x.interviewerId.bind fun id => (db.users.find? id).map fun u =>
    { id := u.id, fullName := u.fullName, email := u.email }

def listedInterview (db : Db) (x : Interview) : Option InterviewListed :=
  ((db.applications.find? x.applicationId).bind db.withRelations).map fun a =>
    { x with
      application :=
        { id := a.id
          candidate :=
            { id := a.candidate.id, fullName := a.candidate.fullName, email := a.candidate.email }
          job := { id := a.job.id, title := a.job.title } }
      interviewer := db.interviewer x }

def interviewDetail (db : Db) (x : Interview) : Option InterviewDetail :=
  ((db.applications.find? x.applicationId).bind db.withRelations).map fun a =>
    { x with
      application :=
        { id := a.id, stage := a.stage, status := a.status
          candidate :=
            { id := a.candidate.id, fullName := a.candidate.fullName, email := a.candidate.email
              phone := a.candidate.phone }
          job := { id := a.job.id, title := a.job.title, department := a.job.department } }
      interviewer := db.interviewer x }

def matchingInterviews (db : Db) (w : InterviewWhere) : List Interview :=
  db.interviews.rows.filter fun x =>
    w.applicationId.all (fun id => decide (x.applicationId = id)) &&
    w.interviewerId.all (fun id => decide (x.interviewerId = some id)) &&
    w.type.all (fun t => decide (x.type = t)) &&
    w.status.all (fun s => decide (x.status = s))

end Db

theorem withRelations_of_mem {db : Db} {a : Application} (ha : a ∈ db.applications.rows) :
    ∃ x, db.withRelations a = some x ∧ x.toApplication = a ∧ db.jobs.find? a.jobId = some x.job := by
  obtain ⟨job, hjob, hjid⟩ := db.applications_job_id_fkey a ha
  obtain ⟨candidate, hcand, hcid⟩ := db.applications_candidate_id_fkey a ha
  have hj : db.jobs.find? a.jobId = some job := Table.find?_eq_some.mpr ⟨hjob, hjid⟩
  have hc : db.candidates.find? a.candidateId = some candidate :=
    Table.find?_eq_some.mpr ⟨hcand, hcid⟩
  exact ⟨{ a with job := job, candidate := candidate }, by simp [Db.withRelations, hj, hc], rfl, hj⟩

theorem application_of_interview {db : Db} {x : Interview} (hx : x ∈ db.interviews.rows) :
    ∃ y, (db.applications.find? x.applicationId).bind db.withRelations = some y ∧
      y.id = x.applicationId := by
  obtain ⟨a, ha, hid⟩ := db.interviews_application_id_fkey x hx
  obtain ⟨y, hy, heq, -⟩ := withRelations_of_mem ha
  have hfind : db.applications.find? x.applicationId = some a :=
    Table.find?_eq_some.mpr ⟨ha, hid⟩
  exact ⟨y, by rw [hfind, Option.bind_some, hy], by rw [heq, hid]⟩

theorem interviewDetail_of_mem {db : Db} {x : Interview} (hx : x ∈ db.interviews.rows) :
    ∃ shown, db.interviewDetail x = some shown ∧ shown.application.id = x.applicationId := by
  obtain ⟨y, hy, hid⟩ := application_of_interview hx
  unfold Db.interviewDetail
  rw [hy]
  exact ⟨_, rfl, hid⟩

theorem listedInterview_of_mem {db : Db} {x : Interview} (hx : x ∈ db.interviews.rows) :
    ∃ shown, db.listedInterview x = some shown ∧ shown.toInterview = x ∧
      shown.application.id = x.applicationId := by
  obtain ⟨y, hy, hid⟩ := application_of_interview hx
  unfold Db.listedInterview
  rw [hy]
  exact ⟨_, rfl, rfl, hid⟩

def applicationColumns : List String :=
  ["id", "jobId", "candidateId", "stage", "status", "cvFileKey", "cvFileUrl", "coverLetter",
   "notes", "appliedAt", "reviewedAt", "createdAt", "updatedAt", "deletedAt"]

def PageRequest.isValid (p : PageRequest) : Bool :=
  applicationColumns.contains p.sortBy && ["asc", "desc"].contains p.sortOrder

/-- Whether `a` may come before `b`. The order of the text columns is the collation of the
database, which the model leaves open, like the order of rows with equal keys. -/
def PageRequest.mayPrecede (p : PageRequest) (a b : Application) : Bool :=
  let le (x y : Nat) : Bool := if p.sortOrder = "asc" then decide (x ≤ y) else decide (y ≤ x)
  match p.sortBy with
  | "appliedAt" => le a.appliedAt b.appliedAt
  | "createdAt" => le a.createdAt b.createdAt
  | "updatedAt" => le a.updatedAt b.updatedAt
  | "status" => le a.status.ctorIdx b.status.ctorIdx
  | "stage" => le a.stage.ctorIdx b.stage.ctorIdx
  | _ => true

/-- The matching rows in an order the database may return them in. -/
def IsOrdering (db : Db) (w : ApplicationWhere) (p : PageRequest) (rows : List Application) :
    Prop :=
  rows.Perm (db.matching w) ∧ rows.Pairwise fun a b => p.mayPrecede a b = true

instance (db : Db) (w : ApplicationWhere) (p : PageRequest) (rows : List Application) :
    Decidable (IsOrdering db w p rows) :=
  inferInstanceAs (Decidable (_ ∧ _))

section Order

variable {ρ : Type}

/-- An order by a column, up or down, is that of a number in each row. -/
theorem exists_rank_of_column {le : ρ → ρ → Bool} {asc : Prop} [Decidable asc] {column : ρ → Nat}
    (h : ∀ a b, le a b =
      if asc then decide (column a ≤ column b) else decide (column b ≤ column a)) :
    ∃ rank : ρ → Int, ∀ a b, le a b = true ↔ rank a ≤ rank b := by
  by_cases hasc : asc
  · refine ⟨fun a => column a, fun a b => ?_⟩
    rw [h, if_pos hasc, decide_eq_true_eq]
    exact Int.ofNat_le.symm
  · refine ⟨fun a => -column a, fun a b => ?_⟩
    rw [h, if_neg hasc, decide_eq_true_eq]
    dsimp only
    omega

theorem exists_ordered {le : ρ → ρ → Bool} {rank : ρ → Int}
    (hrank : ∀ a b, le a b = true ↔ rank a ≤ rank b) (l : List ρ) :
    ∃ rows : List ρ, rows.Perm l ∧ rows.Pairwise fun a b => le a b = true := by
  refine ⟨l.mergeSort le, List.mergeSort_perm _ _,
    List.pairwise_mergeSort (fun a b c hab hbc => ?_) (fun a b => ?_) _⟩
  · rw [hrank] at hab hbc ⊢
    omega
  · rw [Bool.or_eq_true, hrank, hrank]
    omega

end Order

theorem exists_rank (p : PageRequest) :
    ∃ rank : Application → Int, ∀ a b, p.mayPrecede a b = true ↔ rank a ≤ rank b := by
  obtain ⟨column, hcolumn⟩ : ∃ column : Application → Nat, ∀ a b, p.mayPrecede a b =
      if p.sortOrder = "asc" then decide (column a ≤ column b) else decide (column b ≤ column a) := by
    by_cases happlied : p.sortBy = "appliedAt"
    · exact ⟨Application.appliedAt, fun a b => by simp only [PageRequest.mayPrecede, happlied]⟩
    by_cases hcreated : p.sortBy = "createdAt"
    · exact ⟨Application.createdAt, fun a b => by simp only [PageRequest.mayPrecede, hcreated]⟩
    by_cases hupdated : p.sortBy = "updatedAt"
    · exact ⟨Application.updatedAt, fun a b => by simp only [PageRequest.mayPrecede, hupdated]⟩
    by_cases hstatus : p.sortBy = "status"
    · exact ⟨fun a => a.status.ctorIdx, fun a b => by simp only [PageRequest.mayPrecede, hstatus]⟩
    by_cases hstage : p.sortBy = "stage"
    · exact ⟨fun a => a.stage.ctorIdx, fun a b => by simp only [PageRequest.mayPrecede, hstage]⟩
    refine ⟨fun _ => 0, fun a b => ?_⟩
    unfold PageRequest.mayPrecede
    split <;> simp_all
  exact exists_rank_of_column hcolumn

theorem exists_isOrdering (db : Db) (w : ApplicationWhere) (p : PageRequest) :
    ∃ rows, IsOrdering db w p rows := by
  obtain ⟨rank, hrank⟩ := exists_rank p
  exact exists_ordered hrank _

def interviewColumns : List String :=
  ["id", "applicationId", "scheduledAt", "duration", "type", "location", "notes", "status",
   "interviewerId", "createdAt", "updatedAt"]

def PageRequest.isValidForInterviews (p : PageRequest) : Bool :=
  interviewColumns.contains p.sortBy && ["asc", "desc"].contains p.sortOrder

def PageRequest.mayPrecedeInterview (p : PageRequest) (x y : Interview) : Bool :=
  let le (x y : Nat) : Bool := if p.sortOrder = "asc" then decide (x ≤ y) else decide (y ≤ x)
  match p.sortBy with
  | "scheduledAt" => le x.scheduledAt y.scheduledAt
  | "createdAt" => le x.createdAt y.createdAt
  | "updatedAt" => le x.updatedAt y.updatedAt
  | "duration" => le x.duration y.duration
  | "type" => le x.type.ctorIdx y.type.ctorIdx
  | "status" => le x.status.ctorIdx y.status.ctorIdx
  | _ => true

def IsInterviewOrdering (db : Db) (w : InterviewWhere) (p : PageRequest) (rows : List Interview) :
    Prop :=
  rows.Perm (db.matchingInterviews w) ∧
    rows.Pairwise fun x y => p.mayPrecedeInterview x y = true

instance (db : Db) (w : InterviewWhere) (p : PageRequest) (rows : List Interview) :
    Decidable (IsInterviewOrdering db w p rows) :=
  inferInstanceAs (Decidable (_ ∧ _))

theorem exists_interview_rank (p : PageRequest) :
    ∃ rank : Interview → Int, ∀ x y, p.mayPrecedeInterview x y = true ↔ rank x ≤ rank y := by
  obtain ⟨column, hcolumn⟩ : ∃ column : Interview → Nat, ∀ x y, p.mayPrecedeInterview x y =
      if p.sortOrder = "asc" then decide (column x ≤ column y) else decide (column y ≤ column x) := by
    by_cases hscheduled : p.sortBy = "scheduledAt"
    · exact ⟨Interview.scheduledAt, fun x y => by
        simp only [PageRequest.mayPrecedeInterview, hscheduled]⟩
    by_cases hcreated : p.sortBy = "createdAt"
    · exact ⟨Interview.createdAt, fun x y => by
        simp only [PageRequest.mayPrecedeInterview, hcreated]⟩
    by_cases hupdated : p.sortBy = "updatedAt"
    · exact ⟨Interview.updatedAt, fun x y => by
        simp only [PageRequest.mayPrecedeInterview, hupdated]⟩
    by_cases hduration : p.sortBy = "duration"
    · exact ⟨Interview.duration, fun x y => by
        simp only [PageRequest.mayPrecedeInterview, hduration]⟩
    by_cases htype : p.sortBy = "type"
    · exact ⟨fun x => x.type.ctorIdx, fun x y => by
        simp only [PageRequest.mayPrecedeInterview, htype]⟩
    by_cases hstatus : p.sortBy = "status"
    · exact ⟨fun x => x.status.ctorIdx, fun x y => by
        simp only [PageRequest.mayPrecedeInterview, hstatus]⟩
    refine ⟨fun _ => 0, fun x y => ?_⟩
    unfold PageRequest.mayPrecedeInterview
    split <;> simp_all
  exact exists_rank_of_column hcolumn

theorem exists_isInterviewOrdering (db : Db) (w : InterviewWhere) (p : PageRequest) :
    ∃ rows, IsInterviewOrdering db w p rows := by
  obtain ⟨rank, hrank⟩ := exists_interview_rank p
  exact exists_ordered hrank _

/-! ## Calls -/

/-- The orders in which the database gives the rows of the sorted queries. -/
structure Rows where
  applications : List Application := []
  interviews : List Interview := []

inductive PrismaCall where
  | userFindUnique (w : UserWhere)
  | userCreate (d : UserCreate)
  | userUpdate (id : String) (d : UserUpdate)
  | jobFindUnique (id : String)
  | jobUpdate (id : String) (d : JobUpdate)
  | candidateFindUnique (w : CandidateWhere)
  | candidateCreate (d : CandidateCreate)
  | candidateUpdate (id : String) (d : CandidateUpdate)
  | candidateDelete (id : String)
  | applicationFindUnique (id : String)
  /-- `findFirst({ where: { jobId, candidateId, deletedAt: null } })` -/
  | applicationFindFirst (jobId candidateId : String)
  | applicationFindMany (w : ApplicationWhere) (p : PageRequest)
  | applicationCount (w : ApplicationWhere)
  | applicationCreate (d : ApplicationCreate)
  | applicationUpdate (id : String) (d : ApplicationUpdate)
  | applicationDelete (id : String)
  /-- with the live applications of the candidate, latest first -/
  | candidateFindUniqueWithApplications (id : String)
  /-- `findUnique({ where: { id, deletedAt: null } })` -/
  | applicationFindLive (id : String)
  | interviewFindUnique (id : String)
  /-- `findUnique` without the relations -/
  | interviewFindById (id : String)
  | interviewCreate (d : InterviewCreate)
  | interviewUpdate (id : String) (d : InterviewUpdate)
  | interviewFindMany (w : InterviewWhere) (p : PageRequest)
  | interviewCount (w : InterviewWhere)

namespace PrismaCall

abbrev Value : PrismaCall → Type
  | userFindUnique _ => Option User
  | userCreate _ => User
  | userUpdate _ _ => User
  | jobFindUnique _ => Option Job
  | jobUpdate _ _ => Job
  | candidateFindUnique _ => Option Candidate
  | candidateCreate _ => Candidate
  | candidateUpdate _ _ => Candidate
  | candidateDelete _ => Unit
  | applicationFindUnique _ => Option ApplicationWithRelations
  | applicationFindFirst _ _ => Option Application
  | applicationFindMany _ _ => List ApplicationWithRelations
  | applicationCount _ => Nat
  | applicationCreate _ => Application
  | applicationUpdate _ _ => Application
  | applicationDelete _ => Unit
  | candidateFindUniqueWithApplications _ => Option CandidateWithApplications
  | applicationFindLive _ => Option Application
  | interviewFindUnique _ => Option InterviewDetail
  | interviewFindById _ => Option Interview
  | interviewCreate _ => Interview
  | interviewUpdate _ _ => Interview
  | interviewFindMany _ _ => List InterviewListed
  | interviewCount _ => Nat

def drawsId : PrismaCall → Bool
  | userCreate _ => true
  | candidateCreate _ => true
  | applicationCreate _ => true
  | interviewCreate _ => true
  | _ => false

/-- `orderBy: { appliedAt: 'desc' }`, without a limit. -/
def latestFirst : PageRequest where
  sortBy := "appliedAt"
  sortOrder := "desc"
  skip := 0
  take := 0

def sortedQuery : PrismaCall → Option (ApplicationWhere × PageRequest)
  | applicationFindMany w p => if p.isValid then some (w, p) else none
  | candidateFindUniqueWithApplications id => some ({ candidateId := some id }, latestFirst)
  | _ => none

def sortedInterviews : PrismaCall → Option (InterviewWhere × PageRequest)
  | interviewFindMany w p => if p.isValidForInterviews then some (w, p) else none
  | _ => none

/-- What the call answers and leaves at time `now`. `id` is the primary key of a row it creates,
`rows` the order in which the database gives the rows of a sorted query. -/
def perform (now : Time) (id : String) (rows : Rows) :
    (c : PrismaCall) → Db → Except PrismaError c.Value × Db
  | userFindUnique w, db => (.ok (db.findUser w), db)
  | userCreate d, db =>
    if hstorable : d.isStorable = true then
      match db.insertUser (d.row id now) hstorable with
      | some db' => (.ok (d.row id now), db')
      | none => (.error .uniqueConstraint, db)
    else (.error .invalidValue, db)
  | userUpdate key d, db =>
    if d.isValid then
      if hstorable : d.isStorable = true then
        match db.users.find? key with
        | some u => (.ok (d.apply now u), db.modifyUser key (d.apply now) (fun _ => rfl)
            (fun _ => rfl) fun _ hu => d.apply_isStorable hstorable hu)
        | none => (.error .recordNotFound, db)
      else (.error .invalidValue, db)
    else (.error .validation, db)
  | jobFindUnique key, db => (.ok (db.jobs.find? key), db)
  | jobUpdate key d, db =>
    if d.isValid then
      if d.isStorable then
        match db.jobs.find? key with
        | some j => (.ok (d.apply now j), db.modifyJob key (d.apply now) (fun _ => rfl) fun _ => rfl)
        | none => (.error .recordNotFound, db)
      else (.error .invalidValue, db)
    else (.error .validation, db)
  | candidateFindUnique w, db => (.ok (db.findCandidate w), db)
  | candidateCreate d, db =>
    if d.isStorable then
      match db.insertCandidate (d.row id now) with
      | some db' => (.ok (d.row id now), db')
      | none => (.error .uniqueConstraint, db)
    else (.error .invalidValue, db)
  | candidateUpdate key d, db =>
    if d.isValid then
      if d.isStorable then
        match db.candidates.find? key with
        | some c =>
          (.ok (d.apply now c), db.modifyCandidate key (d.apply now) (fun _ => rfl) fun _ => rfl)
        | none => (.error .recordNotFound, db)
      else (.error .invalidValue, db)
    else (.error .validation, db)
  | candidateDelete key, db =>
    if db.candidates.HasKey key then (.ok (), db.deleteCandidate key)
    else (.error .recordNotFound, db)
  | applicationFindUnique key, db => (.ok ((db.applications.find? key).bind db.withRelations), db)
  | applicationFindFirst jobId candidateId, db =>
    (.ok (db.applications.rows.find? fun a =>
      decide (a.jobId = jobId ∧ a.candidateId = candidateId ∧ a.deletedAt = none)), db)
  | applicationFindMany _ p, db =>
    if p.isValid then
      (.ok (((rows.applications.drop p.skip).take p.take).filterMap db.withRelations), db)
    else (.error .validation, db)
  | applicationCount w, db => (.ok (db.matching w).length, db)
  | applicationCreate d, db =>
    if d.isStorable then
      if hjob : db.jobs.HasKey d.jobId then
        if hcand : db.candidates.HasKey d.candidateId then
          match db.insertApplication (d.row id now) hjob hcand with
          | some db' => (.ok (d.row id now), db')
          | none => (.error .uniqueConstraint, db)
        else (.error .foreignKeyConstraint, db)
      else (.error .foreignKeyConstraint, db)
    else (.error .invalidValue, db)
  | applicationUpdate key d, db =>
    if d.isValid then
      if d.isStorable then
        match db.applications.find? key with
        | some a =>
          (.ok (d.apply now a), db.modifyApplication key (d.apply now) (fun _ => rfl) fun _ => rfl)
        | none => (.error .recordNotFound, db)
      else (.error .invalidValue, db)
    else (.error .validation, db)
  | applicationDelete key, db =>
    if db.applications.HasKey key then (.ok (), db.deleteApplication key)
    else (.error .recordNotFound, db)
  | candidateFindUniqueWithApplications key, db =>
    (.ok ((db.candidates.find? key).map fun c =>
      { c with applications := rows.applications.filterMap db.withJob }), db)
  | applicationFindLive key, db =>
    (.ok ((db.applications.find? key).filter fun a => decide (a.deletedAt = none)), db)
  | interviewFindUnique key, db => (.ok ((db.interviews.find? key).bind db.interviewDetail), db)
  | interviewFindById key, db => (.ok (db.interviews.find? key), db)
  | interviewCreate d, db =>
    match d.scheduledAt with
    | none => (.error .validation, db)
    | some scheduledAt =>
      if d.isStorable then
        if happlication : db.applications.HasKey d.applicationId then
          if hinterviewer : ∀ u ∈ d.interviewerId, db.users.HasKey u then
            match db.insertInterview (d.row scheduledAt id now) happlication hinterviewer with
            | some db' => (.ok (d.row scheduledAt id now), db')
            | none => (.error .uniqueConstraint, db)
          else (.error .foreignKeyConstraint, db)
        else (.error .foreignKeyConstraint, db)
      else (.error .invalidValue, db)
  | interviewUpdate key d, db =>
    if d.isValid then
      if d.isStorable then
        match db.interviews.find? key with
        | some x =>
          if hinterviewer : ∀ y ∈ db.interviews.rows, y.id = key →
              ∀ u ∈ (d.apply now y).interviewerId, db.users.HasKey u then
            (.ok (d.apply now x), db.modifyInterview key (d.apply now) (fun _ => rfl) (fun _ => rfl)
              hinterviewer)
          else (.error .foreignKeyConstraint, db)
        | none => (.error .recordNotFound, db)
      else (.error .invalidValue, db)
    else (.error .validation, db)
  | interviewFindMany _ p, db =>
    if p.isValidForInterviews then
      (.ok (((rows.interviews.drop p.skip).take p.take).filterMap db.listedInterview), db)
    else (.error .validation, db)
  | interviewCount w, db => (.ok (db.matchingInterviews w).length, db)

def isStorable : PrismaCall → Bool
  | userCreate d => d.isStorable
  | userUpdate _ d => d.isStorable
  | jobUpdate _ d => d.isStorable
  | candidateCreate d => d.isStorable
  | candidateUpdate _ d => d.isStorable
  | applicationCreate d => d.isStorable
  | applicationUpdate _ d => d.isStorable
  | interviewCreate d => d.isStorable
  | interviewUpdate _ d => d.isStorable
  | _ => true

def IsRead : PrismaCall → Prop
  | userFindUnique _ => True
  | jobFindUnique _ => True
  | candidateFindUnique _ => True
  | applicationFindUnique _ => True
  | applicationFindFirst _ _ => True
  | applicationFindMany _ _ => True
  | applicationCount _ => True
  | candidateFindUniqueWithApplications _ => True
  | applicationFindLive _ => True
  | interviewFindUnique _ => True
  | interviewFindById _ => True
  | interviewFindMany _ _ => True
  | interviewCount _ => True
  | _ => False

/-! ## What each call leaves -/

section Perform

variable {now : Time} {id : String} {rows : Rows} {db db' : Db}

theorem perform_userCreate {d : UserCreate} {v : User}
    (h : (userCreate d).perform now id rows db = (.ok v, db')) :
    v = d.row id now ∧ ∃ hstorable, db.insertUser (d.row id now) hstorable = some db' := by
  simp only [perform] at h
  split at h
  · split at h
    · rename_i hins
      cases h
      exact ⟨rfl, _, hins⟩
    · cases h
  · cases h

theorem perform_userUpdate {key : String} {d : UserUpdate} {v : User}
    (h : (userUpdate key d).perform now id rows db = (.ok v, db')) :
    ∃ u, db.users.find? key = some u ∧ d.isValid = true ∧ v = d.apply now u ∧
      ∃ htext, db' = db.modifyUser key (d.apply now) (fun _ => rfl) (fun _ => rfl) htext := by
  simp only [perform] at h
  split at h
  · rename_i hvalid
    split at h
    · split at h
      · rename_i u hu
        cases h
        exact ⟨u, hu, hvalid, rfl, _, rfl⟩
      · cases h
    · cases h
  · cases h

theorem perform_jobUpdate {key : String} {d : JobUpdate} {v : Job}
    (h : (jobUpdate key d).perform now id rows db = (.ok v, db')) :
    ∃ j, db.jobs.find? key = some j ∧ d.isValid = true ∧ v = d.apply now j ∧
      db' = db.modifyJob key (d.apply now) (fun _ => rfl) fun _ => rfl := by
  simp only [perform] at h
  split at h
  · rename_i hvalid
    split at h
    · split at h
      · rename_i j hj
        cases h
        exact ⟨j, hj, hvalid, rfl, rfl⟩
      · cases h
    · cases h
  · cases h

theorem find?_jobUpdate_self {key : String} {d : JobUpdate} {v : Job}
    (h : (jobUpdate key d).perform now id rows db = (.ok v, db')) :
    db'.jobs.find? key = some v := by
  obtain ⟨j, hj, -, rfl, rfl⟩ := perform_jobUpdate h
  have hmap : (db.jobs.find? key).map (d.apply now) = some (d.apply now j) := by
    rw [hj, Option.map_some]
  exact (@Db.find?_modifyJob_self db key (d.apply now) (fun _ => rfl) fun _ => rfl).trans hmap

theorem find?_jobUpdate_ne {key key' : String} {d : JobUpdate} {v : Job}
    (h : (jobUpdate key d).perform now id rows db = (.ok v, db')) (hne : key' ≠ key) :
    db'.jobs.find? key' = db.jobs.find? key' := by
  obtain ⟨j, -, -, -, rfl⟩ := perform_jobUpdate h
  exact @Db.find?_modifyJob_ne db key (d.apply now) (fun _ => rfl) (fun _ => rfl) key' hne

theorem perform_candidateCreate {d : CandidateCreate} {v : Candidate}
    (h : (candidateCreate d).perform now id rows db = (.ok v, db')) :
    v = d.row id now ∧ db.insertCandidate (d.row id now) = some db' := by
  simp only [perform] at h
  split at h
  · split at h
    · rename_i hins
      cases h
      exact ⟨rfl, hins⟩
    · cases h
  · cases h

theorem perform_candidateUpdate {key : String} {d : CandidateUpdate} {v : Candidate}
    (h : (candidateUpdate key d).perform now id rows db = (.ok v, db')) :
    ∃ c, db.candidates.find? key = some c ∧ d.isValid = true ∧ v = d.apply now c ∧
      db' = db.modifyCandidate key (d.apply now) (fun _ => rfl) fun _ => rfl := by
  simp only [perform] at h
  split at h
  · rename_i hvalid
    split at h
    · split at h
      · rename_i c hc
        cases h
        exact ⟨c, hc, hvalid, rfl, rfl⟩
      · cases h
    · cases h
  · cases h

theorem perform_candidateDelete {key : String} {v : Unit}
    (h : (candidateDelete key).perform now id rows db = (.ok v, db')) :
    db.candidates.HasKey key ∧ db' = db.deleteCandidate key := by
  simp only [perform] at h
  split at h
  · rename_i hkey
    cases h
    exact ⟨hkey, rfl⟩
  · cases h

theorem perform_applicationCreate {d : ApplicationCreate} {v : Application}
    (h : (applicationCreate d).perform now id rows db = (.ok v, db')) :
    v = d.row id now ∧ db.jobs.HasKey d.jobId ∧ db.candidates.HasKey d.candidateId ∧
      db.applications.insert? (d.row id now) = some db'.applications ∧ db'.users = db.users ∧
      db'.jobs = db.jobs ∧ db'.candidates = db.candidates := by
  simp only [perform] at h
  split at h
  · split at h
    · rename_i hjob
      split at h
      · rename_i hcand
        split at h
        · rename_i hins
          cases h
          exact ⟨rfl, hjob, hcand, Db.insertApplication_eq_some hins⟩
        · cases h
      · cases h
    · cases h
  · cases h

theorem perform_applicationUpdate {key : String} {d : ApplicationUpdate} {v : Application}
    (h : (applicationUpdate key d).perform now id rows db = (.ok v, db')) :
    ∃ a, db.applications.find? key = some a ∧ d.isValid = true ∧ v = d.apply now a ∧
      db' = db.modifyApplication key (d.apply now) (fun _ => rfl) fun _ => rfl := by
  simp only [perform] at h
  split at h
  · rename_i hvalid
    split at h
    · split at h
      · rename_i a ha
        cases h
        exact ⟨a, ha, hvalid, rfl, rfl⟩
      · cases h
    · cases h
  · cases h

theorem perform_applicationDelete {key : String} {v : Unit}
    (h : (applicationDelete key).perform now id rows db = (.ok v, db')) :
    db.applications.HasKey key ∧ db' = db.deleteApplication key := by
  simp only [perform] at h
  split at h
  · rename_i hkey
    cases h
    exact ⟨hkey, rfl⟩
  · cases h

theorem perform_interviewCreate {d : InterviewCreate} {v : Interview}
    (h : (interviewCreate d).perform now id rows db = (.ok v, db')) :
    ∃ scheduledAt, d.scheduledAt = some scheduledAt ∧ v = d.row scheduledAt id now ∧
      db.interviews.insert? (d.row scheduledAt id now) = some db'.interviews ∧
      db'.users = db.users ∧ db'.jobs = db.jobs ∧ db'.candidates = db.candidates ∧
      db'.applications = db.applications := by
  simp only [perform] at h
  split at h
  · cases h
  · rename_i scheduledAt hscheduled
    split at h
    · split at h
      · split at h
        · split at h
          · rename_i hins
            cases h
            exact ⟨scheduledAt, hscheduled, rfl, Db.insertInterview_eq_some hins⟩
          · cases h
        · cases h
      · cases h
    · cases h

theorem perform_interviewUpdate {key : String} {d : InterviewUpdate} {v : Interview}
    (h : (interviewUpdate key d).perform now id rows db = (.ok v, db')) :
    d.isValid = true ∧ ∃ x, db.interviews.find? key = some x ∧ v = d.apply now x ∧
      ∃ hinterviewer, db' = db.modifyInterview key (d.apply now) (fun _ => rfl) (fun _ => rfl)
        hinterviewer := by
  simp only [perform] at h
  split at h
  · rename_i hvalid
    split at h
    · split at h
      · rename_i x hx
        split at h
        · rename_i hinterviewer
          cases h
          exact ⟨hvalid, x, hx, rfl, hinterviewer, rfl⟩
        · cases h
      · cases h
    · cases h
  · cases h

theorem perform_storable {c : PrismaCall} {v : c.Value}
    (h : c.perform now id rows db = (.ok v, db')) : c.isStorable = true := by
  by_contra hno
  cases c <;> simp only [isStorable, not_true_eq_false] at hno <;>
    simp only [perform, if_neg hno, dif_neg hno] at h
  -- an update is validated before, and the date of an interview
  all_goals first
    | cases h
    | (split at h <;> cases h)

theorem candidateCreate_succeeds {d : CandidateCreate}
    (hstorable : d.isStorable = true)
    (hfree : ∀ x ∈ db.candidates.rows, x.id ≠ id ∧ x.email ≠ d.email) :
    ∃ db', (candidateCreate d).perform now id rows db = (.ok (d.row id now), db') := by
  cases hins : db.insertCandidate (d.row id now) with
  | none =>
    obtain ⟨x, hx, hk | hu⟩ := Table.insert?_eq_none.mp (Db.insertCandidate_eq_none.mp hins)
    · exact absurd hk (hfree x hx).1
    · exact absurd hu (hfree x hx).2
  | some db' => exact ⟨db', by simp only [perform, if_pos hstorable, hins]⟩

theorem applicationCreate_succeeds {d : ApplicationCreate} (hstorable : d.isStorable = true)
    (hjob : db.jobs.HasKey d.jobId) (hcand : db.candidates.HasKey d.candidateId)
    (hfree : ∀ a ∈ db.applications.rows, a.id ≠ id ∧ a.pair ≠ (d.jobId, d.candidateId)) :
    ∃ db', (applicationCreate d).perform now id rows db = (.ok (d.row id now), db') := by
  cases hins : db.insertApplication (d.row id now) hjob hcand with
  | none =>
    obtain ⟨a, ha, hk | hu⟩ := Table.insert?_eq_none.mp (Db.insertApplication_eq_none.mp hins)
    · exact absurd hk (hfree a ha).1
    · exact absurd hu (hfree a ha).2
  | some db' =>
    exact ⟨db', by simp only [perform, if_pos hstorable, dif_pos hjob, dif_pos hcand, hins]⟩

theorem perform_read {c : PrismaCall} (hc : c.IsRead) : (c.perform now id rows db).2 = db := by
  cases c with
  | applicationFindMany w p =>
    simp only [perform]
    split <;> rfl
  | userFindUnique w => rfl
  | jobFindUnique key => rfl
  | candidateFindUnique w => rfl
  | applicationFindUnique key => rfl
  | applicationFindFirst jobId candidateId => rfl
  | applicationCount w => rfl
  | candidateFindUniqueWithApplications key => rfl
  | applicationFindLive key => rfl
  | interviewFindUnique key => rfl
  | interviewFindById key => rfl
  | interviewFindMany w p =>
    simp only [perform]
    split <;> rfl
  | interviewCount w => rfl
  | _ => exact hc.elim

end Perform

structure Frame (c : PrismaCall) (db db' : Db) : Prop where
  users : (∀ d, c ≠ userCreate d) → (∀ key d, c ≠ userUpdate key d) → db'.users = db.users
  jobs : (∀ key d, c ≠ jobUpdate key d) → db'.jobs = db.jobs
  candidates : (∀ d, c ≠ candidateCreate d) → (∀ key d, c ≠ candidateUpdate key d) →
    (∀ key, c ≠ candidateDelete key) → db'.candidates = db.candidates
  applications : (∀ key, c ≠ candidateDelete key) → (∀ d, c ≠ applicationCreate d) →
    (∀ key d, c ≠ applicationUpdate key d) → (∀ key, c ≠ applicationDelete key) →
    db'.applications = db.applications

theorem Frame.refl (c : PrismaCall) (db : Db) : Frame c db db :=
  ⟨fun _ _ => rfl, fun _ => rfl, fun _ _ _ => rfl, fun _ _ _ _ => rfl⟩

section Frame

variable {c : PrismaCall} {now : Time} {id : String} {rows : Rows} {db db' : Db}
  {v : c.Value}

theorem perform_frame (h : c.perform now id rows db = (.ok v, db')) : Frame c db db' := by
  by_cases hread : c.IsRead
  · have hdb : db' = db := (congrArg Prod.snd h).symm.trans (perform_read hread)
    rw [hdb]
    exact .refl c db
  cases c with
  | userCreate d =>
    obtain ⟨-, _, hins⟩ := perform_userCreate h
    obtain ⟨-, hj, hc, ha⟩ := Db.insertUser_eq_some hins
    exact ⟨fun hne _ => absurd rfl (hne d), fun _ => hj, fun _ _ _ => hc, fun _ _ _ _ => ha⟩
  | userUpdate key d =>
    obtain ⟨u, -, -, -, _, rfl⟩ := perform_userUpdate h
    exact { Frame.refl (userUpdate key d) db with users := fun _ hne => absurd rfl (hne key d) }
  | jobUpdate key d =>
    obtain ⟨j, -, -, -, rfl⟩ := perform_jobUpdate h
    exact { Frame.refl (jobUpdate key d) db with jobs := fun hne => absurd rfl (hne key d) }
  | candidateCreate d =>
    obtain ⟨-, hins⟩ := perform_candidateCreate h
    obtain ⟨-, hu, hj, ha⟩ := Db.insertCandidate_eq_some hins
    exact ⟨fun _ _ => hu, fun _ => hj, fun hne _ _ => absurd rfl (hne d), fun _ _ _ _ => ha⟩
  | candidateUpdate key d =>
    obtain ⟨x, -, -, -, rfl⟩ := perform_candidateUpdate h
    exact { Frame.refl (candidateUpdate key d) db with
      candidates := fun _ hne _ => absurd rfl (hne key d) }
  | candidateDelete key =>
    obtain ⟨-, rfl⟩ := perform_candidateDelete h
    exact ⟨fun _ _ => rfl, fun _ => rfl, fun _ _ hne => absurd rfl (hne key),
      fun hne _ _ _ => absurd rfl (hne key)⟩
  | applicationCreate d =>
    obtain ⟨-, -, -, -, hu, hj, hc⟩ := perform_applicationCreate h
    exact ⟨fun _ _ => hu, fun _ => hj, fun _ _ _ => hc, fun _ hne _ _ => absurd rfl (hne d)⟩
  | applicationUpdate key d =>
    obtain ⟨a, -, -, -, rfl⟩ := perform_applicationUpdate h
    exact { Frame.refl (applicationUpdate key d) db with
      applications := fun _ _ hne _ => absurd rfl (hne key d) }
  | applicationDelete key =>
    obtain ⟨-, rfl⟩ := perform_applicationDelete h
    exact { Frame.refl (applicationDelete key) db with
      applications := fun _ _ _ hne => absurd rfl (hne key) }
  | interviewCreate d =>
    obtain ⟨-, -, -, -, hu, hj, hc, ha⟩ := perform_interviewCreate h
    exact ⟨fun _ _ => hu, fun _ => hj, fun _ _ _ => hc, fun _ _ _ _ => ha⟩
  | interviewUpdate key d =>
    obtain ⟨-, -, -, -, -, rfl⟩ := perform_interviewUpdate h
    exact ⟨fun _ _ => rfl, fun _ => rfl, fun _ _ _ => rfl, fun _ _ _ _ => rfl⟩
  | _ => exact absurd trivial hread

theorem mem_users (h : c.perform now id rows db = (.ok v, db')) {u : User}
    (hu : u ∈ db'.users.rows) :
    u ∈ db.users.rows ∨ (∃ d, c = userCreate d ∧ u = d.row id now) ∨
      ∃ d u₀, c = userUpdate u₀.id d ∧ u₀ ∈ db.users.rows ∧ u = d.apply now u₀ := by
  cases c with
  | userCreate d =>
    obtain ⟨-, _, hins⟩ := perform_userCreate h
    obtain hu | rfl := (Table.mem_insert (Db.insertUser_eq_some hins).1).mp hu
    · exact .inl hu
    · exact .inr (.inl ⟨d, rfl, rfl⟩)
  | userUpdate key d =>
    obtain ⟨-, -, -, -, _, rfl⟩ := perform_userUpdate h
    obtain ⟨hu, -⟩ | ⟨u₀, hu₀, rfl, rfl⟩ := Db.mem_modifyUser.mp hu
    · exact .inl hu
    · exact .inr (.inr ⟨d, u₀, rfl, hu₀, rfl⟩)
  | _ =>
    left
    rwa [(perform_frame h).users (by simp) (by simp)] at hu

theorem mem_candidates (h : c.perform now id rows db = (.ok v, db')) {x : Candidate}
    (hx : x ∈ db'.candidates.rows) :
    x ∈ db.candidates.rows ∨ (∃ d, c = candidateCreate d ∧ x = d.row id now) ∨
      ∃ d x₀, c = candidateUpdate x₀.id d ∧ x₀ ∈ db.candidates.rows ∧ x = d.apply now x₀ := by
  cases c with
  | candidateCreate d =>
    obtain ⟨-, hins⟩ := perform_candidateCreate h
    obtain hx | rfl := (Table.mem_insert (Db.insertCandidate_eq_some hins).1).mp hx
    · exact .inl hx
    · exact .inr (.inl ⟨d, rfl, rfl⟩)
  | candidateUpdate key d =>
    obtain ⟨-, -, -, -, rfl⟩ := perform_candidateUpdate h
    obtain ⟨hx, -⟩ | ⟨x₀, hx₀, rfl, rfl⟩ := Db.mem_modifyCandidate.mp hx
    · exact .inl hx
    · exact .inr (.inr ⟨d, x₀, rfl, hx₀, rfl⟩)
  | candidateDelete key =>
    obtain ⟨-, rfl⟩ := perform_candidateDelete h
    exact .inl (Table.mem_remove.mp hx).1
  | _ =>
    left
    rwa [(perform_frame h).candidates (by simp) (by simp) (by simp)] at hx

theorem mem_applications (h : c.perform now id rows db = (.ok v, db')) {a : Application}
    (ha : a ∈ db'.applications.rows) :
    a ∈ db.applications.rows ∨ (∃ d, c = applicationCreate d ∧ a = d.row id now) ∨
      ∃ d a₀, c = applicationUpdate a₀.id d ∧ a₀ ∈ db.applications.rows ∧ a = d.apply now a₀ := by
  cases c with
  | candidateDelete key =>
    obtain ⟨-, rfl⟩ := perform_candidateDelete h
    exact .inl (Table.mem_remove.mp ha).1
  | applicationCreate d =>
    obtain ⟨-, -, -, hins, -⟩ := perform_applicationCreate h
    obtain ha | rfl := (Table.mem_insert hins).mp ha
    · exact .inl ha
    · exact .inr (.inl ⟨d, rfl, rfl⟩)
  | applicationUpdate key d =>
    obtain ⟨-, -, -, -, rfl⟩ := perform_applicationUpdate h
    obtain ⟨ha, -⟩ | ⟨a₀, ha₀, rfl, rfl⟩ := Db.mem_modifyApplication.mp ha
    · exact .inl ha
    · exact .inr (.inr ⟨d, a₀, rfl, ha₀, rfl⟩)
  | applicationDelete key =>
    obtain ⟨-, rfl⟩ := perform_applicationDelete h
    exact .inl (Table.mem_remove.mp ha).1
  | _ =>
    left
    rwa [(perform_frame h).applications (by simp) (by simp) (by simp) (by simp)] at ha

theorem mem_interviews (h : c.perform now id rows db = (.ok v, db')) {x : Interview}
    (hx : x ∈ db'.interviews.rows) :
    x ∈ db.interviews.rows ∨
      (∃ d scheduledAt, c = interviewCreate d ∧ x = d.row scheduledAt id now) ∨
      ∃ d x₀, c = interviewUpdate x₀.id d ∧ x₀ ∈ db.interviews.rows ∧ x = d.apply now x₀ := by
  by_cases hread : c.IsRead
  · have hdb : db' = db := (congrArg Prod.snd h).symm.trans (perform_read hread)
    rw [hdb] at hx
    exact .inl hx
  cases c with
  | interviewCreate d =>
    obtain ⟨scheduledAt, -, -, hins, -⟩ := perform_interviewCreate h
    obtain hx | rfl := (Table.mem_insert hins).mp hx
    · exact .inl hx
    · exact .inr (.inl ⟨d, scheduledAt, rfl, rfl⟩)
  | interviewUpdate key d =>
    obtain ⟨-, -, -, -, hinterviewer, rfl⟩ := perform_interviewUpdate h
    obtain ⟨hx, -⟩ | ⟨x₀, hx₀, rfl, rfl⟩ := Db.mem_modifyInterview.mp hx
    · exact .inl hx
    · exact .inr (.inr ⟨d, x₀, rfl, hx₀, rfl⟩)
  | userCreate d =>
    obtain ⟨-, _, hins⟩ := perform_userCreate h
    rw [Db.insertUser_interviews hins] at hx
    exact .inl hx
  | userUpdate key d =>
    obtain ⟨-, -, -, -, _, rfl⟩ := perform_userUpdate h
    exact .inl hx
  | jobUpdate key d =>
    obtain ⟨-, -, -, -, rfl⟩ := perform_jobUpdate h
    exact .inl hx
  | candidateCreate d =>
    rw [Db.insertCandidate_interviews (perform_candidateCreate h).2] at hx
    exact .inl hx
  | candidateUpdate key d =>
    obtain ⟨-, -, -, -, rfl⟩ := perform_candidateUpdate h
    exact .inl hx
  | candidateDelete key =>
    obtain ⟨-, rfl⟩ := perform_candidateDelete h
    exact .inl (Table.mem_remove.mp hx).1
  | applicationCreate d =>
    simp only [perform] at h
    split at h
    · split at h
      · split at h
        · split at h
          · rename_i hins
            cases h
            rw [Db.insertApplication_interviews hins] at hx
            exact .inl hx
          · cases h
        · cases h
      · cases h
    · cases h
  | applicationUpdate key d =>
    obtain ⟨-, -, -, -, rfl⟩ := perform_applicationUpdate h
    exact .inl hx
  | applicationDelete key =>
    obtain ⟨-, rfl⟩ := perform_applicationDelete h
    exact .inl (Table.mem_remove.mp hx).1
  | _ => exact absurd trivial hread

end Frame

end PrismaCall

end TalentFlow
