import Mathlib.Data.Rat.Defs
import TalentFlow.Data.Json
import TalentFlow.Data.Table

/-!
# Gateway.Schema

The relational data of the API gateway: the enums and models of `prisma/schema.prisma`, and the
database with its constraints. Primary keys and unique columns are constraints of the tables,
foreign keys are fields of `Db`, so every `Db` satisfies the schema.

Instants are milliseconds. Timestamps are the values of `Date.now()`.
-/

namespace TalentFlow

open Data

abbrev Time := Nat

inductive Role where
  | admin | recruiter | interviewer
  deriving DecidableEq

def Role.toString : Role → String
  | .admin => "ADMIN"
  | .recruiter => "RECRUITER"
  | .interviewer => "INTERVIEWER"

inductive EmploymentType where
  | fullTime | partTime | contract | internship
  deriving DecidableEq

inductive JobStatus where
  | draft | «open» | closed | archived
  deriving DecidableEq

inductive ApplicationStage where
  | applied | screening | interview | offer | hired | rejected
  deriving DecidableEq

inductive ApplicationStatus where
  | submitted | reviewing | shortlisted | interviewScheduled | interviewed | offered | accepted
  | rejected | withdrawn
  deriving DecidableEq

inductive InterviewType where
  | phone | video | inPerson | panel | technical
  deriving DecidableEq

inductive InterviewStatus where
  | scheduled | confirmed | inProgress | completed | cancelled | noShow
  deriving DecidableEq

structure User where
  id : String
  email : String
  password : String
  role : Role := .recruiter
  fullName : String
  createdAt : Time
  updatedAt : Time
  deletedAt : Option Time := none
  deriving DecidableEq

abbrev JsonValue := Json String ℚ

/-- A text of a column or of a JSON value cannot hold U+0000. -/
def isText (s : String) : Bool := !s.toList.contains (Char.ofNat 0)

def storable (s : Option String) : Bool := s.all isText

theorem isText_append (s t : String) : isText (s ++ t) = (isText s && isText t) := by
  simp [isText, String.toList_append, List.contains_eq_mem]

/-- The largest value of an `Int` column. -/
def INT4_MAX : Nat := 2147483647

def fitsInt (n : Int) : Bool := decide (-(INT4_MAX : Int) - 1 ≤ n ∧ n ≤ INT4_MAX)

structure Job where
  id : String
  title : String
  description : Option String := none
  requirements : Option JsonValue := none
  department : Option String := none
  location : Option String := none
  employmentType : EmploymentType := .fullTime
  salaryMin : Option Int := none
  salaryMax : Option Int := none
  status : JobStatus := .draft
  createdById : String
  createdAt : Time
  updatedAt : Time
  deletedAt : Option Time := none
  deriving DecidableEq

structure Candidate where
  id : String
  email : String
  fullName : String
  phone : Option String := none
  linkedinUrl : Option String := none
  resumeUrl : Option String := none
  resumeText : Option String := none
  createdAt : Time
  updatedAt : Time
  deriving DecidableEq

structure Application where
  id : String
  jobId : String
  candidateId : String
  stage : ApplicationStage := .applied
  status : ApplicationStatus := .submitted
  cvFileKey : Option String := none
  cvFileUrl : Option String := none
  coverLetter : Option String := none
  notes : Option String := none
  appliedAt : Time
  reviewedAt : Option Time := none
  createdAt : Time
  updatedAt : Time
  deletedAt : Option Time := none
  deriving DecidableEq

structure Interview where
  id : String
  applicationId : String
  scheduledAt : Time
  /-- in minutes -/
  duration : Nat := 60
  type : InterviewType := .video
  location : Option String := none
  notes : Option String := none
  status : InterviewStatus := .scheduled
  interviewerId : Option String := none
  createdAt : Time
  updatedAt : Time
  deriving DecidableEq

/-- The text columns that are filled in when the row is created. -/
def User.isStorable (u : User) : Bool := isText u.email && isText u.password && isText u.fullName

/-- `@@unique([jobId, candidateId])` -/
def Application.pair (a : Application) : String × String := (a.jobId, a.candidateId)

abbrev UserTable := Table User String String User.id User.email
abbrev JobTable := Table Job String String Job.id Job.id
abbrev CandidateTable := Table Candidate String String Candidate.id Candidate.email
abbrev ApplicationTable := Table Application String (String × String) Application.id Application.pair
abbrev InterviewTable := Table Interview String String Interview.id Interview.id

structure Db where
  users : UserTable
  jobs : JobTable
  candidates : CandidateTable
  applications : ApplicationTable
  interviews : InterviewTable
  /-- of all texts, the only ones that are copied into other rows -/
  users_text : ∀ u ∈ users.rows, u.isStorable = true
  jobs_created_by_id_fkey : ∀ j ∈ jobs.rows, users.HasKey j.createdById
  applications_job_id_fkey : ∀ a ∈ applications.rows, jobs.HasKey a.jobId
  applications_candidate_id_fkey : ∀ a ∈ applications.rows, candidates.HasKey a.candidateId
  interviews_application_id_fkey : ∀ x ∈ interviews.rows, applications.HasKey x.applicationId
  interviews_interviewer_id_fkey :
    ∀ x ∈ interviews.rows, ∀ id ∈ x.interviewerId, users.HasKey id

def Db.empty : Db where
  users := .empty
  jobs := .empty
  candidates := .empty
  applications := .empty
  interviews := .empty
  users_text := by simp [Table.empty]
  jobs_created_by_id_fkey := by simp [Table.empty]
  applications_job_id_fkey := by simp [Table.empty]
  applications_candidate_id_fkey := by simp [Table.empty]
  interviews_application_id_fkey := by simp [Table.empty]
  interviews_interviewer_id_fkey := by simp [Table.empty]

/-! ## Writes -/

namespace Db

def insertUser (db : Db) (u : User) (htext : u.isStorable = true) : Option Db :=
  match h : db.users.insert? u with
  | none => none
  | some users => some { db with
      users := users
      users_text := fun x hx => by
        obtain hx | rfl := (Table.mem_insert h).mp hx
        · exact db.users_text x hx
        · exact htext
      jobs_created_by_id_fkey := fun j hj =>
        Table.hasKey_insert h (db.jobs_created_by_id_fkey j hj)
      interviews_interviewer_id_fkey := fun x hx id hid =>
        Table.hasKey_insert h (db.interviews_interviewer_id_fkey x hx id hid) }

def modifyUser (db : Db) (id : String) (f : User → User) (hid : ∀ u, (f u).id = u.id)
    (hemail : ∀ u, (f u).email = u.email)
    (htext : ∀ u, u.isStorable = true → (f u).isStorable = true) : Db where
  users := db.users.modify id f hid hemail
  jobs := db.jobs
  candidates := db.candidates
  applications := db.applications
  interviews := db.interviews
  users_text := fun u hu => by
    obtain ⟨hu, -⟩ | ⟨u', hu', -, rfl⟩ := Table.mem_modify.mp hu
    · exact db.users_text u hu
    · exact htext u' (db.users_text u' hu')
  jobs_created_by_id_fkey := fun j hj =>
    Table.hasKey_modify.mpr (db.jobs_created_by_id_fkey j hj)
  applications_job_id_fkey := db.applications_job_id_fkey
  applications_candidate_id_fkey := db.applications_candidate_id_fkey
  interviews_application_id_fkey := db.interviews_application_id_fkey
  interviews_interviewer_id_fkey := fun x hx id' hid' =>
    Table.hasKey_modify.mpr (db.interviews_interviewer_id_fkey x hx id' hid')

def modifyJob (db : Db) (id : String) (f : Job → Job) (hid : ∀ j, (f j).id = j.id)
    (hby : ∀ j, (f j).createdById = j.createdById) : Db where
  users := db.users
  jobs := db.jobs.modify id f hid hid
  candidates := db.candidates
  applications := db.applications
  interviews := db.interviews
  users_text := db.users_text
  jobs_created_by_id_fkey := fun j hj => by
    obtain ⟨hj, -⟩ | ⟨j', hj', -, rfl⟩ := Table.mem_modify.mp hj
    · exact db.jobs_created_by_id_fkey j hj
    · rw [hby]
      exact db.jobs_created_by_id_fkey j' hj'
  applications_job_id_fkey := fun a ha =>
    Table.hasKey_modify.mpr (db.applications_job_id_fkey a ha)
  applications_candidate_id_fkey := db.applications_candidate_id_fkey
  interviews_application_id_fkey := db.interviews_application_id_fkey
  interviews_interviewer_id_fkey := db.interviews_interviewer_id_fkey

def insertCandidate (db : Db) (c : Candidate) : Option Db :=
  match h : db.candidates.insert? c with
  | none => none
  | some candidates => some { db with
      candidates := candidates
      applications_candidate_id_fkey := fun a ha =>
        Table.hasKey_insert h (db.applications_candidate_id_fkey a ha) }

def modifyCandidate (db : Db) (id : String) (f : Candidate → Candidate)
    (hid : ∀ c, (f c).id = c.id) (hemail : ∀ c, (f c).email = c.email) : Db where
  users := db.users
  jobs := db.jobs
  candidates := db.candidates.modify id f hid hemail
  applications := db.applications
  interviews := db.interviews
  users_text := db.users_text
  jobs_created_by_id_fkey := db.jobs_created_by_id_fkey
  applications_job_id_fkey := db.applications_job_id_fkey
  applications_candidate_id_fkey := fun a ha =>
    Table.hasKey_modify.mpr (db.applications_candidate_id_fkey a ha)
  interviews_application_id_fkey := db.interviews_application_id_fkey
  interviews_interviewer_id_fkey := db.interviews_interviewer_id_fkey

/-- The application of the interview is removed. -/
def loses (db : Db) (p : Application → Bool) (x : Interview) : Bool :=
  (db.applications.find? x.applicationId).any p

theorem hasKey_of_not_loses {db : Db} {p : Application → Bool} :
    ∀ x ∈ (db.interviews.remove (db.loses p)).rows,
      (db.applications.remove p).HasKey x.applicationId := by
  intro x hx
  obtain ⟨hx, hkept⟩ := Table.mem_remove.mp hx
  obtain ⟨a, ha, hk⟩ := db.interviews_application_id_fkey x hx
  have hfind : db.applications.find? x.applicationId = some a := Table.find?_eq_some.mpr ⟨ha, hk⟩
  rw [loses, hfind, Option.any_some] at hkept
  exact ⟨a, Table.mem_remove.mpr ⟨ha, hkept⟩, hk⟩

/-- Deletes a candidate and, by `ON DELETE CASCADE`, its applications and their interviews. -/
def deleteCandidate (db : Db) (id : String) : Db where
  users := db.users
  jobs := db.jobs
  candidates := db.candidates.remove fun c => decide (c.id = id)
  applications := db.applications.remove fun a => decide (a.candidateId = id)
  interviews := db.interviews.remove (db.loses fun a => decide (a.candidateId = id))
  users_text := db.users_text
  jobs_created_by_id_fkey := db.jobs_created_by_id_fkey
  applications_job_id_fkey := fun a ha =>
    db.applications_job_id_fkey a (Table.mem_remove.mp ha).1
  applications_candidate_id_fkey := fun a ha => by
    obtain ⟨ha, hne⟩ := Table.mem_remove.mp ha
    obtain ⟨c, hc, hk⟩ := db.applications_candidate_id_fkey a ha
    refine ⟨c, Table.mem_remove.mpr ⟨hc, ?_⟩, hk⟩
    simpa [hk] using hne
  interviews_application_id_fkey := hasKey_of_not_loses
  interviews_interviewer_id_fkey := fun x hx =>
    db.interviews_interviewer_id_fkey x (Table.mem_remove.mp hx).1

def insertApplication (db : Db) (a : Application) (hjob : db.jobs.HasKey a.jobId)
    (hcand : db.candidates.HasKey a.candidateId) : Option Db :=
  match h : db.applications.insert? a with
  | none => none
  | some applications => some { db with
      applications := applications
      applications_job_id_fkey := fun x hx => by
        obtain hx | rfl := (Table.mem_insert h).mp hx
        · exact db.applications_job_id_fkey x hx
        · exact hjob
      applications_candidate_id_fkey := fun x hx => by
        obtain hx | rfl := (Table.mem_insert h).mp hx
        · exact db.applications_candidate_id_fkey x hx
        · exact hcand
      interviews_application_id_fkey := fun x hx =>
        Table.hasKey_insert h (db.interviews_application_id_fkey x hx) }

def modifyApplication (db : Db) (id : String) (f : Application → Application)
    (hid : ∀ a, (f a).id = a.id) (hpair : ∀ a, (f a).pair = a.pair) : Db where
  users := db.users
  jobs := db.jobs
  candidates := db.candidates
  applications := db.applications.modify id f hid hpair
  interviews := db.interviews
  users_text := db.users_text
  jobs_created_by_id_fkey := db.jobs_created_by_id_fkey
  applications_job_id_fkey := fun a ha => by
    obtain ⟨ha, -⟩ | ⟨a', ha', -, rfl⟩ := Table.mem_modify.mp ha
    · exact db.applications_job_id_fkey a ha
    · rw [show (f a').jobId = a'.jobId from congrArg Prod.fst (hpair a')]
      exact db.applications_job_id_fkey a' ha'
  applications_candidate_id_fkey := fun a ha => by
    obtain ⟨ha, -⟩ | ⟨a', ha', -, rfl⟩ := Table.mem_modify.mp ha
    · exact db.applications_candidate_id_fkey a ha
    · rw [show (f a').candidateId = a'.candidateId from congrArg Prod.snd (hpair a')]
      exact db.applications_candidate_id_fkey a' ha'
  interviews_application_id_fkey := fun x hx =>
    Table.hasKey_modify.mpr (db.interviews_application_id_fkey x hx)
  interviews_interviewer_id_fkey := db.interviews_interviewer_id_fkey

def deleteApplication (db : Db) (id : String) : Db where
  users := db.users
  jobs := db.jobs
  candidates := db.candidates
  applications := db.applications.remove fun a => decide (a.id = id)
  interviews := db.interviews.remove (db.loses fun a => decide (a.id = id))
  users_text := db.users_text
  jobs_created_by_id_fkey := db.jobs_created_by_id_fkey
  applications_job_id_fkey := fun a ha =>
    db.applications_job_id_fkey a (Table.mem_remove.mp ha).1
  applications_candidate_id_fkey := fun a ha =>
    db.applications_candidate_id_fkey a (Table.mem_remove.mp ha).1
  interviews_application_id_fkey := hasKey_of_not_loses
  interviews_interviewer_id_fkey := fun x hx =>
    db.interviews_interviewer_id_fkey x (Table.mem_remove.mp hx).1

def insertInterview (db : Db) (x : Interview) (happlication : db.applications.HasKey x.applicationId)
    (hinterviewer : ∀ id ∈ x.interviewerId, db.users.HasKey id) : Option Db :=
  match h : db.interviews.insert? x with
  | none => none
  | some interviews => some { db with
      interviews := interviews
      interviews_application_id_fkey := fun y hy => by
        obtain hy | rfl := (Table.mem_insert h).mp hy
        · exact db.interviews_application_id_fkey y hy
        · exact happlication
      interviews_interviewer_id_fkey := fun y hy => by
        obtain hy | rfl := (Table.mem_insert h).mp hy
        · exact db.interviews_interviewer_id_fkey y hy
        · exact hinterviewer }

def modifyInterview (db : Db) (id : String) (f : Interview → Interview) (hid : ∀ x, (f x).id = x.id)
    (happlication : ∀ x, (f x).applicationId = x.applicationId)
    (hinterviewer : ∀ x ∈ db.interviews.rows, x.id = id →
      ∀ u ∈ (f x).interviewerId, db.users.HasKey u) : Db where
  users := db.users
  jobs := db.jobs
  candidates := db.candidates
  applications := db.applications
  interviews := db.interviews.modify id f hid hid
  users_text := db.users_text
  jobs_created_by_id_fkey := db.jobs_created_by_id_fkey
  applications_job_id_fkey := db.applications_job_id_fkey
  applications_candidate_id_fkey := db.applications_candidate_id_fkey
  interviews_application_id_fkey := fun x hx => by
    obtain ⟨hx, -⟩ | ⟨x', hx', -, rfl⟩ := Table.mem_modify.mp hx
    · exact db.interviews_application_id_fkey x hx
    · rw [happlication]
      exact db.interviews_application_id_fkey x' hx'
  interviews_interviewer_id_fkey := fun x hx => by
    obtain ⟨hx, -⟩ | ⟨x', hx', hk, rfl⟩ := Table.mem_modify.mp hx
    · exact db.interviews_interviewer_id_fkey x hx
    · exact hinterviewer x' hx' hk

section Modify

variable {db : Db} {id : String}

theorem mem_modifyUser {f : User → User} {hid : ∀ u, (f u).id = u.id}
    {hemail : ∀ u, (f u).email = u.email}
    {htext : ∀ u, u.isStorable = true → (f u).isStorable = true} {x : User} :
    x ∈ (db.modifyUser id f hid hemail htext).users.rows ↔
      (x ∈ db.users.rows ∧ x.id ≠ id) ∨ ∃ u ∈ db.users.rows, u.id = id ∧ x = f u :=
  @Table.mem_modify _ _ _ _ _ _ _ _ _ hid hemail _

theorem mem_modifyCandidate {f : Candidate → Candidate} {hid : ∀ c, (f c).id = c.id}
    {hemail : ∀ c, (f c).email = c.email} {x : Candidate} :
    x ∈ (db.modifyCandidate id f hid hemail).candidates.rows ↔
      (x ∈ db.candidates.rows ∧ x.id ≠ id) ∨ ∃ c ∈ db.candidates.rows, c.id = id ∧ x = f c :=
  @Table.mem_modify _ _ _ _ _ _ _ _ _ hid hemail _

theorem mem_modifyApplication {f : Application → Application} {hid : ∀ a, (f a).id = a.id}
    {hpair : ∀ a, (f a).pair = a.pair} {x : Application} :
    x ∈ (db.modifyApplication id f hid hpair).applications.rows ↔
      (x ∈ db.applications.rows ∧ x.id ≠ id) ∨ ∃ a ∈ db.applications.rows, a.id = id ∧ x = f a :=
  @Table.mem_modify _ _ _ _ _ _ _ _ _ hid hpair _

theorem mem_modifyJob {f : Job → Job} {hid : ∀ j, (f j).id = j.id}
    {hby : ∀ j, (f j).createdById = j.createdById} {x : Job} :
    x ∈ (db.modifyJob id f hid hby).jobs.rows ↔
      (x ∈ db.jobs.rows ∧ x.id ≠ id) ∨ ∃ j ∈ db.jobs.rows, j.id = id ∧ x = f j :=
  @Table.mem_modify _ _ _ _ _ _ _ _ _ hid hid _

theorem mem_modifyInterview {f : Interview → Interview} {hid : ∀ x, (f x).id = x.id}
    {happlication : ∀ x, (f x).applicationId = x.applicationId}
    {hinterviewer : ∀ x ∈ db.interviews.rows, x.id = id →
      ∀ u ∈ (f x).interviewerId, db.users.HasKey u} {y : Interview} :
    y ∈ (db.modifyInterview id f hid happlication hinterviewer).interviews.rows ↔
      (y ∈ db.interviews.rows ∧ y.id ≠ id) ∨ ∃ x ∈ db.interviews.rows, x.id = id ∧ y = f x :=
  @Table.mem_modify _ _ _ _ _ _ _ _ _ hid hid _

theorem find?_modifyJob_self {f : Job → Job} {hid : ∀ j, (f j).id = j.id}
    {hby : ∀ j, (f j).createdById = j.createdById} :
    (db.modifyJob id f hid hby).jobs.find? id = (db.jobs.find? id).map f :=
  @Table.find?_modify_self _ _ _ _ _ _ _ _ _ hid hid

theorem find?_modifyJob_ne {f : Job → Job} {hid : ∀ j, (f j).id = j.id}
    {hby : ∀ j, (f j).createdById = j.createdById} {id' : String} (hne : id' ≠ id) :
    (db.modifyJob id f hid hby).jobs.find? id' = db.jobs.find? id' :=
  @Table.find?_modify_ne _ _ _ _ _ _ _ _ _ hid hid _ hne

end Modify

theorem insertUser_eq_some {db db' : Db} {u : User} {htext : u.isStorable = true}
    (h : db.insertUser u htext = some db') :
    db.users.insert? u = some db'.users ∧ db'.jobs = db.jobs ∧ db'.candidates = db.candidates ∧
      db'.applications = db.applications := by
  unfold insertUser at h
  split at h
  · cases h
  · rename_i users hu
    cases h
    exact ⟨hu, rfl, rfl, rfl⟩

theorem insertCandidate_eq_some {db db' : Db} {c : Candidate}
    (h : db.insertCandidate c = some db') :
    db.candidates.insert? c = some db'.candidates ∧ db'.users = db.users ∧ db'.jobs = db.jobs ∧
      db'.applications = db.applications := by
  unfold insertCandidate at h
  split at h
  · cases h
  · rename_i candidates hc
    cases h
    exact ⟨hc, rfl, rfl, rfl⟩

theorem insertCandidate_eq_none {db : Db} {c : Candidate} :
    db.insertCandidate c = none ↔ db.candidates.insert? c = none := by
  unfold insertCandidate
  split
  · rename_i h
    simp [h]
  · rename_i h
    simp [h]

theorem insertApplication_eq_some {db db' : Db} {a : Application} {hjob : db.jobs.HasKey a.jobId}
    {hcand : db.candidates.HasKey a.candidateId}
    (h : db.insertApplication a hjob hcand = some db') :
    db.applications.insert? a = some db'.applications ∧ db'.users = db.users ∧
      db'.jobs = db.jobs ∧ db'.candidates = db.candidates := by
  unfold insertApplication at h
  split at h
  · cases h
  · rename_i applications ha
    cases h
    exact ⟨ha, rfl, rfl, rfl⟩

theorem insertInterview_eq_some {db db' : Db} {x : Interview}
    {happlication : db.applications.HasKey x.applicationId}
    {hinterviewer : ∀ id ∈ x.interviewerId, db.users.HasKey id}
    (h : db.insertInterview x happlication hinterviewer = some db') :
    db.interviews.insert? x = some db'.interviews ∧ db'.users = db.users ∧ db'.jobs = db.jobs ∧
      db'.candidates = db.candidates ∧ db'.applications = db.applications := by
  unfold insertInterview at h
  split at h
  · cases h
  · rename_i interviews hx
    cases h
    exact ⟨hx, rfl, rfl, rfl, rfl⟩

theorem insertUser_interviews {db db' : Db} {u : User} {htext : u.isStorable = true}
    (h : db.insertUser u htext = some db') : db'.interviews = db.interviews := by
  unfold insertUser at h
  split at h
  · cases h
  · cases h
    rfl

theorem insertCandidate_interviews {db db' : Db} {c : Candidate}
    (h : db.insertCandidate c = some db') : db'.interviews = db.interviews := by
  unfold insertCandidate at h
  split at h
  · cases h
  · cases h
    rfl

theorem insertApplication_interviews {db db' : Db} {a : Application}
    {hjob : db.jobs.HasKey a.jobId} {hcand : db.candidates.HasKey a.candidateId}
    (h : db.insertApplication a hjob hcand = some db') : db'.interviews = db.interviews := by
  unfold insertApplication at h
  split at h
  · cases h
  · cases h
    rfl

theorem insertApplication_eq_none {db : Db} {a : Application} {hjob : db.jobs.HasKey a.jobId}
    {hcand : db.candidates.HasKey a.candidateId} :
    db.insertApplication a hjob hcand = none ↔ db.applications.insert? a = none := by
  unfold insertApplication
  split
  · rename_i h
    simp [h]
  · rename_i h
    simp [h]

end Db

end TalentFlow
