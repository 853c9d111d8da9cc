import TalentFlow.Gateway.Schema
import TalentFlow.Data.Grouping
import TalentFlow.Data.InsertionMap
import TalentFlow.Data.Paging
import TalentFlow.Data.Zone

/-!
# Gateway.Analytics

What `AnalyticsService` reports about one snapshot of the store. The order in which the database
gives groups, and jobs with the same number of applications, is an argument. A date is the number
of its day, for which `toISOString().split('T')[0]` has one text.
-/

namespace TalentFlow

open Data Grouping InsertionMap Paging

structure OverviewDto where
  totalJobs : Nat
  openJobs : Nat
  totalCandidates : Nat
  totalApplications : Nat
  hiredCount : Nat
  hireRate : Float

structure PipelineStageDto where
  stage : ApplicationStage
  count : Nat

structure TrendPointDto where
  date : ℤ
  applications : Nat
  deriving DecidableEq

structure TopJobDto where
  id : String
  title : String
  department : Option String
  status : JobStatus
  applicationCount : Nat

/-- `where: { deletedAt: null }` -/
def Db.liveApplications (db : Db) : List Application :=
  db.applications.rows.filter fun a => decide (a.deletedAt = none)

def Db.liveJobs (db : Db) : List Job := db.jobs.rows.filter fun j => decide (j.deletedAt = none)

/-- `_count: { select: { applications: true } }` -/
structure RelationCount where
  applications : Nat
  deriving DecidableEq

/-- All applications to the job, withdrawn or not. -/
def Db.countOfJob (db : Db) (id : String) : RelationCount where
  applications := (db.applications.rows.filter fun a => decide (a.jobId = id)).length

/-- All applications of the candidate, withdrawn or not. -/
def Db.countOfCandidate (db : Db) (id : String) : RelationCount where
  applications := (db.applications.rows.filter fun a => decide (a.candidateId = id)).length

/-- `where: { appliedAt: { gte: startDate }, deletedAt: null }` -/
def Db.appliedSince (db : Db) (startDate : ℤ) : List Application :=
  db.liveApplications.filter fun a => decide (startDate ≤ (a.appliedAt : ℤ))

namespace AnalyticsService

def getOverview (db : Db) : OverviewDto :=
  let totalApplications := db.liveApplications.length
  let hiredCount := (db.liveApplications.filter fun a => decide (a.stage = .hired)).length
  { totalJobs := db.liveJobs.length
    openJobs := (db.liveJobs.filter fun j => decide (j.status = .open)).length
    totalCandidates := db.candidates.rows.length
    totalApplications
    hiredCount
    hireRate :=
      if 0 < totalApplications then
        ((Float.ofNat hiredCount / Float.ofNat totalApplications) * 1000).round / 10
      else 0 }

def allStages : List ApplicationStage :=
  [.applied, .screening, .interview, .offer, .hired, .rejected]

/-- `stages` is what `groupBy` answers for the live applications. -/
def getPipeline (stages : List (Grouping.Group ApplicationStage)) : List PipelineStageDto :=
  allStages.map fun stage => { stage, count := lookup stages stage }

/-- Local midnight, so many days ago. -/
def trendsStart (zone : Zone) (now : ℤ) (days : Nat) : ℤ :=
  let startDate := zone.setDate now (zone.getDate now - days)
  zone.setMidnight startDate

/-- `orderBy: { appliedAt: 'asc' }` -/
def appliedEarlier (a b : Application) : Bool := decide (a.appliedAt ≤ b.appliedAt)

/-- The dates that are there without applications. -/
def trendsDates (zone : Zone) (startDate : ℤ) (days : Nat) : List ℤ :=
  (List.range (days + 1)).map fun (i : Nat) =>
    let date := zone.setDate startDate (zone.getDate startDate + i)
    utcDay date

/-- `applications` are those since the start in the order in which the database gives them. -/
def getTrends (zone : Zone) (now : ℤ) (days : Nat) (applications : List Application) :
    List TrendPointDto :=
  let startDate := trendsStart zone now days
  let dateMap := upsertAll (fun _ => 0) (trendsDates zone startDate days) []
  let dateMap := tally (applications.map fun app => utcDay app.appliedAt) dateMap
  dateMap.map fun entry => { date := entry.1, applications := entry.2 }

/-- `orderBy: { applications: { _count: 'desc' } }` -/
def moreApplications (db : Db) (a b : Job) : Bool :=
  decide ((db.countOfJob b.id).applications ≤ (db.countOfJob a.id).applications)

/-- `jobs` are the live jobs in the order in which the database gives them. -/
def getTopJobs (db : Db) (limit : Nat) (jobs : List Job) : List TopJobDto :=
  (jobs.take limit).map fun job =>
    { id := job.id, title := job.title, department := job.department, status := job.status
      applicationCount := (db.countOfJob job.id).applications }

end AnalyticsService

end TalentFlow
