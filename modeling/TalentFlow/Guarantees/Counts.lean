import TalentFlow.Gateway.Analytics
import TalentFlow.Guarantees.Disclosure
import TalentFlow.Guarantees.Paging
import TalentFlow.Guarantees.Withdrawal

/-!
# Guarantees.Counts

The numbers of applications that the views report. `getOverview`, `getPipeline` and
`CandidatesService.findOne` leave withdrawn applications out; the relation counts behind
`getTopJobs` and `CandidatesService.findAll` do not.

* `pipeline_agrees`: the pipeline splits what the overview counts.
* `countsAgree_iff`: all views agree exactly while no application is withdrawn.
* `counts_agree_run`: they agree as long as nothing is withdrawn.
-/

namespace TalentFlow

open Data Paging Grouping Async AnalyticsService

/-! ## The views -/

def Db.liveOfJob (db : Db) (id : String) : ℕ :=
  (db.liveApplications.filter fun a => decide (a.jobId = id)).length

def Db.liveOfCandidate (db : Db) (id : String) : ℕ :=
  (db.liveApplications.filter fun a => decide (a.candidateId = id)).length

def Db.AllLive (db : Db) : Prop := ∀ a ∈ db.applications.rows, a.deletedAt = none

/-- The pipeline adds up to the total, and has one entry for `HIRED`, with the overview's number. -/
def PipelineAgrees (db : Db) : Prop :=
  ∀ stages, IsGrouping Application.stage db.liveApplications stages →
    ((getPipeline stages).map PipelineStageDto.count).sum = (getOverview db).totalApplications ∧
    ((getPipeline stages).filter fun entry => decide (entry.stage = .hired)).map
      PipelineStageDto.count = [(getOverview db).hiredCount]

/-- The top jobs are reported with their live applications, in the order of these numbers. -/
def TopJobsAgree (db : Db) : Prop :=
  ∀ limit jobs, IsSorting (moreApplications db) db.liveJobs jobs →
    (∀ job ∈ getTopJobs db limit jobs, job.applicationCount = db.liveOfJob job.id) ∧
    (getTopJobs db limit jobs).Pairwise fun job next => db.liveOfJob next.id ≤ db.liveOfJob job.id

/-- A page of candidates reports of each of them as many applications as `findOne` lists. -/
def CandidatesAgree (w : World) : Prop :=
  ∀ c query page answer shown,
    IsSorting ((CandidatesService.listing c w.db query).mayPrecede c)
      (CandidatesService.listing c w.db query).rows answer →
    (CandidatesService.listing c w.db query).findAll page answer = .ok shown →
    ∀ item ∈ shown.data, ∀ i user detail w',
      Finishes (alone i) (CandidatesController.findOne user item.id) w (.ok detail) w' →
        item._count.applications = detail.applications.length

structure CountsAgree (w : World) : Prop where
  pipeline : PipelineAgrees w.db
  topJobs : TopJobsAgree w.db
  candidates : CandidatesAgree w

section Views

variable {db : Db} {w : World}

/-- Pipeline and overview count the live applications, in any store. -/
theorem pipeline_agrees (db : Db) : PipelineAgrees db := by
  intro stages hstages
  have hcounts : (getPipeline stages).map PipelineStageDto.count =
      allStages.map (countOf Application.stage db.liveApplications) := by
    rw [getPipeline, List.map_map]
    exact List.map_congr_left fun stage _ => lookup_of_isGrouping hstages stage
  constructor
  · rw [hcounts]
    refine sum_counts (by decide) fun a _ => ?_
    cases a.stage <;> decide
  · change [lookup stages .hired] = _
    rw [lookup_of_isGrouping hstages]
    rfl

theorem liveApplications_of_allLive (h : db.AllLive) : db.liveApplications = db.applications.rows :=
  List.filter_eq_self.mpr fun a ha => decide_eq_true (h a ha)

theorem topJobs_agree (h : db.AllLive) : TopJobsAgree db := by
  have hcount : ∀ id, (db.countOfJob id).applications = db.liveOfJob id := by
    intro id
    rw [Db.countOfJob, Db.liveOfJob, liveApplications_of_allLive h]
  intro limit jobs hjobs
  constructor
  · intro job hjob
    obtain ⟨j, -, rfl⟩ := List.mem_map.mp hjob
    exact hcount j.id
  · refine List.pairwise_map.mpr ((hjobs.2.sublist (List.take_sublist limit jobs)).imp ?_)
    intro a b hab
    rw [← hcount, ← hcount]
    exact of_decide_eq_true hab

theorem matching_candidate (db : Db) (id : String) :
    (db.matching { candidateId := some id }).length = db.liveOfCandidate id := by
  unfold Db.matching Db.liveOfCandidate Db.liveApplications
  rw [List.filter_filter]
  congr 2
  funext a
  simp [Db.selects, Bool.and_comm]

theorem length_detail {i : ℕ} {user : UserPayload} {id : String} {w' : World}
    {detail : CandidateWithApplications}
    (h : Finishes (alone i) (CandidatesController.findOne user id) w (.ok detail) w') :
    detail.applications.length = w.db.liveOfCandidate id := by
  obtain ⟨-, candidate, -, rows, hrows, rfl⟩ := finishes_candidate.mp h
  rw [← matching_candidate, ← hrows.1.length_eq]
  refine List.filterMap_length_eq_length.mpr fun a ha => ?_
  obtain ⟨y, hy, -⟩ := withJob_of_mem (List.mem_of_mem_filter (hrows.1.mem_iff.mp ha))
  rw [hy]
  rfl

theorem count_of_item {c : Collation} {query : QueryCandidatesDto} {page : ℕ}
    {answer : List Candidate} {shown : PaginatedResult CandidateListed}
    (hshown : (CandidatesService.listing c w.db query).findAll page answer = .ok shown) :
    ∀ item ∈ shown.data, item._count = w.db.countOfCandidate item.id := by
  intro item hitem
  unfold Listing.findAll at hshown
  split at hshown
  · cases hshown
    obtain ⟨x, -, hx⟩ := List.mem_filterMap.mp hitem
    cases hx
    rfl
  · cases hshown

theorem exists_candidatePage {x : Candidate} (hx : x ∈ w.db.candidates.rows) :
    ∃ query page answer shown,
      IsSorting ((CandidatesService.listing byCodePoint w.db query).mayPrecede byCodePoint)
        (CandidatesService.listing byCodePoint w.db query).rows answer ∧
      (CandidatesService.listing byCodePoint w.db query).findAll page answer = .ok shown ∧
      ∃ item ∈ shown.data, item.id = x.id := by
  let l := CandidatesService.listing byCodePoint w.db { limit := some 1 }
  have hrow : x ∈ l.rows := List.mem_filter.mpr ⟨hx, rfl⟩
  obtain ⟨answer, hanswer⟩ := exists_isSorting
    (Listing.mayPrecede_trans (c := byCodePoint) (l := l)) Listing.mayPrecede_total l.rows
  obtain ⟨n, hn⟩ := List.mem_iff_getElem?.mp (hanswer.1.mem_iff.mpr hrow)
  have hpage : x ∈ page l.limit answer n := by
    refine mem_page (i := 0) Nat.one_pos ?_
    change answer[n * 1 + 0]? = some x
    rwa [Nat.mul_one, Nat.add_zero]
  exact ⟨_, n + 1, answer, _, hanswer, Listing.findAll_succ rfl n answer,
    _, List.mem_filterMap.mpr ⟨x, hpage, rfl⟩, rfl⟩

theorem count_eq_live_iff {id : String} :
    (db.countOfCandidate id).applications = db.liveOfCandidate id ↔
      ∀ a ∈ db.applications.rows, a.candidateId = id → a.deletedAt = none := by
  have hlive : db.liveOfCandidate id = ((db.applications.rows.filter fun a =>
      decide (a.candidateId = id)).filter fun a => decide (a.deletedAt = none)).length := by
    rw [Db.liveOfCandidate, Db.liveApplications, List.filter_filter, List.filter_filter]
    congr 2
    funext a
    exact Bool.and_comm _ _
  rw [hlive, Db.countOfCandidate, eq_comm, List.length_filter_eq_length_iff]
  simp only [List.mem_filter, decide_eq_true_eq, and_imp]

/-- The candidate views agree exactly while no application is withdrawn. -/
theorem candidatesAgree_iff : CandidatesAgree w ↔ w.db.AllLive := by
  constructor
  · intro h a ha
    obtain ⟨x, hx, hid⟩ := w.db.applications_candidate_id_fkey a ha
    obtain ⟨query, page, answer, shown, hanswer, hshown, item, hitem, hitemId⟩ :=
      exists_candidatePage hx
    obtain ⟨rows, hrows⟩ :=
      exists_isOrdering w.db { candidateId := some item.id } PrismaCall.latestFirst
    have hfind : w.db.candidates.find? item.id = some x :=
      Table.find?_eq_some.mpr ⟨hx, hitemId.symm⟩
    have hdetail : Finishes (alone 0) (CandidatesController.findOne iansPayload item.id) w
        (.ok { x with applications := rows.filterMap w.db.withJob }) w :=
      finishes_candidate.mpr ⟨rfl, x, hfind, rows, hrows, rfl⟩
    have hcount := h byCodePoint query page answer shown hanswer hshown item hitem 0 iansPayload _ w
      hdetail
    rw [count_of_item hshown item hitem, length_detail hdetail] at hcount
    exact count_eq_live_iff.mp hcount a ha (hid.symm.trans hitemId.symm)
  · intro h c query page answer shown _ hshown item hitem i user detail w' hdetail
    rw [count_of_item hshown item hitem, length_detail hdetail]
    exact count_eq_live_iff.mpr fun a ha _ => h a ha

theorem countsAgree_iff : CountsAgree w ↔ w.db.AllLive :=
  ⟨fun h => candidatesAgree_iff.mp h.candidates,
    fun h => ⟨pipeline_agrees w.db, topJobs_agree h, candidatesAgree_iff.mpr h⟩⟩

end Views

/-! ## Runs -/

def Call.isWithdrawal : Call → Bool
  | .prisma (.applicationUpdate _ data) =>
    match data.deletedAt with
    | .value _ => true
    | _ => false
  | _ => false

/-- The step is not the write of a withdrawal. -/
def WithdrawsNothing (cfg : Config Api ℕ World Response) : Label ℕ Choice Move → Prop
  | .run i ch => ch.fails = false → ∀ c ∈ (cfg.pool i).next?, c.isWithdrawal = false
  | .move _ => True

instance (cfg : Config Api ℕ World Response) :
    ∀ l : Label ℕ Choice Move, Decidable (WithdrawsNothing cfg l)
  | .run i ch => inferInstanceAs (Decidable (ch.fails = false → ∀ c ∈ (cfg.pool i).next?,
      c.isWithdrawal = false))
  | .move _ => .isTrue trivial

section Run

variable {requests : ℕ → Request} {cfg cfg' : Config Api ℕ World Response}
  {l : Label ℕ Choice Move} {ls : List (Label ℕ Choice Move)}

theorem allLive_exec {i : ℕ} {c : Call} {ch : Choice} {w w' : World} {r : Api.Answer c}
    (h : w.db.AllLive) (hc : ch.fails = false → c.isWithdrawal = false)
    (hx : gateway.exec i c ch w = some (r, w')) : w'.db.AllLive := by
  intro a ha
  cases c with
  | prisma c =>
    obtain ⟨e, -, rfl⟩ | ⟨v, db, hok, -, hperf, -, rfl⟩ := prisma_cases hx
    · exact h a ha
    obtain ha | ⟨d, rfl, rfl⟩ | ⟨d, a₀, rfl, ha₀, rfl⟩ := PrismaCall.mem_applications hperf ha
    · exact h a ha
    · rfl
    · have hkept := hc hok
      simp only [ApplicationUpdate.apply, h a₀ ha₀]
      refine Field.orKeep_eq_none fun t ht => ?_
      simp [Call.isWithdrawal, ht] at hkept
  | _ =>
    rw [(exec_frame hx).db (by simp)] at ha
    exact h a ha

theorem allLive_step (h : cfg.world.db.AllLive) (hl : WithdrawsNothing cfg l)
    (hs : gateway.step l cfg = some cfg') : cfg'.world.db.AllLive := by
  obtain ⟨i, ch, c, k, r, w, rfl, hp, hx, rfl⟩ | ⟨mv, w, rfl, hm, rfl⟩ := Machine.step_cases hs
  · exact allLive_exec h (fun hok => hl hok c (by rw [hp]; rfl)) hx
  · exact (db_of_move hm).symm ▸ h

/-- The views agree exactly in the states in which no application is withdrawn, and so throughout
every run in which nothing gets withdrawn. -/
theorem counts_agree_run (w : World) :
    (CountsAgree w ↔ w.db.AllLive) ∧
    ∀ (requests : ℕ → Request) (ls : List (Label ℕ Choice Move))
      (cfg : Config Api ℕ World Response), w.db.AllLive →
      gateway.run ls (.start w (Request.pool requests)) = some cfg →
      gateway.Along WithdrawsNothing ls (.start w (Request.pool requests)) →
      CountsAgree cfg.world := by
  refine ⟨countsAgree_iff, fun requests ls cfg hw hrun hkept => countsAgree_iff.mpr ?_⟩
  exact Machine.run_induction_along (fun cfg => cfg.world.db.AllLive) allLive_step hw hkept hrun

end Run

/-! ## A withdrawal -/

theorem seeded_allLive : seeded.db.AllLive := by
  intro a ha
  rw [List.mem_singleton.mp ha]
  rfl

def moveOn : ℕ → Request := fun _ =>
  .updateApplication "a-cleo" "u-ray" "RECRUITER" { stage := .value .screening }

theorem counts_agree_review :
    ∃ cfg, gateway.run (List.replicate 6 (.run 0 {})) (.start seeded (Request.pool moveOn)) =
      some cfg ∧ CountsAgree cfg.world := by
  have hrun : (gateway.run (List.replicate 6 (.run 0 {}))
      (.start seeded (Request.pool moveOn))).isSome = true := by decide +kernel
  obtain ⟨cfg, hcfg⟩ := Option.isSome_iff_exists.mp hrun
  exact ⟨cfg, hcfg, (counts_agree_run seeded).2 moveOn _ cfg seeded_allLive hcfg (by decide +kernel)⟩

/-- Ada withdraws Cleo's application. The overview does not count it any more, the top jobs still
do. -/
theorem counts_disagree_removal :
    ∃ cfg, gateway.run removal (.start seeded (Request.pool reviewAndRemove)) = some cfg ∧
      (getOverview cfg.world.db).totalApplications = 0 ∧
      IsSorting (moreApplications cfg.world.db) cfg.world.db.liveJobs [backend, frontend] ∧
      ((getTopJobs cfg.world.db 1 [backend, frontend]).map fun job =>
        (job.id, job.applicationCount, cfg.world.db.liveOfJob job.id)) = [("j-backend", 1, 0)] ∧
      ¬ CountsAgree cfg.world := by
  have h : (gateway.run removal (.start seeded (Request.pool reviewAndRemove))).map (fun cfg =>
      ((getOverview cfg.world.db).totalApplications,
        decide (IsSorting (moreApplications cfg.world.db) cfg.world.db.liveJobs
          [backend, frontend]),
        (getTopJobs cfg.world.db 1 [backend, frontend]).map fun job =>
          (job.id, job.applicationCount, cfg.world.db.liveOfJob job.id))) =
      some (0, true, [("j-backend", 1, 0)]) := by decide +kernel
  obtain ⟨cfg, hcfg, hcounts⟩ := Option.map_eq_some_iff.mp h
  obtain ⟨htotal, hjobs, htop⟩ := by simpa only [Prod.mk.injEq, decide_eq_true_eq] using hcounts
  refine ⟨cfg, hcfg, htotal, hjobs, htop, fun hagree => ?_⟩
  obtain ⟨job, hjob, heq⟩ := List.mem_map.mp (htop ▸ List.mem_singleton.mpr rfl :
    ("j-backend", 1, 0) ∈ (getTopJobs cfg.world.db 1 [backend, frontend]).map fun job =>
      (job.id, job.applicationCount, cfg.world.db.liveOfJob job.id))
  simp only [Prod.mk.injEq] at heq
  have hcount := (hagree.topJobs 1 _ hjobs).1 job hjob
  rw [heq.2.1, heq.2.2] at hcount
  cases hcount

end TalentFlow
