import TalentFlow.Guarantees.Listing

/-!
# Guarantees.Viewing

What a requester can view but does not find in their list. `findOne` accepts any of three relations
to an application, whatever the role; the where-clause of `findAll` is that of the one relation that
belongs to the role. A recruiter who has applied to somebody else's job can view that application,
and it is on no page of their list.

* `finishes_findOne_ok`: what `findOne` gives.
* `list_complete_iff`: when everything that can be viewed is in the list.
* `list_incomplete`: a recruiter who has applied to a job.
-/

namespace TalentFlow

open Data Async

/-- The query gives none of the four filters. -/
structure QueryApplicationsDto.Unfiltered (query : QueryApplicationsDto) : Prop where
  jobId : query.jobId = none
  candidateId : query.candidateId = none
  stage : query.stage = none
  status : query.status = none

/-- Whatever `findOne` gives the requester, the where-clause of their list selects, and some page of
the list shows it. -/
def ListComplete (w : World) (userId userRole : String) : Prop :=
  ∀ id i x w₁, Finishes (alone i) (ApplicationsService.findOne id userId userRole) w (.ok x) w₁ →
    (∀ query : QueryApplicationsDto, query.Unfiltered →
      w₁.db.selects (w₁.db.listWhere userId userRole query) x.toApplication = true) ∧
    ∃ query : QueryApplicationsDto, query.Unfiltered ∧ ∀ j, ∃ page,
      Finishes (alone j) (ApplicationsService.findAll userId userRole query) w₁ (.ok page) w₁ ∧
        x ∈ page.data

def Db.OwnsJobOf (db : Db) (userId : String) (a : Application) : Prop :=
  ∃ job ∈ db.jobs.rows, job.id = a.jobId ∧ job.createdById = userId

def Db.IsApplicantOf (db : Db) (userId : String) (a : Application) : Prop :=
  ∃ candidate, db.candidateOf userId = some candidate ∧ a.candidateId = candidate.id

/-- The user stands in no other relation to a live application than the one their list is made of. -/
def OneRelation (db : Db) (userId userRole : String) : Prop :=
  if userRole = "ADMIN" then True
  else if userRole = "RECRUITER" then
    ∀ a ∈ db.applications.rows, a.deletedAt = none → db.IsApplicantOf userId a →
      db.OwnsJobOf userId a
  else
    db.candidateOf userId = none ∨
      ∀ a ∈ db.applications.rows, a.deletedAt = none → db.OwnsJobOf userId a →
        db.IsApplicantOf userId a

section Views

variable {db : Db} {userId userRole : String} {a : Application} {x : ApplicationWithRelations}

theorem isApplicant_iff (ha : a ∈ db.applications.rows) (hx : db.withRelations a = some x) :
    ApplicationsService.isApplicant x (db.candidateOf userId) = true ↔
      db.IsApplicantOf userId a := by
  obtain ⟨y, hy, heq, -⟩ := withRelations_of_mem ha
  rw [hx] at hy
  cases hy
  simp [ApplicationsService.isApplicant, Db.IsApplicantOf, Option.any_eq_true, heq]

theorem isRecruiter_iff (ha : a ∈ db.applications.rows) (hx : db.withRelations a = some x) :
    ApplicationsService.isRecruiter x userId = true ↔ db.OwnsJobOf userId a := by
  constructor
  · intro h
    obtain ⟨y, hy, -, hfind⟩ := withRelations_of_mem ha
    rw [hx] at hy
    cases hy
    obtain ⟨hjob, hid⟩ := Table.find?_eq_some.mp hfind
    exact ⟨x.job, hjob, hid, of_decide_eq_true h⟩
  · exact isRecruiter_of_job ha hx

theorem mayView_iff (ha : a ∈ db.applications.rows) (hx : db.withRelations a = some x) :
    MayView db userId userRole x ↔
      db.IsApplicantOf userId a ∨ db.OwnsJobOf userId a ∨ userRole = "ADMIN" := by
  have hadmin : ApplicationsService.isAdmin userRole = true ↔ userRole = "ADMIN" := by
    simp [ApplicationsService.isAdmin]
  rw [MayView, isApplicant_iff ha hx, isRecruiter_iff ha hx, hadmin]

/-- What the where-clause of an unfiltered list asks of a live application. -/
theorem selects_unfiltered {query : QueryApplicationsDto} (hq : query.Unfiltered)
    (hlive : a.deletedAt = none) :
    db.selects (db.listWhere userId userRole query) a = true ↔
      if userRole = "ADMIN" then True
      else if userRole = "RECRUITER" then db.OwnsJobOf userId a
      else db.candidateOf userId = none ∨ db.IsApplicantOf userId a := by
  have htruthy : truthy none = none := rfl
  simp only [Db.selects, Db.listWhere, hq.jobId, hq.candidateId, hq.stage, hq.status, htruthy,
    Db.roleWhere, Option.all_none, Bool.and_true, hlive, decide_true, Bool.true_and]
  by_cases hadmin : userRole = "ADMIN"
  · have hrecruiter : userRole ≠ "RECRUITER" := by
      rw [hadmin]
      decide
    simp [hadmin]
  by_cases hrecruiter : userRole = "RECRUITER"
  · simp [hrecruiter, Db.OwnsJobOf, List.any_eq_true]
  · cases hc : db.candidateOf userId with
    | none => simp [hadmin, hrecruiter]
    | some candidate => simp [hadmin, hrecruiter, hc, Db.IsApplicantOf]

theorem finishes_findOne_ok {i : ℕ} {w w' : World} {id : String} :
    Finishes (alone i) (ApplicationsService.findOne id userId userRole) w (.ok x) w' ↔
      w' = w ∧ MayView w.db userId userRole x ∧ ∃ a ∈ w.db.applications.rows, a.id = id ∧
        a.deletedAt = none ∧ w.db.withRelations a = some x := by
  have hmissing : ∀ found : Option ApplicationWithRelations,
      (w.db.applications.find? id).bind w.db.withRelations = found →
      (found.filter fun application => application.deletedAt.isNone) = none →
      ¬ Finishes (alone i) (ApplicationsService.findOne id userId userRole) w (.ok x) w' := by
    intro found hfound hnone h
    unfold ApplicationsService.findOne at h
    rw [finishes_bind_ok (finishes_applicationFindUnique id), hfound] at h
    simp only [hnone] at h
    cases h.1
  constructor
  · intro h
    cases hfind : w.db.applications.find? id with
    | none => exact absurd h (hmissing none (by rw [hfind]; rfl) rfl)
    | some a =>
      obtain ⟨ha, rfl⟩ := Table.find?_eq_some.mp hfind
      obtain ⟨y, hy, heq, -⟩ := withRelations_of_mem ha
      by_cases hlive : a.deletedAt = none
      · obtain ⟨rfl, (⟨hview, hok⟩ | ⟨-, herr⟩)⟩ := (finishes_findOne ha hlive hy _).mp h
        · cases hok
          exact ⟨rfl, hview, a, ha, rfl, hlive, hy⟩
        · cases herr
      · refine absurd h (hmissing (some y) (by rw [hfind]; exact hy) ?_)
        have hgone : y.deletedAt ≠ none := by rwa [heq]
        simp [Option.filter, hgone]
  · rintro ⟨rfl, hview, a, ha, rfl, hlive, hx⟩
    exact (finishes_findOne ha hlive hx _).mpr ⟨rfl, .inl ⟨hview, rfl⟩⟩

end Views

theorem empty_unfiltered : ({} : QueryApplicationsDto).Unfiltered := ⟨rfl, rfl, rfl, rfl⟩

theorem nth_unfiltered (n : ℕ) : (nth n).Unfiltered := ⟨rfl, rfl, rfl, rfl⟩

theorem exists_listed {w : World} {userId userRole : String} {a : Application}
    {x : ApplicationWithRelations} (ha : a ∈ w.db.applications.rows)
    (hx : w.db.withRelations a = some x)
    (hselects : w.db.selects (w.db.listWhere userId userRole {}) a = true) :
    ∃ query : QueryApplicationsDto, query.Unfiltered ∧ ∀ j, ∃ page,
      Finishes (alone j) (ApplicationsService.findAll userId userRole query) w (.ok page) w ∧
        x ∈ page.data := by
  have hmatch : a ∈ w.db.matching (w.db.listWhere userId userRole {}) :=
    List.mem_filter.mpr ⟨ha, hselects⟩
  obtain ⟨n, rows, hrows, hdata⟩ := exists_page hmatch hx
  refine ⟨nth n, nth_unfiltered n, fun j => ⟨_, ?_, hdata ▸ List.mem_singleton.mpr rfl⟩⟩
  exact finishes_findAll.mpr ⟨rfl, nth_isValid n, rows, hrows, rfl⟩

/-- In other words: the where-clause of an unfiltered list selects what may be viewed. -/
theorem oneRelation_iff {db : Db} {userId userRole : String} {query : QueryApplicationsDto}
    (hq : query.Unfiltered) : OneRelation db userId userRole ↔
      ∀ a ∈ db.applications.rows, a.deletedAt = none →
        db.IsApplicantOf userId a ∨ db.OwnsJobOf userId a ∨ userRole = "ADMIN" →
          db.selects (db.listWhere userId userRole query) a = true := by
  unfold OneRelation
  by_cases hadmin : userRole = "ADMIN"
  · rw [if_pos hadmin]
    refine ⟨fun _ a _ hlive _ => ?_, fun _ => trivial⟩
    rw [selects_unfiltered hq hlive, if_pos hadmin]
    trivial
  by_cases hrecruiter : userRole = "RECRUITER"
  · rw [if_neg hadmin, if_pos hrecruiter]
    constructor
    · intro h a ha hlive hview
      rw [selects_unfiltered hq hlive, if_neg hadmin, if_pos hrecruiter]
      rcases hview with happlicant | howns | hadmin'
      · exact h a ha hlive happlicant
      · exact howns
      · exact absurd hadmin' hadmin
    · intro h a ha hlive happlicant
      have hselects := h a ha hlive (.inl happlicant)
      rwa [selects_unfiltered hq hlive, if_neg hadmin, if_pos hrecruiter] at hselects
  · rw [if_neg hadmin, if_neg hrecruiter]
    constructor
    · intro h a ha hlive hview
      rw [selects_unfiltered hq hlive, if_neg hadmin, if_neg hrecruiter]
      rcases hview with happlicant | howns | hadmin'
      · exact .inr happlicant
      · exact h.imp_right fun hforall => hforall a ha hlive howns
      · exact absurd hadmin' hadmin
    · intro h
      by_contra hnot
      obtain ⟨hcandidate, hforall⟩ := not_or.mp hnot
      refine hforall fun a ha hlive howns => ?_
      have hselects := h a ha hlive (.inr (.inl howns))
      rw [selects_unfiltered hq hlive, if_neg hadmin, if_neg hrecruiter] at hselects
      exact hselects.resolve_left hcandidate

/-- Everything that can be viewed is in the list, exactly if the user stands in no other relation
to the applications than the one the list is made of. -/
theorem list_complete_iff (w : World) (userId userRole : String) :
    ListComplete w userId userRole ↔ OneRelation w.db userId userRole := by
  constructor
  · intro h
    rw [oneRelation_iff empty_unfiltered]
    intro a ha hlive hview
    obtain ⟨x, hx, heq, -⟩ := withRelations_of_mem ha
    have hfound : Finishes (alone 0) (ApplicationsService.findOne a.id userId userRole) w
        (.ok x) w :=
      finishes_findOne_ok.mpr ⟨rfl, (mayView_iff ha hx).mpr hview, a, ha, rfl, hlive, hx⟩
    have hmatch := (h a.id 0 x w hfound).1 {} empty_unfiltered
    rwa [heq] at hmatch
  · intro h id i x w₁ hfound
    obtain ⟨rfl, hview, a, ha, -, hlive, hx⟩ := finishes_findOne_ok.mp hfound
    obtain ⟨y, hy, heq, -⟩ := withRelations_of_mem ha
    rw [hx] at hy
    cases hy
    rw [mayView_iff ha hx] at hview
    have hselects : ∀ query : QueryApplicationsDto, query.Unfiltered →
        w₁.db.selects (w₁.db.listWhere userId userRole query) a = true :=
      fun query hq => (oneRelation_iff hq).mp h a ha hlive hview
    exact ⟨fun query hq => heq ▸ hselects query hq,
      exists_listed ha hx (hselects {} empty_unfiltered)⟩

/-! ## A recruiter who applies -/

/-- Cleo, whose application to a job of Ray's is there, has an account with the default role. -/
def cleosAccount : User where
  id := "u-cleo"
  email := "cleo@example.com"
  password := "hash:Cleo-2024!"
  role := .recruiter
  fullName := "Cleo"
  createdAt := 0
  updatedAt := 0

def withCleo : World :=
  { seeded with
    db := { seeded.db with
      users := ⟨[ada, ray, ian, cleosAccount], by decide, by decide⟩
      users_text := by decide +kernel
      jobs_created_by_id_fkey := by decide
      interviews_interviewer_id_fkey := fun _ hx => absurd hx List.not_mem_nil }
    drawn := seeded.drawn ++ [(0, "u-cleo")] }

/-- `findOne` gives Cleo her application, which the where-clause of her list does not select. -/
theorem list_incomplete :
    (∃ x, Finishes (alone 0) (ApplicationsService.findOne "a-cleo" "u-cleo" "RECRUITER") withCleo
        (.ok x) withCleo ∧
      withCleo.db.selects (withCleo.db.listWhere "u-cleo" "RECRUITER" {}) x.toApplication = false) ∧
    ¬ ListComplete withCleo "u-cleo" "RECRUITER" := by
  have hstored : cleosApplication ∈ withCleo.db.applications.rows := List.mem_singleton.mpr rfl
  have hx : withCleo.db.withRelations cleosApplication = some cleosDetail := rfl
  have hview : MayView withCleo.db "u-cleo" "RECRUITER" cleosDetail := .inl (by decide)
  have hfound : Finishes (alone 0) (ApplicationsService.findOne "a-cleo" "u-cleo" "RECRUITER")
      withCleo (.ok cleosDetail) withCleo :=
    finishes_findOne_ok.mpr ⟨rfl, hview, cleosApplication, hstored, rfl, rfl, hx⟩
  have hunselected : withCleo.db.selects (withCleo.db.listWhere "u-cleo" "RECRUITER" {})
      cleosDetail.toApplication = false := by decide
  refine ⟨⟨cleosDetail, hfound, hunselected⟩, fun h => ?_⟩
  have hselected := (h _ _ _ _ hfound).1 {} empty_unfiltered
  rw [hunselected] at hselected
  cases hselected

end TalentFlow
