import TalentFlow.Guarantees.Viewing

/-!
# Guarantees.Disclosure

The applications that reach a user through other resources. A candidate comes with the full rows of
all their live applications, an interview with the application it belongs to.
`ApplicationsService.findOne` decides for each application who may view it; the services for
candidates and interviews are not told who asks, and the guard before them lets in all three roles.

* `finishes_candidate`, `finishes_interview`, `finishes_interviews`: what is read.
* `one_rule_iff`: when nobody is shown more than they may view.
* `one_rule_ian`: an interviewer who is shown an application that they may not view.
-/

namespace TalentFlow

open Data Async

section Operations

variable {i : ℕ} {w w' : World} {user : UserPayload}

/-- The guard before the three handlers lets everybody in. -/
theorem staff_enters (user : UserPayload) :
    RolesGuard.canActivate [.recruiter, .admin, .interviewer] user = pure () := by
  unfold RolesGuard.canActivate
  cases user.role <;> rfl

theorem finishes_candidate {id : String} {shown : CandidateWithApplications} :
    Finishes (alone i) (CandidatesController.findOne user id) w (.ok shown) w' ↔ w' = w ∧
      ∃ candidate, w.db.candidates.find? id = some candidate ∧
        ∃ rows, IsOrdering w.db { candidateId := some id } PrismaCall.latestFirst rows ∧
          shown = { candidate with applications := rows.filterMap w.db.withJob } := by
  unfold CandidatesController.findOne CandidatesService.findOne
  rw [staff_enters, pure_bind, finishes_bind]
  constructor
  · rintro (⟨found, w₁, hfound, hrest⟩ | ⟨e, -, h⟩)
    · obtain ⟨rfl, ch, hallow, hok⟩ :=
        (finishes_read (c := .candidateFindUniqueWithApplications id) trivial).mp hfound
      have hrows := hallow.2.1 ({ candidateId := some id }, PrismaCall.latestFirst) rfl
      obtain rfl := Except.ok.inj hok
      cases hfind : w₁.db.candidates.find? id with
      | none =>
        rw [hfind] at hrest
        cases hrest.1
      | some candidate =>
        rw [hfind] at hrest
        obtain ⟨hshown, rfl⟩ := hrest
        exact ⟨rfl, candidate, rfl, ch.rows.applications, hrows, Except.ok.inj hshown⟩
    · cases h
  · rintro ⟨rfl, candidate, hfind, rows, hrows, rfl⟩
    let choice : Choice := { rows := { applications := rows } }
    have hallow : w'.Allows choice (.candidateFindUniqueWithApplications id) := by
      refine ⟨fun h => absurd h Bool.false_ne_true, ?_, ?_⟩
      · rintro q ⟨⟩
        exact hrows
      · rintro q ⟨⟩
    have hperform : ((PrismaCall.candidateFindUniqueWithApplications id).perform w'.now choice.uuid
        choice.rows w'.db).1 =
          .ok (some { candidate with applications := rows.filterMap w'.db.withJob }) := by
      simp only [PrismaCall.perform, hfind, Option.map_some, choice]
    refine .inl ⟨some _, w', (finishes_read (c :=
      .candidateFindUniqueWithApplications id) trivial).mpr ⟨rfl, choice, hallow, ?_⟩, rfl, rfl⟩
    rw [hperform]
    rfl

theorem finishes_interview {id : String} {shown : InterviewDetail} :
    Finishes (alone i) (InterviewsController.findOne user id) w (.ok shown) w' ↔ w' = w ∧
      ∃ x ∈ w.db.interviews.rows, x.id = id ∧ w.db.interviewDetail x = some shown := by
  unfold InterviewsController.findOne InterviewsService.findOne
  rw [staff_enters, pure_bind, finishes_bind_ok (finishes_interviewFindUnique id)]
  cases hfind : w.db.interviews.find? id with
  | none =>
    constructor
    · rintro ⟨h, -⟩
      cases h
    · rintro ⟨-, x, hx, hid, -⟩
      rw [Table.find?_eq_some.mpr ⟨hx, hid⟩] at hfind
      cases hfind
  | some x =>
    obtain ⟨hx, hid⟩ := Table.find?_eq_some.mp hfind
    obtain ⟨detail, hdetail, -⟩ := interviewDetail_of_mem hx
    rw [Option.bind_some, hdetail]
    constructor
    · rintro ⟨h, rfl⟩
      cases h
      exact ⟨rfl, x, hx, hid, hdetail⟩
    · rintro ⟨rfl, y, hy, hyid, hshown⟩
      obtain rfl : x = y := Option.some.inj (hfind.symm.trans (Table.find?_eq_some.mpr ⟨hy, hyid⟩))
      obtain rfl : detail = shown := Option.some.inj (hdetail.symm.trans hshown)
      exact ⟨rfl, rfl⟩

theorem finishes_interviewFindMany {wh : InterviewWhere} {p : PageRequest}
    {data : List InterviewListed} :
    Finishes (alone i) (prisma (.interviewFindMany wh p)) w (.ok data) w' ↔
      w' = w ∧ p.isValidForInterviews = true ∧ ∃ rows, IsInterviewOrdering w.db wh p rows ∧
        data = ((rows.drop p.skip).take p.take).filterMap w.db.listedInterview := by
  rw [finishes_read (c := .interviewFindMany wh p) trivial]
  constructor
  · rintro ⟨rfl, ch, hallow, hok⟩
    simp only [PrismaCall.perform] at hok
    split at hok
    · rename_i hvalid
      obtain rfl := Except.ok.inj hok
      have hrows := hallow.2.2 (wh, p) (by simp [PrismaCall.sortedInterviews, hvalid])
      exact ⟨rfl, hvalid, ch.rows.interviews, hrows, rfl⟩
    · cases hok
  · rintro ⟨rfl, hvalid, rows, hrows, rfl⟩
    refine ⟨rfl, { rows := { interviews := rows } },
      ⟨fun h => absurd h Bool.false_ne_true, fun q hq => ?_, fun q hq => ?_⟩, ?_⟩
    · cases hq
    · simp only [PrismaCall.sortedInterviews, hvalid, if_true, Option.mem_def,
        Option.some.injEq] at hq
      subst hq
      exact hrows
    · simp only [PrismaCall.perform, hvalid, if_true]
      rfl

theorem finishes_findInterviews {query : QueryInterviewsDto} {page : InterviewPage} :
    Finishes (alone i) (InterviewsService.findAll query) w (.ok page) w' ↔
      w' = w ∧ query.pageRequest.isValidForInterviews = true ∧ ∃ rows,
        IsInterviewOrdering w.db (InterviewsService.listWhere query) query.pageRequest rows ∧
        page =
          { data := ((rows.drop query.pageRequest.skip).take query.pageRequest.take).filterMap
              w.db.listedInterview
            pagination :=
              { total := (w.db.matchingInterviews (InterviewsService.listWhere query)).length
                page := query.page.getD 1
                limit := query.limit.getD 10
                totalPages := ((w.db.matchingInterviews
                  (InterviewsService.listWhere query)).length + query.limit.getD 10 - 1) /
                    query.limit.getD 10 } } := by
  change Finishes (alone i) (prisma (.interviewFindMany (InterviewsService.listWhere query)
    query.pageRequest) >>= _) w (.ok page) w' ↔ _
  rw [finishes_bind]
  constructor
  · rintro (⟨data, w₁, hdata, hrest⟩ | ⟨e, -, h⟩)
    · obtain ⟨rfl, hvalid, rows, hrows, rfl⟩ := finishes_interviewFindMany.mp hdata
      rw [finishes_bind_ok (finishes_interviewCount _)] at hrest
      obtain ⟨hpage, rfl⟩ := hrest
      exact ⟨rfl, hvalid, rows, hrows, Except.ok.inj hpage⟩
    · cases h
  · rintro ⟨rfl, hvalid, rows, hrows, rfl⟩
    exact .inl ⟨_, w', finishes_interviewFindMany.mpr ⟨rfl, hvalid, rows, hrows, rfl⟩,
      (finishes_bind_ok (finishes_interviewCount _)).mpr ⟨rfl, rfl⟩⟩

theorem finishes_interviews {query : QueryInterviewsDto} {page : InterviewPage}
    (h : Finishes (alone i) (InterviewsController.findAll user query) w (.ok page) w') :
    w' = w ∧ ∀ shown ∈ page.data, ∃ x ∈ w.db.interviews.rows,
      w.db.listedInterview x = some shown := by
  unfold InterviewsController.findAll at h
  rw [staff_enters, pure_bind] at h
  obtain ⟨rfl, -, rows, hrows, rfl⟩ := finishes_findInterviews.mp h
  refine ⟨rfl, fun shown hshown => ?_⟩
  obtain ⟨x, hx, hlisted⟩ := List.mem_filterMap.mp hshown
  have hmatch := hrows.1.mem_iff.mp (List.mem_of_mem_drop (List.mem_of_mem_take hx))
  exact ⟨x, (List.mem_filter.mp hmatch).1, hlisted⟩

end Operations

/-! ## Who is shown what -/

/-- The row of the application comes with a candidate that the user reads. -/
def ShownWithCandidate (w : World) (user : UserPayload) (a : Application) : Prop :=
  ∃ i id shown w', Finishes (alone i) (CandidatesController.findOne user id) w (.ok shown) w' ∧
    ∃ y ∈ shown.applications, y.toApplication = a

/-- The application comes with an interview that the user reads, by itself or in a list. -/
def ShownWithInterview (w : World) (user : UserPayload) (a : Application) : Prop :=
  (∃ i id shown w', Finishes (alone i) (InterviewsController.findOne user id) w (.ok shown) w' ∧
    shown.application.id = a.id) ∨
  ∃ i query page w', Finishes (alone i) (InterviewsController.findAll user query) w (.ok page) w' ∧
    ∃ shown ∈ page.data, shown.application.id = a.id

/-- `ApplicationsService.findOne` does not answer the user that this is forbidden. -/
def ViewAllowed (w : World) (user : UserPayload) (a : Application) : Prop :=
  ∀ i o w',
    Finishes (alone i) (ApplicationsService.findOne a.id user.id user.role.toString) w o w' →
      ∀ message, o ≠ .error (.forbidden message)

/-- Whatever of an application reaches the user, they may view it. -/
def OneAccessRule (w : World) (user : UserPayload) : Prop :=
  ∀ a ∈ w.db.applications.rows, a.deletedAt = none →
    ShownWithCandidate w user a ∨ ShownWithInterview w user a → ViewAllowed w user a

section Views

variable {w : World} {user : UserPayload} {a : Application}

theorem withJob_of_mem {db : Db} (ha : a ∈ db.applications.rows) :
    ∃ y, db.withJob a = some y ∧ y.toApplication = a := by
  obtain ⟨job, hjob, hid⟩ := db.applications_job_id_fkey a ha
  have hfind : db.jobs.find? a.jobId = some job := Table.find?_eq_some.mpr ⟨hjob, hid⟩
  unfold Db.withJob
  rw [hfind]
  exact ⟨_, rfl, rfl⟩

theorem mem_matching_candidate {db : Db} {id : String} :
    a ∈ db.matching { candidateId := some id } ↔
      a ∈ db.applications.rows ∧ a.deletedAt = none ∧ a.candidateId = id := by
  simp [Db.matching, Db.selects]

theorem shownWithCandidate_iff :
    ShownWithCandidate w user a ↔ a ∈ w.db.applications.rows ∧ a.deletedAt = none := by
  constructor
  · rintro ⟨i, id, shown, w', h, y, hy, rfl⟩
    obtain ⟨-, candidate, -, rows, hrows, rfl⟩ := finishes_candidate.mp h
    obtain ⟨b, hb, hby⟩ := List.mem_filterMap.mp hy
    obtain ⟨hstored, hlive, -⟩ := mem_matching_candidate.mp (hrows.1.mem_iff.mp hb)
    obtain ⟨z, hz, hzb⟩ := withJob_of_mem hstored
    obtain rfl : y = z := Option.some.inj (hby.symm.trans hz)
    rw [hzb]
    exact ⟨hstored, hlive⟩
  · rintro ⟨ha, hlive⟩
    obtain ⟨candidate, hcandidate, hid⟩ := w.db.applications_candidate_id_fkey a ha
    have hfind : w.db.candidates.find? a.candidateId = some candidate :=
      Table.find?_eq_some.mpr ⟨hcandidate, hid⟩
    obtain ⟨rows, hrows⟩ :=
      exists_isOrdering w.db { candidateId := some a.candidateId } PrismaCall.latestFirst
    obtain ⟨y, hy, hya⟩ := withJob_of_mem ha
    have hmem : a ∈ rows := hrows.1.mem_iff.mpr (mem_matching_candidate.mpr ⟨ha, hlive, rfl⟩)
    exact ⟨0, a.candidateId, _, w,
      finishes_candidate.mpr ⟨rfl, candidate, hfind, rows, hrows, rfl⟩, y,
      List.mem_filterMap.mpr ⟨a, hmem, hy⟩, hya⟩

theorem shownWithInterview_iff :
    ShownWithInterview w user a ↔ ∃ x ∈ w.db.interviews.rows, x.applicationId = a.id := by
  constructor
  · rintro (⟨i, id, shown, w', h, hid⟩ | ⟨i, query, page, w', h, shown, hshown, hid⟩)
    · obtain ⟨-, x, hx, -, hdetail⟩ := finishes_interview.mp h
      obtain ⟨y, hy, hyid⟩ := interviewDetail_of_mem hx
      obtain rfl : shown = y := Option.some.inj (hdetail.symm.trans hy)
      exact ⟨x, hx, hyid.symm.trans hid⟩
    · obtain ⟨x, hx, hlisted⟩ := (finishes_interviews h).2 shown hshown
      obtain ⟨y, hy, -, hyid⟩ := listedInterview_of_mem hx
      obtain rfl : shown = y := Option.some.inj (hlisted.symm.trans hy)
      exact ⟨x, hx, hyid.symm.trans hid⟩
  · rintro ⟨x, hx, hid⟩
    obtain ⟨shown, hshown, hsid⟩ := interviewDetail_of_mem hx
    exact .inl ⟨0, x.id, shown, w, finishes_interview.mpr ⟨rfl, x, hx, rfl, hshown⟩,
      hsid.trans hid⟩

theorem viewAllowed_iff (ha : a ∈ w.db.applications.rows) (hlive : a.deletedAt = none) :
    ViewAllowed w user a ↔
      user.role = .admin ∨ w.db.IsApplicantOf user.id a ∨ w.db.OwnsJobOf user.id a := by
  obtain ⟨x, hx, -, -⟩ := withRelations_of_mem ha
  have hadmin : user.role.toString = "ADMIN" ↔ user.role = .admin := by
    cases user.role <;> decide
  have hview : MayView w.db user.id user.role.toString x ↔
      user.role = .admin ∨ w.db.IsApplicantOf user.id a ∨ w.db.OwnsJobOf user.id a := by
    rw [mayView_iff ha hx, hadmin]
    tauto
  rw [← hview]
  constructor
  · intro h
    by_contra hnot
    exact h 0 _ w ((finishes_findOne ha hlive hx _).mpr ⟨rfl, .inr ⟨hnot, rfl⟩⟩) _ rfl
  · intro hmay i o w' h message
    obtain ⟨-, (⟨-, rfl⟩ | ⟨hnot, -⟩)⟩ := (finishes_findOne ha hlive hx o).mp h
    · exact fun h => nomatch h
    · exact absurd hmay hnot

/-- The live applications that a view `Q` shows may all be viewed. -/
theorem rule_iff {Q : Application → Prop} :
    (∀ a ∈ w.db.applications.rows, a.deletedAt = none → Q a → ViewAllowed w user a) ↔
      user.role = .admin ∨ ∀ a ∈ w.db.applications.rows, a.deletedAt = none → Q a →
        w.db.IsApplicantOf user.id a ∨ w.db.OwnsJobOf user.id a := by
  constructor
  · intro h
    by_cases hadmin : user.role = .admin
    · exact .inl hadmin
    · exact .inr fun a ha hlive hq =>
        ((viewAllowed_iff ha hlive).mp (h a ha hlive hq)).resolve_left hadmin
  · intro h a ha hlive hq
    exact (viewAllowed_iff ha hlive).mpr (h.imp_right fun hall => hall a ha hlive hq)

end Views

/-- Interviews show no more than may be viewed, exactly if the user is an admin or has to do with
every live application that somebody is interviewed for. -/
theorem interview_rule_iff (w : World) (user : UserPayload) :
    (∀ a ∈ w.db.applications.rows, a.deletedAt = none → ShownWithInterview w user a →
        ViewAllowed w user a) ↔
      user.role = .admin ∨ ∀ a ∈ w.db.applications.rows, a.deletedAt = none →
        (∃ x ∈ w.db.interviews.rows, x.applicationId = a.id) →
          w.db.IsApplicantOf user.id a ∨ w.db.OwnsJobOf user.id a := by
  simp only [shownWithInterview_iff]
  exact rule_iff

/-- Nothing reaches the user that they may not view, exactly if they are an admin or every live
application of the store is one of theirs or to one of their jobs. -/
theorem one_rule_iff (w : World) (user : UserPayload) :
    OneAccessRule w user ↔
      user.role = .admin ∨ ∀ a ∈ w.db.applications.rows, a.deletedAt = none →
        w.db.IsApplicantOf user.id a ∨ w.db.OwnsJobOf user.id a := by
  unfold OneAccessRule
  rw [rule_iff]
  have hshown : ∀ a ∈ w.db.applications.rows, a.deletedAt = none →
      ShownWithCandidate w user a ∨ ShownWithInterview w user a :=
    fun a ha hlive => .inl (shownWithCandidate_iff.mpr ⟨ha, hlive⟩)
  constructor
  · exact fun h => h.imp_right fun hall a ha hlive => hall a ha hlive (hshown a ha hlive)
  · exact fun h => h.imp_right fun hall a ha hlive _ => hall a ha hlive

/-! ## An interviewer -/

def iansPayload : UserPayload where
  id := "u-ian"
  email := ian.email
  role := .interviewer
  fullName := ian.fullName

/-- Ian reads Cleo and gets her application; to view it is forbidden to him. -/
theorem one_rule_ian :
    (∃ shown, Finishes (alone 0) (CandidatesController.findOne iansPayload "c-cleo") seeded
        (.ok shown) seeded ∧ (∃ y ∈ shown.applications, y.toApplication = cleosApplication) ∧
      Finishes (alone 1) (ApplicationsService.findOne "a-cleo" "u-ian" "INTERVIEWER") seeded
        (.error (.forbidden "You do not have permission to view this application")) seeded) ∧
    ¬ OneAccessRule seeded iansPayload := by
  have hstored : cleosApplication ∈ seeded.db.applications.rows := List.mem_singleton.mpr rfl
  have hforbidden : Finishes (alone 1)
      (ApplicationsService.findOne "a-cleo" "u-ian" "INTERVIEWER") seeded _ seeded :=
    (finishes_ian _).mpr ⟨rfl, rfl⟩
  have hrows : IsOrdering seeded.db { candidateId := some "c-cleo" } PrismaCall.latestFirst
      [cleosApplication] := by decide +kernel
  have hread : Finishes (alone 0) (CandidatesController.findOne iansPayload "c-cleo") seeded _
      seeded := finishes_candidate.mpr ⟨rfl, cleo, rfl, _, hrows, rfl⟩
  refine ⟨⟨_, hread, ⟨_, List.mem_singleton.mpr rfl, rfl⟩, hforbidden⟩, fun h => ?_⟩
  have hallowed := h _ hstored rfl (.inl (shownWithCandidate_iff.mpr ⟨hstored, rfl⟩))
  exact hallowed 1 _ seeded hforbidden _ rfl

end TalentFlow
