import TalentFlow.Gateway.Alone

/-!
# Guarantees.Listing

`findAll` and `findOne` decide separately which applications a requester gets to see: the one by a
where-clause, the other by three checks. The where-clause has no restriction for a requester
without a candidate, unless they are a recruiter.

* `finishes_findOne`, `finishes_findAll`: what the two operations answer.
* `list_shows_no_more`: when everything in the list can be viewed.
* `list_shows_more`: an interviewer who is shown an application that they may not view.
-/

namespace TalentFlow

open Data Async

section Operations

variable {i : ℕ} {w w' : World} {userId userRole : String}

theorem finishes_findCandidateOfUser (o : Except Exception (Option Candidate)) (w' : World) :
    Finishes (alone i) (ApplicationsService.findCandidateOfUser userId) w o w' ↔
      o = .ok (w.db.candidateOf userId) ∧ w' = w := by
  unfold ApplicationsService.findCandidateOfUser
  rw [finishes_bind_ok (finishes_userFindUnique (.id userId))]
  have hof : w.db.candidateOf userId = (w.db.findUser (.id userId)).bind fun user =>
      w.db.findCandidate (.email user.email) := rfl
  rw [hof]
  cases w.db.findUser (.id userId) with
  | none => exact finishes_pure
  | some user =>
    exact finishes_candidateFindUnique (.email user.email) o w'

def MayView (db : Db) (userId userRole : String) (x : ApplicationWithRelations) : Prop :=
  ApplicationsService.isApplicant x (db.candidateOf userId) = true ∨
    ApplicationsService.isRecruiter x userId = true ∨ ApplicationsService.isAdmin userRole = true

theorem denied_iff {db : Db} {x : ApplicationWithRelations} :
    (!ApplicationsService.isApplicant x (db.candidateOf userId) &&
      !ApplicationsService.isRecruiter x userId &&
      !ApplicationsService.isAdmin userRole) = true ↔ ¬ MayView db userId userRole x := by
  simp [MayView, and_assoc]

theorem finishes_findOne {a : Application} {x : ApplicationWithRelations}
    (ha : a ∈ w.db.applications.rows) (hlive : a.deletedAt = none)
    (hx : w.db.withRelations a = some x) (o : Except Exception ApplicationWithRelations) :
    Finishes (alone i) (ApplicationsService.findOne a.id userId userRole) w o w' ↔ w' = w ∧
      (MayView w.db userId userRole x ∧ o = .ok x ∨ ¬ MayView w.db userId userRole x ∧
        o = .error (.forbidden "You do not have permission to view this application")) := by
  have hfound : (w.db.applications.find? a.id).bind w.db.withRelations = some x := by
    rw [Table.find?_eq_some.mpr ⟨ha, rfl⟩]
    exact hx
  have hxa : x.deletedAt = none := by
    obtain ⟨y, hy, heq, -⟩ := withRelations_of_mem ha
    rw [hx] at hy
    cases hy
    rw [heq]
    exact hlive
  unfold ApplicationsService.findOne
  rw [finishes_bind_ok (finishes_applicationFindUnique a.id)]
  rw [hfound]
  simp only [Option.filter, hxa, Option.isNone_none, if_true]
  rw [finishes_bind_ok finishes_findCandidateOfUser]
  by_cases hview : MayView w.db userId userRole x
  · rw [if_neg (denied_iff.not.mpr (not_not.mpr hview))]
    simp only [hview, not_true, false_and, or_false, true_and]
    exact and_comm
  · rw [if_pos (denied_iff.mpr hview)]
    simp only [hview, false_and, not_false_eq_true, true_and, false_or]
    exact and_comm

theorem finishes_roleFilter (o : Except Exception ApplicationWhere) (w' : World) :
    Finishes (alone i) (ApplicationsService.roleFilter userId userRole) w o w' ↔
      o = .ok (w.db.roleWhere userId userRole) ∧ w' = w := by
  have hlookup : ∀ o w', Finishes (alone i) (do
      let candidate ← ApplicationsService.findCandidateOfUser userId
      return ({ candidateId := candidate.map Candidate.id } : ApplicationWhere)) w o w' ↔
        o = .ok { candidateId := (w.db.candidateOf userId).map Candidate.id } ∧ w' = w := by
    intro o w'
    rw [finishes_bind_ok finishes_findCandidateOfUser]
    exact finishes_pure
  unfold ApplicationsService.roleFilter Db.roleWhere
  by_cases hrecruiter : userRole = "RECRUITER"
  · rw [if_pos hrecruiter, if_pos hrecruiter]
    exact finishes_pure
  rw [if_neg hrecruiter, if_neg hrecruiter]
  by_cases hinterviewer : userRole = "INTERVIEWER"
  · have hadmin : userRole ≠ "ADMIN" := by
      rw [hinterviewer]
      decide
    rw [if_pos hinterviewer, if_neg hadmin]
    exact hlookup o w'
  rw [if_neg hinterviewer]
  by_cases hadmin : userRole = "ADMIN"
  · rw [if_neg (not_not.mpr hadmin), if_pos hadmin]
    exact finishes_pure
  · rw [if_pos hadmin, if_neg hadmin]
    exact hlookup o w'

def QueryApplicationsDto.pageRequest (query : QueryApplicationsDto) : PageRequest where
  sortBy := query.sortBy.getD "appliedAt"
  sortOrder := query.sortOrder.getD "desc"
  skip := (query.page.getD 1 - 1) * query.limit.getD 10
  take := query.limit.getD 10

/-- The page `findAll` shows when the database gives the rows in this order. -/
def Db.listPage (db : Db) (userId userRole : String) (query : QueryApplicationsDto)
    (rows : List Application) : ApplicationPage :=
  let total := (db.matching (db.listWhere userId userRole query)).length
  let limit := query.limit.getD 10
  { data := ((rows.drop query.pageRequest.skip).take query.pageRequest.take).filterMap
      db.withRelations
    pagination :=
      { total, page := query.page.getD 1, limit, totalPages := (total + limit - 1) / limit } }

theorem finishes_findMany {wh : ApplicationWhere} {p : PageRequest}
    {o : Except Exception (List ApplicationWithRelations)} :
    Finishes (alone i) (prisma (.applicationFindMany wh p)) w o w' ↔ w' = w ∧
      ((p.isValid = true ∧ ∃ rows, IsOrdering w.db wh p rows ∧
        o = .ok (((rows.drop p.skip).take p.take).filterMap w.db.withRelations)) ∨
      (p.isValid = false ∧ o = .error (.prisma .validation))) := by
  rw [finishes_read (c := .applicationFindMany wh p) trivial]
  cases hp : p.isValid with
  | true =>
    have hperform : ∀ ch : Choice, ((PrismaCall.applicationFindMany wh p).perform w.now ch.uuid
        ch.rows w.db).1 = .ok (((ch.rows.applications.drop p.skip).take p.take).filterMap
          w.db.withRelations) := fun ch => by
      simp only [PrismaCall.perform, hp, if_true]
    constructor
    · rintro ⟨rfl, ch, hallow, rfl⟩
      have hrows := hallow.2.1 (wh, p) (by simp [PrismaCall.sortedQuery, hp])
      exact ⟨rfl, .inl ⟨rfl, ch.rows.applications, hrows, by rw [hperform]; rfl⟩⟩
    · rintro ⟨rfl, (⟨-, rows, hrows, rfl⟩ | ⟨h, -⟩)⟩
      · refine ⟨rfl, { rows := { applications := rows } },
          ⟨fun h => absurd h Bool.false_ne_true, fun q hq => ?_, fun q hq => ?_⟩, ?_⟩
        · simp only [PrismaCall.sortedQuery, hp, if_true, Option.mem_def, Option.some.injEq] at hq
          subst hq
          exact hrows
        · cases hq
        · rw [hperform]
          rfl
      · cases h
  | false =>
    have hperform : ∀ ch : Choice, ((PrismaCall.applicationFindMany wh p).perform w.now ch.uuid
        ch.rows w.db).1 = .error .validation := fun ch => by
      simp [PrismaCall.perform, hp]
    constructor
    · rintro ⟨rfl, ch, -, rfl⟩
      exact ⟨rfl, .inr ⟨rfl, by rw [hperform]; rfl⟩⟩
    · rintro ⟨rfl, (⟨h, -⟩ | ⟨-, rfl⟩)⟩
      · cases h
      · refine ⟨rfl, {}, ⟨fun h => absurd h Bool.false_ne_true, fun q hq => ?_, fun q hq => ?_⟩, ?_⟩
        · simp [PrismaCall.sortedQuery, hp] at hq
        · cases hq
        · rw [hperform]
          rfl

theorem finishes_findAll {query : QueryApplicationsDto} {page : ApplicationPage} :
    Finishes (alone i) (ApplicationsService.findAll userId userRole query) w (.ok page) w' ↔
      w' = w ∧ query.pageRequest.isValid = true ∧ ∃ rows,
        IsOrdering w.db (w.db.listWhere userId userRole query) query.pageRequest rows ∧
        page = w.db.listPage userId userRole query rows := by
  unfold ApplicationsService.findAll
  rw [finishes_bind_ok finishes_roleFilter]
  have hrest : ∀ data, Finishes (alone i) (do
      let total ← prisma (.applicationCount (w.db.listWhere userId userRole query))
      return ({ data, pagination := ⟨total, query.page.getD 1, query.limit.getD 10,
        (total + query.limit.getD 10 - 1) / query.limit.getD 10⟩ } : ApplicationPage)) w
          (.ok page) w' ↔ page = { data, pagination :=
            ⟨(w.db.matching (w.db.listWhere userId userRole query)).length, query.page.getD 1,
              query.limit.getD 10, ((w.db.matching (w.db.listWhere userId userRole query)).length +
                query.limit.getD 10 - 1) / query.limit.getD 10⟩ } ∧ w' = w := by
    intro data
    rw [finishes_bind_ok (finishes_applicationCount _)]
    rw [finishes_pure, Except.ok.injEq]
  change Finishes (alone i) (prisma (.applicationFindMany (w.db.listWhere userId userRole query)
    query.pageRequest) >>= _) w (.ok page) w' ↔ _
  rw [finishes_bind]
  constructor
  · rintro (⟨data, w₁, hdata, hpage⟩ | ⟨e, -, h⟩)
    · obtain ⟨rfl, (⟨hvalid, rows, hrows, hok⟩ | ⟨-, herr⟩)⟩ := finishes_findMany.mp hdata
      · cases hok
        obtain ⟨rfl, rfl⟩ := (hrest _).mp hpage
        exact ⟨rfl, hvalid, rows, hrows, rfl⟩
      · cases herr
    · cases h
  · rintro ⟨rfl, hvalid, rows, hrows, rfl⟩
    refine .inl ⟨_, w', finishes_findMany.mpr ⟨rfl, .inl ⟨hvalid, rows, hrows, rfl⟩⟩, ?_⟩
    exact (hrest _).mpr ⟨rfl, rfl⟩

end Operations

/-! ## The list against the detail view -/

/-- Whatever a list shows the requester, `findOne` gives them. -/
def ListShowsNoMore (w : World) (userId userRole : String) : Prop :=
  ∀ query i page w₁, Finishes (alone i) (ApplicationsService.findAll userId userRole query) w
    (.ok page) w₁ → ∀ x ∈ page.data, ∀ j o w₂,
      Finishes (alone j) (ApplicationsService.findOne x.id userId userRole) w₁ o w₂ ↔
        o = .ok x ∧ w₂ = w₁

/-- The where-clause restricts the requester's list, or there is nothing to hide from them. -/
def ListRestricted (db : Db) (userId userRole : String) : Prop :=
  userRole = "ADMIN" ∨ userRole = "RECRUITER" ∨ (db.candidateOf userId).isSome = true ∨
    ∀ a ∈ db.applications.rows, a.deletedAt = none →
      ∀ job ∈ db.jobs.rows, job.id = a.jobId → job.createdById = userId

section Views

variable {db : Db} {userId userRole : String} {query : QueryApplicationsDto}

theorem mem_listPage {rows : List Application} {x : ApplicationWithRelations}
    (hrows : IsOrdering db (db.listWhere userId userRole query) query.pageRequest rows)
    (hx : x ∈ (db.listPage userId userRole query rows).data) :
    ∃ a ∈ db.applications.rows, db.selects (db.listWhere userId userRole query) a = true ∧
      db.withRelations a = some x := by
  obtain ⟨a, ha, hax⟩ := List.mem_filterMap.mp hx
  have hmem : a ∈ db.matching (db.listWhere userId userRole query) :=
    hrows.1.mem_iff.mp (List.mem_of_mem_drop (List.mem_of_mem_take ha))
  obtain ⟨hstored, hselects⟩ := List.mem_filter.mp hmem
  exact ⟨a, hstored, hselects, hax⟩

theorem isRecruiter_of_job {a : Application} {x : ApplicationWithRelations}
    (ha : a ∈ db.applications.rows) (hx : db.withRelations a = some x)
    (hjob : ∃ job ∈ db.jobs.rows, job.id = a.jobId ∧ job.createdById = userId) :
    ApplicationsService.isRecruiter x userId = true := by
  obtain ⟨y, hy, -, hfind⟩ := withRelations_of_mem ha
  rw [hx] at hy
  cases hy
  obtain ⟨job, hmem, hid, howner⟩ := hjob
  have hsame : x.job = job := by
    rw [Table.find?_eq_some.mpr ⟨hmem, hid⟩] at hfind
    exact (Option.some.inj hfind).symm
  simp [ApplicationsService.isRecruiter, hsame, howner]

/-- Where the list is restricted, the applications it selects can be viewed. -/
theorem mayView_of_selects (hr : ListRestricted db userId userRole) {a : Application}
    {x : ApplicationWithRelations} (ha : a ∈ db.applications.rows)
    (hselects : db.selects (db.listWhere userId userRole query) a = true)
    (hx : db.withRelations a = some x) : MayView db userId userRole x := by
  obtain ⟨y, hy, heq, -⟩ := withRelations_of_mem ha
  rw [hx] at hy
  cases hy
  simp only [Db.selects, Bool.and_eq_true, decide_eq_true_eq] at hselects
  obtain ⟨⟨⟨⟨⟨hlive, howner⟩, -⟩, hcandidate⟩, -⟩, -⟩ := hselects
  by_cases hadmin : userRole = "ADMIN"
  · exact .inr (.inr (decide_eq_true hadmin))
  by_cases hrecruiter : userRole = "RECRUITER"
  · right; left
    simp only [Db.listWhere, Db.roleWhere, if_pos hrecruiter, List.any_eq_true,
      decide_eq_true_eq] at howner
    exact isRecruiter_of_job ha hx howner
  rcases hr with h | h | h | h
  · exact absurd h hadmin
  · exact absurd h hrecruiter
  · left
    obtain ⟨candidate, hc⟩ := Option.isSome_iff_exists.mp h
    simp only [Db.listWhere, Db.roleWhere, if_neg hadmin, if_neg hrecruiter, hc, Option.map_some,
      Option.all_some, decide_eq_true_eq] at hcandidate
    simp [ApplicationsService.isApplicant, hc, heq, hcandidate]
  · right; left
    obtain ⟨job, hjob, hid⟩ := db.applications_job_id_fkey a ha
    exact isRecruiter_of_job ha hx ⟨job, hjob, hid, h a ha hlive job hjob hid⟩

def nth (n : ℕ) : QueryApplicationsDto where
  page := some (n + 1)
  limit := some 1

theorem nth_isValid (n : ℕ) : (nth n).pageRequest.isValid = true := rfl

theorem exists_ordering (db : Db) (wh : ApplicationWhere) :
    ∃ rows, ∀ n, IsOrdering db wh (nth n).pageRequest rows := by
  obtain ⟨rows, hrows⟩ := exists_isOrdering db wh (nth 0).pageRequest
  exact ⟨rows, fun n => hrows⟩

theorem exists_page {a : Application} {x : ApplicationWithRelations}
    (ha : a ∈ db.matching (db.listWhere userId userRole {})) (hx : db.withRelations a = some x) :
    ∃ n rows, IsOrdering db (db.listWhere userId userRole (nth n)) (nth n).pageRequest rows ∧
      (db.listPage userId userRole (nth n) rows).data = [x] := by
  obtain ⟨rows, hrows⟩ := exists_ordering db (db.listWhere userId userRole {})
  obtain ⟨n, hn, hget⟩ := List.mem_iff_getElem.mp ((hrows 0).1.mem_iff.mpr ha)
  refine ⟨n, rows, hrows n, ?_⟩
  have hone : (rows.drop n).take 1 = [a] := by
    rw [List.drop_eq_getElem_cons hn, hget]
    rfl
  have hskip : (nth n).pageRequest.skip = n := by
    simp [nth, QueryApplicationsDto.pageRequest]
  have htake : (nth n).pageRequest.take = 1 := rfl
  simp only [Db.listPage, hskip, htake, hone, List.filterMap_cons, hx, List.filterMap_nil]

end Views

/-- A list shows only what can be viewed, exactly if it is restricted or nothing is hidden. -/
theorem list_shows_no_more (w : World) (userId userRole : String) :
    ListShowsNoMore w userId userRole ↔ ListRestricted w.db userId userRole := by
  constructor
  · intro h
    by_contra hopen
    simp only [ListRestricted, not_or, not_forall] at hopen
    obtain ⟨hadmin, hrecruiter, hnone, a, ha, hlive, job, hjob, hid, howner⟩ := hopen
    have hcand : w.db.candidateOf userId = none := by simpa using hnone
    obtain ⟨x, hx, heq, hfind⟩ := withRelations_of_mem ha
    have hmatch : a ∈ w.db.matching (w.db.listWhere userId userRole {}) := by
      refine List.mem_filter.mpr ⟨ha, ?_⟩
      simp [Db.selects, Db.listWhere, Db.roleWhere, hadmin, hrecruiter, hcand, hlive, truthy]
    obtain ⟨n, rows, hrows, hdata⟩ := exists_page hmatch hx
    have hlist := (finishes_findAll (i := 0)).mpr ⟨rfl, nth_isValid n, rows, hrows, rfl⟩
    have hshown := (h (nth n) 0 _ w hlist x (by simp [hdata]) 0 (.ok x) w).mpr ⟨rfl, rfl⟩
    have hxid : x.id = a.id := by rw [heq]
    rw [hxid, finishes_findOne ha hlive hx] at hshown
    have hview : MayView w.db userId userRole x := by
      obtain ⟨-, (⟨hview, -⟩ | ⟨-, herr⟩)⟩ := hshown
      · exact hview
      · cases herr
    -- no candidate, no admin; the job is somebody else's
    rcases hview with happlicant | hrec | hadm
    · simp [ApplicationsService.isApplicant, hcand] at happlicant
    · rw [Table.find?_eq_some.mpr ⟨hjob, hid⟩] at hfind
      obtain rfl : job = x.job := Option.some.inj hfind
      exact howner (of_decide_eq_true hrec)
    · exact hadmin (of_decide_eq_true hadm)
  · intro hr query i page w₁ hlist x hx j o w₂
    obtain ⟨rfl, -, rows, hrows, rfl⟩ := finishes_findAll.mp hlist
    obtain ⟨a, ha, hselects, hax⟩ := mem_listPage hrows hx
    obtain ⟨y, hy, heq, -⟩ := withRelations_of_mem ha
    rw [hax] at hy
    cases hy
    have hlive : a.deletedAt = none := by
      simp only [Db.selects, Bool.and_eq_true, decide_eq_true_eq] at hselects
      exact hselects.1.1.1.1.1
    have hid : x.id = a.id := by rw [heq]
    have hview : MayView w₁.db userId userRole x := mayView_of_selects hr ha hselects hax
    rw [hid, finishes_findOne ha hlive hax]
    simp only [hview, true_and, not_true, false_and, or_false]
    exact and_comm

/-! ## An interviewer -/

def cleosDetail : ApplicationWithRelations :=
  { cleosApplication with job := backend, candidate := cleo }

theorem hidden_from_ian : ¬ MayView seeded.db "u-ian" "INTERVIEWER" cleosDetail := by
  rintro (h | h | h)
  · exact absurd h (by decide)
  · exact absurd h (by decide)
  · exact absurd h (by decide)

theorem finishes_ian {i : ℕ} {w' : World} (o : Except Exception ApplicationWithRelations) :
    Finishes (alone i) (ApplicationsService.findOne "a-cleo" "u-ian" "INTERVIEWER") seeded o w' ↔
      w' = seeded ∧
        o = .error (.forbidden "You do not have permission to view this application") := by
  have hstored : cleosApplication ∈ seeded.db.applications.rows := List.mem_singleton.mpr rfl
  have hview : Finishes (alone i)
      (ApplicationsService.findOne cleosApplication.id "u-ian" "INTERVIEWER") seeded o w' ↔ _ :=
    finishes_findOne hstored rfl (x := cleosDetail) rfl o
  simp only [hidden_from_ian, false_and, false_or, not_false_eq_true, true_and] at hview
  exact hview

/-- Ian is an interviewer and has never applied to a job. The list shows him the application of
somebody else to a job of Ray's; to view it is forbidden to him. -/
theorem list_shows_more :
    (∃ page x, Finishes (alone 0) (ApplicationsService.findAll "u-ian" "INTERVIEWER" {}) seeded
        (.ok page) seeded ∧ x ∈ page.data ∧
      Finishes (alone 1) (ApplicationsService.findOne x.id "u-ian" "INTERVIEWER") seeded
        (.error (.forbidden "You do not have permission to view this application")) seeded) ∧
    ¬ ListShowsNoMore seeded "u-ian" "INTERVIEWER" := by
  have hrows : IsOrdering seeded.db (seeded.db.listWhere "u-ian" "INTERVIEWER" {})
      ({} : QueryApplicationsDto).pageRequest [cleosApplication] := by decide +kernel
  have hlist := (finishes_findAll (i := 0)).mpr ⟨rfl, rfl, _, hrows, rfl⟩
  have hmem : cleosDetail ∈ (seeded.db.listPage "u-ian" "INTERVIEWER" {} [cleosApplication]).data :=
    List.mem_singleton.mpr rfl
  refine ⟨⟨_, cleosDetail, hlist, hmem, (finishes_ian _).mpr ⟨rfl, rfl⟩⟩, fun h => ?_⟩
  have hshown := (h {} 0 _ seeded hlist cleosDetail hmem 1 (.ok cleosDetail) seeded).mpr ⟨rfl, rfl⟩
  cases ((finishes_ian _).mp hshown).2

end TalentFlow
