import TalentFlow.Guarantees.Reapplying

/-!
# Guarantees.TwoPaths

Applying with and without a CV. `create` and `createWithCv` decide alike: what they are to do is
written down once, as `Db.eligibleUser` and `Submits`, and both do it.

* `Db.eligibleUser`: who may apply to a job, and what the others are told.
* `submits_of_prefix`: the steps that both methods begin with follow it.
* `create_submits`, `createWithCv_submits`: each method, run alone, does what `Submits` says.
* `two_paths_agree`: so from one store they leave the same, up to ids, timestamps and the CV.
-/

namespace TalentFlow

open Data Async

/-! ## The rules -/

/-- The user who may apply to the job, or what the request is told. -/
def Db.eligibleUser (db : Db) (userId jobId : String) : Except Exception User :=
  match (db.jobs.find? jobId).filter fun job => job.deletedAt.isNone with
  | none => .error (.notFound ("Job with ID " ++ jobId ++ " not found"))
  | some job =>
    if job.status ≠ .open then .error (.forbidden "Cannot apply to a job that is not open")
    else
      match db.users.find? userId with
      | none => .error (.notFound "User not found")
      | some user =>
        if db.NoLiveApplication user jobId then .ok user
        else .error (.conflict "You have already applied to this job")

theorem eligibleUser_stranger {db : Db} {userId jobId : String} (hopen : JobOpen db jobId)
    (huser : db.users.find? userId = none) :
    db.eligibleUser userId jobId = .error (.notFound "User not found") := by
  obtain ⟨job, hfind, hstatus, hlive⟩ := hopen
  have hfilter : (some job).filter (fun job => job.deletedAt.isNone) = some job := by
    rw [Option.filter_some, hlive]
    rfl
  simp only [Db.eligibleUser, hfind, hfilter, hstatus, huser, ne_eq, not_true_eq_false, if_false]

theorem eligibleUser_known {db : Db} {userId jobId : String} {user : User} (hopen : JobOpen db jobId)
    (huser : db.users.find? userId = some user) :
    db.eligibleUser userId jobId = if db.NoLiveApplication user jobId then .ok user
      else .error (.conflict "You have already applied to this job") := by
  obtain ⟨job, hfind, hstatus, hlive⟩ := hopen
  have hfilter : (some job).filter (fun job => job.deletedAt.isNone) = some job := by
    rw [Option.filter_some, hlive]
    rfl
  simp only [Db.eligibleUser, hfind, hfilter, hstatus, huser, ne_eq, not_true_eq_false, if_false]

/-- The user's candidate: the one that was there, or one made of the user's data. -/
def HasCandidate (w w' : World) (user : User) (c : Candidate) : Prop :=
  (c ∈ w.db.candidates.rows ∧ c.email = user.email ∧ w'.db.candidates = w.db.candidates) ∨
    (∀ x ∈ w.db.candidates.rows, x.email ≠ user.email) ∧
      w'.db.candidates.rows = w.db.candidates.rows ++ [c] ∧
      ∃ id now, c = ({ email := user.email, fullName := user.fullName } : CandidateCreate).row id now

/-- What a submission ends with. -/
inductive Submits (w : World) (userId jobId : String) (coverLetter : Option String) {α : Type} :
    Except Exception α → World → Prop where
  /-- the rules refuse it -/
  | refused {e : Exception} {w' : World} : w.db.eligibleUser userId jobId = .error e →
      w'.db.candidates = w.db.candidates → w'.db.applications = w.db.applications →
      Submits w userId jobId coverLetter (.error e) w'
  /-- an application that was withdrawn is in its way, or the database does not take the letter -/
  | failed {user : User} {c : Candidate} {e : Exception} {w' : World} :
      w.db.eligibleUser userId jobId = .ok user →
      ¬ (¬ w.db.HasWithdrawn user jobId ∧ storable coverLetter = true) →
      HasCandidate w w' user c → e.status = 500 → w'.db.applications = w.db.applications →
      Submits w userId jobId coverLetter (.error e) w'
  | accepted {user : User} {c : Candidate} {d : ApplicationCreate} {id : String} {now : Time}
      {r : α} {w' : World} : w.db.eligibleUser userId jobId = .ok user →
      ¬ w.db.HasWithdrawn user jobId ∧ storable coverLetter = true → HasCandidate w w' user c →
      d.jobId = jobId → d.candidateId = c.id → d.coverLetter = coverLetter →
      w'.db.applications.rows = w.db.applications.rows ++ [d.row id now] →
      Submits w userId jobId coverLetter (.ok r) w'

section Steps

variable {i : ℕ} {w w' : World} {userId jobId : String} {α : Type}

theorem finishes_openJob {o : Except Exception Job}
    (h : Finishes (alone i) (ApplicationsService.findOpenJobOrThrow jobId) w o w') :
    w' = w ∧ ((∃ e, o = .error e ∧ ∀ userId, w.db.eligibleUser userId jobId = .error e) ∨
      (∃ job, o = .ok job) ∧ JobOpen w.db jobId) := by
  unfold ApplicationsService.findOpenJobOrThrow at h
  rw [finishes_bind_ok (finishes_jobFindUnique jobId)] at h
  cases hfind : (w.db.jobs.find? jobId).filter fun job => job.deletedAt.isNone with
  | none =>
    rw [hfind] at h
    refine ⟨h.2, .inl ⟨_, h.1, fun userId => ?_⟩⟩
    rw [Db.eligibleUser, hfind]
  | some job =>
    rw [hfind] at h
    obtain ⟨hjob, hlive⟩ := Option.filter_eq_some_iff.mp hfind
    by_cases hopen : job.status = .open
    · simp only [hopen, ne_eq, not_true_eq_false, if_false] at h
      obtain ⟨rfl, rfl⟩ := finishes_pure.mp h
      exact ⟨rfl, .inr ⟨⟨job, rfl⟩, job, hjob, hopen, Option.isNone_iff_eq_none.mp hlive⟩⟩
    · simp only [hopen, ne_eq, not_false_eq_true, if_true] at h
      refine ⟨h.2, .inl ⟨_, h.1, fun userId => ?_⟩⟩
      rw [Db.eligibleUser, hfind]
      exact if_pos hopen

theorem hasCandidate {user : User} {c : Candidate}
    (huser : w.db.users.find? user.id = some user)
    (h : Finishes (alone i) (ApplicationsService.findOrCreateCandidateOrThrow user.id) w (.ok c) w') :
    HasCandidate w w' user c := by
  unfold ApplicationsService.findOrCreateCandidateOrThrow at h
  rw [finishes_bind_ok (finishes_userFindUnique (.id user.id)),
    show w.db.findUser (.id user.id) = some user from huser] at h
  dsimp only at h
  rw [finishes_bind_ok (finishes_candidateFindUnique (.email user.email))] at h
  cases hfind : w.db.findCandidate (.email user.email) with
  | some c' =>
    rw [hfind] at h
    obtain ⟨hc, rfl⟩ := finishes_pure.mp h
    cases hc
    obtain ⟨hmem, hemail⟩ := Table.findUnique?_eq_some.mp hfind
    exact .inl ⟨hmem, hemail, rfl⟩
  | none =>
    rw [hfind] at h
    obtain ⟨id, rows, -, hok, herror⟩ := alone_prisma (finishes_await.mp h)
    rcases hperf : (PrismaCall.candidateCreate
      { email := user.email, fullName := user.fullName }).perform w.now id rows w.db with ⟨e | v, db⟩
    · cases (herror e db hperf).1
    · obtain ⟨hv, hdb, -⟩ := hok v db hperf
      cases hv
      obtain ⟨rfl, hins⟩ := PrismaCall.perform_candidateCreate hperf
      obtain ⟨hins, -⟩ := Db.insertCandidate_eq_some hins
      obtain ⟨hfree, hrows⟩ := Table.insert?_eq_some.mp hins
      exact .inr ⟨fun x hx => (hfree x hx).2, by rw [hdb, hrows], id, w.now, rfl⟩

theorem finishes_duplicate {user : User} {f : Candidate → Prog Api α} {o : Except Exception α}
    (huser : w.db.users.find? user.id = some user)
    (happlied : ¬ w.db.NoLiveApplication user jobId) (h : Finishes (alone i) (do
      let candidate ← ApplicationsService.findOrCreateCandidateOrThrow user.id
      ApplicationsService.ensureNoDuplicateApplication jobId candidate.id
      f candidate) w o w') :
    o = .error (.conflict "You have already applied to this job") ∧ w' = w := by
  simp only [Db.NoLiveApplication, not_forall, not_not] at happlied
  obtain ⟨a, ha, ⟨hjob, c, hc, hcand, hemail⟩, hlive⟩ := happlied
  have hfind : w.db.findCandidate (.email user.email) = some c :=
    Table.findUnique?_eq_some.mpr ⟨hc, hemail⟩
  have hfirst : (w.db.applications.rows.find? fun a =>
      decide (a.jobId = jobId ∧ a.candidateId = c.id ∧ a.deletedAt = none)).isSome = true :=
    List.find?_isSome.mpr ⟨a, ha, decide_eq_true ⟨hjob, hcand, hlive⟩⟩
  unfold ApplicationsService.findOrCreateCandidateOrThrow
    ApplicationsService.ensureNoDuplicateApplication at h
  simp only [bind_assoc] at h
  rw [finishes_bind_ok (finishes_userFindUnique (.id user.id)),
    show w.db.findUser (.id user.id) = some user from huser] at h
  simp only [bind_assoc] at h
  rw [finishes_bind_ok (finishes_candidateFindUnique (.email user.email)), hfind] at h
  simp only [pure_bind] at h
  rw [finishes_bind_ok (finishes_applicationFindFirst jobId c.id), if_pos hfirst] at h
  exact h

theorem submits_of_prefix {f : Candidate → Prog Api α} {o : Except Exception α} (hw : w.Wf)
    (h : Finishes (alone i) (do
      let _job ← ApplicationsService.findOpenJobOrThrow jobId
      let candidate ← ApplicationsService.findOrCreateCandidateOrThrow userId
      ApplicationsService.ensureNoDuplicateApplication jobId candidate.id
      f candidate) w o w') :
    (∃ e, w.db.eligibleUser userId jobId = .error e ∧ o = .error e ∧ w' = w) ∨
      ∃ user c w₁, w.db.eligibleUser userId jobId = .ok user ∧ HasCandidate w w₁ user c ∧
        Prepared w w₁ user jobId c ∧ Finishes (alone i) (f c) w₁ o w' := by
  obtain ⟨job, w₁, hjob, hrest⟩ | ⟨e, hjob, rfl⟩ := finishes_bind.mp h
  swap
  · obtain ⟨rfl, ⟨e', he, heligible⟩ | ⟨⟨job, hok⟩, -⟩⟩ := finishes_openJob hjob
    · cases he
      exact .inl ⟨e, heligible userId, rfl, rfl⟩
    · cases hok
  obtain ⟨rfl, ⟨e', he, -⟩ | ⟨-, hopen⟩⟩ := finishes_openJob hjob
  · cases he
  cases huser : w₁.db.users.find? userId with
  | none =>
    left
    unfold ApplicationsService.findOrCreateCandidateOrThrow at hrest
    simp only [bind_assoc] at hrest
    rw [finishes_bind_ok (finishes_userFindUnique (.id userId)),
      show w₁.db.findUser (.id userId) = none from huser] at hrest
    exact ⟨_, eligibleUser_stranger hopen huser, hrest.1, hrest.2⟩
  | some user =>
    obtain rfl : user.id = userId := (Table.find?_eq_some.mp huser).2
    by_cases hnew : w₁.db.NoLiveApplication user jobId
    · right
      obtain ⟨c, w₂, hcand, hready, hf⟩ := submit_prepares hw huser hopen hnew h
      exact ⟨user, c, w₂, (eligibleUser_known hopen huser).trans (if_pos hnew),
        hasCandidate huser hcand, hready, hf⟩
    · left
      obtain ⟨ho, hsame⟩ := finishes_duplicate huser hnew hrest
      exact ⟨_, (eligibleUser_known hopen huser).trans (if_neg hnew), ho, hsame⟩

/-! ## The methods -/

theorem HasCandidate.mono {w₁ : World} {user : User} {c : Candidate} (h : HasCandidate w w₁ user c)
    (hsame : w'.db.candidates = w₁.db.candidates) : HasCandidate w w' user c := by
  unfold HasCandidate
  rw [hsame]
  exact h

theorem db_of_others {p : Prog Api α} {o : Except Exception α}
    (hp : p.Calls fun c : Call => ∀ q, c ≠ .prisma q) (h : Finishes (alone i) p w o w') :
    w'.db = w.db := by
  refine finishes_keeps (fun w₁ => w₁.db = w.db) (fun {c w₁ r w₂} hc hr hsame => ?_) hp h rfl
  obtain ⟨ch, -, hx⟩ := hr
  exact ((exec_frame hx).db hc).trans hsame

theorem applicationCreate_row {d : ApplicationCreate} {a : Application}
    (h : alone i (.prisma (.applicationCreate d)) w (.ok a) w') :
    ∃ id now, a = d.row id now ∧
      w'.db.applications.rows = w.db.applications.rows ++ [d.row id now] ∧
      w'.db.candidates = w.db.candidates := by
  obtain ⟨id, rows, -, hok, herror⟩ := alone_prisma h
  rcases hperf : (PrismaCall.applicationCreate d).perform w.now id rows w.db with ⟨e | v, db⟩
  · cases (herror e db hperf).1
  · obtain ⟨hv, hdb, -⟩ := hok v db hperf
    cases hv
    obtain ⟨hrow, -, -, hins, -, -, hcands⟩ := PrismaCall.perform_applicationCreate hperf
    exact ⟨id, w.now, hrow, by rw [hdb, (Table.insert?_eq_some.mp hins).2], by rw [hdb, hcands]⟩

theorem create_submits {dto : CreateApplicationDto} {o : Except Exception Application} (hw : w.Wf)
    (h : Finishes (alone i) (ApplicationsService.create userId dto) w o w')
    (hkey : storable dto.cvFileKey = true) (hurl : storable dto.cvFileUrl = true) :
    Submits w userId dto.jobId dto.coverLetter o w' := by
  obtain ⟨e, heligible, rfl, rfl⟩ | ⟨user, c, w₁, heligible, hcand, hready, hcreate⟩ :=
    submits_of_prefix hw h
  · exact .refused heligible rfl rfl
  · obtain ⟨hrefused, ⟨e, rfl⟩, rfl⟩ | ⟨hfree, ⟨a, rfl⟩, -⟩ :=
      applicationCreate_iff hready rfl rfl (finishes_await.mp hcreate)
    · rw [ApplicationCreate.isStorable_eq hkey hurl] at hrefused
      exact .failed heligible hrefused hcand rfl hready.applications
    · rw [ApplicationCreate.isStorable_eq hkey hurl] at hfree
      obtain ⟨id, now, -, hrows, hcands⟩ := applicationCreate_row (finishes_await.mp hcreate)
      rw [hready.applications] at hrows
      exact .accepted heligible hfree (hcand.mono hcands) rfl rfl rfl hrows

theorem finishes_failCreateWithCv {fileKey : String} {o : Except Exception UploadCvResponseDto}
    (h : Finishes (alone i) (ApplicationsService.failCreateWithCv none fileKey) w o w') :
    o = .error (.internalServerError "Failed to process CV upload") ∧ w'.db = w.db := by
  have hcalls : (ApplicationsService.rollbackCreateWithCv none fileKey).Calls
      fun c : Call => ∀ q, c ≠ .prisma q :=
    calls_tryCatch (calls_await (by simp)) fun _ => trivial
  obtain ⟨⟨⟩, w₁, hrollback, hthrow⟩ | ⟨e, hrollback, -⟩ := finishes_bind.mp h
  · obtain ⟨rfl, rfl⟩ := hthrow
    exact ⟨rfl, db_of_others hcalls hrollback⟩
  · obtain ⟨⟨⟩, -, he⟩ | ⟨e', w₁, -, he, -⟩ := finishes_tryCatch.mp hrollback
    · cases he
    · cases he

theorem createWithCv_submits {file : UploadedFile} {dto : UploadCvDto}
    {o : Except Exception UploadCvResponseDto} (hw : w.Wf)
    (hchannel : w.channel.any (fun chan => !chan.full) = true)
    (h : Finishes (alone i) (ApplicationsService.createWithCv userId file dto) w o w') :
    Submits w userId dto.jobId dto.coverLetter o w' := by
  obtain ⟨e, heligible, rfl, rfl⟩ | ⟨user, c, w₁, heligible, hcand, hready, hprepared⟩ :=
    submits_of_prefix hw h
  · exact .refused heligible rfl rfl
  obtain ⟨fileKey, uploadUrl, w₂, hupload, ⟨hkey, hurl⟩, hready₂, hstored⟩ :=
    upload_prepares hready hprepared
  have hdb₂ : w₂.db = w₁.db :=
    db_of_others (uploadCvOrThrow_calls (by simp) (by simp)) hupload
  have hcand₂ : HasCandidate w w₂ user c := hcand.mono (congrArg Db.candidates hdb₂)
  obtain ⟨r, w₃, hcreate, hcreated⟩ := finishes_bind_attempt.mp hstored
  obtain ⟨hrefused, ⟨e, rfl⟩, rfl⟩ | ⟨hfree, ⟨a, rfl⟩, -, hchannel₃⟩ :=
    applicationCreate_iff hready₂ rfl rfl (finishes_await.mp hcreate)
  · obtain ⟨rfl, hdb⟩ := finishes_failCreateWithCv hcreated
    rw [ApplicationCreate.isStorable_eq hkey hurl] at hrefused
    refine .failed heligible hrefused (hcand₂.mono (congrArg Db.candidates hdb)) rfl ?_
    rw [hdb, hready₂.applications]
  · rw [ApplicationCreate.isStorable_eq hkey hurl] at hfree
    obtain ⟨id, now, -, hrows, hcands⟩ := applicationCreate_row (finishes_await.mp hcreate)
    rw [← hchannel₃] at hchannel
    obtain ⟨r, w₄, hpublish, hhanded⟩ := finishes_bind_attempt.mp hcreated
    obtain ⟨rfl, hdb₄⟩ := finishes_publishApplication hchannel hpublish
    obtain ⟨⟨response, rfl⟩, hdb⟩ := finishes_buildUploadResponse hhanded
    rw [hready₂.applications] at hrows
    have hlast : w'.db = w₃.db := hdb.trans hdb₄
    rw [← hlast] at hrows hcands
    exact .accepted heligible hfree (hcand₂.mono hcands) rfl rfl rfl hrows

end Steps

/-! ## Agreement -/

section Agreement

variable {w w₁ w₂ : World} {α β : Type}

/-- The candidates are the same one, or each is new, and made of the same data. -/
def SameCandidate (w : World) (c c' : Candidate) : Prop :=
  c = c' ∨ c ∉ w.db.candidates.rows ∧ c' ∉ w.db.candidates.rows ∧
    { c' with id := c.id, createdAt := c.createdAt, updatedAt := c.updatedAt } = c

/-- The applications are the same, up to ids, timestamps and the CV. Where the candidate is new, too,
each refers to its own. -/
structure SameApplication (w w₁ w₂ : World) (a a' : Application) : Prop where
  columns : { a' with
    id := a.id, candidateId := a.candidateId, cvFileKey := a.cvFileKey, cvFileUrl := a.cvFileUrl,
    appliedAt := a.appliedAt, createdAt := a.createdAt, updatedAt := a.updatedAt } = a
  candidate : ∃ c ∈ w₁.db.candidates.rows, ∃ c' ∈ w₂.db.candidates.rows, SameCandidate w c c' ∧
    a.candidateId = c.id ∧ a'.candidateId = c'.id

/-- Two submissions from one world reject with the same status and insert nothing, or both insert
such an application; and they do the same to the candidates. -/
structure SameOutcome (w : World) (o : Except Exception α) (w₁ : World) (o' : Except Exception β)
    (w₂ : World) : Prop where
  outcome :
    (∃ e e', o = .error e ∧ o' = .error e' ∧ e.status = e'.status ∧
      w₁.db.applications = w.db.applications ∧ w₂.db.applications = w.db.applications) ∨
    ∃ r r' a a', o = .ok r ∧ o' = .ok r' ∧
      w₁.db.applications.rows = w.db.applications.rows ++ [a] ∧
      w₂.db.applications.rows = w.db.applications.rows ++ [a'] ∧ SameApplication w w₁ w₂ a a'
  candidates : List.Forall₂ (SameCandidate w) w₁.db.candidates.rows w₂.db.candidates.rows

theorem sameCandidate_refl (w : World) (cs : List Candidate) :
    List.Forall₂ (SameCandidate w) cs cs := by
  induction cs with
  | nil => exact .nil
  | cons c cs ih => exact .cons (.inl rfl) ih

theorem HasCandidate.mem {user : User} {c : Candidate} (h : HasCandidate w w₁ user c) :
    c ∈ w₁.db.candidates.rows := by
  obtain ⟨hc, -, hsame⟩ | ⟨-, hrows, -⟩ := h
  · rw [hsame]
    exact hc
  · rw [hrows]
    exact List.mem_append_right _ List.mem_cons_self

/-- Two submissions of one user have the same candidate. -/
theorem HasCandidate.same {user : User} {c c' : Candidate} (h : HasCandidate w w₁ user c)
    (h' : HasCandidate w w₂ user c') : SameCandidate w c c' ∧
      List.Forall₂ (SameCandidate w) w₁.db.candidates.rows w₂.db.candidates.rows := by
  obtain ⟨hc, hemail, hsame⟩ | ⟨hnone, hrows, id, now, rfl⟩ := h
  · obtain ⟨hc', hemail', hsame'⟩ | ⟨hnone, -⟩ := h'
    · obtain rfl := w.db.candidates.ukey_inj hc hc' (hemail.trans hemail'.symm)
      rw [hsame, hsame']
      exact ⟨.inl rfl, sameCandidate_refl w _⟩
    · exact absurd hemail (hnone c hc)
  · obtain ⟨hc', hemail', -⟩ | ⟨-, hrows', id', now', rfl⟩ := h'
    · exact absurd hemail' (hnone c' hc')
    · have hnew : ∀ id now, ({ email := user.email, fullName := user.fullName } :
          CandidateCreate).row id now ∉ w.db.candidates.rows :=
        fun id now hmem => hnone _ hmem rfl
      have hsame := (.inr ⟨hnew id now, hnew id' now', rfl⟩ : SameCandidate w
        (({ email := user.email, fullName := user.fullName } : CandidateCreate).row id now)
        (({ email := user.email, fullName := user.fullName } : CandidateCreate).row id' now'))
      rw [hrows, hrows']
      exact ⟨hsame, List.rel_append (sameCandidate_refl w _) (.cons hsame .nil)⟩

/-- What follows the rules ends alike. -/
theorem Submits.sameOutcome {userId jobId : String} {coverLetter : Option String}
    {o : Except Exception α} {o' : Except Exception β}
    (h : Submits w userId jobId coverLetter o w₁) (h' : Submits w userId jobId coverLetter o' w₂) :
    SameOutcome w o w₁ o' w₂ := by
  cases h with
  | refused heligible hcands happs =>
    cases h' with
    | refused heligible' hcands' happs' =>
      obtain rfl := Except.error.inj (heligible.symm.trans heligible')
      refine ⟨.inl ⟨_, _, rfl, rfl, rfl, happs, happs'⟩, ?_⟩
      rw [hcands, hcands']
      exact sameCandidate_refl w _
    | failed heligible' => cases heligible.symm.trans heligible'
    | accepted heligible' => cases heligible.symm.trans heligible'
  | failed heligible hrefused hcand hstatus happs =>
    cases h' with
    | refused heligible' => cases heligible.symm.trans heligible'
    | failed heligible' _ hcand' hstatus' happs' =>
      obtain rfl := Except.ok.inj (heligible.symm.trans heligible')
      exact ⟨.inl ⟨_, _, rfl, rfl, hstatus.trans hstatus'.symm, happs, happs'⟩,
        (hcand.same hcand').2⟩
    | accepted heligible' hfree =>
      obtain rfl := Except.ok.inj (heligible.symm.trans heligible')
      exact absurd hfree hrefused
  | accepted heligible hfree hcand hjob hid hletter hrows =>
    cases h' with
    | refused heligible' => cases heligible.symm.trans heligible'
    | failed heligible' hrefused =>
      obtain rfl := Except.ok.inj (heligible.symm.trans heligible')
      exact absurd hfree hrefused
    | accepted heligible' _ hcand' hjob' hid' hletter' hrows' =>
      obtain rfl := Except.ok.inj (heligible.symm.trans heligible')
      obtain ⟨hsame, hall⟩ := hcand.same hcand'
      refine ⟨.inr ⟨_, _, _, _, rfl, rfl, hrows, hrows', ?_, _, hcand.mem, _, hcand'.mem, hsame, hid,
        hid'⟩, hall⟩
      simp only [ApplicationCreate.row, hjob, hjob', hletter, hletter']

end Agreement

/-- From one well-formed world, `create` without a CV and `createWithCv`, each run alone while the
channel takes messages, both come to an end, and end alike. -/
theorem two_paths_agree {i : ℕ} {w : World} (hw : w.Wf)
    (hchannel : w.channel.any (fun chan => !chan.full) = true) (userId jobId : String)
    (coverLetter : Option String) (file : UploadedFile) :
    (∃ o w₁, Finishes (alone i) (ApplicationsService.createInline userId { jobId, coverLetter }) w o
      w₁) ∧
    (∃ o w₂, Finishes (alone i)
      (ApplicationsService.createWithCv userId file { jobId, coverLetter }) w o w₂) ∧
    ∀ o w₁ o' w₂,
      Finishes (alone i) (ApplicationsService.createInline userId { jobId, coverLetter }) w o w₁ →
      Finishes (alone i) (ApplicationsService.createWithCv userId file { jobId, coverLetter }) w o'
        w₂ → SameOutcome w o w₁ o' w₂ := by
  rw [ApplicationsService.createInline_eq]
  refine ⟨?_, ?_, fun o w₁ o' w₂ h h' =>
    (create_submits hw h rfl rfl).sameOutcome (createWithCv_submits hw hchannel h')⟩
  · exact exists_finish_bind
      (@request_answered i (.createApplication userId { jobId, coverLetter }) (by simp) w)
  · exact exists_finish_bind
      (@request_answered i (.createApplicationWithCv userId file { jobId, coverLetter }) (by simp) w)

theorem two_paths_agree_ian :
    let dto : CreateApplicationDto := { jobId := "j-backend", coverLetter := some "Hello" }
    let file : UploadedFile :=
      { originalname := "cv.pdf", mimetype := "application/pdf", buffer := [0x25] }
    ∀ o w₁ o' w₂,
      Finishes (alone 0) (ApplicationsService.createInline "u-ian" dto) seeded o w₁ →
      Finishes (alone 0) (ApplicationsService.createWithCv "u-ian" file
        { jobId := "j-backend", coverLetter := some "Hello" }) seeded o' w₂ →
      SameOutcome seeded o w₁ o' w₂ :=
  (two_paths_agree seeded_wf rfl "u-ian" "j-backend" (some "Hello") _).2.2

end TalentFlow
