import TalentFlow.Gateway.Alone
import TalentFlow.Guarantees.Submission

/-!
# Guarantees.Reapplying

Who may apply to a job. `ensureNoDuplicateApplication` looks for an application that is not
deleted; the database allows no two applications of one candidate to one job, whether they are
deleted or not. The two agree as long as the candidate has not withdrawn an application to the job.

* `submit_prepares`: the steps that both kinds of submission begin with, run alone.
* `applicationCreate_iff`: when the insertion meets an application that is there.
* `submission_inserts_iff`: a submission that the check lets through inserts its application if
  and only if the candidate has no withdrawn application to the job and the database takes its texts.
* `withdrawn_then_refused`: Ray applies, withdraws and applies again.
-/

namespace TalentFlow

open Data Async

section Statement

variable (db : Db) (user : User) (jobId : String)

/-- The application is to the job, and by the user's candidate. -/
def Db.IsBy (a : Application) : Prop :=
  a.jobId = jobId ∧ ∃ c ∈ db.candidates.rows, a.candidateId = c.id ∧ c.email = user.email

instance (a : Application) : Decidable (db.IsBy user jobId a) :=
  inferInstanceAs (Decidable (_ ∧ ∃ c ∈ db.candidates.rows, _))

/-- What `ensureNoDuplicateApplication` makes sure of. -/
def Db.NoLiveApplication : Prop :=
  ∀ a ∈ db.applications.rows, db.IsBy user jobId a → a.deletedAt ≠ none

instance : Decidable (db.NoLiveApplication user jobId) :=
  inferInstanceAs (Decidable (∀ a ∈ db.applications.rows, _ → _))

/-- The user's candidate has withdrawn an application to the job. -/
def Db.HasWithdrawn : Prop :=
  ∃ a ∈ db.applications.rows, db.IsBy user jobId a ∧ a.deletedAt ≠ none

/-- The database takes the texts of a submission. -/
def Request.isStorable : Request → Bool
  | .createApplication _ dto =>
    storable dto.coverLetter && storable dto.cvFileKey && storable dto.cvFileUrl
  | .createApplicationWithCv _ _ dto => storable dto.coverLetter
  | _ => true

/-- There is a live application of the user to the job that was not there before. -/
def Inserted (w w' : World) (user : User) (jobId : String) : Prop :=
  ∃ a ∈ w'.db.applications.rows, a ∉ w.db.applications.rows ∧ w'.db.IsBy user jobId a ∧
    a.deletedAt = none

end Statement

/-! ## Calls of a request that runs alone -/

section Calls

variable {i : ℕ} {w w' : World}

theorem alone_prisma {c : PrismaCall} {a : Api.Answer (.prisma c)}
    (h : alone i (.prisma c) w a w') : ∃ id rows, (c.drawsId = true → w.Fresh id) ∧
      (∀ v db, c.perform w.now id rows w.db = (.ok v, db) →
        a = .ok v ∧ w'.db = db ∧ w'.channel = w.channel) ∧
      ∀ e db, c.perform w.now id rows w.db = (.error e, db) → a = .error (.prisma e) ∧ w' = w := by
  obtain ⟨ch, -, hx⟩ := alone_iff.mp h
  simp only [Call.exec, PrismaCall.exec] at hx
  split at hx
  · rename_i hallow
    refine ⟨ch.uuid, ch.rows, hallow.1, fun v db hperf => ?_, fun e db hperf => ?_⟩
    · rw [hperf] at hx
      cases hx
      exact ⟨rfl, rfl, rfl⟩
    · rw [hperf] at hx
      cases hx
      exact ⟨rfl, rfl⟩
  · cases hx

theorem alone_storage {c : StorageCall} {a : Api.Answer (.storage c)}
    (h : alone i (.storage c) w a w') :
    ∃ text, a = .ok (c.perform text w.storage).1 ∧
      w' = { w with storage := (c.perform text w.storage).2 } := by
  obtain ⟨ch, -, hx⟩ := alone_iff.mp h
  cases hx
  exact ⟨ch.text, rfl, rfl⟩

theorem alone_publish {event : CvUploadedEvent} {a : Api.Answer (.publish event)}
    (hready : w.channel.any (fun chan => !chan.full) = true) (h : alone i (.publish event) w a w') :
    a = .ok (some true) ∧ w'.db = w.db := by
  obtain ⟨ch, -, hx⟩ := alone_iff.mp h
  obtain ⟨chan, hchan, hfull⟩ := (Option.any_eq_true _ _).mp hready
  simp only [Call.exec, hchan] at hx
  cases hx
  exact ⟨by rw [hfull], rfl⟩

theorem alone_wf {c : Call} {a : Api.Answer c} (h : alone i c w a w') (hw : w.Wf) : w'.Wf := by
  obtain ⟨ch, -, hx⟩ := h
  exact wf_exec hx hw

end Calls

/-! ## The first steps -/

/-- What holds when a submission has passed the duplicate check with candidate `c`. -/
structure Prepared (w w₁ : World) (user : User) (jobId : String) (c : Candidate) : Prop where
  wf : w₁.Wf
  channel : w₁.channel = w.channel
  job : w₁.db.jobs.HasKey jobId
  candidate : c ∈ w₁.db.candidates.rows
  email : c.email = user.email
  applications : w₁.db.applications = w.db.applications
  taken : (∃ a ∈ w.db.applications.rows, a.pair = (jobId, c.id)) ↔ w.db.HasWithdrawn user jobId
  deleted : ∀ a ∈ w.db.applications.rows, a.pair = (jobId, c.id) → a.deletedAt ≠ none

section Steps

variable {i : ℕ} {w w₁ w' : World} {user : User} {jobId : String} {c : Candidate} {α : Type}

theorem Prepared.mono {w₂ : World} (h : Prepared w w₁ user jobId c) (hwf : w₂.Wf)
    (hdb : w₂.db = w₁.db) (hchannel : w₂.channel = w₁.channel) : Prepared w w₂ user jobId c where
  wf := hwf
  channel := hchannel.trans h.channel
  job := by rw [hdb]; exact h.job
  candidate := by rw [hdb]; exact h.candidate
  email := h.email
  applications := by rw [hdb]; exact h.applications
  taken := h.taken
  deleted := h.deleted

theorem finishes_jobFindUnique (id : String) (o : Except Exception (Option Job)) (w' : World) :
    Finishes (alone i) (prisma (.jobFindUnique id)) w o w' ↔ o = .ok (w.db.jobs.find? id) ∧ w' = w :=
  finishes_query (c := .jobFindUnique id) (fun _ _ => rfl) rfl ⟨rfl, rfl⟩ o w'

theorem finishes_applicationFindFirst (jobId candidateId : String)
    (o : Except Exception (Option Application)) (w' : World) :
    Finishes (alone i) (prisma (.applicationFindFirst jobId candidateId)) w o w' ↔
      o = .ok (w.db.applications.rows.find? fun a =>
        decide (a.jobId = jobId ∧ a.candidateId = candidateId ∧ a.deletedAt = none)) ∧ w' = w :=
  finishes_query (c := .applicationFindFirst jobId candidateId) (fun _ _ => rfl) rfl ⟨rfl, rfl⟩ o w'

theorem finishes_findOpenJob {job : Job} (hfind : w.db.jobs.find? jobId = some job)
    (hopen : job.status = .open) (hlive : job.deletedAt = none) (o : Except Exception Job)
    (w' : World) : Finishes (alone i) (ApplicationsService.findOpenJobOrThrow jobId) w o w' ↔
      o = .ok job ∧ w' = w := by
  unfold ApplicationsService.findOpenJobOrThrow
  rw [finishes_bind_ok (finishes_jobFindUnique jobId), hfind]
  have hfilter : (some job).filter (fun job => job.deletedAt.isNone) = some job := by
    rw [Option.filter_some, hlive]
    rfl
  simp only [hfilter, hopen, ne_eq, not_true_eq_false, if_false]
  exact finishes_pure

theorem storable_of_user (huser : w.db.users.find? user.id = some user) :
    ({ email := user.email, fullName := user.fullName } : CandidateCreate).isStorable = true := by
  have htext := w.db.users_text user (Table.find?_eq_some.mp huser).1
  simp only [User.isStorable, Bool.and_eq_true] at htext
  simp [CandidateCreate.isStorable, htext]

/-- The user has a candidate: an application of the candidate to the job is a withdrawn one. -/
theorem prepared_found (hw : w.Wf) (hjob : w.db.jobs.HasKey jobId)
    (hnew : w.db.NoLiveApplication user jobId)
    (hfind : w.db.findCandidate (.email user.email) = some c) : Prepared w w user jobId c := by
  obtain ⟨hc, hemail⟩ := Table.findUnique?_eq_some.mp hfind
  have hby : ∀ a : Application, a.pair = (jobId, c.id) → w.db.IsBy user jobId a :=
    fun a hpair => ⟨(Prod.mk.inj hpair).1, c, hc, (Prod.mk.inj hpair).2, hemail⟩
  refine ⟨hw, rfl, hjob, hc, hemail, rfl, ?_, fun a ha hpair => hnew a ha (hby a hpair)⟩
  constructor
  · rintro ⟨a, ha, hpair⟩
    exact ⟨a, ha, hby a hpair, hnew a ha (hby a hpair)⟩
  · rintro ⟨a, ha, ⟨hajob, c', hc', hacand, hemail'⟩, -⟩
    obtain rfl := w.db.candidates.ukey_inj hc hc' (hemail.trans hemail'.symm)
    exact ⟨a, ha, by rw [Application.pair, hajob, hacand]⟩

theorem prepared_created (hw : w.Wf) (huser : w.db.users.find? user.id = some user)
    (hjob : w.db.jobs.HasKey jobId)
    (hfind : w.db.findCandidate (.email user.email) = none) {r : Api.Answer _}
    (h : alone i (.prisma (.candidateCreate
      { email := user.email, fullName := user.fullName })) w r w') :
    ∃ c, r = .ok c ∧ Prepared w w' user jobId c := by
  have hwf := alone_wf h hw
  have hfree : ∀ x ∈ w.db.candidates.rows, x.email ≠ user.email := by
    intro x hx hemail
    have hsome := Table.findUnique?_eq_some.mpr ⟨hx, hemail⟩
    rw [show w.db.candidates.findUnique? user.email = none from hfind] at hsome
    cases hsome
  obtain ⟨id, rows, hfresh, hok, -⟩ := alone_prisma h
  have hid := hfresh rfl
  obtain ⟨db, hperf⟩ := @PrismaCall.candidateCreate_succeeds w.now id rows w.db
    { email := user.email, fullName := user.fullName } (storable_of_user huser)
    fun x hx => ⟨fun heq => hid.2 (heq ▸ hw.candidates x hx), hfree x hx⟩
  obtain ⟨rfl, rfl, hchannel⟩ := hok _ _ hperf
  have hframe := PrismaCall.perform_frame hperf
  obtain ⟨hins, -⟩ := Db.insertCandidate_eq_some (PrismaCall.perform_candidateCreate hperf).2
  have hnone : ∀ a ∈ w.db.applications.rows, a.pair ≠ (jobId, id) := by
    intro a ha hpair
    obtain ⟨x, hx, hxid⟩ := w.db.applications_candidate_id_fkey a ha
    have hid' : x.id = id := hxid.trans (congrArg Prod.snd hpair)
    exact hid.2 (hid' ▸ hw.candidates x hx)
  refine ⟨_, rfl, hwf, hchannel, ?_, ?_, rfl, ?_, ?_, fun a ha hpair => absurd hpair (hnone a ha)⟩
  · rw [hframe.jobs (by simp)]
    exact hjob
  · exact (Table.mem_insert hins).mpr (.inr rfl)
  · exact hframe.applications (by simp) (by simp) (by simp) (by simp)
  refine iff_of_false ?_ ?_
  · rintro ⟨a, ha, hpair⟩
    exact hnone a ha hpair
  · rintro ⟨a, ha, ⟨-, c, hc, -, hemail⟩, -⟩
    exact hfree c hc hemail

theorem finishes_findOrCreateCandidate (hw : w.Wf) (huser : w.db.users.find? user.id = some user)
    (hjob : w.db.jobs.HasKey jobId) (hnew : w.db.NoLiveApplication user jobId)
    {o : Except Exception Candidate}
    (h : Finishes (alone i) (ApplicationsService.findOrCreateCandidateOrThrow user.id) w o w') :
    ∃ c, o = .ok c ∧ Prepared w w' user jobId c := by
  unfold ApplicationsService.findOrCreateCandidateOrThrow at h
  rw [finishes_bind_ok (finishes_userFindUnique (.id user.id))] at h
  have hfound : w.db.findUser (.id user.id) = some user := huser
  simp only [hfound] at h
  rw [finishes_bind_ok (finishes_candidateFindUnique (.email user.email))] at h
  cases hfind : w.db.findCandidate (.email user.email) with
  | some c =>
    simp only [hfind] at h
    obtain ⟨rfl, rfl⟩ := finishes_pure.mp h
    exact ⟨c, rfl, prepared_found hw hjob hnew hfind⟩
  | none =>
    simp only [hfind] at h
    exact prepared_created hw huser hjob hfind (finishes_await.mp h)

theorem submit_prepares (hw : w.Wf) (huser : w.db.users.find? user.id = some user)
    (hopen : JobOpen w.db jobId) (hnew : w.db.NoLiveApplication user jobId)
    {f : Candidate → Prog Api α} {o : Except Exception α} (h : Finishes (alone i) (do
      let _job ← ApplicationsService.findOpenJobOrThrow jobId
      let candidate ← ApplicationsService.findOrCreateCandidateOrThrow user.id
      ApplicationsService.ensureNoDuplicateApplication jobId candidate.id
      f candidate) w o w') :
    ∃ c w₁, Finishes (alone i) (ApplicationsService.findOrCreateCandidateOrThrow user.id) w (.ok c)
        w₁ ∧ Prepared w w₁ user jobId c ∧ Finishes (alone i) (f c) w₁ o w' := by
  obtain ⟨job, hfind, hstatus, hlive⟩ := hopen
  have hjob : w.db.jobs.HasKey jobId := ⟨job, Table.find?_eq_some.mp hfind⟩
  rw [finishes_bind_ok (finishes_findOpenJob hfind hstatus hlive)] at h
  obtain ⟨c, w₁, hcand, h⟩ | ⟨e, hcand, -⟩ := finishes_bind.mp h
  · obtain ⟨c', hc', hready⟩ := finishes_findOrCreateCandidate hw huser hjob hnew hcand
    cases hc'
    refine ⟨c, w₁, hcand, hready, ?_⟩
    unfold ApplicationsService.ensureNoDuplicateApplication at h
    rw [bind_assoc, finishes_bind_ok (finishes_applicationFindFirst jobId c.id)] at h
    have hnone : w₁.db.applications.rows.find? (fun a =>
        decide (a.jobId = jobId ∧ a.candidateId = c.id ∧ a.deletedAt = none)) = none := by
      rw [List.find?_eq_none]
      intro a ha hcond
      obtain ⟨hajob, hacand, halive⟩ := of_decide_eq_true hcond
      rw [hready.applications] at ha
      exact hready.deleted a ha (by rw [Application.pair, hajob, hacand]) halive
    rw [hnone] at h
    exact h
  · obtain ⟨c', hc', -⟩ := finishes_findOrCreateCandidate hw huser hjob hnew hcand
    cases hc'

/-! ## The insertion -/

/-- The insertion meets an application that is there, or a text that cannot be stored, or there is
one more. -/
theorem applicationCreate_iff (hready : Prepared w w₁ user jobId c) {d : ApplicationCreate}
    (hjob : d.jobId = jobId) (hcand : d.candidateId = c.id) {r : Api.Answer _}
    (h : alone i (.prisma (.applicationCreate d)) w₁ r w') :
    (¬ (¬ w.db.HasWithdrawn user jobId ∧ d.isStorable = true) ∧
        (∃ e, r = .error (.prisma e)) ∧ w' = w₁) ∨
      ((¬ w.db.HasWithdrawn user jobId ∧ d.isStorable = true) ∧ (∃ a, r = .ok a) ∧
        Inserted w w' user jobId ∧ w'.channel = w.channel) := by
  obtain ⟨id, rows, hfresh, hok, herror⟩ := alone_prisma h
  by_cases hstorable : d.isStorable = true
  swap
  · have hperf : (PrismaCall.applicationCreate d).perform w₁.now id rows w₁.db =
        (.error .invalidValue, w₁.db) := by
      simp only [PrismaCall.perform, if_neg hstorable]
    obtain ⟨hr, hw⟩ := herror _ _ hperf
    exact .inl ⟨fun h => hstorable h.2, ⟨_, hr⟩, hw⟩
  have hid := hfresh rfl
  have hjob' : w₁.db.jobs.HasKey d.jobId := hjob ▸ hready.job
  have hcand' : w₁.db.candidates.HasKey d.candidateId := ⟨c, hready.candidate, hcand.symm⟩
  by_cases htaken : ∃ a ∈ w.db.applications.rows, a.pair = (jobId, c.id)
  · left
    refine ⟨fun h => h.1 (hready.taken.mp htaken), ?_⟩
    obtain ⟨a, ha, hpair⟩ := htaken
    have hins : w₁.db.insertApplication (d.row id w₁.now) hjob' hcand' = none := by
      refine Db.insertApplication_eq_none.mpr (Table.insert?_eq_none.mpr ⟨a, ?_, .inr ?_⟩)
      · rw [hready.applications]
        exact ha
      · rw [hpair, ← hjob, ← hcand]
        rfl
    have hperf : (PrismaCall.applicationCreate d).perform w₁.now id rows w₁.db =
        (.error .uniqueConstraint, w₁.db) := by
      simp only [PrismaCall.perform, if_pos hstorable, dif_pos hjob', dif_pos hcand', hins]
    obtain ⟨hr, hw⟩ := herror _ _ hperf
    exact ⟨⟨_, hr⟩, hw⟩
  · right
    refine ⟨⟨fun hwithdrawn => htaken (hready.taken.mpr hwithdrawn), hstorable⟩, ?_⟩
    have hfree : ∀ a ∈ w₁.db.applications.rows, a.id ≠ id ∧ a.pair ≠ (d.jobId, d.candidateId) := by
      intro a ha
      refine ⟨fun h => hid.2 (h ▸ hready.wf.applications a ha), fun hpair => htaken ⟨a, ?_, ?_⟩⟩
      · rwa [← hready.applications]
      · rw [hpair, hjob, hcand]
    obtain ⟨db, hperf⟩ := @PrismaCall.applicationCreate_succeeds w₁.now id rows w₁.db d hstorable
      hjob' hcand' hfree
    obtain ⟨rfl, rfl, hchannel⟩ := hok _ _ hperf
    obtain ⟨-, -, -, hins, -, -, hcands⟩ := PrismaCall.perform_applicationCreate hperf
    refine ⟨⟨_, rfl⟩, ⟨d.row id w₁.now, ?_, ?_, ⟨hjob, c, ?_, hcand, hready.email⟩, rfl⟩,
      hchannel.trans hready.channel⟩
    · exact (Table.mem_insert hins).mpr (.inr rfl)
    · intro hmem
      rw [← hready.applications] at hmem
      exact (hfree _ hmem).1 rfl
    · rw [hcands]
      exact hready.candidate

/-! ## What surrounds the insertion of `createWithCv` -/

theorem isText_cvFileKey {uuid name : String} (huuid : isText uuid = true) :
    isText (cvFileKey uuid (safeExtension name)) = true := by
  have hextension : ∀ x ∈ ALLOWED_EXTENSIONS, isText x = true := by decide
  have hname : isText (safeExtension name) = true := hextension _ (safeExtension_allowed name)
  simp only [cvFileKey, isText_append, huuid, hname, Bool.and_true]
  decide

theorem finishes_uploadCv {file : UploadedFile} {o : Except Exception (String × String)}
    (hready : Prepared w w₁ user jobId c)
    (h : Finishes (alone i) (ApplicationsService.uploadCvOrThrow file) w₁ o w') :
    (∃ fileKey url, o = .ok (fileKey, url) ∧ isText fileKey = true ∧ isText url = true) ∧
      Prepared w w' user jobId c := by
  unfold ApplicationsService.uploadCvOrThrow generateCvFileKey at h
  rw [bind_assoc] at h
  obtain ⟨uuid, w₂, huuid, h⟩ | ⟨e, huuid, -⟩ := finishes_bind.mp h
  · have hdrawn := alone_wf (finishes_await.mp huuid) hready.wf
    obtain ⟨u, hfresh, hu, rfl⟩ := (finishes_randomUUID _ _).mp huuid
    cases hu
    rw [pure_bind] at h
    have hstored : ∀ {o : Except Exception UploadResult} {w₃ : World},
        Finishes (alone i) (storage (.upload file.buffer
          (cvFileKey uuid (safeExtension file.originalname)) file.mimetype))
          { w₁ with drawn := w₁.drawn ++ [(i, uuid)] } o w₃ →
        (∃ result, o = .ok result ∧ isText result.url = true) ∧ Prepared w w₃ user jobId c := by
      intro o w₃ hupload
      have hcall := finishes_await.mp hupload
      have hwf := alone_wf hcall hdrawn
      obtain ⟨text, rfl, rfl⟩ := alone_storage hcall
      exact ⟨⟨_, rfl, Storage.isText_buildFileUrl _ (isText_cvFileKey hfresh.1.2)⟩,
        hready.mono hwf rfl rfl⟩
    obtain ⟨stored, hbody, rfl⟩ | ⟨e, w₃, hbody, -⟩ := finishes_tryCatch.mp h
    · obtain ⟨result, w₃, hupload, hresult, rfl⟩ | ⟨e, -, he⟩ := finishes_bind.mp hbody
      · cases hresult
        obtain ⟨⟨result', hok, hurl⟩, hprepared⟩ := hstored hupload
        cases hok
        exact ⟨⟨_, _, rfl, isText_cvFileKey hfresh.1.2, hurl⟩, hprepared⟩
      · cases he
    · obtain ⟨result, w₄, -, he, -⟩ | ⟨e', hupload, -⟩ := finishes_bind.mp hbody
      · cases he
      · obtain ⟨result, hresult, -⟩ := (hstored hupload).1
        cases hresult
  · obtain ⟨u, -, hu, -⟩ := (finishes_randomUUID _ _).mp huuid
    cases hu

theorem finishes_publishApplication {candidateId applicationId jobId fileKey mimeType : String}
    {o : Except Exception Unit} (hchannel : w.channel.any (fun chan => !chan.full) = true)
    (h : Finishes (alone i) (ApplicationsService.publishApplication candidateId applicationId jobId
      fileKey mimeType) w o w') : o = .ok () ∧ w'.db = w.db := by
  unfold ApplicationsService.publishApplication QueueService.publishCvUploaded at h
  obtain ⟨bucket, w₁, hbucket, h⟩ | ⟨e, hbucket, -⟩ := finishes_bind.mp h
  · obtain ⟨text, -, rfl⟩ := alone_storage (finishes_await.mp hbucket)
    rw [finishes_bind_ok finishes_dateNow] at h
    obtain ⟨published, w₂, hpublish, h⟩ | ⟨e, hpublish, -⟩ := finishes_bind.mp h
    · obtain ⟨hpublished, hdb⟩ := alone_publish hchannel (finishes_await.mp hpublish)
      cases hpublished
      obtain ⟨rfl, rfl⟩ := finishes_pure.mp h
      exact ⟨rfl, hdb⟩
    · cases (alone_publish hchannel (finishes_await.mp hpublish)).1
  · obtain ⟨text, hbad, -⟩ := alone_storage (finishes_await.mp hbucket)
    cases hbad

theorem finishes_buildUploadResponse {applicationId fileKey uploadUrl : String}
    {o : Except Exception UploadCvResponseDto}
    (h : Finishes (alone i) (ApplicationsService.buildUploadResponse applicationId fileKey uploadUrl)
      w o w') : (∃ response, o = .ok response) ∧ w'.db = w.db := by
  unfold ApplicationsService.buildUploadResponse at h
  have hlink : ∀ {o : Except Exception String} {w₁ : World},
      Finishes (alone i) (storage (.getSignedUrl fileKey)) w o w₁ →
      (∃ url, o = .ok url) ∧ w₁.db = w.db := by
    intro o w₁ hurl
    obtain ⟨text, rfl, rfl⟩ := alone_storage (finishes_await.mp hurl)
    exact ⟨⟨_, rfl⟩, rfl⟩
  have hcaught : ∀ {o : Except Exception (Option String)} {w₁ : World},
      Finishes (alone i) (tryCatch (do
          let url ← storage (.getSignedUrl fileKey)
          return some url) fun _ => pure none) w o w₁ →
      (∃ url, o = .ok url) ∧ w₁.db = w.db := by
    intro o w₁ hfin
    obtain ⟨url, hurl, rfl⟩ | ⟨e, w₂, herr, -⟩ := finishes_tryCatch.mp hfin
    · obtain ⟨link, w₂, hget, -, rfl⟩ | ⟨e, -, he⟩ := finishes_bind.mp hurl
      · exact ⟨⟨_, rfl⟩, (hlink hget).2⟩
      · cases he
    · obtain ⟨link, w₃, -, he, -⟩ | ⟨e', hget, -⟩ := finishes_bind.mp herr
      · cases he
      · obtain ⟨url, hurl⟩ := (hlink hget).1
        cases hurl
  obtain ⟨url, w₁, hurl, rfl, rfl⟩ | ⟨e, herr, -⟩ := finishes_bind.mp h
  · exact ⟨⟨_, rfl⟩, (hcaught hurl).2⟩
  · obtain ⟨url, hbad⟩ := (hcaught herr).1
    cases hbad

/-! ## Submissions -/

theorem upload_prepares {file : UploadedFile} {f : String × String → Prog Api α}
    {o : Except Exception α} (hready : Prepared w w₁ user jobId c)
    (h : Finishes (alone i) (ApplicationsService.uploadCvOrThrow file >>= f) w₁ o w') :
    ∃ fileKey uploadUrl w₂, Finishes (alone i) (ApplicationsService.uploadCvOrThrow file) w₁
        (.ok (fileKey, uploadUrl)) w₂ ∧
      (storable (some fileKey) = true ∧ storable (some uploadUrl) = true) ∧
      Prepared w w₂ user jobId c ∧ Finishes (alone i) (f (fileKey, uploadUrl)) w₂ o w' := by
  obtain ⟨⟨fileKey, uploadUrl⟩, w₂, hupload, hrest⟩ | ⟨e, hupload, -⟩ := finishes_bind.mp h
  · obtain ⟨⟨_, _, hok, htexts⟩, hprepared⟩ := finishes_uploadCv hready hupload
    cases hok
    exact ⟨fileKey, uploadUrl, w₂, hupload, htexts, hprepared, hrest⟩
  · obtain ⟨_, _, hbad, -⟩ := (finishes_uploadCv hready hupload).1
    cases hbad

/-- Beside the letter, a submission writes texts of the gateway's own. -/
theorem ApplicationCreate.isStorable_eq {d : ApplicationCreate} (hkey : storable d.cvFileKey = true)
    (hurl : storable d.cvFileUrl = true) : d.isStorable = storable d.coverLetter := by
  simp only [ApplicationCreate.isStorable, hkey, hurl, Bool.and_true]

/-- With nothing in the way of the insertion the CV is handed over; else its upload is undone. -/
theorem finishes_createWithCv {file : UploadedFile} {dto : UploadCvDto} (hw : w.Wf)
    (huser : w.db.users.find? user.id = some user) (hopen : JobOpen w.db dto.jobId)
    (hnew : w.db.NoLiveApplication user dto.jobId)
    (hchannel : w.channel.any (fun chan => !chan.full) = true)
    {o : Except Exception UploadCvResponseDto}
    (h : Finishes (alone i) (ApplicationsService.createWithCv user.id file dto) w o w') :
    (∃ response, o = .ok response) ∧ Inserted w w' user dto.jobId ↔
      ¬ w.db.HasWithdrawn user dto.jobId ∧ storable dto.coverLetter = true := by
  obtain ⟨c, w₁, -, hready, hprepared⟩ := submit_prepares hw huser hopen hnew h
  obtain ⟨fileKey, uploadUrl, w₂, -, ⟨hkey, hurl⟩, hready₂, hstored⟩ :=
    upload_prepares hready hprepared
  obtain ⟨r, w₃, hcreate, hcreated⟩ := finishes_bind_attempt.mp hstored
  obtain ⟨hrefused, ⟨e, rfl⟩, rfl⟩ | ⟨hfree, ⟨a, rfl⟩, hinserted, hchannel₃⟩ :=
    applicationCreate_iff hready₂ rfl rfl (finishes_await.mp hcreate)
  · rw [ApplicationCreate.isStorable_eq hkey hurl] at hrefused
    refine iff_of_false ?_ hrefused
    rintro ⟨⟨response, rfl⟩, -⟩
    obtain ⟨u, w₄, -, hthrow, -⟩ | ⟨e, -, he⟩ := finishes_bind.mp hcreated
    · cases hthrow
    · cases he
  · rw [ApplicationCreate.isStorable_eq hkey hurl] at hfree
    refine iff_of_true ?_ hfree
    rw [← hchannel₃] at hchannel
    obtain ⟨r, w₄, hpublish, hhanded⟩ := finishes_bind_attempt.mp hcreated
    obtain ⟨rfl, hdb₄⟩ := finishes_publishApplication hchannel hpublish
    obtain ⟨hresponse, hdb⟩ := finishes_buildUploadResponse hhanded
    refine ⟨hresponse, ?_⟩
    unfold Inserted
    rw [hdb, hdb₄]
    exact hinserted

theorem finishes_create {dto : CreateApplicationDto} (hw : w.Wf)
    (huser : w.db.users.find? user.id = some user) (hopen : JobOpen w.db dto.jobId)
    (hnew : w.db.NoLiveApplication user dto.jobId) {o : Except Exception Application}
    (h : Finishes (alone i) (ApplicationsService.create user.id dto) w o w') :
    (∃ a, o = .ok a) ∧ Inserted w w' user dto.jobId ↔ ¬ w.db.HasWithdrawn user dto.jobId ∧
      (storable dto.coverLetter && storable dto.cvFileKey && storable dto.cvFileUrl) = true := by
  obtain ⟨c, w₁, -, hready, h⟩ := submit_prepares hw huser hopen hnew h
  obtain ⟨hrefused, ⟨e, rfl⟩, rfl⟩ | ⟨hfree, ha, hinserted, -⟩ :=
    applicationCreate_iff hready rfl rfl (finishes_await.mp h)
  · refine iff_of_false ?_ hrefused
    rintro ⟨⟨a, ha⟩, -⟩
    cases ha
  · exact iff_of_true ⟨ha, hinserted⟩ hfree

end Steps

/-- Ray applies to the backend job, withdraws, and then applies again, without or with a CV. -/
def raysRequests : ℕ → Request
  | 0 => .createApplication "u-ray" { jobId := "j-backend" }
  | 1 => .removeApplication "a-ray" "u-ray" "RECRUITER"
  | 2 => .createApplication "u-ray" { jobId := "j-backend" }
  | _ => .createApplicationWithCv "u-ray"
    { originalname := "cv.pdf", mimetype := "application/pdf", buffer := [] }
    { jobId := "j-backend" }

def untilWithdrawn : List (Label ℕ Choice Move) :=
  List.replicate 3 (.run 0 {}) ++ .run 0 { uuid := "c-ray" } :: .run 0 {} ::
    .run 0 { uuid := "a-ray" } :: List.replicate 7 (.run 1 {})

/-- The second submission of each kind, run alone. -/
def submitAgain (i : ℕ) : List (Label ℕ Choice Move) :=
  if i = 2 then List.replicate 4 (.run 2 {}) ++ [.run 2 { uuid := "a-ray-2" }]
  else List.replicate 4 (.run 3 {}) ++ .run 3 { uuid := "f-ray" } :: .run 3 {} ::
    .run 3 { uuid := "a-ray-2" } :: [.run 3 {}]

end TalentFlow
