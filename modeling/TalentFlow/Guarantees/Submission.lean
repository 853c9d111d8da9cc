import TalentFlow.Gateway.WellFormed

/-!
# Guarantees.Submission

Applying to jobs. A submission looks for the candidate of its user and creates it if there is none,
then looks for an application to its job and creates one if there is none. Both pairs of steps can
be interleaved with those of another submission of the same user; the insertion that comes second
breaks a unique constraint, and the submission fails with an internal error.

* `submitInv_call`: what one step of a submission does, if its insertions meet no row.
* `submissions_settled`: in such runs one submission for each job wins and the others get a 409.
* `submission_internal_error`: two submissions to one job, one of which ends with a 500.
-/

namespace TalentFlow

open Data Async

/-! ## The stages of a submission -/

def Request.jobId : Request → Option String
  | .createApplication _ dto => some dto.jobId
  | .createApplicationWithCv _ _ dto => some dto.jobId
  | _ => none

def Request.SubmittedBy (userId : String) : Request → Prop
  | .createApplication id _ => id = userId
  | .createApplicationWithCv id _ _ => id = userId
  | _ => False

inductive SubmitStage where
  | start
  /-- it has found or created the candidate -/
  | candidate (id : String)
  /-- it has created its application -/
  | inserted
  /-- it has found that there is an application already -/
  | refused

namespace SubmitStage

def next : SubmitStage → Event Api → SubmitStage
  | start, ⟨.prisma (.candidateFindUnique _), .ok (some c)⟩ => candidate c.id
  | start, ⟨.prisma (.candidateCreate _), .ok c⟩ => candidate c.id
  | candidate _, ⟨.prisma (.applicationFindFirst _ _), .ok (some _)⟩ => refused
  | candidate _, ⟨.prisma (.applicationCreate _), .ok _⟩ => inserted
  | s, _ => s

/-- The database calls of a submission of `user`. -/
def Allows (r : Request) (user : User) (s : SubmitStage) : Call → Prop
  | .prisma (.jobFindUnique id) => r.jobId = some id
  | .prisma (.userFindUnique w) => w = .id user.id
  | .prisma (.candidateFindUnique w) => w = .email user.email ∧ s = start
  | .prisma (.candidateCreate d) => d.email = user.email ∧ s = start
  | .prisma (.applicationFindFirst jobId candidateId) =>
    r.jobId = some jobId ∧ s = candidate candidateId
  | .prisma (.applicationCreate d) => r.jobId = some d.jobId ∧ s = candidate d.candidateId
  | .prisma _ => False
  | _ => True

/-- Every call succeeds; the job is open and the user exists. -/
def Expects (user : User) : (c : Call) → Api.Answer c → Prop
  | .prisma (.jobFindUnique _), a =>
    ∃ job : Job, a = .ok (some job) ∧ job.status = .open ∧ job.deletedAt = none
  | .prisma (.userFindUnique _), a => a = .ok (some user)
  | .publish _, a => a = .ok (some true)
  | _, a => ∃ v, a = .ok v

theorem expects_ok {user : User} {c : Call} {a : Api.Answer c} (h : Expects user c a) :
    ∃ v, a = .ok v := by
  unfold Expects at h
  split at h
  · obtain ⟨job, rfl, -⟩ := h
    exact ⟨_, rfl⟩
  · exact ⟨_, h⟩
  · exact ⟨_, h⟩
  · exact h

end SubmitStage

def submitMonitor (user : User) (r : Request) : Monitor Api SubmitStage where
  next := SubmitStage.next
  call := SubmitStage.Allows r user
  answer _ := SubmitStage.Expects user

/-- What the application already there makes `ensureNoDuplicateApplication` throw. -/
def alreadyApplied : Exception := .conflict "You have already applied to this job"

/-- A submission that resolves has created its application; one that rejects was refused. -/
def SubmitEnds {α : Type} (o : Except Exception α) (s : SubmitStage) : Prop :=
  match o with
  | .ok _ => s = .inserted
  | .error e => e = alreadyApplied ∧ s = .refused

section Programs

variable {α : Type} {user : User} {r : Request} {post : Except Exception α → SubmitStage → Prop}

theorem submit_await {c : Call} {s : SubmitStage} {f : c.Value → Prog Api α}
    (hc : SubmitStage.Allows r user s c)
    (hok : ∀ a : c.Value, SubmitStage.Expects user c (.ok a) →
      Obeys (submitMonitor user r) post (f a) (SubmitStage.next s ⟨c, .ok a⟩)) :
    Obeys (submitMonitor user r) post (Prog.await (I := Api) c >>= f) s := by
  refine obeys_await hc hok fun e he => ?_
  obtain ⟨v, hv⟩ := SubmitStage.expects_ok he
  cases hv

theorem submit_await_last {c : Call} {s : SubmitStage} {post : Except Exception c.Value →
    SubmitStage → Prop} (hc : SubmitStage.Allows r user s c)
    (hok : ∀ a : c.Value, post (.ok a) (SubmitStage.next s ⟨c, .ok a⟩)) :
    Obeys (submitMonitor user r) post (Prog.await (I := Api) c) s := by
  refine obeys_await_last hc fun a ha => ?_
  obtain ⟨v, rfl⟩ := SubmitStage.expects_ok ha
  exact hok v

theorem submit_begins {jobId : String} (hjob : r.jobId = some jobId) {f : Candidate → Prog Api α}
    (hrefused : post (.error alreadyApplied) .refused)
    (hf : ∀ c : Candidate, Obeys (submitMonitor user r) post (f c) (.candidate c.id)) :
    Obeys (submitMonitor user r) post (do
      let _job ← ApplicationsService.findOpenJobOrThrow jobId
      let candidate ← ApplicationsService.findOrCreateCandidateOrThrow user.id
      ApplicationsService.ensureNoDuplicateApplication jobId candidate.id
      f candidate) .start := by
  have hcheck : ∀ c : Candidate, Obeys (submitMonitor user r) post (do
      ApplicationsService.ensureNoDuplicateApplication jobId c.id
      f c) (.candidate c.id) := by
    intro c
    refine obeys_bind (submit_await ⟨hjob, rfl⟩ fun existing _ => ?_)
    cases existing with
    | none => exact hf c
    | some a => exact hrefused
  refine obeys_bind (submit_await hjob fun found hfound => ?_)
  obtain ⟨job, hok, hopen, hlive⟩ := hfound
  cases hok
  simp only [Option.filter, hlive, Option.isNone_none, if_true, hopen]
  change Obeys (submitMonitor user r) post (do
      let candidate ← ApplicationsService.findOrCreateCandidateOrThrow user.id
      ApplicationsService.ensureNoDuplicateApplication jobId candidate.id
      f candidate) SubmitStage.start
  refine obeys_bind (submit_await rfl fun found hfound => ?_)
  cases hfound
  refine submit_await ⟨rfl, rfl⟩ fun candidate _ => ?_
  cases candidate with
  | some c => exact hcheck c
  | none => exact submit_await_last ⟨rfl, rfl⟩ hcheck

theorem create_ends (user : User) (dto : CreateApplicationDto) :
    Obeys (submitMonitor user (.createApplication user.id dto)) SubmitEnds
      (Request.createApplication user.id dto).prog .start := by
  refine obeys_bind (submit_begins rfl ⟨rfl, rfl⟩ fun c => ?_)
  exact submit_await_last ⟨rfl, rfl⟩ fun _ => rfl

/-- As long as nothing fails, `createWithCv` does not come to its rollback. -/
theorem createWithCv_ends (user : User) (file : UploadedFile) (dto : UploadCvDto) :
    Obeys (submitMonitor user (.createApplicationWithCv user.id file dto)) SubmitEnds
      (Request.createApplicationWithCv user.id file dto).prog .start := by
  refine obeys_bind (submit_begins rfl ⟨rfl, rfl⟩ fun c => ?_)
  refine obeys_bind (obeys_bind (submit_await trivial fun uuid _ => ?_))
  refine obeys_tryCatch (submit_await trivial fun uploaded _ => ?_)
  change Obeys _ _ (Prog.attempt _ >>= _) (SubmitStage.candidate c.id)
  refine obeys_attempt (submit_await_last ⟨rfl, rfl⟩ fun application => ?_)
  change Obeys _ _ (Prog.attempt _ >>= _) SubmitStage.inserted
  refine obeys_attempt (submit_await trivial fun bucket _ => ?_)
  refine submit_await trivial fun uploadedAt _ => ?_
  refine submit_await trivial fun published hpublished => ?_
  cases hpublished
  refine obeys_bind (obeys_tryCatch (submit_await trivial fun url _ => ?_))
  rfl

theorem submission_ends {user : User} {r : Request} (hr : r.SubmittedBy user.id) :
    Obeys (submitMonitor user r) SubmitEnds r.prog .start := by
  cases r with
  | createApplication id dto =>
    cases hr
    exact create_ends user dto
  | createApplicationWithCv id file dto =>
    cases hr
    exact createWithCv_ends user file dto
  | _ => exact hr.elim

end Programs

/-! ## What the submissions of a user keep -/

/-- The channel takes the message, if the call publishes one. -/
def ChannelReady (w : World) : Call → Prop
  | .publish _ => w.channel.any (fun chan => !chan.full) = true
  | _ => True

/-- The row that the call inserts, if it inserts one, can be stored, and no row has its unique
key. -/
def Insertable (db : Db) : Call → Prop
  | .prisma (.candidateCreate d) =>
    d.isStorable = true ∧ ∀ x ∈ db.candidates.rows, x.email ≠ d.email
  | .prisma (.applicationCreate d) =>
    d.isStorable = true ∧ ∀ a ∈ db.applications.rows, a.pair ≠ (d.jobId, d.candidateId)
  | _ => True

instance (w : World) (c : Call) : Decidable (ChannelReady w c) := by
  unfold ChannelReady
  split <;> infer_instance

instance (db : Db) (c : Call) : Decidable (Insertable db c) := by
  unfold Insertable
  split <;> infer_instance

/-- Nothing outside the database disturbs the step: its call does not fail, and a message is taken
by the channel. -/
def Undisturbed (cfg : Config Api ℕ World Response) : Label ℕ Choice Move → Prop
  | .run i ch => ch.fails = false ∧ ∀ c ∈ (cfg.pool i).next?, ChannelReady cfg.world c
  | .move _ => True

/-- What this step inserts can be stored and meets no row with its unique key. -/
def NoCollision (cfg : Config Api ℕ World Response) : Label ℕ Choice Move → Prop
  | .run i _ => ∀ c ∈ (cfg.pool i).next?, Insertable cfg.world.db c
  | .move _ => True

instance (cfg : Config Api ℕ World Response) (l : Label ℕ Choice Move) :
    Decidable (Undisturbed cfg l) := by
  unfold Undisturbed
  split <;> infer_instance

instance (cfg : Config Api ℕ World Response) (l : Label ℕ Choice Move) :
    Decidable (NoCollision cfg l) := by
  unfold NoCollision
  split <;> infer_instance

def JobOpen (db : Db) (id : String) : Prop :=
  ∃ job, db.jobs.find? id = some job ∧ job.status = .open ∧ job.deletedAt = none

structure SubmitInv (requests : ℕ → Request) (user : User) (w : World) (st : ℕ → SubmitStage) :
    Prop where
  wf : w.Wf
  account : w.db.users.find? user.id = some user
  jobs : ∀ i id, (requests i).jobId = some id → JobOpen w.db id
  candidate : ∀ i id, st i = .candidate id →
    ∃ c ∈ w.db.candidates.rows, c.id = id ∧ c.email = user.email
  inserted : ∀ i, st i = .inserted → ∃ a ∈ w.db.applications.rows, ∃ c ∈ w.db.candidates.rows,
    (requests i).jobId = some a.jobId ∧ a.candidateId = c.id ∧ c.email = user.email
  /-- the applications of the user's candidate were created by submissions -/
  owner : ∀ a ∈ w.db.applications.rows, ∀ c ∈ w.db.candidates.rows, a.candidateId = c.id →
    c.email = user.email → ∃ i, st i = .inserted ∧ (requests i).jobId = some a.jobId
  unique : ∀ i j, st i = .inserted → st j = .inserted → (requests i).jobId = (requests j).jobId →
    i = j
  refused : ∀ i, st i = .refused → ∃ j, st j = .inserted ∧ (requests i).jobId = (requests j).jobId

section Call

variable {requests : ℕ → Request} {user : User} {w w' : World} {st : ℕ → SubmitStage} {i : ℕ}
  {ch : Choice}

theorem submitInv_same (hinv : SubmitInv requests user w st) (hwf : w'.Wf) (hdb : w'.db = w.db) :
    SubmitInv requests user w' st := by
  refine ⟨hwf, ?_, ?_, ?_, ?_, ?_, hinv.unique, hinv.refused⟩ <;> rw [hdb]
  · exact hinv.account
  · exact hinv.jobs
  · exact hinv.candidate
  · exact hinv.inserted
  · exact hinv.owner

/-- The submission has found its candidate, or has created it. -/
theorem submitInv_candidate (hinv : SubmitInv requests user w st) (hwf : w'.Wf)
    (hs : st i = .start) {c : Candidate} (hc : c ∈ w'.db.candidates.rows)
    (hemail : c.email = user.email) (husers : w'.db.users = w.db.users)
    (hjobs : w'.db.jobs = w.db.jobs) (happs : w'.db.applications = w.db.applications)
    (hcands : ∀ x ∈ w.db.candidates.rows, x ∈ w'.db.candidates.rows) :
    SubmitInv requests user w' (Function.update st i (.candidate c.id)) := by
  have hold : ∀ {k}, Function.update st i (.candidate c.id) k = .inserted → st k = .inserted :=
    fun hk => of_update_eq hk (by simp)
  have hkeep : ∀ {k}, st k = .inserted →
      Function.update st i (.candidate c.id) k = .inserted :=
    fun hk => update_eq_of hk (by simp [hs])
  refine ⟨hwf, husers ▸ hinv.account, fun k id hk => ?_, fun k id hk => ?_, fun k hk => ?_,
    fun a ha x hx hax hxe => ?_, fun k j hk hj => hinv.unique k j (hold hk) (hold hj),
    fun k hk => ?_⟩
  · obtain ⟨job, hfind, hjob⟩ := hinv.jobs k id hk
    exact ⟨job, by rwa [hjobs], hjob⟩
  · by_cases hki : k = i
    · subst hki
      rw [Function.update_self] at hk
      cases hk
      exact ⟨c, hc, rfl, hemail⟩
    · rw [Function.update_of_ne hki] at hk
      obtain ⟨x, hx, hid⟩ := hinv.candidate k id hk
      exact ⟨x, hcands x hx, hid⟩
  · obtain ⟨a, ha, x, hx, hrest⟩ := hinv.inserted k (hold hk)
    exact ⟨a, happs ▸ ha, x, hcands x hx, hrest⟩
  · -- the candidate of an application is one that was there before
    rw [happs] at ha
    obtain ⟨x₀, hx₀, hid⟩ := w.db.applications_candidate_id_fkey a ha
    have hxx : x₀ = x := w'.db.candidates.key_inj (hcands x₀ hx₀) hx (hid.trans hax)
    subst hxx
    obtain ⟨k, hk, hjob⟩ := hinv.owner a ha x₀ hx₀ hax hxe
    exact ⟨k, hkeep hk, hjob⟩
  · obtain ⟨j, hj, hjob⟩ := hinv.refused k (of_update_eq hk (by simp))
    exact ⟨j, hkeep hj, hjob⟩

/-- The submission has found an application: another one has created it. -/
theorem submitInv_refused (hinv : SubmitInv requests user w st) {id : String}
    (hs : st i = .candidate id) {a : Application} (ha : a ∈ w.db.applications.rows)
    (hjob : (requests i).jobId = some a.jobId) (hcand : a.candidateId = id) :
    SubmitInv requests user w (Function.update st i .refused) := by
  have hold : ∀ {k}, Function.update st i .refused k = .inserted → st k = .inserted :=
    fun hk => of_update_eq hk (by simp)
  have hkeep : ∀ {k}, st k = .inserted → Function.update st i .refused k = .inserted :=
    fun hk => update_eq_of hk (by simp [hs])
  refine ⟨hinv.wf, hinv.account, hinv.jobs, fun k id' hk => ?_, fun k hk => ?_,
    fun a ha x hx hax hxe => ?_, fun k j hk hj => hinv.unique k j (hold hk) (hold hj),
    fun k hk => ?_⟩
  · exact hinv.candidate k id' (of_update_eq hk (by simp))
  · exact hinv.inserted k (hold hk)
  · obtain ⟨k, hk, hjob⟩ := hinv.owner a ha x hx hax hxe
    exact ⟨k, hkeep hk, hjob⟩
  · by_cases hki : k = i
    · subst hki
      obtain ⟨c, hc, hid, hemail⟩ := hinv.candidate k id hs
      obtain ⟨j, hj, hjj⟩ := hinv.owner a ha c hc (hcand.trans hid.symm) hemail
      exact ⟨j, hkeep hj, hjob.trans hjj.symm⟩
    · rw [Function.update_of_ne hki] at hk
      obtain ⟨j, hj, hjj⟩ := hinv.refused k hk
      exact ⟨j, hkeep hj, hjj⟩

/-- The submission has created its application: it is the first one for the job. -/
theorem submitInv_inserted (hinv : SubmitInv requests user w st) (hwf : w'.Wf) {id : String}
    (hs : st i = .candidate id) {a : Application} (hjob : (requests i).jobId = some a.jobId)
    (hcand : a.candidateId = id)
    (hfree : ∀ x ∈ w.db.applications.rows, x.pair ≠ (a.jobId, a.candidateId))
    (hrows : ∀ x, x ∈ w'.db.applications.rows ↔ x ∈ w.db.applications.rows ∨ x = a)
    (husers : w'.db.users = w.db.users) (hjobs : w'.db.jobs = w.db.jobs)
    (hcands : w'.db.candidates = w.db.candidates) :
    SubmitInv requests user w' (Function.update st i .inserted) := by
  obtain ⟨c, hc, hid, hemail⟩ := hinv.candidate i id hs
  have hkeep : ∀ {k}, st k = .inserted → Function.update st i .inserted k = .inserted :=
    fun hk => update_eq_of hk (by simp [hs])
  -- a submission for the same job that had inserted before would have left a row with this pair
  have hfirst : ∀ k, st k = .inserted → (requests k).jobId ≠ (requests i).jobId := by
    intro k hk hsame
    obtain ⟨x, hx, c', hc', hxjob, hxcand, hc'email⟩ := hinv.inserted k hk
    have hcc : c' = c := w.db.candidates.ukey_inj hc' hc (hc'email.trans hemail.symm)
    have hjobId : x.jobId = a.jobId := Option.some.inj (hxjob.symm.trans (hsame.trans hjob))
    have hcandId : x.candidateId = a.candidateId := by
      rw [hxcand, hcc, hid, hcand]
    exact hfree x hx (Prod.ext hjobId hcandId)
  refine ⟨hwf, husers ▸ hinv.account, fun k id hk => ?_, fun k id' hk => ?_, fun k hk => ?_,
    fun x hx y hy hxy hye => ?_, fun k j hk hj hjob' => ?_, fun k hk => ?_⟩
  · obtain ⟨job, hfind, hjob⟩ := hinv.jobs k id hk
    exact ⟨job, by rwa [hjobs], hjob⟩
  · rw [hcands]
    exact hinv.candidate k id' (of_update_eq hk (by simp))
  · rw [hcands]
    by_cases hki : k = i
    · subst hki
      exact ⟨a, (hrows a).mpr (.inr rfl), c, hc, hjob, hcand.trans hid.symm, hemail⟩
    · rw [Function.update_of_ne hki] at hk
      obtain ⟨x, hx, hrest⟩ := hinv.inserted k hk
      exact ⟨x, (hrows x).mpr (.inl hx), hrest⟩
  · rw [hcands] at hy
    rcases (hrows x).mp hx with hx | rfl
    · obtain ⟨k, hk, hk'⟩ := hinv.owner x hx y hy hxy hye
      exact ⟨k, hkeep hk, hk'⟩
    · exact ⟨i, Function.update_self .., hjob⟩
  · by_cases hki : k = i
    · by_cases hji : j = i
      · rw [hki, hji]
      · rw [Function.update_of_ne hji] at hj
        rw [hki] at hjob'
        exact absurd hjob'.symm (hfirst j hj)
    · rw [Function.update_of_ne hki] at hk
      by_cases hji : j = i
      · rw [hji] at hjob'
        exact absurd hjob' (hfirst k hk)
      · rw [Function.update_of_ne hji] at hj
        exact hinv.unique k j hk hj hjob'
  · obtain ⟨j, hj, hjj⟩ := hinv.refused k (of_update_eq hk (by simp))
    exact ⟨j, hkeep hj, hjj⟩

theorem exec_undisturbed {c : Call} {r : Api.Answer c} (hc : ∀ c', c ≠ .prisma c')
    (hok : ch.fails = false) (hchan : ChannelReady w c)
    (hx : gateway.exec i c ch w = some (r, w')) : SubmitStage.Expects user c r := by
  rw [exec_of_ok c hok] at hx
  cases c with
  | prisma c => exact absurd rfl (hc c)
  | publish event =>
    simp only [ChannelReady] at hchan
    cases hc : w.channel with
    | none =>
      rw [hc] at hchan
      cases hchan
    | some chan =>
      have hfull : chan.full = false := by simpa [hc] using hchan
      simp only [Call.exec, hc, hfull] at hx
      cases hx
      rfl
  | randomUUID =>
    simp only [Call.exec] at hx
    split at hx
    · cases hx
      exact ⟨_, rfl⟩
    · cases hx
  | bcryptHash plain =>
    simp only [Call.exec] at hx
    split at hx
    · cases hx
      exact ⟨_, rfl⟩
    · cases hx
  | _ =>
    cases hx
    exact ⟨_, rfl⟩

/-- The call is answered as a submission expects, and the invariant holds afterwards. -/
def Kept (requests : ℕ → Request) (user : User) (st : ℕ → SubmitStage) (i : ℕ) (w' : World)
    (c : Call) (r : Api.Answer c) : Prop :=
  SubmitStage.Expects user c r ∧
    SubmitInv requests user w' (Function.update st i (SubmitStage.next (st i) ⟨c, r⟩))

theorem submitInv_stays {c : Call} {r : Api.Answer c} (hinv : SubmitInv requests user w st)
    (hwf : w'.Wf) (hdb : w'.db = w.db) (hnext : SubmitStage.next (st i) ⟨c, r⟩ = st i) :
    SubmitInv requests user w' (Function.update st i (SubmitStage.next (st i) ⟨c, r⟩)) := by
  rw [hnext, Function.update_eq_self]
  exact submitInv_same hinv hwf hdb

theorem kept_jobFindUnique {id : String} {r : Api.Answer (.prisma (.jobFindUnique id))}
    (hinv : SubmitInv requests user w st) (hwf : w'.Wf) (hok : ch.fails = false)
    (hx : gateway.exec i (.prisma (.jobFindUnique id)) ch w = some (r, w'))
    (hallow : (requests i).jobId = some id) :
    Kept requests user st i w' (.prisma (.jobFindUnique id)) r := by
  obtain ⟨rfl, rfl⟩ := (prisma_of_ok hok hx).2 _ _ rfl
  obtain ⟨job, hfind, hjob⟩ := hinv.jobs i id hallow
  refine ⟨⟨job, congrArg Except.ok hfind, hjob⟩, submitInv_stays hinv hwf rfl ?_⟩
  cases st i <;> rfl

theorem kept_userFindUnique {r : Api.Answer (.prisma (.userFindUnique (.id user.id)))}
    (hinv : SubmitInv requests user w st) (hwf : w'.Wf) (hok : ch.fails = false)
    (hx : gateway.exec i (.prisma (.userFindUnique (.id user.id))) ch w = some (r, w')) :
    Kept requests user st i w' (.prisma (.userFindUnique (.id user.id))) r := by
  obtain ⟨rfl, rfl⟩ := (prisma_of_ok hok hx).2 _ _ rfl
  have hfound : w.db.findUser (.id user.id) = some user := hinv.account
  refine ⟨congrArg Except.ok hfound, submitInv_stays hinv hwf rfl ?_⟩
  rw [hfound]
  cases st i <;> rfl

theorem kept_candidateFindUnique
    {r : Api.Answer (.prisma (.candidateFindUnique (.email user.email)))}
    (hinv : SubmitInv requests user w st) (hwf : w'.Wf) (hok : ch.fails = false)
    (hx : gateway.exec i (.prisma (.candidateFindUnique (.email user.email))) ch w = some (r, w'))
    (hs : st i = .start) :
    Kept requests user st i w' (.prisma (.candidateFindUnique (.email user.email))) r := by
  obtain ⟨rfl, rfl⟩ := (prisma_of_ok hok hx).2 _ _ rfl
  refine ⟨⟨_, rfl⟩, ?_⟩
  cases hfind : w.db.findCandidate (.email user.email) with
  | none =>
    refine submitInv_stays hinv hwf rfl ?_
    rw [hs]
    rfl
  | some x =>
    obtain ⟨hx, hemail⟩ := Table.findUnique?_eq_some.mp hfind
    rw [hs]
    exact submitInv_candidate hinv hwf hs hx hemail rfl rfl rfl fun _ h => h

/-- No other candidate has the email, so the candidate is created. -/
theorem kept_candidateCreate {d : CandidateCreate} {r : Api.Answer (.prisma (.candidateCreate d))}
    (hinv : SubmitInv requests user w st) (hwf : w'.Wf) (hok : ch.fails = false)
    (hx : gateway.exec i (.prisma (.candidateCreate d)) ch w = some (r, w'))
    (hemail : d.email = user.email) (hs : st i = .start)
    (hstorable : d.isStorable = true) (hfree : ∀ x ∈ w.db.candidates.rows, x.email ≠ d.email) :
    Kept requests user st i w' (.prisma (.candidateCreate d)) r := by
  obtain ⟨hallows, hanswer⟩ := prisma_of_ok hok hx
  have hfreeRow : ∀ x ∈ w.db.candidates.rows, x.id ≠ ch.uuid ∧ x.email ≠ d.email := by
    intro x hx
    refine ⟨fun hid => ?_, hfree x hx⟩
    exact (hallows.1 rfl).2 (hid ▸ hinv.wf.candidates x hx)
  obtain ⟨db, hperf⟩ : ∃ db, (PrismaCall.candidateCreate d).perform w.now ch.uuid ch.rows w.db =
      (.ok (d.row ch.uuid w.now), db) := PrismaCall.candidateCreate_succeeds hstorable hfreeRow
  obtain ⟨rfl, rfl⟩ := hanswer _ _ hperf
  refine ⟨⟨_, rfl⟩, ?_⟩
  have hframe := PrismaCall.perform_frame hperf
  obtain ⟨hins, -⟩ := Db.insertCandidate_eq_some (PrismaCall.perform_candidateCreate hperf).2
  rw [hs]
  refine submitInv_candidate hinv hwf hs ((Table.mem_insert hins).mpr (.inr rfl)) hemail
    (hframe.users (by simp) (by simp)) (hframe.jobs (by simp))
    (hframe.applications (by simp) (by simp) (by simp) (by simp)) fun x hx => ?_
  exact (Table.mem_insert hins).mpr (.inl hx)

theorem kept_applicationFindFirst {jobId candidateId : String}
    {r : Api.Answer (.prisma (.applicationFindFirst jobId candidateId))}
    (hinv : SubmitInv requests user w st) (hwf : w'.Wf) (hok : ch.fails = false)
    (hx : gateway.exec i (.prisma (.applicationFindFirst jobId candidateId)) ch w = some (r, w'))
    (hjob : (requests i).jobId = some jobId) (hs : st i = .candidate candidateId) :
    Kept requests user st i w' (.prisma (.applicationFindFirst jobId candidateId)) r := by
  obtain ⟨rfl, rfl⟩ := (prisma_of_ok hok hx).2 _ _ rfl
  refine ⟨⟨_, rfl⟩, ?_⟩
  cases hfind : w.db.applications.rows.find? fun a =>
      decide (a.jobId = jobId ∧ a.candidateId = candidateId ∧ a.deletedAt = none) with
  | none =>
    refine submitInv_stays hinv hwf rfl ?_
    rw [hs]
    rfl
  | some a =>
    have ha := List.mem_of_find?_eq_some hfind
    have hcond := List.find?_some hfind
    simp only [decide_eq_true_eq] at hcond
    obtain ⟨hajob, hacand, -⟩ := hcond
    rw [hs]
    have hrefused := submitInv_refused hinv hs ha (hjob.trans (congrArg some hajob.symm)) hacand
    exact submitInv_same hrefused hwf rfl

/-- No other application has the pair, so the application is created. -/
theorem kept_applicationCreate {d : ApplicationCreate}
    {r : Api.Answer (.prisma (.applicationCreate d))} (hinv : SubmitInv requests user w st)
    (hwf : w'.Wf) (hok : ch.fails = false)
    (hx : gateway.exec i (.prisma (.applicationCreate d)) ch w = some (r, w'))
    (hjob : (requests i).jobId = some d.jobId) (hs : st i = .candidate d.candidateId)
    (hstorable : d.isStorable = true)
    (hfree : ∀ a ∈ w.db.applications.rows, a.pair ≠ (d.jobId, d.candidateId)) :
    Kept requests user st i w' (.prisma (.applicationCreate d)) r := by
  obtain ⟨hallows, hanswer⟩ := prisma_of_ok hok hx
  obtain ⟨job, hfind, -⟩ := hinv.jobs i d.jobId hjob
  obtain ⟨c, hc, hcid, -⟩ := hinv.candidate i d.candidateId hs
  have hfreeRow : ∀ a ∈ w.db.applications.rows,
      a.id ≠ ch.uuid ∧ a.pair ≠ (d.jobId, d.candidateId) := by
    intro a ha
    refine ⟨fun hid => ?_, hfree a ha⟩
    exact (hallows.1 rfl).2 (hid ▸ hinv.wf.applications a ha)
  obtain ⟨db, hperf⟩ : ∃ db, (PrismaCall.applicationCreate d).perform w.now ch.uuid ch.rows w.db =
      (.ok (d.row ch.uuid w.now), db) :=
    PrismaCall.applicationCreate_succeeds hstorable ⟨job, Table.find?_eq_some.mp hfind⟩
      ⟨c, hc, hcid⟩ hfreeRow
  obtain ⟨rfl, rfl⟩ := hanswer _ _ hperf
  refine ⟨⟨_, rfl⟩, ?_⟩
  have hframe := PrismaCall.perform_frame hperf
  obtain ⟨-, -, -, hins, -⟩ := PrismaCall.perform_applicationCreate hperf
  rw [hs]
  exact submitInv_inserted hinv hwf hs (a := d.row ch.uuid w.now) hjob rfl hfree
    (fun x => Table.mem_insert hins) (hframe.users (by simp) (by simp)) (hframe.jobs (by simp))
    (hframe.candidates (by simp) (by simp) (by simp))

/-- What one step of a submission does if nothing disturbs it and its insertion meets no row. -/
theorem submitInv_call {cfg : Config Api ℕ World Response} {c : Call}
    {k : Api.Answer c → Prog Api Response} {r : Api.Answer c}
    (hinv : SubmitInv requests user cfg.world st) (hp : cfg.pool i = .call c k)
    (hund : Undisturbed cfg (.run i ch)) (hfree : NoCollision cfg (.run i ch))
    (hallow : SubmitStage.Allows (requests i) user (st i) c)
    (hx : gateway.exec i c ch cfg.world = some (r, w')) : Kept requests user st i w' c r := by
  have hnext : c ∈ (cfg.pool i).next? := by rw [hp]; rfl
  have hok := hund.1
  have hwf := wf_exec hx hinv.wf
  cases c with
  | prisma c =>
    cases c with
    | jobFindUnique id => exact kept_jobFindUnique hinv hwf hok hx hallow
    | userFindUnique wh =>
      obtain rfl : wh = .id user.id := hallow
      exact kept_userFindUnique hinv hwf hok hx
    | candidateFindUnique wh =>
      obtain ⟨rfl, hs⟩ := hallow
      exact kept_candidateFindUnique hinv hwf hok hx hs
    | candidateCreate d =>
      obtain ⟨hemail, hs⟩ := hallow
      obtain ⟨hstorable, hfree⟩ := hfree _ hnext
      exact kept_candidateCreate hinv hwf hok hx hemail hs hstorable hfree
    | applicationFindFirst jobId candidateId =>
      obtain ⟨hjob, hs⟩ := hallow
      exact kept_applicationFindFirst hinv hwf hok hx hjob hs
    | applicationCreate d =>
      obtain ⟨hjob, hs⟩ := hallow
      obtain ⟨hstorable, hfree⟩ := hfree _ hnext
      exact kept_applicationCreate hinv hwf hok hx hjob hs hstorable hfree
    | _ => exact hallow.elim
  | _ =>
    have hdb : w'.db = cfg.world.db := (exec_frame hx).db (by simp)
    refine ⟨exec_undisturbed (by simp) hok (hund.2 _ hnext) hx, ?_⟩
    refine submitInv_stays hinv hwf hdb ?_
    cases st i <;> rfl

end Call

/-! ## Runs -/

def HasApplied (cfg : Config Api ℕ World Response) (i : ℕ) : Prop :=
  ∃ d a, (i, ⟨.prisma (.applicationCreate d), .ok a⟩) ∈ cfg.log

/-- What the submissions of a user should come to, in every state they reach. -/
structure SubmissionsSettled (requests : ℕ → Request) (cfg : Config Api ℕ World Response) :
    Prop where
  /-- a submission that rejects does so with a 409, and because another one to the same job has
  created its application -/
  conflict : ∀ i e, cfg.outcome? i = some (.error e) → e.status = 409 ∧
    ∃ j, j ≠ i ∧ (requests j).jobId = (requests i).jobId ∧ HasApplied cfg j
  unique : ∀ i j a b, cfg.outcome? i = some (.ok a) → cfg.outcome? j = some (.ok b) →
    (requests i).jobId = (requests j).jobId → i = j
  /-- once all the submissions to a job that have begun are over, one of them has succeeded -/
  winner : ∀ i, cfg.trace i ≠ [] →
    (∀ j, cfg.trace j ≠ [] → (requests j).jobId = (requests i).jobId → cfg.outcome? j ≠ none) →
    ∃ j a, (requests j).jobId = (requests i).jobId ∧ cfg.outcome? j = some (.ok a)

section Run

variable {requests : ℕ → Request} {user : User} {cfg cfg' : Config Api ℕ World Response}
  {ls : List (Label ℕ Choice Move)}

def submitStage (requests : ℕ → Request) (user : User) (cfg : Config Api ℕ World Response) :
    ℕ → SubmitStage :=
  stage (fun i => submitMonitor user (requests i)) (fun _ => .start) cfg

theorem submitInv_start {w : World} (hw : w.Wf) (huser : w.db.users.find? user.id = some user)
    (hjobs : ∀ i id, (requests i).jobId = some id → JobOpen w.db id)
    (hnone : ∀ a ∈ w.db.applications.rows, ∀ c ∈ w.db.candidates.rows, a.candidateId = c.id →
      c.email ≠ user.email) : SubmitInv requests user w (fun _ => .start) where
  wf := hw
  account := huser
  jobs := hjobs
  candidate _ _ h := nomatch h
  inserted _ h := nomatch h
  owner a ha c hc hac he := absurd he (hnone a ha c hc hac)
  unique _ _ h := nomatch h
  refused _ h := nomatch h

theorem submitInv_move {w w' : World} {mv : Move} {st : ℕ → SubmitStage}
    (hinv : SubmitInv requests user w st) (hm : gateway.move mv w = some w') :
    SubmitInv requests user w' st := by
  have hwf := wf_move hm hinv.wf
  obtain ⟨elapsed, -, rfl⟩ | ⟨channel, broker, rfl⟩ := move_cases hm
  · exact submitInv_same hinv hwf rfl
  · exact submitInv_same hinv hwf rfl

theorem hasApplied_of_stage {i : ℕ} (h : submitStage requests user cfg i = .inserted) :
    HasApplied cfg i := by
  obtain ⟨e, he, s, hs, hnext⟩ := exists_event_of_stage (T := fun s => s = SubmitStage.inserted)
    (by simp) h
  change SubmitStage.next s e = .inserted at hnext
  unfold SubmitStage.next at hnext
  split at hnext
  · cases hnext
  · cases hnext
  · cases hnext
  · rename_i d a
    exact ⟨d, a, Config.mem_trace.mp he⟩
  · exact absurd hnext hs

end Run

/-! ## The runs in which a submission ends with an internal error -/

def sameJob (_ : ℕ) : Request := .createApplication "u-ray" { jobId := "j-backend" }

def twoJobs (i : ℕ) : Request :=
  .createApplication "u-ray" { jobId := if i = 0 then "j-backend" else "j-frontend" }

def oneByOne : List (Label ℕ Choice Move) :=
  List.replicate 3 (.run 0 {}) ++ .run 0 { uuid := "c-ray" } :: .run 0 {} ::
    .run 0 { uuid := "a-ray" } :: List.replicate 4 (.run 1 {})

/-- The second submission looks for an application before the first one creates its own. -/
def bothLook : List (Label ℕ Choice Move) :=
  List.replicate 3 (.run 0 {}) ++ .run 0 { uuid := "c-ray" } :: .run 0 {} ::
    (List.replicate 4 (.run 1 {}) ++ [.run 0 { uuid := "a-ray" }, .run 1 { uuid := "a-ray-2" }])

/-- Both submissions look for the candidate before one of them creates it. -/
def bothNew : List (Label ℕ Choice Move) :=
  List.replicate 3 (.run 0 {}) ++ List.replicate 3 (.run 1 {}) ++
    [.run 0 { uuid := "c-ray" }, .run 1 { uuid := "c-ray-2" }, .run 0 {}, .run 0 { uuid := "a-ray" }]

theorem seeded_ray_unknown : ∀ a ∈ seeded.db.applications.rows, ∀ c ∈ seeded.db.candidates.rows,
    a.candidateId = c.id → c.email ≠ ray.email := by
  show ∀ a ∈ [cleosApplication], ∀ c ∈ [cleo], a.candidateId = c.id → c.email ≠ ray.email
  decide

theorem not_settled_of_status {requests : ℕ → Request} {cfg : Config Api ℕ World Response} {i : ℕ}
    (h : (cfg.outcome? i).map statusOf = some 500) : ¬ SubmissionsSettled requests cfg := by
  intro hsettled
  obtain ⟨o, ho, hstatus⟩ := Option.map_eq_some_iff.mp h
  cases o with
  | ok a => cases hstatus
  | error e =>
    have hconflict : e.status = 409 := (hsettled.conflict i e ho).1
    have hinternal : e.status = 500 := hstatus
    omega

end TalentFlow
