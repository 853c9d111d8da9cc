import TalentFlow.Guarantees.Submission
import TalentFlow.Guarantees.Viewing

/-!
# Guarantees.Ownership

Whose application it is. No column says so: whoever asks, their user is looked up by id, the
candidate by the email of the user, and the id of the candidate is compared with that of the row.
Emails never change on either side, no user row is ever deleted, and the id of a deleted candidate
does not come back; so the answer is the user who has submitted the application, for ever.

* `EmailOf`: what is known of a candidate's id, also after the candidate is gone.
* `OwnerStage`: what a submission knows of its user.
* `one_applicant`: in every state that requests lead to.
-/

namespace TalentFlow

open Data Async

/-! ## Rows -/

def World.HasAccount (w : World) (userId email : String) : Prop :=
  ∃ u ∈ w.db.users.rows, u.id = userId ∧ u.email = email

/-- The id has been drawn, and whatever candidate has it has this email. -/
structure World.EmailOf (w : World) (candidateId email : String) : Prop where
  drawn : candidateId ∈ w.uuids
  rows : ∀ c ∈ w.db.candidates.rows, c.id = candidateId → c.email = email

section Rows

variable {i : ℕ} {ch : Choice} {w w' : World} {c : Call} {r : Api.Answer c}

theorem hasAccount_exec (h : gateway.exec i c ch w = some (r, w')) {userId email : String}
    (hu : w.HasAccount userId email) : w'.HasAccount userId email := by
  have hsame : w'.db.users = w.db.users → w'.HasAccount userId email := by
    intro husers
    obtain ⟨u, hu, hid⟩ := hu
    exact ⟨u, husers ▸ hu, hid⟩
  cases c with
  | prisma c =>
    obtain ⟨e, -, rfl⟩ | ⟨v, db, -, -, hperf, -, rfl⟩ := prisma_cases h
    · exact hu
    cases c with
    | userCreate d =>
      obtain ⟨u, hu, hid⟩ := hu
      obtain ⟨-, _, hins⟩ := PrismaCall.perform_userCreate hperf
      exact ⟨u, (Table.mem_insert (Db.insertUser_eq_some hins).1).mpr (.inl hu), hid⟩
    | userUpdate key d =>
      obtain ⟨u, hu, rfl, rfl⟩ := hu
      obtain ⟨-, -, -, -, htext, rfl⟩ := PrismaCall.perform_userUpdate hperf
      by_cases hid : u.id = key
      · exact ⟨d.apply w.now u, (@Db.mem_modifyUser _ _ _ _ _ htext _).mpr (.inr ⟨u, hu, hid, rfl⟩),
          rfl, rfl⟩
      · exact ⟨u, (@Db.mem_modifyUser _ _ _ _ _ htext _).mpr (.inl ⟨hu, hid⟩), rfl, rfl⟩
    | _ => exact hsame ((PrismaCall.perform_frame hperf).users (by simp) (by simp))
  | _ => exact hsame (by rw [(exec_frame h).db (by simp)])

/-- A candidate row has the id and the email of one that was there, or an id never drawn before. -/
theorem candidates_exec (h : gateway.exec i c ch w = some (r, w')) {x : Candidate}
    (hx : x ∈ w'.db.candidates.rows) :
    (∃ x₀ ∈ w.db.candidates.rows, x₀.id = x.id ∧ x₀.email = x.email) ∨
      (x.id ∉ w.uuids ∧ x.id ∈ w'.uuids) := by
  cases c with
  | prisma c =>
    obtain ⟨e, -, rfl⟩ | ⟨v, db, -, hallow, hperf, -, rfl⟩ := prisma_cases h
    · exact .inl ⟨x, hx, rfl, rfl⟩
    obtain hx | ⟨d, rfl, rfl⟩ | ⟨d, x₀, rfl, hx₀, rfl⟩ := PrismaCall.mem_candidates hperf hx
    · exact .inl ⟨x, hx, rfl, rfl⟩
    · exact .inr ⟨(hallow.1 rfl).2, by simp [World.uuids, PrismaCall.drawsId, CandidateCreate.row]⟩
    · exact .inl ⟨x₀, hx₀, rfl, rfl⟩
  | _ =>
    rw [(exec_frame h).db (by simp)] at hx
    exact .inl ⟨x, hx, rfl, rfl⟩

theorem emailOf_exec (h : gateway.exec i c ch w = some (r, w')) {id email : String}
    (he : w.EmailOf id email) : w'.EmailOf id email := by
  refine ⟨uuids_exec h he.drawn, fun x hx hid => ?_⟩
  obtain ⟨x₀, hx₀, hid₀, hemail⟩ | ⟨hfresh, -⟩ := candidates_exec h hx
  · rw [← hemail]
    exact he.rows x₀ hx₀ (hid₀.trans hid)
  · exact absurd (hid ▸ he.drawn) hfresh

theorem emailOf_of_mem {x : Candidate} (hx : x ∈ w.db.candidates.rows) (hid : x.id ∈ w.uuids) :
    w.EmailOf x.id x.email := by
  refine ⟨hid, fun y hy hyx => ?_⟩
  rw [w.db.candidates.key_inj hy hx hyx]

/-- An application row is one that was there, still for the same candidate, or has just been
inserted under an id never drawn before. -/
inductive RowStep (w w' : World) (e : Event Api) (a : Application) : Prop where
  | old (a₀ : Application) (h : a₀ ∈ w.db.applications.rows) (hid : a₀.id = a.id)
      (hcandidate : a₀.candidateId = a.candidateId)
  | inserted (d : ApplicationCreate) (he : e = ⟨.prisma (.applicationCreate d), .ok a⟩)
      (hcandidate : a.candidateId = d.candidateId) (hfresh : a.id ∉ w.uuids)

theorem rows_exec (h : gateway.exec i c ch w = some (r, w')) {a : Application}
    (ha : a ∈ w'.db.applications.rows) : RowStep w w' ⟨c, r⟩ a := by
  cases c with
  | prisma c =>
    obtain ⟨e, -, rfl⟩ | ⟨v, db, -, hallow, hperf, rfl, rfl⟩ := prisma_cases h
    · exact .old a ha rfl rfl
    obtain ha | ⟨d, rfl, rfl⟩ | ⟨d, a₀, rfl, ha₀, rfl⟩ := PrismaCall.mem_applications hperf ha
    · exact .old a ha rfl rfl
    · obtain ⟨rfl, -⟩ := PrismaCall.perform_applicationCreate hperf
      exact .inserted d rfl rfl (hallow.1 rfl).2
    · exact .old a₀ ha₀ rfl rfl
  | _ =>
    rw [(exec_frame h).db (by simp)] at ha
    exact .old a ha rfl rfl

end Rows

/-! ## Submissions -/

/-- What a submission has found out: the email of its user, and then the id of the candidate. -/
inductive OwnerStage where
  | start
  | user (email : String)
  | candidate (email candidateId : String)

def OwnerStage.next : OwnerStage → Event Api → OwnerStage
  | start, ⟨.prisma (.userFindUnique _), .ok (some u)⟩ => user u.email
  | user email, ⟨.prisma (.candidateFindUnique _), .ok (some c)⟩ => candidate email c.id
  | user email, ⟨.prisma (.candidateCreate _), .ok c⟩ => candidate email c.id
  | s, _ => s

/-- A submission looks up its user, then the candidate with the email of that user, and inserts for
that candidate. -/
def ownerMonitor (r : Request) : Monitor Api OwnerStage where
  next := OwnerStage.next
  call s
    | .prisma (.userFindUnique q) => s = .start → ∀ userId, r.SubmittedBy userId → q = .id userId
    | .prisma (.candidateFindUnique q) =>
      ∀ email userId, s = .user email → r.SubmittedBy userId → q = .email email
    | .prisma (.candidateCreate d) => ∀ email, s = .user email → d.email = email
    | .prisma (.applicationCreate d) =>
      ∃ email userId, s = .candidate email d.candidateId ∧ r.SubmittedBy userId
    | _ => True
  answer _ _ _ := True

section Programs

variable {α β : Type} {r : Request}

theorem Request.SubmittedBy.unique {id id' : String} (h : r.SubmittedBy id)
    (h' : r.SubmittedBy id') : id = id' := by
  cases r with
  | createApplication userId dto => exact h.symm.trans h'
  | createApplicationWithCv userId file dto => exact h.symm.trans h'
  | _ => exact h.elim

/-- The call inserts no application for another candidate. -/
def InsertsFor (candidateId : String) (c : Call) : Prop :=
  ∀ d, c = .prisma (.applicationCreate d) → d.candidateId = candidateId

theorem insertsFor_of_quiet {candidateId : String} {c : Call} (h : c.IsQuiet) :
    InsertsFor candidateId c := by
  rintro d rfl
  exact h.elim

/-- Once the candidate is known, a submission does what it likes, as long as it inserts for it. -/
theorem candidate_obeys {userId email candidateId : String} (hr : r.SubmittedBy userId)
    {p : Prog Api α} (hp : p.Calls (InsertsFor candidateId)) :
    Obeys (ownerMonitor r) (fun _ _ => True) p (.candidate email candidateId) := by
  refine obeys_mono (obeys_of_calls hp fun c hc => ⟨?_, fun _ => rfl⟩) fun _ _ _ => trivial
  cases c with
  | prisma c =>
    cases c with
    | userFindUnique q => exact fun h => nomatch h
    | candidateFindUnique q => exact fun _ _ h => nomatch h
    | candidateCreate d => exact fun _ h => nomatch h
    | applicationCreate d => exact ⟨email, userId, by rw [hc d rfl], hr⟩
    | _ => trivial
  | _ => trivial

theorem owner_begins {userId jobId : String} (hr : r.SubmittedBy userId)
    {f : Candidate → Prog Api α} (hf : ∀ c, (f c).Calls (InsertsFor c.id)) :
    Obeys (ownerMonitor r) (fun _ _ => True) (do
      let _job ← ApplicationsService.findOpenJobOrThrow jobId
      let candidate ← ApplicationsService.findOrCreateCandidateOrThrow userId
      f candidate) .start := by
  have hcandidate : ∀ (email : String) (c : Candidate),
      Obeys (ownerMonitor r) (fun _ _ => True) (f c) (.candidate email c.id) :=
    fun email c => candidate_obeys hr (hf c)
  have huser : Obeys (ownerMonitor r) (fun _ _ => True) (do
      let candidate ← ApplicationsService.findOrCreateCandidateOrThrow userId
      f candidate) .start := by
    refine obeys_bind (obeys_await (fun _ id hid => ?_) (fun found _ => ?_) fun _ _ => trivial)
    · rw [hr.unique hid]
    · cases found with
      | none => trivial
      | some user =>
        refine obeys_await (fun email id hs hid => ?_) (fun found _ => ?_) fun _ _ => trivial
        · cases hs
          rfl
        · cases found with
          | some c => exact hcandidate _ c
          | none =>
            refine obeys_await_last (fun email hs => ?_) fun o _ => ?_
            · cases hs
              rfl
            · cases o with
              | ok c => exact hcandidate _ c
              | error e => trivial
  refine obeys_bind (obeys_await trivial (fun found _ => ?_) fun _ _ => trivial)
  change Obeys (ownerMonitor r) _ _ .start
  split
  · trivial
  · split
    · trivial
    · exact huser

theorem create_owned (userId : String) (dto : CreateApplicationDto) :
    Obeys (ownerMonitor (.createApplication userId dto)) (fun _ _ => True)
      (Request.createApplication userId dto).prog .start := by
  have hr : (Request.createApplication userId dto).SubmittedBy userId := rfl
  refine obeys_bind (obeys_mono (owner_begins hr fun c => ?_) fun o s _ => ?_)
  · refine calls_bind (ensureNoDuplicateApplication_calls (fun c => insertsFor_of_quiet) _ _)
      fun _ => calls_await fun d hd => ?_
    cases hd
    rfl
  · cases o <;> trivial

theorem createWithCv_owned (userId : String) (file : UploadedFile) (dto : UploadCvDto) :
    Obeys (ownerMonitor (.createApplicationWithCv userId file dto)) (fun _ _ => True)
      (Request.createApplicationWithCv userId file dto).prog .start := by
  have hr : (Request.createApplicationWithCv userId file dto).SubmittedBy userId := rfl
  refine obeys_bind (obeys_mono (owner_begins hr fun c => ?_) fun o s _ => ?_)
  · have hquiet : ∀ call : Call, call.IsQuiet → InsertsFor c.id call := fun _ => insertsFor_of_quiet
    have hfail : ∀ applicationId key, (ApplicationsService.failCreateWithCv applicationId key).Calls
        (InsertsFor c.id) := failCreateWithCv_calls (by simp [InsertsFor]) (by simp [InsertsFor])
    refine calls_bind (ensureNoDuplicateApplication_calls hquiet _ _) fun _ => ?_
    refine calls_bind (uploadCvOrThrow_calls (by simp [InsertsFor]) (by simp [InsertsFor]))
      fun (fileKey, uploadUrl) => ?_
    refine calls_bind (calls_attempt (calls_await fun d hd => ?_)) fun created => ?_
    · cases hd
      rfl
    cases created with
    | error e => exact hfail _ _
    | ok application =>
      refine calls_bind (calls_attempt (publishApplication_calls hquiet (by simp [InsertsFor])
        _ _ _ _ _)) fun handedOver => ?_
      cases handedOver with
      | error e => exact hfail _ _
      | ok _ => exact buildUploadResponse_calls hquiet _ _ _
  · cases o <;> trivial

theorem request_owned (r : Request) :
    Obeys (ownerMonitor r) (fun _ _ => True) r.prog .start := by
  have hplain : (∀ userId, ¬ r.SubmittedBy userId) →
      Obeys (ownerMonitor r) (fun _ _ => True) r.prog .start := by
    intro hnone
    refine obeys_of_allowed (prog_calls r) fun s c hc => ?_
    cases c with
    | prisma c =>
      cases c with
      | userFindUnique q => exact fun _ userId hr => absurd hr (hnone userId)
      | candidateFindUnique q => exact fun _ userId _ hr => absurd hr (hnone userId)
      | candidateCreate d =>
        obtain hquiet | hfoot := hc
        · exact hquiet.elim
        · cases r <;> simp [Request.footprint] at hfoot
          all_goals exact absurd rfl (hnone _)
      | applicationCreate d =>
        obtain hquiet | hfoot := hc
        · exact hquiet.elim
        · cases r <;> simp [Request.footprint] at hfoot
          all_goals exact absurd rfl (hnone _)
      | _ => trivial
    | _ => trivial
  cases r with
  | createApplication userId dto => exact create_owned userId dto
  | createApplicationWithCv userId file dto => exact createWithCv_owned userId file dto
  | _ => exact hplain fun _ => id

end Programs

/-! ## Runs -/

/-- The user whose request has inserted the row. -/
def InsertedBy (requests : ℕ → Request) (cfg : Config Api ℕ World Response) (a : Application)
    (userId : String) : Prop :=
  ∃ i d a₀, (i, ⟨.prisma (.applicationCreate d), .ok a₀⟩) ∈ cfg.log ∧ a₀.id = a.id ∧
    (requests i).SubmittedBy userId

def ownerStage (cfg : Config Api ℕ World Response) (i : ℕ) : OwnerStage :=
  (cfg.trace i).foldl OwnerStage.next .start

/-- What the submission of this user has found out is so. -/
def OwnerStage.Holds (w : World) (userId : String) : OwnerStage → Prop
  | start => True
  | user email => w.HasAccount userId email
  | candidate email candidateId => w.HasAccount userId email ∧ w.EmailOf candidateId email

structure OwnerInv (requests : ℕ → Request) (cfg : Config Api ℕ World Response) : Prop where
  obeys : AllObey (fun i => ownerMonitor (requests i)) (fun _ => .start) (fun _ _ _ => True) cfg
  drawn : ∀ c ∈ cfg.world.db.candidates.rows, c.id ∈ cfg.world.uuids
  stages : ∀ i userId, (requests i).SubmittedBy userId → (ownerStage cfg i).Holds cfg.world userId
  /-- of an insertion: its id is taken, and what still has it is for its user's candidate -/
  insertions : ∀ i d a₀, (i, ⟨.prisma (.applicationCreate d), .ok a₀⟩) ∈ cfg.log →
    a₀.id ∈ cfg.world.uuids ∧ ∃ userId email, (requests i).SubmittedBy userId ∧
      cfg.world.HasAccount userId email ∧ ∀ a ∈ cfg.world.db.applications.rows, a.id = a₀.id →
        cfg.world.EmailOf a.candidateId email
  origin : ∀ a ∈ cfg.world.db.applications.rows, ∃ userId, InsertedBy requests cfg a userId

section Run

variable {requests : ℕ → Request} {cfg cfg' : Config Api ℕ World Response}
  {ls : List (Label ℕ Choice Move)} {l : Label ℕ Choice Move}

theorem holds_exec {i : ℕ} {ch : Choice} {w w' : World} {c : Call} {r : Api.Answer c}
    (h : gateway.exec i c ch w = some (r, w')) {userId : String} {s : OwnerStage}
    (hs : s.Holds w userId) : s.Holds w' userId := by
  cases s with
  | start => trivial
  | user email => exact hasAccount_exec h hs
  | candidate email id => exact ⟨hasAccount_exec h hs.1, emailOf_exec h hs.2⟩

theorem candidatesDrawn_exec {i : ℕ} {ch : Choice} {w w' : World} {c : Call} {r : Api.Answer c}
    (h : gateway.exec i c ch w = some (r, w')) (hw : ∀ x ∈ w.db.candidates.rows, x.id ∈ w.uuids) :
    ∀ x ∈ w'.db.candidates.rows, x.id ∈ w'.uuids := by
  intro x hx
  obtain ⟨x₀, hx₀, hid, -⟩ | ⟨-, hdrawn⟩ := candidates_exec h hx
  · rw [← hid]
    exact uuids_exec h (hw x₀ hx₀)
  · exact hdrawn

theorem holds_next {i : ℕ} {ch : Choice} {w w' : World} {c : Call} {r : Api.Answer c}
    (h : gateway.exec i c ch w = some (r, w')) (hw : ∀ x ∈ w.db.candidates.rows, x.id ∈ w.uuids)
    {userId : String} {req : Request} (hreq : req.SubmittedBy userId) {s : OwnerStage}
    (hs : s.Holds w userId) (hcall : (ownerMonitor req).call s c) :
    (OwnerStage.next s ⟨c, r⟩).Holds w' userId := by
  have hkeep : s.Holds w' userId := holds_exec h hs
  unfold OwnerStage.next
  split
  · rename_i q u heq
    cases heq
    obtain ⟨rfl, ⟨e, he⟩ | ⟨v, hv, hperf⟩⟩ := read_cases (c := .userFindUnique q) trivial h
    · cases he
    · cases hv
      cases hcall rfl userId hreq
      have hfind : w'.db.users.find? userId = some u := Except.ok.inj (congrArg Prod.fst hperf)
      obtain ⟨hu, hid⟩ := Table.find?_eq_some.mp hfind
      exact ⟨u, hu, hid, rfl⟩
  · rename_i email q x heq
    cases heq
    obtain ⟨rfl, ⟨e, he⟩ | ⟨v, hv, hperf⟩⟩ := read_cases (c := .candidateFindUnique q) trivial h
    · cases he
    · cases hv
      cases hcall email userId rfl hreq
      have hfind : w'.db.candidates.findUnique? email = some x :=
        Except.ok.inj (congrArg Prod.fst hperf)
      obtain ⟨hx, rfl⟩ := Table.findUnique?_eq_some.mp hfind
      exact ⟨hkeep, emailOf_of_mem hx (hw x hx)⟩
  · rename_i email d x heq
    cases heq
    obtain rfl : d.email = email := hcall email rfl
    obtain ⟨e, he, -⟩ | ⟨v, db, -, -, hperf, hv, rfl⟩ := prisma_cases h
    · cases he
    · cases hv
      obtain ⟨rfl, hins⟩ := PrismaCall.perform_candidateCreate hperf
      have hx : d.row ch.uuid w.now ∈ db.candidates.rows :=
        (Table.mem_insert (Db.insertCandidate_eq_some hins).1).mpr (.inr rfl)
      exact ⟨hkeep, emailOf_of_mem hx (candidatesDrawn_exec h hw _ hx)⟩
  · exact hkeep

theorem created_exec {i : ℕ} {ch : Choice} {w w' : World} {d : ApplicationCreate} {a : Application}
    (h : gateway.exec i (.prisma (.applicationCreate d)) ch w = some (.ok a, w')) :
    a.id ∉ w.uuids ∧ a.id ∈ w'.uuids := by
  obtain ⟨e, he, -⟩ | ⟨v, db, -, hallow, hperf, hv, rfl⟩ := prisma_cases h
  · cases he
  · cases hv
    obtain ⟨rfl, -⟩ := PrismaCall.perform_applicationCreate hperf
    exact ⟨(hallow.1 rfl).2, by simp [World.uuids, PrismaCall.drawsId, ApplicationCreate.row]⟩

section Call

variable {i : ℕ} {ch : Choice} {c : Call} {k : Api.Answer c → Prog Api Response}
  {r : Api.Answer c} {w : World}

theorem insertions_old (hinv : OwnerInv requests cfg)
    (hx : gateway.exec i c ch cfg.world = some (r, w)) {j : ℕ} {d : ApplicationCreate}
    {a₀ : Application} (hlog : (j, ⟨.prisma (.applicationCreate d), .ok a₀⟩) ∈ cfg.log) :
    a₀.id ∈ w.uuids ∧ ∃ userId email, (requests j).SubmittedBy userId ∧
      w.HasAccount userId email ∧ ∀ a ∈ w.db.applications.rows, a.id = a₀.id →
        w.EmailOf a.candidateId email := by
  obtain ⟨hdrawn, userId, email, hr, haccount, hrows⟩ := hinv.insertions j d a₀ hlog
  refine ⟨uuids_exec hx hdrawn, userId, email, hr, hasAccount_exec hx haccount, fun a ha hid => ?_⟩
  cases rows_exec hx ha with
  | old a' ha' hid' hcandidate =>
    rw [← hcandidate]
    exact emailOf_exec hx (hrows a' ha' (hid'.trans hid))
  | inserted d' he hcandidate hfresh => exact absurd (hid ▸ hdrawn) hfresh

theorem insertions_new (hinv : OwnerInv requests cfg) {d : ApplicationCreate} {a₀ : Application}
    {k : Api.Answer (.prisma (.applicationCreate d)) → Prog Api Response}
    (hp : cfg.pool i = .call (.prisma (.applicationCreate d)) k)
    (hx : gateway.exec i (.prisma (.applicationCreate d)) ch cfg.world = some (.ok a₀, w)) :
    a₀.id ∈ w.uuids ∧ ∃ userId email, (requests i).SubmittedBy userId ∧
      w.HasAccount userId email ∧ ∀ a ∈ w.db.applications.rows, a.id = a₀.id →
        w.EmailOf a.candidateId email := by
  obtain ⟨hfresh, hdrawn⟩ := created_exec hx
  obtain ⟨email, userId, hstage, hr⟩ := hinv.obeys.call hp
  have hholds := hinv.stages i userId hr
  change ownerStage cfg i = .candidate email d.candidateId at hstage
  rw [hstage] at hholds
  refine ⟨hdrawn, userId, email, hr, hasAccount_exec hx hholds.1, fun a ha hid => ?_⟩
  cases rows_exec hx ha with
  | old a' ha' hid' hcandidate =>
    -- the id of a row that was there had been drawn
    obtain ⟨_, j, d', a₁, hlog, hid₁, -⟩ := hinv.origin a' ha'
    have hold := (hinv.insertions j d' a₁ hlog).1
    rw [hid₁, hid', hid] at hold
    exact absurd hold hfresh
  | inserted d' he hcandidate hfresh' =>
    cases he
    rw [hcandidate]
    exact emailOf_exec hx hholds.2

theorem InsertedBy.mono {a a' : Application} {userId : String}
    (h : InsertedBy requests cfg a userId) (hlog : ∀ e ∈ cfg.log, e ∈ cfg'.log)
    (hid : a.id = a'.id) : InsertedBy requests cfg' a' userId := by
  obtain ⟨i, d, a₀, hmem, hid₀, hr⟩ := h
  exact ⟨i, d, a₀, hlog _ hmem, hid₀.trans hid, hr⟩

theorem ownerInv_call (hinv : OwnerInv requests cfg) (hp : cfg.pool i = .call c k)
    (hx : gateway.exec i c ch cfg.world = some (r, w)) :
    OwnerInv requests (cfg.answered i r k w) where
  obeys := hinv.obeys.answered hp w trivial
  drawn := candidatesDrawn_exec hx hinv.drawn
  stages := by
    intro j userId hr
    have hj := hinv.stages j userId hr
    by_cases hji : j = i
    · subst hji
      have hstage : ownerStage (cfg.answered j r k w) j = (ownerStage cfg j).next ⟨c, r⟩ := by
        simp [ownerStage]
      rw [hstage]
      exact holds_next hx hinv.drawn hr hj (hinv.obeys.call hp)
    · have hstage : ownerStage (cfg.answered i r k w) j = ownerStage cfg j := by
        simp [ownerStage, hji]
      rw [hstage]
      exact holds_exec hx hj
  insertions := by
    intro j d a₀ hlog
    rcases List.mem_append.mp hlog with hlog | hlog
    · exact insertions_old hinv hx hlog
    · cases List.mem_singleton.mp hlog
      exact insertions_new hinv hp hx
  origin := by
    intro a ha
    cases rows_exec hx ha with
    | old a' ha' hid hcandidate =>
      obtain ⟨userId, hinserted⟩ := hinv.origin a' ha'
      exact ⟨userId, hinserted.mono (fun e he => List.mem_append_left _ he) hid⟩
    | inserted d he hcandidate hfresh =>
      cases he
      obtain ⟨email, userId, -, hr⟩ := hinv.obeys.call hp
      exact ⟨userId, i, d, a, by simp, rfl, hr⟩

end Call

/-- What is known of candidates and users depends on the database and on the drawn ids only. -/
theorem ownerInv_world (hinv : OwnerInv requests cfg) {w : World} (hdb : w.db = cfg.world.db)
    (hdrawn : w.drawn = cfg.world.drawn) : OwnerInv requests { cfg with world := w } := by
  have huuids : w.uuids = cfg.world.uuids := by rw [World.uuids, hdrawn, World.uuids]
  have hemail : ∀ {id email}, cfg.world.EmailOf id email → w.EmailOf id email :=
    fun h => ⟨huuids ▸ h.drawn, hdb ▸ h.rows⟩
  have haccount : ∀ {id email}, cfg.world.HasAccount id email → w.HasAccount id email := by
    rintro id email ⟨u, hu, hid⟩
    exact ⟨u, hdb ▸ hu, hid⟩
  refine ⟨hinv.obeys, ?_, fun i userId hr => ?_, fun i d a₀ hlog => ?_, ?_⟩
  · rw [hdb, huuids]
    exact hinv.drawn
  · have hi := hinv.stages i userId hr
    change (ownerStage cfg i).Holds w userId
    cases hs : ownerStage cfg i with
    | start => trivial
    | user email =>
      rw [hs] at hi
      exact haccount hi
    | candidate email id =>
      rw [hs] at hi
      exact ⟨haccount hi.1, hemail hi.2⟩
  · obtain ⟨hid, userId, email, hr, hu, hrows⟩ := hinv.insertions i d a₀ hlog
    refine ⟨huuids ▸ hid, userId, email, hr, haccount hu, fun a ha haid => ?_⟩
    rw [hdb] at ha
    exact hemail (hrows a ha haid)
  · rw [hdb]
    exact hinv.origin

theorem ownerInv_step (hinv : OwnerInv requests cfg) (hs : gateway.step l cfg = some cfg') :
    OwnerInv requests cfg' := by
  obtain ⟨i, ch, c, k, r, w, rfl, hp, hx, rfl⟩ | ⟨mv, w, rfl, hm, rfl⟩ := Machine.step_cases hs
  · exact ownerInv_call hinv hp hx
  · obtain ⟨elapsed, -, rfl⟩ | ⟨channel, broker, rfl⟩ := move_cases hm
    · exact ownerInv_world hinv rfl rfl
    · exact ownerInv_world hinv rfl rfl

theorem ownerInv_run (hinv : OwnerInv requests cfg) (hrun : gateway.run ls cfg = some cfg') :
    OwnerInv requests cfg' :=
  Machine.run_induction (OwnerInv requests) ownerInv_step hinv hrun

theorem ownerInv_start {w : World} (hcandidates : w.db.candidates.rows = [])
    (happlications : w.db.applications.rows = []) :
    OwnerInv requests (.start w (Request.pool requests)) where
  obeys i := request_owned (requests i)
  drawn := by simp [hcandidates]
  stages _ _ _ := trivial
  insertions := by simp
  origin := by simp [happlications]

/-- The row has one applicant: the user whose request has inserted it. -/
structure OneApplicant (requests : ℕ → Request) (cfg : Config Api ℕ World Response)
    (a : Application) : Prop where
  inserted : ∃ userId, InsertedBy requests cfg a userId
  applicant : ∀ userId, InsertedBy requests cfg a userId → ∀ v x,
    cfg.world.db.withRelations a = some x →
      (ApplicationsService.isApplicant x (cfg.world.db.candidateOf v) = true ↔ v = userId)

/-- The candidate with the email of the user's account is the application's candidate, for exactly
one user. -/
theorem isApplicantOf_iff {w : World} {a : Application} (ha : a ∈ w.db.applications.rows)
    {userId email : String} (haccount : w.HasAccount userId email)
    (hemail : w.EmailOf a.candidateId email) (v : String) :
    w.db.IsApplicantOf v a ↔ v = userId := by
  obtain ⟨u, hu, rfl, rfl⟩ := haccount
  constructor
  · rintro ⟨x, hx, hid⟩
    obtain ⟨u', hu', hfind⟩ := Option.bind_eq_some_iff.mp hx
    obtain ⟨hmem, rfl⟩ := Table.find?_eq_some.mp hu'
    obtain ⟨hxmem, hxemail⟩ := Table.findUnique?_eq_some.mp hfind
    have hsame : u'.email = u.email := hxemail.symm.trans (hemail.rows x hxmem hid.symm)
    rw [w.db.users.ukey_inj hmem hu hsame]
  · rintro rfl
    obtain ⟨x, hx, hid⟩ := w.db.applications_candidate_id_fkey a ha
    have hxemail : x.email = u.email := hemail.rows x hx hid
    refine ⟨x, Option.bind_eq_some_iff.mpr ⟨u, Table.find?_eq_some.mpr ⟨hu, rfl⟩, ?_⟩, hid.symm⟩
    exact Table.findUnique?_eq_some.mpr ⟨hx, hxemail⟩

/-- Whatever requests lead to, from a store without candidates and applications: every application
has one applicant, the user whose request has inserted it. -/
theorem one_applicant {w : World} (hcandidates : w.db.candidates.rows = [])
    (happlications : w.db.applications.rows = [])
    (hrun : gateway.run ls (.start w (Request.pool requests)) = some cfg) :
    ∀ a ∈ cfg.world.db.applications.rows, OneApplicant requests cfg a := by
  have hinv := ownerInv_run (ownerInv_start hcandidates happlications) hrun
  intro a ha
  refine ⟨hinv.origin a ha, fun userId hinserted v x hx => ?_⟩
  obtain ⟨i, d, a₀, hlog, hid, hr⟩ := hinserted
  obtain ⟨-, userId', email, hr', haccount, hrows⟩ := hinv.insertions i d a₀ hlog
  obtain rfl := hr.unique hr'
  rw [isApplicant_iff ha hx]
  exact isApplicantOf_iff ha haccount (hrows a ha hid.symm) v

end Run

def unapplied : World :=
  { seeded with
    db := { seeded.db with
      candidates := .empty
      applications := .empty
      applications_job_id_fkey := fun _ ha => absurd ha List.not_mem_nil
      applications_candidate_id_fkey := fun _ ha => absurd ha List.not_mem_nil
      interviews_application_id_fkey := fun _ hx => absurd hx List.not_mem_nil }
    drawn := [(0, "u-ada"), (0, "u-ray"), (0, "u-ian")] }

/-- Ian applies to the backend job. -/
def applying (_ : ℕ) : Request := .createApplication "u-ian" { jobId := "j-backend" }

def applyOnce : List (Label ℕ Choice Move) :=
  List.replicate 3 (.run 0 {}) ++
    [.run 0 { uuid := "c-ian" }, .run 0 {}, .run 0 { uuid := "a-ian" }]

theorem one_applicant_ian : ∃ cfg,
    gateway.run applyOnce (.start unapplied (Request.pool applying)) = some cfg ∧
      ∃ a ∈ cfg.world.db.applications.rows, OneApplicant applying cfg a := by
  have h : (gateway.run applyOnce (.start unapplied (Request.pool applying))).map
      (fun cfg => cfg.world.db.applications.rows.length) = some 1 := by decide +kernel
  obtain ⟨cfg, hrun, hlength⟩ := Option.map_eq_some_iff.mp h
  have hpos : 0 < cfg.world.db.applications.rows.length := by omega
  obtain ⟨a, ha⟩ := List.exists_mem_of_length_pos hpos
  exact ⟨cfg, hrun, a, ha, one_applicant rfl rfl hrun a ha⟩

end TalentFlow
