import TalentFlow.Guarantees.Submission

/-!
# Guarantees.Closing

Closing a job, or removing it, while applications to it are under way. A submission looks at its job
first of all and inserts its application several awaits later, with a file upload in between; what
recruiters do to the job meanwhile it does not notice.

* `JobCheck`: whether a submission is between its look at the job and its insertion.
* `inserted_open`: as long as no job is closed in between, applications are to open jobs only.
* `inserted_closed`: both ways of submitting, with a job that is closed or removed in between.
-/

namespace TalentFlow

open Data Async

/-! ## Between the check and the insertion -/

inductive JobCheck where
  | start
  /-- it has found its job open -/
  | checked
  /-- it has tried to insert its application -/
  | ended
  deriving DecidableEq

def Job.Accepts (job : Job) : Prop := job.status = .open ∧ job.deletedAt = none

instance (job : Job) : Decidable job.Accepts := inferInstanceAs (Decidable (_ ∧ _))

def JobCheck.next : JobCheck → Event Api → JobCheck
  | start, ⟨.prisma (.jobFindUnique _), .ok (some job)⟩ => if job.Accepts then checked else start
  | checked, ⟨.prisma (.applicationCreate _), _⟩ => ended
  | s, _ => s

def jobCheck (cfg : Config Api ℕ World Response) (i : ℕ) : JobCheck :=
  (cfg.trace i).foldl JobCheck.next .start

/-- Request `i` is a submission to the job and is between its check and its insertion. -/
def Pending (requests : ℕ → Request) (cfg : Config Api ℕ World Response) (i : ℕ) (id : String) :
    Prop :=
  (requests i).jobId = some id ∧ jobCheck cfg i = .checked ∧ cfg.outcome? i = none

/-- The job that the call makes one that cannot be applied to. -/
def Call.closes (w : World) : Call → Option String
  | .prisma (.jobUpdate key d) =>
    (w.db.jobs.find? key).bind fun job =>
      if d.isValid ∧ ¬ (d.apply w.now job).Accepts then some key else none
  | _ => none

/-- The step does not close a job that somebody is about to insert an application to. -/
def ClosesNoPending (requests : ℕ → Request) (cfg : Config Api ℕ World Response) :
    Label ℕ Choice Move → Prop
  | .run i ch => ch.fails = false → ∀ c ∈ (cfg.pool i).next?, ∀ id ∈ c.closes cfg.world,
      ∀ e ∈ cfg.log, ¬ Pending requests cfg e.1 id
  | .move _ => True

/-- The row is in the new database and its id was not in the old one. -/
structure Adds (db db' : Db) (a : Application) : Prop where
  row : a ∈ db'.applications.rows
  new : ∀ x ∈ db.applications.rows, x.id ≠ a.id

instance (db db' : Db) (a : Application) : Decidable (Adds db db' a) :=
  decidable_of_iff (a ∈ db'.applications.rows ∧ ∀ x ∈ db.applications.rows, x.id ≠ a.id)
    ⟨fun h => ⟨h.1, h.2⟩, fun h => ⟨h.row, h.new⟩⟩

/-! ## Programs -/

/-- A request looks at the job it is for, and inserts only what it has checked. -/
def jobCheckMonitor (r : Request) : Monitor Api JobCheck where
  next := JobCheck.next
  call s
    | .prisma (.jobFindUnique id) => s = .start → ∀ jobId ∈ r.jobId, id = jobId
    | .prisma (.applicationCreate d) => s = .checked ∧ r.jobId = some d.jobId
    | _ => True
  answer _ _ _ := True

def InsertsNothing (c : Call) : Prop := ∀ d, c ≠ .prisma (.applicationCreate d)

section Programs

variable {α : Type} {r : Request}

theorem insertsNothing_of_quiet {c : Call} (h : c.IsQuiet) : InsertsNothing c := by
  rintro d rfl
  exact h

/-- After its look at the job, a submission changes its stage only by inserting. -/
theorem next_of_insertsNothing {s : JobCheck} (hs : s ≠ .start) {c : Call}
    (hc : InsertsNothing c) :
    (jobCheckMonitor r).call s c ∧ ∀ a, (jobCheckMonitor r).next s ⟨c, a⟩ = s := by
  cases c with
  | prisma c =>
    cases c with
    | applicationCreate d => exact absurd rfl (hc d)
    | jobFindUnique id =>
      refine ⟨fun h => absurd h hs, fun a => ?_⟩
      cases s <;> first | rfl | exact absurd rfl hs
    | _ => exact ⟨trivial, fun a => by cases s <;> rfl⟩
  | _ => exact ⟨trivial, fun a => by cases s <;> rfl⟩

theorem checked_bind {β : Type} {p : Prog Api α} {f : α → Prog Api β}
    (hp : p.Calls InsertsNothing)
    (hf : ∀ a, Obeys (jobCheckMonitor r) (fun _ _ => True) (f a) .checked) :
    Obeys (jobCheckMonitor r) (fun _ _ => True) (p >>= f) .checked := by
  refine obeys_bind (obeys_mono (obeys_of_calls hp fun c hc =>
    next_of_insertsNothing (by simp) hc) fun o s hs => ?_)
  subst hs
  cases o with
  | ok a => exact hf a
  | error e => trivial

theorem ended_obeys {p : Prog Api α} (hp : p.Calls InsertsNothing) :
    Obeys (jobCheckMonitor r) (fun _ _ => True) p .ended :=
  obeys_mono (obeys_of_calls hp fun c hc => next_of_insertsNothing (by simp) hc) fun _ _ _ => trivial

theorem check_begins {jobId : String} (hjob : r.jobId = some jobId) {userId : String}
    {f : Candidate → Prog Api α}
    (hf : ∀ c, Obeys (jobCheckMonitor r) (fun _ _ => True) (f c) .checked) :
    Obeys (jobCheckMonitor r) (fun _ _ => True) (do
      let _job ← ApplicationsService.findOpenJobOrThrow jobId
      let candidate ← ApplicationsService.findOrCreateCandidateOrThrow userId
      ApplicationsService.ensureNoDuplicateApplication jobId candidate.id
      f candidate) .start := by
  have hlook : (jobCheckMonitor r).call .start (.prisma (.jobFindUnique jobId)) := by
    intro _ jobId' hjobId'
    exact Option.some.inj (hjob.symm.trans hjobId')
  refine obeys_bind (obeys_await hlook (fun found _ => ?_) fun _ _ => trivial)
  cases found with
  | none => trivial
  | some job =>
    by_cases hlive : job.deletedAt = none
    · by_cases hopen : job.status = .open
      · have hnext : (jobCheckMonitor r).next .start
            ⟨.prisma (.jobFindUnique jobId), .ok (some job)⟩ = .checked :=
          if_pos ⟨hopen, hlive⟩
        rw [hnext]
        simp only [Option.filter, hlive, Option.isNone_none, if_true, hopen]
        refine checked_bind (findOrCreateCandidateOrThrow_calls
          (fun c => insertsNothing_of_quiet) (by simp [InsertsNothing]) userId) fun c => ?_
        exact checked_bind (ensureNoDuplicateApplication_calls
          (fun c => insertsNothing_of_quiet) jobId c.id) fun _ => hf c
      · simp only [Option.filter, hlive, Option.isNone_none, if_true, hopen, ne_eq,
          not_false_eq_true]
        trivial
    · have hfilter : Option.filter (fun job : Job => job.deletedAt.isNone) (some job) = none := by
        simp [Option.filter, hlive]
      simp only [hfilter]
      trivial

theorem create_checks (userId : String) (dto : CreateApplicationDto) :
    Obeys (jobCheckMonitor (.createApplication userId dto)) (fun _ _ => True)
      (Request.createApplication userId dto).prog .start := by
  refine obeys_bind (obeys_mono (check_begins rfl fun c => ?_) (fun o s _ => ?_))
  · exact obeys_await_last ⟨rfl, rfl⟩ fun _ _ => trivial
  · cases o <;> trivial

theorem createWithCv_checks (userId : String) (file : UploadedFile) (dto : UploadCvDto) :
    Obeys (jobCheckMonitor (.createApplicationWithCv userId file dto)) (fun _ _ => True)
      (Request.createApplicationWithCv userId file dto).prog .start := by
  have hquiet : ∀ c : Call, c.IsQuiet → InsertsNothing c := fun c => insertsNothing_of_quiet
  have hfail : ∀ applicationId key, (ApplicationsService.failCreateWithCv applicationId key).Calls
      InsertsNothing :=
    failCreateWithCv_calls (by simp [InsertsNothing]) (by simp [InsertsNothing])
  refine obeys_bind (obeys_mono (check_begins rfl fun c => ?_) (fun o s _ => ?_))
  · refine checked_bind (uploadCvOrThrow_calls (by simp [InsertsNothing])
      (by simp [InsertsNothing])) fun (fileKey, uploadUrl) => ?_
    refine obeys_attempt (obeys_await_last ⟨rfl, rfl⟩ fun created _ => ?_)
    cases created with
    | error e => exact ended_obeys (hfail _ _)
    | ok application =>
      refine ended_obeys (calls_bind (calls_attempt (publishApplication_calls hquiet
        (by simp [InsertsNothing]) _ _ _ _ _)) fun handedOver => ?_)
      cases handedOver with
      | error e => exact hfail _ _
      | ok _ => exact buildUploadResponse_calls hquiet _ _ _
  · cases o <;> trivial

theorem footprint_applicationCreate {r : Request} {d : ApplicationCreate}
    (h : r.footprint (.prisma (.applicationCreate d))) : r.jobId = some d.jobId := by
  cases r with
  | createApplication userId dto =>
    simp only [Request.footprint, Call.prisma.injEq, reduceCtorEq, exists_false, false_or,
      PrismaCall.applicationCreate.injEq] at h
    obtain ⟨candidateId, rfl⟩ := h
    rfl
  | createApplicationWithCv userId file dto =>
    simp only [Request.footprint, Call.prisma.injEq, reduceCtorEq, exists_false, false_or,
      PrismaCall.applicationCreate.injEq, or_false] at h
    obtain ⟨candidateId, key, url, rfl⟩ := h
    rfl
  | _ => simp [Request.footprint] at h

/-- Every request inserts only what it has checked. -/
theorem request_checks (r : Request) :
    Obeys (jobCheckMonitor r) (fun _ _ => True) r.prog .start := by
  have hplain : r.jobId = none → Obeys (jobCheckMonitor r) (fun _ _ => True) r.prog .start := by
    intro hnone
    refine obeys_of_allowed (prog_calls r) fun s c hc => ?_
    cases c with
    | prisma c =>
      cases c with
      | applicationCreate d =>
        obtain hquiet | hfoot := hc
        · exact hquiet.elim
        · rw [footprint_applicationCreate hfoot] at hnone
          cases hnone
      | jobFindUnique id =>
        intro _ jobId hjobId
        rw [hnone] at hjobId
        cases hjobId
      | _ => trivial
    | _ => trivial
  cases r with
  | createApplication userId dto => exact create_checks userId dto
  | createApplicationWithCv userId file dto => exact createWithCv_checks userId file dto
  | _ => exact hplain rfl

end Programs

/-! ## Steps -/

section Step

variable {i : ℕ} {ch : Choice} {w w' : World} {c : Call} {r : Api.Answer c}

theorem jobOpen_exec (h : gateway.exec i c ch w = some (r, w')) {id : String}
    (hopen : JobOpen w.db id) (hclose : ch.fails = false → id ∉ c.closes w) :
    JobOpen w'.db id := by
  have hsame : w'.db.jobs = w.db.jobs → JobOpen w'.db id := by
    intro hjobs
    obtain ⟨job, hfind, haccepts⟩ := hopen
    exact ⟨job, by rwa [hjobs], haccepts⟩
  cases c with
  | prisma c =>
    obtain ⟨e, -, rfl⟩ | ⟨v, db, hok, -, hperf, -, rfl⟩ := prisma_cases h
    · exact hopen
    cases c with
    | jobUpdate key d =>
      by_cases hid : id = key
      · subst hid
        have hfound := PrismaCall.find?_jobUpdate_self hperf
        obtain ⟨job, hfind, hvalid, rfl, -⟩ := PrismaCall.perform_jobUpdate hperf
        have haccepts : (d.apply w.now job).Accepts := by
          by_contra hnot
          refine hclose hok ?_
          simp [Call.closes, hfind, hvalid, hnot]
        exact ⟨_, hfound, haccepts⟩
      · obtain ⟨job, hfind, haccepts⟩ := hopen
        exact ⟨job, (PrismaCall.find?_jobUpdate_ne hperf hid).trans hfind, haccepts⟩
    | _ => exact hsame ((PrismaCall.perform_frame hperf).jobs (by simp))
  | _ => exact hsame (by rw [(exec_frame h).db (by simp)])

theorem jobFindUnique_cases {id : String} {r : Api.Answer (.prisma (.jobFindUnique id))}
    (h : gateway.exec i (.prisma (.jobFindUnique id)) ch w = some (r, w')) :
    (∃ e, r = .error e) ∨ r = .ok (w.db.jobs.find? id) ∧ w' = w := by
  obtain ⟨rfl, herr | ⟨v, rfl, hperf⟩⟩ := read_cases (c := .jobFindUnique id) trivial h
  · exact .inl herr
  · cases hperf
    exact .inr ⟨rfl, rfl⟩

/-- Only an insertion creates an application; the jobs stay what they are. -/
theorem application_inserted_exec (h : gateway.exec i c ch w = some (r, w')) {a : Application}
    (ha : Adds w.db w'.db a) :
    (∃ d, c = .prisma (.applicationCreate d) ∧ a.jobId = d.jobId) ∧ w'.db.jobs = w.db.jobs := by
  cases c with
  | prisma c =>
    obtain ⟨e, -, rfl⟩ | ⟨v, db, -, -, hperf, -, rfl⟩ := prisma_cases h
    · exact absurd rfl (ha.new a ha.row)
    obtain hrow | ⟨d, rfl, rfl⟩ | ⟨d, a₀, -, ha₀, rfl⟩ := PrismaCall.mem_applications hperf ha.row
    · exact absurd rfl (ha.new a hrow)
    · exact ⟨⟨d, rfl, rfl⟩, (PrismaCall.perform_frame hperf).jobs (by simp)⟩
    · exact absurd rfl (ha.new a₀ ha₀)
  | _ =>
    have hrow := ha.row
    rw [(exec_frame h).db (by simp)] at hrow
    exact absurd rfl (ha.new a hrow)

end Step

/-! ## Runs -/

section Run

variable {requests : ℕ → Request} {cfg cfg' : Config Api ℕ World Response}
  {ls : List (Label ℕ Choice Move)} {l : Label ℕ Choice Move}

/-- Submissions do what the monitor says, and the jobs they have checked are open. -/
structure ClosingInv (requests : ℕ → Request) (cfg : Config Api ℕ World Response) : Prop where
  obeys : AllObey (fun i => jobCheckMonitor (requests i)) (fun _ => .start) (fun _ _ _ => True) cfg
  pending : ∀ i id, Pending requests cfg i id → JobOpen cfg.world.db id

theorem exists_event_of_checked {i : ℕ} (h : jobCheck cfg i = .checked) :
    ∃ e ∈ cfg.log, e.1 = i := by
  have hne : cfg.trace i ≠ [] := by
    intro hnil
    simp [jobCheck, hnil] at h
  obtain ⟨e, he⟩ := List.exists_mem_of_ne_nil _ hne
  exact ⟨(i, e), Config.mem_trace.mp he, rfl⟩

/-- A submission that has come from its start to `checked` has found its job open. -/
theorem next_start_checked {e : Event Api} (h : JobCheck.next .start e = .checked) :
    ∃ id job, job.Accepts ∧ e = ⟨.prisma (.jobFindUnique id), .ok (some job)⟩ := by
  unfold JobCheck.next at h
  split at h
  · rename_i id job hstart
    split at h
    · rename_i haccepts
      exact ⟨id, job, haccepts, rfl⟩
    · cases h
  · rename_i hstart
    cases hstart
  · cases h

theorem closingInv_step (hinv : ClosingInv requests cfg) (hP : ClosesNoPending requests cfg l)
    (hs : gateway.step l cfg = some cfg') : ClosingInv requests cfg' := by
  obtain ⟨i, ch, c, k, r, w, rfl, hp, hx, rfl⟩ | ⟨mv, w, rfl, hm, rfl⟩ := Machine.step_cases hs
  · refine ⟨hinv.obeys.answered hp w trivial, fun j id hj => ?_⟩
    have hkeep : ∀ j, Pending requests cfg j id → JobOpen w.db id := by
      intro j hj
      obtain ⟨e, he, rfl⟩ := exists_event_of_checked hj.2.1
      refine jobOpen_exec hx (hinv.pending _ id hj) fun hok hclose => ?_
      refine hP hok c ?_ id hclose e he hj
      rw [hp]
      rfl
    obtain ⟨hjob, hstage, hover⟩ := hj
    by_cases hji : j = i
    · subst hji
      have hcall := hinv.obeys.call hp
      change (jobCheckMonitor (requests j)).call (jobCheck cfg j) c at hcall
      simp only [jobCheck, Config.answered_trace_self, List.foldl_concat] at hstage
      change JobCheck.next (jobCheck cfg j) ⟨c, r⟩ = .checked at hstage
      cases hold : jobCheck cfg j with
      | start =>
        rw [hold] at hcall hstage
        obtain ⟨id', job, haccepts, hevent⟩ := next_start_checked hstage
        cases hevent
        have hid : id' = id := hcall rfl id hjob
        subst hid
        obtain ⟨e, he⟩ | ⟨hfound, rfl⟩ := jobFindUnique_cases hx
        · cases he
        · exact ⟨job, (Except.ok.inj hfound).symm, haccepts⟩
      | checked => exact hkeep j ⟨hjob, hold, by simp [Config.outcome?, hp]⟩
      | ended =>
        rw [hold] at hstage
        cases hstage
    · refine hkeep j ⟨hjob, ?_, ?_⟩
      · simpa [jobCheck, hji] using hstage
      · simpa [Config.outcome?, hji] using hover
  · refine ⟨hinv.obeys, fun j id hj => ?_⟩
    simp only [db_of_move hm]
    exact hinv.pending j id hj

theorem closingInv_run (hinv : ClosingInv requests cfg)
    (hP : gateway.Along (ClosesNoPending requests) ls cfg)
    (hrun : gateway.run ls cfg = some cfg') : ClosingInv requests cfg' :=
  Machine.run_induction_along (ClosingInv requests) closingInv_step hinv hP hrun

theorem closingInv_start (w : World) :
    ClosingInv requests (.start w (Request.pool requests)) := by
  refine ⟨fun i => request_checks (requests i), fun i id hi => ?_⟩
  obtain ⟨e, he, -⟩ := exists_event_of_checked hi.2.1
  cases he

/-- In a run whose steps close no job that somebody has checked and is about to apply to, every
application is inserted while its job is there, is live and is open. -/
theorem inserted_open {w : World} {a : Application}
    (hP : gateway.Along (ClosesNoPending requests) ls (.start w (Request.pool requests)))
    (hrun : gateway.run ls (.start w (Request.pool requests)) = some cfg)
    (hs : gateway.step l cfg = some cfg') (ha : Adds cfg.world.db cfg'.world.db a) :
    JobOpen cfg'.world.db a.jobId := by
  have hinv := closingInv_run (closingInv_start w) hP hrun
  obtain ⟨i, ch, c, k, r, w', rfl, hp, hx, rfl⟩ | ⟨mv, w', rfl, hm, rfl⟩ := Machine.step_cases hs
  · obtain ⟨⟨d, rfl, hid⟩, hjobs⟩ := application_inserted_exec hx ha
    obtain ⟨hstage, hjob⟩ := hinv.obeys.call hp
    have hpending : Pending requests cfg i d.jobId :=
      ⟨hjob, hstage, by simp [Config.outcome?, hp]⟩
    obtain ⟨job, hfind, haccepts⟩ := hinv.pending i _ hpending
    rw [hid]
    exact ⟨job, by rwa [Config.answered_world, hjobs], haccepts⟩
  · exact absurd rfl (ha.new a (db_of_move hm ▸ ha.row))

end Run

/-! ## Ian applies to a job of Ray's that Ray closes -/

def iansUpload : UploadedFile where
  originalname := "ian.pdf"
  mimetype := "application/pdf"
  buffer := []

/-- Two submissions of Ian's to the backend job; Ray closes it or removes it, and removes another
one. -/
def closing : ℕ → Request
  | 0 => .createApplication "u-ian" { jobId := "j-backend" }
  | 1 => .createApplicationWithCv "u-ian" iansUpload { jobId := "j-backend" }
  | 2 => .updateJob "j-backend" "u-ray" "RECRUITER" { status := .value .closed }
  | 3 => .removeJob "j-backend" "u-ray" "RECRUITER"
  | _ => .removeJob "j-frontend" "u-ray" "RECRUITER"

def createUpToInsert : List (Label ℕ Choice Move) :=
  List.replicate 3 (.run 0 {}) ++ [.run 0 { uuid := "c-ian" }, .run 0 {}]

def createWithCvUpToInsert : List (Label ℕ Choice Move) :=
  List.replicate 3 (.run 1 {}) ++
    [.run 1 { uuid := "c-ian" }, .run 1 {}, .run 1 { uuid := "f-ian" }, .run 1 {}]

instance (requests : ℕ → Request) (cfg : Config Api ℕ World Response) (i : ℕ) (id : String) :
    Decidable (Pending requests cfg i id) :=
  decidable_of_iff ((requests i).jobId = some id ∧ jobCheck cfg i = .checked ∧
    (cfg.outcome? i).isNone = true) (by simp [Pending])

instance (requests : ℕ → Request) (cfg : Config Api ℕ World Response) :
    ∀ l, Decidable (ClosesNoPending requests cfg l)
  | .run _ _ => inferInstanceAs (Decidable (_ → ∀ _ ∈ _, ∀ _ ∈ _, ∀ _ ∈ _, ¬ _))
  | .move _ => .isTrue trivial

theorem jobOpen_iff {db : Db} {id : String} :
    (db.jobs.find? id).any (fun job => decide job.Accepts) = true ↔ JobOpen db id := by
  rw [Option.any_eq_true]
  constructor
  · rintro ⟨job, hfind, haccepts⟩
    exact ⟨job, hfind, of_decide_eq_true haccepts⟩
  · rintro ⟨job, hfind, haccepts⟩
    exact ⟨job, hfind, decide_eq_true haccepts⟩

instance (db : Db) (id : String) : Decidable (JobOpen db id) := decidable_of_iff _ jobOpen_iff

theorem exists_added (w : World) (requests : ℕ → Request) (ls : List (Label ℕ Choice Move))
    (l : Label ℕ Choice Move) {P : Db → Application → Prop} [∀ db a, Decidable (P db a)]
    (h : (gateway.run ls (.start w (Request.pool requests))).any (fun cfg =>
      (gateway.step l cfg).any fun cfg' => cfg'.world.db.applications.rows.any fun a =>
        decide (Adds cfg.world.db cfg'.world.db a ∧ P cfg'.world.db a)) = true) :
    ∃ cfg cfg' a, gateway.run ls (.start w (Request.pool requests)) = some cfg ∧
      gateway.step l cfg = some cfg' ∧ Adds cfg.world.db cfg'.world.db a ∧ P cfg'.world.db a := by
  obtain ⟨cfg, hrun, h⟩ := (Option.any_eq_true _ _).mp h
  obtain ⟨cfg', hs, h⟩ := (Option.any_eq_true _ _).mp h
  obtain ⟨a, -, ha⟩ := List.any_eq_true.mp h
  exact ⟨cfg, cfg', a, hrun, hs, of_decide_eq_true ha⟩

/-- Meanwhile another job is removed. -/
theorem inserted_open_other : ∃ cfg cfg' a,
    gateway.run (createUpToInsert ++ List.replicate 3 (.run 4 {}))
      (.start seeded (Request.pool closing)) = some cfg ∧
    gateway.step (.run 0 { uuid := "a-ian" }) cfg = some cfg' ∧
    Adds cfg.world.db cfg'.world.db a ∧ JobOpen cfg'.world.db a.jobId := by
  obtain ⟨cfg, cfg', a, hrun, hs, ha, -⟩ := exists_added seeded closing
    (createUpToInsert ++ List.replicate 3 (.run 4 {})) (.run 0 { uuid := "a-ian" })
    (P := fun _ _ => True) (by decide +kernel)
  exact ⟨cfg, cfg', a, hrun, hs, ha, inserted_open (by decide +kernel) hrun hs ha⟩

/-- The job is closed between the check and the insertion of `create`, or removed between those of
`createWithCv`; the application is inserted all the same. -/
theorem inserted_closed :
    (∃ cfg cfg' a, gateway.run (createUpToInsert ++ List.replicate 2 (.run 2 {}))
        (.start seeded (Request.pool closing)) = some cfg ∧
      gateway.step (.run 0 { uuid := "a-ian" }) cfg = some cfg' ∧
      Adds cfg.world.db cfg'.world.db a ∧ ¬ JobOpen cfg'.world.db a.jobId) ∧
    ∃ cfg cfg' a, gateway.run (createWithCvUpToInsert ++ List.replicate 3 (.run 3 {}))
        (.start seeded (Request.pool closing)) = some cfg ∧
      gateway.step (.run 1 { uuid := "a-ian" }) cfg = some cfg' ∧
      Adds cfg.world.db cfg'.world.db a ∧ ¬ JobOpen cfg'.world.db a.jobId := by
  constructor
  · exact exists_added _ _ _ _ (P := fun db a => ¬ JobOpen db a.jobId) (by decide +kernel)
  · exact exists_added _ _ _ _ (P := fun db a => ¬ JobOpen db a.jobId) (by decide +kernel)

end TalentFlow
