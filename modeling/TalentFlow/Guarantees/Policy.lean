import TalentFlow.Guarantees.Identity
import TalentFlow.Guarantees.Mediation
import TalentFlow.Guarantees.Ownership

/-!
# Guarantees.Policy

Who has changed a row. Guards and handlers judge by what they have read, which may be old when they
write; but what they judge by never changes. So a row that a step changes or removes is changed for
a user who is entitled to it by the rows as they are at that step, whatever else is running.

* `fact_run`: what a request has read or made of the immutable columns is true for good.
* `mediated_step`: a step that changes rows is taken behind the guards.
* `users_protected`, `jobs_protected`, `applications_protected`, `records_protected`: by table.
-/

namespace TalentFlow

open Data Async

/-! ## What stays true of what was read -/

/-- What an answered call has told about columns that never change, in a later world. -/
def Fact (w : World) : Event Api → Prop
  | ⟨.prisma (.userFindUnique (.id id)), .ok (some u)⟩ =>
    u.id = id ∧ ∃ y ∈ w.db.users.rows, Later User.identity User.deletedAt u y
  | ⟨.prisma (.jobFindUnique id), .ok (some j)⟩ =>
    j.id = id ∧ ∃ y ∈ w.db.jobs.rows, Later Job.identity Job.deletedAt j y
  | ⟨.prisma (.candidateFindUnique (.email email)), .ok (some x)⟩ =>
    x.email = email ∧ w.EmailOf x.id x.email
  | ⟨.prisma (.candidateCreate d), .ok x⟩ => x.email = d.email ∧ w.EmailOf x.id x.email
  | ⟨.prisma (.applicationFindUnique id), .ok (some a)⟩ =>
    a.id = id ∧ id ∈ w.uuids ∧
      (∀ y ∈ w.db.applications.rows, y.id = id →
        Later Application.identity Application.deletedAt a.toApplication y) ∧
      ∃ y ∈ w.db.jobs.rows, y.id = a.jobId ∧ y.createdById = a.job.createdById
  | ⟨.prisma (.applicationCreate d), .ok a⟩ =>
    a.id ∈ w.uuids ∧ ∀ y ∈ w.db.applications.rows, y.id = a.id → y.candidateId = d.candidateId
  | _ => True

section Facts

variable {w w' : World}

theorem emailOf_keeps (h : w.Keeps w') {id email : String} (he : w.EmailOf id email) :
    w'.EmailOf id email := by
  refine ⟨h.drawn id he.drawn, fun x hx hid => ?_⟩
  obtain ⟨x₀, hx₀, hlater⟩ | hfresh := h.candidates x hx
  · have hsame : x.id = x₀.id ∧ x.email = x₀.email ∧ x.createdAt = x₀.createdAt := by
      simpa [Candidate.identity] using hlater.same
    rw [hsame.2.1]
    exact he.rows x₀ hx₀ (hsame.1.symm.trans hid)
  · exact absurd (hid ▸ he.drawn) hfresh

theorem application_inherits (h : w.Keeps w') {y : Application}
    (hy : y ∈ w'.db.applications.rows) (hid : y.id ∈ w.uuids) :
    ∃ x ∈ w.db.applications.rows, Later Application.identity Application.deletedAt x y :=
  (h.applications y hy).resolve_right fun hfresh => hfresh hid

theorem fact_keeps (h : w.Keeps w') {e : Event Api} (he : Fact w e) : Fact w' e := by
  unfold Fact at he ⊢
  split at he
  · obtain ⟨hid, y, hy, hlater⟩ := he
    obtain ⟨z, hz, hlater'⟩ := h.users y hy
    exact ⟨hid, z, hz, hlater.trans hlater'⟩
  · obtain ⟨hid, y, hy, hlater⟩ := he
    obtain ⟨z, hz, hlater'⟩ := h.jobs y hy
    exact ⟨hid, z, hz, hlater.trans hlater'⟩
  · exact ⟨he.1, emailOf_keeps h he.2⟩
  · exact ⟨he.1, emailOf_keeps h he.2⟩
  · obtain ⟨hid, hdrawn, hrows, j, hj, hjid, hby⟩ := he
    refine ⟨hid, h.drawn _ hdrawn, fun y hy hyid => ?_, ?_⟩
    · obtain ⟨x, hx, hlater⟩ := application_inherits h hy (hyid ▸ hdrawn)
      have hxid : x.id = y.id := (congrArg Prod.fst hlater.same).symm
      exact (hrows x hx (hxid.trans hyid)).trans hlater
    · obtain ⟨z, hz, hlater⟩ := h.jobs j hj
      have hsame : z.id = j.id ∧ z.createdById = j.createdById ∧ z.createdAt = j.createdAt := by
        simpa [Job.identity] using hlater.same
      exact ⟨z, hz, hsame.1.trans hjid, hsame.2.1.trans hby⟩
  · obtain ⟨hdrawn, hrows⟩ := he
    refine ⟨h.drawn _ hdrawn, fun y hy hyid => ?_⟩
    obtain ⟨x, hx, hlater⟩ := application_inherits h hy (hyid ▸ hdrawn)
    have hxid : x.id = y.id := (congrArg Prod.fst hlater.same).symm
    have hsame : y.candidateId = x.candidateId :=
      congrArg (fun t => t.2.2.1) hlater.same
    rw [hsame]
    exact hrows x hx (hxid.trans hyid)
  · trivial

theorem fact_exec {i : ℕ} {ch : Choice} {e : Event Api} (hw : w.Wf)
    (h : gateway.exec i e.call ch w = some (e.answer, w')) : Fact w' e := by
  have hwf := wf_exec h hw
  unfold Fact
  split
  · obtain ⟨rfl, hperf⟩ := read_answer h trivial
    simp only [PrismaCall.perform, Prod.mk.injEq, Except.ok.injEq, and_true] at hperf
    obtain ⟨hu, hid⟩ := Table.find?_eq_some.mp hperf
    exact ⟨hid, _, hu, .refl _⟩
  · obtain ⟨rfl, hperf⟩ := read_answer h trivial
    simp only [PrismaCall.perform, Prod.mk.injEq, Except.ok.injEq, and_true] at hperf
    obtain ⟨hj, hid⟩ := Table.find?_eq_some.mp hperf
    exact ⟨hid, _, hj, .refl _⟩
  · obtain ⟨rfl, hperf⟩ := read_answer h trivial
    simp only [PrismaCall.perform, Prod.mk.injEq, Except.ok.injEq, and_true] at hperf
    obtain ⟨hx, hemail⟩ := Table.findUnique?_eq_some.mp hperf
    exact ⟨hemail, emailOf_of_mem hx (hw.candidates _ hx)⟩
  · obtain ⟨e, he, -⟩ | ⟨v, db, -, -, hperf, hv, rfl⟩ := prisma_cases h
    · cases he
    cases hv
    obtain ⟨rfl, hins⟩ := PrismaCall.perform_candidateCreate hperf
    have hmem := (Table.mem_insert (Db.insertCandidate_eq_some hins).1).mpr (.inr rfl)
    exact ⟨rfl, emailOf_of_mem hmem (hwf.candidates _ hmem)⟩
  · rename_i key a
    obtain ⟨rfl, hperf⟩ := read_answer h trivial
    simp only [PrismaCall.perform, Prod.mk.injEq, Except.ok.injEq, and_true] at hperf
    obtain ⟨a₀, hfind, hrel⟩ := Option.bind_eq_some_iff.mp hperf
    obtain ⟨ha₀, hid⟩ := Table.find?_eq_some.mp hfind
    obtain ⟨a', ha', hrow, hjob⟩ := withRelations_of_mem ha₀
    rw [hrel] at ha'
    cases ha'
    obtain ⟨hj, hjid⟩ := Table.find?_eq_some.mp hjob
    rw [← hrow] at ha₀ hid hjid
    refine ⟨hid, hid ▸ hw.applications _ ha₀, fun y hy hyid => ?_, a.job, hj, hjid, rfl⟩
    rw [w'.db.applications.key_inj hy ha₀ (hyid.trans hid.symm)]
    exact .refl _
  · obtain ⟨e, he, -⟩ | ⟨v, db, -, -, hperf, hv, rfl⟩ := prisma_cases h
    · cases he
    cases hv
    obtain ⟨rfl, -, -, hins, -⟩ := PrismaCall.perform_applicationCreate hperf
    have hmem := (Table.mem_insert hins).mpr (.inr rfl)
    refine ⟨hwf.applications _ hmem, fun y hy hyid => ?_⟩
    rw [db.applications.key_inj hy hmem hyid]
    rfl
  · trivial

end Facts

/-! ## Rows that a call takes away -/

namespace PrismaCall

variable {c : PrismaCall} {now : Time} {id : String} {rows : Rows} {db db' : Db} {v : c.Value}

theorem kept_users (h : c.perform now id rows db = (.ok v, db')) {u : User}
    (hu : u ∈ db.users.rows) : u ∈ db'.users.rows ∨ ∃ d, c = userUpdate u.id d := by
  cases c with
  | userCreate d =>
    obtain ⟨-, _, hins⟩ := perform_userCreate h
    exact .inl ((Table.mem_insert (Db.insertUser_eq_some hins).1).mpr (.inl hu))
  | userUpdate key d =>
    obtain ⟨-, -, -, -, htext, rfl⟩ := perform_userUpdate h
    by_cases hid : u.id = key
    · exact .inr ⟨d, by rw [hid]⟩
    · exact .inl ((@Db.mem_modifyUser _ _ _ _ _ htext _).mpr (.inl ⟨hu, hid⟩))
  | _ =>
    left
    rwa [(perform_frame h).users (by simp) (by simp)]

theorem kept_jobs (h : c.perform now id rows db = (.ok v, db')) {j : Job}
    (hj : j ∈ db.jobs.rows) : j ∈ db'.jobs.rows ∨ ∃ d, c = jobUpdate j.id d := by
  cases c with
  | jobUpdate key d =>
    obtain ⟨-, -, -, -, rfl⟩ := perform_jobUpdate h
    by_cases hid : j.id = key
    · exact .inr ⟨d, by rw [hid]⟩
    · exact .inl ((@Db.mem_modifyJob db key (d.apply now) (fun _ => rfl) (fun _ => rfl) j).mpr
        (.inl ⟨hj, hid⟩))
  | _ =>
    left
    rwa [(perform_frame h).jobs (by simp)]

theorem kept_candidates (h : c.perform now id rows db = (.ok v, db')) {x : Candidate}
    (hx : x ∈ db.candidates.rows) :
    x ∈ db'.candidates.rows ∨ (∃ d, c = candidateUpdate x.id d) ∨ c = candidateDelete x.id := by
  cases c with
  | candidateCreate d =>
    obtain ⟨-, hins⟩ := perform_candidateCreate h
    exact .inl ((Table.mem_insert (Db.insertCandidate_eq_some hins).1).mpr (.inl hx))
  | candidateUpdate key d =>
    obtain ⟨-, -, -, -, rfl⟩ := perform_candidateUpdate h
    by_cases hid : x.id = key
    · exact .inr (.inl ⟨d, by rw [hid]⟩)
    · exact .inl (Db.mem_modifyCandidate.mpr (.inl ⟨hx, hid⟩))
  | candidateDelete key =>
    obtain ⟨-, rfl⟩ := perform_candidateDelete h
    by_cases hid : x.id = key
    · exact .inr (.inr (by rw [hid]))
    · exact .inl (Table.mem_remove.mpr ⟨hx, by simpa using hid⟩)
  | _ =>
    left
    rwa [(perform_frame h).candidates (by simp) (by simp) (by simp)]

theorem kept_applications (h : c.perform now id rows db = (.ok v, db')) {a : Application}
    (ha : a ∈ db.applications.rows) :
    a ∈ db'.applications.rows ∨ (∃ d, c = applicationUpdate a.id d) ∨
      c = applicationDelete a.id ∨ c = candidateDelete a.candidateId := by
  cases c with
  | candidateDelete key =>
    obtain ⟨-, rfl⟩ := perform_candidateDelete h
    by_cases hid : a.candidateId = key
    · exact .inr (.inr (.inr (by rw [hid])))
    · exact .inl (Table.mem_remove.mpr ⟨ha, by simpa using hid⟩)
  | applicationCreate d =>
    obtain ⟨-, -, -, hins, -⟩ := perform_applicationCreate h
    exact .inl ((Table.mem_insert hins).mpr (.inl ha))
  | applicationUpdate key d =>
    obtain ⟨-, -, -, -, rfl⟩ := perform_applicationUpdate h
    by_cases hid : a.id = key
    · exact .inr (.inl ⟨d, by rw [hid]⟩)
    · exact .inl (Db.mem_modifyApplication.mpr (.inl ⟨ha, hid⟩))
  | applicationDelete key =>
    obtain ⟨-, rfl⟩ := perform_applicationDelete h
    by_cases hid : a.id = key
    · exact .inr (.inr (.inl (by rw [hid])))
    · exact .inl (Table.mem_remove.mpr ⟨ha, by simpa using hid⟩)
  | _ =>
    left
    rwa [(perform_frame h).applications (by simp) (by simp) (by simp) (by simp)]

/-- An interview goes only with its application. -/
theorem kept_interviews (h : c.perform now id rows db = (.ok v, db')) {x : Interview}
    (hx : x ∈ db.interviews.rows) :
    x ∈ db'.interviews.rows ∨ (∃ d, c = interviewUpdate x.id d) ∨
      ∃ a ∈ db.applications.rows, a.id = x.applicationId ∧ a ∉ db'.applications.rows := by
  obtain ⟨a, ha, haid⟩ := db.interviews_application_id_fkey x hx
  have hfind : db.applications.find? x.applicationId = some a := Table.find?_eq_some.mpr ⟨ha, haid⟩
  -- what a removal of applications does to the interview
  have hremoved : ∀ p : Application → Bool, db'.interviews = db.interviews.remove (db.loses p) →
      db'.applications = db.applications.remove p → x ∈ db'.interviews.rows ∨
        ∃ a ∈ db.applications.rows, a.id = x.applicationId ∧ a ∉ db'.applications.rows := by
    intro p hinterviews happlications
    have hloses : db.loses p x = p a := by rw [Db.loses, hfind, Option.any_some]
    cases hp : p a with
    | false =>
      left
      rw [hinterviews]
      exact Table.mem_remove.mpr ⟨hx, hloses.trans hp⟩
    | true =>
      refine .inr ⟨a, ha, haid, fun hmem => ?_⟩
      rw [happlications] at hmem
      exact absurd (Table.mem_remove.mp hmem).2 (by simp [hp])
  by_cases hread : c.IsRead
  · have hdb : db' = db := (congrArg Prod.snd h).symm.trans (perform_read hread)
    rw [hdb]
    exact .inl hx
  cases c with
  | userCreate d =>
    obtain ⟨-, _, hins⟩ := perform_userCreate h
    rw [Db.insertUser_interviews hins]
    exact .inl hx
  | userUpdate key d =>
    obtain ⟨-, -, -, -, htext, rfl⟩ := perform_userUpdate h
    exact .inl hx
  | jobUpdate key d =>
    obtain ⟨-, -, -, -, rfl⟩ := perform_jobUpdate h
    exact .inl hx
  | candidateCreate d =>
    rw [Db.insertCandidate_interviews (perform_candidateCreate h).2]
    exact .inl hx
  | candidateUpdate key d =>
    obtain ⟨-, -, -, -, rfl⟩ := perform_candidateUpdate h
    exact .inl hx
  | candidateDelete key =>
    obtain ⟨-, rfl⟩ := perform_candidateDelete h
    exact (hremoved _ rfl rfl).imp_right .inr
  | applicationCreate d =>
    simp only [perform] at h
    split at h
    · split at h
      · split at h
        · split at h
          · rename_i hins
            cases h
            rw [Db.insertApplication_interviews hins]
            exact .inl hx
          · cases h
        · cases h
      · cases h
    · cases h
  | applicationUpdate key d =>
    obtain ⟨-, -, -, -, rfl⟩ := perform_applicationUpdate h
    exact .inl hx
  | applicationDelete key =>
    obtain ⟨-, rfl⟩ := perform_applicationDelete h
    exact (hremoved _ rfl rfl).imp_right .inr
  | interviewCreate d =>
    obtain ⟨scheduledAt, -, -, hins, -⟩ := perform_interviewCreate h
    exact .inl ((Table.mem_insert hins).mpr (.inl hx))
  | interviewUpdate key d =>
    obtain ⟨-, -, -, -, hinterviewer, rfl⟩ := perform_interviewUpdate h
    by_cases hid : x.id = key
    · exact .inr (.inl ⟨d, by rw [hid]⟩)
    · exact .inl (Db.mem_modifyInterview.mpr (.inl ⟨hx, hid⟩))
  | _ => exact absurd trivial hread

end PrismaCall

/-! ## Steps -/

section Run

variable {incoming : ℕ → HttpRequest} {w : World} {ls : List (Label ℕ Choice Move)}
  {cfg cfg' : Config Api ℕ World Response} {l : Label ℕ Choice Move}

theorem fact_run (hw : w.Wf)
    (hrun : gateway.run ls (.start w (HttpRequest.pool incoming)) = some cfg) :
    ∀ e ∈ cfg.log, Fact cfg.world e.2 :=
  Machine.facts_run (fun cfg => KeepMarks cfg ∧ cfg.world.Wf)
    (fun h hs => ⟨calls_step h.1 hs, wf_step h.2 hs⟩) (fun h hx => fact_exec h.2 hx)
    (fun h hs => fact_keeps (keeps_step h.1 hs)) ⟨http_keepMarks incoming w, hw⟩
    (fun _ he => absurd he List.not_mem_nil) hrun

/-- The step is one of a request to the handler, made for `user`, whom its guards have cleared. -/
def MadeFor (incoming : ℕ → HttpRequest) (cfg : Config Api ℕ World Response)
    (l : Label ℕ Choice Move) (route : UserRoute) (user : UserPayload) : Prop :=
  ∃ i ch, l = .run i ch ∧ (incoming i).route = .inr route ∧
    Cleared (incoming i) route (cfg.trace i) user

/-- A step that changes the database otherwise than by a new user is a call that has been made
behind the guards. -/
theorem mediated_step
    (hrun : gateway.run ls (.start w (HttpRequest.pool incoming)) = some cfg)
    (hs : gateway.step l cfg = some cfg') (hne : cfg'.world.db ≠ cfg.world.db) :
    ∃ i ch c v, l = .run i ch ∧
      c.perform cfg.world.now ch.uuid ch.rows cfg.world.db = (.ok v, cfg'.world.db) ∧
      ((∃ d, c = .userCreate d) ∨ ∃ route user, (incoming i).route = .inr route ∧
        Cleared (incoming i) route (cfg.trace i) user ∧
        Entitled user (cfg.trace i) (.prisma c) ∧ route.Writes c) := by
  obtain ⟨i, ch, c, k, r, w₁, rfl, hp, hx, rfl⟩ | ⟨mv, w₁, rfl, hm, rfl⟩ := Machine.step_cases hs
  swap
  · exact absurd (db_of_move hm) hne
  have hnotPassive : ¬ gateway.Passive c := fun hpassive =>
    hne (congrArg World.db (hpassive _ _ _ _ _ hx))
  cases c with
  | prisma c =>
    obtain ⟨e, -, rfl⟩ | ⟨v, db, -, -, hperf, -, rfl⟩ := prisma_cases hx
    · exact absurd rfl hne
    refine ⟨i, ch, c, v, rfl, hperf, ?_⟩
    have hplays := pool_plays hrun i
    have hnotRead : ¬ c.IsRead := fun hread =>
      hne ((congrArg Prod.snd hperf).symm.trans (PrismaCall.perform_read hread))
    cases hroute : (incoming i).route with
    | inl route =>
      have hcalls := hplays.calls_rest (public_calls hroute)
      rw [hp] at hcalls
      exact .inl (hcalls.1.resolve_left hnotRead)
    | inr route =>
      have hcalls := hplays.calls_rest (route_calls hroute)
      rw [hp] at hcalls
      obtain ⟨hpassive, -⟩ | ⟨user, hcleared, hobeys⟩ := mediated_plays hroute hplays
      · rw [hp] at hpassive
        exact absurd (hpassive _ rfl) hnotPassive
      · rw [hp] at hobeys
        have hwrites := footprint_writes (hcalls.1.resolve_left hnotRead)
        exact .inr ⟨route, user, rfl, hcleared, hobeys.1, hwrites⟩
  | _ => exact absurd ((exec_frame hx).db (by simp)) hne

/-- A step that changes a user is made by a request to one of three handlers: a profile for that
user or an administrator, a role or a deletion for an administrator. -/
theorem users_protected
    (hrun : gateway.run ls (.start w (HttpRequest.pool incoming)) = some cfg)
    (hs : gateway.step l cfg = some cfg') {u : User} (hu : u ∈ cfg.world.db.users.rows)
    (hgone : u ∉ cfg'.world.db.users.rows) :
    ∃ route user, MadeFor incoming cfg l route user ∧
      ((∃ dto, route = .updateProfile u.id dto ∧ (user.id = u.id ∨ user.role = .admin)) ∨
        (∃ role, route = .updateRole u.id role ∧ user.role = .admin) ∨
        (route = .softDeleteUser u.id ∧ user.role = .admin)) := by
  have hne : cfg'.world.db ≠ cfg.world.db := fun heq => hgone (heq ▸ hu)
  obtain ⟨i, ch, c, v, rfl, hperf, hby⟩ := mediated_step hrun hs hne
  obtain ⟨d, rfl⟩ := (PrismaCall.kept_users hperf hu).resolve_left hgone
  obtain ⟨d', heq⟩ | ⟨route, user, hroute, hcleared, hentitled, hwrites⟩ := hby
  · cases heq
  refine ⟨route, user, ⟨i, ch, rfl, hroute, hcleared⟩, ?_⟩
  cases hwrites with
  | updateProfile id dto =>
    refine .inl ⟨dto, rfl, ?_⟩
    obtain hadmin | ⟨hid, -, -⟩ := hentitled
    · exact .inr hadmin
    · exact .inl hid.symm
  | updateRole id role => exact .inr (.inl ⟨role, rfl, by simpa using hcleared.roles _ rfl⟩)
  | softDeleteUser id now => exact .inr (.inr ⟨rfl, by simpa using hcleared.roles _ rfl⟩)

/-- A step that changes a job is made for the user who has created it or for an administrator. -/
theorem jobs_protected (hw : w.Wf)
    (hrun : gateway.run ls (.start w (HttpRequest.pool incoming)) = some cfg)
    (hs : gateway.step l cfg = some cfg') {j : Job} (hj : j ∈ cfg.world.db.jobs.rows)
    (hgone : j ∉ cfg'.world.db.jobs.rows) :
    ∃ route user, MadeFor incoming cfg l route user ∧
      ((∃ dto, route = .updateJob j.id dto) ∨ route = .removeJob j.id) ∧
      user.role ∈ [Role.recruiter, .admin] ∧ (user.id = j.createdById ∨ user.role = .admin) := by
  have hne : cfg'.world.db ≠ cfg.world.db := fun heq => hgone (heq ▸ hj)
  obtain ⟨i, ch, c, v, rfl, hperf, hby⟩ := mediated_step hrun hs hne
  obtain ⟨d, rfl⟩ := (PrismaCall.kept_jobs hperf hj).resolve_left hgone
  obtain ⟨d', heq⟩ | ⟨route, user, hroute, hcleared, hentitled, hwrites⟩ := hby
  · cases heq
  have hright : user.id = j.createdById ∨ user.role = .admin := by
    obtain ⟨job, hread, howner | hadmin⟩ := hentitled
    · obtain ⟨hid, y, hy, hlater⟩ := fact_run hw hrun _ (Config.mem_trace.mp hread)
      have hsame : y.id = job.id ∧ y.createdById = job.createdById ∧ y.createdAt = job.createdAt := by
        simpa [Job.identity] using hlater.same
      have hyj : y = j := cfg.world.db.jobs.key_inj hy hj (hsame.1.trans hid)
      rw [hyj] at hsame
      exact .inl (howner.symm.trans hsame.2.1.symm)
    · exact .inr hadmin
  refine ⟨route, user, ⟨i, ch, rfl, hroute, hcleared⟩, ?_, ?_, hright⟩
  · cases hwrites with
    | updateJob id dto d hd => exact .inl ⟨dto, rfl⟩
    | removeJob id now => exact .inr rfl
  · cases hwrites <;> exact hcleared.roles _ rfl

theorem readCandidate_now (hw : w.Wf)
    (hrun : gateway.run ls (.start w (HttpRequest.pool incoming)) = some cfg) {i : ℕ}
    {userId : String} {candidate : Candidate} (h : ReadCandidate userId candidate (cfg.trace i)) :
    ∃ email, cfg.world.HasAccount userId email ∧ cfg.world.EmailOf candidate.id email := by
  have hfacts := fact_run hw hrun
  obtain ⟨u, hu, hcandidate⟩ := h
  obtain ⟨hid, y, hy, hlater⟩ := hfacts _ (Config.mem_trace.mp hu)
  have hsame : y.id = u.id ∧ y.email = u.email ∧ y.password = u.password ∧
      y.createdAt = u.createdAt := by simpa [User.identity] using hlater.same
  refine ⟨u.email, ⟨y, hy, hsame.1.trans hid, hsame.2.1⟩, ?_⟩
  obtain hfound | ⟨d, hd, hcreated⟩ := hcandidate
  · obtain ⟨hemail, hof⟩ := hfacts _ (Config.mem_trace.mp hfound)
    exact hemail ▸ hof
  · obtain ⟨hemail, hof⟩ := hfacts _ (Config.mem_trace.mp hcreated)
    rw [← hd, ← hemail]
    exact hof

theorem readApplication_now (hw : w.Wf)
    (hrun : gateway.run ls (.start w (HttpRequest.pool incoming)) = some cfg) {i : ℕ}
    {a : Application} (ha : a ∈ cfg.world.db.applications.rows) {a' : ApplicationWithRelations}
    (hread : (⟨.prisma (.applicationFindUnique a.id), .ok (some a')⟩ : Event Api) ∈ cfg.trace i)
    (user : UserPayload) :
    (a'.job.createdById = user.id → cfg.world.db.OwnsJobOf user.id a) ∧
      (ReadApplicant user a' (cfg.trace i) → cfg.world.db.IsApplicantOf user.id a) := by
  obtain ⟨-, -, hrows, j, hj, hjid, hby⟩ := fact_run hw hrun _ (Config.mem_trace.mp hread)
  have hlater := (hrows a ha rfl).same
  have hjob : a.jobId = a'.jobId := congrArg (fun t => t.2.1) hlater
  have hcandidate : a.candidateId = a'.candidateId := congrArg (fun t => t.2.2.1) hlater
  refine ⟨fun howner => ⟨j, hj, hjid.trans hjob.symm, hby.trans howner⟩, ?_⟩
  rintro ⟨candidate, hcand, hid⟩
  obtain ⟨email, haccount, hemail⟩ := readCandidate_now hw hrun hcand
  refine (isApplicantOf_iff ha haccount ?_ user.id).mpr rfl
  rw [hcandidate, hid]
  exact hemail

/-- What entitles a user to the change of an application that the handler makes. -/
inductive MayChange (db : Db) (user : UserPayload) (a : Application)
    (made : List (Event Api)) : UserRoute → Prop where
  /-- the owner of its job and administrators: everything -/
  | review (dto : UpdateApplicationDto) (h : db.OwnsJobOf user.id a ∨ user.role = .admin) :
    MayChange db user a made (.updateApplication a.id dto)
  /-- its applicant: nothing of the review -/
  | letter (dto : UpdateApplicationDto) (h : db.IsApplicantOf user.id a)
    (hdto : dto.givesReview = false) : MayChange db user a made (.updateApplication a.id dto)
  | withdraw (h : db.IsApplicantOf user.id a ∨ user.role = .admin) :
    MayChange db user a made (.removeApplication a.id)
  /-- a request that has inserted it and could not hand it over -/
  | rollback (file : Option MulterFile) (dto : UploadCvDto) (d : ApplicationCreate)
    (inserted : Application)
    (h : (⟨.prisma (.applicationCreate d), .ok inserted⟩ : Event Api) ∈ made)
    (hid : inserted.id = a.id) : MayChange db user a made (.uploadCv file dto)
  /-- an administrator who deletes the candidate -/
  | cascade (h : user.role = .admin) : MayChange db user a made (.removeCandidate a.candidateId)

/-- A step that changes or removes an application is made for a user who, by the rows at that step,
is entitled to it. -/
theorem applications_protected (hw : w.Wf)
    (hrun : gateway.run ls (.start w (HttpRequest.pool incoming)) = some cfg)
    (hs : gateway.step l cfg = some cfg') {a : Application}
    (ha : a ∈ cfg.world.db.applications.rows) (hgone : a ∉ cfg'.world.db.applications.rows) :
    ∃ i ch route user, l = .run i ch ∧ (incoming i).route = .inr route ∧
      Cleared (incoming i) route (cfg.trace i) user ∧
      MayChange cfg.world.db user a (cfg.trace i) route := by
  have hne : cfg'.world.db ≠ cfg.world.db := fun heq => hgone (heq ▸ ha)
  obtain ⟨i, ch, c, v, rfl, hperf, hby⟩ := mediated_step hrun hs hne
  obtain hkept | ⟨d, rfl⟩ | rfl | rfl := PrismaCall.kept_applications hperf ha
  · exact absurd hkept hgone
  · obtain ⟨d', heq⟩ | ⟨route, user, hroute, hcleared, hentitled, hwrites⟩ := hby
    · cases heq
    refine ⟨i, ch, route, user, rfl, hroute, hcleared, ?_⟩
    obtain ⟨a', hread, hlive, hmay⟩ := hentitled
    obtain ⟨howner, happlicant⟩ := readApplication_now hw hrun ha hread user
    cases hwrites with
    | updateApplication id dto d hd =>
      obtain ⟨reviewedAt, -, rfl⟩ := hd
      cases hmay with
      | review hright hdata => exact .review dto (hright.imp_left howner)
      | withdraw now hright hdata => cases congrArg ApplicationUpdate.deletedAt hdata
      | letter dto' hright hdto hdata =>
        have heq : dto' = dto := by
          cases dto
          cases dto'
          simp only [ApplicationUpdate.mk.injEq] at hdata
          simp [hdata]
        exact .letter dto (happlicant hright) (heq ▸ hdto)
    | removeApplication id now =>
      cases hmay with
      | review hright hdata => cases hdata
      | withdraw now' hright hdata => exact .withdraw (hright.imp_left happlicant)
      | letter dto hright hdto hdata => cases congrArg ApplicationUpdate.deletedAt hdata
  · obtain ⟨d', heq⟩ | ⟨route, user, hroute, hcleared, hentitled, hwrites⟩ := hby
    · cases heq
    refine ⟨i, ch, route, user, rfl, hroute, hcleared, ?_⟩
    obtain ⟨d, inserted, hmade, hid⟩ := hentitled
    cases hwrites with
    | rollback file dto id => exact .rollback file dto d inserted hmade hid
  · obtain ⟨d', heq⟩ | ⟨route, user, hroute, hcleared, hentitled, hwrites⟩ := hby
    · cases heq
    refine ⟨i, ch, route, user, rfl, hroute, hcleared, ?_⟩
    cases hwrites with
    | removeCandidate id => exact .cascade hentitled

/-- A step that changes a candidate or an interview is made for a recruiter or an administrator, and
one that removes them for an administrator; an interview also goes with its application. -/
theorem records_protected
    (hrun : gateway.run ls (.start w (HttpRequest.pool incoming)) = some cfg)
    (hs : gateway.step l cfg = some cfg') :
    (∀ x ∈ cfg.world.db.candidates.rows, x ∉ cfg'.world.db.candidates.rows →
      ∃ route user, MadeFor incoming cfg l route user ∧
        ((∃ dto, route = .updateCandidate x.id dto ∧ user.role ∈ [Role.recruiter, .admin]) ∨
          (route = .removeCandidate x.id ∧ user.role = .admin))) ∧
    ∀ x ∈ cfg.world.db.interviews.rows, x ∉ cfg'.world.db.interviews.rows →
      (∃ route user, MadeFor incoming cfg l route user ∧ user.role ∈ [Role.recruiter, .admin] ∧
        ((∃ dto, route = .updateInterview x.id dto) ∨ route = .removeInterview x.id)) ∨
      ∃ a ∈ cfg.world.db.applications.rows, a.id = x.applicationId ∧
        a ∉ cfg'.world.db.applications.rows := by
  refine ⟨fun x hx hgone => ?_, fun x hx hgone => ?_⟩
  · have hne : cfg'.world.db ≠ cfg.world.db := fun heq => hgone (heq ▸ hx)
    obtain ⟨i, ch, c, v, rfl, hperf, hby⟩ := mediated_step hrun hs hne
    have hchanged := (PrismaCall.kept_candidates hperf hx).resolve_left hgone
    obtain ⟨d', rfl⟩ | ⟨route, user, hroute, hcleared, hentitled, hwrites⟩ := hby
    · simp at hchanged
    refine ⟨route, user, ⟨i, ch, rfl, hroute, hcleared⟩, ?_⟩
    obtain ⟨d, rfl⟩ | rfl := hchanged
    · cases hwrites with
      | updateCandidate id dto d => exact .inl ⟨dto, rfl, hcleared.roles _ rfl⟩
    · cases hwrites with
      | removeCandidate id => exact .inr ⟨rfl, by simpa using hcleared.roles _ rfl⟩
  · have hne : cfg'.world.db ≠ cfg.world.db := fun heq => hgone (heq ▸ hx)
    obtain ⟨i, ch, c, v, rfl, hperf, hby⟩ := mediated_step hrun hs hne
    obtain ⟨d, rfl⟩ | hcascade := (PrismaCall.kept_interviews hperf hx).resolve_left hgone
    swap
    · exact .inr hcascade
    obtain ⟨d', heq⟩ | ⟨route, user, hroute, hcleared, hentitled, hwrites⟩ := hby
    · cases heq
    refine .inl ⟨route, user, ⟨i, ch, rfl, hroute, hcleared⟩, hentitled, ?_⟩
    generalize hd : PrismaCall.interviewUpdate x.id d = c at hwrites
    cases hwrites <;> cases hd
    · exact .inl ⟨_, rfl⟩
    · exact .inr rfl

end Run

/-! ## Steps of Ada's -/

/-- After `n` steps of her request, Ada makes one more; `f` is something of the world. -/
theorem ada_steps {route : UserRoute} {n : ℕ} {β : Type} {f : World → β} {x y : β}
    (h : ((gateway.run (List.replicate n (.run 0 {}))
      (.start seeded (HttpRequest.pool (adaAsks route)))).bind fun cfg =>
        (gateway.step (.run 0 {}) cfg).map fun cfg' => (f cfg.world, f cfg'.world)) = some (x, y)) :
    ∃ cfg cfg', gateway.run (List.replicate n (.run 0 {}))
        (.start seeded (HttpRequest.pool (adaAsks route))) = some cfg ∧
      gateway.step (.run 0 {}) cfg = some cfg' ∧ f cfg.world = x ∧ f cfg'.world = y := by
  obtain ⟨cfg, hrun, h⟩ := Option.bind_eq_some_iff.mp h
  obtain ⟨cfg', hs, h⟩ := Option.map_eq_some_iff.mp h
  cases h
  exact ⟨cfg, cfg', hrun, hs, rfl, rfl⟩

theorem users_protected_ian :
    ∃ cfg cfg', gateway.run (List.replicate 4 (.run 0 {}))
        (.start seeded (HttpRequest.pool (adaAsks (.softDeleteUser "u-ian")))) = some cfg ∧
      gateway.step (.run 0 {}) cfg = some cfg' ∧
      ∃ route user, MadeFor (adaAsks (.softDeleteUser "u-ian")) cfg (.run 0 {}) route user ∧
        ((∃ dto, route = .updateProfile ian.id dto ∧ (user.id = ian.id ∨ user.role = .admin)) ∨
          (∃ role, route = .updateRole ian.id role ∧ user.role = .admin) ∨
          (route = .softDeleteUser ian.id ∧ user.role = .admin)) := by
  obtain ⟨cfg, cfg', hrun, hs, hbefore, hafter⟩ := @ada_steps (.softDeleteUser "u-ian") 4 _
    (fun w => decide (ian ∈ w.db.users.rows)) true false (by decide +kernel)
  exact ⟨cfg, cfg', hrun, hs,
    users_protected hrun hs (of_decide_eq_true hbefore) (of_decide_eq_false hafter)⟩

theorem jobs_protected_backend :
    ∃ cfg cfg', gateway.run (List.replicate 3 (.run 0 {}))
        (.start seeded (HttpRequest.pool (adaAsks
          (.updateJob "j-backend" { status := .value .closed })))) = some cfg ∧
      gateway.step (.run 0 {}) cfg = some cfg' ∧
      ∃ route user, MadeFor (adaAsks (.updateJob "j-backend" { status := .value .closed })) cfg
          (.run 0 {}) route user ∧
        ((∃ dto, route = .updateJob backend.id dto) ∨ route = .removeJob backend.id) ∧
        user.role ∈ [Role.recruiter, .admin] ∧
        (user.id = backend.createdById ∨ user.role = .admin) := by
  obtain ⟨cfg, cfg', hrun, hs, hbefore, hafter⟩ :=
    @ada_steps (.updateJob "j-backend" { status := .value .closed }) 3 _
      (fun w => decide (backend ∈ w.db.jobs.rows)) true false (by decide +kernel)
  exact ⟨cfg, cfg', hrun, hs, jobs_protected seeded_wf hrun hs (of_decide_eq_true hbefore)
    (of_decide_eq_false hafter)⟩

theorem applications_protected_cleo :
    ∃ cfg cfg', gateway.run (List.replicate 8 (.run 0 {}))
        (.start seeded (HttpRequest.pool (adaAsks (.removeApplication "a-cleo")))) = some cfg ∧
      gateway.step (.run 0 {}) cfg = some cfg' ∧
      ∃ i ch route user, Label.run 0 ({} : Choice) = (.run i ch : Label ℕ Choice Move) ∧
        (adaAsks (.removeApplication "a-cleo") i).route = .inr route ∧
        Cleared (adaAsks (.removeApplication "a-cleo") i) route (cfg.trace i) user ∧
        MayChange cfg.world.db user cleosApplication (cfg.trace i) route := by
  obtain ⟨cfg, cfg', hrun, hs, hbefore, hafter⟩ := @ada_steps (.removeApplication "a-cleo") 8 _
    (fun w => decide (cleosApplication ∈ w.db.applications.rows)) true false (by decide +kernel)
  exact ⟨cfg, cfg', hrun, hs, applications_protected seeded_wf hrun hs (of_decide_eq_true hbefore)
    (of_decide_eq_false hafter)⟩

theorem records_protected_cleo :
    ∃ cfg cfg', gateway.run (List.replicate 3 (.run 0 {}))
        (.start seeded (HttpRequest.pool (adaAsks (.removeCandidate "c-cleo")))) = some cfg ∧
      gateway.step (.run 0 {}) cfg = some cfg' ∧
      ∃ route user, MadeFor (adaAsks (.removeCandidate "c-cleo")) cfg (.run 0 {}) route user ∧
        ((∃ dto, route = .updateCandidate cleo.id dto ∧ user.role ∈ [Role.recruiter, .admin]) ∨
          (route = .removeCandidate cleo.id ∧ user.role = .admin)) := by
  obtain ⟨cfg, cfg', hrun, hs, hbefore, hafter⟩ := @ada_steps (.removeCandidate "c-cleo") 3 _
    (fun w => decide (cleo ∈ w.db.candidates.rows)) true false (by decide +kernel)
  exact ⟨cfg, cfg', hrun, hs, (records_protected hrun hs).1 cleo (of_decide_eq_true hbefore)
    (of_decide_eq_false hafter)⟩

end TalentFlow
