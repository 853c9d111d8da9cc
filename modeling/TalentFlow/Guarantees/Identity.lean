import TalentFlow.Gateway.Routes

/-!
# Guarantees.Identity

What never changes about a row, whatever requests run and however they interleave. The columns that
say what a row is about are written when it is inserted and never again; a mark of deletion is set
and never taken back; and an id that a deleted row has left behind is not given to another row. So
what a request has read of them is still true when it writes.

* `World.Keeps`: the relation between an earlier and a later world, a preorder.
* `keeps_exec`: every call keeps it that does not clear a mark.
* `identities_kept`: any two states of a run are so related.
-/

namespace TalentFlow

open Data Async

/-! ## Rows -/

/-! The columns that are written once. -/

def User.identity (u : User) : String × String × String × Time :=
  (u.id, u.email, u.password, u.createdAt)

def Job.identity (j : Job) : String × String × Time := (j.id, j.createdById, j.createdAt)

def Candidate.identity (x : Candidate) : String × String × Time := (x.id, x.email, x.createdAt)

def Application.identity (a : Application) :
    String × String × String × Option String × Option String × Time × Time :=
  (a.id, a.jobId, a.candidateId, a.cvFileKey, a.cvFileUrl, a.appliedAt, a.createdAt)

def Interview.identity (x : Interview) : String × String × Time :=
  (x.id, x.applicationId, x.createdAt)

section Rows

variable {ρ κ : Type} {identity : ρ → κ} {mark : ρ → Option Time} {key : ρ → String}
  {rows rows' rows'' : List ρ} {ids ids' : List String} {x y z : ρ}

structure Later (identity : ρ → κ) (mark : ρ → Option Time) (x y : ρ) : Prop where
  same : identity y = identity x
  marked : mark x ≠ none → mark y ≠ none

theorem Later.refl (x : ρ) : Later identity mark x x := ⟨rfl, id⟩

theorem Later.trans (h : Later identity mark x y) (h' : Later identity mark y z) :
    Later identity mark x z := ⟨h'.same.trans h.same, fun hx => h'.marked (h.marked hx)⟩

def Lasting (identity : ρ → κ) (mark : ρ → Option Time) (rows rows' : List ρ) : Prop :=
  ∀ x ∈ rows, ∃ y ∈ rows', Later identity mark x y

/-- Every later row was there before, or has an id that was not in `ids`. -/
def Inherited (identity : ρ → κ) (mark : ρ → Option Time) (key : ρ → String) (ids : List String)
    (rows rows' : List ρ) : Prop :=
  ∀ y ∈ rows', (∃ x ∈ rows, Later identity mark x y) ∨ key y ∉ ids

theorem Lasting.refl (rows : List ρ) : Lasting identity mark rows rows :=
  fun x hx => ⟨x, hx, .refl x⟩

theorem Lasting.trans (h : Lasting identity mark rows rows')
    (h' : Lasting identity mark rows' rows'') : Lasting identity mark rows rows'' := by
  intro x hx
  obtain ⟨y, hy, hxy⟩ := h x hx
  obtain ⟨z, hz, hyz⟩ := h' y hy
  exact ⟨z, hz, hxy.trans hyz⟩

theorem Inherited.refl (rows : List ρ) : Inherited identity mark key ids rows rows :=
  fun x hx => .inl ⟨x, hx, .refl x⟩

theorem Inherited.trans (hkey : ∀ {x y}, identity y = identity x → key y = key x)
    (hids : ∀ u ∈ ids, u ∈ ids') (h : Inherited identity mark key ids rows rows')
    (h' : Inherited identity mark key ids' rows' rows'') :
    Inherited identity mark key ids rows rows'' := by
  intro z hz
  obtain ⟨y, hy, hyz⟩ | hfresh := h' z hz
  · obtain ⟨x, hx, hxy⟩ | hfresh := h y hy
    · exact .inl ⟨x, hx, hxy.trans hyz⟩
    · exact .inr (by rwa [hkey hyz.same])
  · exact .inr fun hold => hfresh (hids _ hold)

end Rows

/-! ## Worlds -/

/-- What a later world has kept of an earlier one. Candidates, applications and interviews can be
deleted; no other row then gets their id. -/
structure World.Keeps (w w' : World) : Prop where
  drawn : ∀ u ∈ w.uuids, u ∈ w'.uuids
  users : Lasting User.identity User.deletedAt w.db.users.rows w'.db.users.rows
  jobs : Lasting Job.identity Job.deletedAt w.db.jobs.rows w'.db.jobs.rows
  candidates : Inherited Candidate.identity (fun _ => none) Candidate.id w.uuids
    w.db.candidates.rows w'.db.candidates.rows
  applications : Inherited Application.identity Application.deletedAt Application.id w.uuids
    w.db.applications.rows w'.db.applications.rows
  interviews : Inherited Interview.identity (fun _ => none) Interview.id w.uuids
    w.db.interviews.rows w'.db.interviews.rows

theorem World.Keeps.of_db {w w' : World} (hdb : w'.db = w.db) (hdrawn : ∀ u ∈ w.uuids, u ∈ w'.uuids) :
    w.Keeps w' := by
  refine ⟨hdrawn, ?_, ?_, ?_, ?_, ?_⟩ <;> rw [hdb]
  · exact .refl _
  · exact .refl _
  · exact .refl _
  · exact .refl _
  · exact .refl _

theorem World.Keeps.refl (w : World) : w.Keeps w := .of_db rfl fun _ => id

theorem World.Keeps.trans {w w' w'' : World} (h : w.Keeps w') (h' : w'.Keeps w'') : w.Keeps w'' where
  drawn u hu := h'.drawn u (h.drawn u hu)
  users := h.users.trans h'.users
  jobs := h.jobs.trans h'.jobs
  candidates := h.candidates.trans (congrArg Prod.fst) h.drawn h'.candidates
  applications := h.applications.trans (congrArg Prod.fst) h.drawn h'.applications
  interviews := h.interviews.trans (congrArg Prod.fst) h.drawn h'.interviews

/-! ## Calls -/

def Call.KeepsMarks : Call → Prop
  | .prisma (.userUpdate _ d) => d.deletedAt ≠ .null
  | .prisma (.jobUpdate _ d) => d.deletedAt ≠ .null
  | .prisma (.applicationUpdate _ d) => d.deletedAt ≠ .null
  | _ => True

theorem footprint_keepsMarks (r : Request) (c : Call) (h : c.IsQuiet ∨ r.footprint c) :
    c.KeepsMarks := by
  obtain hquiet | hfoot := h
  · cases c with
    | prisma c => cases c <;> trivial
    | _ => trivial
  cases r with
  | updateProfile cookie id dto =>
    cases hfoot
    exact nofun
  | updateRole cookie id role =>
    cases hfoot
    exact nofun
  | softDeleteUser cookie id =>
    obtain ⟨now, rfl⟩ := hfoot
    exact nofun
  | updateApplication id userId userRole dto =>
    obtain ⟨data, ⟨reviewedAt, -, rfl⟩, rfl⟩ := hfoot
    exact nofun
  | removeApplication id userId userRole =>
    obtain ⟨now, rfl⟩ := hfoot
    exact nofun
  | updateJob id userId userRole dto =>
    cases hfoot
    exact nofun
  | removeJob id userId userRole =>
    obtain ⟨now, rfl⟩ := hfoot
    exact nofun
  | _ =>
    cases c with
    | prisma c => cases c <;> first | trivial | simp [Request.footprint] at hfoot
    | _ => trivial

section Exec

variable {i : ℕ} {ch : Choice} {w w' : World} {c : Call} {r : Api.Answer c}

theorem users_last (hc : c.KeepsMarks) (h : gateway.exec i c ch w = some (r, w')) :
    Lasting User.identity User.deletedAt w.db.users.rows w'.db.users.rows := by
  have hsame : w'.db.users = w.db.users →
      Lasting User.identity User.deletedAt w.db.users.rows w'.db.users.rows := by
    intro husers
    rw [husers]
    exact .refl _
  cases c with
  | prisma c =>
    obtain ⟨e, -, rfl⟩ | ⟨v, db, -, -, hperf, -, rfl⟩ := prisma_cases h
    · exact .refl _
    cases c with
    | userCreate d =>
      obtain ⟨-, _, hins⟩ := PrismaCall.perform_userCreate hperf
      intro u hu
      exact ⟨u, (Table.mem_insert (Db.insertUser_eq_some hins).1).mpr (.inl hu), .refl u⟩
    | userUpdate key d =>
      obtain ⟨-, -, -, -, htext, rfl⟩ := PrismaCall.perform_userUpdate hperf
      intro u hu
      by_cases hid : u.id = key
      · exact ⟨d.apply w.now u, (@Db.mem_modifyUser _ _ _ _ _ htext _).mpr (.inr ⟨u, hu, hid, rfl⟩),
          rfl, Field.orKeep_ne_none hc⟩
      · exact ⟨u, (@Db.mem_modifyUser _ _ _ _ _ htext _).mpr (.inl ⟨hu, hid⟩), .refl u⟩
    | _ => exact hsame ((PrismaCall.perform_frame hperf).users (by simp) (by simp))
  | _ => exact hsame (by rw [(exec_frame h).db (by simp)])

theorem jobs_last (hc : c.KeepsMarks) (h : gateway.exec i c ch w = some (r, w')) :
    Lasting Job.identity Job.deletedAt w.db.jobs.rows w'.db.jobs.rows := by
  have hsame : w'.db.jobs = w.db.jobs →
      Lasting Job.identity Job.deletedAt w.db.jobs.rows w'.db.jobs.rows := by
    intro hjobs
    rw [hjobs]
    exact .refl _
  cases c with
  | prisma c =>
    obtain ⟨e, -, rfl⟩ | ⟨v, db, -, -, hperf, -, rfl⟩ := prisma_cases h
    · exact .refl _
    cases c with
    | jobUpdate key d =>
      obtain ⟨-, -, -, -, rfl⟩ := PrismaCall.perform_jobUpdate hperf
      have hmem := @Db.mem_modifyJob w.db key (d.apply w.now) (fun _ => rfl) (fun _ => rfl)
      intro j hj
      by_cases hid : j.id = key
      · exact ⟨d.apply w.now j, hmem.mpr (.inr ⟨j, hj, hid, rfl⟩), rfl, Field.orKeep_ne_none hc⟩
      · exact ⟨j, hmem.mpr (.inl ⟨hj, hid⟩), .refl j⟩
    | _ => exact hsame ((PrismaCall.perform_frame hperf).jobs (by simp))
  | _ => exact hsame (by rw [(exec_frame h).db (by simp)])

theorem candidates_inherited (h : gateway.exec i c ch w = some (r, w')) :
    Inherited Candidate.identity (fun _ => none) Candidate.id w.uuids w.db.candidates.rows
      w'.db.candidates.rows := by
  intro x hx
  cases c with
  | prisma c =>
    obtain ⟨e, -, rfl⟩ | ⟨v, db, -, hallow, hperf, -, rfl⟩ := prisma_cases h
    · exact .inl ⟨x, hx, .refl x⟩
    obtain hx | ⟨d, rfl, rfl⟩ | ⟨d, x₀, rfl, hx₀, rfl⟩ := PrismaCall.mem_candidates hperf hx
    · exact .inl ⟨x, hx, .refl x⟩
    · exact .inr (hallow.1 rfl).2
    · exact .inl ⟨x₀, hx₀, rfl, id⟩
  | _ =>
    rw [(exec_frame h).db (by simp)] at hx
    exact .inl ⟨x, hx, .refl x⟩

theorem applications_inherited (hc : c.KeepsMarks) (h : gateway.exec i c ch w = some (r, w')) :
    Inherited Application.identity Application.deletedAt Application.id w.uuids
      w.db.applications.rows w'.db.applications.rows := by
  intro a ha
  cases c with
  | prisma c =>
    obtain ⟨e, -, rfl⟩ | ⟨v, db, -, hallow, hperf, -, rfl⟩ := prisma_cases h
    · exact .inl ⟨a, ha, .refl a⟩
    obtain ha | ⟨d, rfl, rfl⟩ | ⟨d, a₀, rfl, ha₀, rfl⟩ := PrismaCall.mem_applications hperf ha
    · exact .inl ⟨a, ha, .refl a⟩
    · exact .inr (hallow.1 rfl).2
    · exact .inl ⟨a₀, ha₀, rfl, Field.orKeep_ne_none hc⟩
  | _ =>
    rw [(exec_frame h).db (by simp)] at ha
    exact .inl ⟨a, ha, .refl a⟩

theorem interviews_inherited (h : gateway.exec i c ch w = some (r, w')) :
    Inherited Interview.identity (fun _ => none) Interview.id w.uuids w.db.interviews.rows
      w'.db.interviews.rows := by
  intro x hx
  cases c with
  | prisma c =>
    obtain ⟨e, -, rfl⟩ | ⟨v, db, -, hallow, hperf, -, rfl⟩ := prisma_cases h
    · exact .inl ⟨x, hx, .refl x⟩
    obtain hx | ⟨d, t, rfl, rfl⟩ | ⟨d, x₀, rfl, hx₀, rfl⟩ := PrismaCall.mem_interviews hperf hx
    · exact .inl ⟨x, hx, .refl x⟩
    · exact .inr (hallow.1 rfl).2
    · exact .inl ⟨x₀, hx₀, rfl, id⟩
  | _ =>
    rw [(exec_frame h).db (by simp)] at hx
    exact .inl ⟨x, hx, .refl x⟩

/-- A call that clears no mark keeps what a row is about. -/
theorem keeps_exec (hc : c.KeepsMarks) (h : gateway.exec i c ch w = some (r, w')) : w.Keeps w' where
  drawn _ hu := uuids_exec h hu
  users := users_last hc h
  jobs := jobs_last hc h
  candidates := candidates_inherited h
  applications := applications_inherited hc h
  interviews := interviews_inherited h

theorem keeps_move {mv : Move} (h : gateway.move mv w = some w') : w.Keeps w' := by
  refine .of_db (db_of_move h) fun u hu => ?_
  obtain ⟨elapsed, -, rfl⟩ | ⟨channel, broker, rfl⟩ := move_cases h
  · exact hu
  · exact hu

end Exec

/-! ## Runs -/

/-- No thread makes a call that clears a mark. -/
def KeepMarks {α : Type} (cfg : Config Api ℕ World α) : Prop :=
  ∀ i, (cfg.pool i).Calls Call.KeepsMarks

section Run

variable {α : Type} {cfg cfg' : Config Api ℕ World α} {l : Label ℕ Choice Move}
  {ls : List (Label ℕ Choice Move)}

theorem keeps_step (hcalls : KeepMarks cfg) (hs : gateway.step l cfg = some cfg') :
    cfg.world.Keeps cfg'.world := by
  obtain ⟨i, ch, c, k, r, w, rfl, hp, hx, rfl⟩ | ⟨mv, w, rfl, hm, rfl⟩ := Machine.step_cases hs
  · have hi := hcalls i
    rw [hp] at hi
    exact keeps_exec hi.1 hx
  · exact keeps_move hm

theorem keeps_run (hcalls : KeepMarks cfg) (hrun : gateway.run ls cfg = some cfg') :
    cfg.world.Keeps cfg'.world :=
  (Machine.run_induction (fun cfg₁ => KeepMarks cfg₁ ∧ cfg.world.Keeps cfg₁.world)
    (fun h hs => ⟨calls_step h.1 hs, h.2.trans (keeps_step h.1 hs)⟩) ⟨hcalls, .refl _⟩ hrun).2

theorem http_keepMarks (incoming : ℕ → HttpRequest) (w : World) :
    KeepMarks (.start w (HttpRequest.pool incoming)) :=
  fun i => http_calls footprint_keepsMarks (incoming i)

/-- Between any two states of a run, what the rows are about and which are deleted is kept. -/
theorem identities_kept {incoming : ℕ → HttpRequest} {w : World}
    {ls₁ ls₂ : List (Label ℕ Choice Move)} {cfg₁ cfg₂ : Config Api ℕ World Response}
    (hrun₁ : gateway.run ls₁ (.start w (HttpRequest.pool incoming)) = some cfg₁)
    (hrun₂ : gateway.run ls₂ cfg₁ = some cfg₂) : cfg₁.world.Keeps cfg₂.world :=
  keeps_run (calls_run (http_keepMarks incoming w) hrun₁) hrun₂

end Run

theorem identities_kept_ada :
    ∃ cfg, gateway.run (List.replicate 5 (.run 0 {}))
        (.start seeded (HttpRequest.pool (adaAsks (.softDeleteUser "u-ian")))) = some cfg ∧
      seeded.Keeps cfg.world := by
  obtain ⟨cfg, hrun⟩ := Option.isSome_iff_exists.mp (show (gateway.run
    (List.replicate 5 (.run 0 {}))
    (.start seeded (HttpRequest.pool (adaAsks (.softDeleteUser "u-ian"))))).isSome = true by
      decide +kernel)
  exact ⟨cfg, hrun, @identities_kept _ seeded [] _ (.start seeded _) _ rfl hrun⟩

end TalentFlow
