import TalentFlow.Gateway.Footprint

/-!
# Gateway.WellFormed

The worlds the gateway can be in: no UUID is drawn twice and every id of a user, a candidate or an
application has been drawn. So a row that is created later never takes the id of an earlier one,
not even of one that is gone.

* `wf_exec`, `wf_run`: every call and every run keep it.
* `uuids_run`: a UUID once drawn stays drawn.
* `bcrypt_step`, `now_step`: what every step keeps of the hashes and of the clock.
* `seeded`: a small world to run requests on.
-/

namespace TalentFlow

open Data Async

structure World.Wf (w : World) : Prop where
  uuids_nodup : w.uuids.Nodup
  users : ∀ u ∈ w.db.users.rows, u.id ∈ w.uuids
  candidates : ∀ c ∈ w.db.candidates.rows, c.id ∈ w.uuids
  applications : ∀ a ∈ w.db.applications.rows, a.id ∈ w.uuids

variable {i : ℕ} {ch : Choice} {w w' : World} {c : Call} {r : Api.Answer c}

theorem drawn_exec (h : gateway.exec i c ch w = some (r, w')) {p : ℕ × String}
    (hp : p ∈ w.drawn) : p ∈ w'.drawn := by
  obtain hd | ⟨u, -, hd⟩ := (exec_frame h).drawn
  · rwa [hd]
  · rw [hd]
    exact List.mem_append_left _ hp

theorem mem_uuids {k : ℕ} {u : String} (h : (k, u) ∈ w.drawn) : u ∈ w.uuids :=
  List.mem_map.mpr ⟨(k, u), h, rfl⟩

/-- Two requests never draw the same id. -/
theorem drawn_unique (h : w.uuids.Nodup) {i j : ℕ} {u : String} (hi : (i, u) ∈ w.drawn)
    (hj : (j, u) ∈ w.drawn) : i = j :=
  congrArg Prod.fst (List.inj_on_of_nodup_map h hi hj rfl)

theorem uuids_exec (h : gateway.exec i c ch w = some (r, w')) {u : String} (hu : u ∈ w.uuids) :
    u ∈ w'.uuids := by
  obtain ⟨⟨k, u⟩, hdrawn, rfl⟩ := List.mem_map.mp hu
  exact mem_uuids (drawn_exec h hdrawn)

theorem uuids_nodup_exec (h : gateway.exec i c ch w = some (r, w')) (hw : w.uuids.Nodup) :
    w'.uuids.Nodup := by
  obtain hd | ⟨u, hu, hd⟩ := (exec_frame h).drawn
  · rw [World.uuids, hd]
    exact hw
  · rw [World.uuids, hd, List.map_append]
    exact List.nodup_append.mpr ⟨hw, by simp, by
      intro x hx y hy hxy
      have : y = u := by simpa using hy
      exact hu.2 (by rw [← this, ← hxy]; exact hx)⟩

theorem wf_exec (h : gateway.exec i c ch w = some (r, w')) (hw : w.Wf) : w'.Wf := by
  have hnodup : w'.uuids.Nodup := uuids_nodup_exec h hw.uuids_nodup
  cases c with
  | prisma c =>
    obtain ⟨e, -, rfl⟩ | ⟨v, db, -, -, hp, -, rfl⟩ := prisma_cases h
    · exact hw
    refine ⟨hnodup, fun u hu => ?_, fun x hx => ?_, fun a ha => ?_⟩
    · obtain hu | ⟨d, rfl, rfl⟩ | ⟨d, u₀, rfl, hu₀, rfl⟩ := PrismaCall.mem_users hp hu
      · exact uuids_exec h (hw.users u hu)
      · simp [World.uuids, PrismaCall.drawsId, UserCreate.row]
      · exact uuids_exec h (hw.users u₀ hu₀)
    · obtain hx | ⟨d, rfl, rfl⟩ | ⟨d, x₀, rfl, hx₀, rfl⟩ := PrismaCall.mem_candidates hp hx
      · exact uuids_exec h (hw.candidates x hx)
      · simp [World.uuids, PrismaCall.drawsId, CandidateCreate.row]
      · exact uuids_exec h (hw.candidates x₀ hx₀)
    · obtain ha | ⟨d, rfl, rfl⟩ | ⟨d, a₀, rfl, ha₀, rfl⟩ := PrismaCall.mem_applications hp ha
      · exact uuids_exec h (hw.applications a ha)
      · simp [World.uuids, PrismaCall.drawsId, ApplicationCreate.row]
      · exact uuids_exec h (hw.applications a₀ ha₀)
  | _ =>
    have hdb : w'.db = w.db := (exec_frame h).db (by simp)
    refine ⟨hnodup, ?_, ?_, ?_⟩ <;> rw [hdb]
    · exact fun u hu => uuids_exec h (hw.users u hu)
    · exact fun x hx => uuids_exec h (hw.candidates x hx)
    · exact fun a ha => uuids_exec h (hw.applications a ha)

theorem wf_move {mv : Move} (h : gateway.move mv w = some w') (hw : w.Wf) : w'.Wf := by
  obtain ⟨elapsed, -, rfl⟩ | ⟨channel, broker, rfl⟩ := move_cases h
  · exact ⟨hw.uuids_nodup, hw.users, hw.candidates, hw.applications⟩
  · exact ⟨hw.uuids_nodup, hw.users, hw.candidates, hw.applications⟩

variable {α : Type} {ls : List (Label ℕ Choice Move)} {cfg cfg' : Config Api ℕ World α}

theorem wf_step {l : Label ℕ Choice Move} (hw : cfg.world.Wf)
    (hs : gateway.step l cfg = some cfg') : cfg'.world.Wf := by
  obtain ⟨i, ch, c, k, r, w, rfl, -, hx, rfl⟩ | ⟨mv, w, rfl, hm, rfl⟩ := Machine.step_cases hs
  · exact wf_exec hx hw
  · exact wf_move hm hw

theorem wf_run (hw : cfg.world.Wf) (hrun : gateway.run ls cfg = some cfg') : cfg'.world.Wf :=
  Machine.run_induction (fun cfg => cfg.world.Wf) (fun h hs => wf_step h hs) hw hrun

theorem uuids_step {l : Label ℕ Choice Move} {u : String} (hu : u ∈ cfg.world.uuids)
    (hs : gateway.step l cfg = some cfg') : u ∈ cfg'.world.uuids := by
  obtain ⟨i, ch, c, k, r, w, rfl, -, hx, rfl⟩ | ⟨mv, w, rfl, hm, rfl⟩ := Machine.step_cases hs
  · exact uuids_exec hx hu
  · obtain ⟨elapsed, -, rfl⟩ | ⟨channel, broker, rfl⟩ := move_cases hm
    · exact hu
    · exact hu

theorem uuids_run {u : String} (hu : u ∈ cfg.world.uuids) (hrun : gateway.run ls cfg = some cfg') :
    u ∈ cfg'.world.uuids :=
  Machine.run_induction (fun cfg => u ∈ cfg.world.uuids) (fun h hs => uuids_step h hs) hu hrun

theorem bcrypt_step {l : Label ℕ Choice Move} (hs : gateway.step l cfg = some cfg') :
    cfg'.world.bcrypt = cfg.world.bcrypt := by
  obtain ⟨i, ch, c, k, r, w, rfl, hp, hx, rfl⟩ | ⟨mv, w, rfl, hm, rfl⟩ := Machine.step_cases hs
  · exact (exec_frame hx).bcrypt
  · obtain ⟨elapsed, -, rfl⟩ | ⟨channel, broker, rfl⟩ := move_cases hm <;> rfl

theorem now_step {l : Label ℕ Choice Move} (hs : gateway.step l cfg = some cfg') :
    cfg.world.now ≤ cfg'.world.now := by
  obtain ⟨i, ch, c, k, r, w, rfl, hp, hx, rfl⟩ | ⟨mv, w, rfl, hm, rfl⟩ := Machine.step_cases hs
  · exact le_of_eq (exec_frame hx).now.symm
  · obtain ⟨elapsed, -, rfl⟩ | ⟨channel, broker, rfl⟩ := move_cases hm
    · exact Nat.le_add_right _ _
    · exact le_rfl

/-! ## A world to run on -/

def ada : User where
  id := "u-ada"
  email := "ada@talentflow.dev"
  password := "hash:Ada-2024!"
  role := .admin
  fullName := "Ada"
  createdAt := 0
  updatedAt := 0

def ray : User where
  id := "u-ray"
  email := "ray@talentflow.dev"
  password := "hash:Ray-2024!"
  role := .recruiter
  fullName := "Ray"
  createdAt := 0
  updatedAt := 0

def ian : User where
  id := "u-ian"
  email := "ian@talentflow.dev"
  password := "hash:Ian-2024!"
  role := .interviewer
  fullName := "Ian"
  createdAt := 0
  updatedAt := 0

def backend : Job where
  id := "j-backend"
  title := "Backend engineer"
  status := .open
  createdById := "u-ray"
  createdAt := 0
  updatedAt := 0

def frontend : Job where
  id := "j-frontend"
  title := "Frontend engineer"
  status := .open
  createdById := "u-ray"
  createdAt := 0
  updatedAt := 0

def cleo : Candidate where
  id := "c-cleo"
  email := "cleo@example.com"
  fullName := "Cleo"
  createdAt := 0
  updatedAt := 0

def cleosApplication : Application where
  id := "a-cleo"
  jobId := "j-backend"
  candidateId := "c-cleo"
  appliedAt := 0
  createdAt := 0
  updatedAt := 0

/-- Three users, two open jobs and one application, by somebody who has no account. -/
def seeded : World where
  db :=
    { users := ⟨[ada, ray, ian], by decide, by decide⟩
      jobs := ⟨[backend, frontend], by decide, by decide⟩
      candidates := ⟨[cleo], by decide, by decide⟩
      applications := ⟨[cleosApplication], by decide, by decide⟩
      interviews := .empty
      users_text := by decide +kernel
      jobs_created_by_id_fkey := by decide
      applications_job_id_fkey := by decide
      applications_candidate_id_fkey := by decide
      interviews_application_id_fkey := fun _ hx => absurd hx List.not_mem_nil
      interviews_interviewer_id_fkey := fun _ hx => absurd hx List.not_mem_nil }
  redis := .empty
  storage :=
    { bucketName := "talentflow-cvs", publicUrl := none, endpoint := "http://localhost:9000",
      objects := fun _ => none, settings := by decide +kernel }
  bcrypt plain hashed := hashed = "hash:" ++ plain
  drawn := [(0, "u-ada"), (0, "u-ray"), (0, "u-ian"), (0, "c-cleo"), (0, "a-cleo")]

theorem seeded_wf : seeded.Wf := by
  refine ⟨by decide, by decide, by decide, by decide⟩

def adasAccess : AccessToken where
  sub := "u-ada"
  email := ada.email
  role := .admin
  iat := 0
  exp := JWT_ACCESS_TOKEN_EXPIRATION

def raysToken : RefreshToken where
  sub := "u-ray"
  email := "ray@talentflow.dev"
  role := .recruiter
  tokenId := "t-ray"
  iat := 0
  exp := JWT_REFRESH_TOKEN_EXPIRATION

def signedIn : World :=
  { seeded with
    redis := seeded.redis.set (.refreshToken "u-ray") raysToken
      (some (seconds JWT_REFRESH_TOKEN_EXPIRATION))
    drawn := seeded.drawn ++ [(0, "t-ray")] }

end TalentFlow
