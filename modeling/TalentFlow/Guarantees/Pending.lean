import TalentFlow.Guarantees.Acceptance
import TalentFlow.Guarantees.Withdrawal

/-!
# Guarantees.Pending

Interviews that are still to come and the parties they refer to. `create` and `update` check that
the application and the interviewer are live; withdrawing an application and deleting a user only
set `deletedAt`, so that no foreign key notices, and do not look at interviews.

* `pendingLive_exec`: the calls that keep the parties of pending interviews live.
* `pendingLive_happens`: the requests that do; `create` always does.
* `pending_live`: histories and runs in which every step does.
-/

namespace TalentFlow

open Data Async

def InterviewStatus.isPending : InterviewStatus → Bool
  | .scheduled => true
  | .confirmed => true
  | _ => false

namespace Db

def HasLiveApplication (db : Db) (id : String) : Prop :=
  ∃ a ∈ db.applications.rows, a.id = id ∧ a.deletedAt = none

def HasLiveUser (db : Db) (id : String) : Prop :=
  ∃ u ∈ db.users.rows, u.id = id ∧ u.deletedAt = none

/-- The application of the interview and its interviewer, if it has one, are live. -/
def PartiesLive (db : Db) (x : Interview) : Prop :=
  db.HasLiveApplication x.applicationId ∧ ∀ id ∈ x.interviewerId, db.HasLiveUser id

def NonePendingFor (db : Db) (applicationId : String) : Prop :=
  ∀ x ∈ db.interviews.rows, x.status.isPending = true → x.applicationId ≠ applicationId

def NonePendingBy (db : Db) (userId : String) : Prop :=
  ∀ x ∈ db.interviews.rows, x.status.isPending = true → x.interviewerId ≠ some userId

end Db

def PendingLive (w : World) : Prop :=
  ∀ x ∈ w.db.interviews.rows, x.status.isPending = true → w.db.PartiesLive x

/-- What is soft-deleted has no pending interviews, and what becomes or stays pending has live
parties. -/
def Call.KeepsParties (w : World) : Call → Prop
  | .prisma (.applicationUpdate id data) =>
    (∃ t, data.deletedAt = .value t) → w.db.NonePendingFor id
  | .prisma (.userUpdate id data) => (∃ t, data.deletedAt = .value t) → w.db.NonePendingBy id
  | .prisma (.interviewCreate data) =>
    w.db.HasLiveApplication data.applicationId ∧ ∀ id ∈ data.interviewerId, w.db.HasLiveUser id
  | .prisma (.interviewUpdate id data) =>
    ∀ x ∈ w.db.interviews.rows, x.id = id → (data.apply w.now x).status.isPending = true →
      w.db.PartiesLive (data.apply w.now x)
  | _ => True

/-! ## Calls -/

section Calls

variable {i : ℕ} {ch : Choice} {w w' : World} {c : Call} {r : Api.Answer c}

/-- A live application stays so if it stays at all, unless it is soft-deleted. -/
theorem liveApplication_kept {c : PrismaCall} {id : String} {rows : Rows} {db db' : Db}
    {v : c.Value} (hperf : c.perform w.now id rows db = (.ok v, db')) {a : Application}
    (hlive : db.HasLiveApplication a.id) (ha : a ∈ db'.applications.rows)
    (hkept : ∀ data t, c = .applicationUpdate a.id data → data.deletedAt ≠ .value t) :
    a.deletedAt = none := by
  obtain ⟨b, hb, hid, hnone⟩ := hlive
  obtain ha | ⟨d, -, rfl⟩ | ⟨d, a₀, rfl, ha₀, rfl⟩ := PrismaCall.mem_applications hperf ha
  · rwa [db.applications.key_inj ha hb hid.symm]
  · rfl
  · obtain rfl : a₀ = b := db.applications.key_inj ha₀ hb hid.symm
    simp only [ApplicationUpdate.apply, hnone]
    exact Field.orKeep_eq_none fun t => hkept d t rfl

theorem liveUser_kept {c : PrismaCall} {id : String} {rows : Rows} {db db' : Db} {v : c.Value}
    (hperf : c.perform w.now id rows db = (.ok v, db')) {u : User} (hlive : db.HasLiveUser u.id)
    (hu : u ∈ db'.users.rows)
    (hkept : ∀ data t, c = .userUpdate u.id data → data.deletedAt ≠ .value t) :
    u.deletedAt = none := by
  obtain ⟨b, hb, hid, hnone⟩ := hlive
  obtain hu | ⟨d, -, rfl⟩ | ⟨d, u₀, rfl, hu₀, rfl⟩ := PrismaCall.mem_users hperf hu
  · rwa [db.users.key_inj hu hb hid.symm]
  · rfl
  · obtain rfl : u₀ = b := db.users.key_inj hu₀ hb hid.symm
    simp only [UserUpdate.apply, hnone]
    exact Field.orKeep_eq_none fun t => hkept d t rfl

/-- One call that keeps the parties. The foreign keys say that they are still there. -/
theorem pendingLive_exec (h : PendingLive w) (hc : ch.fails = false → c.KeepsParties w)
    (hx : gateway.exec i c ch w = some (r, w')) : PendingLive w' := by
  intro x hmem hpending
  cases c with
  | prisma c =>
    obtain ⟨e, -, rfl⟩ | ⟨v, db, hok, -, hperf, -, rfl⟩ := prisma_cases hx
    · exact h x hmem hpending
    have hkeeps := hc hok
    have hbefore : w.db.PartiesLive x := by
      obtain hold | ⟨d, t, rfl, rfl⟩ | ⟨d, x₀, rfl, hx₀, rfl⟩ :=
        PrismaCall.mem_interviews hperf hmem
      · exact h x hold hpending
      · exact hkeeps
      · exact hkeeps x₀ hx₀ rfl hpending
    obtain ⟨a, ha, haid⟩ := db.interviews_application_id_fkey x hmem
    constructor
    · refine ⟨a, ha, haid, liveApplication_kept hperf (haid ▸ hbefore.1) ha ?_⟩
      rintro d t rfl hd
      have hold : x ∈ w.db.interviews.rows := by
        obtain ⟨-, -, -, -, rfl⟩ := PrismaCall.perform_applicationUpdate hperf
        exact hmem
      exact hkeeps ⟨t, hd⟩ x hold hpending haid.symm
    · intro id hid
      obtain ⟨u, hu, huid⟩ := db.interviews_interviewer_id_fkey x hmem id hid
      refine ⟨u, hu, huid, liveUser_kept hperf (huid ▸ hbefore.2 id hid) hu ?_⟩
      rintro d t rfl hd
      have hold : x ∈ w.db.interviews.rows := by
        obtain ⟨-, -, -, -, _, rfl⟩ := PrismaCall.perform_userUpdate hperf
        exact hmem
      exact hkeeps ⟨t, hd⟩ x hold hpending (by rw [huid]; exact hid)
  | _ =>
    rw [(exec_frame hx).db (by simp)] at hmem ⊢
    exact h x hmem hpending

end Calls

/-! ## Requests one after another -/

section Requests

variable {i : ℕ} {w w' : World}

theorem db_of_quiet {α : Type} {p : Prog Api α} {o : Except Exception α} (hp : p.Calls Call.IsQuiet)
    (h : Finishes (alone i) p w o w') : w'.db = w.db := by
  refine finishes_keeps (fun w₁ => w₁.db = w.db) (fun {c w₁ r w₂} hc hr hsame => ?_) hp h rfl
  obtain ⟨ch, -, hx⟩ := hr
  cases c with
  | prisma c => rw [(read_cases hc hx).1, hsame]
  | _ => rw [(exec_frame hx).db (by simp), hsame]

theorem finishes_after_quiet {α β : Type} {p : Prog Api α} {f : α → Prog Api β}
    {o : Except Exception β} (hp : p.Calls Call.IsQuiet) (h : Finishes (alone i) (p >>= f) w o w') :
    w'.db = w.db ∨
      ∃ a w₁, Finishes (alone i) p w (.ok a) w₁ ∧ w₁.db = w.db ∧ Finishes (alone i) (f a) w₁ o w' := by
  obtain ⟨a, w₁, ha, hf⟩ | ⟨e, he, -⟩ := finishes_bind.mp h
  · exact .inr ⟨a, w₁, ha, db_of_quiet hp ha, hf⟩
  · exact .inl (db_of_quiet hp he)

/-- The last call of a request is refused, or carried out and answered. -/
theorem finishes_write {β : Type} {c : PrismaCall} {g : c.Value → β} {o : Except Exception β}
    (h : Finishes (alone i) (prisma c >>= fun v => pure (g v)) w o w') :
    w'.db = w.db ∨ ∃ v ch, o = .ok (g v) ∧ ch.fails = false ∧
      gateway.exec i (.prisma c) ch w = some (.ok v, w') := by
  obtain ⟨v, w₁, hv, hf⟩ | ⟨e, he, -⟩ := finishes_bind.mp h
  · obtain ⟨rfl, rfl⟩ := hf
    obtain ⟨ch, hok, hx⟩ := finishes_await.mp hv
    exact .inr ⟨v, ch, rfl, hok, hx⟩
  · obtain ⟨ch, -, hx⟩ := finishes_await.mp he
    obtain ⟨-, -, rfl⟩ | ⟨v, db, -, -, -, herr, -⟩ := prisma_cases hx
    · exact .inl rfl
    · cases herr

theorem quiet (c : Call) (h : c.IsQuiet) : c.IsQuiet := h

theorem finishes_removeApplication {id userId userRole : String} {o : Except Exception Response}
    (h : Finishes (alone i) (Request.removeApplication id userId userRole).prog w o w') :
    w'.db = w.db ∨ ∃ w₁ ch v now, o = .ok .done ∧ w₁.db = w.db ∧ ch.fails = false ∧
      gateway.exec i (.prisma (.applicationUpdate id
        { deletedAt := .value now, status := .value .withdrawn })) ch w₁ = some (.ok v, w') := by
  simp only [Request.prog, ApplicationsService.remove, bind_assoc] at h
  obtain hsame | ⟨application, w₁, -, h₁, hrest⟩ :=
    finishes_after_quiet (findOneApplication_calls quiet id userId userRole) h
  · exact .inl hsame
  obtain hsame | ⟨candidate, w₂, -, h₂, hrest⟩ :=
    finishes_after_quiet (findCandidateOfUser_calls quiet userId) hrest
  · exact .inl (hsame.trans h₁)
  split at hrest
  · exact .inl (hrest.2 ▸ h₂.trans h₁)
  simp only [bind_assoc, pure_bind] at hrest
  rw [finishes_bind_ok finishes_dateNow] at hrest
  obtain hsame | ⟨v, ch, ho, hok, hx⟩ := finishes_write hrest
  · exact .inl (hsame.trans (h₂.trans h₁))
  · exact .inr ⟨w₂, ch, v, w₂.now, ho, h₂.trans h₁, hok, hx⟩

theorem finishes_softDeleteUser {cookie : Option AccessToken} {id : String}
    {o : Except Exception Response}
    (h : Finishes (alone i) (Request.softDeleteUser cookie id).prog w o w') :
    w'.db = w.db ∨ ∃ w₁ ch v now, o = .ok .done ∧ w₁.db = w.db ∧ ch.fails = false ∧
      gateway.exec i (.prisma (.userUpdate id { deletedAt := .value now })) ch w₁ =
        some (.ok v, w') := by
  simp only [Request.prog, UsersController.remove, UsersService.softDeleteUser, bind_assoc] at h
  obtain hsame | ⟨user, w₁, -, h₁, hrest⟩ :=
    finishes_after_quiet (jwtAuthGuard_calls quiet cookie) h
  · exact .inl hsame
  obtain hsame | ⟨_, w₂, -, h₂, hrest⟩ := finishes_after_quiet (rolesGuard_calls _ user) hrest
  · exact .inl (hsame.trans h₁)
  obtain hsame | ⟨existing, w₃, -, h₃, hrest⟩ :=
    finishes_after_quiet (findLiveOrThrow_calls quiet id) hrest
  · exact .inl (hsame.trans (h₂.trans h₁))
  simp only [pure_bind] at hrest
  rw [finishes_bind_ok finishes_dateNow] at hrest
  have hbefore : w₃.db = w.db := h₃.trans (h₂.trans h₁)
  obtain hsame | ⟨v, ch, ho, hok, hx⟩ := finishes_write hrest
  · exact .inl (hsame.trans hbefore)
  · exact .inr ⟨w₃, ch, v, w₃.now, ho, hbefore, hok, hx⟩

theorem finishes_verifyInterviewer {interviewerId : Option String}
    (h : Finishes (alone i) (InterviewsService.verifyInterviewer interviewerId) w (.ok ()) w') :
    ∀ id ∈ interviewerId, id ≠ "" → w.db.HasLiveUser id := by
  rintro id hid hne
  have htruthy : truthy interviewerId = some id := by
    rw [Option.mem_def.mp hid]
    simp [truthy, Option.filter, hne]
  unfold InterviewsService.verifyInterviewer at h
  rw [htruthy] at h
  dsimp only at h
  rw [finishes_bind_ok (finishes_userFindUnique (.live id))] at h
  cases hfind : w.db.findUser (.live id) with
  | none =>
    rw [hfind] at h
    cases h.1
  | some u =>
    obtain ⟨hu, hlive⟩ := Option.filter_eq_some_iff.mp hfind
    obtain ⟨hmem, huid⟩ := Table.find?_eq_some.mp hu
    exact ⟨u, hmem, huid, of_decide_eq_true hlive⟩

theorem finishes_createInterview {dto : CreateInterviewDto} {o : Except Exception Response}
    (h : Finishes (alone i) (Request.createInterview dto).prog w o w') :
    w'.db = w.db ∨ ∃ w₁ ch v, w₁.db = w.db ∧ ch.fails = false ∧
      (w.db.HasLiveApplication dto.applicationId ∧
        ∀ id ∈ dto.interviewerId, w.db.HasLiveUser id) ∧
      gateway.exec i (.prisma (.interviewCreate (InterviewsService.createData dto))) ch w₁ =
        some (.ok v, w') := by
  simp only [Request.prog, InterviewsService.create, bind_assoc] at h
  rw [finishes_bind_ok (finishes_applicationFindLive dto.applicationId)] at h
  cases hfind : (w.db.applications.find? dto.applicationId).filter
      fun a => decide (a.deletedAt = none) with
  | none =>
    rw [hfind] at h
    exact .inl (h.2 ▸ rfl)
  | some a =>
    rw [hfind] at h
    obtain ⟨ha, hlive⟩ := Option.filter_eq_some_iff.mp hfind
    obtain ⟨hmem, haid⟩ := Table.find?_eq_some.mp ha
    simp only [bind_assoc] at h
    obtain hsame | ⟨_, w₁, hverified, h₁, hrest⟩ :=
      finishes_after_quiet (verifyInterviewer_calls quiet dto.interviewerId) h
    · exact .inl hsame
    obtain hsame | ⟨_, w₂, -, h₂, hrest⟩ :=
      finishes_after_quiet (verifyFuture_calls quiet dto.scheduledAt) hrest
    · exact .inl (hsame.trans h₁)
    obtain hsame | ⟨v, ch, -, hok, hx⟩ := finishes_write hrest
    · exact .inl (hsame.trans (h₂.trans h₁))
    · exact .inr ⟨w₂, ch, v, h₂.trans h₁, hok, ⟨⟨a, hmem, haid, of_decide_eq_true hlive⟩,
        fun id hid => finishes_verifyInterviewer hverified id hid (dto.interviewerId_uuid id hid)⟩,
        hx⟩

theorem finishes_updateInterview {id : String} {dto : UpdateInterviewDto}
    {o : Except Exception Response}
    (h : Finishes (alone i) (Request.updateInterview id dto).prog w o w') :
    w'.db = w.db ∨ ∃ w₁ ch v, o = .ok (.interview v) ∧ w₁.db = w.db ∧ ch.fails = false ∧
      (∀ user, dto.interviewerId = .value user → w.db.HasLiveUser user) ∧
      gateway.exec i (.prisma (.interviewUpdate id (InterviewsService.updateData dto))) ch w₁ =
        some (.ok v, w') := by
  simp only [Request.prog, InterviewsService.update, bind_assoc] at h
  obtain hsame | ⟨existing, w₁, -, h₁, hrest⟩ :=
    finishes_after_quiet (findInterviewOrThrow_calls quiet id) h
  · exact .inl hsame
  obtain hsame | ⟨_, w₂, -, h₂, hrest⟩ :=
    finishes_after_quiet (verifyNewDate_calls quiet dto.scheduledAt) hrest
  · exact .inl (hsame.trans h₁)
  obtain hsame | ⟨_, w₃, hverified, h₃, hrest⟩ :=
    finishes_after_quiet (verifyInterviewer_calls quiet _) hrest
  · exact .inl (hsame.trans (h₂.trans h₁))
  have hbefore : w₃.db = w.db := h₃.trans (h₂.trans h₁)
  obtain hsame | ⟨v, ch, ho, hok, hx⟩ := finishes_write hrest
  · exact .inl (hsame.trans hbefore)
  · refine .inr ⟨w₃, ch, v, ho, hbefore, hok, fun user huser => ?_, hx⟩
    have hlive := finishes_verifyInterviewer hverified user (by rw [huser]; rfl)
      (dto.interviewerId_uuid user huser)
    rwa [h₂.trans h₁] at hlive

/-- The requests that can change who is live or what is pending. -/
def Request.handlesParties : Request → Bool
  | removeApplication _ _ _ => true
  | softDeleteUser _ _ => true
  | createInterview _ => true
  | updateInterview _ _ => true
  | _ => false

theorem keepsParties_of_footprint {r : Request} (hr : r.handlesParties = false) {c : Call}
    (h : c.IsQuiet ∨ r.footprint c) (w : World) : c.KeepsParties w := by
  cases c with
  | prisma c =>
    cases c with
    | applicationUpdate id data =>
      rintro ⟨t, ht⟩
      obtain hquiet | hfoot := h
      · exact hquiet.elim
      obtain ⟨userId, userRole, dto, -, reviewedAt, -, rfl⟩ | ⟨userId, userRole, now, rfl, -⟩ :=
        footprint_applicationUpdate hfoot
      · cases ht
      · cases hr
    | userUpdate id data =>
      rintro ⟨t, ht⟩
      obtain hquiet | hfoot := h
      · exact hquiet.elim
      cases r with
      | updateProfile cookie key dto =>
        cases hfoot
        cases ht
      | updateRole cookie key role =>
        cases hfoot
        cases ht
      | softDeleteUser cookie key => cases hr
      | _ => simp [Request.footprint] at hfoot
    | interviewCreate data =>
      obtain hquiet | hfoot := h
      · exact hquiet.elim
      cases r with
      | createInterview dto => cases hr
      | _ => simp [Request.footprint] at hfoot
    | interviewUpdate id data =>
      obtain hquiet | hfoot := h
      · exact hquiet.elim
      cases r with
      | updateInterview key dto => cases hr
      | removeInterview key =>
        cases hfoot
        rintro x - - hpending
        cases hpending
      | _ => simp [Request.footprint] at hfoot
    | _ => trivial
  | _ => trivial

end Requests

/-! ## Histories -/

/-- A withdrawal or a deletion that is carried out finds no pending interviews, and an update that
makes an interview pending again finds its parties live. -/
def Happening.KeepsParties (w : World) : Happening → Prop
  | .answered _ (.removeApplication id _ _) (.ok _) => w.db.NonePendingFor id
  | .answered _ (.softDeleteUser _ id) (.ok _) => w.db.NonePendingBy id
  | .answered _ (.updateInterview id dto) (.ok _) =>
    ∀ x ∈ w.db.interviews.rows, x.id = id → x.status.isPending = false →
      (∃ status, dto.status = .value status ∧ status.isPending = true) →
        w.db.HasLiveApplication x.applicationId ∧
          (dto.interviewerId = .absent → ∀ user ∈ x.interviewerId, w.db.HasLiveUser user)
  | _ => True

instance (db : Db) (id : String) : Decidable (db.HasLiveApplication id) :=
  inferInstanceAs (Decidable (∃ a ∈ _, _))

instance (db : Db) (id : String) : Decidable (db.HasLiveUser id) :=
  inferInstanceAs (Decidable (∃ u ∈ _, _))

instance (db : Db) (id : String) : Decidable (db.NonePendingFor id) :=
  inferInstanceAs (Decidable (∀ x ∈ _, _))

instance (db : Db) (id : String) : Decidable (db.NonePendingBy id) :=
  inferInstanceAs (Decidable (∀ x ∈ _, _))

instance : ∀ f : Field InterviewStatus,
    Decidable (∃ status, f = .value status ∧ status.isPending = true)
  | .absent => .isFalse (by simp)
  | .null => .isFalse (by simp)
  | .value status => decidable_of_iff (status.isPending = true) (by simp)

instance (w : World) (h : Happening) : Decidable (h.KeepsParties w) := by
  unfold Happening.KeepsParties
  split <;> infer_instance

def SerialAlong (P : World → Happening → Prop) : List Happening → World → World → Prop
  | [], w, w' => w' = w
  | h :: hs, w, w' => ∃ w₁, P w h ∧ Happens h w w₁ ∧ SerialAlong P hs w₁ w'

section Histories

variable {w w' : World}

theorem serial_of_along {P : World → Happening → Prop} {hs : List Happening}
    (h : SerialAlong P hs w w') : Serial hs w w' := by
  induction hs generalizing w with
  | nil => exact h
  | cons x hs ih =>
    obtain ⟨w₁, -, hx, hrest⟩ := h
    exact ⟨w₁, hx, ih hrest⟩

theorem playChecked_along {check : World → Happening → Bool} {ts : List Turn} {hs : List Happening}
    (hp : playChecked check ts w = some (hs, w')) :
    SerialAlong (fun w h => check w h = true) hs w w' := by
  induction ts generalizing w hs with
  | nil =>
    cases hp
    rfl
  | cons t ts ih =>
    obtain ⟨⟨h, w₁⟩, hplay, hp⟩ := Option.bind_eq_some_iff.mp hp
    obtain ⟨hcheck, hp⟩ := Option.ite_none_right_eq_some.mp hp
    obtain ⟨⟨hs', w₂⟩, hrest, heq⟩ := Option.map_eq_some_iff.mp hp
    cases heq
    exact ⟨w₁, hcheck, play_happens hplay, ih hrest⟩

theorem SerialAlong.mono {P Q : World → Happening → Prop} {hs : List Happening}
    (hPQ : ∀ w h, P w h → Q w h) (h : SerialAlong P hs w w') : SerialAlong Q hs w w' := by
  induction hs generalizing w with
  | nil => exact h
  | cons x hs ih =>
    obtain ⟨w₁, hP, hx, hrest⟩ := h
    exact ⟨w₁, hPQ w x hP, hx, ih hrest⟩

theorem pendingLive_of_db (hdb : w'.db = w.db) (h : PendingLive w) : PendingLive w' := by
  unfold PendingLive
  rw [hdb]
  exact h

theorem partiesLive_update {dto : UpdateInterviewDto} (h : PendingLive w)
    {x : Interview} (hx : x ∈ w.db.interviews.rows)
    (hcond : x.status.isPending = false →
      (∃ status, dto.status = .value status ∧ status.isPending = true) →
        w.db.HasLiveApplication x.applicationId ∧
          (dto.interviewerId = .absent → ∀ user ∈ x.interviewerId, w.db.HasLiveUser user))
    (hnew : ∀ user, dto.interviewerId = .value user → w.db.HasLiveUser user) {now : Time}
    (hpending : ((InterviewsService.updateData dto).apply now x).status.isPending = true) :
    w.db.PartiesLive ((InterviewsService.updateData dto).apply now x) := by
  have hold : w.db.HasLiveApplication x.applicationId ∧
      (dto.interviewerId = .absent → ∀ user ∈ x.interviewerId, w.db.HasLiveUser user) := by
    cases hbefore : x.status.isPending with
    | true => exact ⟨(h x hx hbefore).1, fun _ => (h x hx hbefore).2⟩
    | false =>
      simp only [InterviewUpdate.apply, InterviewsService.updateData] at hpending
      obtain hsame | hnew := Field.orKeepRequired_cases dto.status x.status
      · rw [hsame] at hpending
        exact absurd (hbefore.symm.trans hpending) Bool.false_ne_true
      · exact hcond hbefore ⟨_, hnew, hpending⟩
  refine ⟨hold.1, fun user huser => ?_⟩
  simp only [InterviewUpdate.apply, InterviewsService.updateData] at huser
  cases hi : dto.interviewerId with
  | absent =>
    rw [hi] at huser
    exact hold.2 hi user huser
  | null =>
    rw [hi] at huser
    cases huser
  | value new =>
    rw [hi] at huser
    cases huser
    exact hnew user hi

theorem pendingLive_happens {h : Happening} (hinv : PendingLive w) (hkeeps : h.KeepsParties w)
    (hh : Happens h w w') : PendingLive w' := by
  cases h with
  | moved mv =>
    exact pendingLive_of_db (db_of_move hh) hinv
  | answered t r o =>
    obtain ⟨rfl, i, hfinish⟩ := hh
    by_cases hr : r.handlesParties = false
    · exact finishes_keeps PendingLive (fun {c w₁ a w₂} hc ⟨ch, _, hx⟩ hw =>
        pendingLive_exec hw (fun _ => keepsParties_of_footprint hr hc w₁) hx) (prog_calls r)
        hfinish hinv
    cases r with
    | removeApplication id userId userRole =>
      obtain hsame | ⟨w₁, ch, v, now, rfl, hdb, -, hx⟩ := finishes_removeApplication hfinish
      · exact pendingLive_of_db hsame hinv
      · refine pendingLive_exec (pendingLive_of_db hdb hinv) (fun _ => ?_) hx
        rintro -
        rw [hdb]
        exact hkeeps
    | softDeleteUser cookie id =>
      obtain hsame | ⟨w₁, ch, v, now, rfl, hdb, -, hx⟩ := finishes_softDeleteUser hfinish
      · exact pendingLive_of_db hsame hinv
      · refine pendingLive_exec (pendingLive_of_db hdb hinv) (fun _ => ?_) hx
        rintro -
        rw [hdb]
        exact hkeeps
    | createInterview dto =>
      obtain hsame | ⟨w₁, ch, v, hdb, -, hlive, hx⟩ := finishes_createInterview hfinish
      · exact pendingLive_of_db hsame hinv
      · refine pendingLive_exec (pendingLive_of_db hdb hinv) (fun _ => ?_) hx
        rw [Call.KeepsParties, hdb]
        exact hlive
    | updateInterview id dto =>
      obtain hsame | ⟨w₁, ch, v, rfl, hdb, -, hnew, hx⟩ := finishes_updateInterview hfinish
      · exact pendingLive_of_db hsame hinv
      · refine pendingLive_exec (pendingLive_of_db hdb hinv) (fun _ => ?_) hx
        rw [Call.KeepsParties, hdb]
        exact fun x hx hid hpending =>
          partiesLive_update hinv hx (hkeeps x hx hid) hnew hpending
    | _ => exact absurd rfl hr

theorem pendingLive_serial {hs : List Happening} (h : PendingLive w)
    (hserial : SerialAlong (fun w h => h.KeepsParties w) hs w w') : PendingLive w' := by
  induction hs generalizing w with
  | nil =>
    cases hserial
    exact h
  | cons x hs ih =>
    obtain ⟨w₁, hkeeps, hx, hrest⟩ := hserial
    exact ih (pendingLive_happens h hkeeps hx) hrest

end Histories

/-! ## Runs -/

/-- A call that does not fail keeps the parties. -/
def StepKeepsParties (cfg : Config Api ℕ World Response) : Label ℕ Choice Move → Prop
  | .run i ch => ch.fails = false → ∀ c ∈ (cfg.pool i).next?, c.KeepsParties cfg.world
  | .move _ => True

theorem pendingLive_step {cfg cfg' : Config Api ℕ World Response} {l : Label ℕ Choice Move}
    (h : PendingLive cfg.world) (hl : StepKeepsParties cfg l)
    (hs : gateway.step l cfg = some cfg') : PendingLive cfg'.world := by
  obtain ⟨i, ch, c, k, r, w, rfl, hp, hx, rfl⟩ | ⟨mv, w, rfl, hm, rfl⟩ := Machine.step_cases hs
  · exact pendingLive_exec h (fun hok => hl hok c (by rw [hp]; rfl)) hx
  · exact pendingLive_of_db (db_of_move hm) h

/-- Pending interviews refer to live parties throughout every history of requests, and throughout
every interleaving of them, all of whose steps keep the parties. -/
theorem pending_live {w : World} (h : PendingLive w) :
    (∀ (hs : List Happening) (w' : World),
      SerialAlong (fun w h => h.KeepsParties w) hs w w' → PendingLive w') ∧
    ∀ (requests : ℕ → Request) (ls : List (Label ℕ Choice Move))
      (cfg : Config Api ℕ World Response),
      gateway.run ls (.start w (Request.pool requests)) = some cfg →
      gateway.Along StepKeepsParties ls (.start w (Request.pool requests)) →
      PendingLive cfg.world :=
  ⟨fun _ _ => pendingLive_serial h, fun _ _ _ hrun hkeeps =>
    Machine.run_induction_along (fun cfg => PendingLive cfg.world) pendingLive_step h hkeeps hrun⟩

/-! ## An interview without an application -/

def cleosInterview : CreateInterviewDto where
  applicationId := "a-cleo"
  scheduledAt := some 3600000
  interviewerId := some "u-ian"

def scheduling : Turn :=
  .request (.createInterview cleosInterview) [{}, {}, {}, { uuid := "i-cleo" }]

def withdrawing : Turn :=
  .request (.removeApplication "a-cleo" "u-ada" "ADMIN") (List.replicate 7 {})

theorem seeded_pendingLive : PendingLive seeded := fun _ hx => absurd hx List.not_mem_nil

/-- The interview is cancelled and then confirmed after all. -/
def confirming : List Turn :=
  [scheduling, .request (.removeInterview "i-cleo") (List.replicate 2 {}),
    .request (.updateInterview "i-cleo" { status := .value .confirmed }) (List.replicate 2 {})]

/-- It is cancelled again before Ada withdraws the application and deletes Ian. -/
def dissolving : List Turn :=
  [.request (.removeInterview "i-cleo") (List.replicate 2 {}), withdrawing,
    .request (.softDeleteUser (some adasAccess) "u-ian") (List.replicate 5 {})]

theorem pending_live_scheduling : ∃ hs hs' w w',
    Serial hs seeded w ∧ PendingLive w ∧
      w.db.interviews.rows.map Interview.status = [.confirmed] ∧
    Serial hs' w w' ∧ PendingLive w' ∧
      w'.db.applications.rows.map Application.deletedAt = [some 0] ∧
      w'.db.users.rows.map User.deletedAt = [none, none, some 0] := by
  let check (w : World) (h : Happening) : Bool := decide (h.KeepsParties w)
  have hkeeps : ∀ w h, check w h = true → h.KeepsParties w := fun _ _ => of_decide_eq_true
  have h : (playChecked check confirming seeded).bind (fun p =>
      (playChecked check dissolving p.2).map fun q =>
        (p.2.db.interviews.rows.map Interview.status,
          q.2.db.applications.rows.map Application.deletedAt,
          q.2.db.users.rows.map User.deletedAt)) =
      some ([.confirmed], [some 0], [none, none, some 0]) := by decide +kernel
  obtain ⟨⟨hs, w⟩, hplay, h⟩ := Option.bind_eq_some_iff.mp h
  obtain ⟨⟨hs', w'⟩, hplay', hrows⟩ := Option.map_eq_some_iff.mp h
  simp only [Prod.mk.injEq] at hrows
  have hserial := (playChecked_along hplay).mono hkeeps
  have hserial' := (playChecked_along hplay').mono hkeeps
  have hlive := (pending_live seeded_pendingLive).1 hs w hserial
  exact ⟨hs, hs', w, w', serial_of_along hserial, hlive, hrows.1, serial_of_along hserial',
    (pending_live hlive).1 hs' w' hserial', hrows.2⟩

/-- The interview stays scheduled when the application is withdrawn. -/
theorem interview_without_application : ∃ hs w, Serial hs seeded w ∧
    (w.db.interviews.rows.map fun x => (x.applicationId, x.status)) = [("a-cleo", .scheduled)] ∧
    (w.db.applications.rows.map fun a => (a.id, a.deletedAt)) = [("a-cleo", some 0)] ∧
    ¬ PendingLive w := by
  have h : (play [scheduling, withdrawing] seeded).map (fun p =>
      (p.2.db.interviews.rows.map fun x => (x.applicationId, x.status),
        p.2.db.applications.rows.map fun a => (a.id, a.deletedAt))) =
      some ([("a-cleo", .scheduled)], [("a-cleo", some 0)]) := by decide +kernel
  obtain ⟨⟨hs, w⟩, hplay, hrows⟩ := Option.map_eq_some_iff.mp h
  obtain ⟨hinterviews, happlications⟩ := Prod.mk.injEq .. ▸ hrows
  refine ⟨hs, w, play_serial hplay, hinterviews, happlications, fun hlive => ?_⟩
  obtain ⟨x, hx, heq⟩ := List.mem_map.mp (hinterviews ▸ List.mem_singleton.mpr rfl :
    ("a-cleo", InterviewStatus.scheduled) ∈
      w.db.interviews.rows.map fun x => (x.applicationId, x.status))
  obtain ⟨hxa, hxs⟩ := Prod.mk.injEq .. ▸ heq
  obtain ⟨a, ha, hid, hnone⟩ := (hlive x hx (by rw [hxs]; rfl)).1
  have hrow : (a.id, a.deletedAt) ∈ [("a-cleo", some 0)] :=
    happlications ▸ List.mem_map.mpr ⟨a, ha, rfl⟩
  simp [hnone] at hrow

end TalentFlow
