import TalentFlow.Gateway.WellFormed

/-!
# Guarantees.Privilege

Who can become an administrator. The role of a user is written in two places: `updateRole`, which
only an administrator gets through to, and `signup`, which anybody can call and which takes the
role from the request body.

* `updateRole_authorised`: the write of an `updateRole` request comes after its guard has read that
  the requester is a live administrator.
* `admins_promoted`: in runs without a signup that asks for ADMIN, whoever is an administrator was
  one from the start or was made one by an administrator.
* `signup_as_admin`: the run with such a signup.
-/

namespace TalentFlow

open Data Async

/-- The guard of the request has read that the bearer of the token is a live administrator. -/
def AuthorisedIn (token : AccessToken) (history : List (Event Api)) : Prop :=
  ∃ requester : User,
    (⟨.prisma (.userFindUnique (.id token.sub)), .ok (some requester)⟩ : Event Api) ∈ history ∧
      requester.role = .admin ∧ requester.deletedAt = none

theorem AuthorisedIn.append {token : AccessToken} {history : List (Event Api)}
    (h : AuthorisedIn token history) (later : List (Event Api)) :
    AuthorisedIn token (history ++ later) := by
  obtain ⟨requester, hmem, hrole, hd⟩ := h
  exact ⟨requester, List.mem_append_left _ hmem, hrole, hd⟩

/-- A call that gives a user a role is the write of an authorised `updateRole`. -/
def RoleWritten (r : Request) (history : List (Event Api)) (c : Call) : Prop :=
  ∀ id data, c = .prisma (.userUpdate id data) → data.role ≠ .absent →
    ∃ token role, r = .updateRole (some token) id role ∧ data.role = .value role ∧
      AuthorisedIn token history

/-- Who a token was issued to, as the guard of `history` has read it: a user who is not deleted. -/
def ReadRequester (token : AccessToken) (user : UserPayload) (history : List (Event Api)) : Prop :=
  ∃ requester : User,
    (⟨.prisma (.userFindUnique (.id token.sub)), .ok (some requester)⟩ : Event Api) ∈ history ∧
      requester.deletedAt = none ∧ user.role = requester.role

theorem jwtAuthGuard_reads {call : List (Event Api) → Call → Prop}
    (hquiet : ∀ h c, c.IsQuiet → call h c) (cookie : Option AccessToken)
    (history : List (Event Api)) :
    Obeys (recorder call) (fun r h => ∀ user, r = .ok user →
        ∃ token, cookie = some token ∧ ReadRequester token user h)
      (JwtAuthGuard.canActivate cookie) history := by
  cases cookie with
  | none => exact fun user h => nomatch h
  | some token =>
    refine obeys_bind ?_
    rw [verifyJwt_some]
    refine obeys_await (hquiet _ .dateNow trivial) (fun now _ => ?_) fun e _ user h => nomatch h
    split
    · refine obeys_await (hquiet _ (.prisma _) trivial) (fun found _ => ?_)
        fun e _ user h => nomatch h
      cases found with
      | none => exact fun user h => nomatch h
      | some requester =>
        dsimp only
        split
        · exact fun user h => nomatch h
        · rename_i hd
          intro user h
          cases h
          exact ⟨token, rfl, requester, by simp [recorder], by simpa using hd, rfl⟩
    · exact fun user h => nomatch h

theorem roleWritten_of_ne {r : Request} {history : List (Event Api)} {c : Call}
    (h : ∀ id data, c ≠ .prisma (.userUpdate id data)) : RoleWritten r history c :=
  fun id data hc _ => absurd hc (h id data)

theorem roleWritten_of_quiet {r : Request} (history : List (Event Api)) (c : Call)
    (h : c.IsQuiet) : RoleWritten r history c := by
  refine roleWritten_of_ne fun id data hc => ?_
  rw [hc] at h
  exact h

/-- The role is written only after the guard has let an administrator through. -/
theorem updateRole_authorised (cookie : Option AccessToken) (id : String) (role : Role) :
    Obeys (recorder (RoleWritten (.updateRole cookie id role))) (fun _ _ => True)
      (Request.updateRole cookie id role).prog [] := by
  refine obeys_bind (obeys_bind (obeys_mono (jwtAuthGuard_reads roleWritten_of_quiet cookie []) ?_))
  intro r h hr
  cases r with
  | error e => trivial
  | ok user =>
    obtain ⟨token, rfl, requester, hmem, hd, hrole⟩ := hr user rfl
    refine obeys_bind ?_
    unfold RolesGuard.canActivate
    split
    · rename_i hadmin
      have hauth : AuthorisedIn token h := by
        refine ⟨requester, hmem, ?_, hd⟩
        rw [← hrole]
        simpa using hadmin
      change Obeys _ _ (UsersService.updateRole id role) h
      refine obeys_bind ?_
      refine obeys_await (roleWritten_of_quiet _ (.prisma _) trivial) (fun existing _ => ?_)
        fun _ _ => trivial
      cases existing with
      | none => trivial
      | some existing =>
        refine obeys_bind (obeys_await_last ?_ fun r _ => ?_)
        · intro id' data hc hne
          cases hc
          exact ⟨token, role, rfl, rfl, hauth.append _⟩
        · cases r <;> trivial
    · trivial

theorem roles_written (requests : ℕ → Request) (i : ℕ) :
    Obeys (recorder (RoleWritten (requests i))) (fun _ _ => True) (Request.pool requests i) [] := by
  unfold Request.pool
  have hother : (∀ id data, (requests i).footprint (.prisma (.userUpdate id data)) →
      data.role = .absent) →
      Obeys (recorder (RoleWritten (requests i))) (fun _ _ => True) (requests i).prog [] := by
    intro hfoot
    refine obeys_of_allowed (prog_calls (requests i)) fun h c hc id data heq hne => ?_
    subst heq
    obtain hquiet | hfp := hc
    · exact hquiet.elim
    · exact absurd (hfoot id data hfp) hne
  cases hr : requests i with
  | updateRole cookie id role => exact updateRole_authorised cookie id role
  | updateProfile cookie id dto =>
    rw [hr] at hother
    refine hother fun id' data hfp => ?_
    cases hfp
    rfl
  | softDeleteUser cookie id =>
    rw [hr] at hother
    refine hother fun id' data hfp => ?_
    obtain ⟨now, heq⟩ := hfp
    cases heq
    rfl
  | _ =>
    rw [hr] at hother
    exact hother fun id' data hfp => by simp [Request.footprint] at hfp

/-! ## Runs -/

/-- The step is not one of a signup that asks for the role ADMIN. -/
def NoAdminSignup (requests : ℕ → Request) (_cfg : Config Api ℕ World Response)
    (l : Label ℕ Choice Move) : Prop :=
  ∀ i ch email password fullName, l = .run i ch →
    requests i ≠ .signup email password fullName .admin

/-- An `updateRole` request made the user an administrator, and before it wrote the role its guard
had read that the requester was a live administrator. -/
def Promoted (requests : ℕ → Request) (cfg : Config Api ℕ World Response) (id : String) : Prop :=
  ∃ i token v before after, requests i = .updateRole (some token) id .admin ∧
    cfg.log = before ++
      (i, ⟨.prisma (.userUpdate id { role := .value .admin }), .ok v⟩) :: after ∧
    ∃ requester : User,
      (i, (⟨.prisma (.userFindUnique (.id token.sub)), .ok (some requester)⟩ : Event Api)) ∈ before ∧
        requester.role = .admin ∧ requester.deletedAt = none

def SeededAdmin (w : World) (id : String) : Prop :=
  ∃ u ∈ w.db.users.rows, u.id = id ∧ u.role = .admin

section Run

variable {requests : ℕ → Request} {cfg cfg' : Config Api ℕ World Response}
  {l : Label ℕ Choice Move} {ls : List (Label ℕ Choice Move)} {w : World}

structure PrivilegeInv (requests : ℕ → Request) (w : World) (cfg : Config Api ℕ World Response) :
    Prop where
  footprint : KeepsFootprint requests cfg
  recorded : ∀ i, Obeys (recorder (RoleWritten (requests i))) (fun _ _ => True) (cfg.pool i)
    (cfg.trace i)
  admins : ∀ u ∈ cfg.world.db.users.rows, u.role = .admin →
    SeededAdmin w u.id ∨ Promoted requests cfg u.id

theorem Promoted.answered {id : String} (h : Promoted requests cfg id) (i : ℕ) {c : Call}
    (r : Api.Answer c) (k : Api.Answer c → Prog Api Response) (w' : World) :
    Promoted requests (cfg.answered i r k w') id := by
  obtain ⟨j, token, v, before, after, hreq, hlog, hread⟩ := h
  exact ⟨j, token, v, before, after ++ [(i, ⟨c, r⟩)], hreq, by simp [hlog], hread⟩

theorem admins_exec {i : ℕ} {ch : Choice} {c : Call} {k : Api.Answer c → Prog Api Response}
    {r : Api.Answer c} {w' : World} (h : PrivilegeInv requests w cfg)
    (hp : cfg.pool i = .call c k) (hx : gateway.exec i c ch cfg.world = some (r, w'))
    (hno : NoAdminSignup requests cfg (.run i ch)) :
    ∀ u ∈ w'.db.users.rows, u.role = .admin →
      SeededAdmin w u.id ∨ Promoted requests (cfg.answered i r k w') u.id := by
  intro u hu hrole
  have hold : ∀ u ∈ cfg.world.db.users.rows, u.role = .admin →
      SeededAdmin w u.id ∨ Promoted requests (cfg.answered i r k w') u.id :=
    fun u hu hrole => (h.admins u hu hrole).imp id fun hpr => hpr.answered i r k w'
  cases c with
  | prisma c =>
    obtain ⟨e, -, rfl⟩ | ⟨v, db, -, -, hperf, rfl, rfl⟩ := prisma_cases hx
    · exact hold u hu hrole
    obtain hu | ⟨d, rfl, rfl⟩ | ⟨d, u₀, rfl, hu₀, rfl⟩ := PrismaCall.mem_users hperf hu
    · exact hold u hu hrole
    · -- a signup that asked for another role
      obtain hquiet | hfp := footprint_call h.footprint hp
      · exact hquiet.elim
      cases hr : requests i with
      | signup email password fullName role =>
        rw [hr] at hfp
        obtain hfp | ⟨hashed, hfp⟩ := hfp
        · cases hfp
        · cases hfp
          cases hrole
          exact absurd hr (hno i ch email password fullName rfl)
      | _ => simp [hr, Request.footprint] at hfp
    · by_cases hd : d.role = .absent
      · refine hold u₀ hu₀ ?_
        simpa [UserUpdate.apply, hd, Field.orKeepRequired] using hrole
      · have hi := h.recorded i
        rw [hp] at hi
        obtain ⟨token, role, hreq, hval, requester, hmem, hadmin, hlive⟩ := hi.1 _ d rfl hd
        have hr : role = .admin := by
          simpa [UserUpdate.apply, hval, Field.orKeepRequired] using hrole
        subst hr
        obtain hquiet | hfp := footprint_call h.footprint hp
        · exact hquiet.elim
        rw [hreq] at hfp
        cases hfp
        exact .inr ⟨i, token, v, cfg.log, [], hreq, rfl, requester,
          Config.mem_trace.mp hmem, hadmin, hlive⟩
  | _ =>
    rw [(exec_frame hx).db (by simp)] at hu
    exact hold u hu hrole

theorem privilegeInv_step (h : PrivilegeInv requests w cfg) (hno : NoAdminSignup requests cfg l)
    (hs : gateway.step l cfg = some cfg') : PrivilegeInv requests w cfg' := by
  refine ⟨footprint_step h.footprint hs, recorded_step h.recorded hs, ?_⟩
  obtain ⟨i, ch, c, k, r, w', rfl, hp, hx, rfl⟩ | ⟨mv, w', rfl, hm, rfl⟩ := Machine.step_cases hs
  · exact admins_exec h hp hx hno
  · obtain ⟨elapsed, -, rfl⟩ | ⟨channel, broker, rfl⟩ := move_cases hm
    · exact h.admins
    · exact h.admins

/-- In a run in which no signup asks for ADMIN, every administrator was one from the start or was
made one by a request that a live administrator had issued. -/
theorem admins_promoted (hrun : gateway.run ls (.start w (Request.pool requests)) = some cfg)
    (hno : gateway.Along (NoAdminSignup requests) ls (.start w (Request.pool requests))) :
    ∀ u ∈ cfg.world.db.users.rows, u.role = .admin →
      SeededAdmin w u.id ∨ Promoted requests cfg u.id := by
  have hstart : PrivilegeInv requests w (.start w (Request.pool requests)) :=
    ⟨footprint_start requests w, roles_written requests,
      fun u hu hrole => .inl ⟨u, hu, rfl, hrole⟩⟩
  exact (Machine.run_induction_along (PrivilegeInv requests w)
    (fun h hl hs => privilegeInv_step h hl hs) hstart hno hrun).admins

end Run

def promoteRay : ℕ → Request := fun _ =>
  .updateRole (some ⟨"u-ada", "ada@talentflow.dev", .admin, 0, JWT_ACCESS_TOKEN_EXPIRATION⟩)
    "u-ray" .admin

theorem admins_promoted_ray :
    ∃ cfg, gateway.run (List.replicate 4 (.run 0 {})) (.start seeded (Request.pool promoteRay)) =
        some cfg ∧
      ∀ u ∈ cfg.world.db.users.rows, u.role = .admin →
        SeededAdmin seeded u.id ∨ Promoted promoteRay cfg u.id := by
  obtain ⟨cfg, hrun⟩ := Option.isSome_iff_exists.mp (show (gateway.run
    (List.replicate 4 (.run 0 {})) (.start seeded (Request.pool promoteRay))).isSome = true by
      decide +kernel)
  refine ⟨cfg, hrun, admins_promoted hrun (Machine.along_of_forall ?_ _)⟩
  intro cfg l hl i ch email password fullName _ hreq
  cases hreq

def eveSignsUp : ℕ → Request := fun _ =>
  .signup "eve@example.com" "Eve-2024!" "Eve" .admin

def eve : User where
  id := "u-eve"
  email := "eve@example.com"
  password := "hash:Eve-2024!"
  role := .admin
  fullName := "Eve"
  createdAt := 0
  updatedAt := 0

def evesSignup : List (Label ℕ Choice Move) :=
  [.run 0 {}, .run 0 { text := "hash:Eve-2024!" }, .run 0 { uuid := "u-eve" }]

theorem signup_as_admin :
    ∃ cfg, gateway.run evesSignup (.start seeded (Request.pool eveSignsUp)) = some cfg ∧
      ∃ u ∈ cfg.world.db.users.rows, u.role = .admin ∧ ¬ SeededAdmin seeded u.id ∧
        ¬ Promoted eveSignsUp cfg u.id := by
  have hrows : (gateway.run evesSignup (.start seeded (Request.pool eveSignsUp))).map
      (fun cfg => cfg.world.db.users.rows) = some [ada, ray, ian, eve] := by
    decide +kernel
  obtain ⟨cfg, hrun, hcfg⟩ := Option.map_eq_some_iff.mp hrows
  refine ⟨cfg, hrun, eve, by simp [hcfg], rfl, ?_, ?_⟩
  · show ¬ ∃ u ∈ [ada, ray, ian], u.id = "u-eve" ∧ u.role = .admin
    decide
  · intro ⟨_, _, _, _, _, hreq, _⟩
    cases hreq

end TalentFlow
