import TalentFlow.Guarantees.LockDuration
import TalentFlow.Guarantees.Sessions

/-!
# Guarantees.Accounts

From signing up to being served. A signup stores a hash of the password it was given; the row can be
renamed, promoted and deleted afterwards, attempts at its email are counted, and everybody else's
requests run. Whatever has happened, a login with the row's email then asks for nothing but that the
row is not deleted, that the password is the one of the signup, and that the email is not locked; and
the session it is given opens both guards.

* `signedUp_row`: the row of a signup, in every later state.
* `login_decides`: what a login does in an arbitrary world.
* `Opens`: a session that the guards accept.
* `accounts_open`: the two together.
-/

namespace TalentFlow

open Data Async

/-! ## Signing up -/

theorem signup_creates (email password fullName : String) (role : Role) (h : List (Event Api)) :
    Obeys historian (fun o h => ∀ summary, o = .ok summary → ∃ hashed u,
        (⟨.bcryptHash password, .ok hashed⟩ : Event Api) ∈ h ∧
        (⟨.prisma (.userCreate ⟨email, hashed, fullName, role⟩), .ok u⟩ : Event Api) ∈ h ∧
        summary = User.summary u)
      (AuthService.signup email password fullName role) h := by
  refine obeys_await trivial (fun found _ => ?_) fun e _ summary h => by cases h
  dsimp only
  split
  · exact fun summary h => by cases h
  refine obeys_await trivial (fun hashed _ => ?_) fun e _ summary h => by cases h
  refine obeys_await trivial (fun u _ => ?_) fun e _ summary h => by cases h
  refine obeys_await trivial (fun _ _ => ?_) fun e _ summary h => by cases h
  intro summary h
  cases h
  exact ⟨hashed, u, by simp [recorder], by simp [recorder], rfl⟩

/-- What a signup has been told, in a later world. -/
def SignUpFact (w : World) : Event Api → Prop
  | ⟨.bcryptHash plain, .ok hashed⟩ => w.bcrypt plain hashed = true
  | ⟨.prisma (.userCreate d), .ok u⟩ => u.email = d.email ∧ u.password = d.password ∧
    ∃ y ∈ w.db.users.rows, Later User.identity User.deletedAt u y
  | _ => True

theorem signUpFact_keeps {w w' : World} (h : w.Keeps w') (hbcrypt : w'.bcrypt = w.bcrypt)
    {e : Event Api} (he : SignUpFact w e) : SignUpFact w' e := by
  unfold SignUpFact at he ⊢
  split at he
  · rw [hbcrypt]
    exact he
  · obtain ⟨hemail, hpassword, y, hy, hlater⟩ := he
    obtain ⟨z, hz, hlater'⟩ := h.users y hy
    exact ⟨hemail, hpassword, z, hz, hlater.trans hlater'⟩
  · trivial

theorem signUpFact_exec {w w' : World} {i : ℕ} {ch : Choice} {e : Event Api}
    (h : gateway.exec i e.call ch w = some (e.answer, w')) : SignUpFact w' e := by
  unfold SignUpFact
  split
  · obtain ⟨hashed, hmatch, heq, rfl⟩ := bcryptHash_cases h
    cases heq
    exact hmatch
  · obtain ⟨e, heq, -⟩ | ⟨v, db, -, -, hperf, heq, rfl⟩ := prisma_cases h
    · cases heq
    · cases heq
      obtain ⟨rfl, _, hins⟩ := PrismaCall.perform_userCreate hperf
      exact ⟨rfl, rfl, _, (Table.mem_insert (Db.insertUser_eq_some hins).1).mpr (.inr rfl), .refl _⟩
  · trivial

section Run

variable {incoming : ℕ → HttpRequest} {w : World} {ls : List (Label ℕ Choice Move)}
  {cfg : Config Api ℕ World Response} {i : ℕ} {email password fullName : String} {role : Role}
  {user : UserSummary}

theorem signUpFact_run (hrun : gateway.run ls (.start w (HttpRequest.pool incoming)) = some cfg) :
    ∀ e ∈ cfg.log, SignUpFact cfg.world e.2 :=
  Machine.facts_run (F := SignUpFact) KeepMarks calls_step (fun _ hx => signUpFact_exec hx)
    (fun h hs => signUpFact_keeps (keeps_step h hs) (bcrypt_step hs)) (http_keepMarks incoming w)
    (fun _ he => absurd he List.not_mem_nil) hrun

theorem signedUp_row (hrun : gateway.run ls (.start w (HttpRequest.pool incoming)) = some cfg)
    (hroute : (incoming i).route = .inl (.signup email password fullName role))
    (ho : cfg.outcome? i = some (.ok (.signedUp user))) :
    ∃ row ∈ cfg.world.db.users.rows, row.id = user.id ∧ row.email = email ∧
      cfg.world.bcrypt password row.password = true := by
  have hplays := pool_plays hrun i
  rw [Prog.outcome?_eq_ok ho] at hplays
  have hobeys : Obeys historian (fun o h => ∀ response, o = .ok response → ∃ hashed u,
      (⟨.bcryptHash password, .ok hashed⟩ : Event Api) ∈ h ∧
      (⟨.prisma (.userCreate ⟨email, hashed, fullName, role⟩), .ok u⟩ : Event Api) ∈ h ∧
      response = .signedUp (User.summary u)) (incoming i).prog [] := by
    rw [HttpRequest.prog, hroute]
    refine obeys_bind (obeys_mono (signup_creates email password fullName role []) fun o h ho => ?_)
    cases o with
    | error e => exact fun response h => by cases h
    | ok summary =>
      intro response heq
      cases heq
      obtain ⟨hashed, u, hhash, hcreate, rfl⟩ := ho _ rfl
      exact ⟨hashed, u, hhash, hcreate, rfl⟩
  obtain ⟨hashed, u, hhash, hcreate, heq⟩ := plays_recorded hobeys hplays _ rfl
  cases heq
  have hfact : ∀ e ∈ cfg.trace i, SignUpFact cfg.world e := fun e he =>
    signUpFact_run hrun (i, e) (Config.mem_trace.mp he)
  obtain ⟨hemail, hpassword, row, hrow, hlater⟩ := hfact _ hcreate
  have hsame : row.id = u.id ∧ row.email = u.email ∧ row.password = u.password ∧
      row.createdAt = u.createdAt := by simpa [User.identity] using hlater.same
  refine ⟨row, hrow, hsame.1, hsame.2.1.trans hemail, ?_⟩
  rw [hsame.2.2.1, hpassword]
  exact hfact _ hhash

end Run

/-! ## Signing in -/

/-- The password signs in to the account. -/
structure SignsIn (w : World) (row : User) (plain : String) : Prop where
  live : row.deletedAt = none
  accepted : w.bcrypt plain row.password = true
  unlocked : attemptsAt w row.email < ACCOUNT_LOCKOUT_MAX_ATTEMPTS

/-- The guards accept the tokens of a session: they come to an end, and whenever they do, with the
user. -/
structure Opens (w : World) (row : User) (tokens : Tokens) : Prop where
  access_ends : ∀ i, ∃ o w',
    Finishes (alone i) (JwtAuthGuard.canActivate (some tokens.accessToken)) w o w'
  access : ∀ {i o w'}, Finishes (alone i) (JwtAuthGuard.canActivate (some tokens.accessToken)) w o w' →
    o = .ok { id := row.id, email := row.email, role := row.role, fullName := row.fullName }
  refresh_ends : ∀ i context, ∃ o w',
    Finishes (alone i) (AuthController.refresh (some tokens.refreshToken) context) w o w'
  refresh : ∀ {i context o w'},
    Finishes (alone i) (AuthController.refresh (some tokens.refreshToken) context) w o w' →
      ∃ renewed, o = .ok renewed ∧ renewed.refreshToken.sub = row.id

/-- Nothing is on the blacklist that could be drawn. -/
def World.ListsDrawn (w : World) : Prop :=
  ∀ id, w.redis.entry (.blacklist id) ≠ none → id = "" ∨ id ∈ w.uuids

section Login

variable {i : ℕ} {w w' : World} {row : User} {plain : String} {context : LoginContext}

theorem opens_of {tokens : Tokens} (hrow : row ∈ w.db.users.rows) (hlive : row.deletedAt = none)
    (hof : tokens.Of row.id) (hexp : w.now / 1000 < tokens.accessToken.exp)
    (haccepts : GuardAccepts w tokens.refreshToken) : Opens w row tokens where
  access_ends j := by
    have hcalls : (JwtAuthGuard.canActivate (some tokens.accessToken)).Calls
        fun c : Call => ∀ plain, c ≠ .bcryptHash plain :=
      canActivate_calls (by simp) (by simp) _
    exact exists_finish (fun c w hc => exists_answer j c hc w) hcalls w
  refresh_ends j context := exists_finish_bind
    (@request_answered j (.refresh (some tokens.refreshToken) context) (by simp) w)
  access {j o w'} h := by
    have hfound : w.db.findUser (.id tokens.accessToken.sub) = some row :=
      Table.find?_eq_some.mpr ⟨hrow, hof.1.symm⟩
    rw [JwtAuthGuard.canActivate, verifyJwt_some, bind_assoc, finishes_bind_ok finishes_dateNow,
      if_pos hexp, pure_bind, JwtStrategy.validate, UsersService.findById,
      finishes_bind_ok (finishes_userFindUnique (.id tokens.accessToken.sub)), hfound] at h
    simp only [hlive, Option.isSome_none, Bool.false_eq_true, if_false] at h
    exact h.1
  refresh {j context o w'} h := by
    obtain ⟨-, -, renewed, rfl, hissues⟩ | ⟨hnot, -⟩ := finishes_refresh h
    · exact ⟨renewed, rfl, hissues.sub.trans hof.2⟩
    · exact absurd ⟨haccepts, row, hrow, hof.2.symm, hlive⟩ hnot

theorem issued_opens (hrow : row ∈ w.db.users.rows) (hlive : row.deletedAt = none)
    (hlisted : w.ListsDrawn) {event : SecurityEvent} {o : Except Exception (Tokens × UserSummary)}
    (h : Finishes (alone i) (do
      let tokens ← AuthService.generateTokens row
      AuthService.storeRefreshToken row.id tokens.refreshToken
      audit event
      return (tokens, row.summary)) w o w') :
    ∃ tokens, o = .ok (tokens, row.summary) ∧ Opens w' row tokens := by
  unfold AuthService.generateTokens AuthService.storeRefreshToken at h
  simp only [bind_assoc, pure_bind] at h
  obtain ⟨id, w₁, hid, h⟩ | ⟨e, he, -⟩ := finishes_bind.mp h
  · obtain ⟨id, hfresh, hok, rfl⟩ := (finishes_randomUUID _ _).mp hid
    cases hok
    rw [finishes_bind_ok finishes_dateNow] at h
    rw [finishes_bind_ok (finishes_redis (.set (.refreshToken row.id)
      (tokensOf row id w.now).refreshToken (7 * 24 * 60 * 60)))] at h
    rw [finishes_bind_ok (finishes_audit event)] at h
    obtain ⟨rfl, rfl⟩ := h
    have hnew : w.redis.entry (.blacklist id) = none := by
      by_contra hold
      obtain hempty | hdrawn := hlisted id hold
      · exact hfresh.1.1 hempty
      · exact hfresh.2 hdrawn
    refine ⟨tokensOf row id w.now, rfl, opens_of hrow hlive ⟨rfl, rfl⟩ ?_ ⟨?_, ?_, ?_⟩⟩
    · exact Nat.lt_add_of_pos_right (by decide)
    · exact Nat.lt_add_of_pos_right (by decide)
    · simp [RedisCall.perform, tokensOf, Entry.live, seconds]
    · simp [RedisCall.perform, tokensOf, Expiring.get, hnew]
  · obtain ⟨u, -, hu, -⟩ := (finishes_randomUUID _ _).mp he
    cases hu

/-- A login with the email of a row, in any world. -/
theorem login_decides (hrow : row ∈ w.db.users.rows) (hlisted : w.ListsDrawn)
    {o : Except Exception (Tokens × UserSummary)}
    (h : Finishes (alone i) (AuthService.login row.email plain context) w o w') :
    (SignsIn w row plain ∧ ∃ tokens, o = .ok (tokens, row.summary) ∧ Opens w' row tokens) ∨
      ¬ SignsIn w row plain ∧ ∃ e, o = .error e := by
  by_cases hfull : ACCOUNT_LOCKOUT_MAX_ATTEMPTS ≤ attemptsAt w row.email
  · refine .inr ⟨fun h => absurd hfull (Nat.not_le.mpr h.unlocked), ?_⟩
    cases (login_attempt h).2 with
    | blocked hfull ho hentry hlog =>
      obtain ⟨minutes, rfl⟩ := ho
      exact ⟨_, rfl⟩
    | failed hlow ho hentry hlog => exact ⟨_, ho⟩
    | signedIn hlow ho hentry hlog => exact absurd hfull (Nat.not_le.mpr hlow)
  have hlow : attemptsAt w row.email < ACCOUNT_LOCKOUT_MAX_ATTEMPTS := Nat.lt_of_not_le hfull
  have hget : ¬ ACCOUNT_LOCKOUT_MAX_ATTEMPTS ≤
      ((RedisCall.get (.loginAttempts row.email)).perform w.now w.redis).1.getD (0 : Nat) := hfull
  have hfound : w.db.findUser (.email row.email) = some row :=
    Table.findUnique?_eq_some.mpr ⟨hrow, rfl⟩
  have hfailed : ∀ {userId : Option String} {w₁ : World}, Finishes (alone i) (do
      AuthService.handleFailedLogin row.email context userId
      throw (.unauthorized "Invalid credentials")) w₁ o w' → ∃ e, o = .error e := by
    intro userId w₁ h
    exact (handleFailedLogin_same h).1
  unfold AuthService.login AuthService.checkAccountLockout AuthService.getLoginAttempts at h
  simp only [bind_assoc, pure_bind] at h
  rw [finishes_bind_ok (finishes_redis (.get (.loginAttempts row.email)))] at h
  simp only [if_neg hget, pure_bind] at h
  rw [UsersService.findByEmail, finishes_bind_ok (finishes_userFindUnique (.email row.email)),
    hfound] at h
  cases hdeleted : row.deletedAt with
  | some t =>
    simp only [Option.filter_some, hdeleted, Option.isNone_some, Bool.false_eq_true, if_false] at h
    refine .inr ⟨fun hsigns => ?_, hfailed h⟩
    rw [hsigns.live] at hdeleted
    cases hdeleted
  | none =>
    simp only [Option.filter_some, hdeleted, Option.isNone_none, if_true] at h
    rw [finishes_bind_ok (finishes_bcryptCompare plain row.password)] at h
    split at h
    · rename_i hwrong
      refine .inr ⟨fun hsigns => ?_, hfailed h⟩
      rw [hsigns.accepted] at hwrong
      cases hwrong
    · rename_i hmatch
      rw [AuthService.clearLoginAttempts, bind_assoc,
        finishes_bind_ok (finishes_redis (.del (.loginAttempts row.email))), pure_bind] at h
      refine .inl ⟨⟨hdeleted, by simpa using hmatch, hlow⟩, issued_opens ?_ hdeleted ?_ h⟩
      · exact hrow
      · intro id hid
        exact hlisted id (by simpa [RedisCall.perform] using hid)

end Login

/-! ## The blacklist -/

/-- The call puts no token id on the blacklist but the empty one. -/
def Call.ListsNothing (c : Call) : Prop := ∀ id, id ≠ "" → ¬ c.MakesEntry (.blacklist id)

/-- `logout` never finds a token id in its request. -/
theorem footprint_listsNothing (r : Request) (c : Call) (h : c.IsQuiet ∨ r.footprint c) :
    c.ListsNothing := by
  intro id hid hmakes
  cases c with
  | redis c =>
    obtain hquiet | hfoot := h
    · exact hquiet
    cases r with
    | signup email password fullName role =>
      obtain h | ⟨hashed, h⟩ := hfoot <;> cases h
    | login email password context =>
      simp only [Request.footprint, Call.redis.injEq, reduceCtorEq, exists_false, false_or] at hfoot
      obtain rfl | rfl | rfl | ⟨n, rfl⟩ | rfl | ⟨userId, token, n, rfl⟩ := hfoot <;> cases hmakes
    | refresh cookie context =>
      obtain ⟨token, -, h | h | h | ⟨userId, new, n, h⟩⟩ := hfoot <;> cases h <;> cases hmakes
    | logout cookie context =>
      obtain ⟨userId, h⟩ | ⟨n, h⟩ := hfoot <;> cases h
      · cases hmakes
      · cases hmakes
        exact hid rfl
    | _ =>
      obtain ⟨c, h⟩ | h | ⟨c, h⟩ | ⟨event, h⟩ := footprint_rest rfl hfoot <;> cases h
  | _ => exact hmakes

section Blacklist

variable {α : Type} {cfg cfg' : Config Api ℕ World α} {l : Label ℕ Choice Move}

theorem listsDrawn_step (hcalls : ∀ i, (cfg.pool i).Calls Call.ListsNothing)
    (h : cfg.world.ListsDrawn) (hs : gateway.step l cfg = some cfg') : cfg'.world.ListsDrawn := by
  intro id hid
  by_cases hempty : id = ""
  · exact .inl hempty
  suffices hold : cfg.world.redis.entry (.blacklist id) ≠ none from
    (h id hold).imp_right fun hdrawn => uuids_step hdrawn hs
  obtain ⟨e, he⟩ := Option.ne_none_iff_exists'.mp hid
  obtain ⟨i, ch, c, k, r, w, rfl, hp, hx, rfl⟩ | ⟨mv, w, rfl, hm, rfl⟩ := Machine.step_cases hs
  · have hi := hcalls i
    rw [hp] at hi
    exact Option.ne_none_iff_exists'.mpr ⟨e, entry_of_makesNone (hi.1 id hempty) hx he⟩
  · obtain ⟨elapsed, -, rfl⟩ | ⟨channel, broker, rfl⟩ := move_cases hm
    · exact hid
    · exact hid

theorem listsDrawn_run {incoming : ℕ → HttpRequest} {w : World} {ls : List (Label ℕ Choice Move)}
    {cfg : Config Api ℕ World Response} (h : w.ListsDrawn)
    (hrun : gateway.run ls (.start w (HttpRequest.pool incoming)) = some cfg) :
    cfg.world.ListsDrawn := by
  refine (Machine.run_induction
    (fun cfg => (∀ i, (cfg.pool i).Calls Call.ListsNothing) ∧ cfg.world.ListsDrawn)
    (fun {cfg l cfg'} h hs => ?_) ⟨fun i => ?_, h⟩ hrun).2
  · exact ⟨calls_step h.1 hs, listsDrawn_step h.1 h.2 hs⟩
  · exact http_calls footprint_listsNothing (incoming i)

end Blacklist

/-! ## Accounts -/

/-- Whatever has happened since a signup, there is a row with its email and a hash of its password,
and a login with that email comes to an end: with tokens of that row which both guards accept if the
row is not deleted, the password matches and the email is not locked, and with a rejection if not. -/
theorem accounts_open {incoming : ℕ → HttpRequest} {w : World} {ls : List (Label ℕ Choice Move)}
    {cfg : Config Api ℕ World Response} {i : ℕ} {email password fullName : String} {role : Role}
    {user : UserSummary} (hlisted : w.ListsDrawn)
    (hrun : gateway.run ls (.start w (HttpRequest.pool incoming)) = some cfg)
    (hroute : (incoming i).route = .inl (.signup email password fullName role))
    (ho : cfg.outcome? i = some (.ok (.signedUp user))) :
    ∃ row ∈ cfg.world.db.users.rows, row.id = user.id ∧ row.email = email ∧
      cfg.world.bcrypt password row.password = true ∧
      ∀ j plain context,
        (∃ o w', Finishes (alone j) (AuthService.login email plain context) cfg.world o w') ∧
        ∀ o w', Finishes (alone j) (AuthService.login email plain context) cfg.world o w' →
          (SignsIn cfg.world row plain → ∃ tokens, o = .ok (tokens, row.summary) ∧
            Opens w' row tokens) ∧
          (¬ SignsIn cfg.world row plain → ∃ e, o = .error e) := by
  obtain ⟨row, hrow, hid, rfl, hmatch⟩ := signedUp_row hrun hroute ho
  refine ⟨row, hrow, hid, rfl, hmatch, fun j plain context => ⟨?_, fun o w' h => ?_⟩⟩
  · exact exists_finish_bind
      (@request_answered j (.login row.email plain context) (by simp) cfg.world)
  · obtain ⟨hsigns, hopens⟩ | ⟨hnot, hrejected⟩ :=
      login_decides hrow (listsDrawn_run hlisted hrun) h
    · exact ⟨fun _ => hopens, fun hnot => absurd hsigns hnot⟩
    · exact ⟨fun hsigns => absurd hsigns hnot, fun _ => hrejected⟩

/-! ## Nora -/

/-- The account that Nora is told of. -/
def Response.account? : Response → Option UserSummary
  | .signedUp user => some user
  | _ => none

def nora : UserSummary where
  id := "u-nora"
  email := "nora@talentflow.dev"
  fullName := "Nora"
  role := .interviewer
  createdAt := 0

/-- Nora signs up, and Ada makes her a recruiter. -/
def noraJoins : ℕ → HttpRequest
  | 0 => { route := .inl (.signup nora.email "Nora-2024!" "Nora" .interviewer) }
  | _ => adaAsks (.updateRole "u-nora" .recruiter) 0

theorem seeded_listsDrawn : seeded.ListsDrawn := fun _ h => absurd rfl h

theorem accounts_open_nora :
    ∃ cfg, gateway.run (List.replicate 4 (.run 0 { uuid := "u-nora", text := "hash:Nora-2024!" }) ++
        List.replicate 4 (.run 1 {})) (.start seeded (HttpRequest.pool noraJoins)) = some cfg ∧
      ∃ row ∈ cfg.world.db.users.rows, row.id = "u-nora" ∧ row.email = nora.email ∧
        ∃ o w' tokens,
          Finishes (alone 2) (AuthService.login nora.email "Nora-2024!" {}) cfg.world o w' ∧
            o = .ok (tokens, row.summary) ∧ Opens w' row tokens := by
  have h : (gateway.run (List.replicate 4 (.run 0 { uuid := "u-nora", text := "hash:Nora-2024!" }) ++
      List.replicate 4 (.run 1 {})) (.start seeded (HttpRequest.pool noraJoins))).map
      (fun cfg => ((cfg.outcome? 0).map fun o => o.toOption.bind Response.account?,
        decide (∀ u ∈ cfg.world.db.users.rows, u.deletedAt = none), attemptsAt cfg.world nora.email)) =
        some (some (some nora), true, 0) := by decide +kernel
  obtain ⟨cfg, hrun, hdone⟩ := Option.map_eq_some_iff.mp h
  obtain ⟨hanswered, hdone⟩ := Prod.mk.inj hdone
  obtain ⟨hlive, hattempts⟩ := Prod.mk.inj hdone
  obtain ⟨o, ho, haccount⟩ := Option.map_eq_some_iff.mp hanswered
  have hsigned : o = .ok (.signedUp nora) := by
    cases o with
    | error e => cases haccount
    | ok response =>
      cases response <;> first | cases haccount; rfl | cases haccount
  obtain ⟨row, hrow, hid, hemail, hmatch, hlogin⟩ :=
    accounts_open seeded_listsDrawn hrun rfl (hsigned ▸ ho)
  have hsigns : SignsIn cfg.world row "Nora-2024!" := by
    refine ⟨of_decide_eq_true hlive row hrow, hmatch, ?_⟩
    rw [hemail, hattempts]
    decide
  obtain ⟨⟨o, w', h⟩, hends⟩ := hlogin 2 "Nora-2024!" {}
  obtain ⟨tokens, hok, hopens⟩ := (hends o w' h).1 hsigns
  exact ⟨cfg, hrun, row, hrow, hid, hemail, o, w', tokens, h, hok, hopens⟩

end TalentFlow
