import TalentFlow.Gateway.Alone

/-!
# Guarantees.Acceptance

Requests one after another. A refresh token is then accepted exactly if it is the one most recently
returned to its user, the user has not logged out since, it has not reached the second seven days
after the one it was issued in, and the user is there. The history of the requests and their
answers says which token that is; the invariant ties what Redis stores to the history.

* `finishes_login`, `finishes_refresh`, `finishes_logout`: what one request does to sessions.
* `sessionInv_happens`, `sessionInv_serial`: one happening, and every history, keeps the invariant.
* `refresh_accepted_iff`: when a refresh is accepted; `refresh_rejected_early`: seven days are
  counted in whole seconds.
-/

namespace TalentFlow

open Data Async

/-! ## Histories -/

inductive Happening where
  /-- a request came and was answered, at time `t` -/
  | answered (t : Time) (r : Request) (o : Except Exception Response)
  /-- time passed, or the channel changed -/
  | moved (mv : Move)

/-- What has happened takes the world to `w'`, one after the other and with no failing call. -/
def Happens : Happening → World → World → Prop
  | .answered t r o, w, w' => t = w.now ∧ ∃ i, Finishes (alone i) r.prog w o w'
  | .moved mv, w, w' => gateway.move mv w = some w'

def Serial : List Happening → World → World → Prop
  | [], w, w' => w' = w
  | h :: hs, w, w' => ∃ w₁, Happens h w w₁ ∧ Serial hs w₁ w'

/-- One thing to let happen, with what the environment chooses. -/
inductive Turn where
  | request (r : Request) (choices : List Choice)
  | move (mv : Move)

/-- Lets it happen, if it comes to its end with these choices and without a failing call. -/
def Turn.play : Turn → World → Option (Happening × World)
  | .request r choices, w =>
    if choices.all fun ch => !ch.fails then
      (gateway.run (choices.map (.run 0)) (.start w fun _ => r.prog)).bind fun cfg =>
        (cfg.outcome? 0).map fun o => (.answered w.now r o, cfg.world)
    else none
  | .move mv, w => (gateway.move mv w).map fun w' => (.moved mv, w')

def play : List Turn → World → Option (List Happening × World)
  | [], w => some ([], w)
  | t :: ts, w => (t.play w).bind fun p => (play ts p.2).map fun q => (p.1 :: q.1, q.2)

theorem play_request {r : Request} {choices : List Choice} {w w' : World} {h : Happening}
    (hp : (Turn.request r choices).play w = some (h, w')) :
    ∃ o, h = .answered w.now r o ∧ Happens h w w' := by
  simp only [Turn.play] at hp
  split at hp
  · rename_i hok
    obtain ⟨cfg, hrun, hp⟩ := Option.bind_eq_some_iff.mp hp
    obtain ⟨o, ho, hp⟩ := Option.map_eq_some_iff.mp hp
    cases hp
    have hfinish := finishes_of_run (Q := fun ch => ch.fails = false)
      (fun ch hch => by simpa using List.all_eq_true.mp hok ch hch) hrun ho
    exact ⟨o, rfl, rfl, 0, hfinish⟩
  · cases hp

theorem play_happens {t : Turn} {w w' : World} {h : Happening} (hp : t.play w = some (h, w')) :
    Happens h w w' := by
  cases t with
  | request r choices =>
    obtain ⟨o, -, hh⟩ := play_request hp
    exact hh
  | move mv =>
    obtain ⟨w₁, hm, heq⟩ := Option.map_eq_some_iff.mp hp
    cases heq
    exact hm

theorem play_serial {ts : List Turn} {w w' : World} {hs : List Happening}
    (hp : play ts w = some (hs, w')) : Serial hs w w' := by
  induction ts generalizing w hs with
  | nil =>
    cases hp
    rfl
  | cons t ts ih =>
    obtain ⟨⟨h, w₁⟩, hplay, hp⟩ := Option.bind_eq_some_iff.mp hp
    obtain ⟨⟨hs', w₂⟩, hrest, heq⟩ := Option.map_eq_some_iff.mp hp
    cases heq
    exact ⟨w₁, play_happens hplay, ih hrest⟩

/-- As `play`, as long as the check of what happens and of the world before it succeeds. -/
def playChecked (check : World → Happening → Bool) :
    List Turn → World → Option (List Happening × World)
  | [], w => some ([], w)
  | t :: ts, w => (t.play w).bind fun p =>
    if check w p.1 then (playChecked check ts p.2).map fun q => (p.1 :: q.1, q.2) else none

/-- A token that was returned, and when it was issued. -/
structure Session where
  token : RefreshToken
  issuedAt : Time

/-- The session of user `u` after something has happened: a token that was returned to them begins
a new one, and a logout of theirs ends it. -/
def nextSession (u : String) (s : Option Session) : Happening → Option Session
  | .answered t (.login _ _ _) (.ok (.loggedIn tokens user)) =>
    if user.id = u then some ⟨tokens.refreshToken, t⟩ else s
  | .answered t (.refresh (some token) _) (.ok (.refreshed tokens)) =>
    if token.sub = u then some ⟨tokens.refreshToken, t⟩ else s
  | .answered _ (.logout (some access) _) (.ok _) => if access.sub = u then none else s
  | _ => s

/-- The token most recently returned to `u`, if they have not logged out since. -/
def session (u : String) (hs : List Happening) : Option Session :=
  hs.foldl (nextSession u) none

/-! ## What requests do to sessions -/

/-- The stored tokens and the blacklist are as they were. -/
structure SameSessions (w w' : World) : Prop where
  token : ∀ u, w'.redis.entry (.refreshToken u) = w.redis.entry (.refreshToken u)
  blacklist : ∀ id, w'.redis.entry (.blacklist id) = w.redis.entry (.blacklist id)
  now : w'.now = w.now
  uuids : ∀ id ∈ w.uuids, id ∈ w'.uuids

theorem SameSessions.refl (w : World) : SameSessions w w :=
  ⟨fun _ => rfl, fun _ => rfl, rfl, fun _ h => h⟩

theorem SameSessions.trans {w w' w'' : World} (h : SameSessions w w') (h' : SameSessions w' w'') :
    SameSessions w w'' where
  token u := (h'.token u).trans (h.token u)
  blacklist id := (h'.blacklist id).trans (h.blacklist id)
  now := h'.now.trans h.now
  uuids id hid := h'.uuids id (h.uuids id hid)

/-- Calls that do not write tokens or the blacklist. -/
def LeavesSessions : Call → Prop
  | .redis (.set k _ _) => ∃ email, k = .loginAttempts email
  | .redis (.del k) => ∃ email, k = .loginAttempts email
  | .redis (.expire k _) => ∃ email, k = .loginAttempts email
  | _ => True

section Frame

variable {i : ℕ} {ch : Choice} {w w' : World}

theorem redis_sameSessions {c : RedisCall} (hc : LeavesSessions (.redis c)) :
    (∀ u, (c.perform w.now w.redis).2.entry (.refreshToken u) = w.redis.entry (.refreshToken u)) ∧
      ∀ id, (c.perform w.now w.redis).2.entry (.blacklist id) = w.redis.entry (.blacklist id) := by
  cases c with
  | get k => exact ⟨fun _ => rfl, fun _ => rfl⟩
  | existsKey k => exact ⟨fun _ => rfl, fun _ => rfl⟩
  | ttl k =>
    simp only [RedisCall.perform]
    split <;> exact ⟨fun _ => rfl, fun _ => rfl⟩
  | set k v n =>
    obtain ⟨email, rfl⟩ := hc
    simp [RedisCall.perform]
  | del k =>
    obtain ⟨email, rfl⟩ := hc
    simp [RedisCall.perform]
  | expire k n =>
    obtain ⟨email, rfl⟩ := hc
    simp only [RedisCall.perform]
    split <;> simp
  | incr email =>
    simp only [RedisCall.perform]
    split <;> simp

theorem exec_sameSessions {c : Call} {a : Api.Answer c} (hc : LeavesSessions c)
    (h : gateway.exec i c ch w = some (a, w')) : SameSessions w w' := by
  have hframe := exec_frame h
  by_cases hredis : ∃ c', c = .redis c'
  · obtain ⟨c', rfl⟩ := hredis
    obtain ⟨-, rfl⟩ | ⟨-, rfl⟩ := redis_cases h
    · exact .refl _
    · obtain ⟨htoken, hblacklist⟩ := redis_sameSessions hc
      exact ⟨htoken, hblacklist, rfl, fun _ h => h⟩
  · have heq := hframe.redis fun c' hc' => hredis ⟨c', hc'⟩
    exact ⟨fun u => by rw [heq], fun id => by rw [heq], hframe.now, fun _ hu => uuids_exec h hu⟩

theorem sameSessions_of_calls {α : Type} {p : Prog Api α} (hp : p.Calls LeavesSessions)
    {o : Except Exception α} (h : Finishes (alone i) p w o w') : SameSessions w w' :=
  finishes_keeps (SameSessions w)
    (fun hc ⟨_, _, hx⟩ hsame => hsame.trans (exec_sameSessions hc hx)) hp h (.refl w)

end Frame

/-! ## Login, refresh, logout -/

structure Issues (w w' : World) (u : String) (token : RefreshToken) : Prop where
  sub : token.sub = u
  exp : token.exp = w.now / 1000 + JWT_REFRESH_TOKEN_EXPIRATION
  fresh : w.Fresh token.tokenId
  drawn : token.tokenId ∈ w'.uuids
  stored : w'.redis.entry (.refreshToken u) =
    some ⟨token, some (w.now + seconds JWT_REFRESH_TOKEN_EXPIRATION)⟩
  others : ∀ u', u' ≠ u → w'.redis.entry (.refreshToken u') = w.redis.entry (.refreshToken u')
  blacklist : ∀ id, w'.redis.entry (.blacklist id) = w.redis.entry (.blacklist id)
  now : w'.now = w.now
  uuids : ∀ id ∈ w.uuids, id ∈ w'.uuids

theorem Issues.after {w w₁ w' : World} {u : String} {token : RefreshToken}
    (hsame : SameSessions w w₁) (h : Issues w₁ w' u token) : Issues w w' u token where
  sub := h.sub
  exp := by rw [h.exp, hsame.now]
  fresh := ⟨h.fresh.1, fun hid => h.fresh.2 (hsame.uuids _ hid)⟩
  drawn := h.drawn
  stored := by rw [h.stored, hsame.now]
  others u' hu' := (h.others u' hu').trans (hsame.token u')
  blacklist id := (h.blacklist id).trans (hsame.blacklist id)
  now := h.now.trans hsame.now
  uuids id hid := h.uuids id (hsame.uuids id hid)

section Requests

variable {i : ℕ} {w w' : World} {context : LoginContext}

theorem leaves_quiet (c : Call) (h : c.IsQuiet) : LeavesSessions c := by
  unfold LeavesSessions
  split
  · exact h.elim
  · exact h.elim
  · exact h.elim
  · trivial

/-- The tokens `generateTokens` gives a user at this time. -/
def tokensOf (user : User) (tokenId : String) (now : Time) : Tokens where
  accessToken :=
    { sub := user.id, email := user.email, role := user.role, iat := now / 1000,
      exp := now / 1000 + JWT_ACCESS_TOKEN_EXPIRATION }
  refreshToken :=
    { sub := user.id, email := user.email, role := user.role, tokenId, iat := now / 1000,
      exp := now / 1000 + JWT_REFRESH_TOKEN_EXPIRATION }

/-- Tokens are issued and stored, `event` is logged and the tokens are returned. -/
theorem finishes_issue {α : Type} {user : User} {event : SecurityEvent} {f : Tokens → α}
    {o : Except Exception α} (h : Finishes (alone i) (do
      let tokens ← AuthService.generateTokens user
      AuthService.storeRefreshToken user.id tokens.refreshToken
      audit event
      return f tokens) w o w') :
    ∃ tokens, o = .ok (f tokens) ∧ Issues w w' user.id tokens.refreshToken := by
  unfold AuthService.generateTokens AuthService.storeRefreshToken at h
  simp only [bind_assoc, pure_bind] at h
  obtain ⟨id, w₁, hid, h⟩ | ⟨e, he, -⟩ := finishes_bind.mp h
  · obtain ⟨id, hfresh, hok, rfl⟩ := (finishes_randomUUID _ _).mp hid
    cases hok
    rw [finishes_bind_ok finishes_dateNow] at h
    rw [finishes_bind_ok (finishes_redis (.set (.refreshToken user.id)
      (tokensOf user id w.now).refreshToken (7 * 24 * 60 * 60)))] at h
    rw [finishes_bind_ok (finishes_audit event)] at h
    obtain ⟨rfl, rfl⟩ := h
    refine ⟨tokensOf user id w.now, rfl, rfl, rfl, hfresh, ?_, ?_, ?_, ?_, rfl, ?_⟩
    · simp [World.uuids, tokensOf]
    · simp [RedisCall.perform, JWT_REFRESH_TOKEN_EXPIRATION, tokensOf]
    · intro u hu
      simp [RedisCall.perform, hu]
    · intro id'
      simp [RedisCall.perform]
    · intro id' hid'
      exact List.mem_map.mpr (by
        obtain ⟨p, hp, hpid⟩ := List.mem_map.mp hid'
        exact ⟨p, List.mem_append_left _ hp, hpid⟩)
  · obtain ⟨u, -, hu, -⟩ := (finishes_randomUUID _ _).mp he
    cases hu

theorem handleFailedLogin_same {α : Type} {email : String} {userId : Option String} {e : Exception}
    {o : Except Exception α} (h : Finishes (alone i) (do
      AuthService.handleFailedLogin email context userId
      throw e) w o w') : (∃ e, o = .error e) ∧ SameSessions w w' := by
  have hcalls : (AuthService.handleFailedLogin email context userId).Calls LeavesSessions :=
    handleFailedLogin_calls leaves_quiet trivial ⟨email, rfl⟩ context userId
  obtain ⟨_, w₁, hfailed, rfl, rfl⟩ | ⟨e', hfailed, rfl⟩ := finishes_bind.mp h
  · exact ⟨⟨e, rfl⟩, sameSessions_of_calls hcalls hfailed⟩
  · exact ⟨⟨e', rfl⟩, sameSessions_of_calls hcalls hfailed⟩

theorem finishes_login {email password : String} {o : Except Exception (Tokens × UserSummary)}
    (h : Finishes (alone i) (AuthService.login email password context) w o w') :
    (∃ tokens user, o = .ok (tokens, user) ∧ Issues w w' user.id tokens.refreshToken) ∨
      (∃ e, o = .error e) ∧ SameSessions w w' := by
  have hlockout : (AuthService.checkAccountLockout email).Calls LeavesSessions :=
    checkAccountLockout_calls leaves_quiet trivial trivial
  obtain ⟨_, w₁, hchecked, h⟩ | ⟨e, hblocked, rfl⟩ := finishes_bind.mp h
  · have hsame := sameSessions_of_calls hlockout hchecked
    unfold UsersService.findByEmail at h
    rw [finishes_bind_ok (finishes_userFindUnique (.email email))] at h
    split at h
    · obtain ⟨herr, hfailed⟩ := handleFailedLogin_same h
      exact .inr ⟨herr, hsame.trans hfailed⟩
    · rename_i user hfound
      rw [finishes_bind_ok (finishes_bcryptCompare password user.password)] at h
      split at h
      · obtain ⟨herr, hfailed⟩ :=
          handleFailedLogin_same (e := .unauthorized "Invalid credentials") h
        exact .inr ⟨herr, hsame.trans hfailed⟩
      · have hclear : (AuthService.clearLoginAttempts email).Calls LeavesSessions :=
          calls_bind (calls_await ⟨email, rfl⟩) fun _ => trivial
        obtain ⟨_, w₂, hcleared, h⟩ | ⟨e, hcleared, rfl⟩ := finishes_bind.mp h
        · obtain ⟨tokens, rfl, hissues⟩ := finishes_issue h
          have hbefore := hsame.trans (sameSessions_of_calls hclear hcleared)
          exact .inl ⟨tokens, user.summary, rfl, hissues.after hbefore⟩
        · exact .inr ⟨⟨e, rfl⟩, hsame.trans (sameSessions_of_calls hclear hcleared)⟩
  · exact .inr ⟨⟨e, rfl⟩, sameSessions_of_calls hlockout hblocked⟩

/-- What the guard of a refresh checks. -/
def GuardAccepts (w : World) (token : RefreshToken) : Prop :=
  w.now / 1000 < token.exp ∧ w.redis.get w.now (.refreshToken token.sub) = some token ∧
    w.redis.get w.now (.blacklist token.tokenId) = none

def UserLive (w : World) (userId : String) : Prop :=
  ∃ user ∈ w.db.users.rows, user.id = userId ∧ user.deletedAt = none

theorem finishes_jwtRefreshGuard {token : RefreshToken} {o : Except Exception RefreshUserPayload}
    (h : Finishes (alone i) (JwtRefreshGuard.canActivate (some token)) w o w') :
    w' = w ∧ (GuardAccepts w token ∧ o = .ok ⟨token.sub, token.email, token.tokenId⟩ ∨
      ¬ GuardAccepts w token ∧ ∃ e, o = .error e) := by
  rw [JwtRefreshGuard.canActivate, verifyJwt_some, bind_assoc, finishes_bind_ok finishes_dateNow] at h
  split at h
  · rename_i hexp
    rw [pure_bind, JwtRefreshStrategy.validate,
      finishes_bind_ok (finishes_redis (.get (.refreshToken token.sub)))] at h
    split at h
    · rename_i hstored
      obtain ⟨rfl, rfl⟩ := h
      exact ⟨rfl, .inr ⟨fun h => hstored h.2.1, _, rfl⟩⟩
    · rename_i hstored
      rw [finishes_bind_ok (finishes_redis (.existsKey (.blacklist token.tokenId)))] at h
      split at h
      · rename_i hlisted
        obtain ⟨rfl, rfl⟩ := h
        refine ⟨rfl, .inr ⟨fun h => hlisted ?_, _, rfl⟩⟩
        simp [RedisCall.perform, h.2.2]
      · rename_i hlisted
        obtain ⟨rfl, rfl⟩ := h
        refine ⟨rfl, .inl ⟨⟨hexp, not_not.mp hstored, ?_⟩, rfl⟩⟩
        cases hget : w.redis.get w.now (.blacklist token.tokenId) with
        | none => rfl
        | some v => simp [RedisCall.perform, hget] at hlisted
  · rename_i hexp
    obtain ⟨rfl, rfl⟩ := h
    exact ⟨rfl, .inr ⟨fun h => hexp h.1, _, rfl⟩⟩

theorem finishes_refresh {token : RefreshToken} {o : Except Exception Tokens}
    (h : Finishes (alone i) (AuthController.refresh (some token) context) w o w') :
    (GuardAccepts w token ∧ UserLive w token.sub ∧ ∃ tokens, o = .ok tokens ∧
      Issues w w' token.sub tokens.refreshToken) ∨
    ¬ (GuardAccepts w token ∧ UserLive w token.sub) ∧ (∃ e, o = .error e) ∧ SameSessions w w' := by
  obtain ⟨payload, w₁, hguard, h⟩ | ⟨e, hguard, rfl⟩ := finishes_bind.mp h
  · obtain ⟨rfl, (⟨hacc, hok⟩ | ⟨-, e, herr⟩)⟩ := finishes_jwtRefreshGuard hguard
    · cases hok
      unfold AuthService.refresh UsersService.findById at h
      rw [finishes_bind_ok (finishes_userFindUnique (.id token.sub))] at h
      split at h
      · rename_i hnone
        have hgone : ¬ UserLive w₁ token.sub := by
          rintro ⟨user, hmem, hid, hlive⟩
          rw [Db.findUser, Table.find?_eq_some.mpr ⟨hmem, hid⟩] at hnone
          simp [hlive] at hnone
        rw [finishes_bind_ok (finishes_audit _)] at h
        obtain ⟨rfl, rfl⟩ := h
        exact .inr ⟨fun h => hgone h.2, ⟨_, rfl⟩, ⟨fun _ => rfl, fun _ => rfl, rfl, fun _ h => h⟩⟩
      · rename_i user hsome
        obtain ⟨hfind, hlive⟩ := Option.filter_eq_some_iff.mp hsome
        obtain ⟨hmem, hid⟩ := Table.find?_eq_some.mp hfind
        obtain ⟨tokens, rfl, hissues⟩ := finishes_issue h
        rw [hid] at hissues
        exact .inl ⟨hacc, ⟨user, hmem, hid, by simpa using hlive⟩, tokens, rfl, hissues⟩
    · cases herr
  · obtain ⟨rfl, (⟨-, hok⟩ | ⟨hrej, -⟩)⟩ := finishes_jwtRefreshGuard hguard
    · cases hok
    · exact .inr ⟨fun h => hrej h.1, ⟨e, rfl⟩, .refl w'⟩

structure EndsSession (w w' : World) (u : String) : Prop where
  stored : w'.redis.entry (.refreshToken u) = none
  others : ∀ u', u' ≠ u → w'.redis.entry (.refreshToken u') = w.redis.entry (.refreshToken u')
  blacklist : ∀ id, id ≠ "" → w'.redis.entry (.blacklist id) = w.redis.entry (.blacklist id)
  now : w'.now = w.now
  uuids : ∀ id ∈ w.uuids, id ∈ w'.uuids

theorem finishes_jwtAuthGuard {access : AccessToken} {o : Except Exception UserPayload}
    (h : Finishes (alone i) (JwtAuthGuard.canActivate (some access)) w o w') :
    w' = w ∧ ((∃ user, o = .ok user ∧ user.id = access.sub ∧ user.tokenId = none) ∨
      ∃ e, o = .error e) := by
  rw [JwtAuthGuard.canActivate, verifyJwt_some, bind_assoc, finishes_bind_ok finishes_dateNow] at h
  split at h
  · rw [pure_bind, JwtStrategy.validate, UsersService.findById,
      finishes_bind_ok (finishes_userFindUnique (.id access.sub))] at h
    split at h
    · rename_i user hfound
      split at h
      · obtain ⟨rfl, rfl⟩ := h
        exact ⟨rfl, .inr ⟨_, rfl⟩⟩
      · obtain ⟨rfl, rfl⟩ := h
        exact ⟨rfl, .inl ⟨_, rfl, (Table.find?_eq_some.mp hfound).2, rfl⟩⟩
    · obtain ⟨rfl, rfl⟩ := h
      exact ⟨rfl, .inr ⟨_, rfl⟩⟩
  · obtain ⟨rfl, rfl⟩ := h
    exact ⟨rfl, .inr ⟨_, rfl⟩⟩

theorem finishes_logout {access : AccessToken} {o : Except Exception Unit}
    (h : Finishes (alone i) (AuthController.logout (some access) context) w o w') :
    (o = .ok () ∧ EndsSession w w' access.sub) ∨ (∃ e, o = .error e) ∧ SameSessions w w' := by
  obtain ⟨user, w₁, hguard, hend⟩ | ⟨e, hguard, rfl⟩ := finishes_bind.mp h
  · obtain ⟨rfl, (⟨user, hok, hid, hnone⟩ | ⟨e, herr⟩)⟩ := finishes_jwtAuthGuard hguard
    · cases hok
      rw [hid, hnone, AuthService.logout,
        finishes_bind_ok (finishes_redis (.del (.refreshToken access.sub))),
        finishes_bind_ok (finishes_redis (.set (.blacklist "") "true" (7 * 24 * 60 * 60))),
        finishes_audit] at hend
      obtain ⟨rfl, rfl⟩ := hend
      refine .inl ⟨rfl, ?_, ?_, ?_, rfl, fun _ h => h⟩
      · simp [RedisCall.perform]
      · intro u hu
        simp [RedisCall.perform, hu]
      · intro id hid
        simp [RedisCall.perform, hid]
    · cases herr
  · obtain ⟨rfl, -⟩ := finishes_jwtAuthGuard hguard
    exact .inr ⟨⟨e, rfl⟩, .refl w'⟩

theorem footprint_leaves {r : Request} (hlogin : ∀ email password context,
    r ≠ .login email password context) (hrefresh : ∀ cookie context, r ≠ .refresh cookie context)
    (hlogout : ∀ cookie context, r ≠ .logout cookie context) {c : Call} (hc : r.footprint c) :
    LeavesSessions c := by
  have hredis : ∀ c', c ≠ .redis c' := by
    rintro c' rfl
    cases r with
    | login email password context => exact hlogin _ _ _ rfl
    | refresh cookie context => exact hrefresh _ _ rfl
    | logout cookie context => exact hlogout _ _ rfl
    | _ => simp [Request.footprint] at hc
  unfold LeavesSessions
  split
  · exact absurd rfl (hredis _)
  · exact absurd rfl (hredis _)
  · exact absurd rfl (hredis _)
  · trivial

theorem finishes_other {r : Request} {o : Except Exception Response}
    (hlogin : ∀ email password context, r ≠ .login email password context)
    (hrefresh : ∀ cookie context, r ≠ .refresh cookie context)
    (hlogout : ∀ cookie context, r ≠ .logout cookie context)
    (h : Finishes (alone i) r.prog w o w') : SameSessions w w' := by
  refine sameSessions_of_calls (calls_mono (prog_calls r) fun c hc => ?_) h
  rcases hc with hq | hf
  · exact leaves_quiet c hq
  · exact footprint_leaves hlogin hrefresh hlogout hf

end Requests

/-! ## The history and the store -/

/-- Redis holds exactly the tokens of the history, each until seven days after it was issued. -/
structure SessionInv (w : World) (sessions : String → Option Session) : Prop where
  blacklist : ∀ id, w.redis.entry (.blacklist id) ≠ none → id = "" ∨ id ∈ w.uuids
  ended : ∀ u, sessions u = none → w.redis.entry (.refreshToken u) = none
  current : ∀ u s, sessions u = some s →
    w.redis.entry (.refreshToken u) =
      some ⟨s.token, some (s.issuedAt + seconds JWT_REFRESH_TOKEN_EXPIRATION)⟩ ∧
    s.token.sub = u ∧ s.token.exp = s.issuedAt / 1000 + JWT_REFRESH_TOKEN_EXPIRATION ∧
    s.token.tokenId ≠ "" ∧ w.redis.entry (.blacklist s.token.tokenId) = none

section Inv

variable {w w' : World} {sessions : String → Option Session}

theorem sessionInv_same (hinv : SessionInv w sessions) (h : SameSessions w w') :
    SessionInv w' sessions where
  blacklist id hid := by
    rw [h.blacklist] at hid
    exact (hinv.blacklist id hid).imp_right (h.uuids id)
  ended u hu := (h.token u).trans (hinv.ended u hu)
  current u s hu := by
    obtain ⟨hentry, hsub, hexp, hne, hfree⟩ := hinv.current u s hu
    exact ⟨(h.token u).trans hentry, hsub, hexp, hne, (h.blacklist _).trans hfree⟩

theorem sessionInv_issues (hinv : SessionInv w sessions) {u : String} {token : RefreshToken}
    (h : Issues w w' u token) :
    SessionInv w' fun v => if u = v then some ⟨token, w.now⟩ else sessions v where
  blacklist id hid := by
    rw [h.blacklist] at hid
    exact (hinv.blacklist id hid).imp_right (h.uuids id)
  ended v hv := by
    by_cases hu : u = v
    · simp [hu] at hv
    · rw [if_neg hu] at hv
      exact (h.others v (Ne.symm hu)).trans (hinv.ended v hv)
  current v new hv := by
    by_cases hu : u = v
    · subst hu
      rw [if_pos rfl, Option.some.injEq] at hv
      subst hv
      -- the token id is new, so it is not on the blacklist
      have hfree : w.redis.entry (.blacklist token.tokenId) = none := by
        by_contra hlisted
        obtain hempty | hold := hinv.blacklist _ hlisted
        · exact h.fresh.1.1 hempty
        · exact h.fresh.2 hold
      exact ⟨h.stored, h.sub, h.exp, h.fresh.1.1, (h.blacklist _).trans hfree⟩
    · rw [if_neg hu] at hv
      obtain ⟨hentry, hsub, hexp, hne, hfree⟩ := hinv.current v new hv
      exact ⟨(h.others v (Ne.symm hu)).trans hentry, hsub, hexp, hne,
        (h.blacklist _).trans hfree⟩

theorem sessionInv_ends (hinv : SessionInv w sessions) {u : String} (h : EndsSession w w' u) :
    SessionInv w' fun v => if u = v then none else sessions v where
  blacklist id hid := by
    by_cases hempty : id = ""
    · exact .inl hempty
    · rw [h.blacklist id hempty] at hid
      exact (hinv.blacklist id hid).imp_right (h.uuids id)
  ended v hv := by
    by_cases hu : u = v
    · subst hu
      exact h.stored
    · rw [if_neg hu] at hv
      exact (h.others v (Ne.symm hu)).trans (hinv.ended v hv)
  current v s hv := by
    by_cases hu : u = v
    · simp [hu] at hv
    · rw [if_neg hu] at hv
      obtain ⟨hentry, hsub, hexp, hne, hfree⟩ := hinv.current v s hv
      exact ⟨(h.others v (Ne.symm hu)).trans hentry, hsub, hexp, hne,
        (h.blacklist _ hne).trans hfree⟩

end Inv

section History

/-- Redis is keeping no session when the history begins. -/
structure World.NoSessions (w : World) : Prop where
  token : ∀ u, w.redis.entry (.refreshToken u) = none
  blacklist : ∀ id, w.redis.entry (.blacklist id) ≠ none → id = "" ∨ id ∈ w.uuids

variable {w w' : World}

theorem sessionInv_happens {sessions : String → Option Session}
    (hinv : SessionInv w sessions) {h : Happening} (hw : Happens h w w') :
    SessionInv w' fun u => nextSession u (sessions u) h := by
  cases h with
  | moved mv =>
    obtain ⟨elapsed, -, rfl⟩ | ⟨channel, broker, rfl⟩ := move_cases hw
    · exact ⟨hinv.blacklist, hinv.ended, hinv.current⟩
    · exact ⟨hinv.blacklist, hinv.ended, hinv.current⟩
  | answered t r o =>
    obtain ⟨rfl, i, hw⟩ := hw
    cases r with
    | login email password context =>
      obtain ⟨⟨tokens, user⟩, w₁, hlogin, rfl, rfl⟩ | ⟨e, hlogin, rfl⟩ := finishes_bind.mp hw
      · obtain ⟨tokens, user, hok, hissues⟩ | ⟨⟨e, herr⟩, -⟩ := finishes_login hlogin
        · cases hok
          exact sessionInv_issues hinv hissues
        · cases herr
      · obtain ⟨tokens, user, hok, -⟩ | ⟨-, hsame⟩ := finishes_login hlogin
        · cases hok
        · exact sessionInv_same hinv hsame
    | refresh cookie context =>
      cases cookie with
      | none =>
        obtain ⟨rfl, rfl⟩ := hw
        exact hinv
      | some token =>
        obtain ⟨tokens, w₁, hrefresh, rfl, rfl⟩ | ⟨e, hrefresh, rfl⟩ := finishes_bind.mp hw
        · obtain ⟨-, -, tokens, hok, hissues⟩ | ⟨-, ⟨e, herr⟩, -⟩ := finishes_refresh hrefresh
          · cases hok
            exact sessionInv_issues hinv hissues
          · cases herr
        · obtain ⟨-, -, tokens, hok, -⟩ | ⟨-, -, hsame⟩ := finishes_refresh hrefresh
          · cases hok
          · exact sessionInv_same hinv hsame
    | logout cookie context =>
      cases cookie with
      | none =>
        obtain ⟨rfl, rfl⟩ := hw
        exact hinv
      | some access =>
        obtain ⟨_, w₁, hlogout, rfl, rfl⟩ | ⟨e, hlogout, rfl⟩ := finishes_bind.mp hw
        · obtain ⟨-, hends⟩ | ⟨⟨e, herr⟩, -⟩ := finishes_logout hlogout
          · exact sessionInv_ends hinv hends
          · cases herr
        · obtain ⟨hok, -⟩ | ⟨-, hsame⟩ := finishes_logout hlogout
          · cases hok
          · exact sessionInv_same hinv hsame
    | _ => exact sessionInv_same hinv (finishes_other (by simp) (by simp) (by simp) hw)

theorem sessionInv_serial {hs : List Happening} {s : String → Option Session}
    (hinv : SessionInv w s) (hw : Serial hs w w') :
    SessionInv w' fun u => hs.foldl (nextSession u) (s u) := by
  induction hs generalizing w s with
  | nil =>
    cases hw
    exact hinv
  | cons h hs ih =>
    obtain ⟨w₁, hh, hw⟩ := hw
    exact ih (sessionInv_happens hinv hh) hw

theorem sessionInv_session {hs : List Happening} (h₀ : w.NoSessions) (hw : Serial hs w w') :
    SessionInv w' fun u => session u hs :=
  sessionInv_serial (s := fun _ => none)
    ⟨h₀.blacklist, fun u _ => h₀.token u, fun u s h => by cases h⟩ hw

end History

/-! ## Acceptance -/

theorem guardAccepts_iff {w : World} {sessions : String → Option Session}
    (hinv : SessionInv w sessions) (token : RefreshToken) :
    GuardAccepts w token ↔ ∃ issuedAt, sessions token.sub = some ⟨token, issuedAt⟩ ∧
      w.now / 1000 < issuedAt / 1000 + JWT_REFRESH_TOKEN_EXPIRATION := by
  constructor
  · rintro ⟨hexp, hget, -⟩
    obtain ⟨e, hentry, hlive⟩ := Option.bind_eq_some_iff.mp hget
    cases hs : sessions token.sub with
    | none =>
      rw [hinv.ended _ hs] at hentry
      cases hentry
    | some s =>
      obtain ⟨hentry', -, hexp', -⟩ := hinv.current _ s hs
      rw [hentry'] at hentry
      cases hentry
      rw [Expiring.live_until] at hlive
      obtain ⟨-, htoken⟩ := Option.ite_none_right_eq_some.mp hlive
      cases htoken
      exact ⟨s.issuedAt, rfl, hexp' ▸ hexp⟩
  · rintro ⟨issuedAt, hs, hyoung⟩
    obtain ⟨hentry, -, hexp, -, hfree⟩ := hinv.current _ _ hs
    -- Redis keeps the token for at least as long as its dates allow
    have hkept : w.now < issuedAt + seconds JWT_REFRESH_TOKEN_EXPIRATION := by
      calc w.now < (issuedAt / 1000 + JWT_REFRESH_TOKEN_EXPIRATION) * 1000 :=
            (Nat.div_lt_iff_lt_mul (by decide)).mp hyoung
        _ = issuedAt / 1000 * 1000 + seconds JWT_REFRESH_TOKEN_EXPIRATION := Nat.add_mul _ _ _
        _ ≤ issuedAt + seconds JWT_REFRESH_TOKEN_EXPIRATION :=
            Nat.add_le_add_right (Nat.div_mul_le_self issuedAt 1000) _
    refine ⟨hexp ▸ hyoung, ?_, ?_⟩
    · rw [Expiring.get, hentry, Option.bind_some, Expiring.live_until, if_pos hkept]
    · rw [Expiring.get, hfree, Option.bind_none]

/-- A refresh is answered whatever token it bears, and accepted exactly if the token is that of the
session, still young, and the user is there. -/
def AcceptsExactly (young : Time → Time → Prop) (hs : List Happening) (w : World) : Prop :=
  ∀ (token : RefreshToken) (context : LoginContext) (i : ℕ),
    (∃ o w', Finishes (alone i) (Request.refresh (some token) context).prog w o w') ∧
    ∀ o w', Finishes (alone i) (Request.refresh (some token) context).prog w o w' →
      ((∃ tokens, o = .ok (.refreshed tokens)) ↔
        (∃ issuedAt, session token.sub hs = some ⟨token, issuedAt⟩ ∧ young issuedAt w.now) ∧
          UserLive w token.sub)

/-- After any history, whether a refresh is accepted is decided by what the history says, the users
there are and the clock, which counts whole seconds. -/
theorem refresh_accepted_iff {hs : List Happening} {w₀ w : World} (h₀ : w₀.NoSessions)
    (hw : Serial hs w₀ w) :
    AcceptsExactly (fun issuedAt now => now / 1000 < issuedAt / 1000 + JWT_REFRESH_TOKEN_EXPIRATION)
      hs w := by
  intro token context i
  have hguard := guardAccepts_iff (sessionInv_session h₀ hw) token
  refine ⟨request_answered i (by simp) w, fun o w' h => ?_⟩
  rw [← hguard]
  obtain ⟨tokens, w₁, hrefresh, rfl, rfl⟩ | ⟨e, hrefresh, rfl⟩ := finishes_bind.mp h
  · obtain ⟨hacc, hlive, -⟩ | ⟨-, ⟨e, he⟩, -⟩ := finishes_refresh hrefresh
    · exact ⟨fun _ => ⟨hacc, hlive⟩, fun _ => ⟨tokens, rfl⟩⟩
    · cases he
  · obtain ⟨-, -, tokens, hok, -⟩ | ⟨hrej, -⟩ := finishes_refresh hrefresh
    · cases hok
    · refine ⟨?_, fun hacc => absurd hacc hrej⟩
      rintro ⟨tokens, hok⟩
      cases hok

/-! ### Ray's session -/

/-- Ray signs in, 999 ms into a second, and waits. -/
def raysHistory (wait : Time) : List Happening :=
  [.moved (.tick 999),
    .answered 999 (.login "ray@talentflow.dev" "Ray-2024!" {})
      (.ok (.loggedIn (tokensOf ray "t-ray" 999) ray.summary)),
    .moved (.tick wait)]

theorem seeded_noSessions : seeded.NoSessions := ⟨fun _ => rfl, fun _ h => absurd rfl h⟩

def loggedIn? : Except Exception Response → Option (Tokens × UserSummary)
  | .ok (.loggedIn tokens user) => some (tokens, user)
  | _ => none

theorem loggedIn?_eq_some {o : Except Exception Response} {tokens : Tokens} {user : UserSummary}
    (h : loggedIn? o = some (tokens, user)) : o = .ok (.loggedIn tokens user) := by
  unfold loggedIn? at h
  split at h
  · cases h
    rfl
  · cases h

theorem raysHistory_serial (wait : Time) : ∃ w, Serial (raysHistory wait) seeded w ∧
    w.now = 999 + wait ∧ UserLive w "u-ray" := by
  let login : Request := .login "ray@talentflow.dev" "Ray-2024!" {}
  let choices : List Choice := [{}, {}, {}, {}, { uuid := "t-ray" }, {}, {}, {}]
  have h : (gateway.run (choices.map (.run 0)) (.start { seeded with now := 999 }
      fun _ => login.prog)).map (fun cfg =>
        ((cfg.outcome? 0).bind loggedIn?, cfg.world.now,
          decide (∃ user ∈ cfg.world.db.users.rows, user.id = "u-ray" ∧ user.deletedAt = none))) =
      some (some (tokensOf ray "t-ray" 999, ray.summary), 999, true) := by decide +kernel
  obtain ⟨cfg, hrun, h⟩ := Option.map_eq_some_iff.mp h
  obtain ⟨hanswer, hnow, hlive⟩ : _ ∧ _ ∧ _ := by simpa only [Prod.mk.injEq] using h
  obtain ⟨o, ho, hanswer⟩ := Option.bind_eq_some_iff.mp hanswer
  rw [loggedIn?_eq_some hanswer] at ho
  have hthere := of_decide_eq_true hlive
  have hlogin := finishes_of_run (Q := fun ch => ch.fails = false) (by simp [choices]) hrun ho
  exact ⟨{ cfg.world with now := cfg.world.now + wait },
    ⟨_, rfl, cfg.world, ⟨rfl, 0, hlogin⟩, _, rfl, rfl⟩, congrArg (· + wait) hnow, hthere⟩

theorem raysHistory_session (wait : Time) : session "u-ray" (raysHistory wait) =
    some ⟨(tokensOf ray "t-ray" 999).refreshToken, 999⟩ := rfl

theorem refresh_accepted_iff_ray : ∃ w, Serial (raysHistory (24 * 60 * 60 * 1000)) seeded w ∧
    AcceptsExactly (fun issuedAt now => now / 1000 < issuedAt / 1000 + JWT_REFRESH_TOKEN_EXPIRATION)
      (raysHistory (24 * 60 * 60 * 1000)) w := by
  obtain ⟨w, hw, -⟩ := raysHistory_serial (24 * 60 * 60 * 1000)
  exact ⟨w, hw, refresh_accepted_iff seeded_noSessions hw⟩

/-- One millisecond before seven days have passed, Ray's refresh is rejected: the last of them began
in the second that the token dates from. -/
theorem refresh_rejected_early : ∃ w, Serial (raysHistory (seconds (7 * 24 * 60 * 60) - 1)) seeded w ∧
    ¬ AcceptsExactly (fun issuedAt now => now < issuedAt + seconds (7 * 24 * 60 * 60))
      (raysHistory (seconds (7 * 24 * 60 * 60) - 1)) w := by
  obtain ⟨w, hw, hnow, hlive⟩ := raysHistory_serial (seconds (7 * 24 * 60 * 60) - 1)
  refine ⟨w, hw, fun h => ?_⟩
  obtain ⟨⟨o, w', hf⟩, hexact⟩ := h (tokensOf ray "t-ray" 999).refreshToken {} 0
  obtain ⟨tokens, rfl⟩ := (hexact o w' hf).mpr
    ⟨⟨999, raysHistory_session _, by rw [hnow]; decide⟩, hlive⟩
  obtain ⟨tokens', w₁, hrefresh, -⟩ | ⟨e, -, he⟩ := finishes_bind.mp hf
  · obtain ⟨⟨hexp, -⟩, -⟩ | ⟨-, ⟨e, he⟩, -⟩ := finishes_refresh hrefresh
    · rw [hnow] at hexp
      exact absurd hexp (by decide)
    · cases he
  · cases he

end TalentFlow
