import TalentFlow.Guarantees.SignIn
import TalentFlow.Guarantees.Served
import TalentFlow.Guarantees.Rotation

/-!
# Guarantees.Sessions

What is stored under `refresh_token:`. A token gets an id, is dated by a reading of the clock, and is
stored by a later call that gives Redis an expiry of its own; in between, others log in, refresh and
log out, rows change and time passes. Still, what is stored under a user's key is a token of that very
user, which Redis keeps for as long as the token itself is good, and the sessions of different users
never share an id, so that revoking one leaves the others alone.

* `World.Sessions`: what holds of everything stored there.
* `prog_stores`: how a request comes by what it stores.
* `sessions_sound`: `Sessions` holds in every run of the HTTP interface.
* `World.Sessions.live`: a stored token that has not expired is found.
-/

namespace TalentFlow

open Data Async

/-! ## The store -/

/-- What is stored under a user's key is a session of the user's. -/
structure IsSession (w : World) (userId : String) (e : Entry RefreshToken) : Prop where
  sub : e.value.sub = userId
  lasts : e.value.exp = e.value.iat + JWT_REFRESH_TOKEN_EXPIRATION
  issued : seconds e.value.iat ≤ w.now
  user : ∃ u ∈ w.db.users.rows, u.id = userId ∧ u.email = e.value.email
  drawn : e.value.tokenId ∈ w.uuids
  /-- Redis keeps it until the token expires, and no longer than a token issued now would last -/
  expires : ∃ t ∈ e.expiresAt, seconds e.value.exp ≤ t ∧
    t ≤ w.now + seconds JWT_REFRESH_TOKEN_EXPIRATION

structure World.Sessions (w : World) : Prop where
  stored : ∀ userId, ∀ e ∈ w.redis.entry (.refreshToken userId), IsSession w userId e
  ids : ∀ userId userId', ∀ e ∈ w.redis.entry (.refreshToken userId),
    ∀ e' ∈ w.redis.entry (.refreshToken userId'), e.value.tokenId = e'.value.tokenId →
      userId = userId'

theorem World.Sessions.live {w : World} (h : w.Sessions) {userId : String} {e : Entry RefreshToken}
    (he : e ∈ w.redis.entry (.refreshToken userId)) (hexp : w.now / 1000 < e.value.exp) :
    w.redis.get w.now (.refreshToken userId) = some e.value := by
  obtain ⟨t, ht, hle, -⟩ := (h.stored userId e he).expires
  have hentry : w.redis.entry (.refreshToken userId) = some e := he
  have hlt : w.now < t := lt_of_lt_of_le (Nat.lt_mul_of_div_lt hexp (by decide)) hle
  rw [Expiring.get, hentry, Option.bind_some, Entry.live, show e.expiresAt = some t from ht]
  exact if_pos hlt

section Keeps

variable {w w' : World} {userId : String} {e : Entry RefreshToken}

theorem isSession_keeps (h : w.Keeps w') (hnow : w.now ≤ w'.now) (he : IsSession w userId e) :
    IsSession w' userId e := by
  obtain ⟨u, hu, hid, hemail⟩ := he.user
  obtain ⟨u', hu', hlater⟩ := h.users u hu
  have hsame : u'.id = u.id ∧ u'.email = u.email ∧ u'.password = u.password ∧
      u'.createdAt = u.createdAt := by simpa [User.identity] using hlater.same
  obtain ⟨t, ht, hle, hbound⟩ := he.expires
  exact
    { sub := he.sub
      lasts := he.lasts
      issued := le_trans he.issued hnow
      user := ⟨u', hu', hsame.1.trans hid, hsame.2.1.trans hemail⟩
      drawn := h.drawn _ he.drawn
      expires := ⟨t, ht, hle, le_trans hbound (Nat.add_le_add_right hnow _)⟩ }

theorem sessions_keeps (hs : w.Sessions) (h : w.Keeps w') (hnow : w.now ≤ w'.now)
    (hold : ∀ userId, ∀ e ∈ w'.redis.entry (.refreshToken userId),
      e ∈ w.redis.entry (.refreshToken userId)) : w'.Sessions where
  stored userId e he := isSession_keeps h hnow (hs.stored userId e (hold userId e he))
  ids userId userId' e he e' he' hid := hs.ids userId userId' e (hold _ e he) e' (hold _ e' he') hid

end Keeps

/-! ## Calls -/

section Exec

variable {i : ℕ} {ch : Choice} {w w' : World}

def Call.MakesEntry (k : RedisKey) : Call → Prop
  | .redis (.set k' _ _) => k' = k
  | .redis (.expire k' _) => k' = k
  | .redis (.incr email) => .loginAttempts email = k
  | _ => False

theorem entry_of_makesNone {k : RedisKey} {c : Call} {r : Api.Answer c} (hc : ¬ c.MakesEntry k)
    (hx : gateway.exec i c ch w = some (r, w')) {e : Entry k.Value}
    (he : e ∈ w'.redis.entry k) : e ∈ w.redis.entry k := by
  cases c with
  | redis c =>
    obtain ⟨-, rfl⟩ | ⟨-, rfl⟩ := redis_cases hx
    · exact he
    have hset : ∀ {k' : RedisKey} {v : k'.Value} {x : Option Time}, k' ≠ k →
        e ∈ (w.redis.set k' v x).entry k → e ∈ w.redis.entry k := by
      intro k' v x hk he
      rwa [Expiring.entry_set_ne _ _ _ (Ne.symm hk)] at he
    cases c with
    | get k' => exact he
    | set k' v n => exact hset hc he
    | del k' =>
      by_cases hk : k = k'
      · subst hk
        simp [RedisCall.perform] at he
      · simp only [RedisCall.perform] at he
        rwa [Expiring.entry_del_ne _ hk] at he
    | existsKey k' => exact he
    | incr email =>
      simp only [RedisCall.perform] at he
      split at he
      · exact hset hc he
      · exact hset hc he
    | expire k' n =>
      simp only [RedisCall.perform] at he
      split at he
      · exact he
      · exact hset hc he
    | ttl k' =>
      simp only [RedisCall.perform] at he
      split at he <;> exact he
  | _ =>
    rwa [(exec_frame hx).redis (by simp)] at he

theorem makesNone_of_storesNoToken {c : Call} (hc : c.StoresNoToken) (userId : String) :
    ¬ c.MakesEntry (.refreshToken userId) := by
  unfold Call.MakesEntry
  split
  · rintro rfl
    exact hc
  · rintro rfl
    exact hc
  · exact fun h => by cases h
  · exact id

/-- The token just signed for a user who was found makes a session, if nobody else's has its id. -/
theorem sessions_set {user : User} {tokenId : String} {now : Time}
    {r : Api.Answer (.redis (.set (.refreshToken user.id) (user.refreshToken tokenId now)
      (7 * 24 * 60 * 60)))}
    (hs : w.Sessions) (hnow : now ≤ w.now)
    (huser : ∃ y ∈ w.db.users.rows, Later User.identity User.deletedAt user y)
    (hdrawn : tokenId ∈ w.uuids)
    (hnew : ∀ userId, ∀ e ∈ w.redis.entry (.refreshToken userId), e.value.tokenId ≠ tokenId)
    (hx : gateway.exec i _ ch w = some (r, w')) : w'.Sessions := by
  obtain ⟨-, rfl⟩ | ⟨-, rfl⟩ := redis_cases hx
  · exact hs
  have hentry : ∀ {userId : String} {e : Entry RefreshToken},
      e ∈ (w.redis.set (.refreshToken user.id) (user.refreshToken tokenId now)
        (some (w.now + seconds (7 * 24 * 60 * 60)))).entry (.refreshToken userId) →
      userId = user.id ∧ e = ⟨user.refreshToken tokenId now,
        some (w.now + seconds (7 * 24 * 60 * 60))⟩ ∨
        userId ≠ user.id ∧ e ∈ w.redis.entry (.refreshToken userId) := by
    intro userId e he
    by_cases hu : userId = user.id
    · subst hu
      rw [Expiring.entry_set_self] at he
      exact .inl ⟨rfl, (Option.some.inj he).symm⟩
    · rw [Expiring.entry_set_ne _ _ _ (by simpa using hu)] at he
      exact .inr ⟨hu, he⟩
  refine ⟨fun userId e he => ?_, fun userId userId' e he e' he' hid => ?_⟩
  · obtain ⟨rfl, rfl⟩ | ⟨-, hold⟩ := hentry he
    · obtain ⟨y, hy, hlater⟩ := huser
      have hsame : y.id = user.id ∧ y.email = user.email ∧ y.password = user.password ∧
          y.createdAt = user.createdAt := by simpa [User.identity] using hlater.same
      exact
        { sub := rfl
          lasts := rfl
          issued := le_trans (Nat.div_mul_le_self now 1000) hnow
          user := ⟨y, hy, hsame.1, hsame.2.1⟩
          drawn := hdrawn
          expires := by
            refine ⟨_, rfl, ?_, le_rfl⟩
            have hdated := le_trans (Nat.div_mul_le_self now 1000) hnow
            simp only [User.refreshToken, seconds, Nat.add_mul]
            exact Nat.add_le_add_right hdated _ }
    · obtain ⟨hsub, hlasts, hissued, huser', hdrawn', hexpires⟩ := hs.stored userId e hold
      exact ⟨hsub, hlasts, hissued, huser', hdrawn', hexpires⟩
  · obtain ⟨rfl, rfl⟩ | ⟨-, hold⟩ := hentry he
    · obtain ⟨rfl, -⟩ | ⟨-, hold'⟩ := hentry he'
      · rfl
      · exact absurd hid.symm (hnew _ e' hold')
    · obtain ⟨rfl, rfl⟩ | ⟨-, hold'⟩ := hentry he'
      · exact absurd hid (hnew _ e hold)
      · exact hs.ids userId userId' e hold e' hold' hid

end Exec

/-! ## Requests -/

/-- What is stored is the token just signed for the user found. -/
def StoresSession (h : List (Event Api)) : Call → Prop
  | .redis (.set (.refreshToken id) token n) =>
    ∃ user tokenId now, FoundUser user h ∧ (⟨.randomUUID, .ok tokenId⟩ : Event Api) ∈ h ∧
      (⟨.dateNow, .ok now⟩ : Event Api) ∈ h ∧ id = user.id ∧
      token = user.refreshToken tokenId now ∧ n = 7 * 24 * 60 * 60
  | .redis (.expire (.refreshToken _) _) => False
  | _ => True

theorem storesSession_issuing : Issuing StoresSession where
  other h c hc := by
    unfold StoresSession
    split
    · exact hc.elim
    · exact hc.elim
    · trivial
  store h user tokenId now hfound hdrew hnow :=
    ⟨user, tokenId, now, hfound, hdrew, hnow, rfl, rfl, rfl⟩

theorem footprint_storesNoToken {r : Request} (hlogin : ∀ email password context,
    r ≠ .login email password context) (hrefresh : ∀ cookie context, r ≠ .refresh cookie context)
    {c : Call} (h : r.footprint c) : c.StoresNoToken := by
  cases r with
  | login email password context => exact absurd rfl (hlogin _ _ _)
  | refresh cookie context => exact absurd rfl (hrefresh _ _)
  | signup email password fullName role =>
    obtain rfl | ⟨hashed, rfl⟩ := h <;> trivial
  | logout cookie context =>
    obtain ⟨id, rfl⟩ | ⟨n, rfl⟩ := h <;> trivial
  | _ =>
    obtain ⟨c, rfl⟩ | rfl | ⟨c, rfl⟩ | ⟨event, rfl⟩ := footprint_rest rfl h <;> trivial

/-- Every request stores only tokens that it has just signed for a user it has found. -/
theorem prog_stores (r : Request) : Obeys (recorder StoresSession) (fun _ _ => True) r.prog [] := by
  by_cases hlogin : ∃ email password context, r = .login email password context
  · obtain ⟨email, password, context, rfl⟩ := hlogin
    refine obeys_bind (obeys_mono (login_grants storesSession_issuing email password context) ?_)
    intro o _ _
    cases o <;> trivial
  by_cases hrefresh : ∃ cookie context, r = .refresh cookie context
  · obtain ⟨cookie, context, rfl⟩ := hrefresh
    refine obeys_bind (obeys_mono (refresh_grants storesSession_issuing cookie context) ?_)
    intro o _ _
    cases o <;> trivial
  push Not at hlogin hrefresh
  refine obeys_of_allowed (prog_calls r) fun h c hc => storesSession_issuing.other h c ?_
  obtain hquiet | hfoot := hc
  · exact storesNoToken_quiet c hquiet
  · exact footprint_storesNoToken hlogin hrefresh hfoot

/-! ## Runs -/

structure SessionsInv (requests : ℕ → Request) (cfg : Config Api ℕ World Response) : Prop where
  marks : KeepMarks cfg
  stores : ∀ i, Obeys (recorder StoresSession) (fun _ _ => True) (cfg.pool i) (cfg.trace i)
  facts : ∀ e ∈ cfg.log, SignInFact cfg.world e.2
  tokens : TokenHistory requests cfg
  rotation : RotationInv requests cfg.world (tokenStage requests cfg)
  sessions : cfg.world.Sessions

section Run

variable {requests : ℕ → Request} {cfg cfg' : Config Api ℕ World Response}
  {l : Label ℕ Choice Move} {w : World}

/-- A call that stores a token stores a session. -/
theorem sessions_stored {i : ℕ} {c : Call} {k : Api.Answer c → Prog Api Response} {ch : Choice}
    {r : Api.Answer c} (h : SessionsInv requests cfg) (hp : cfg.pool i = .call c k)
    (hx : gateway.exec i c ch cfg.world = some (r, w)) (hstores : ¬ c.StoresNoToken) :
    w.Sessions := by
  have hallow : TokenStage.Allows (requests i) (tokenStage requests cfg i) c := h.tokens.obey.call hp
  have hcall : StoresSession (cfg.trace i) c := by
    have hi := h.stores i
    rw [hp] at hi
    exact hi.1
  have hfact : ∀ e ∈ cfg.trace i, SignInFact cfg.world e := fun e he =>
    h.facts (i, e) (Config.mem_trace.mp he)
  unfold Call.StoresNoToken at hstores
  split at hstores
  · obtain ⟨user, tokenId, now, hfound, -, hnow, rfl, rfl, rfl⟩ := hcall
    have hdrew : tokenStage requests cfg i = .drew tokenId := hallow.1
    have hmine : (i, tokenId) ∈ cfg.world.drawn := h.rotation.own i tokenId hdrew
    refine sessions_set h.sessions (hfact _ hnow) ?_ (mem_uuids hmine) ?_ hx
    · obtain ⟨email, hread⟩ | ⟨id, hread⟩ := hfound
      · exact (hfact _ hread).2
      · exact (hfact _ hread).2
    · intro userId e he heq
      have hissued := h.rotation.entries userId e.value ⟨e, he, rfl⟩
      exact hissued.notPending i tokenId hdrew heq.symm
  · exact hcall.elim
  · exact absurd trivial hstores

theorem sessionsInv_step (h : SessionsInv requests cfg) (hs : gateway.step l cfg = some cfg') :
    SessionsInv requests cfg' := by
  have hkeeps := keeps_step h.marks hs
  have hnow := now_step hs
  have hfacts : ∀ e ∈ cfg'.log, SignInFact cfg'.world e.2 :=
    Machine.facts_run (F := SignInFact) KeepMarks calls_step (fun _ hx => signInFact_exec hx)
      (fun h hs => signInFact_keeps (keeps_step h hs) (bcrypt_step hs) (now_step hs)) h.marks h.facts
      (show gateway.run [l] cfg = some cfg' from Machine.run_cons.mpr ⟨cfg', hs, rfl⟩)
  have hmarks := calls_step h.marks hs
  have hstores := recorded_step h.stores hs
  have htokens := tokenHistory_step h.tokens hs
  obtain ⟨i, ch, c, k, r, w, rfl, hp, hx, rfl⟩ | ⟨mv, w, rfl, hm, rfl⟩ := Machine.step_cases hs
  · refine ⟨hmarks, hstores, hfacts, htokens, ?_, ?_⟩
    · rw [tokenStage_answered]
      exact rotationInv_exec h.rotation (h.tokens.obey.call hp) hx
    · by_cases hc : c.StoresNoToken
      · exact sessions_keeps h.sessions hkeeps hnow fun userId _ he =>
          entry_of_makesNone (makesNone_of_storesNoToken hc userId) hx he
      · exact sessions_stored h hp hx hc
  · have hredis : w.redis = cfg.world.redis ∧ w.drawn = cfg.world.drawn := by
      obtain ⟨elapsed, -, rfl⟩ | ⟨channel, broker, rfl⟩ := move_cases hm <;> exact ⟨rfl, rfl⟩
    refine ⟨hmarks, hstores, hfacts, htokens, ?_, ?_⟩
    · refine rotationInv_of_stored h.rotation ?_ (fun e he => by rwa [hredis.2])
        fun userId token ht => ?_
      · rw [World.uuids, hredis.2]
        exact h.rotation.nodup
      · rwa [StoredToken, hredis.1] at ht
    · refine sessions_keeps h.sessions hkeeps hnow fun userId e he => ?_
      rwa [hredis.1] at he

theorem sessionsInv_start (hw : w.Wf) (h : w.Sessions) :
    SessionsInv requests (.start w (Request.pool requests)) where
  marks i := calls_mono (prog_calls (requests i)) (footprint_keepsMarks (requests i))
  stores i := prog_stores (requests i)
  facts _ he := absurd he List.not_mem_nil
  tokens := tokenHistory_start w
  rotation :=
    { nodup := hw.uuids_nodup
      own := fun _ _ hk => nomatch hk
      entries := by
        rintro userId token ⟨e, he, rfl⟩
        exact ⟨(h.stored userId e he).drawn, fun _ _ hk => nomatch hk⟩
      presented := fun _ _ _ hs => absurd rfl hs
      replaced := fun _ _ _ _ hs => nomatch hs }
  sessions := h

/-- In every run, each refresh token in Redis is one that was signed for the user it is stored under,
with the email of the user's row and an id of its own that no other user's token has, and Redis keeps
it at least until it expires. -/
theorem sessions_sound {incoming : ℕ → HttpRequest} {ls : List (Label ℕ Choice Move)} (hw : w.Wf)
    (h : w.Sessions) (hrun : gateway.run ls (.start w (HttpRequest.pool incoming)) = some cfg) :
    cfg.world.Sessions :=
  worlds_of_requests (fun requests _ _ hrun => (Machine.run_induction (SessionsInv requests)
    (fun h hs => sessionsInv_step h hs) (sessionsInv_start hw h) hrun).sessions) hrun

end Run

/-! ## Ray -/

theorem signedIn_sessions : signedIn.Sessions := by
  have hentry : ∀ {userId : String} {e : Entry RefreshToken},
      e ∈ signedIn.redis.entry (.refreshToken userId) → userId = "u-ray" ∧
        e = ⟨raysToken, some (seconds JWT_REFRESH_TOKEN_EXPIRATION)⟩ := by
    intro userId e he
    by_cases hu : userId = "u-ray"
    · subst hu
      exact ⟨rfl, (Option.some.inj he).symm⟩
    · rw [show signedIn.redis = seeded.redis.set (.refreshToken "u-ray") raysToken
        (some (seconds JWT_REFRESH_TOKEN_EXPIRATION)) from rfl,
        Expiring.entry_set_ne _ _ _ (by simpa using hu)] at he
      cases he
  refine ⟨fun userId e he => ?_, fun userId userId' e he e' he' _ => ?_⟩
  · obtain ⟨rfl, rfl⟩ := hentry he
    exact
      { sub := rfl
        lasts := rfl
        issued := le_rfl
        user := ⟨ray, by decide, rfl, rfl⟩
        drawn := by decide
        expires := ⟨_, rfl, le_rfl, le_rfl⟩ }
  · exact (hentry he).1.trans (hentry he').1.symm

theorem signedIn_wf : signedIn.Wf := ⟨by decide, by decide, by decide, by decide⟩

def rayRefreshes (_ : ℕ) : HttpRequest := { refreshToken := some raysToken, route := .inl .refresh }

theorem sessions_sound_ray :
    ∃ cfg, gateway.run (List.replicate 7 (.run 0 { uuid := "t-0" }))
        (.start signedIn (HttpRequest.pool rayRefreshes)) = some cfg ∧ cfg.world.Sessions := by
  obtain ⟨cfg, hrun⟩ := Option.isSome_iff_exists.mp (show (gateway.run
    (List.replicate 7 (.run 0 { uuid := "t-0" }))
    (.start signedIn (HttpRequest.pool rayRefreshes))).isSome = true by decide +kernel)
  exact ⟨cfg, hrun, sessions_sound signedIn_wf signedIn_sessions hrun⟩

end TalentFlow
