import TalentFlow.Guarantees.Rotation

/-!
# Guarantees.Logout

A logout deletes the stored refresh token and blacklists a token id. The id never is one: the
access token of the request carries none, so the entry is written for the empty string. The
deletion alone turns later refreshes away, but a refresh that validated its token before it can
still store a new token after it.

* `session_not_ended`: no logout blacklists a token; without a late store later refreshes fail.
* `refresh_after_logout`: the run in which a session goes on after its logout.
-/

namespace TalentFlow

open Data Async

/-! ## What a logout is for -/

def Request.IsLogin : Request → Prop
  | .login _ _ _ => True
  | _ => False

/-- The step stores a refresh token of the user: `j` is the request that stores it. -/
def Stores (cfg : Config Api ℕ World Response) (l : Label ℕ Choice Move) (j : ℕ)
    (userId : String) : Prop :=
  ∃ ch new n k, l = .run j ch ∧ ch.fails = false ∧
    cfg.pool j = .call (.redis (.set (.refreshToken userId) new n)) k

def NoLogin (requests : ℕ → Request) (userId : String) (cfg : Config Api ℕ World Response)
    (l : Label ℕ Choice Move) : Prop :=
  ∀ j, Stores cfg l j userId → ¬ (requests j).IsLogin

/-- No refresh that had validated its token in `cfg₀` stores a new one at this step. -/
def NoLateStore (requests : ℕ → Request) (userId : String) (cfg₀ cfg : Config Api ℕ World Response)
    (l : Label ℕ Choice Move) : Prop :=
  ∀ j token, Stores cfg l j userId → (requests j).refreshCookie = some token →
    (j, ⟨.redis (.get (.refreshToken userId)), .ok (some token)⟩) ∉ cfg₀.log

/-- In `cfg'` no refresh that bears a token of the user and had not begun in `cfg` has succeeded. -/
def Refused (requests : ℕ → Request) (userId : String)
    (cfg cfg' : Config Api ℕ World Response) : Prop :=
  ∀ j token a, cfg.trace j = [] → (requests j).refreshCookie = some token → token.sub = userId →
    cfg'.outcome? j ≠ some (.ok a)

/-- What the logout of request `i` should have done by `cfg` to the session that `token` belongs to,
seen from a later `cfg'`: `token` is blacklisted and later refreshes are refused. `cfg₁` is the
configuration after the stored token was deleted, `ls` what happened between it and `cfg'`. -/
structure SessionEnded (requests : ℕ → Request) (i : ℕ) (token : RefreshToken)
    (ls : List (Label ℕ Choice Move)) (cfg₁ cfg cfg' : Config Api ℕ World Response) : Prop where
  blacklisted : ∃ v n, (i, ⟨.redis (.set (.blacklist token.tokenId) v n), .ok ()⟩) ∈ cfg.log
  refused : gateway.Along (NoLogin requests token.sub) ls cfg₁ →
    Refused requests token.sub cfg cfg'

/-! ## After the deletion -/

section Run

variable {requests : ℕ → Request} {cfg₀ cfg cfg' : Config Api ℕ World Response}
  {l : Label ℕ Choice Move} {ls : List (Label ℕ Choice Move)} {userId : String}

/-- No token of the user is stored, and the refreshes that validated one did so in `cfg₀`. -/
structure LoggedOut (requests : ℕ → Request) (userId : String)
    (cfg₀ cfg : Config Api ℕ World Response) : Prop extends TokenHistory requests cfg where
  footprint : KeepsFootprint requests cfg
  noToken : ∀ token, ¬ StoredToken cfg.world userId token
  early : ∀ j token, (requests j).refreshCookie = some token → token.sub = userId →
    tokenStage requests cfg j ≠ .start →
    (j, ⟨.redis (.get (.refreshToken userId)), .ok (some token)⟩) ∈ cfg₀.log

theorem footprint_set {r : Request} {token : RefreshToken} {n : ℕ}
    (h : r.footprint (.redis (.set (.refreshToken userId) token n))) :
    r.IsLogin ∨ ∃ old, r.refreshCookie = some old := by
  cases r with
  | login email password context => exact .inl trivial
  | refresh cookie context =>
    obtain ⟨old, hold, -⟩ := h
    exact .inr ⟨old, hold⟩
  | _ => simp [Request.footprint] at h

variable {i : ℕ} {ch : Choice} {c : Call} {k : Api.Answer c → Prog Api Response} {r : Api.Answer c}
  {w : World}

/-- A carried-out `SET` of a token of the user is a login or a late store. -/
theorem noToken_answered (h : LoggedOut requests userId cfg₀ cfg) (hp : cfg.pool i = .call c k)
    (hx : gateway.exec i c ch cfg.world = some (r, w))
    (hlogin : NoLogin requests userId cfg (.run i ch))
    (hlate : NoLateStore requests userId cfg₀ cfg (.run i ch)) (token : RefreshToken) :
    ¬ StoredToken w userId token := by
  intro ht
  have hallow : TokenStage.Allows (requests i) (tokenStage requests cfg i) c := h.obey.call hp
  by_cases hc : TokenStage.Ignores c
  · exact h.noToken token (storedToken_ignored hc hx ht)
  unfold TokenStage.Ignores at hc
  split at hc
  · have hw : w = cfg.world := by
      obtain ⟨-, rfl⟩ | ⟨-, rfl⟩ := redis_cases hx <;> rfl
    rw [hw] at ht
    exact h.noToken token ht
  · rename_i userId' new n
    obtain ⟨e, -, -, rfl⟩ | ⟨hok, hx⟩ := exec_cases hx
    · exact h.noToken token ht
    cases hx
    obtain ⟨rfl, rfl⟩ | ⟨-, ht⟩ := storedToken_set ht
    · have hstores : Stores cfg (.run i ch) i userId := ⟨ch, token, n, k, rfl, hok, hp⟩
      have hnotLogin := hlogin i hstores
      obtain hquiet | hfp := footprint_call h.footprint hp
      · exact hquiet
      obtain hl | ⟨old, hcookie⟩ := footprint_set hfp
      · exact hnotLogin hl
      -- a refresh stores a token only after it has found its own
      have hsub := hallow.2 old hcookie
      refine hlate i old hstores hcookie (h.early i old hcookie hsub.symm ?_)
      rw [hallow.1]
      exact nofun
    · exact h.noToken token ht
  · obtain ⟨u, -, -, rfl⟩ := randomUUID_cases hx
    exact h.noToken token ht
  · exact hc trivial

theorem loggedOut_step (h : LoggedOut requests userId cfg₀ cfg)
    (hlogin : NoLogin requests userId cfg l) (hlate : NoLateStore requests userId cfg₀ cfg l)
    (hs : gateway.step l cfg = some cfg') : LoggedOut requests userId cfg₀ cfg' := by
  have hhistory := tokenHistory_step h.toTokenHistory hs
  have hfoot := footprint_step h.footprint hs
  obtain ⟨i, ch, c, k, r, w, rfl, hp, hx, rfl⟩ | ⟨mv, w, rfl, hm, rfl⟩ := Machine.step_cases hs
  · refine ⟨hhistory, hfoot, noToken_answered h hp hx hlogin hlate, ?_⟩
    intro j token hj hsub hne
    rw [tokenStage_answered] at hne
    by_cases hji : j = i
    · subst hji
      rw [Function.update_self] at hne
      by_cases hstart : tokenStage requests cfg j = .start
      · -- it would have to find its token stored now
        have hallow : TokenStage.Allows (requests j) (tokenStage requests cfg j) c := h.obey.call hp
        rw [hstart] at hne hallow
        obtain ⟨heq, -⟩ := next_start (e := ⟨c, r⟩) hj hallow hne
        cases heq
        obtain ⟨he, -⟩ | ⟨hok, -⟩ := redis_cases hx
        · cases he
        · rw [hsub] at hok
          exact absurd (storedToken_get (Except.ok.inj hok).symm) (h.noToken token)
      · exact h.early j token hj hsub hstart
    · rw [Function.update_of_ne hji] at hne
      exact h.early j token hj hsub hne
  · refine ⟨hhistory, hfoot, fun token ht => ?_, h.early⟩
    obtain ⟨elapsed, -, rfl⟩ | ⟨channel, broker, rfl⟩ := move_cases hm
    · exact h.noToken token ht
    · exact h.noToken token ht

theorem loggedOut_deletion {w₀ : World}
    (hrun : gateway.run ls (.start w₀ (Request.pool requests)) = some cfg)
    {n : Api.Answer (.redis (.del (.refreshToken userId))) → Prog Api Response}
    (hp : cfg.pool i = .call (.redis (.del (.refreshToken userId))) n) (hok : ch.fails = false)
    (hs : gateway.step (.run i ch) cfg = some cfg') : LoggedOut requests userId cfg cfg' := by
  have hhistory := tokenHistory_run hrun
  have hfoot := footprint_step (footprint_run (footprint_start requests w₀) hrun) hs
  have hhistory' := tokenHistory_step hhistory hs
  obtain ⟨j, ch', c, k, r, w, hl, hp', hx, rfl⟩ | ⟨mv, w, hl, -⟩ := Machine.step_cases hs
  swap
  · cases hl
  cases hl
  rw [hp] at hp'
  cases hp'
  rw [exec_of_ok _ hok] at hx
  cases hx
  refine ⟨hhistory', hfoot, ?_, fun j token hj hsub hne => ?_⟩
  · rintro token ⟨e, he, -⟩
    simp [RedisCall.perform, Expiring.del] at he
  · have hignored : TokenStage.Ignores (.redis (.del (.refreshToken userId))) := trivial
    rw [tokenStage_answered, TokenStage.next_ignored hignored, Function.update_eq_self] at hne
    have hread := hhistory.read j token hj hne
    rwa [hsub] at hread

/-- The entry a logout writes to the blacklist is for no token. -/
theorem logout_blacklist {w₀ : World}
    (hrun : gateway.run ls (.start w₀ (Request.pool requests)) = some cfg)
    {cookie : Option AccessToken} {context : LoginContext} (hi : requests i = .logout cookie context)
    {tokenId v : String} {n : ℕ} {a : Api.Answer (.redis (.set (.blacklist tokenId) v n))}
    (hlog : (i, ⟨.redis (.set (.blacklist tokenId) v n), a⟩) ∈ cfg.log) : tokenId = "" := by
  have hcalls := calls_log (footprint_start requests w₀) (fun _ he => nomatch he) hrun _ hlog
  obtain hquiet | hfp := hcalls
  · exact hquiet.elim
  rw [hi] at hfp
  obtain ⟨id, heq⟩ | ⟨n', heq⟩ := hfp
  · cases heq
  · cases heq
    rfl

/-- A logout never blacklists the token of its session, so no session is ever ended the way it
should be. The deletion of the stored token does keep later refreshes out, as long as the user does
not log in again and no refresh that was validated before it stores its new token after it. -/
theorem session_not_ended {w₀ : World} {ls₀ ls₁ ls₂ : List (Label ℕ Choice Move)}
    {cfg₀ cfg₁ : Config Api ℕ World Response} {cookie : Option AccessToken} {context : LoginContext}
    {token : RefreshToken} {n : Api.Answer (.redis (.del (.refreshToken token.sub))) →
      Prog Api Response}
    (hi : requests i = .logout cookie context)
    (hrun₀ : gateway.run ls₀ (.start w₀ (Request.pool requests)) = some cfg₀)
    (hp : cfg₀.pool i = .call (.redis (.del (.refreshToken token.sub))) n) (hok : ch.fails = false)
    (hs : gateway.step (.run i ch) cfg₀ = some cfg₁) (hrun₁ : gateway.run ls₁ cfg₁ = some cfg)
    (hrun₂ : gateway.run ls₂ cfg = some cfg') (hid : token.tokenId ≠ "") :
    ¬ SessionEnded requests i token (ls₁ ++ ls₂) cfg₁ cfg cfg' ∧
      (gateway.Along (NoLateStore requests token.sub cfg₀) (ls₁ ++ ls₂) cfg₁ →
        gateway.Along (NoLogin requests token.sub) (ls₁ ++ ls₂) cfg₁ →
          Refused requests token.sub cfg cfg') := by
  have hrun : gateway.run (ls₀ ++ .run i ch :: ls₁) (.start w₀ (Request.pool requests)) =
      some cfg :=
    Machine.run_append.mpr ⟨cfg₀, hrun₀, Machine.run_cons.mpr ⟨cfg₁, hs, hrun₁⟩⟩
  constructor
  · intro h
    obtain ⟨v, n, hlog⟩ := h.blacklisted
    exact hid (logout_blacklist hrun hi hlog)
  · intro hlate hlogin j old a hnew hj hsub ho
    have hout := Machine.run_induction_along (P := fun cfg l =>
        NoLateStore requests token.sub cfg₀ cfg l ∧ NoLogin requests token.sub cfg l)
      (LoggedOut requests token.sub cfg₀)
      (fun h hP hs => loggedOut_step h hP.2 hP.1 hs) (loggedOut_deletion hrun₀ hp hok hs)
      (Machine.along_and hlate hlogin) (Machine.run_append.mpr ⟨cfg, hrun₁, hrun₂⟩)
    -- it has read its token before the deletion, so it had begun
    obtain ⟨new, hstored⟩ := hout.obey.outcome ho (by rw [hj]; exact nofun) a rfl
    have hstage : tokenStage requests cfg' j ≠ .start := by
      intro hstart
      cases hstart.symm.trans hstored
    have hread := hout.early j old hj hsub hstage
    have hread' := Machine.mem_log_run (Machine.mem_log_step hs hread) hrun₁
    rw [← Config.mem_trace, hnew] at hread'
    cases hread'

end Run

/-! ## The run in which a session goes on after its logout -/

def raysAccess : AccessToken where
  sub := "u-ray"
  email := "ray@talentflow.dev"
  role := .recruiter
  iat := 0
  exp := JWT_ACCESS_TOKEN_EXPIRATION

/-- The token that the refresh during the logout stores. -/
def raysNextToken : RefreshToken := { raysToken with tokenId := "t-0" }

/-- Ray logs out while request 0 refreshes his session; request 2 bears the new token. -/
def logoutDuringRefresh : ℕ → Request
  | 0 => .refresh (some raysToken) {}
  | 1 => .logout (some raysAccess) {}
  | _ => .refresh (some raysNextToken) {}

theorem logoutDuringRefresh_noLogin (j : ℕ) : ¬ (logoutDuringRefresh j).IsLogin := by
  intro h
  unfold logoutDuringRefresh at h
  split at h <;> exact h

theorem session_not_ended_ray :
    ∃ cfg₀ cfg₁ cfg cfg',
      gateway.run (List.replicate 2 (.run 1 {}))
        (.start signedIn (Request.pool logoutDuringRefresh)) = some cfg₀ ∧
      gateway.step (.run 1 {}) cfg₀ = some cfg₁ ∧
      gateway.run (List.replicate 2 (.run 1 {})) cfg₁ = some cfg ∧
      gateway.run (List.replicate 2 (.run 0 {})) cfg = some cfg' ∧
      ¬ SessionEnded logoutDuringRefresh 1 raysToken
        (List.replicate 2 (.run 1 {}) ++ List.replicate 2 (.run 0 {})) cfg₁ cfg cfg' ∧
      Refused logoutDuringRefresh "u-ray" cfg cfg' := by
  have h : ((gateway.run (List.replicate 2 (.run 1 {}))
      (.start signedIn (Request.pool logoutDuringRefresh))).bind fun cfg₀ =>
        (gateway.step (.run 1 {}) cfg₀).bind fun cfg₁ =>
          (gateway.run (List.replicate 2 (.run 1 {})) cfg₁).bind fun cfg =>
            (gateway.run (List.replicate 2 (.run 0 {})) cfg).map fun _ =>
              (cfg₀.trace 0).length) = some 0 := by decide +kernel
  obtain ⟨cfg₀, hrun₀, h⟩ := Option.bind_eq_some_iff.mp h
  obtain ⟨cfg₁, hs, h⟩ := Option.bind_eq_some_iff.mp h
  obtain ⟨cfg, hrun₁, h⟩ := Option.bind_eq_some_iff.mp h
  obtain ⟨cfg', hrun₂, hnone⟩ := Option.map_eq_some_iff.mp h
  have hp : ∃ k, cfg₀.pool 1 = .call (.redis (.del (.refreshToken raysToken.sub))) k := by
    cases hrun₀
    exact ⟨_, rfl⟩
  obtain ⟨k, hp⟩ := hp
  have hboth := session_not_ended rfl hrun₀ hp rfl hs hrun₁ hrun₂ (by decide)
  refine ⟨cfg₀, cfg₁, cfg, cfg', hrun₀, hs, hrun₁, hrun₂, hboth.1, hboth.2 ?_ ?_⟩
  · refine Machine.along_of_forall (fun cfg l hl j token hstores hcookie hlog => ?_) _
    obtain ⟨ch, new, n, k, rfl, -⟩ := hstores
    have hj : j = 1 ∨ j = 0 := by
      have := List.mem_append.mp hl
      simp at this
      omega
    obtain rfl | rfl := hj
    · cases hcookie
    · rw [← Config.mem_trace, List.eq_nil_of_length_eq_zero hnone] at hlog
      cases hlog
  · exact Machine.along_of_forall (fun _ _ _ j _ => logoutDuringRefresh_noLogin j) _

/-- Request 0 validates its token, Ray's logout runs, request 0 stores its new token. Nothing of the
session is blacklisted, and request 2, which bears the new token and comes last, succeeds. -/
theorem refresh_after_logout :
    ∃ cfg₀ cfg₁ cfg cfg',
      gateway.run ((refreshSteps 0 "t-0").take 4 ++ List.replicate 2 (.run 1 {}))
        (.start signedIn (Request.pool logoutDuringRefresh)) = some cfg₀ ∧
      gateway.step (.run 1 {}) cfg₀ = some cfg₁ ∧
      gateway.run (List.replicate 2 (.run 1 {})) cfg₁ = some cfg ∧
      (cfg.outcome? 1).map Except.isOk = some true ∧
      gateway.run ((refreshSteps 0 "t-0").drop 4 ++ refreshSteps 2 "t-2") cfg = some cfg' ∧
      cfg'.world.redis.get cfg'.world.now (.blacklist "t-ray") = none ∧
      cfg'.world.redis.get cfg'.world.now (.blacklist "") = some "true" ∧
      ¬ Refused logoutDuringRefresh "u-ray" cfg cfg' ∧
      ¬ SessionEnded logoutDuringRefresh 1 raysToken (List.replicate 2 (.run 1 {}) ++
        ((refreshSteps 0 "t-0").drop 4 ++ refreshSteps 2 "t-2")) cfg₁ cfg cfg' := by
  have h : ((gateway.run ((refreshSteps 0 "t-0").take 4 ++ List.replicate 2 (.run 1 {}))
      (.start signedIn (Request.pool logoutDuringRefresh))).bind fun cfg₀ =>
        (gateway.step (.run 1 {}) cfg₀).bind fun cfg₁ =>
          (gateway.run (List.replicate 2 (.run 1 {})) cfg₁).bind fun cfg =>
            (gateway.run ((refreshSteps 0 "t-0").drop 4 ++ refreshSteps 2 "t-2") cfg).map fun cfg' =>
              ((cfg.trace 2).length, [cfg.outcome? 1, cfg'.outcome? 2].map (·.map Except.isOk),
                [cfg'.world.redis.get cfg'.world.now (.blacklist "t-ray"),
                  cfg'.world.redis.get cfg'.world.now (.blacklist "")])) =
      some (0, [some true, some true], [none, some "true"]) := by decide +kernel
  obtain ⟨cfg₀, hrun₀, h⟩ := Option.bind_eq_some_iff.mp h
  obtain ⟨cfg₁, hs, h⟩ := Option.bind_eq_some_iff.mp h
  obtain ⟨cfg, hrun₁, h⟩ := Option.bind_eq_some_iff.mp h
  obtain ⟨cfg', hrun₂, hsummary⟩ := Option.map_eq_some_iff.mp h
  simp only [List.map_cons, List.map_nil, Prod.mk.injEq, List.cons.injEq, and_true] at hsummary
  obtain ⟨hnew, ⟨hlogout, hrefresh⟩, hray, hempty⟩ := hsummary
  have hnot : ¬ Refused logoutDuringRefresh "u-ray" cfg cfg' := by
    intro hrefused
    obtain ⟨o, ho, hok⟩ := Option.map_eq_some_iff.mp hrefresh
    cases o with
    | error e => cases hok
    | ok a => exact hrefused 2 raysNextToken a (List.eq_nil_of_length_eq_zero hnew) rfl rfl ho
  refine ⟨cfg₀, cfg₁, cfg, cfg', hrun₀, hs, hrun₁, hlogout, hrun₂, hray, hempty, hnot, fun h => ?_⟩
  exact hnot (h.refused
    (Machine.along_of_forall (fun _ _ _ j _ => logoutDuringRefresh_noLogin j) _))

end TalentFlow
