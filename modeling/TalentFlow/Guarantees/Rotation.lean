import TalentFlow.Gateway.WellFormed

/-!
# Guarantees.Rotation

Refresh tokens are rotated: a refresh validates the presented token against the stored one and
later stores a new one in its place. Validation and replacement are separate steps, so two requests
with the same token can both pass the first before either takes the second.

* `tokenMonitor`, `prog_obeys`: how each request comes by the token it stores.
* `rotationInv_exec`: a token that has been replaced is never stored again.
* `exchanged_once`: without overlapping exchanges a token is exchanged at most once.
* `exchanged_twice`: the run in which it is exchanged twice.
-/

namespace TalentFlow

open Data Async

def Request.refreshCookie : Request → Option RefreshToken
  | .refresh cookie _ => cookie
  | _ => none

/-- How far a request has come in issuing a token. -/
inductive TokenStage where
  | start
  /-- the stored token is the one presented -/
  | validated
  | drew (tokenId : String)
  | stored (token : RefreshToken)

namespace TokenStage

def next (r : Request) : TokenStage → Event Api → TokenStage
  | start, ⟨.redis (.get (.refreshToken _)), .ok (some token)⟩ =>
    if r.refreshCookie = some token then validated else start
  | start, ⟨.randomUUID, .ok tokenId⟩ => drew tokenId
  | validated, ⟨.randomUUID, .ok tokenId⟩ => drew tokenId
  | drew _, ⟨.redis (.set (.refreshToken _) token _), .ok _⟩ => stored token
  | s, _ => s

/-- The calls on stored tokens: a refresh reads under the subject of its cookie, once; a token is
written under its subject, with the id drawn for it. -/
def Allows (r : Request) (s : TokenStage) : Call → Prop
  | .redis (.get (.refreshToken id)) =>
    s = start ∧ ∃ token, r.refreshCookie = some token ∧ id = token.sub
  | .redis (.set (.refreshToken id) token _) =>
    s = drew token.tokenId ∧ ∀ old, r.refreshCookie = some old → id = old.sub
  | .randomUUID => s = validated ∨ r.refreshCookie = none
  | _ => True

def Ignores : Call → Prop
  | .redis (.get (.refreshToken _)) => False
  | .redis (.set (.refreshToken _) _ _) => False
  | .randomUUID => False
  | _ => True

theorem next_ignored {r : Request} {s : TokenStage} {c : Call} (h : Ignores c)
    (a : Api.Answer c) : next r s ⟨c, a⟩ = s := by
  unfold next
  split
  all_goals first
    | rfl
    | rename_i heq
      cases heq
      exact False.elim h

theorem allows_ignored {c : Call} (h : Ignores c) (r : Request) (s : TokenStage) :
    Allows r s c := by
  unfold Allows
  split
  · exact False.elim h
  · exact False.elim h
  · exact False.elim h
  · trivial

/-- Users are found under the id they were looked up with. -/
def Expects : (c : Call) → Api.Answer c → Prop
  | .prisma (.userFindUnique (.id id)), .ok (some user) => user.id = id
  | _, _ => True

end TokenStage

def tokenMonitor (r : Request) : Monitor Api TokenStage where
  next := TokenStage.next r
  call := TokenStage.Allows r
  answer _ := TokenStage.Expects

theorem tokenStage_expects {i : ℕ} {c : Call} {ch : Choice} {w w' : World} {r : Api.Answer c}
    (h : gateway.exec i c ch w = some (r, w')) : TokenStage.Expects c r := by
  unfold TokenStage.Expects
  split
  · rename_i id user
    obtain ⟨e, he, -⟩ | ⟨v, db, -, -, hperf, he, -⟩ := prisma_cases h
    · cases he
    · cases he
      have hfind : w.db.findUser (.id id) = some user := congrArg Prod.fst hperf |> Except.ok.inj
      exact (Table.find?_eq_some.mp hfind).2
  · trivial

/-! ## The requests -/

section Programs

variable {α : Type} {r : Request} {s : TokenStage}

theorem issue_obeys {post : Except Exception α → TokenStage → Prop} {user : User}
    {f : Tokens → Prog Api α} (hs : s = .validated ∨ s = .start ∧ r.refreshCookie = none)
    (hsub : ∀ old, r.refreshCookie = some old → user.id = old.sub)
    (herr : ∀ e s, post (.error e) s)
    (hf : ∀ tokens, Obeys (tokenMonitor r) post (f tokens) (.stored tokens.refreshToken)) :
    Obeys (tokenMonitor r) post (do
      let tokens ← AuthService.generateTokens user
      AuthService.storeRefreshToken user.id tokens.refreshToken
      f tokens) s := by
  refine obeys_bind ?_
  refine obeys_await ?_ (fun tokenId _ => ?_) fun e _ => herr _ _
  · obtain hs | ⟨-, hr⟩ := hs
    · exact .inl hs
    · exact .inr hr
  have hdrew : (tokenMonitor r).next s ⟨.randomUUID, .ok tokenId⟩ = .drew tokenId := by
    obtain rfl | ⟨rfl, -⟩ := hs <;> rfl
  rw [hdrew]
  refine obeys_await trivial (fun iat _ => ?_) fun e _ => herr _ _
  exact obeys_await ⟨rfl, hsub⟩ (fun _ _ => hf _) fun e _ => herr _ _

theorem refresh_obeys (cookie : Option RefreshToken) (context : LoginContext) :
    Obeys (tokenMonitor (.refresh cookie context))
      (fun o s => ∀ a, o = .ok a → ∃ token, s = .stored token)
      (Request.refresh cookie context).prog .start := by
  have herr : ∀ (e : Exception) (s : TokenStage), ∀ a : Response,
      (Except.error e : Except Exception Response) = .ok a → ∃ token, s = .stored token :=
    fun e s a h => nomatch h
  cases cookie with
  | none => exact herr _ _
  | some token =>
    refine obeys_bind (obeys_bind ?_)
    rw [JwtRefreshGuard.canActivate, verifyJwt_some, bind_assoc]
    refine obeys_await trivial (fun now _ => ?_) fun e _ => herr _ _
    split
    swap
    · exact herr _ _
    rw [pure_bind]
    refine obeys_await ⟨rfl, token, rfl, rfl⟩ (fun found _ => ?_) fun e _ => herr _ _
    split
    · exact herr _ _
    rename_i hfound
    have hmatch : found = some token := by simpa using hfound
    have hvalidated : (tokenMonitor (.refresh (some token) context)).next .start
        ⟨.redis (.get (.refreshToken token.sub)), .ok found⟩ = .validated := by
      rw [hmatch]
      exact if_pos rfl
    change Obeys _ _ _ ((tokenMonitor (.refresh (some token) context)).next .start
      ⟨.redis (.get (.refreshToken token.sub)), .ok found⟩)
    rw [hvalidated]
    refine obeys_await trivial (fun blacklisted _ => ?_) fun e _ => herr _ _
    split
    · exact herr _ _
    change Obeys _ _ (AuthService.refresh token.sub context) TokenStage.validated
    refine obeys_await trivial (fun user huser => ?_) fun e _ => herr _ _
    cases user with
    | none => exact ⟨trivial, fun r _ => by cases r <;> exact herr _ _⟩
    | some user =>
      have hsub : user.id = token.sub := huser
      cases hd : user.deletedAt with
      | some t =>
        simp only [Option.filter, hd, Option.isNone_some]
        exact ⟨trivial, fun r _ => by cases r <;> exact herr _ _⟩
      | none =>
        simp only [Option.filter, hd, Option.isNone_none, if_true]
        refine issue_obeys (.inl rfl) (fun old hold => ?_) (fun e s => ?_) fun tokens => ?_
        · cases hold
          exact hsub
        · exact herr e s
        · refine obeys_await trivial (fun _ _ => ?_) fun e _ => herr _ _
          exact fun a _ => ⟨_, rfl⟩

theorem obeys_of_ignored {p : Prog Api α} (hp : p.Calls TokenStage.Ignores) (r : Request)
    (s : TokenStage) : Obeys (tokenMonitor r) (fun _ s' => s' = s) p s :=
  obeys_of_calls hp fun _ hc =>
    ⟨TokenStage.allows_ignored hc r s, fun a => TokenStage.next_ignored hc a⟩

theorem ignores_quiet (c : Call) (h : c.IsQuiet) : TokenStage.Ignores c := by
  unfold TokenStage.Ignores
  split <;> first | exact h | trivial

theorem login_obeys (email password : String) (context : LoginContext) :
    Obeys (tokenMonitor (.login email password context)) (fun _ _ => True)
      (Request.login email password context).prog .start := by
  refine obeys_bind ?_
  have hcheck : (AuthService.checkAccountLockout email).Calls TokenStage.Ignores :=
    checkAccountLockout_calls ignores_quiet trivial trivial
  refine obeys_bind (obeys_mono (obeys_of_ignored hcheck _ _) ?_)
  intro o s hs
  subst hs
  cases o with
  | error e => trivial
  | ok _ =>
    refine obeys_await trivial (fun found _ => ?_) fun e _ => trivial
    have hfail : ∀ userId, Obeys (tokenMonitor (.login email password context)) (fun _ _ => True)
        (AuthService.handleFailedLogin email context userId) .start := fun userId =>
      obeys_mono (obeys_of_ignored (handleFailedLogin_calls ignores_quiet trivial
        trivial context userId) _ _) fun _ _ _ => trivial
    change Obeys _ _ _ TokenStage.start
    split
    · refine obeys_bind (obeys_mono (hfail none) fun o _ _ => ?_)
      cases o <;> trivial
    · rename_i user huser
      refine obeys_await trivial (fun valid _ => ?_) fun e _ => trivial
      split
      · refine obeys_bind (obeys_mono (hfail (some user.id)) fun o _ _ => ?_)
        cases o <;> trivial
      refine obeys_bind (obeys_await trivial (fun _ _ => ?_) fun e _ => trivial)
      refine issue_obeys (.inr ⟨rfl, rfl⟩) (fun old hold => nomatch hold) (fun _ _ => trivial)
        fun tokens => ?_
      exact obeys_await trivial (fun _ _ => trivial) fun e _ => trivial

end Programs

/-- A finished refresh that succeeded has stored a token. -/
def RefreshEnds (r : Request) (o : Except Exception Response) (s : TokenStage) : Prop :=
  r.refreshCookie ≠ none → ∀ a, o = .ok a → ∃ token, s = .stored token

/-- Requests other than logins and refreshes leave stored tokens alone, except for deleting them. -/
theorem footprint_ignored {r : Request} (hlogin : ∀ email password context,
    r ≠ .login email password context) (hrefresh : ∀ cookie context, r ≠ .refresh cookie context)
    {c : Call} (h : r.footprint c) : TokenStage.Ignores c ∨ c = .randomUUID := by
  cases r with
  | login email password context => exact absurd rfl (hlogin _ _ _)
  | refresh cookie context => exact absurd rfl (hrefresh _ _)
  | signup email password fullName role =>
    obtain rfl | ⟨hashed, rfl⟩ := h <;> exact .inl trivial
  | logout cookie context =>
    obtain ⟨id, rfl⟩ | ⟨n, rfl⟩ := h <;> exact .inl trivial
  | _ =>
    obtain ⟨c, rfl⟩ | rfl | ⟨c, rfl⟩ | ⟨event, rfl⟩ := footprint_rest rfl h
    · exact .inl trivial
    · exact .inr rfl
    · exact .inl trivial
    · exact .inl trivial

theorem prog_obeys (r : Request) :
    Obeys (tokenMonitor r) (RefreshEnds r) r.prog .start := by
  by_cases hlogin : ∃ email password context, r = .login email password context
  · obtain ⟨email, password, context, rfl⟩ := hlogin
    exact obeys_mono (login_obeys email password context) fun _ _ _ h => absurd rfl h
  by_cases hrefresh : ∃ cookie context, r = .refresh cookie context
  · obtain ⟨cookie, context, rfl⟩ := hrefresh
    exact obeys_mono (refresh_obeys cookie context) fun _ _ h _ => h
  push Not at hlogin hrefresh
  have hnone : r.refreshCookie = none := by
    unfold Request.refreshCookie
    split
    · exact absurd rfl (hrefresh _ _)
    · rfl
  refine obeys_mono (obeys_of_allowed (prog_calls r) fun s c hc => ?_) fun _ _ _ h => absurd hnone h
  obtain hquiet | hfp := hc
  · exact TokenStage.allows_ignored (ignores_quiet c hquiet) _ _
  · obtain hi | rfl := footprint_ignored hlogin hrefresh hfp
    · exact TokenStage.allows_ignored hi _ _
    · exact .inr hnone

/-! ## What a run keeps -/

def StoredToken (w : World) (userId : String) (token : RefreshToken) : Prop :=
  ∃ e ∈ w.redis.entry (.refreshToken userId), e.value = token

theorem storedToken_get {w : World} {userId : String} {token : RefreshToken}
    (h : w.redis.get w.now (.refreshToken userId) = some token) : StoredToken w userId token := by
  obtain ⟨e, he, hlive⟩ := Option.bind_eq_some_iff.mp h
  refine ⟨e, he, ?_⟩
  unfold Entry.live at hlive
  split at hlive
  · exact Option.some.inj hlive
  · exact Option.some.inj (Option.ite_none_right_eq_some.mp hlive).2

theorem storedToken_set {w : World} {userId userId' : String} {token new : RefreshToken}
    {x : Option Time} (h : StoredToken { w with redis := w.redis.set (.refreshToken userId) new x }
      userId' token) :
    userId' = userId ∧ token = new ∨ userId' ≠ userId ∧ StoredToken w userId' token := by
  obtain ⟨e, he, rfl⟩ := h
  by_cases hu : userId' = userId
  · subst hu
    simp only [Expiring.set, Function.update_self, Option.mem_def, Option.some.injEq] at he
    exact .inl ⟨rfl, by rw [← he]⟩
  · have hk : RedisKey.refreshToken userId' ≠ .refreshToken userId := fun h => hu (by cases h; rfl)
    simp only [Expiring.set, Function.update_of_ne hk] at he
    exact .inr ⟨hu, e, he, rfl⟩

theorem storedToken_ignored {i : ℕ} {c : Call} {ch : Choice} {w w' : World} {r : Api.Answer c}
    (hc : TokenStage.Ignores c) (hx : gateway.exec i c ch w = some (r, w')) {userId : String}
    {token : RefreshToken} (h : StoredToken w' userId token) : StoredToken w userId token := by
  cases c with
  | redis c =>
    obtain ⟨-, rfl⟩ | ⟨-, rfl⟩ := redis_cases hx
    · exact h
    have hset : ∀ {k : RedisKey} {v : k.Value} {x : Option Time},
        k ≠ .refreshToken userId → StoredToken { w with redis := w.redis.set k v x } userId token →
          StoredToken w userId token := by
      rintro k v x hk ⟨e, he, rfl⟩
      simp only [Expiring.set, Function.update_of_ne (Ne.symm hk)] at he
      exact ⟨e, he, rfl⟩
    cases c with
    | get k => exact h
    | set k v n =>
      cases k with
      | refreshToken id => exact hc.elim
      | blacklist tokenId => exact hset (by simp) h
      | loginAttempts email => exact hset (by simp) h
    | del k =>
      obtain ⟨e, he, rfl⟩ := h
      by_cases hk : RedisKey.refreshToken userId = k
      · subst hk
        simp [RedisCall.perform, Expiring.del] at he
      · simp only [RedisCall.perform, Expiring.del, Function.update_of_ne hk] at he
        exact ⟨e, he, rfl⟩
    | existsKey k => exact h
    | incr email =>
      simp only [RedisCall.perform] at h
      split at h <;> exact hset (by simp) h
    | expire k n =>
      simp only [RedisCall.perform] at h
      split at h
      · exact h
      · rename_i v hv
        by_cases hk : k = .refreshToken userId
        · subst hk
          obtain ⟨-, rfl⟩ | ⟨hne, -⟩ := storedToken_set h
          · exact storedToken_get hv
          · exact absurd rfl hne
        · exact hset hk h
    | ttl k =>
      simp only [RedisCall.perform] at h
      split at h <;> exact h
  | _ =>
    unfold StoredToken at h
    rwa [(exec_frame hx).redis (by simp)] at h

/-- The token has been issued and nobody is about to store it. -/
structure Issued (w : World) (st : ℕ → TokenStage) (token : RefreshToken) : Prop where
  drawn : token.tokenId ∈ w.uuids
  notPending : ∀ k tokenId, st k = .drew tokenId → tokenId ≠ token.tokenId

structure RotationInv (requests : ℕ → Request) (w : World) (st : ℕ → TokenStage) : Prop where
  nodup : w.uuids.Nodup
  own : ∀ k tokenId, st k = .drew tokenId → (k, tokenId) ∈ w.drawn
  entries : ∀ userId token, StoredToken w userId token → Issued w st token
  presented : ∀ k token, (requests k).refreshCookie = some token → st k ≠ .start →
    Issued w st token
  replaced : ∀ k token new, (requests k).refreshCookie = some token → st k = .stored new →
    ¬ StoredToken w token.sub token

section Exec

variable {requests : ℕ → Request} {w w' : World} {st : ℕ → TokenStage} {i : ℕ} {ch : Choice}

theorem rotationInv_of_stored (hinv : RotationInv requests w st) (hnodup : w'.uuids.Nodup)
    (hdrawn : ∀ e ∈ w.drawn, e ∈ w'.drawn)
    (hstored : ∀ userId token, StoredToken w' userId token → StoredToken w userId token) :
    RotationInv requests w' st := by
  have hkeep : ∀ {token}, Issued w st token → Issued w' st token := fun h => by
    obtain ⟨e, he, heq⟩ := List.mem_map.mp h.drawn
    exact ⟨List.mem_map.mpr ⟨e, hdrawn e he, heq⟩, h.notPending⟩
  exact
    { nodup := hnodup
      own := fun k tokenId hk => hdrawn _ (hinv.own k tokenId hk)
      entries := fun userId token ht => hkeep (hinv.entries userId token (hstored _ _ ht))
      presented := fun k token hk hs => hkeep (hinv.presented k token hk hs)
      replaced := fun k token new hk hs ht => hinv.replaced k token new hk hs (hstored _ _ ht) }

/-- Request `i` moves on, to a stage in which the id it drew, if any, is new. -/
theorem Issued.advance {s : TokenStage} {token : RefreshToken} (h : Issued w st token)
    (huuids : ∀ u ∈ w.uuids, u ∈ w'.uuids) (hnew : ∀ tokenId, s = .drew tokenId → tokenId ∉ w.uuids) :
    Issued w' (Function.update st i s) token := by
  refine ⟨huuids _ h.drawn, fun k tokenId hk heq => ?_⟩
  by_cases hki : k = i
  · subst hki
    rw [Function.update_self] at hk
    exact hnew tokenId hk (heq ▸ h.drawn)
  · rw [Function.update_of_ne hki] at hk
    exact h.notPending k tokenId hk heq

theorem RotationInv.advance {s : TokenStage} (hinv : RotationInv requests w st)
    (hnodup : w'.uuids.Nodup) (hdrawn : ∀ e ∈ w.drawn, e ∈ w'.drawn)
    (hown : ∀ tokenId, s = .drew tokenId → (i, tokenId) ∈ w'.drawn ∧ tokenId ∉ w.uuids)
    (hentries : ∀ userId token, StoredToken w' userId token →
      Issued w' (Function.update st i s) token)
    (hpresented : ∀ token, (requests i).refreshCookie = some token → Issued w st token)
    (hreplaced : ∀ k token new, (requests k).refreshCookie = some token →
      Function.update st i s k = .stored new → ¬ StoredToken w' token.sub token) :
    RotationInv requests w' (Function.update st i s) := by
  have huuids : ∀ u ∈ w.uuids, u ∈ w'.uuids := fun u hu => by
    obtain ⟨e, he, rfl⟩ := List.mem_map.mp hu
    exact List.mem_map_of_mem (hdrawn e he)
  have hkeep : ∀ {token}, Issued w st token → Issued w' (Function.update st i s) token :=
    fun h => h.advance huuids fun tokenId hs => (hown tokenId hs).2
  refine ⟨hnodup, fun k tokenId hk => ?_, hentries, fun k token hk hs => ?_, hreplaced⟩
  · by_cases hki : k = i
    · subst hki
      rw [Function.update_self] at hk
      exact (hown tokenId hk).1
    · rw [Function.update_of_ne hki] at hk
      exact hdrawn _ (hinv.own k tokenId hk)
  · by_cases hki : k = i
    · subst hki
      exact hkeep (hpresented token hk)
    · rw [Function.update_of_ne hki] at hs
      exact hkeep (hinv.presented k token hk hs)

/-- Reading the stored token changes nothing; a match says that the presented token was issued. -/
theorem rotationInv_get {userId : String} {r : Api.Answer (.redis (.get (.refreshToken userId)))}
    (hinv : RotationInv requests w st)
    (hx : gateway.exec i (.redis (.get (.refreshToken userId))) ch w = some (r, w')) :
    RotationInv requests w'
      (Function.update st i (TokenStage.next (requests i) (st i) ⟨_, r⟩)) := by
  have hw : w' = w := by
    obtain ⟨-, rfl⟩ | ⟨-, rfl⟩ := redis_cases hx <;> rfl
  subst hw
  by_cases hnext : TokenStage.next (requests i) (st i) ⟨_, r⟩ = st i
  · rw [hnext, Function.update_eq_self]
    exact hinv
  -- only a match moves the request on
  obtain ⟨token, hstart, hr, hcookie⟩ : ∃ token, st i = .start ∧ r = .ok (some token) ∧
      (requests i).refreshCookie = some token := by
    unfold TokenStage.next at hnext
    split at hnext <;> rename_i hs heq
    · cases heq
      split at hnext
      · rename_i hcookie
        exact ⟨_, hs, rfl, hcookie⟩
      · exact absurd hs.symm hnext
    · cases heq
    · cases heq
    · cases heq
    · exact absurd rfl hnext
  have hvalid : TokenStage.next (requests i) (st i) ⟨_, r⟩ = .validated := by
    rw [hstart, hr]
    exact if_pos hcookie
  have hget : w'.redis.get w'.now (.refreshToken userId) = some token := by
    obtain ⟨he, -⟩ | ⟨hok, -⟩ := redis_cases hx
    · rw [hr] at he
      cases he
    · rw [hr] at hok
      exact (Except.ok.inj hok).symm
  have hissued := hinv.entries userId token (storedToken_get hget)
  rw [hvalid]
  refine hinv.advance hinv.nodup (fun _ he => he) (fun _ h => nomatch h)
    (fun userId token ht => ?_) (fun token' hk => ?_) fun k token' new hk hs => ?_
  · exact (hinv.entries userId token ht).advance (fun _ hu => hu) fun _ h => nomatch h
  · rw [hcookie] at hk
    cases hk
    exact hissued
  · by_cases hki : k = i
    · subst hki
      rw [Function.update_self] at hs
      cases hs
    · rw [Function.update_of_ne hki] at hs
      exact hinv.replaced k token' new hk hs

/-- The id drawn is new, so it is not the id of a token that was issued before. -/
theorem rotationInv_draw {r : Api.Answer .randomUUID} (hinv : RotationInv requests w st)
    (hallow : st i = .validated ∨ (requests i).refreshCookie = none)
    (hx : gateway.exec i .randomUUID ch w = some (r, w')) :
    RotationInv requests w'
      (Function.update st i (TokenStage.next (requests i) (st i) ⟨.randomUUID, r⟩)) := by
  have hnodup := uuids_nodup_exec hx hinv.nodup
  have hdrawn := fun e (he : e ∈ w.drawn) => drawn_exec hx he
  obtain ⟨u, hfresh, rfl, rfl⟩ := randomUUID_cases hx
  have hstored : ∀ userId token, StoredToken { w with drawn := w.drawn ++ [(i, u)] } userId token →
      StoredToken w userId token := fun _ _ h => h
  by_cases hnext : TokenStage.next (requests i) (st i) ⟨.randomUUID, .ok u⟩ = st i
  · rw [hnext, Function.update_eq_self]
    exact rotationInv_of_stored hinv hnodup hdrawn hstored
  have hdrew : TokenStage.next (requests i) (st i) ⟨.randomUUID, .ok u⟩ = .drew u := by
    cases hs : st i with
    | start => rfl
    | validated => rfl
    | drew tokenId => exact absurd (by rw [hs]; rfl) hnext
    | stored token => exact absurd (by rw [hs]; rfl) hnext
  rw [hdrew]
  refine hinv.advance hnodup hdrawn (fun tokenId h => ?_) (fun userId token ht => ?_)
    (fun token hk => ?_) fun k token new hk hs ht => ?_
  · cases h
    exact ⟨by simp, hfresh.2⟩
  · refine (hinv.entries userId token (hstored _ _ ht)).advance (fun v hv => ?_) fun tokenId h => ?_
    · exact uuids_exec hx hv
    · cases h
      exact hfresh.2
  · obtain hs | hnone := hallow
    · exact hinv.presented i token hk (by rw [hs]; exact nofun)
    · rw [hnone] at hk
      cases hk
  · by_cases hki : k = i
    · subst hki
      rw [Function.update_self] at hs
      cases hs
    · rw [Function.update_of_ne hki] at hs
      exact hinv.replaced k token new hk hs (hstored _ _ ht)

/-- The token that is stored has an id of its own, so it is not one issued before. -/
theorem rotationInv_set {userId : String} {token : RefreshToken} {n : ℕ}
    {r : Api.Answer (.redis (.set (.refreshToken userId) token n))}
    (hinv : RotationInv requests w st) (hdrew : st i = .drew token.tokenId)
    (hsub : ∀ old, (requests i).refreshCookie = some old → userId = old.sub)
    (hx : gateway.exec i (.redis (.set (.refreshToken userId) token n)) ch w = some (r, w')) :
    RotationInv requests w'
      (Function.update st i (TokenStage.next (requests i) (st i) ⟨_, r⟩)) := by
  obtain ⟨rfl, rfl⟩ | ⟨rfl, rfl⟩ := redis_cases hx
  · have hsame : TokenStage.next (requests i) (st i)
        ⟨.redis (.set (.refreshToken userId) token n), .error .redis⟩ = st i := by
      rw [hdrew]
      rfl
    rw [hsame, Function.update_eq_self]
    exact hinv
  rw [hdrew]
  change RotationInv requests _ (Function.update st i (.stored token))
  have hmine : (i, token.tokenId) ∈ w.drawn := hinv.own i _ hdrew
  have hother : ∀ {old}, Issued w st old → old ≠ token := by
    rintro old hold rfl
    exact hold.notPending i _ hdrew rfl
  refine hinv.advance hinv.nodup (fun _ he => he) (fun _ h => nomatch h)
    (fun userId' token' ht => ?_) (fun old hk => ?_) fun k old new hk hs ht => ?_
  · obtain ⟨-, rfl⟩ | ⟨-, ht⟩ := storedToken_set ht
    · refine ⟨List.mem_map_of_mem hmine, fun k tokenId hk heq => ?_⟩
      by_cases hki : k = i
      · subst hki
        rw [Function.update_self] at hk
        cases hk
      · rw [Function.update_of_ne hki] at hk
        exact hki (drawn_unique hinv.nodup (hinv.own k _ (heq ▸ hk)) hmine)
    · exact (hinv.entries _ _ ht).advance (fun _ hu => hu) fun _ h => nomatch h
  · exact hinv.presented i old hk (by rw [hdrew]; exact nofun)
  · by_cases hki : k = i
    · subst hki
      have hold := hinv.presented k old hk (by rw [hdrew]; exact nofun)
      obtain ⟨-, heq⟩ | ⟨hne, -⟩ := storedToken_set ht
      · exact hother hold heq
      · exact hne (hsub old hk).symm
    · rw [Function.update_of_ne hki] at hs
      have hold := hinv.presented k old hk (by rw [hs]; exact nofun)
      obtain ⟨-, heq⟩ | ⟨-, ht⟩ := storedToken_set ht
      · exact hother hold heq
      · exact hinv.replaced k old new hk hs ht

theorem rotationInv_exec {c : Call} {r : Api.Answer c} (hinv : RotationInv requests w st)
    (hallow : TokenStage.Allows (requests i) (st i) c)
    (hx : gateway.exec i c ch w = some (r, w')) :
    RotationInv requests w'
      (Function.update st i (TokenStage.next (requests i) (st i) ⟨c, r⟩)) := by
  by_cases hc : TokenStage.Ignores c
  · rw [TokenStage.next_ignored hc, Function.update_eq_self]
    exact rotationInv_of_stored hinv (uuids_nodup_exec hx hinv.nodup)
      (fun e he => drawn_exec hx he) fun _ _ => storedToken_ignored hc hx
  unfold TokenStage.Ignores at hc
  split at hc
  · exact rotationInv_get hinv hx
  · exact rotationInv_set hinv hallow.1 hallow.2 hx
  · exact rotationInv_draw hinv hallow hx
  · exact absurd trivial hc

end Exec

/-! ## Runs -/

/-- Request `i` is between its two steps: it has found the token it presents to be the stored one
and has not stored another. -/
structure Exchanging (requests : ℕ → Request) (cfg : Config Api ℕ World Response) (i : ℕ)
    (token : RefreshToken) : Prop where
  presents : (requests i).refreshCookie = some token
  unfinished : cfg.outcome? i = none
  read : (i, ⟨.redis (.get (.refreshToken token.sub)), .ok (some token)⟩) ∈ cfg.log
  notStored : ∀ userId new n,
    (i, ⟨.redis (.set (.refreshToken userId) new n), .ok ()⟩) ∉ cfg.log

/-- No refresh stores its new token while another one is exchanging the same old token. -/
def NoOverlap (requests : ℕ → Request) (cfg : Config Api ℕ World Response)
    (l : Label ℕ Choice Move) : Prop :=
  ∀ i ch userId new n k token, l = .run i ch → ch.fails = false →
    cfg.pool i = .call (.redis (.set (.refreshToken userId) new n)) k →
    (requests i).refreshCookie = some token → ∀ j, j ≠ i → ¬ Exchanging requests cfg j token

/-- When a request takes a step, the others that have begun are over. -/
def OthersOver (cfg : Config Api ℕ World Response) : Label ℕ Choice Move → Prop
  | .run i _ => ∀ j ∈ cfg.log.map Prod.fst, j ≠ i → (cfg.outcome? j).isSome = true
  | .move _ => True

instance (cfg : Config Api ℕ World Response) : ∀ l, Decidable (OthersOver cfg l)
  | .run i _ => inferInstanceAs (Decidable (∀ j ∈ cfg.log.map Prod.fst, j ≠ i → _))
  | .move _ => .isTrue trivial

section Run

variable {requests : ℕ → Request} {cfg cfg' : Config Api ℕ World Response}
  {l : Label ℕ Choice Move} {ls : List (Label ℕ Choice Move)}

theorem noOverlap_of_othersOver (h : OthersOver cfg l) : NoOverlap requests cfg l := by
  rintro i ch userId new n k token rfl - - - j hj hexchanging
  have hover := h j (List.mem_map_of_mem hexchanging.read) hj
  rw [hexchanging.unfinished] at hover
  cases hover

def tokenStage (requests : ℕ → Request) (cfg : Config Api ℕ World Response) : ℕ → TokenStage :=
  stage (fun i => tokenMonitor (requests i)) (fun _ => .start) cfg

/-- What the stages say about the log. -/
structure TokenHistory (requests : ℕ → Request) (cfg : Config Api ℕ World Response) : Prop where
  obey : AllObey (fun i => tokenMonitor (requests i)) (fun _ => .start)
    (fun i => RefreshEnds (requests i)) cfg
  read : ∀ i token, (requests i).refreshCookie = some token → tokenStage requests cfg i ≠ .start →
    (i, ⟨.redis (.get (.refreshToken token.sub)), .ok (some token)⟩) ∈ cfg.log
  stored : ∀ i userId new n, (i, ⟨.redis (.set (.refreshToken userId) new n), .ok ()⟩) ∈ cfg.log →
    ∃ token, tokenStage requests cfg i = .stored token

structure ExchangeInv (requests : ℕ → Request) (cfg : Config Api ℕ World Response) : Prop
    extends TokenHistory requests cfg where
  rotation : RotationInv requests cfg.world (tokenStage requests cfg)
  /-- once a request has stored its token, the others with the old one are at the start or over -/
  alone : ∀ i j token new, i ≠ j → (requests i).refreshCookie = some token →
    (requests j).refreshCookie = some token → tokenStage requests cfg i = .stored new →
    tokenStage requests cfg j = .start ∨
      cfg.outcome? j ≠ none ∧ ∀ new', tokenStage requests cfg j ≠ .stored new'

theorem tokenStage_answered (i : ℕ) {c : Call} (r : Api.Answer c)
    (k : Api.Answer c → Prog Api Response) (w : World) :
    tokenStage requests (cfg.answered i r k w) = Function.update (tokenStage requests cfg) i
      (TokenStage.next (requests i) (tokenStage requests cfg i) ⟨c, r⟩) :=
  stage_answered cfg i r k w

theorem next_of_stored (r : Request) (token : RefreshToken) (e : Event Api) :
    TokenStage.next r (.stored token) e = .stored token := by
  unfold TokenStage.next
  split <;> first | rfl | (rename_i heq; cases heq)

/-- A call that takes a request into `stored` is the `SET` of its new token. -/
theorem next_stored {r : Request} {s : TokenStage} {e : Event Api} {token : RefreshToken}
    (h : TokenStage.next r s e = .stored token) :
    s = .stored token ∨ ∃ tokenId userId n, s = .drew tokenId ∧
      e = ⟨.redis (.set (.refreshToken userId) token n), .ok ()⟩ := by
  unfold TokenStage.next at h
  split at h
  · split at h <;> cases h
  · cases h
  · cases h
  · cases h
    exact .inr ⟨_, _, _, rfl, rfl⟩
  · exact .inl h

theorem next_start {r : Request} {e : Event Api} {token : RefreshToken}
    (hcookie : r.refreshCookie = some token) (hallow : TokenStage.Allows r .start e.call)
    (h : TokenStage.next r .start e ≠ .start) :
    e = ⟨.redis (.get (.refreshToken token.sub)), .ok (some token)⟩ ∧
      TokenStage.next r .start e = .validated := by
  unfold TokenStage.next at h ⊢
  split at h
  · rename_i id found _
    split at h
    · rename_i hfound
      obtain ⟨-, token', hcookie', rfl⟩ := hallow
      rw [hcookie] at hfound hcookie'
      cases hfound
      cases hcookie'
      exact ⟨rfl, if_pos hcookie⟩
    · exact absurd rfl h
  · obtain h | h := hallow
    · cases h
    · rw [hcookie] at h
      cases h
  · rename_i heq
    cases heq
  · rename_i heq
    cases heq
  · exact absurd rfl h

variable {i : ℕ} {ch : Choice} {c : Call} {k : Api.Answer c → Prog Api Response} {r : Api.Answer c}
  {w : World}

theorem tokenHistory_answered (h : TokenHistory requests cfg) (hp : cfg.pool i = .call c k)
    (hx : gateway.exec i c ch cfg.world = some (r, w)) :
    TokenHistory requests (cfg.answered i r k w) := by
  have hallow : TokenStage.Allows (requests i) (tokenStage requests cfg i) c := h.obey.call hp
  refine ⟨h.obey.answered hp w (tokenStage_expects hx), ?_, ?_⟩
  · intro j token hj hs
    rw [Config.answered_log, List.mem_append]
    rw [tokenStage_answered] at hs
    by_cases hji : j = i
    · subst hji
      rw [Function.update_self] at hs
      by_cases hstart : tokenStage requests cfg j = .start
      · rw [hstart] at hs hallow
        obtain ⟨heq, -⟩ := next_start (e := ⟨c, r⟩) hj hallow hs
        exact .inr (by simp [heq])
      · exact .inl (h.read j token hj hstart)
    · rw [Function.update_of_ne hji] at hs
      exact .inl (h.read j token hj hs)
  · intro j userId new n hlog
    rw [Config.answered_log, List.mem_append, List.mem_singleton] at hlog
    rw [tokenStage_answered]
    obtain hlog | heq := hlog
    · obtain ⟨token, ht⟩ := h.stored j userId new n hlog
      by_cases hji : j = i
      · subst hji
        rw [Function.update_self, ht]
        exact ⟨token, next_of_stored _ _ _⟩
      · rw [Function.update_of_ne hji]
        exact ⟨token, ht⟩
    · cases heq
      rw [Function.update_self, hallow.1]
      exact ⟨new, rfl⟩

theorem tokenHistory_step (h : TokenHistory requests cfg) (hs : gateway.step l cfg = some cfg') :
    TokenHistory requests cfg' := by
  obtain ⟨i, ch, c, k, r, w, rfl, hp, hx, rfl⟩ | ⟨mv, w, rfl, hm, rfl⟩ := Machine.step_cases hs
  · exact tokenHistory_answered h hp hx
  · exact ⟨h.obey, h.read, h.stored⟩

theorem tokenHistory_start (w : World) :
    TokenHistory requests (.start w (Request.pool requests)) where
  obey i := prog_obeys (requests i)
  read _ _ _ hs := absurd rfl hs
  stored _ _ _ _ hlog := nomatch hlog

theorem tokenHistory_run {w : World}
    (hrun : gateway.run ls (.start w (Request.pool requests)) = some cfg) :
    TokenHistory requests cfg :=
  Machine.run_induction (TokenHistory requests) (fun h hs => tokenHistory_step h hs)
    (tokenHistory_start w) hrun

theorem alone_answered (h : ExchangeInv requests cfg) (hp : cfg.pool i = .call c k)
    (hx : gateway.exec i c ch cfg.world = some (r, w)) (hover : NoOverlap requests cfg (.run i ch))
    {a b : ℕ} {token new : RefreshToken} (hab : a ≠ b)
    (ha : (requests a).refreshCookie = some token) (hb : (requests b).refreshCookie = some token)
    (hs : tokenStage requests (cfg.answered i r k w) a = .stored new) :
    tokenStage requests (cfg.answered i r k w) b = .start ∨
      (cfg.answered i r k w).outcome? b ≠ none ∧
        ∀ new', tokenStage requests (cfg.answered i r k w) b ≠ .stored new' := by
  have hallow : TokenStage.Allows (requests i) (tokenStage requests cfg i) c := h.obey.call hp
  have hrunning : cfg.outcome? i = none := by rw [Config.outcome?, hp]; rfl
  rw [tokenStage_answered] at hs ⊢
  by_cases hbi : b = i
  · -- the one with the old token moves: it was at the start, and its token is no longer stored
    subst hbi
    rw [Function.update_of_ne hab] at hs
    obtain hstart | ⟨hover, -⟩ := h.alone a b token new hab ha hb hs
    · left
      rw [Function.update_self, hstart]
      rw [hstart] at hallow
      by_contra hne
      obtain ⟨heq, -⟩ := next_start (e := ⟨c, r⟩) hb hallow hne
      cases heq
      obtain ⟨he, -⟩ | ⟨hok, -⟩ := redis_cases hx
      · cases he
      · exact h.rotation.replaced a token new ha hs (storedToken_get (Except.ok.inj hok).symm)
    · exact absurd hrunning hover
  rw [Function.update_of_ne hbi]
  have hkeep : (tokenStage requests cfg b = .start ∨ cfg.outcome? b ≠ none ∧
      ∀ new', tokenStage requests cfg b ≠ .stored new') → tokenStage requests cfg b = .start ∨
        (cfg.answered i r k w).outcome? b ≠ none ∧
          ∀ new', tokenStage requests cfg b ≠ .stored new' := by
    rintro (hstart | ⟨hover, hns⟩)
    · exact .inl hstart
    · refine .inr ⟨?_, hns⟩
      rwa [Config.outcome?, cfg.answered_pool_ne i r k w hbi]
  by_cases hai : a = i
  · subst hai
    rw [Function.update_self] at hs
    obtain hs | ⟨tokenId, userId, n, hdrew, heq⟩ := next_stored hs
    · exact hkeep (h.alone a b token new hab ha hb hs)
    · -- the new token is stored now: nobody else is exchanging the old one
      cases heq
      have hok : ch.fails = false := by
        obtain ⟨e, -, he, -⟩ | ⟨hok, -⟩ := exec_cases hx
        · cases he
        · exact hok
      have hnot := hover a ch userId new n k token rfl hok hp ha b (Ne.symm hab)
      have hns : ∀ new', tokenStage requests cfg b ≠ .stored new' := by
        intro new' hb'
        obtain hstart | ⟨hdone, -⟩ := h.alone b a token new' (Ne.symm hab) hb ha hb'
        · rw [hdrew] at hstart
          cases hstart
        · exact hdone hrunning
      by_cases hstart : tokenStage requests cfg b = .start
      · exact .inl hstart
      refine hkeep (.inr ⟨fun hunfinished => hnot ⟨hb, hunfinished, ?_, ?_⟩, hns⟩)
      · exact h.read b token hb hstart
      · intro userId' new' n' hlog
        obtain ⟨t, ht⟩ := h.stored b userId' new' n' hlog
        exact hns t ht
  · rw [Function.update_of_ne hai] at hs
    exact hkeep (h.alone a b token new hab ha hb hs)

theorem exchangeInv_answered (h : ExchangeInv requests cfg) (hp : cfg.pool i = .call c k)
    (hx : gateway.exec i c ch cfg.world = some (r, w)) (hover : NoOverlap requests cfg (.run i ch)) :
    ExchangeInv requests (cfg.answered i r k w) := by
  have hallow : TokenStage.Allows (requests i) (tokenStage requests cfg i) c := h.obey.call hp
  refine ⟨tokenHistory_answered h.toTokenHistory hp hx, ?_, ?_⟩
  · rw [tokenStage_answered]
    exact rotationInv_exec h.rotation hallow hx
  · intro a b token new hab ha hb hs
    exact alone_answered h hp hx hover hab ha hb hs

theorem exchangeInv_step (h : ExchangeInv requests cfg) (hover : NoOverlap requests cfg l)
    (hs : gateway.step l cfg = some cfg') : ExchangeInv requests cfg' := by
  obtain ⟨i, ch, c, k, r, w, rfl, hp, hx, rfl⟩ | ⟨mv, w, rfl, hm, rfl⟩ := Machine.step_cases hs
  · exact exchangeInv_answered h hp hx hover
  · have hrot : RotationInv requests w (tokenStage requests cfg) := by
      obtain ⟨elapsed, -, rfl⟩ | ⟨channel, broker, rfl⟩ := move_cases hm
      · exact rotationInv_of_stored h.rotation h.rotation.nodup (fun _ he => he) fun _ _ ht => ht
      · exact rotationInv_of_stored h.rotation h.rotation.nodup (fun _ he => he) fun _ _ ht => ht
    exact ⟨tokenHistory_step h.toTokenHistory hs, hrot, h.alone⟩

/-- The tokens in the store were issued: their ids have been drawn. -/
def TokensDrawn (w : World) : Prop :=
  ∀ userId token, StoredToken w userId token → token.tokenId ∈ w.uuids

theorem exchangeInv_start {w : World} (hnodup : w.uuids.Nodup) (htokens : TokensDrawn w) :
    ExchangeInv requests (.start w (Request.pool requests)) where
  toTokenHistory := tokenHistory_start w
  rotation :=
    { nodup := hnodup
      own := fun _ _ hk => nomatch hk
      entries := fun userId token ht => ⟨htokens userId token ht, fun _ _ hk => nomatch hk⟩
      presented := fun _ _ _ hs => absurd rfl hs
      replaced := fun _ _ _ _ hs => nomatch hs }
  alone _ _ _ _ _ _ _ hs := nomatch hs

/-- Refreshes that present the same token and succeed are one refresh. -/
def ExchangedOnce (requests : ℕ → Request) (cfg : Config Api ℕ World Response) : Prop :=
  ∀ i j token a b, (requests i).refreshCookie = some token →
    (requests j).refreshCookie = some token → cfg.outcome? i = some (.ok a) →
    cfg.outcome? j = some (.ok b) → i = j

/-- As long as no refresh stores its new token while another one is exchanging the same old token,
every token is exchanged at most once. -/
theorem exchanged_once {w : World} (hnodup : w.uuids.Nodup) (htokens : TokensDrawn w)
    (hover : gateway.Along (NoOverlap requests) ls (.start w (Request.pool requests)))
    (hrun : gateway.run ls (.start w (Request.pool requests)) = some cfg) :
    ExchangedOnce requests cfg := by
  have hinv := Machine.run_induction_along (ExchangeInv requests)
    (fun h hover hs => exchangeInv_step h hover hs) (exchangeInv_start hnodup htokens) hover hrun
  intro i j token a b hi hj ha hb
  by_contra hij
  obtain ⟨new, hs⟩ := hinv.obey.outcome ha (by rw [hi]; exact nofun) a rfl
  obtain ⟨new', hs'⟩ := hinv.obey.outcome hb (by rw [hj]; exact nofun) b rfl
  obtain hstart | ⟨-, hne⟩ := hinv.alone i j token new hij hi hj hs
  · exact nomatch hstart.symm.trans hs'
  · exact hne new' hs'

end Run

/-! ## The run in which a token is exchanged twice -/

def twoRefreshes (i : ℕ) : Request :=
  .refresh (if i < 2 then some raysToken else none) {}

/-- Every step of a refresh of request `i` that draws `tokenId`. -/
def refreshSteps (i : ℕ) (tokenId : String) : List (Label ℕ Choice Move) :=
  List.replicate 4 (.run i {}) ++ .run i { uuid := tokenId } :: List.replicate 3 (.run i {})

/-- Both refreshes validate their token before either stores a new one. -/
def overlapping : List (Label ℕ Choice Move) :=
  (refreshSteps 0 "t-0").take 4 ++ (refreshSteps 1 "t-1").take 4 ++
    (refreshSteps 0 "t-0").drop 4 ++ (refreshSteps 1 "t-1").drop 4

theorem signedIn_tokensDrawn : TokensDrawn signedIn := by
  rintro userId token ⟨e, he, rfl⟩
  by_cases hu : userId = "u-ray"
  · subst hu
    cases he
    decide
  · have hk : RedisKey.refreshToken userId ≠ .refreshToken "u-ray" := fun h => hu (by cases h; rfl)
    simp [signedIn, seeded, Expiring.set, Expiring.empty, Function.update_of_ne hk] at he

def inTurn : List (Label ℕ Choice Move) :=
  refreshSteps 0 "t-0" ++ List.replicate 2 (.run 1 {})

theorem exchanged_once_refresh :
    ∃ cfg, gateway.run inTurn (.start signedIn (Request.pool twoRefreshes)) = some cfg ∧
      [0, 1].map (fun i => (cfg.outcome? i).map statusOf) = [some 200, some 401] ∧
      ExchangedOnce twoRefreshes cfg := by
  have h : (gateway.run inTurn (.start signedIn (Request.pool twoRefreshes))).map
      (fun cfg => [0, 1].map fun i => (cfg.outcome? i).map statusOf) =
        some [some 200, some 401] := by decide +kernel
  obtain ⟨cfg, hrun, hdone⟩ := Option.map_eq_some_iff.mp h
  have hturns : gateway.Along OthersOver inTurn (.start signedIn (Request.pool twoRefreshes)) := by
    decide +kernel
  exact ⟨cfg, hrun, hdone, exchanged_once (by decide) signedIn_tokensDrawn
    (Machine.along_mono hturns fun _ _ => noOverlap_of_othersOver) hrun⟩

/-- Both requests present Ray's token and both get a new pair. -/
theorem exchanged_twice :
    ∃ cfg, gateway.run overlapping (.start signedIn (Request.pool twoRefreshes)) = some cfg ∧
      ¬ ExchangedOnce twoRefreshes cfg := by
  have h : (gateway.run overlapping (.start signedIn (Request.pool twoRefreshes))).map
      (fun cfg => [0, 1].map fun i => (cfg.outcome? i).map Except.isOk) =
        some [some true, some true] := by
    decide +kernel
  obtain ⟨cfg, hrun, hdone⟩ := Option.map_eq_some_iff.mp h
  simp only [List.map_cons, List.map_nil, List.cons.injEq, and_true] at hdone
  have hok : ∀ i, (cfg.outcome? i).map Except.isOk = some true →
      ∃ a, cfg.outcome? i = some (.ok a) := by
    intro i hi
    obtain ⟨o, ho, hisOk⟩ := Option.map_eq_some_iff.mp hi
    cases o with
    | ok a => exact ⟨a, ho⟩
    | error e => cases hisOk
  obtain ⟨a, ha⟩ := hok 0 hdone.1
  obtain ⟨b, hb⟩ := hok 1 hdone.2
  exact ⟨cfg, hrun, fun honce => absurd (honce 0 1 raysToken a b rfl rfl ha hb) (by decide)⟩

end TalentFlow
