import TalentFlow.Guarantees.Mediation
import TalentFlow.Guarantees.Identity

/-!
# Guarantees.SignIn

Where sessions come from. The gateway issues tokens to a login whose password matched, and to a
refresh, which comes with a token that was issued before. So as long as nobody else can sign tokens,
whatever runs for a user goes back to a login with that user's password, through any number of
refreshes and whatever else is running.

* `HttpRequest.Grants`, `prog_grants`: what a request has done that is answered with tokens.
* `granted`: the same of a run, by the rows as they are now.
* `passwords_first`: nothing runs for a user before the user's password has been given.
-/

namespace TalentFlow

open Data Async

/-! ## Tokens -/

def Response.tokens? : Response → Option Tokens
  | .loggedIn tokens _ => some tokens
  | .refreshed tokens => some tokens
  | _ => none

def Tokens.Of (tokens : Tokens) (userId : String) : Prop :=
  tokens.accessToken.sub = userId ∧ tokens.refreshToken.sub = userId

def HandedOut (cfg : Config Api ℕ World Response) (tokens : Tokens) : Prop :=
  ∃ i response, cfg.outcome? i = some (.ok response) ∧ response.tokens? = some tokens

/-- Only the gateway signs tokens: those that come with the request of the step have been issued. -/
def Unforged (incoming : ℕ → HttpRequest) (cfg : Config Api ℕ World Response) :
    Label ℕ Choice Move → Prop
  | .run i _ =>
    (∀ token ∈ (incoming i).accessToken, ∃ tokens, HandedOut cfg tokens ∧ tokens.accessToken = token) ∧
      ∀ token ∈ (incoming i).refreshToken, ∃ tokens, HandedOut cfg tokens ∧ tokens.refreshToken = token
  | .move _ => True

/-! ## Requests that are answered with tokens -/

/-- What a request has done that is answered with tokens. -/
inductive HttpRequest.Grants (r : HttpRequest) (h : List (Event Api)) (tokens : Tokens) : Prop where
  | login (email password : String) (u : User) (hroute : r.route = .inl (.login email password))
      (hfound : (⟨.prisma (.userFindUnique (.email email)), .ok (some u)⟩ : Event Api) ∈ h)
      (hmatch : (⟨.bcryptCompare password u.password, .ok true⟩ : Event Api) ∈ h)
      (hof : tokens.Of u.id)
  | refresh (token : RefreshToken) (u : User) (hcookie : r.refreshToken = some token)
      (hfound : (⟨.prisma (.userFindUnique (.id token.sub)), .ok (some u)⟩ : Event Api) ∈ h)
      (hof : tokens.Of u.id)

def FoundUser (user : User) (h : List (Event Api)) : Prop :=
  (∃ email, (⟨.prisma (.userFindUnique (.email email)), .ok (some user)⟩ : Event Api) ∈ h) ∨
    ∃ id, (⟨.prisma (.userFindUnique (.id id)), .ok (some user)⟩ : Event Api) ∈ h

theorem FoundUser.mono {user : User} {h h' : List (Event Api)} (hfound : FoundUser user h)
    (hmem : ∀ e ∈ h, e ∈ h') : FoundUser user h' :=
  hfound.imp (fun ⟨email, he⟩ => ⟨email, hmem _ he⟩) fun ⟨id, he⟩ => ⟨id, hmem _ he⟩

/-- The refresh token that `generateTokens` signs. -/
def User.refreshToken (user : User) (tokenId : String) (now : Time) : RefreshToken where
  sub := user.id
  email := user.email
  role := user.role
  tokenId := tokenId
  iat := now / 1000
  exp := now / 1000 + JWT_REFRESH_TOKEN_EXPIRATION

def Call.StoresNoToken : Call → Prop
  | .redis (.set (.refreshToken _) _ _) => False
  | .redis (.expire (.refreshToken _) _) => False
  | _ => True

/-- The recorder lets `login` and `refresh` do what they do. -/
structure Issuing (call : List (Event Api) → Call → Prop) : Prop where
  other : ∀ h c, c.StoresNoToken → call h c
  store : ∀ h (user : User) tokenId now, FoundUser user h →
    (⟨.randomUUID, .ok tokenId⟩ : Event Api) ∈ h → (⟨.dateNow, .ok now⟩ : Event Api) ∈ h →
    call h (.redis (.set (.refreshToken user.id) (user.refreshToken tokenId now) (7 * 24 * 60 * 60)))

theorem historian_issuing : Issuing fun _ _ => True :=
  ⟨fun _ _ _ => trivial, fun _ _ _ _ _ _ _ => trivial⟩

theorem storesNoToken_quiet (c : Call) (h : c.IsQuiet) : c.StoresNoToken := by
  cases c with
  | redis c => exact h.elim
  | _ => trivial

section Programs

variable {call : List (Event Api) → Call → Prop} {h : List (Event Api)} {α : Type}

theorem issue_of (hcall : Issuing call) {user : User} (hfound : FoundUser user h)
    {f : Tokens → Prog Api α} {post : Except Exception α → List (Event Api) → Prop}
    (herr : ∀ e h, post (.error e) h)
    (hf : ∀ tokens h', tokens.Of user.id → (∀ e ∈ h, e ∈ h') →
      Obeys (recorder call) post (f tokens) h') :
    Obeys (recorder call) post (do
      let tokens ← AuthService.generateTokens user
      AuthService.storeRefreshToken user.id tokens.refreshToken
      f tokens) h := by
  refine obeys_bind (obeys_await (hcall.other _ _ trivial) (fun tokenId _ => ?_) fun e _ => herr e _)
  refine obeys_await (hcall.other _ _ trivial) (fun now _ => ?_) fun e _ => herr e _
  refine obeys_await ?_ (fun _ _ => ?_) fun e _ => herr e _
  · exact hcall.store _ user tokenId now (hfound.mono fun e he => by simp [recorder, he])
      (by simp [recorder]) (by simp [recorder])
  · exact hf _ _ ⟨rfl, rfl⟩ fun e he => by simp [recorder, he]

theorem issuing_then (hcall : Issuing call) {β : Type} {p : Prog Api α}
    (hp : p.Calls Call.StoresNoToken) {f : α → Prog Api β}
    {post : Except Exception β → List (Event Api) → Prop} (herr : ∀ e h, post (.error e) h)
    (hf : ∀ a h', Obeys (recorder call) post (f a) h') :
    Obeys (recorder call) post (p >>= f) h := by
  refine obeys_bind (obeys_mono (obeys_of_allowed hp hcall.other) fun o h' _ => ?_)
  cases o with
  | ok a => exact hf a h'
  | error e => exact herr e h'

theorem login_grants (hcall : Issuing call) (email password : String) (context : LoginContext) :
    Obeys (recorder call) (fun o h => ∀ answer, o = .ok answer →
        ∃ u : User, (⟨.prisma (.userFindUnique (.email email)), .ok (some u)⟩ : Event Api) ∈ h ∧
          (⟨.bcryptCompare password u.password, .ok true⟩ : Event Api) ∈ h ∧ answer.1.Of u.id)
      (AuthService.login email password context) h := by
  refine issuing_then hcall (checkAccountLockout_calls storesNoToken_quiet trivial trivial)
    (fun e _ answer h => nomatch h) fun _ h₁ => ?_
  refine obeys_await (hcall.other _ _ trivial) (fun found _ => ?_) fun e _ answer h => nomatch h
  split
  · exact issuing_then hcall (handleFailedLogin_calls storesNoToken_quiet trivial trivial context none)
      (fun e _ answer h => nomatch h) fun _ _ answer h => nomatch h
  · rename_i u hu
    have hfound : found = some u := (Option.filter_eq_some_iff.mp hu).1
    refine obeys_await (hcall.other _ _ trivial) (fun valid _ => ?_) fun e _ answer h => nomatch h
    split
    · exact issuing_then hcall
        (handleFailedLogin_calls storesNoToken_quiet trivial trivial context (some u.id))
        (fun e _ answer h => nomatch h) fun _ _ answer h => nomatch h
    · rename_i hvalid
      have hmatch : valid = true := by simpa using hvalid
      refine obeys_bind (obeys_await (hcall.other _ _ trivial) (fun _ _ => ?_)
        fun e _ answer h => nomatch h)
      refine issue_of hcall (.inl ⟨email, by simp [recorder, hfound]⟩)
        (fun e _ answer h => nomatch h) fun tokens h' hof hmem => ?_
      refine obeys_await (hcall.other _ _ trivial) (fun _ _ => ?_) fun e _ answer h => nomatch h
      intro answer heq
      cases heq
      refine ⟨u, List.mem_append_left _ (hmem _ ?_), List.mem_append_left _ (hmem _ ?_), hof⟩
      · simp [recorder, hfound]
      · simp [recorder, hmatch]

theorem refresh_grants (hcall : Issuing call) (cookie : Option RefreshToken)
    (context : LoginContext) :
    Obeys (recorder call) (fun o h => ∀ tokens, o = .ok tokens → ∃ token, cookie = some token ∧
        ∃ u : User, (⟨.prisma (.userFindUnique (.id token.sub)), .ok (some u)⟩ : Event Api) ∈ h ∧
          tokens.Of u.id)
      (AuthController.refresh cookie context) h := by
  cases cookie with
  | none => exact fun tokens h => by cases h
  | some token =>
    have hother := hcall.other
    rw [AuthController.refresh, JwtRefreshGuard.canActivate, verifyJwt_some, bind_assoc, bind_assoc]
    refine obeys_await (hother _ _ trivial) (fun now _ => ?_) fun e _ tokens h => by cases h
    split
    swap
    · exact fun tokens h => by cases h
    rw [pure_bind, JwtRefreshStrategy.validate, bind_assoc]
    refine obeys_await (hother _ _ trivial) (fun stored _ => ?_) fun e _ tokens h => by cases h
    split
    · exact fun tokens h => by cases h
    rw [bind_assoc]
    refine obeys_await (hother _ _ trivial) (fun blacklisted _ => ?_) fun e _ tokens h => by cases h
    split
    · exact fun tokens h => by cases h
    rw [pure_bind]
    refine obeys_await (hother _ _ trivial) (fun found _ => ?_) fun e _ tokens h => by cases h
    split
    · refine obeys_await (hother _ _ trivial) (fun _ _ => ?_) fun e _ tokens h => by cases h
      exact fun tokens h => by cases h
    · rename_i u hu
      have hfound : found = some u := (Option.filter_eq_some_iff.mp hu).1
      refine issue_of hcall (.inr ⟨token.sub, by simp [recorder, hfound]⟩)
        (fun e _ tokens h => by cases h) fun tokens h' hof hmem => ?_
      refine obeys_await (hother _ _ trivial) (fun _ _ => ?_) fun e _ tokens h => by cases h
      intro tokens heq
      cases heq
      refine ⟨token, rfl, u, List.mem_append_left _ (hmem _ ?_), hof⟩
      simp [recorder, hfound]

theorem handle_tokens (context : LoginContext) (user : UserPayload) (route : UserRoute) :
    (route.handle context user).Returns fun response => response.tokens? = none := by
  cases route with
  | uploadCv file dto => exact returns_bind fun _ => returns_bind fun _ => rfl
  | _ => exact returns_bind fun _ => rfl

/-- A request that is answered with tokens is a login whose password matched, or came with a token. -/
theorem prog_grants (r : HttpRequest) :
    Obeys historian (fun o h => ∀ response tokens, o = .ok response →
        response.tokens? = some tokens → r.Grants h tokens) r.prog [] := by
  -- most requests are never answered with tokens
  have hnone : r.prog.Returns (fun response => response.tokens? = none) →
      Obeys historian (fun o h => ∀ response tokens, o = .ok response →
        response.tokens? = some tokens → r.Grants h tokens) r.prog [] := by
    intro hreturns
    refine obeys_mono (obeys_returns (fun _ _ => trivial) hreturns) ?_
    intro o h hnone response tokens ho ht
    rw [hnone response ho] at ht
    cases ht
  obtain ⟨accessToken, refreshToken, context, route⟩ := r
  cases route with
  | inl route =>
    cases route with
    | signup email password fullName role => exact hnone (returns_bind fun _ => rfl)
    | login email password =>
      refine obeys_bind
        (obeys_mono (login_grants historian_issuing email password context) fun o h ho => ?_)
      cases o with
      | error e => exact fun response tokens h => nomatch h
      | ok answer =>
        intro response tokens heq ht
        cases heq
        cases ht
        obtain ⟨u, hfound, hmatch, hof⟩ := ho _ rfl
        exact .login email password u rfl hfound hmatch hof
    | refresh =>
      refine obeys_bind
        (obeys_mono (refresh_grants historian_issuing refreshToken context) fun o h ho => ?_)
      cases o with
      | error e => exact fun response tokens h => nomatch h
      | ok answer =>
        intro response tokens heq ht
        cases heq
        cases ht
        obtain ⟨token, hcookie, u, hfound, hof⟩ := ho _ rfl
        exact .refresh token u hcookie hfound hof
  | inr route => exact hnone (returns_bind fun user => handle_tokens context user route)

end Programs

/-! ## Runs -/

/-- What a login or a refresh has been told, in a later world. -/
def SignInFact (w : World) : Event Api → Prop
  | ⟨.prisma (.userFindUnique (.email email)), .ok (some u)⟩ =>
    u.email = email ∧ ∃ y ∈ w.db.users.rows, Later User.identity User.deletedAt u y
  | ⟨.prisma (.userFindUnique (.id id)), .ok (some u)⟩ =>
    u.id = id ∧ ∃ y ∈ w.db.users.rows, Later User.identity User.deletedAt u y
  | ⟨.bcryptCompare plain hashed, .ok valid⟩ => valid = w.bcrypt plain hashed
  | ⟨.dateNow, .ok now⟩ => now ≤ w.now
  | _ => True

theorem signInFact_keeps {w w' : World} (h : w.Keeps w') (hbcrypt : w'.bcrypt = w.bcrypt)
    (hnow : w.now ≤ w'.now) {e : Event Api} (he : SignInFact w e) : SignInFact w' e := by
  have hrow : ∀ {u : User}, (∃ y ∈ w.db.users.rows, Later User.identity User.deletedAt u y) →
      ∃ z ∈ w'.db.users.rows, Later User.identity User.deletedAt u z := by
    rintro u ⟨y, hy, hlater⟩
    obtain ⟨z, hz, hlater'⟩ := h.users y hy
    exact ⟨z, hz, hlater.trans hlater'⟩
  unfold SignInFact at he ⊢
  split at he
  · exact ⟨he.1, hrow he.2⟩
  · exact ⟨he.1, hrow he.2⟩
  · rw [hbcrypt]
    exact he
  · exact le_trans he hnow
  · trivial

theorem signInFact_exec {w w' : World} {i : ℕ} {ch : Choice} {e : Event Api}
    (h : gateway.exec i e.call ch w = some (e.answer, w')) : SignInFact w' e := by
  unfold SignInFact
  split
  · obtain ⟨rfl, hperf⟩ := read_answer h trivial
    simp only [PrismaCall.perform, Prod.mk.injEq, Except.ok.injEq, and_true] at hperf
    obtain ⟨hu, hemail⟩ := Table.findUnique?_eq_some.mp hperf
    exact ⟨hemail, _, hu, .refl _⟩
  · obtain ⟨rfl, hperf⟩ := read_answer h trivial
    simp only [PrismaCall.perform, Prod.mk.injEq, Except.ok.injEq, and_true] at hperf
    obtain ⟨hu, hid⟩ := Table.find?_eq_some.mp hperf
    exact ⟨hid, _, hu, .refl _⟩
  · obtain ⟨heq, rfl⟩ := bcryptCompare_cases h
    exact Except.ok.inj heq
  · obtain ⟨heq, rfl⟩ := dateNow_cases h
    exact le_of_eq (Except.ok.inj heq)
  · trivial

section Steps

variable {α : Type} {cfg cfg' : Config Api ℕ World α} {l : Label ℕ Choice Move}

theorem signInFact_run {pool : ℕ → Prog Api α} {w : World} {ls : List (Label ℕ Choice Move)}
    (hmarks : KeepMarks (.start w pool)) (hrun : gateway.run ls (.start w pool) = some cfg) :
    ∀ e ∈ cfg.log, SignInFact cfg.world e.2 :=
  Machine.facts_run (F := SignInFact) KeepMarks calls_step (fun _ hx => signInFact_exec hx)
    (fun h hs => signInFact_keeps (keeps_step h hs) (bcrypt_step hs) (now_step hs)) hmarks
    (fun _ he => absurd he List.not_mem_nil) hrun

end Steps

/-- A login with the user's password has been answered with success. -/
def PasswordGiven (incoming : ℕ → HttpRequest) (cfg : Config Api ℕ World Response)
    (userId : String) : Prop :=
  ∃ i password response, ∃ row ∈ cfg.world.db.users.rows, row.id = userId ∧
    (incoming i).route = .inl (.login row.email password) ∧
    cfg.world.bcrypt password row.password = true ∧ cfg.outcome? i = some (.ok response)

/-- Every token that has come with a request that has begun is of a user whose password has been
given. -/
def Vouched (incoming : ℕ → HttpRequest) (cfg : Config Api ℕ World Response) : Prop :=
  ∀ i, cfg.trace i ≠ [] →
    (∀ token ∈ (incoming i).accessToken, PasswordGiven incoming cfg token.sub) ∧
      ∀ token ∈ (incoming i).refreshToken, PasswordGiven incoming cfg token.sub

section Run

variable {incoming : ℕ → HttpRequest} {w : World} {ls : List (Label ℕ Choice Move)}
  {cfg cfg' : Config Api ℕ World Response} {l : Label ℕ Choice Move}

theorem passwordGiven_step (hmarks : KeepMarks cfg) (hs : gateway.step l cfg = some cfg')
    {userId : String} (h : PasswordGiven incoming cfg userId) :
    PasswordGiven incoming cfg' userId := by
  obtain ⟨i, password, response, row, hrow, hid, hroute, hmatch, ho⟩ := h
  obtain ⟨row', hrow', hlater⟩ := (keeps_step hmarks hs).users row hrow
  have hsame : row'.id = row.id ∧ row'.email = row.email ∧ row'.password = row.password ∧
      row'.createdAt = row.createdAt := by simpa [User.identity] using hlater.same
  refine ⟨i, password, response, row', hrow', hsame.1.trans hid, ?_, ?_, outcome_step ho hs⟩
  · rw [hsame.2.1]
    exact hroute
  · rw [bcrypt_step hs, hsame.2.2.1]
    exact hmatch

/-- A request that is answered with tokens is a login with the password of their user, or has come
with a token of the same user. -/
theorem granted (hrun : gateway.run ls (.start w (HttpRequest.pool incoming)) = some cfg) {i : ℕ}
    {response : Response} {tokens : Tokens} (ho : cfg.outcome? i = some (.ok response))
    (ht : response.tokens? = some tokens) :
    (∃ userId, tokens.Of userId ∧ PasswordGiven incoming cfg userId) ∨
      ∃ token, (incoming i).refreshToken = some token ∧ tokens.Of token.sub ∧ cfg.trace i ≠ [] := by
  have hplays := pool_plays hrun i
  rw [Prog.outcome?_eq_ok ho] at hplays
  have hfact : ∀ e ∈ cfg.trace i, SignInFact cfg.world e := fun e he =>
    signInFact_run (http_keepMarks incoming w) hrun (i, e) (Config.mem_trace.mp he)
  cases plays_recorded (prog_grants (incoming i)) hplays response tokens rfl ht with
  | login email password u hroute hfound hmatch hof =>
    left
    obtain ⟨rfl, row, hrow, hlater⟩ := hfact _ hfound
    have hsame : row.id = u.id ∧ row.email = u.email ∧ row.password = u.password ∧
        row.createdAt = u.createdAt := by simpa [User.identity] using hlater.same
    refine ⟨u.id, hof, i, password, response, row, hrow, hsame.1, ?_, ?_, ho⟩
    · rw [hsame.2.1]
      exact hroute
    · rw [hsame.2.2.1]
      exact (hfact _ hmatch).symm
  | refresh token u hcookie hfound hof =>
    obtain ⟨hid, -⟩ := hfact _ hfound
    exact .inr ⟨token, hcookie, hid ▸ hof, List.ne_nil_of_mem hfound⟩

theorem handedOut_given (hrun : gateway.run ls (.start w (HttpRequest.pool incoming)) = some cfg)
    (hvouched : Vouched incoming cfg) {tokens : Tokens} (h : HandedOut cfg tokens) :
    ∃ userId, tokens.Of userId ∧ PasswordGiven incoming cfg userId := by
  obtain ⟨i, response, ho, ht⟩ := h
  obtain hgiven | ⟨token, hcookie, hof, hbegun⟩ := granted hrun ho ht
  · exact hgiven
  · exact ⟨token.sub, hof, (hvouched i hbegun).2 token hcookie⟩

theorem vouched_step (hrun : gateway.run ls (.start w (HttpRequest.pool incoming)) = some cfg)
    (h : Vouched incoming cfg) (hunforged : Unforged incoming cfg l)
    (hs : gateway.step l cfg = some cfg') : Vouched incoming cfg' := by
  have hmarks := calls_run (http_keepMarks incoming w) hrun
  have hold : ∀ {userId}, PasswordGiven incoming cfg userId → PasswordGiven incoming cfg' userId :=
    passwordGiven_step hmarks hs
  intro j hbegun
  by_cases hbefore : cfg.trace j = []
  · obtain ⟨i, ch, c, k, r, w', rfl, hp, hx, rfl⟩ | ⟨mv, w', rfl, hm, rfl⟩ := Machine.step_cases hs
    · have hj : j = i := by
        by_contra hj
        rw [Config.answered_trace_ne _ _ _ _ _ hj] at hbegun
        exact hbegun hbefore
      subst hj
      refine ⟨fun token htoken => ?_, fun token htoken => ?_⟩
      · obtain ⟨tokens, hhanded, rfl⟩ := hunforged.1 token htoken
        obtain ⟨userId, hof, hgiven⟩ := handedOut_given hrun h hhanded
        exact hold (hof.1 ▸ hgiven)
      · obtain ⟨tokens, hhanded, rfl⟩ := hunforged.2 token htoken
        obtain ⟨userId, hof, hgiven⟩ := handedOut_given hrun h hhanded
        exact hold (hof.2 ▸ hgiven)
    · exact absurd hbefore hbegun
  · obtain ⟨haccess, hrefresh⟩ := h j hbefore
    exact ⟨fun token ht => hold (haccess token ht), fun token ht => hold (hrefresh token ht)⟩

theorem vouched_run (hrun : gateway.run ls (.start w (HttpRequest.pool incoming)) = some cfg)
    (hunforged : gateway.Along (Unforged incoming) ls (.start w (HttpRequest.pool incoming))) :
    Vouched incoming cfg := by
  refine (Machine.run_induction_along (fun cfg => Vouched incoming cfg ∧
      ∃ ls, gateway.run ls (.start w (HttpRequest.pool incoming)) = some cfg)
    (fun {cfg l cfg'} h hl hs => ?_) ⟨fun i hbegun => absurd rfl hbegun, [], rfl⟩ hunforged hrun).1
  obtain ⟨hvouched, ls, hrun⟩ := h
  refine ⟨vouched_step hrun hvouched hl hs, ls ++ [l], ?_⟩
  exact Machine.run_append.mpr ⟨cfg, hrun, Machine.run_cons.mpr ⟨cfg', hs, rfl⟩⟩

/-- If no tokens are forged, then the password of a user has been given before tokens of the user are
handed out, before a request for the user makes any call that could change the world, and before it
is answered with success. -/
theorem passwords_first
    (hrun : gateway.run ls (.start w (HttpRequest.pool incoming)) = some cfg)
    (hunforged : gateway.Along (Unforged incoming) ls (.start w (HttpRequest.pool incoming))) :
    (∀ tokens, HandedOut cfg tokens → ∃ userId, tokens.Of userId ∧ PasswordGiven incoming cfg userId) ∧
      ∀ i route, (incoming i).route = .inr route →
        (∀ c, (cfg.pool i).next? = some c → ¬ gateway.Passive c →
          ∃ user, Cleared (incoming i) route (cfg.trace i) user ∧
            PasswordGiven incoming cfg user.id) ∧
        ∀ response, cfg.outcome? i = some (.ok response) →
          ∃ user, Cleared (incoming i) route (cfg.trace i) user ∧
            PasswordGiven incoming cfg user.id := by
  have hvouched := vouched_run hrun hunforged
  refine ⟨fun tokens h => handedOut_given hrun hvouched h, fun i route hroute => ?_⟩
  have hgiven : ∀ user, Cleared (incoming i) route (cfg.trace i) user →
      PasswordGiven incoming cfg user.id := by
    intro user hcleared
    obtain ⟨token, hcookie, now, row, -, -, hread, -, rfl⟩ := hcleared.signed
    obtain ⟨hid, -⟩ := signInFact_run (http_keepMarks incoming w) hrun _ (Config.mem_trace.mp hread)
    change PasswordGiven incoming cfg row.id
    rw [hid]
    exact (hvouched i (List.ne_nil_of_mem hread)).1 token hcookie
  obtain ⟨hpassive, hnotOk⟩ | ⟨user, hcleared, -⟩ := mediated_plays hroute (pool_plays hrun i)
  · exact ⟨fun c hc hnot => absurd (hpassive c hc) hnot,
      fun response ho => absurd ho (hnotOk response)⟩
  · exact ⟨fun c hc hnot => ⟨user, hcleared, hgiven user hcleared⟩,
      fun response ho => ⟨user, hcleared, hgiven user hcleared⟩⟩

end Run

/-! ## Ada -/

def issued? (cfg : Config Api ℕ World Response) (i : ℕ) : Option Tokens :=
  (cfg.outcome? i).bind fun o => o.toOption.bind Response.tokens?

theorem handedOut_of_issued {cfg : Config Api ℕ World Response} {i : ℕ} {tokens : Tokens}
    (h : issued? cfg i = some tokens) : HandedOut cfg tokens := by
  obtain ⟨o, ho, htokens⟩ := Option.bind_eq_some_iff.mp h
  cases o with
  | error e => cases htokens
  | ok response => exact ⟨i, response, ho, htokens⟩

/-- The tokens of the step's request have been issued to one of the first `n` requests. -/
def IssuedAmong (n : ℕ) (incoming : ℕ → HttpRequest) (cfg : Config Api ℕ World Response) :
    Label ℕ Choice Move → Bool
  | .run i _ =>
    ((incoming i).accessToken.all fun token =>
        (List.range n).any fun j => (issued? cfg j).any fun t => t.accessToken = token) &&
      (incoming i).refreshToken.all fun token =>
        (List.range n).any fun j => (issued? cfg j).any fun t => t.refreshToken = token
  | .move _ => true

theorem unforged_of_issuedAmong {n : ℕ} {incoming : ℕ → HttpRequest}
    (cfg : Config Api ℕ World Response) (l : Label ℕ Choice Move)
    (h : IssuedAmong n incoming cfg l = true) : Unforged incoming cfg l := by
  cases l with
  | move mv => trivial
  | run i ch =>
    simp only [IssuedAmong, Bool.and_eq_true, Option.all_eq_true, List.any_eq_true,
      Option.any_eq_true, decide_eq_true_eq] at h
    constructor
    · intro token htoken
      obtain ⟨j, -, tokens, hissued, heq⟩ := h.1 token htoken
      exact ⟨tokens, handedOut_of_issued hissued, heq⟩
    · intro token htoken
      obtain ⟨j, -, tokens, hissued, heq⟩ := h.2 token htoken
      exact ⟨tokens, handedOut_of_issued hissued, heq⟩

def adasTokens : Tokens where
  accessToken := adasAccess
  refreshToken :=
    { sub := "u-ada", email := ada.email, role := .admin, tokenId := "t-0", iat := 0,
      exp := JWT_REFRESH_TOKEN_EXPIRATION }

/-- What it is exchanged for ten minutes later. -/
def adasNextTokens : Tokens where
  accessToken := { adasAccess with iat := 600, exp := 600 + JWT_ACCESS_TOKEN_EXPIRATION }
  refreshToken :=
    { adasTokens.refreshToken with
      tokenId := "t-1", iat := 600, exp := 600 + JWT_REFRESH_TOKEN_EXPIRATION }

/-- Ada signs in, refreshes her session, and deletes Ian with the new one. -/
def adaRefreshes : ℕ → HttpRequest
  | 0 => { route := .inl (.login ada.email "Ada-2024!") }
  | 1 => { refreshToken := some adasTokens.refreshToken, route := .inl .refresh }
  | _ =>
    { accessToken := some adasNextTokens.accessToken, route := .inr (.softDeleteUser "u-ian") }

def adasSteps : List (Label ℕ Choice Move) :=
  List.replicate 8 (.run 0 { uuid := "t-0" }) ++ [.move (.tick 600000)] ++
    List.replicate 8 (.run 1 { uuid := "t-1" }) ++ List.replicate 5 (.run 2 {})

theorem passwords_first_ada :
    ∃ cfg, gateway.run adasSteps (.start seeded (HttpRequest.pool adaRefreshes)) = some cfg ∧
      issued? cfg 1 = some adasNextTokens ∧
      (∃ userId, adasNextTokens.Of userId ∧ PasswordGiven adaRefreshes cfg userId) ∧
      ∃ user, Cleared (adaRefreshes 2) (.softDeleteUser "u-ian") (cfg.trace 2) user ∧
        PasswordGiven adaRefreshes cfg user.id := by
  have h : (gateway.run adasSteps (.start seeded (HttpRequest.pool adaRefreshes))).map
      (fun cfg => (issued? cfg 1, (cfg.outcome? 2).map Except.isOk)) =
      some (some adasNextTokens, some true) := by decide +kernel
  obtain ⟨cfg, hrun, heq⟩ := Option.map_eq_some_iff.mp h
  obtain ⟨hissued, hdone⟩ := Prod.mk.inj heq
  have hunforged : gateway.Along (fun cfg l => IssuedAmong 2 adaRefreshes cfg l = true) adasSteps
      (.start seeded (HttpRequest.pool adaRefreshes)) := by decide +kernel
  obtain ⟨htokens, hroutes⟩ := passwords_first hrun (Machine.along_iff.mpr
    (Runs.along_mono (Machine.along_iff.mp hunforged) unforged_of_issuedAmong))
  refine ⟨cfg, hrun, hissued, htokens adasNextTokens (handedOut_of_issued hissued), ?_⟩
  obtain ⟨o, ho, hok⟩ := Option.map_eq_some_iff.mp hdone
  cases o with
  | error e => cases hok
  | ok response => exact (hroutes 2 (.softDeleteUser "u-ian") rfl).2 response ho

end TalentFlow
