import TalentFlow.Guarantees.Identity
import TalentFlow.Guarantees.Mediation

/-!
# Guarantees.Revocation

Rights that are taken away. Tokens are not taken back when a user is deleted or gets another role,
and the refresh token stays in Redis; but every request reads the user's row again. So what a request
may do is decided by the row as it is at some moment of the request, never by an older one. And since
the mark of deletion is never cleared and no other user gets the id or the email, a deleted user is
locked out for good: a request that starts after the deletion and acts for the user, by access token,
by refresh token or by password, is never answered with success, and all that it makes are calls that
read, count and log.

* `authorized_within`: when a request that runs for a user has been authorized.
* `HttpRequest.ActsFor`: the three ways in.
* `shut_obeys`: what such a request does, as long as the user is found deleted.
* `deleted_locked_out`: in every run.
-/

namespace TalentFlow

open Data Async

/-! ## Roles -/

section Authorized

variable {incoming : ℕ → HttpRequest} {w : World} {ls₁ ls₂ : List (Label ℕ Choice Move)}
  {cfg₁ cfg₂ : Config Api ℕ World Response} {i : ℕ} {route : UserRoute}

/-- Some state on the way satisfies `P`. -/
def Meanwhile (ls : List (Label ℕ Choice Move)) (cfg : Config Api ℕ World Response)
    (P : World → Prop) : Prop :=
  ∃ ls₁ ls₂ cfg₁, ls = ls₁ ++ ls₂ ∧ gateway.run ls₁ cfg = some cfg₁ ∧ P cfg₁.world

/-- A request that runs for a user and is about to make a call that could change the world, or is
answered with success, has been authorized since it began: at some state since then its token had not
expired, and at some state the bearer was a user who is not deleted and has a role the handler asks
for. -/
theorem authorized_within
    (hrun₁ : gateway.run ls₁ (.start w (HttpRequest.pool incoming)) = some cfg₁)
    (hnew : cfg₁.trace i = []) (hrun₂ : gateway.run ls₂ cfg₁ = some cfg₂)
    (hroute : (incoming i).route = .inr route)
    (hacts : (∃ c, (cfg₂.pool i).next? = some c ∧ ¬ gateway.Passive c) ∨
      ∃ response, cfg₂.outcome? i = some (.ok response)) :
    ∃ token, (incoming i).accessToken = some token ∧
      Meanwhile ls₂ cfg₁ (fun w => w.now / 1000 < token.exp) ∧
      Meanwhile ls₂ cfg₁ fun w => ∃ u ∈ w.db.users.rows, u.id = token.sub ∧ u.deletedAt = none ∧
        ∀ roles ∈ route.requiredRoles, u.role ∈ roles := by
  have hrun : gateway.run (ls₁ ++ ls₂) (.start w (HttpRequest.pool incoming)) = some cfg₂ :=
    Machine.run_append.mpr ⟨cfg₁, hrun₁, hrun₂⟩
  have hcleared : ∃ user, Cleared (incoming i) route (cfg₂.trace i) user := by
    obtain ⟨hpassive, hnotOk⟩ | ⟨user, hcleared, -⟩ := mediated_plays hroute (pool_plays hrun i)
    · obtain ⟨c, hc, hnot⟩ | ⟨response, ho⟩ := hacts
      · exact absurd (hpassive c hc) hnot
      · exact absurd ho (hnotOk response)
    · exact ⟨user, hcleared⟩
  obtain ⟨user, ⟨token, hcookie, now, row, hnow, hexp, hread, hlive, rfl⟩, hroles⟩ := hcleared
  -- what the request has been told, it has been told since it began
  have hsince : ∀ e ∈ cfg₂.trace i, ∃ ls ls' cfg ch w, ls₂ = ls ++ ls' ∧
      gateway.run ls cfg₁ = some cfg ∧
      gateway.exec i e.call ch cfg.world = some (e.answer, w) := by
    intro e he
    refine (Machine.exec_of_mem_log hrun₂ (Config.mem_trace.mp he)).resolve_left fun hold => ?_
    have hmem : e ∈ cfg₁.trace i := Config.mem_trace.mpr hold
    rw [hnew] at hmem
    cases hmem
  refine ⟨token, hcookie, ?_, ?_⟩
  · obtain ⟨ls, ls', cfg, ch, w', hls, hrun', hx⟩ := hsince _ hnow
    refine ⟨ls, ls', cfg, hls, hrun', ?_⟩
    have heq : now = cfg.world.now := Except.ok.inj (dateNow_cases hx).1
    change cfg.world.now / 1000 < token.exp
    rwa [← heq]
  · obtain ⟨ls, ls', cfg, ch, w', hls, hrun', hx⟩ := hsince _ hread
    refine ⟨ls, ls', cfg, hls, hrun', row, ?_⟩
    obtain ⟨-, hperf⟩ := read_answer hx trivial
    simp only [PrismaCall.perform, Prod.mk.injEq, Except.ok.injEq, and_true] at hperf
    obtain ⟨hrow, hid⟩ := Table.find?_eq_some.mp hperf
    exact ⟨hrow, hid, hlive, hroles⟩

end Authorized

theorem authorized_within_ada :
    ∃ cfg₂, gateway.run (List.replicate 5 (.run 0 {}))
        (.start seeded (HttpRequest.pool (adaAsks (.softDeleteUser "u-ian")))) = some cfg₂ ∧
      ∃ token, (adaAsks (.softDeleteUser "u-ian") 0).accessToken = some token ∧
        Meanwhile (List.replicate 5 (.run 0 {}))
          (.start seeded (HttpRequest.pool (adaAsks (.softDeleteUser "u-ian"))))
          (fun w => w.now / 1000 < token.exp) ∧
        Meanwhile (List.replicate 5 (.run 0 {}))
          (.start seeded (HttpRequest.pool (adaAsks (.softDeleteUser "u-ian"))))
          fun w => ∃ u ∈ w.db.users.rows, u.id = token.sub ∧ u.deletedAt = none ∧
            ∀ roles ∈ (UserRoute.softDeleteUser "u-ian").requiredRoles, u.role ∈ roles := by
  have h : ((gateway.run (List.replicate 5 (.run 0 {}))
      (.start seeded (HttpRequest.pool (adaAsks (.softDeleteUser "u-ian"))))).any fun cfg =>
        (cfg.outcome? 0).any Except.isOk) = true := by decide +kernel
  obtain ⟨cfg, hrun, h⟩ := (Option.any_eq_true _ _).mp h
  obtain ⟨o, ho, hok⟩ := (Option.any_eq_true _ _).mp h
  refine ⟨cfg, hrun, ?_⟩
  cases o with
  | error e => cases hok
  | ok response =>
    exact @authorized_within _ seeded [] _ (.start seeded _) _ 0 _ rfl rfl hrun rfl
      (.inr ⟨response, ho⟩)

/-! ## Deleted users -/

/-- The request comes with a token of the user, or with the user's email to sign in. -/
def HttpRequest.ActsFor (r : HttpRequest) (u : User) : Prop :=
  match r.route with
  | .inl (.signup _ _ _ _) => False
  | .inl (.login email _) => email = u.email
  | .inl .refresh => ∃ token, r.refreshToken = some token ∧ token.sub = u.id
  | .inr _ => ∃ token, r.accessToken = some token ∧ token.sub = u.id

/-- The call reads, counts a failed login, or logs. -/
def Call.OnlyAsks : Call → Prop
  | .redis (.get _) => True
  | .redis (.ttl _) => True
  | .redis (.existsKey _) => True
  | .redis (.incr _) => True
  | .redis (.expire (.loginAttempts _) _) => True
  | c => c.IsQuiet

theorem asks_quiet (c : Call) (h : c.IsQuiet) : c.OnlyAsks := by
  cases c with
  | redis c => exact h.elim
  | _ => exact h

/-- Whoever looks for the user finds a deleted one. -/
def Shut (u : User) : (c : Call) → Api.Answer c → Prop
  | .prisma (.userFindUnique (.id id)), .ok (some row) => id = u.id → row.deletedAt ≠ none
  | .prisma (.userFindUnique (.email email)), .ok (some row) =>
    email = u.email → row.deletedAt ≠ none
  | _, _ => True

/-- The monitor of a request that acts for a deleted user. -/
def shutMonitor (u : User) : Monitor Api Unit where
  next _ _ := ()
  call _ := Call.OnlyAsks
  answer _ := Shut u

/-- The request is refused. -/
def Turned {α : Type} (o : Except Exception α) (_ : Unit) : Prop := ∀ a, o ≠ .ok a

section Requests

variable {u : User} {α β : Type}

theorem turned_error {e : Exception} {s : Unit} : Turned (.error e : Except Exception α) s :=
  fun _ h => nomatch h

theorem turned_bind {p : Prog Api α} {f : α → Prog Api β} (hp : p.Calls Call.OnlyAsks)
    (hf : ∀ a, Obeys (shutMonitor u) Turned (f a) ()) :
    Obeys (shutMonitor u) Turned (p >>= f) () := by
  refine obeys_bind (obeys_mono (obeys_of_allowed hp fun _ _ => id) fun o _ _ => ?_)
  cases o with
  | ok a => exact hf a
  | error e => exact turned_error

theorem turned_before {p : Prog Api α} (hp : Obeys (shutMonitor u) Turned p ())
    (f : α → Prog Api β) : Obeys (shutMonitor u) Turned (p >>= f) () := by
  refine obeys_bind (obeys_mono hp fun o _ ho => ?_)
  cases o with
  | ok a => exact absurd rfl (ho a)
  | error e => exact turned_error

theorem filter_live_eq_none {found : Option User} (h : ∀ row, found = some row → row.deletedAt ≠ none) :
    (found.filter fun user => user.deletedAt.isNone) = none := by
  cases found with
  | none => rfl
  | some row => simpa using h row rfl

theorem canActivate_turned {token : AccessToken} (hsub : token.sub = u.id) :
    Obeys (shutMonitor u) Turned (JwtAuthGuard.canActivate (some token)) () := by
  rw [JwtAuthGuard.canActivate, verifyJwt_some, bind_assoc]
  refine obeys_await trivial (fun now _ => ?_) fun e _ => turned_error
  split
  · rw [pure_bind]
    refine obeys_await trivial (fun found hfound => ?_) fun e _ => turned_error
    cases found with
    | none => exact turned_error
    | some row =>
      dsimp only
      split
      · exact turned_error
      · rename_i hlive
        exact absurd (by simpa using hlive) (hfound hsub)
  · exact turned_error

theorem refresh_turned {token : RefreshToken} (hsub : token.sub = u.id) (context : LoginContext) :
    Obeys (shutMonitor u) Turned (AuthController.refresh (some token) context) () := by
  rw [AuthController.refresh, JwtRefreshGuard.canActivate, verifyJwt_some, bind_assoc, bind_assoc]
  refine obeys_await trivial (fun now _ => ?_) fun e _ => turned_error
  split
  swap
  · exact turned_error
  rw [pure_bind, JwtRefreshStrategy.validate, bind_assoc]
  refine obeys_await trivial (fun stored _ => ?_) fun e _ => turned_error
  split
  · exact turned_error
  rw [bind_assoc]
  refine obeys_await trivial (fun blacklisted _ => ?_) fun e _ => turned_error
  split
  · exact turned_error
  rw [pure_bind]
  refine obeys_await trivial (fun found hfound => ?_) fun e _ => turned_error
  have hnone := @filter_live_eq_none found fun row hrow => by
    rw [hrow] at hfound
    exact hfound hsub
  rw [hnone]
  exact obeys_await trivial (fun _ _ => turned_error) fun e _ => turned_error

theorem login_turned (password : String) (context : LoginContext) :
    Obeys (shutMonitor u) Turned (AuthService.login u.email password context) () := by
  refine turned_bind (checkAccountLockout_calls asks_quiet trivial trivial) fun _ => ?_
  refine obeys_await trivial (fun found hfound => ?_) fun e _ => turned_error
  have hnone := @filter_live_eq_none found fun row hrow => by
    rw [hrow] at hfound
    exact hfound rfl
  rw [hnone]
  exact turned_bind (handleFailedLogin_calls asks_quiet trivial trivial context none)
    fun _ => turned_error

/-- A request that acts for a user who is found deleted is refused. -/
theorem shut_obeys {r : HttpRequest} (h : r.ActsFor u) :
    Obeys (shutMonitor u) Turned r.prog () := by
  unfold HttpRequest.prog
  unfold HttpRequest.ActsFor at h
  split
  · rename_i hroute
    rw [hroute] at h
    exact h.elim
  · rename_i email password hroute
    rw [hroute] at h
    cases h
    exact turned_before (login_turned password r.context) _
  · rename_i hroute
    rw [hroute] at h
    obtain ⟨token, htoken, hsub⟩ := h
    rw [htoken]
    exact turned_before (refresh_turned hsub r.context) _
  · rename_i route hroute
    rw [hroute] at h
    obtain ⟨token, htoken, hsub⟩ := h
    rw [htoken]
    exact turned_before (turned_before (canActivate_turned hsub) _) _

end Requests

/-! ## Runs -/

def World.Deleted (w : World) (u : User) : Prop :=
  ∃ row ∈ w.db.users.rows, row.id = u.id ∧ row.email = u.email ∧ row.deletedAt ≠ none

theorem deleted_keeps {w w' : World} {u : User} (h : w.Keeps w') (hu : w.Deleted u) :
    w'.Deleted u := by
  obtain ⟨row, hrow, hid, hemail, hdel⟩ := hu
  obtain ⟨row', hrow', hlater⟩ := h.users row hrow
  have hsame : row'.id = row.id ∧ row'.email = row.email ∧ row'.password = row.password ∧
      row'.createdAt = row.createdAt := by simpa [User.identity] using hlater.same
  exact ⟨row', hrow', hsame.1.trans hid, hsame.2.1.trans hemail, hlater.marked hdel⟩

theorem shut_exec {i : ℕ} {c : Call} {r : Api.Answer c} {ch : Choice} {w w' : World} {u : User}
    (hu : w.Deleted u) (h : gateway.exec i c ch w = some (r, w')) : Shut u c r := by
  obtain ⟨row, hrow, hid, hemail, hdel⟩ := hu
  unfold Shut
  split
  · rintro rfl
    obtain ⟨-, hperf⟩ := read_answer h trivial
    simp only [PrismaCall.perform, Prod.mk.injEq, Except.ok.injEq, and_true] at hperf
    obtain ⟨hfound, hkey⟩ := Table.find?_eq_some.mp hperf
    rwa [w.db.users.key_inj hfound hrow (hkey.trans hid.symm)]
  · rintro rfl
    obtain ⟨-, hperf⟩ := read_answer h trivial
    simp only [PrismaCall.perform, Prod.mk.injEq, Except.ok.injEq, and_true] at hperf
    obtain ⟨hfound, hkey⟩ := Table.findUnique?_eq_some.mp hperf
    rwa [w.db.users.ukey_inj hfound hrow (hkey.trans hemail.symm)]
  · trivial

section Run

variable {incoming : ℕ → HttpRequest} {w : World} {ls₁ ls₂ : List (Label ℕ Choice Move)}
  {cfg₁ cfg₂ : Config Api ℕ World Response} {u : User} {i : ℕ}

theorem shut_run {cfg cfg' : Config Api ℕ World Response} {ls : List (Label ℕ Choice Move)}
    (hmarks : KeepMarks cfg) (hu : cfg.world.Deleted u)
    (hobeys : Obeys (shutMonitor u) Turned (cfg.pool i) ()) (hrun : gateway.run ls cfg = some cfg') :
    Obeys (shutMonitor u) Turned (cfg'.pool i) () := by
  refine (Machine.run_induction (fun cfg => KeepMarks cfg ∧ cfg.world.Deleted u ∧
    Obeys (shutMonitor u) Turned (cfg.pool i) ())
    (fun {cfg l cfg'} h hs => ⟨calls_step h.1 hs, deleted_keeps (keeps_step h.1 hs) h.2.1, ?_⟩)
    ⟨hmarks, hu, hobeys⟩ hrun).2.2
  obtain ⟨-, hu, hobeys⟩ := h
  obtain ⟨j, ch, c, k, r, w, rfl, hp, hx, rfl⟩ | ⟨mv, w, rfl, hm, rfl⟩ := Machine.step_cases hs
  · by_cases hj : i = j
    · subst hj
      rw [hp] at hobeys
      rw [Config.answered_pool_self]
      exact hobeys.2 r (shut_exec hu hx)
    · rw [Config.answered_pool_ne _ _ _ _ _ hj]
      exact hobeys
  · exact hobeys

/-- Once a user is deleted, a request that starts later and acts for the user, by an access token, by
a refresh token or by signing in, is never answered with success and only reads, counts and logs. -/
theorem deleted_locked_out
    (hrun₁ : gateway.run ls₁ (.start w (HttpRequest.pool incoming)) = some cfg₁)
    (hu : u ∈ cfg₁.world.db.users.rows) (hdeleted : u.deletedAt ≠ none)
    (hnew : cfg₁.trace i = []) (hacts : (incoming i).ActsFor u)
    (hrun₂ : gateway.run ls₂ cfg₁ = some cfg₂) :
    (∀ c, (cfg₂.pool i).next? = some c → c.OnlyAsks) ∧
      ∀ response, cfg₂.outcome? i ≠ some (.ok response) := by
  have hstart : cfg₁.pool i = (incoming i).prog := by
    have hplays := pool_plays hrun₁ i
    rw [hnew] at hplays
    exact hplays.nil_eq.symm
  have hobeys := shut_run (calls_run (http_keepMarks incoming w) hrun₁)
    ⟨u, hu, rfl, rfl, hdeleted⟩ (hstart ▸ shut_obeys hacts) hrun₂
  refine ⟨fun c hc => obeys_next? hobeys hc, fun response ho => ?_⟩
  rw [Prog.outcome?_eq_ok ho] at hobeys
  exact hobeys response rfl

end Run

/-! ## Ian -/

def iansAccess : AccessToken where
  sub := "u-ian"
  email := ian.email
  role := .interviewer
  iat := 0
  exp := JWT_ACCESS_TOKEN_EXPIRATION

def ianAfterAda : ℕ → HttpRequest
  | 0 => adaAsks (.softDeleteUser "u-ian") 0
  | _ => { accessToken := some iansAccess, route := .inr (.updateProfile "u-ian" {}) }

theorem deleted_locked_out_ian :
    ∃ cfg₁ cfg₂, gateway.run (List.replicate 5 (.run 0 {}))
        (.start seeded (HttpRequest.pool ianAfterAda)) = some cfg₁ ∧
      gateway.run (List.replicate 2 (.run 1 {})) cfg₁ = some cfg₂ ∧
      (∀ c, (cfg₂.pool 1).next? = some c → c.OnlyAsks) ∧
        ∀ response, cfg₂.outcome? 1 ≠ some (.ok response) := by
  have h : ((gateway.run (List.replicate 5 (.run 0 {}))
      (.start seeded (HttpRequest.pool ianAfterAda))).bind fun cfg₁ =>
        (gateway.run (List.replicate 2 (.run 1 {})) cfg₁).map fun _ =>
          (cfg₁.world.db.users.rows, (cfg₁.trace 1).length)) =
      some ([ada, ray, { ian with deletedAt := some 0 }], 0) := by decide +kernel
  obtain ⟨cfg₁, hrun₁, h⟩ := Option.bind_eq_some_iff.mp h
  obtain ⟨cfg₂, hrun₂, h⟩ := Option.map_eq_some_iff.mp h
  obtain ⟨hrows, htrace⟩ := Prod.mk.inj h
  have hmem : { ian with deletedAt := some 0 } ∈ cfg₁.world.db.users.rows := by simp [hrows]
  exact ⟨cfg₁, cfg₂, hrun₁, hrun₂, deleted_locked_out hrun₁ hmem (by simp)
    (List.eq_nil_of_length_eq_zero htrace) ⟨iansAccess, rfl, rfl⟩ hrun₂⟩

end TalentFlow
